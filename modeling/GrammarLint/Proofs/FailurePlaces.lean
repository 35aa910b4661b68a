import GrammarLint.Proofs.Evaluation

/-!
# Where failures lie

The matcher keeps the furthest failure it has met, at whatever depth.  It is met at a
cursor of the text, since every cursor that is reached or remembered has the rest of the
text in front of it; so an error lies within the text or at its end.
-/

namespace GrammarLint.Grammar

open Text

/-! ## Cursors and results of a text -/

def Within (size : Nat) (cursor : Cursor) : Prop :=
  cursor.offset + cursor.rest.length = size

theorem Within.moves {size : Nat} {cursor next : Cursor} {taken : List Char}
    (h : Within size cursor) (hmoves : Moves cursor taken next) : Within size next := by
  have hlength := hmoves.length_eq
  have hoffset := hmoves.offset_eq
  unfold Within at h ⊢
  omega

theorem Within.offset_le {size : Nat} {cursor : Cursor} (h : Within size cursor) :
    cursor.offset ≤ size :=
  h ▸ Nat.le_add_right _ _

structure Progress.Within (size : Nat) (progress : Progress) : Prop where
  known : ∀ {rule offset tree next}, progress.lookup? rule offset = some (some (tree, next)) →
    Grammar.Within size next
  furthest : ∀ failure ∈ progress.furthest, failure.offset ≤ size

/-- An evaluation that ends at a cursor of a text of the size, if at any. -/
structure StaysWithin {α : Type} (size : Nat) (step : Outcome α × Progress) : Prop where
  next : ∀ {value next}, step.1 = .matched value next → Within size next
  progress : step.2.Within size

def Keeps {α : Type} (size : Nat) (evaluate : Evaluation α) : Prop :=
  ∀ {cursor progress}, Within size cursor → progress.Within size →
    StaysWithin size (evaluate cursor progress)

namespace Progress.Within

variable {size : Nat} {progress : Progress}

theorem empty (size : Nat) : Progress.Within size {} where
  known h := by simp [lookup?] at h
  furthest := nofun

theorem fail (h : progress.Within size) (label : Label) {offset : Nat} (hoffset : offset ≤ size) :
    (progress.fail label offset).Within size where
  known := h.known
  furthest := by
    intro failure hfailure
    unfold Progress.fail Failure.keep at hfailure
    split at hfailure
    · cases hfailure
      exact hoffset
    · split at hfailure
      · cases hfailure
        exact hoffset
      · rename_i hkept _
        cases hfailure
        exact h.furthest _ hkept

theorem remember (h : progress.Within size) (rule : Rule) (offset : Nat) {result : Result}
    (hresult : ∀ {tree next}, result = some (tree, next) → Grammar.Within size next) :
    (progress.remember rule offset result).Within size where
  known := by
    intro other place tree next hlookup
    rw [lookup?_remember] at hlookup
    split at hlookup
    · exact hresult (Option.some.inj hlookup)
    · exact h.known hlookup
  furthest := h.furthest

end Progress.Within

/-! ## Evaluation -/

section Evaluation

variable {size : Nat}

theorem StaysWithin.matched {α : Type} {value : α} {cursor : Cursor} {progress : Progress}
    (hcursor : Within size cursor) (hprogress : progress.Within size) :
    StaysWithin size (.matched value cursor, progress) :=
  ⟨fun h => by cases h; exact hcursor, hprogress⟩

theorem StaysWithin.failed {α : Type} {progress : Progress} (hprogress : progress.Within size) :
    StaysWithin size ((.failed : Outcome α), progress) :=
  ⟨nofun, hprogress⟩

theorem StaysWithin.exhausted {α : Type} {progress : Progress} (hprogress : progress.Within size) :
    StaysWithin size ((.exhausted : Outcome α), progress) :=
  ⟨nofun, hprogress⟩

theorem repeated_keeps {one : List Tree → Evaluation (List Tree)}
    (hone : ∀ found, Keeps size (one found)) (fuel : Nat) (found : List Tree) :
    Keeps size (repeated one fuel found) := by
  induction fuel generalizing found with
  | zero => exact fun _ hprogress => .exhausted hprogress
  | succ fuel ih =>
      intro cursor progress hcursor hprogress
      have hstep := hone found hcursor hprogress
      simp only [repeated]
      split
      · exact .matched hcursor hprogress
      · split
        · next hresult =>
          rw [hresult] at hstep
          split
          · exact hstep
          · exact ih _ (hstep.next rfl) hstep.progress
        · next hresult =>
          rw [hresult] at hstep
          exact .matched hcursor hstep.progress
        · next hresult =>
          rw [hresult] at hstep
          exact .exhausted hstep.progress

theorem matchExpr_keeps {evaluate : Rule → Evaluation Tree}
    (hrules : ∀ rule, Keeps size (evaluate rule)) (fuel : Nat) (expr : Expr) (found : List Tree) :
    Keeps size (matchExpr evaluate fuel expr found) := by
  induction expr generalizing found with
  | literal text =>
      intro cursor progress hcursor hprogress
      simp only [matchExpr]
      split
      · exact .matched (hcursor.moves (.expect? ‹_›)) hprogress
      · exact .failed (hprogress.fail _ hcursor.offset_le)
  | pattern shape =>
      intro cursor progress hcursor hprogress
      simp only [matchExpr]
      split
      · exact .matched (hcursor.moves (.past (Pattern.scan?_split ‹_›))) hprogress
      · exact .failed hprogress
  | rule name =>
      intro cursor progress hcursor hprogress
      have hstep := hrules name hcursor hprogress
      simp only [matchExpr]
      split <;> rename_i hresult <;> rw [hresult] at hstep
      · exact .matched (hstep.next rfl) hstep.progress
      · exact .failed hstep.progress
      · exact .exhausted hstep.progress
  | seq first second ihFirst ihSecond =>
      intro cursor progress hcursor hprogress
      have hstep := ihFirst found hcursor hprogress
      simp only [matchExpr]
      split
      · rename_i hresult
        rw [hresult] at hstep
        exact ihSecond _ (hstep.next rfl) hstep.progress
      · exact hstep
  | choice first second ihFirst ihSecond =>
      intro cursor progress hcursor hprogress
      have hstep := ihFirst found hcursor hprogress
      simp only [matchExpr]
      split
      · rename_i hresult
        rw [hresult] at hstep
        exact ihSecond _ hcursor hstep.progress
      · exact hstep
  | optional body ih =>
      intro cursor progress hcursor hprogress
      have hstep := ih found hcursor hprogress
      simp only [matchExpr]
      split
      · exact .matched hcursor hprogress
      · split
        · next hresult =>
          rw [hresult] at hstep
          exact .matched hcursor hstep.progress
        · exact hstep
  | many body ih => exact repeated_keeps ih fuel found
  | many1 body ih =>
      intro cursor progress hcursor hprogress
      have hstep := ih found hcursor hprogress
      simp only [matchExpr]
      split
      · exact .failed hprogress
      · split
        · next hresult =>
          rw [hresult] at hstep
          split
          · exact hstep
          · exact repeated_keeps ih fuel _ (hstep.next rfl) hstep.progress
        · exact hstep

theorem matchRule_keeps (fuel : Nat) (rule : Rule) : Keeps size (matchRule fuel rule) := by
  induction fuel generalizing rule with
  | zero => exact fun _ hprogress => .exhausted hprogress
  | succ fuel ih =>
      intro cursor progress hcursor hprogress
      have hstep := matchExpr_keeps ih fuel rule.body [] hcursor hprogress
      simp only [matchRule]
      split
      · exact .matched (hprogress.known ‹_›) hprogress
      · exact .failed (hprogress.fail _ hcursor.offset_le)
      · split <;> rename_i hresult <;> rw [hresult] at hstep
        · have hnext := hstep.next rfl
          refine .matched hnext (hstep.progress.remember _ _ fun heq => ?_)
          cases heq
          exact hnext
        · refine .failed ((hstep.progress.remember _ _ fun heq => ?_).fail _ hcursor.offset_le)
          cases heq
        · exact .exhausted hstep.progress

end Evaluation

/-! ## Whole texts -/

theorem parse_error_offset_le {start : Rule} {chars : List Char} {fault : MatchFault}
    (h : parse start chars = .error fault) : fault.offset ≤ chars.length := by
  have hcursor : Within chars.length (Cursor.start chars) := Nat.zero_add _
  have hstep := matchRule_keeps (fuelFor chars) start hcursor (.empty _)
  simp only [parse] at h
  split at h <;> rename_i hresult <;> rw [hresult] at hstep
  · split at h
    · cases h
    · cases h
      exact (hstep.next rfl).offset_le
  · cases h
    rename_i progress
    cases hfurthest : progress.furthest with
    | none => exact Nat.zero_le _
    | some failure => exact hstep.progress.furthest failure hfurthest
  · cases h
    exact Nat.zero_le _

end GrammarLint.Grammar
