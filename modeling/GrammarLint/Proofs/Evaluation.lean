import GrammarLint.Proofs.Derivation

/-!
# The matcher evaluates expressions

`matchRule` remembers results, records failures and counts fuel.  None of this
shows: with `fuelFor` a text, the outcome at every cursor of the text is what
the rule yields there.  The fuel is never used up because a rule that calls
another at the same cursor has a greater rank than the rule it calls.
-/

namespace GrammarLint.Grammar

open Text

/-! ## Ranks -/

/-- How deeply rules can call each other before a character is taken. -/
def Rule.rank : Rule → Nat
  | .terminal _ => 1
  | .trivia => 1
  | .grammarFile => 4
  | .grammarHead => 3
  | .prequel => 3
  | .ruleSpec => 3
  | .exceptionGroup => 3
  | .altList => 6
  | .alternative => 5
  | .element => 4
  | .subruleOptions => 3
  | .atom => 3
  | .actionChunk => 3
  | .argChunk => 3
  | _ => 2

def Expr.height : Expr → Nat
  | .literal _ => 0
  | .pattern _ => 0
  | .rule name => name.rank
  | .seq first second => if first.nullable then max first.height second.height else first.height
  | .choice first second => max first.height second.height
  | .optional body => body.height
  | .many body => max 1 body.height
  | .many1 body => max 1 body.height

theorem Rule.height_body_lt (rule : Rule) : rule.body.height < rule.rank := by
  cases rule with
  | terminal type =>
      cases type with
      | keyword word => exact Nat.zero_lt_one
      | mark sign => exact Nat.zero_lt_one
      | _ => decide
  | _ => decide

theorem Rule.rank_le (rule : Rule) : rule.rank ≤ callsPerChar := by
  cases rule with
  | terminal type => exact (by decide : 1 ≤ callsPerChar)
  | _ => decide

theorem Expr.height_le (expr : Expr) : expr.height ≤ callsPerChar := by
  induction expr with
  | literal | pattern => exact Nat.zero_le _
  | rule name => exact name.rank_le
  | seq first second ihFirst ihSecond =>
      simp only [height]
      split <;> omega
  | choice first second ihFirst ihSecond =>
      simp only [height]
      omega
  | optional body ih => exact ih
  | many body ih | many1 body ih =>
      have : 1 ≤ callsPerChar := by decide
      simp only [height]
      omega

theorem Expr.height_first_le (first second : Expr) :
    first.height ≤ (Expr.seq first second).height := by
  simp only [height]
  split <;> omega

/-! ## Cursors of a text -/

def Lies (chars : List Char) (cursor : Cursor) : Prop :=
  cursor.rest = chars.drop cursor.offset

theorem Lies.start (chars : List Char) : Lies chars (Cursor.start chars) := rfl

theorem Lies.moves {chars taken : List Char} {cursor next : Cursor} (h : Lies chars cursor)
    (hmoves : Moves cursor taken next) : Lies chars next := by
  have hrest : chars.drop cursor.offset = taken ++ next.rest := h ▸ hmoves.rest_eq
  rw [Lies, hmoves.offset_eq, ← List.drop_drop, hrest, List.drop_left]

theorem Lies.yields {chars : List Char} {cursor next : Cursor} {expr : Expr} {trees : List Tree}
    (h : Lies chars cursor) (hyields : Yields expr cursor (some (trees, next))) :
    Lies chars next :=
  h.moves hyields.moves

theorem Lies.eq_mk {chars : List Char} {cursor : Cursor} (h : Lies chars cursor) :
    cursor = ⟨cursor.offset, chars.drop cursor.offset⟩ := by
  obtain ⟨offset, rest⟩ := cursor
  have hrest : rest = chars.drop offset := h
  rw [hrest]

/-! ## Remembered results -/

theorem Progress.lookup?_remember (progress : Progress) (rule other : Rule) (offset place : Nat)
    (result : Result) :
    (progress.remember rule offset result).lookup? other place =
      if other = rule ∧ place = offset then some result else progress.lookup? other place := by
  simp only [lookup?, remember, OffsetMap.get?_insert]
  by_cases hplace : place = offset
  · subst hplace
    by_cases hrule : other = rule
    · simp [hrule]
    · have hbeq : (other == rule) = false := by simpa using hrule
      cases hknown : progress.known.get? place <;> simp [List.lookup_cons, hbeq, hrule]
  · simp [hplace]

def Progress.Sound (chars : List Char) (progress : Progress) : Prop :=
  ∀ rule offset result, progress.lookup? rule offset = some result →
    Yields (.rule rule) ⟨offset, chars.drop offset⟩
      (result.map fun (tree, next) => ([tree], next))

theorem Progress.Sound.empty (chars : List Char) : Progress.Sound chars {} := by
  intro rule offset result h
  simp [lookup?] at h

theorem Progress.Sound.fail {chars : List Char} {progress : Progress}
    (h : progress.Sound chars) (label : Label) (offset : Nat) :
    (progress.fail label offset).Sound chars :=
  h

theorem Progress.Sound.remember {chars : List Char} {progress : Progress} {rule : Rule}
    {cursor : Cursor} {result : Result} (h : progress.Sound chars) (hlies : Lies chars cursor)
    (hyields : Yields (.rule rule) cursor (result.map fun (tree, next) => ([tree], next))) :
    (progress.remember rule cursor.offset result).Sound chars := by
  intro other offset found hlookup
  rw [lookup?_remember] at hlookup
  split at hlookup
  case isTrue hsame =>
    obtain ⟨rfl, rfl⟩ := hsame
    cases hlookup
    rw [← hlies.eq_mk]
    exact hyields
  case isFalse => exact h other offset found hlookup

/-! ## Outcomes -/

/-- The outcome is what the expression yields; the trees are put before those
found earlier, latest first. -/
def Settles (expr : Expr) (cursor : Cursor) (found : List Tree) : Outcome (List Tree) → Prop
  | .matched all next =>
      ∃ trees, all = trees.reverse ++ found ∧ Yields expr cursor (some (trees, next))
  | .failed => Yields expr cursor none
  | .exhausted => False

theorem Settles.after {part whole : Expr} {cursor later : Cursor} {found trees : List Tree}
    {outcome : Outcome (List Tree)} (h : Settles part later (trees.reverse ++ found) outcome)
    (hsome : ∀ {more next}, Yields part later (some (more, next)) →
      Yields whole cursor (some (trees ++ more, next)))
    (hnone : Yields part later none → Yields whole cursor none) :
    Settles whole cursor found outcome := by
  cases outcome with
  | matched all next =>
      obtain ⟨more, rfl, hpart⟩ := h
      exact ⟨trees ++ more, by simp, hsome hpart⟩
  | failed => exact hnone h
  | exhausted => exact h

/-- The evaluation settles the expression and remembers only what is sound. -/
structure Evaluates (chars : List Char) (expr : Expr) (cursor : Cursor) (found : List Tree)
    (step : Outcome (List Tree) × Progress) : Prop where
  settles : Settles expr cursor found step.1
  sound : step.2.Sound chars

theorem Evaluates.cases {chars : List Char} {expr : Expr} {cursor : Cursor} {found : List Tree}
    {step : Outcome (List Tree) × Progress} (h : Evaluates chars expr cursor found step) :
    (∃ trees next after, step = (.matched (trees.reverse ++ found) next, after) ∧
      Yields expr cursor (some (trees, next)) ∧ after.Sound chars) ∨
    ∃ after, step = (.failed, after) ∧ Yields expr cursor none ∧ after.Sound chars := by
  obtain ⟨outcome, after⟩ := step
  have hsettles := h.settles
  cases outcome with
  | matched all next =>
      obtain ⟨trees, rfl, hyields⟩ := hsettles
      exact .inl ⟨trees, next, after, rfl, hyields, h.sound⟩
  | failed => exact .inr ⟨after, rfl, hsettles, h.sound⟩
  | exhausted => exact hsettles.elim

def RuleSettles (rule : Rule) (cursor : Cursor) : Outcome Tree → Prop
  | .matched tree next => Yields (.rule rule) cursor (some ([tree], next))
  | .failed => Yields (.rule rule) cursor none
  | .exhausted => False

structure RuleEvaluates (chars : List Char) (rule : Rule) (cursor : Cursor)
    (step : Outcome Tree × Progress) : Prop where
  settles : RuleSettles rule cursor step.1
  sound : step.2.Sound chars

theorem RuleEvaluates.cases {chars : List Char} {rule : Rule} {cursor : Cursor}
    {step : Outcome Tree × Progress} (h : RuleEvaluates chars rule cursor step) :
    (∃ tree next after, step = (.matched tree next, after) ∧
      Yields (.rule rule) cursor (some ([tree], next)) ∧ after.Sound chars) ∨
    ∃ after, step = (.failed, after) ∧ Yields (.rule rule) cursor none ∧ after.Sound chars := by
  obtain ⟨outcome, after⟩ := step
  have hsettles := h.settles
  cases outcome with
  | matched tree next => exact .inl ⟨tree, next, after, rfl, hsettles, h.sound⟩
  | failed => exact .inr ⟨after, rfl, hsettles, h.sound⟩
  | exhausted => exact hsettles.elim

def EvaluatesRules (chars : List Char) (fuel : Nat) (evaluate : Rule → Evaluation Tree) : Prop :=
  ∀ rule cursor progress, Lies chars cursor → progress.Sound chars →
    callsPerChar * cursor.rest.length + rule.rank ≤ fuel →
    RuleEvaluates chars rule cursor (evaluate rule cursor progress)

/-! ## Evaluating expressions -/

theorem repeated_evaluates {chars : List Char} {body : Expr} {size : Nat}
    {one : List Tree → Evaluation (List Tree)}
    (hone : ∀ found cursor progress, Lies chars cursor → progress.Sound chars →
      cursor.rest.length ≤ size → Evaluates chars body cursor found (one found cursor progress))
    (fuel : Nat) (found : List Tree) (cursor : Cursor) (progress : Progress)
    (hlies : Lies chars cursor) (hsound : progress.Sound chars)
    (hsize : cursor.rest.length ≤ size) (hfuel : cursor.rest.length < fuel) :
    Evaluates chars (.many body) cursor found (repeated one fuel found cursor progress) := by
  induction fuel generalizing found cursor progress with
  | zero => omega
  | succ fuel ih =>
      simp only [repeated, List.isEmpty_iff]
      split
      case isTrue hend => exact ⟨⟨[], rfl, .manyAtEnd hend⟩, hsound⟩
      case isFalse hend =>
        obtain ⟨trees, next, after, hresult, hbody, hafter⟩ | ⟨after, hresult, hbody, hafter⟩ :=
          (hone found cursor progress hlies hsound hsize).cases
        · simp only [hresult]
          split
          case isTrue hstuck => exact ⟨⟨trees, rfl, .manyLast hend hbody hstuck⟩, hafter⟩
          case isFalse hstuck =>
            have hlength := hbody.moves.length_eq
            have hoffset := hbody.moves.offset_eq
            have hrest := ih (trees.reverse ++ found) next after (hlies.yields hbody) hafter
              (by omega) (by omega)
            exact ⟨hrest.settles.after (.manyMore hend hbody hstuck) nofun, hrest.sound⟩
        · simp only [hresult]
          exact ⟨⟨[], rfl, .manyNone hend hbody⟩, hafter⟩

theorem Yields.height_le {first second : Expr} {cursor middle : Cursor} {trees : List Tree}
    {fuel : Nat} (hfirst : Yields first cursor (some (trees, middle)))
    (hfuel : callsPerChar * cursor.rest.length + (Expr.seq first second).height ≤ fuel) :
    callsPerChar * middle.rest.length + second.height ≤ fuel := by
  have hlength := hfirst.moves.length_eq
  have hbound := second.height_le
  simp only [Expr.height] at hfuel
  cases htaken : Tree.allChars trees with
  | nil =>
      rw [hfirst.nullable htaken, if_pos rfl] at hfuel
      rw [htaken, List.length_nil, Nat.zero_add] at hlength
      rw [← hlength]
      omega
  | cons c taken =>
      rw [htaken, List.length_cons] at hlength
      have hless : callsPerChar * (middle.rest.length + 1) ≤
          callsPerChar * cursor.rest.length := Nat.mul_le_mul_left _ (by omega)
      rw [Nat.mul_succ] at hless
      omega

theorem matchExpr_evaluates {chars : List Char} {fuel : Nat}
    {evaluate : Rule → Evaluation Tree} (hrules : EvaluatesRules chars fuel evaluate)
    (expr : Expr) (found : List Tree) (cursor : Cursor) (progress : Progress)
    (hlies : Lies chars cursor) (hsound : progress.Sound chars)
    (hfuel : callsPerChar * cursor.rest.length + expr.height ≤ fuel) :
    Evaluates chars expr cursor found (matchExpr evaluate fuel expr found cursor progress) := by
  induction expr generalizing found cursor progress with
  | literal text =>
      simp only [matchExpr]
      cases hexpect : cursor.expect? text.toList with
      | some next => exact ⟨⟨[.text text.toList], rfl, .literal hexpect⟩, hsound⟩
      | none => exact ⟨.noLiteral hexpect, hsound.fail _ _⟩
  | pattern shape =>
      simp only [matchExpr]
      cases hscan : shape.scan? cursor.rest with
      | some split => exact ⟨⟨[.text split.1], rfl, .pattern hscan⟩, hsound⟩
      | none => exact ⟨.noPattern hscan, hsound⟩
  | rule name =>
      simp only [matchExpr]
      obtain ⟨tree, next, after, hresult, hrule, hafter⟩ | ⟨after, hresult, hrule, hafter⟩ :=
        (hrules name cursor progress hlies hsound hfuel).cases
      · simp only [hresult]
        exact ⟨⟨[tree], rfl, hrule⟩, hafter⟩
      · simp only [hresult]
        exact ⟨hrule, hafter⟩
  | seq first second ihFirst ihSecond =>
      have hheight := first.height_first_le second
      simp only [matchExpr]
      obtain ⟨trees, middle, after, hresult, hfirst, hafter⟩ | ⟨after, hresult, hfirst, hafter⟩ :=
        (ihFirst found cursor progress hlies hsound (by omega)).cases
      · have hlast := ihSecond (trees.reverse ++ found) middle after (hlies.yields hfirst) hafter
          (hfirst.height_le hfuel)
        simp only [hresult]
        exact ⟨hlast.settles.after (.seq hfirst) (.noSecond hfirst), hlast.sound⟩
      · simp only [hresult]
        exact ⟨.noFirst hfirst, hafter⟩
  | choice first second ihFirst ihSecond =>
      simp only [Expr.height] at hfuel
      simp only [matchExpr]
      obtain ⟨trees, next, after, hresult, hfirst, hafter⟩ | ⟨after, hresult, hfirst, hafter⟩ :=
        (ihFirst found cursor progress hlies hsound (by omega)).cases
      · simp only [hresult]
        exact ⟨⟨trees, rfl, .first hfirst⟩, hafter⟩
      · have hlast := ihSecond found cursor after hlies hafter (by omega)
        have hsettles : Settles second cursor (([] : List Tree).reverse ++ found) _ :=
          hlast.settles
        simp only [hresult]
        exact ⟨hsettles.after (.second hfirst) (.second hfirst), hlast.sound⟩
  | optional body ih =>
      simp only [matchExpr, List.isEmpty_iff]
      split
      case isTrue hend => exact ⟨⟨[], rfl, .optionalAtEnd hend⟩, hsound⟩
      case isFalse hend =>
        obtain ⟨trees, next, after, hresult, hbody, hafter⟩ | ⟨after, hresult, hbody, hafter⟩ :=
          (ih found cursor progress hlies hsound hfuel).cases
        · simp only [hresult]
          exact ⟨⟨trees, rfl, .optionalSome hend hbody⟩, hafter⟩
        · simp only [hresult]
          exact ⟨⟨[], rfl, .optionalNone hend hbody⟩, hafter⟩
  | many body ih =>
      simp only [Expr.height] at hfuel
      simp only [matchExpr]
      refine repeated_evaluates ?_ fuel found cursor progress hlies hsound (Nat.le_refl _) ?_
      · intro found later progress hlies hsound hsize
        have := Nat.mul_le_mul_left callsPerChar hsize
        exact ih found later progress hlies hsound (by omega)
      · have : cursor.rest.length ≤ callsPerChar * cursor.rest.length :=
          Nat.le_mul_of_pos_left _ (by decide)
        omega
  | many1 body ih =>
      simp only [Expr.height] at hfuel
      simp only [matchExpr, List.isEmpty_iff]
      split
      case isTrue hend => exact ⟨.many1AtEnd hend, hsound⟩
      case isFalse hend =>
        have hone (found : List Tree) (later : Cursor) (progress : Progress)
            (hlies : Lies chars later) (hsound : progress.Sound chars)
            (hsize : later.rest.length ≤ cursor.rest.length) :
            Evaluates chars body later found (matchExpr evaluate fuel body found later progress) :=
          have := Nat.mul_le_mul_left callsPerChar hsize
          ih found later progress hlies hsound (by omega)
        obtain ⟨trees, next, after, hresult, hbody, hafter⟩ | ⟨after, hresult, hbody, hafter⟩ :=
          (hone found cursor progress hlies hsound (Nat.le_refl _)).cases
        · simp only [hresult]
          split
          case isTrue hstuck =>
            exact ⟨⟨trees, rfl, .many1Some hend hbody (.manyLast hend hbody hstuck)⟩, hafter⟩
          case isFalse hstuck =>
            have hlength := hbody.moves.length_eq
            have hless : cursor.rest.length ≤ callsPerChar * cursor.rest.length :=
              Nat.le_mul_of_pos_left _ (by decide)
            have hrest := repeated_evaluates hone fuel (trees.reverse ++ found) next after
              (hlies.yields hbody) hafter (by omega) (by omega)
            exact ⟨hrest.settles.after
              (fun hmany => .many1Some hend hbody (.manyMore hend hbody hstuck hmany)) nofun,
              hrest.sound⟩
        · simp only [hresult]
          exact ⟨.many1None hend hbody, hafter⟩

/-! ## Evaluating rules -/

theorem matchRule_evaluates (chars : List Char) (fuel : Nat) :
    EvaluatesRules chars fuel (matchRule fuel) := by
  induction fuel with
  | zero =>
      intro rule cursor progress _ _ hfuel
      have := rule.height_body_lt
      omega
  | succ fuel ih =>
      intro rule cursor progress hlies hsound hfuel
      have hrank := rule.height_body_lt
      simp only [matchRule]
      split
      case h_1 tree next hlookup =>
        have hknown := hsound rule cursor.offset _ hlookup
        rw [← hlies.eq_mk] at hknown
        exact ⟨hknown, hsound⟩
      case h_2 hlookup =>
        have hknown := hsound rule cursor.offset _ hlookup
        rw [← hlies.eq_mk] at hknown
        exact ⟨hknown, hsound.fail _ _⟩
      case h_3 =>
        obtain ⟨trees, next, after, hresult, hbody, hafter⟩ | ⟨after, hresult, hbody, hafter⟩ :=
          (matchExpr_evaluates ih rule.body [] cursor progress hlies hsound (by omega)).cases
        · have hyields : Yields (.rule rule) cursor
              (some ([.node rule cursor.offset (trees.reverse ++ []).reverse], next)) := by
            simpa using Yields.rule hbody
          simp only [hresult]
          exact ⟨hyields, hafter.remember hlies hyields⟩
        · have hyields : Yields (.rule rule) cursor none := .noRule hbody
          simp only [hresult]
          exact ⟨hyields, (hafter.remember hlies hyields).fail _ _⟩

/-! ## Rules at a place -/

theorem RuleSettles.eq_matched_iff {rule : Rule} {cursor next : Cursor} {outcome : Outcome Tree}
    {tree : Tree} (h : RuleSettles rule cursor outcome) :
    outcome = .matched tree next ↔ Yields (.rule rule) cursor (some ([tree], next)) := by
  cases outcome with
  | matched found after =>
      constructor
      · intro heq
        cases heq
        exact h
      · intro hyields
        cases h.unique hyields
        rfl
  | failed => exact ⟨nofun, fun hyields => nomatch h.unique hyields⟩
  | exhausted => exact h.elim

theorem RuleSettles.eq_failed_iff {rule : Rule} {cursor : Cursor} {outcome : Outcome Tree}
    (h : RuleSettles rule cursor outcome) :
    outcome = .failed ↔ Yields (.rule rule) cursor none := by
  cases outcome with
  | matched found after => exact ⟨nofun, fun hyields => nomatch h.unique hyields⟩
  | failed => exact ⟨fun _ => h, fun _ => rfl⟩
  | exhausted => exact h.elim

def matchAt (rule : Rule) (chars : List Char) (offset : Nat) : Outcome Tree :=
  (matchRule (fuelFor chars) rule ⟨offset, chars.drop offset⟩ {}).1

theorem matchAt_settles (rule : Rule) (chars : List Char) (offset : Nat) :
    RuleSettles rule ⟨offset, chars.drop offset⟩ (matchAt rule chars offset) := by
  have hrank := rule.rank_le
  have hlength : callsPerChar * (chars.drop offset).length ≤ callsPerChar * chars.length := by
    refine Nat.mul_le_mul_left _ ?_
    rw [List.length_drop]
    exact Nat.sub_le _ _
  have hsound := Progress.Sound.empty chars
  refine (matchRule_evaluates chars _ rule ⟨offset, chars.drop offset⟩ {} rfl hsound ?_).settles
  simp only [fuelFor, Nat.mul_succ]
  omega

/-! ## Whole texts -/

def Accepts (start : Rule) (chars : List Char) (tree : Tree) : Prop :=
  ∃ next, Yields (.rule start) (Cursor.start chars) (some ([tree], next)) ∧ next.rest = []

theorem parse_eq_ok_iff (start : Rule) (chars : List Char) (tree : Tree) :
    parse start chars = .ok tree ↔ Accepts start chars tree := by
  have hstep : RuleSettles start (Cursor.start chars)
      (matchRule (fuelFor chars) start (Cursor.start chars) {}).1 := matchAt_settles start chars 0
  simp only [parse]
  generalize matchRule (fuelFor chars) start (Cursor.start chars) {} = step at hstep
  obtain ⟨outcome, after⟩ := step
  cases outcome with
  | matched found next =>
      simp only [List.isEmpty_iff]
      constructor
      · intro h
        split at h
        case isTrue hend =>
          cases h
          exact ⟨next, hstep, hend⟩
        case isFalse => cases h
      · rintro ⟨final, hyields, hend⟩
        cases hstep.unique hyields
        rw [if_pos hend]
  | failed =>
      constructor
      · intro h
        cases h
      · rintro ⟨final, hyields, -⟩
        cases hstep.unique hyields
  | exhausted => exact absurd hstep id

theorem parse_error_cases {start : Rule} {chars : List Char} {fault : MatchFault}
    (h : parse start chars = .error fault) :
    (∃ tree next, Yields (.rule start) (Cursor.start chars) (some ([tree], next)) ∧
      next.rest ≠ [] ∧ fault = .unfinished start next.offset) ∨
    Yields (.rule start) (Cursor.start chars) none ∧ ∃ failure, fault = .unmatched failure := by
  have hsettles : RuleSettles start (Cursor.start chars)
      (matchRule (fuelFor chars) start (Cursor.start chars) {}).1 := matchAt_settles start chars 0
  simp only [parse] at h
  split at h <;> rename_i hresult <;> rw [hresult] at hsettles
  · split at h
    case isTrue => cases h
    case isFalse hmore =>
      cases h
      exact .inl ⟨_, _, hsettles, by simpa using hmore, rfl⟩
  · cases h
    exact .inr ⟨hsettles, _, rfl⟩
  · exact hsettles.elim

end GrammarLint.Grammar
