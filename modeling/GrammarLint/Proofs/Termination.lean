import GrammarLint.Proofs.FirstCharacters
import Mathlib.Data.Prod.Lex
import Mathlib.Logic.Relation

/-!
# Matching ends

Evaluating a rule asks for other rules at the same cursor or further on.  `Asks`
says which: every rule asked for has less text before it, or as much text and a
smaller rank, so that no chain of them is endless or comes back to its start.
Nor does a repetition go on without end, since nothing that is repeated matches
without taking a character.
-/

namespace GrammarLint.Grammar

open Text

/-! ## Rules asked for -/

/-- Evaluating the expression at the cursor asks for the rule at the second cursor. -/
inductive Calls : Expr → Cursor → Rule → Cursor → Prop where
  | rule (name : Rule) (cursor : Cursor) : Calls (.rule name) cursor name cursor
  | seqFirst {first second : Expr} {cursor later : Cursor} {rule : Rule}
      (hcall : Calls first cursor rule later) : Calls (.seq first second) cursor rule later
  | seqSecond {first second : Expr} {cursor middle later : Cursor} {trees : List Tree} {rule : Rule}
      (hfirst : Yields first cursor (some (trees, middle)))
      (hcall : Calls second middle rule later) : Calls (.seq first second) cursor rule later
  | choiceFirst {first second : Expr} {cursor later : Cursor} {rule : Rule}
      (hcall : Calls first cursor rule later) : Calls (.choice first second) cursor rule later
  | choiceSecond {first second : Expr} {cursor later : Cursor} {rule : Rule}
      (hfirst : Yields first cursor none) (hcall : Calls second cursor rule later) :
      Calls (.choice first second) cursor rule later
  | optional {body : Expr} {cursor later : Cursor} {rule : Rule} (hend : cursor.rest ≠ [])
      (hcall : Calls body cursor rule later) : Calls (.optional body) cursor rule later
  | many {body : Expr} {cursor later : Cursor} {rule : Rule} (hend : cursor.rest ≠ [])
      (hcall : Calls body cursor rule later) : Calls (.many body) cursor rule later
  | manyMore {body : Expr} {cursor middle later : Cursor} {trees : List Tree} {rule : Rule}
      (hend : cursor.rest ≠ []) (hbody : Yields body cursor (some (trees, middle)))
      (hstuck : middle.offset ≠ cursor.offset) (hcall : Calls (.many body) middle rule later) :
      Calls (.many body) cursor rule later
  | many1 {body : Expr} {cursor later : Cursor} {rule : Rule} (hend : cursor.rest ≠ [])
      (hcall : Calls (.many body) cursor rule later) : Calls (.many1 body) cursor rule later

def Asks (query other : Rule × Cursor) : Prop :=
  Calls query.1.body query.2 other.1 other.2

/-- Less text is left, or as much and the rule has a smaller rank. -/
def Lower (query other : Rule × Cursor) : Prop :=
  query.2.rest.length < other.2.rest.length ∨
    query.2.rest.length = other.2.rest.length ∧ query.1.rank < other.1.rank

instance (query other : Rule × Cursor) : Decidable (Lower query other) :=
  inferInstanceAs (Decidable (_ ∨ _))

theorem wellFounded_lower : WellFounded Lower := by
  refine Subrelation.wf ?_ (InvImage.wf (fun query : Rule × Cursor =>
    (query.2.rest.length, query.1.rank)) (WellFounded.prod_lex wellFounded_lt wellFounded_lt))
  intro query other h
  exact Prod.lex_def.2 h

theorem Yields.height_second_le {first : Expr} {cursor middle : Cursor} {trees : List Tree}
    (h : Yields first cursor (some (trees, middle))) (hnone : Tree.allChars trees = [])
    (second : Expr) :
    second.height ≤ (Expr.seq first second).height := by
  simp only [Expr.height, h.nullable hnone, if_true]
  omega

theorem Calls.descends {expr : Expr} {cursor later : Cursor} {rule : Rule}
    (h : Calls expr cursor rule later) :
    ∃ taken, Moves cursor taken later ∧ (taken = [] → rule.rank ≤ expr.height) := by
  induction h with
  | rule name cursor => exact ⟨[], .refl _, fun _ => Nat.le_refl _⟩
  | @seqFirst first second _ _ _ _ ih =>
      obtain ⟨taken, hmoves, hrank⟩ := ih
      exact ⟨taken, hmoves, fun hnone => (hrank hnone).trans (first.height_first_le second)⟩
  | seqSecond hfirst _ ih =>
      obtain ⟨taken, hmoves, hrank⟩ := ih
      refine ⟨_, hfirst.moves.trans hmoves, fun hnone => ?_⟩
      rw [List.append_eq_nil_iff] at hnone
      exact (hrank hnone.2).trans (hfirst.height_second_le hnone.1 _)
  | choiceFirst _ ih | choiceSecond _ _ ih =>
      obtain ⟨taken, hmoves, hrank⟩ := ih
      refine ⟨taken, hmoves, fun hnone => ?_⟩
      have := hrank hnone
      simp only [Expr.height]
      omega
  | optional _ _ ih => exact ih
  | many _ _ ih =>
      obtain ⟨taken, hmoves, hrank⟩ := ih
      refine ⟨taken, hmoves, fun hnone => ?_⟩
      have := hrank hnone
      simp only [Expr.height]
      omega
  | manyMore _ hbody hstuck _ ih =>
      obtain ⟨taken, hmoves, -⟩ := ih
      refine ⟨_, hbody.moves.trans hmoves, fun hnone => absurd ?_ hstuck⟩
      rw [List.append_eq_nil_iff] at hnone
      simpa [hnone.1] using hbody.moves.offset_eq
  | many1 _ _ ih => exact ih

theorem Asks.descends {query other : Rule × Cursor} (h : Asks query other) :
    ∃ taken, Moves query.2 taken other.2 ∧ (taken = [] → other.1.rank < query.1.rank) := by
  obtain ⟨taken, hmoves, hrank⟩ := Calls.descends h
  exact ⟨taken, hmoves, fun hnone => (hrank hnone).trans_lt query.1.height_body_lt⟩

theorem descends_of_transGen {query other : Rule × Cursor}
    (h : Relation.TransGen Asks query other) :
    ∃ taken, Moves query.2 taken other.2 ∧ (taken = [] → other.1.rank < query.1.rank) := by
  induction h with
  | single hasks => exact hasks.descends
  | tail _ hasks ih =>
      obtain ⟨first, hfirst, hrank⟩ := ih
      obtain ⟨second, hsecond, hlast⟩ := hasks.descends
      refine ⟨first ++ second, hfirst.trans hsecond, fun hnone => ?_⟩
      rw [List.append_eq_nil_iff] at hnone
      exact (hlast hnone.2).trans (hrank hnone.1)

theorem lower_of_asks {query other : Rule × Cursor} (h : Asks query other) : Lower other query := by
  obtain ⟨taken, hmoves, hrank⟩ := h.descends
  have hlength := hmoves.length_eq
  cases taken with
  | nil =>
      rw [List.length_nil, Nat.zero_add] at hlength
      exact .inr ⟨hlength.symm, hrank rfl⟩
  | cons c taken =>
      rw [List.length_cons] at hlength
      exact .inl (by omega)

theorem offset_lt_of_transGen {rule : Rule} {cursor later : Cursor}
    (h : Relation.TransGen Asks (rule, cursor) (rule, later)) : cursor.offset < later.offset := by
  obtain ⟨taken, hmoves, hrank⟩ := descends_of_transGen h
  have hoffset : later.offset = cursor.offset + taken.length := hmoves.offset_eq
  cases taken with
  | nil => exact absurd (hrank rfl) (Nat.lt_irrefl _)
  | cons c taken =>
      rw [List.length_cons] at hoffset
      omega

/-! ## Repetitions -/

namespace Expr

def repeatedBodies : Expr → List Expr
  | .literal _ => []
  | .pattern _ => []
  | .rule _ => []
  | .seq first second => first.repeatedBodies ++ second.repeatedBodies
  | .choice first second => first.repeatedBodies ++ second.repeatedBodies
  | .optional body => body.repeatedBodies
  | .many body => body :: body.repeatedBodies
  | .many1 body => body :: body.repeatedBodies

end Expr

theorem Rule.nullable_repeated (rule : Rule) :
    ∀ body ∈ rule.body.repeatedBodies, body.nullable = false := by
  cases rule with
  | terminal type =>
      cases type with
      | keyword word => exact fun _ hbody => absurd hbody List.not_mem_nil
      | mark sign => exact fun _ hbody => absurd hbody List.not_mem_nil
      | _ => decide
  | _ => decide

theorem Yields.advances {rule : Rule} {body : Expr} (hbody : body ∈ rule.body.repeatedBodies)
    {cursor next : Cursor} {trees : List Tree} (h : Yields body cursor (some (trees, next))) :
    cursor.offset < next.offset ∧ next.rest.length < cursor.rest.length := by
  have hmoves := h.moves
  have hoffset := hmoves.offset_eq
  have hlength := hmoves.length_eq
  have htaken : 0 < (Tree.allChars trees).length := by
    rw [List.length_pos_iff]
    intro hnone
    have := rule.nullable_repeated body hbody
    rw [h.nullable hnone] at this
    cases this
  omega

/-! ## What the matcher asks for -/

/-- Answers only where less text is left than at the query, or as much and the rule
has a smaller rank. -/
def below (query : Rule × Cursor) (evaluate : Rule → Evaluation Tree) : Rule → Evaluation Tree :=
  fun rule cursor progress =>
    if Lower (rule, cursor) query then evaluate rule cursor progress else (.exhausted, progress)

theorem repeated_congr (body : Expr) {chars : List Char} {size : Nat}
    {one other : List Tree → Evaluation (List Tree)}
    (hone : ∀ found cursor progress, Lies chars cursor → progress.Sound chars →
      cursor.rest.length ≤ size → Evaluates chars body cursor found (one found cursor progress))
    (hsame : ∀ found cursor progress, Lies chars cursor → progress.Sound chars →
      cursor.rest.length ≤ size → other found cursor progress = one found cursor progress)
    (fuel : Nat) (found : List Tree) (cursor : Cursor) (progress : Progress)
    (hlies : Lies chars cursor) (hsound : progress.Sound chars)
    (hsize : cursor.rest.length ≤ size) :
    repeated other fuel found cursor progress = repeated one fuel found cursor progress := by
  induction fuel generalizing found cursor progress with
  | zero => rfl
  | succ fuel ih =>
      simp only [repeated, hsame found cursor progress hlies hsound hsize]
      obtain ⟨trees, next, after, hresult, hbody, hafter⟩ | ⟨after, hresult, -⟩ :=
        (hone found cursor progress hlies hsound hsize).cases
      · have hlength := hbody.moves.length_eq
        simp only [hresult, ih _ next after (hlies.yields hbody) hafter (by omega)]
      · simp only [hresult]

theorem matchExpr_congr {chars : List Char} {fuel : Nat} {evaluate other : Rule → Evaluation Tree}
    (hrules : EvaluatesRules chars fuel evaluate) (expr : Expr) (found : List Tree)
    (cursor : Cursor) (progress : Progress) (hlies : Lies chars cursor)
    (hsound : progress.Sound chars)
    (hfuel : callsPerChar * cursor.rest.length + expr.height ≤ fuel)
    (hsame : ∀ rule later progress,
      later.rest.length < cursor.rest.length ∨
        later.rest.length = cursor.rest.length ∧ rule.rank ≤ expr.height →
      other rule later progress = evaluate rule later progress) :
    matchExpr other fuel expr found cursor progress =
      matchExpr evaluate fuel expr found cursor progress := by
  induction expr generalizing found cursor progress with
  | literal | pattern => rfl
  | rule name =>
      simp only [matchExpr, hsame name cursor progress (.inr ⟨rfl, Nat.le_refl _⟩)]
  | seq first second ihFirst ihSecond =>
      have hheight := first.height_first_le second
      have hfirst := ihFirst found cursor progress hlies hsound (by omega)
        (fun rule later progress hlower => hsame rule later progress (by omega))
      simp only [matchExpr, hfirst]
      obtain ⟨trees, middle, after, hresult, hyields, hafter⟩ | ⟨after, hresult, -⟩ :=
        (matchExpr_evaluates hrules first found cursor progress hlies hsound (by omega)).cases
      · simp only [hresult]
        refine ihSecond _ middle after (hlies.yields hyields) hafter (hyields.height_le hfuel)
          fun rule later progress hlower => hsame rule later progress ?_
        have hlength := hyields.moves.length_eq
        cases htaken : Tree.allChars trees with
        | nil =>
            have := hyields.height_second_le htaken second
            rw [htaken, List.length_nil, Nat.zero_add] at hlength
            omega
        | cons c taken =>
            rw [htaken, List.length_cons] at hlength
            omega
      · simp only [hresult]
  | choice first second ihFirst ihSecond =>
      simp only [Expr.height] at hfuel hsame
      have hfirst := ihFirst found cursor progress hlies hsound (by omega)
        (fun rule later progress hlower => hsame rule later progress (by omega))
      simp only [matchExpr, hfirst]
      obtain ⟨trees, next, after, hresult, -⟩ | ⟨after, hresult, -, hafter⟩ :=
        (matchExpr_evaluates hrules first found cursor progress hlies hsound (by omega)).cases
      · simp only [hresult]
      · simp only [hresult]
        exact ihSecond found cursor after hlies hafter (by omega)
          (fun rule later progress hlower => hsame rule later progress (by omega))
  | optional body ih =>
      simp only [matchExpr, ih found cursor progress hlies hsound hfuel hsame]
  | many body ih =>
      simp only [Expr.height] at hfuel hsame
      simp only [matchExpr]
      refine repeated_congr body ?_ ?_ fuel found cursor progress hlies hsound (Nat.le_refl _)
      · intro found later progress hlies hsound hsize
        have := Nat.mul_le_mul_left callsPerChar hsize
        exact matchExpr_evaluates hrules body found later progress hlies hsound (by omega)
      · intro found later progress hlies hsound hsize
        have := Nat.mul_le_mul_left callsPerChar hsize
        exact ih found later progress hlies hsound (by omega)
          (fun rule last progress hlower => hsame rule last progress (by omega))
  | many1 body ih =>
      simp only [Expr.height] at hfuel hsame
      have hbody (found : List Tree) (later : Cursor) (progress : Progress)
          (hlies : Lies chars later) (hsound : progress.Sound chars)
          (hsize : later.rest.length ≤ cursor.rest.length) :
          Evaluates chars body later found (matchExpr evaluate fuel body found later progress) ∧
            matchExpr other fuel body found later progress =
              matchExpr evaluate fuel body found later progress := by
        have := Nat.mul_le_mul_left callsPerChar hsize
        exact ⟨matchExpr_evaluates hrules body found later progress hlies hsound (by omega),
          ih found later progress hlies hsound (by omega)
            (fun rule last progress hlower => hsame rule last progress (by omega))⟩
      obtain ⟨hstep, heq⟩ := hbody found cursor progress hlies hsound (Nat.le_refl _)
      simp only [matchExpr, heq]
      obtain ⟨trees, next, after, hresult, hyields, hafter⟩ | ⟨after, hresult, -⟩ := hstep.cases
      · have hlength := hyields.moves.length_eq
        have hrest := repeated_congr body
          (fun found later progress hlies hsound hsize =>
            (hbody found later progress hlies hsound hsize).1)
          (fun found later progress hlies hsound hsize =>
            (hbody found later progress hlies hsound hsize).2)
          fuel (trees.reverse ++ found) next after (hlies.yields hyields) hafter (by omega)
        simp only [hresult, hrest]
      · simp only [hresult]

/-- The matcher asks for nothing that is not lower than the rule it is matching. -/
theorem matchExpr_below {chars : List Char} {fuel : Nat} {rule : Rule} {cursor : Cursor}
    {progress : Progress} (hlies : Lies chars cursor) (hsound : progress.Sound chars)
    (hfuel : callsPerChar * cursor.rest.length + rule.rank ≤ fuel + 1) :
    matchExpr (below (rule, cursor) (matchRule fuel)) fuel rule.body [] cursor progress =
      matchExpr (matchRule fuel) fuel rule.body [] cursor progress := by
  have hheight := rule.height_body_lt
  refine matchExpr_congr (matchRule_evaluates chars fuel) rule.body [] cursor progress hlies hsound
    (by omega) fun other later progress hlower => if_pos ?_
  rcases hlower with hless | ⟨hsame, hrank⟩
  · exact .inl hless
  · exact .inr ⟨hsame, hrank.trans_lt hheight⟩

/-- Matching ends on every text, from every rule, with a match or a failure.  No chain
of rules that ask for one another is endless, and none comes back to a rule before it
has taken a character; what is repeated takes a character every time; and the matcher
asks for nothing but rules with less text left, or with as much and a smaller rank. -/
theorem matchRule_ends (start : Rule) (chars : List Char) :
    RuleSettles start (Cursor.start chars)
      (matchRule (fuelFor chars) start (Cursor.start chars) {}).1 ∧
    parse start chars ≠ .error .exhausted ∧
    WellFounded (flip Asks) ∧
    (∀ rule cursor later, Relation.TransGen Asks (rule, cursor) (rule, later) →
      cursor.offset < later.offset) ∧
    (∀ rule : Rule, ∀ body ∈ rule.body.repeatedBodies, ∀ cursor trees next,
      Yields body cursor (some (trees, next)) →
        cursor.offset < next.offset ∧ next.rest.length < cursor.rest.length) ∧
    ∀ fuel rule cursor progress, Lies chars cursor → progress.Sound chars →
      callsPerChar * cursor.rest.length + rule.rank ≤ fuel + 1 →
      matchExpr (below (rule, cursor) (matchRule fuel)) fuel rule.body [] cursor progress =
        matchExpr (matchRule fuel) fuel rule.body [] cursor progress := by
  have hfuel : callsPerChar * (Cursor.start chars).rest.length + start.rank ≤ fuelFor chars := by
    have := start.rank_le
    simp only [fuelFor, Cursor.start, Nat.mul_succ]
    omega
  have hsettles := (matchRule_evaluates chars (fuelFor chars) start (Cursor.start chars) {}
    (Lies.start chars) (Progress.Sound.empty chars) hfuel).settles
  refine ⟨hsettles, ?_, Subrelation.wf lower_of_asks wellFounded_lower,
    fun _ _ _ => offset_lt_of_transGen, fun _ _ hbody _ _ _ => Yields.advances hbody,
    fun _ _ _ _ => matchExpr_below⟩
  simp only [parse]
  generalize matchRule (fuelFor chars) start (Cursor.start chars) {} = step at hsettles
  obtain ⟨outcome, after⟩ := step
  cases outcome with
  | matched tree next =>
      dsimp only
      split <;> simp
  | failed => simp
  | exhausted => exact absurd hsettles id

/-- A block inside a block: the rule for the inner one is asked for one character on. -/
theorem matchRule_ends_nested :
    Relation.TransGen Asks (.actionNested, ⟨0, ['\x7b', '\x7b']⟩)
      (.actionNested, ⟨1, ['\x7b']⟩) ∧
    (⟨0, ['\x7b', '\x7b']⟩ : Cursor).offset < (⟨1, ['\x7b']⟩ : Cursor).offset := by
  have hopen : Yields (.literal openBrace) ⟨0, ['\x7b', '\x7b']⟩
      (some ([.text openBrace.toList], ⟨1, ['\x7b']⟩)) := .literal rfl
  have hchunk : Asks (.actionNested, ⟨0, ['\x7b', '\x7b']⟩) (.actionChunk, ⟨1, ['\x7b']⟩) :=
    .seqSecond hopen (.seqFirst (.many (by simp) (.rule _ _)))
  have hchain := (Relation.TransGen.single hchunk).tail
    (show Asks (.actionChunk, ⟨1, ['\x7b']⟩) (.actionNested, ⟨1, ['\x7b']⟩) from
      .choiceFirst (.rule _ _))
  exact ⟨hchain, (matchRule_ends .actionNested []).2.2.2.1 _ _ _ hchain⟩

end GrammarLint.Grammar
