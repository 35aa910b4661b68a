import GrammarLint.Check.Convention
import Mathlib.Data.List.Chain
import Mathlib.Data.Nat.Find
import Mathlib.Tactic.Tauto

/-!
# Breaches of the order of tokens

The entries of a tokens block are in order if no two neighbours break it, in any of three
ways.  Of each way the first two neighbours are reported, and nothing else.
-/

namespace GrammarLint.Check.TokenOrder

/-! ## Entries -/

/-- An entry with exactly two children is a pair, every other one is imaginary. -/
def IsPair (entry : Node) : Prop :=
  entry.children.length = 2

def nameNode (entry : Node) : Node :=
  match entry.children with
  | [left, _] => left
  | _ => entry

/-- Some pairs with names that do not decrease, and after them some imaginary tokens with
names that do not decrease.  Names are compared by the code points of their characters. -/
def Ordered (entries : List Node) : Prop :=
  ∃ pairs imaginary, entries = pairs ++ imaginary ∧
    (∀ entry ∈ pairs, IsPair entry) ∧ (∀ entry ∈ imaginary, ¬IsPair entry) ∧
    (pairs.map fun entry => (nameNode entry).text).Pairwise (· ≤ ·) ∧
    (imaginary.map fun entry => (nameNode entry).text).Pairwise (· ≤ ·)

/-! ## Breaches -/

/-- The ways in which an entry may break the order after the one before it. -/
inductive Breach where
  | mixing
  | pairs
  | imaginary
  deriving DecidableEq, Repr

namespace Breach

def Between : Breach → Node → Node → Prop
  | .mixing, previous, entry => ¬IsPair previous ∧ IsPair entry
  | .pairs, previous, entry =>
      IsPair previous ∧ IsPair entry ∧ (nameNode entry).text < (nameNode previous).text
  | .imaginary, previous, entry =>
      ¬IsPair previous ∧ ¬IsPair entry ∧ (nameNode entry).text < (nameNode previous).text

def message (breach : Breach) (previous entry : Node) : String :=
  match breach with
  | .mixing => mixedMessage
  | .pairs | .imaginary => orderMessage (nameNode previous).text (nameNode entry).text

variable {first second : Breach} {previous entry : Node}

theorem Between.unique (hfirst : first.Between previous entry)
    (hsecond : second.Between previous entry) : first = second := by
  cases first <;> cases second <;> grind [Between]

end Breach

/-! ## What has been reported -/

namespace Reported

def mark (reported : Reported) : Breach → Reported
  | .mixing => { reported with mixed := true }
  | .pairs => { reported with pairs := true }
  | .imaginary => { reported with imaginary := true }

end Reported

/-! ## Findings -/

/-- Two neighbours in a list of entries, the number of entries before them, and the way in
which they break the order. -/
structure Finding where
  place : Nat
  breach : Breach
  previous : Node
  entry : Node

namespace Finding

def remark (finding : Finding) : Remark :=
  ⟨(nameNode finding.entry).line, finding.breach.message finding.previous finding.entry⟩

/-- The neighbours stand in the list, break the order, and no two before them break it in
the same way. -/
structure First (entries : List Node) (finding : Finding) : Prop where
  previous : entries[finding.place]? = some finding.previous
  entry : entries[finding.place + 1]? = some finding.entry
  between : finding.breach.Between finding.previous finding.entry
  first : ∀ place < finding.place, ∀ previous entry, entries[place]? = some previous →
    entries[place + 1]? = some entry → ¬finding.breach.Between previous entry

def later (finding : Finding) : Finding :=
  { finding with place := finding.place + 1 }

theorem First.unique {entries : List Node} {one other : Finding} (hone : one.First entries)
    (hother : other.First entries) (h : one.breach = other.breach) : one = other := by
  have hplace : one.place = other.place := by
    rcases Nat.lt_trichotomy one.place other.place with hless | heq | hless
    · exact absurd (h ▸ hone.between) (hother.first _ hless _ _ hone.previous hone.entry)
    · exact heq
    · exact absurd (h ▸ hother.between) (hone.first _ hless _ _ hother.previous hother.entry)
  have hprevious := hone.previous.symm.trans (hplace ▸ hother.previous)
  have hentry := hone.entry.symm.trans (hplace ▸ hother.entry)
  cases one
  cases other
  simp_all

theorem first_cons_iff {previous entry : Node} {entries : List Node} {finding : Finding} :
    finding.First (previous :: entry :: entries) ↔
      (∃ breach : Breach, breach.Between previous entry ∧
        finding = ⟨0, breach, previous, entry⟩) ∨
      ∃ after : Finding, after.First (entry :: entries) ∧
        ¬after.breach.Between previous entry ∧ finding = after.later := by
  obtain ⟨place, breach, earlier, offender⟩ := finding
  -- A finding at the first two entries needs nothing before it; any other is one of the shorter
  -- list, to which only the first pair is added.
  cases place with
  | zero =>
      constructor
      · rintro ⟨hprevious, hentry, hbetween, -⟩
        obtain rfl : previous = earlier := by simpa using hprevious
        obtain rfl : entry = offender := by simpa using hentry
        exact .inl ⟨breach, hbetween, rfl⟩
      · rintro (⟨way, hbetween, heq⟩ | ⟨after, -, -, heq⟩)
        · cases heq
          exact ⟨rfl, rfl, hbetween, fun place hless => absurd hless (Nat.not_lt_zero _)⟩
        · cases heq
  | succ place =>
      constructor
      · rintro ⟨hprevious, hentry, hbetween, hfirst⟩
        refine .inr ⟨⟨place, breach, earlier, offender⟩, ⟨?_, ?_, hbetween, ?_⟩, ?_, rfl⟩
        · simpa using hprevious
        · simpa using hentry
        · intro at' hless one other hone hother
          exact hfirst (at' + 1) (by simpa using hless) one other (by simpa using hone)
            (by simpa using hother)
        · exact hfirst 0 (Nat.succ_pos _) previous entry rfl rfl
      · rintro (⟨way, -, heq⟩ | ⟨after, ⟨hprevious, hentry, hbetween, hfirst⟩, hnot, heq⟩)
        · cases heq
        · cases heq
          refine ⟨by simpa using hprevious, by simpa using hentry, hbetween, ?_⟩
          intro at' hless one other hone hother
          cases at' with
          | zero =>
              obtain rfl : previous = one := by simpa using hone
              obtain rfl : entry = other := by simpa using hother
              exact hnot
          | succ at' =>
              exact hfirst at' (by simpa using hless) one other (by simpa using hone)
                (by simpa using hother)

end Finding

/-! ## One step and a whole block -/

section Steps

variable {previous entry : Node}

end Steps

/-- The first breaches of the ways that are open, in the order of the entries. -/
structure Finds (isOpen : Breach → Prop) (entries : List Node) (found : List Finding) : Prop where
  sorted : found.Pairwise fun first second => first.place < second.place
  mem_iff : ∀ finding, finding ∈ found ↔ finding.First entries ∧ isOpen finding.breach

namespace Finds

variable {isOpen : Breach → Prop} {previous entry : Node} {entries : List Node}
  {found : List Finding}

theorem sorted_later (h : Finds isOpen entries found) :
    (found.map Finding.later).Pairwise fun first second => first.place < second.place := by
  simpa [List.pairwise_map, Finding.later] using h.sorted

theorem skip (h : Finds isOpen (entry :: entries) found)
    (hcalm : ∀ breach : Breach, breach.Between previous entry → ¬isOpen breach) :
    Finds isOpen (previous :: entry :: entries) (found.map Finding.later) := by
  refine ⟨h.sorted_later, fun finding => ?_⟩
  rw [List.mem_map, Finding.first_cons_iff]
  constructor
  · rintro ⟨after, hmember, rfl⟩
    obtain ⟨hfirst, hopen⟩ := (h.mem_iff after).1 hmember
    exact ⟨.inr ⟨after, hfirst, fun hbetween => hcalm _ hbetween hopen, rfl⟩, hopen⟩
  · rintro ⟨⟨breach, hbetween, rfl⟩ | ⟨after, hfirst, -, rfl⟩, hopen⟩
    · exact absurd hopen (hcalm breach hbetween)
    · exact ⟨after, (h.mem_iff after).2 ⟨hfirst, hopen⟩, rfl⟩

theorem take {breach : Breach}
    (h : Finds (fun other => other ≠ breach ∧ isOpen other) (entry :: entries) found)
    (hbetween : breach.Between previous entry) (hopen : isOpen breach) :
    Finds isOpen (previous :: entry :: entries)
      (⟨0, breach, previous, entry⟩ :: found.map Finding.later) := by
  refine ⟨List.pairwise_cons.2 ⟨by simp [Finding.later], h.sorted_later⟩, fun finding => ?_⟩
  rw [List.mem_cons, List.mem_map, Finding.first_cons_iff]
  constructor
  · rintro (rfl | ⟨after, hmember, rfl⟩)
    · exact ⟨.inl ⟨breach, hbetween, rfl⟩, hopen⟩
    · obtain ⟨hfirst, hne, hstill⟩ := (h.mem_iff after).1 hmember
      exact ⟨.inr ⟨after, hfirst, fun hsame => hne (hsame.unique hbetween), rfl⟩, hstill⟩
  · rintro ⟨⟨other, hother, rfl⟩ | ⟨after, hfirst, hnot, rfl⟩, hstill⟩
    · obtain rfl := hother.unique hbetween
      exact .inl rfl
    · have hne : after.breach ≠ breach := fun hsame => hnot (hsame ▸ hbetween)
      exact .inr ⟨after, (h.mem_iff after).2 ⟨hfirst, hne, hstill⟩, rfl⟩

end Finds

def Calm (previous entry : Node) : Prop :=
  ∀ breach : Breach, ¬breach.Between previous entry

theorem calm_iff {previous entry : Node} : Calm previous entry ↔
    (IsPair entry → IsPair previous) ∧
      ((IsPair previous ↔ IsPair entry) → (nameNode previous).text ≤ (nameNode entry).text) := by
  have hle : (nameNode previous).text ≤ (nameNode entry).text ↔
      ¬(nameNode entry).text < (nameNode previous).text := Iff.rfl
  rw [hle]
  constructor
  · intro h
    have hmixing := h .mixing
    have hpairs := h .pairs
    have himaginary := h .imaginary
    simp only [Breach.Between] at hmixing hpairs himaginary
    tauto
  · rintro ⟨hmixing, hsorted⟩ breach hbetween
    cases breach <;> simp only [Breach.Between] at hbetween <;> tauto

theorem Calm.trans {first second third : Node} (hfirst : Calm first second)
    (hsecond : Calm second third) : Calm first third := by
  obtain ⟨hpair, hle⟩ := calm_iff.1 hfirst
  obtain ⟨hpair', hle'⟩ := calm_iff.1 hsecond
  refine calm_iff.2 ⟨fun h => hpair (hpair' h), fun h => ?_⟩
  have hsame : (IsPair first ↔ IsPair second) ∧ (IsPair second ↔ IsPair third) := by tauto
  exact String.le_trans (hle hsame.1) (hle' hsame.2)

end GrammarLint.Check.TokenOrder
