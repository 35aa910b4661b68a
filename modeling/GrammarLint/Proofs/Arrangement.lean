import GrammarLint.Diagnostic
import Mathlib.Data.List.Perm.Basic
import Mathlib.Data.Prod.Lex
import Mathlib.Data.String.Basic

/-!
# Diagnostics in order

Diagnostics are sorted by file and then by line, and those of one line of one file stay in
the order in which they were found.  Sorted so, they do not show in which order the files
were processed: what is found for a line comes from one file, and a file that is processed
again has the same diagnostics again.
-/

namespace GrammarLint

namespace Diagnostic

def key (diagnostic : Diagnostic) : String ×ₗ Int :=
  toLex (diagnostic.file, diagnostic.line)

theorem le_iff {a b : Diagnostic} : le a b = true ↔ a.key ≤ b.key := by
  simp [le, key, Prod.Lex.toLex_le_toLex]

theorem le_of_le_of_le (a b c : Diagnostic) (hab : le a b = true) (hbc : le b c = true) :
    le a c = true := by
  rw [le_iff] at hab hbc ⊢
  exact hab.trans hbc

theorem le_or_le (a b : Diagnostic) : (le a b || le b a) = true := by
  rw [Bool.or_eq_true, le_iff, le_iff]
  exact le_total a.key b.key

end Diagnostic

/-- The diagnostics are those of all the results, by file and then by line; among those of
one line of one file, the order is that of the results. -/
structure Arranges (results : List (List Diagnostic)) (diagnostics : List Diagnostic) :
    Prop where
  perm : diagnostics.Perm results.flatten
  sorted : diagnostics.Pairwise fun a b => a.key ≤ b.key
  stable : ∀ key, diagnostics.filter (·.key = key) = results.flatten.filter (·.key = key)

namespace Diagnostic

theorem sort_perm (diagnostics : List Diagnostic) : (sort diagnostics).Perm diagnostics :=
  List.mergeSort_perm diagnostics le

theorem sort_sorted (diagnostics : List Diagnostic) :
    (sort diagnostics).Pairwise fun a b => a.key ≤ b.key := by
  have hsorted := List.pairwise_mergeSort le_of_le_of_le le_or_le diagnostics
  exact hsorted.imp le_iff.1

theorem filter_sort (diagnostics : List Diagnostic) (key : String ×ₗ Int) :
    (sort diagnostics).filter (·.key = key) = diagnostics.filter (·.key = key) := by
  have hordered : (diagnostics.filter (·.key = key)).Pairwise fun a b => le a b = true := by
    refine List.pairwise_of_forall_mem_list fun a ha b hb => ?_
    have hkeys : a.key = b.key := by
      simp only [List.mem_filter, decide_eq_true_eq] at ha hb
      rw [ha.2, hb.2]
    exact le_iff.2 hkeys.le
  have hkept : (diagnostics.filter (·.key = key)).Sublist (sort diagnostics) :=
    List.sublist_mergeSort le_of_le_of_le le_or_le hordered List.filter_sublist
  have hsub := hkept.filter (·.key = key)
  rw [List.filter_filter] at hsub
  simp only [Bool.and_self] at hsub
  refine (hsub.eq_of_length ?_).symm
  exact ((sort_perm diagnostics).filter _).length_eq.symm

theorem arranges_sort (results : List (List Diagnostic)) :
    Arranges results (sort results.flatten) where
  perm := sort_perm _
  sorted := sort_sorted _
  stable := filter_sort _

theorem key_le_of_mem {a b : Diagnostic} {diagnostics : List Diagnostic}
    (h : (a :: diagnostics).Pairwise fun a b => a.key ≤ b.key) (hb : b ∈ a :: diagnostics) :
    a.key ≤ b.key := by
  rcases List.mem_cons.1 hb with rfl | hb
  · exact le_rfl
  · exact List.rel_of_pairwise_cons h hb

theorem mem_of_filter_eq {first second : List Diagnostic}
    (h : ∀ key, first.filter (·.key = key) = second.filter (·.key = key))
    {diagnostic : Diagnostic} (hmem : diagnostic ∈ first) : diagnostic ∈ second := by
  have hfilter : diagnostic ∈ first.filter (·.key = diagnostic.key) := by simpa using hmem
  rw [h] at hfilter
  exact List.mem_of_mem_filter hfilter

theorem eq_of_sorted {first second : List Diagnostic}
    (hfirst : first.Pairwise fun a b => a.key ≤ b.key)
    (hsecond : second.Pairwise fun a b => a.key ≤ b.key)
    (h : ∀ key, first.filter (·.key = key) = second.filter (·.key = key)) : first = second := by
  induction first generalizing second with
  | nil =>
      symm
      rw [List.eq_nil_iff_forall_not_mem]
      intro diagnostic hmem
      exact List.not_mem_nil (mem_of_filter_eq (fun key => (h key).symm) hmem)
  | cons a first ih =>
      cases second with
      | nil => exact absurd (mem_of_filter_eq h List.mem_cons_self) List.not_mem_nil
      | cons b second =>
          have hkeys : a.key = b.key := by
            apply le_antisymm
            · apply key_le_of_mem hfirst
              exact mem_of_filter_eq (fun key => (h key).symm) List.mem_cons_self
            · apply key_le_of_mem hsecond
              exact mem_of_filter_eq h List.mem_cons_self
          have hheads := h a.key
          rw [List.filter_cons_of_pos (by simp), List.filter_cons_of_pos (by simp [hkeys]),
            List.cons.injEq] at hheads
          obtain ⟨rfl, -⟩ := hheads
          congr 1
          apply ih hfirst.of_cons hsecond.of_cons
          intro key
          have hkey := h key
          rw [List.filter_cons, List.filter_cons] at hkey
          split at hkey
          · exact List.tail_eq_of_cons_eq hkey
          · exact hkey

end Diagnostic

/-! ## Files in any order -/

theorem flatMap_eq_of_perm {names others : List String} (hperm : names.Perm others)
    {result : String → List Diagnostic} {file : String}
    (h : ∀ name ∈ names, name ≠ file → result name = []) :
    names.flatMap result = others.flatMap result := by
  induction hperm with
  | nil => rfl
  | cons name hperm ih =>
      rw [List.forall_mem_cons] at h
      rw [List.flatMap_cons, List.flatMap_cons, ih h.2]
  | swap first second rest =>
      -- Neighbours that both have results are the same file, so exchanging them changes nothing.
      have hexchange : result second ++ result first = result first ++ result second := by
        by_cases hfirst : first = file
        · by_cases hsecond : second = file
          · rw [hfirst, hsecond]
          · rw [h second (by simp) hsecond, List.nil_append, List.append_nil]
        · rw [h first (by simp) hfirst, List.nil_append, List.append_nil]
      simp only [List.flatMap_cons, ← List.append_assoc, hexchange]
  | trans hfirst hsecond ihfirst ihsecond =>
      rw [ihfirst h, ihsecond fun name hname => h name (hfirst.mem_iff.2 hname)]

/-- Results in order do not depend on the order in which the files were processed, nor on
the places at which a file was processed again. -/
theorem Arranges.eq_of_perm {names others : List String} (hperm : names.Perm others)
    {result : String → List Diagnostic}
    (hfile : ∀ name ∈ names, ∀ diagnostic ∈ result name, diagnostic.file = name)
    {first second : List Diagnostic} (hfirst : Arranges (names.map result) first)
    (hsecond : Arranges (others.map result) second) : first = second := by
  apply Diagnostic.eq_of_sorted hfirst.sorted hsecond.sorted
  intro key
  rw [hfirst.stable, hsecond.stable, ← List.flatMap_def, ← List.flatMap_def,
    List.filter_flatMap, List.filter_flatMap]
  apply @flatMap_eq_of_perm _ _ hperm _ (ofLex key).1
  intro name hname hother
  rw [List.filter_eq_nil_iff]
  intro diagnostic hdiagnostic hkey
  rw [decide_eq_true_eq] at hkey
  apply hother
  rw [← hfile name hname diagnostic hdiagnostic, ← hkey]
  rfl

end GrammarLint
