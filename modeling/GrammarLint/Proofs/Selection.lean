import GrammarLint.Files.Select
import Mathlib.Data.List.Perm.Basic
import Mathlib.Tactic.SplitIfs

/-!
# The files of operands

Each operand stands for files of its own, whatever the others are, so that operands in
another order give the same files in another order.  None of these files goes without a
name: an operand that is empty stands for the current directory, and below a directory only
the files are taken that have a dot somewhere on the way to them.
-/

namespace GrammarLint.Files

/-! ## Names -/

theorem Path.text_ne_empty {path : Path} (h : path.parts ≠ [""]) : path.text ≠ "" := by
  obtain ⟨slashes, parts⟩ := path
  unfold text
  split_ifs with hroot
  · decide
  · intro hempty
    rw [String.append_eq_empty_iff] at hempty
    obtain ⟨hslashes, hparts⟩ := hempty
    match parts with
    | [] =>
        apply hroot
        simpa using hslashes
    | [part] =>
        rw [String.intercalate_singleton] at hparts
        exact h (congrArg (fun name => [name]) hparts)
    | first :: second :: rest =>
        rw [String.intercalate_cons_cons] at hparts
        simp at hparts

theorem Path.ofString_text_ne_empty (text : String) : (Path.ofString text).text ≠ "" := by
  apply text_ne_empty
  intro hparts
  have hmem : "" ∈ (Path.ofString text).parts := by
    rw [hparts]
    exact List.mem_singleton_self ""
  simp [ofString] at hmem

theorem NamePattern.accepts_dotted {rest : List NamePattern} {chars : List Char}
    (h : accepts (.anyMany :: .literal '.' :: rest) chars = true) : chars ≠ [] := by
  rintro rfl
  cases h

theorem PathStep.exists_of_someTail {rest : List String → Bool} {parts : List String}
    (h : someTail rest parts = true) : ∃ tail, tail <:+ parts ∧ rest tail = true := by
  induction parts with
  | nil => exact ⟨[], List.suffix_refl _, h⟩
  | cons part parts ih =>
      rw [someTail, Bool.or_eq_true] at h
      rcases h with h | h
      · exact ⟨part :: parts, List.suffix_refl _, h⟩
      · obtain ⟨tail, hsuffix, hrest⟩ := ih h
        exact ⟨tail, hsuffix.trans (List.suffix_cons _ _), hrest⟩

def Dotted (pattern : String) : Prop :=
  ['*', '.'] <+: pattern.toList

namespace Dotted

theorem extensionPattern (extension : String) : Dotted (extensionPattern extension) := by
  unfold Dotted Files.extensionPattern
  rw [String.toList_append]
  exact List.prefix_append _ _

variable {pattern : String}

theorem ne (h : Dotted pattern) : pattern ≠ "" ∧ pattern ≠ "." ∧ pattern ≠ "**" := by
  refine ⟨?_, ?_, ?_⟩
  all_goals
    rintro rfl
    revert h
    unfold Dotted
    decide

theorem components (h : Dotted pattern) :
    ∃ first others, PathStep.components pattern = first :: others ∧ Dotted first := by
  obtain ⟨chars, hchars⟩ := h
  obtain ⟨name, others, hsplit⟩ := List.exists_cons_of_ne_nil (List.splitOn_ne_nil '/' chars)
  have hall : pattern.toList.splitOn '/' = ('*' :: '.' :: name) :: others := by
    rw [← hchars, List.splitOn]
    rw [List.splitOn] at hsplit
    simp [List.splitOnP_cons_eq_if_modifyHead, hsplit]
  have hfirst : Dotted (String.ofList ('*' :: '.' :: name)) := by
    unfold Dotted
    rw [String.toList_ofList]
    exact List.prefix_append ['*', '.'] name
  have hname := hfirst.ne
  refine ⟨String.ofList ('*' :: '.' :: name), ?_⟩
  unfold PathStep.components
  rw [hall, List.map_cons]
  generalize String.ofList ('*' :: '.' :: name) = first at hfirst hname
  cases others with
  | nil => exact ⟨[], by simp [hname], hfirst⟩
  | cons second others =>
      dsimp only
      rw [List.map_cons, List.dropLast_cons_cons, List.filter_cons_of_pos (by simp [hname])]
      exact ⟨_, rfl, hfirst⟩

theorem ofString (h : Dotted pattern) :
    ∃ rest, NamePattern.ofString pattern = .anyMany :: .literal '.' :: rest := by
  obtain ⟨chars, hchars⟩ := h
  unfold NamePattern.ofString
  rw [← String.length_toList, ← hchars]
  exact ⟨_, rfl⟩

theorem ofString? (h : Dotted pattern) {steps : List PathStep}
    (hsteps : PathStep.ofString? pattern = some steps) :
    ∃ rest others, steps = .name (.anyMany :: .literal '.' :: rest) :: others := by
  obtain ⟨first, others, hcomponents, hfirst⟩ := h.components
  obtain ⟨rest, hrest⟩ := hfirst.ofString
  rw [PathStep.ofString?, hcomponents, List.mapM_cons, PathStep.ofComponent?, if_neg hfirst.ne.2.2,
    hrest] at hsteps
  split_ifs at hsteps
  · cases hsteps
  · rw [Option.bind_eq_bind, Option.bind_some] at hsteps
    obtain ⟨later, -, hlater⟩ := Option.bind_eq_some_iff.1 hsteps
    cases hlater
    exact ⟨rest, later, rfl⟩

end Dotted

theorem PathStep.accepts_dotted {rest : List NamePattern} {others : List PathStep}
    {parts : List String}
    (h : accepts (.anyDepth :: .name (.anyMany :: .literal '.' :: rest) :: others) parts = true) :
    ∃ part ∈ parts, part ≠ "" := by
  obtain ⟨tail, hsuffix, htail⟩ := exists_of_someTail h
  cases tail with
  | nil => cases htail
  | cons part tail =>
      rw [accepts, Bool.and_eq_true] at htail
      refine ⟨part, hsuffix.mem List.mem_cons_self, ?_⟩
      rintro rfl
      exact NamePattern.accepts_dotted htail.1 rfl

theorem FileSystem.text_ne_empty_of_mem_filesBelow {fs : FileSystem} {directory file : Path}
    {rest : List NamePattern} {others : List PathStep}
    (h : file ∈ fs.filesBelow directory
      (.anyDepth :: .name (.anyMany :: .literal '.' :: rest) :: others)) : file.text ≠ "" := by
  unfold filesBelow at h
  split at h
  · cases h
  · obtain ⟨parts, hparts, rfl⟩ := List.mem_map.1 h
    rw [List.mem_mergeSort, List.mem_filter] at hparts
    obtain ⟨part, hpart, hname⟩ := PathStep.accepts_dotted hparts.2
    apply Path.text_ne_empty
    intro hsingle
    have hmem : part ∈ [""] := hsingle ▸ List.mem_append_right _ hpart
    exact hname (List.mem_singleton.1 hmem)

/-! ## Operands in any order -/

def selected (fs : FileSystem) (extension operand : String) : List Path :=
  match grammarFilesOf fs extension operand with
  | .ok files => files
  | .error _ => []

def refuses (fs : FileSystem) (extension operand : String) : Bool :=
  grammarFilesOf fs extension operand matches .error _

section Operands

variable (fs : FileSystem) (extension : String)

theorem text_ne_empty_of_mem_selected {operand : String} {file : Path}
    (h : file ∈ selected fs extension operand) : file.text ≠ "" := by
  unfold selected grammarFilesOf at h
  dsimp only at h
  split_ifs at h
  · cases hsteps : PathStep.ofString? (extensionPattern extension) with
    | none => simp [hsteps] at h
    | some steps =>
        obtain ⟨rest, others, rfl⟩ := (Dotted.extensionPattern extension).ofString? hsteps
        rw [hsteps] at h
        exact FileSystem.text_ne_empty_of_mem_filesBelow h
  · obtain rfl := List.mem_singleton.1 h
    exact Path.ofString_text_ne_empty operand

theorem grammarFilesOf_error {operand : String} {fault : AccessFault}
    (h : grammarFilesOf fs extension operand = .error fault) : fault = .looseStars := by
  unfold grammarFilesOf at h
  dsimp only at h
  split_ifs at h
  split at h <;> cases h
  rfl

theorem grammarFiles_eq (operands : List String) :
    grammarFiles fs extension operands =
      if operands.any (refuses fs extension) then .error .looseStars
      else .ok (operands.flatMap (selected fs extension)) := by
  induction operands with
  | nil => rfl
  | cons operand operands ih =>
      rw [grammarFiles, ih, List.any_cons, List.flatMap_cons, refuses, selected]
      cases hfirst : grammarFilesOf fs extension operand with
      | error fault =>
          rw [grammarFilesOf_error fs extension hfirst]
          rfl
      | ok files =>
          cases operands.any (refuses fs extension) <;> rfl

theorem grammarFiles_perm {operands others : List String} (h : operands.Perm others) :
    (grammarFiles fs extension operands = .error .looseStars ∧
      grammarFiles fs extension others = .error .looseStars) ∨
    ∃ files otherFiles, grammarFiles fs extension operands = .ok files ∧
      grammarFiles fs extension others = .ok otherFiles ∧ files.Perm otherFiles := by
  rw [grammarFiles_eq, grammarFiles_eq, h.any_eq]
  split_ifs
  · exact .inl ⟨rfl, rfl⟩
  · exact .inr ⟨_, _, rfl, rfl, h.flatMap_right _⟩

theorem text_ne_empty_of_mem_grammarFiles {operands : List String} {files : List Path}
    (h : grammarFiles fs extension operands = .ok files) {file : Path} (hfile : file ∈ files) :
    file.text ≠ "" := by
  rw [grammarFiles_eq] at h
  split_ifs at h
  cases h
  obtain ⟨operand, -, hselected⟩ := List.mem_flatMap.1 hfile
  exact text_ne_empty_of_mem_selected fs extension hselected

end Operands

end GrammarLint.Files
