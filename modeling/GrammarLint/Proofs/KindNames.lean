import GrammarLint.Config.Basic
import Mathlib.Data.List.DropRight
import Mathlib.Data.List.Forall2

/-!
# Names of kinds in entries

The kinds that an entry asks for are a list of names, or names joined by commas.  A text is
cut at the commas and its parts are trimmed as it is read, a list is taken as it is; so
what is read is fixed up to trimming, order and repetition.
-/

namespace GrammarLint

open Document Files Text

/-! ## Trimming -/

namespace Text

theorem trimStart_cons (c : Char) (chars : List Char) :
    trimStart (c :: chars) = if isBlank c then trimStart chars else c :: chars :=
  List.dropWhile_cons

theorem trimEnd_cons (c : Char) (chars : List Char) :
    trimEnd (c :: chars) =
      if trimEnd chars = [] then (if isBlank c then [] else [c]) else c :: trimEnd chars := by
  rw [trimEnd, trimEnd, List.reverse_cons, List.dropWhile_append]
  cases chars.reverse.dropWhile isBlank with
  | nil => by_cases hc : isBlank c = true <;> simp [hc]
  | cons last rest => simp

theorem trimStart_trimEnd (chars : List Char) :
    trimStart (trimEnd chars) = trimEnd (trimStart chars) := by
  induction chars with
  | nil => rfl
  | cons c chars ih => grind [trimStart_cons, trimEnd_cons, trimStart]

theorem trimStart_append {before : List Char} (h : ∀ c ∈ before, isBlank c = true)
    (chars : List Char) : trimStart (before ++ chars) = trimStart chars := by
  rw [trimStart, List.dropWhile_append, List.dropWhile_eq_nil_iff.2 h]
  rfl

theorem trimEnd_append {after : List Char} (h : ∀ c ∈ after, isBlank c = true)
    (chars : List Char) : trimEnd (chars ++ after) = trimEnd chars := by
  rw [trimEnd, List.reverse_append]
  exact congrArg List.reverse (trimStart_append (by simpa using h) chars.reverse)

theorem trim_trim (text : String) : trim (trim text) = trim text := by
  have hstart : trimStart (trimStart text.toList) = trimStart text.toList :=
    List.dropWhile_idempotent isBlank _
  have hend : trimEnd (trimEnd (trimStart text.toList)) = trimEnd (trimStart text.toList) :=
    List.rdropWhile_idempotent isBlank _
  simp only [trim, String.toList_ofList]
  rw [trimStart_trimEnd, hstart, hend]

theorem trim_eq_empty_iff (text : String) : trim text = "" ↔ allBlank text = true := by
  have hnone : trim text = "" ↔ ∀ c ∈ trimStart text.toList, isBlank c = true := by
    rw [trim, ← String.ofList_nil, String.ofList_inj]
    exact List.rdropWhile_eq_nil_iff
  rw [hnone, allBlank, List.all_eq_true]
  constructor
  · intro h c hc
    rw [← List.takeWhile_append_dropWhile (p := isBlank) (l := text.toList)] at hc
    rcases List.mem_append.1 hc with hdropped | hkept
    · exact List.mem_takeWhile_imp hdropped
    · exact h c hkept
  · intro h c hc
    exact h c ((List.dropWhile_sublist isBlank).mem hc)

theorem comma_notMem_of_blank {chars : List Char} (h : ∀ c ∈ chars, isBlank c = true) :
    ',' ∉ chars := by
  intro hmember
  have hcomma : isBlank ',' = false := by decide
  cases hcomma.symm.trans (h ',' hmember)

def Pads (text padded : String) : Prop :=
  ∃ before after : List Char, padded.toList = before ++ text.toList ++ after ∧
    ∀ c ∈ before ++ after, isBlank c = true

theorem Pads.trim_eq {text padded : String} (h : Pads text padded) :
    trim padded = trim text := by
  obtain ⟨before, after, hpadded, hblank⟩ := h
  rw [List.forall_mem_append] at hblank
  rw [trim, hpadded, List.append_assoc, trimStart_append hblank.1, ← trimStart_trimEnd,
    trimEnd_append hblank.2, trimStart_trimEnd]
  rfl

end Text

/-! ## Spellings -/

def SameNames (texts others : List String) : Prop :=
  ∀ name, name ∈ texts.map trim ↔ name ∈ others.map trim

/-- The ways to ask for the kinds of some names: any list of texts that are these names, or
texts joined by commas that are these names but for blank ones. -/
inductive Spells (names : List String) : Value → Prop where
  | listed {texts : List String} (hsame : SameNames texts names) :
      Spells names (.list (texts.map .string))
  | joined {parts : List String} (hcomma : ∀ part ∈ parts, ',' ∉ part.toList)
      (hsame : SameNames (parts.filter (!allBlank ·)) names) :
      Spells names (.string (String.intercalate "," parts))

/-- The entry asks for the kinds by the value, and has the other fields. -/
structure AsksFor (value : Value) (others fields : List (String × Value)) : Prop where
  others : fields.filter (fun field => field.1 != "tokens" && field.1 != "kinds") = others
  asked : getField? "tokens" fields = some value ∨
    getField? "tokens" fields = none ∧ getField? "kinds" fields = some value

section Spellings

variable {names : List String} {value : Value}

theorem SameNames.ne_nil {texts : List String} (h : SameNames texts names) (hsome : names ≠ []) :
    texts ≠ [] := by
  rintro rfl
  obtain ⟨name, hname⟩ := List.exists_mem_of_ne_nil names hsome
  exact List.not_mem_nil ((h (trim name)).2 (List.mem_map_of_mem hname))

theorem SameNames.map_trim {texts : List String} (h : SameNames texts names) :
    SameNames (texts.map trim) names := by
  have htrimmed : (texts.map trim).map trim = texts.map trim := by
    simp only [List.map_map, Function.comp_def, trim_trim]
  intro name
  rw [htrimmed]
  exact h name

theorem textsOf?_map_string (texts : List String) : textsOf? (texts.map .string) = some texts := by
  induction texts with
  | nil => rfl
  | cons text texts ih => simp [textsOf?, ih]

theorem splitKinds_intercalate {parts : List String} (hcomma : ∀ part ∈ parts, ',' ∉ part.toList) :
    splitKinds (String.intercalate "," parts) = (parts.filter (!allBlank ·)).map trim := by
  have hkept : (fun part => trim part != "") = (!allBlank ·) := by
    funext part
    rw [Bool.eq_iff_iff, bne_iff_ne, Ne, trim_eq_empty_iff, Bool.not_eq_true', Bool.not_eq_true]
  have hread : splitKinds (String.intercalate "," parts) =
      (parts.map trim).filter (· != "") := by
    by_cases hnone : parts = []
    · rw [hnone]
      rfl
    · have hcut : ([','].intercalate (parts.map String.toList)).splitOn ',' =
          parts.map String.toList :=
        List.splitOn_intercalate ',' (by simpa using hcomma) (by simpa using hnone)
      rw [splitKinds, String.toList_intercalate]
      change (([','].intercalate _).splitOn ',' |>.map _).filter _ = _
      rw [hcut, List.map_map]
      simp only [Function.comp_def, String.ofList_toList]
  rw [hread, List.filter_map]
  exact congrArg (fun kept => (parts.filter kept).map trim) hkept

theorem Spells.kindNames_eq (h : Spells names value) (check : String) :
    ∃ asked, kindNames check value = .ok asked ∧ SameNames asked names := by
  cases h with
  | @listed texts hsame =>
      refine ⟨texts, ?_, hsame⟩
      rw [kindNames, textsOf?_map_string]
  | @joined parts hcomma hsame =>
      refine ⟨(parts.filter (!allBlank ·)).map trim, ?_, hsame.map_trim⟩
      rw [kindNames, splitKinds_intercalate hcomma]

theorem map_trim_of_pads {padded : List String} (h : List.Forall₂ Pads names padded) :
    padded.map trim = names.map trim := by
  induction h with
  | nil => rfl
  | cons hfirst _ ih => rw [List.map_cons, List.map_cons, hfirst.trim_eq, ih]

theorem comma_notMem_of_pads {padded : List String} (hcomma : ∀ name ∈ names, ',' ∉ name.toList)
    (h : List.Forall₂ Pads names padded) : ∀ part ∈ padded, ',' ∉ part.toList := by
  induction h with
  | nil => simp
  | cons hfirst _ ih =>
      obtain ⟨before, after, hpadded, hblank⟩ := hfirst
      rw [List.forall_mem_cons] at hcomma ⊢
      refine ⟨?_, ih hcomma.2⟩
      have houtside := comma_notMem_of_blank hblank
      rw [List.mem_append, not_or] at houtside
      rw [hpadded, List.mem_append, List.mem_append, not_or, not_or]
      exact ⟨⟨houtside.1, hcomma.1⟩, houtside.2⟩

theorem Spells.of_pads {parts : List String} (hcomma : ∀ name ∈ names, ',' ∉ name.toList)
    (hpads : List.Forall₂ Pads names (parts.filter (!allBlank ·))) :
    Spells names (.string (String.intercalate "," parts)) := by
  refine .joined (fun part hpart => ?_) (fun name => ?_)
  · cases hblank : allBlank part with
    | true =>
        rw [allBlank, List.all_eq_true] at hblank
        exact comma_notMem_of_blank hblank
    | false =>
        apply comma_notMem_of_pads hcomma hpads
        rw [List.mem_filter, hblank]
        exact ⟨hpart, rfl⟩
  · rw [map_trim_of_pads hpads]

theorem getField?_filter {key : String} {keep : String → Bool} (h : keep key = true)
    (fields : List (String × Value)) :
    getField? key (fields.filter fun field => keep field.1) = getField? key fields := by
  induction fields with
  | nil => rfl
  | cons field fields ih => grind [getField?]

theorem ofValue_eq_ok_iff {fs : FileSystem} {base : Option Path} {fields : List (String × Value)}
    {config : CheckConfig} : CheckConfig.ofValue fs base (.object fields) = .ok config ↔
      config.name ≠ "" ∧ getField? "name" fields = some (.string config.name) ∧
      Severity.ofValue? ((getField? "severity" fields).getD (.string Severity.error.word)) =
        some config.severity ∧
      resolveOptions fs base (fields.filter fun (key, _) => !reservedKeys.contains key) =
        .ok config.options ∧
      kindNames config.name ((getField? "tokens" fields).getD
        ((getField? "kinds" fields).getD .null)) = .ok config.kinds := by
  obtain ⟨name, options, kinds, severity⟩ := config
  simp only [CheckConfig.ofValue]
  split
  · rename_i given hgiven
    rw [hgiven, Option.some.injEq, Value.string.injEq]
    by_cases hempty : given = ""
    · simp only [hempty, if_true]
      grind
    · rw [if_neg hempty]
      cases Severity.ofValue? _ with
      | none => simp
      | some level =>
          generalize resolveOptions fs base _ = resolved
          generalize (getField? "tokens" fields).getD _ = raw
          cases resolved with
          | error fault => simp [bind, Except.bind]
          | ok resolved =>
              cases hread : kindNames given raw with
              | error cause =>
                  simp only [bind, Except.bind, liftConfig]
                  grind
              | ok read =>
                  simp only [bind, Except.bind, liftConfig, pure, Except.pure]
                  grind
  · rename_i hnone
    constructor
    · intro h
      cases h
    · rintro ⟨-, hname, -⟩
      exact absurd hname (hnone name)

theorem AsksFor.ofValue_eq {fs : FileSystem} {base : Option Path}
    {others fields : List (String × Value)} {plain : CheckConfig} (h : AsksFor value others fields)
    (hplain : CheckConfig.ofValue fs base (.object others) = .ok plain)
    {asked : List String} (hasked : kindNames plain.name value = .ok asked) :
    CheckConfig.ofValue fs base (.object fields) = .ok { plain with kinds := asked } := by
  have hother {key : String} (hkey : (key != "tokens" && key != "kinds") = true) :
      getField? key others = getField? key fields := by
    rw [← h.others]
    exact @getField?_filter key (fun key => key != "tokens" && key != "kinds") hkey fields
  have hoptions : others.filter (fun (key, _) => !reservedKeys.contains key) =
      fields.filter fun (key, _) => !reservedKeys.contains key := by
    rw [← h.others, List.filter_filter]
    congr 1
    funext field
    simp [reservedKeys]
  have hraw : (getField? "tokens" fields).getD ((getField? "kinds" fields).getD .null) = value := by
    rcases h.asked with htokens | ⟨htokens, hkinds⟩
    · rw [htokens, Option.getD_some]
    · rw [htokens, hkinds, Option.getD_none, Option.getD_some]
  obtain ⟨hsome, hname, hseverity, hresolved, -⟩ := ofValue_eq_ok_iff.1 hplain
  rw [hother rfl] at hname hseverity
  rw [hoptions] at hresolved
  rw [← hraw] at hasked
  exact ofValue_eq_ok_iff.2 ⟨hsome, hname, hseverity, hresolved, hasked⟩

end Spellings

end GrammarLint
