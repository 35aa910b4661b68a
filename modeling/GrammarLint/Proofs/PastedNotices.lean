import GrammarLint.Proofs.BreakStyle
import GrammarLint.Proofs.Notices
import Mathlib.Data.List.DropRight

/-!
# Pasted notices

A notice that is written out after the opening brace of a license section, on lines of its
own, satisfies the check that was configured with its file.
-/

namespace GrammarLint

open Files Grammar Text

namespace Text

/-! ## Lines of texts read from files -/

theorem return_notMem_joinBreaks {found : List Char} (h : '\r' ∉ found) (chars : List Char) :
    '\r' ∉ joinBreaks found chars := by
  fun_induction joinBreaks found chars with
  | case1 found => simpa using h
  | case2 found chars ih => exact ih (by simpa using h)
  | case3 found chars hbreak ih => exact ih (by simpa using h)
  | case4 found c chars hreturn hbreak ih =>
      refine ih ?_
      rw [List.mem_cons, not_or]
      exact ⟨fun heq => hbreak heq.symm, h⟩

theorem return_notMem_decodeFile {bytes : List UInt8} {text : String}
    (h : decodeFile bytes = .ok text) : '\r' ∉ text.toList := by
  unfold decodeFile at h
  split at h
  · cases h
    rw [String.toList_ofList]
    exact return_notMem_joinBreaks (by simp) _
  · cases h

theorem all_blank_linesFrom (current chars : List Char) :
    (linesFrom current chars).all (·.all isBlank) = (current.all isBlank && chars.all isBlank) := by
  have hfeed : isBlank '\n' = true := by decide
  have hreturn : isBlank '\r' = true := by decide
  fun_induction linesFrom current chars with
  | case1 current => simp
  | case2 current chars ih => simp [ih, hfeed]
  | case3 current chars ih => simp [ih, hfeed, hreturn]
  | case4 current c chars _ _ ih => rw [ih, List.all_cons, List.all_cons, Bool.and_left_comm,
      Bool.and_assoc]

theorem all_blank_lines (text : String) :
    (∀ line ∈ lines text, allBlank line = true) ↔ ∀ c ∈ text.toList, isBlank c = true := by
  have hall := all_blank_linesFrom [] text.toList
  rw [List.all_nil, Bool.true_and] at hall
  rw [← List.all_eq_true, ← List.all_eq_true, lines, List.all_map, ← hall]
  simp [allBlank, Function.comp_def]

theorem prefix_dropLastWhile {α : Type} {p : α → Bool} {items : List α} (hsome : items ≠ [])
    (hlast : p (items.getLast hsome) = false) (more : List α) :
    items <+: dropLastWhile p (items ++ more) := by
  induction more using List.reverseRecOn with
  | nil =>
      rw [List.append_nil]
      have hkept : dropLastWhile p items = items :=
        List.rdropWhile_eq_self_iff.2 fun _ => by simp [hlast]
      rw [hkept]
  | append_singleton more item ih =>
      rw [← List.append_assoc]
      have hstep := List.rdropWhile_concat p (items ++ more) item
      change dropLastWhile p _ = _ at hstep
      rw [hstep]
      split
      · exact ih
      · rw [List.append_assoc]
        exact List.prefix_append _ _

end Text

/-! ## The notice of a file -/

namespace Check.Header

theorem noticeLines_eq_nil_iff (text : String) :
    noticeLines text = [] ↔ ∀ c ∈ text.toList, isBlank c = true :=
  List.rdropWhile_eq_nil_iff.trans (all_blank_lines text)

theorem loadNotice_decoded {fs : FileSystem} {name text : String} {bytes : List UInt8}
    (hname : allBlank name = false) (hread : fs.read (Path.ofString name) = .ok bytes)
    (hdecode : decodeFile bytes = .ok text) :
    loadNotice fs (.string name) =
      if noticeLines text = [] then .error (.config (.headerEmpty name))
      else .ok (noticeLines text) := by
  simp only [loadNotice, hname, hread, hdecode]
  cases noticeLines text <;> simp

theorem noticeLines_isPrefix {notice text : String} {more : List String}
    (hsome : noticeLines notice ≠ []) (h : lines text = "" :: lines notice ++ more) :
    noticeLines notice <+: content text := by
  obtain ⟨dropped, hdropped⟩ : noticeLines notice <+: lines notice :=
    List.rdropWhile_prefix _ _
  have hlines : lines text = ("" :: noticeLines notice) ++ (dropped ++ more) := by
    simp [h, ← hdropped]
  have hlast : ¬allBlank ((noticeLines notice).getLast hsome) = true :=
    List.rdropWhile_last_not allBlank (lines notice) hsome
  have hkept : "" :: noticeLines notice <+: contentLines text := by
    rw [contentLines, hlines]
    refine prefix_dropLastWhile (List.cons_ne_nil _ _) ?_ _
    rw [List.getLast_cons hsome, beq_eq_false_iff_ne]
    intro hempty
    rw [hempty] at hlast
    exact hlast rfl
  obtain ⟨rest, hrest⟩ := hkept
  rw [content, ← hrest]
  exact List.prefix_append _ _

end Check.Header

/-! ## Sections that have the notice -/

def LicenseSection (site : Site) (action : Node) : Prop :=
  ∃ parent scope name, site.parent? = some parent ∧ parent.kind ∈ Kind.grammars ∧
    site.node.children = scope ++ [name, action] ∧ scope.length ≤ 1 ∧ name.text = "header"

/-- The code has the notice on the lines after the brace, and after the notice nothing more
or a line break. -/
def Pasted (notice : String) (code : List Char) : Prop :=
  ∃ rest, (rest = [] ∨ ∃ later, rest = '\n' :: later) ∧ code = '\n' :: notice.toList ++ rest

theorem Pasted.lines_eq {notice text : String} {code : List Char} (h : Pasted notice code)
    (hreturn : '\r' ∉ notice.toList)
    (htext : text.toList = code ∨ text.toList = withReturns code) :
    ∃ more, lines text = "" :: lines notice ++ more := by
  obtain ⟨rest, hrest, rfl⟩ := h
  suffices hfrom : ∃ more, linesFrom [] text.toList = [] :: linesFrom [] notice.toList ++ more by
    obtain ⟨more, hmore⟩ := hfrom
    exact ⟨more.map String.ofList, by simp [lines, hmore]⟩
  rcases htext with htext | htext
  · rw [htext, List.cons_append, linesFrom]
    rcases hrest with rfl | ⟨later, rfl⟩
    · exact ⟨[], by simp⟩
    · exact ⟨linesFrom [] later, by simp [linesFrom_append_break [] hreturn]⟩
  · rw [htext, List.cons_append, withReturns_break, withReturns_append, linesFrom]
    rcases hrest with rfl | ⟨later, rfl⟩
    · exact ⟨[], by simp [linesFrom_withReturns [] hreturn]⟩
    · refine ⟨linesFrom [] (withReturns later), ?_⟩
      simp [linesFrom_append_return, linesFrom_withReturns [] hreturn]

section Files

variable {fs : FileSystem} {config : CheckConfig} {name notice : String} {bytes : List UInt8}

/-- A header file is refused as empty exactly if its text is blank.  If it is not, the check
is configured, and then says nothing of a license section whose code has the text of the
file after a line break, and after it nothing or another; nor if all the line breaks of the
code are written with a return. -/
theorem Convention.header_pasted (settings : Settings)
    (hoption : config.get headerOption .null = .string name) (hname : allBlank name = false)
    (hread : fs.read (Path.ofString name) = .ok bytes) (hdecode : decodeFile bytes = .ok notice) :
    (Convention.header.prepare fs config settings = .error (.config (.headerEmpty name)) ↔
      ∀ c ∈ notice.toList, isBlank c = true) ∧
    ((∃ c ∈ notice.toList, isBlank c = false) →
      ∃ configured, Convention.header.prepare fs config settings = .ok configured ∧
        ∀ source site action code, LicenseSection site action → Pasted notice code →
          action.text.toList = code ∨ action.text.toList = withReturns code →
            Convention.header.enter configured source site = .silent) := by
  have hprepare : Convention.header.prepare fs config settings =
      (if Check.Header.noticeLines notice = [] then .error (.config (.headerEmpty name))
        else .ok { settings with notice := Check.Header.noticeLines notice }) := by
    rw [prepare, hoption, Check.Header.loadNotice_decoded hname hread hdecode]
    split <;> rfl
  rw [hprepare, ← Check.Header.noticeLines_eq_nil_iff]
  refine ⟨by simp, fun ⟨c, hc, hplain⟩ => ?_⟩
  have hsome : Check.Header.noticeLines notice ≠ [] := by
    intro hnil
    have hblank := (Check.Header.noticeLines_eq_nil_iff notice).1 hnil c hc
    cases hblank.symm.trans hplain
  refine ⟨_, if_neg hsome, fun source site action code hsection hpasted htext => ?_⟩
  obtain ⟨parent, scope, label, hparent, hkind, hchildren, hscope, hlabel⟩ := hsection
  obtain ⟨more, hlines⟩ := hpasted.lines_eq (return_notMem_decodeFile hdecode) htext
  have hstarts := Check.Header.noticeLines_isPrefix hsome hlines
  have hcontent : Check.Header.content action.text ≠ [] := by
    intro hnil
    rw [hnil, List.prefix_nil] at hstarts
    exact hsome hstarts
  refine congrArg Reaction.ofRemarks ?_
  rw [Check.Header.enter_of_parent _ hparent
    (Check.Header.nameAndAction?_of_children hchildren hscope), if_pos ⟨hkind, hlabel⟩]
  exact Check.Header.judge_of_isPrefix site.node hcontent hstarts

end Files

/-- A notice with blank lines before, within and after its text. -/
def Pasted.sampleNotice : String := "\nfirst\n\nlast\n \x0c\n"

def Pasted.sampleBytes : List UInt8 :=
  Pasted.sampleNotice.toList.map fun c => c.toNat.toUInt8

def Pasted.sampleFiles : FileSystem :=
  { current := ["work"], entries := [(["work", "h.txt"], .file Pasted.sampleBytes)] }

def Pasted.sampleConfig : CheckConfig :=
  { name := "HeaderCheck", options := [(headerOption, .string "h.txt")] }

def Pasted.sampleAction : Node :=
  { kind := .action, text := "\r\n\r\nfirst\r\n\r\nlast\r\n \x0c\r\n\r\npackage x;" }

def Pasted.sampleSite : Site :=
  let part : Node :=
    { kind := .ampersand, children := [{ kind := .id, text := "header" }, Pasted.sampleAction] }
  ⟨part, [({ kind := .combinedGrammar, children := [part] }, 0)]⟩

theorem Convention.header_pasted_sample :
    Pasted.sampleConfig.get headerOption .null = .string "h.txt" ∧
      Pasted.sampleFiles.read (Path.ofString "h.txt") = .ok Pasted.sampleBytes ∧
      decodeFile Pasted.sampleBytes = .ok Pasted.sampleNotice ∧
      LicenseSection Pasted.sampleSite Pasted.sampleAction ∧
      ∃ configured, Convention.header.prepare Pasted.sampleFiles Pasted.sampleConfig {} =
          .ok configured ∧
        Convention.header.enter configured none Pasted.sampleSite = .silent := by
  have hoption : Pasted.sampleConfig.get headerOption .null = .string "h.txt" := rfl
  have hread : Pasted.sampleFiles.read (Path.ofString "h.txt") = .ok Pasted.sampleBytes := by
    decide
  have hdecode : decodeFile Pasted.sampleBytes = .ok Pasted.sampleNotice := by decide
  have hsection : LicenseSection Pasted.sampleSite Pasted.sampleAction :=
    ⟨_, [], _, rfl, by decide, rfl, by decide, rfl⟩
  obtain ⟨-, hquiet⟩ := Convention.header_pasted {} hoption (by decide) hread hdecode
  obtain ⟨configured, hconfigured, hsilent⟩ := hquiet ⟨'f', by decide, by decide⟩
  refine ⟨hoption, hread, hdecode, hsection, configured, hconfigured, ?_⟩
  exact hsilent none _ _ _ hsection ⟨"\npackage x;".toList, .inr ⟨_, rfl⟩, rfl⟩
    (.inr (by decide))

end GrammarLint
