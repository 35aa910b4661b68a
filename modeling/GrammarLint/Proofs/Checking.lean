import GrammarLint.Proofs.Arrangement
import GrammarLint.Proofs.Isolation
import GrammarLint.Proofs.PrintedReport
import GrammarLint.Proofs.Selection

/-!
# The report on grammars

Checking the files of the operands reports what was found in each of them, in order, and
ends in a code that says whether there was anything.  What is reported does not depend on
the order of the operands, also if some of them stand for the same files.
-/

namespace GrammarLint

open Files

/-! ## Whose diagnostics they are -/

namespace Walker

theorem file_of_mem_logged {walker : Walker} {file : String} {call : Check × Notification}
    {diagnostic : Diagnostic} (h : diagnostic ∈ walker.logged file call) :
    diagnostic.file = file := by
  unfold logged at h
  split at h
  · obtain ⟨remark, -, rfl⟩ := List.mem_map.1 h
    rfl
  · cases h

theorem Concludes.file_of_mem {walker : Walker} {file : String} {text : Except Fault String}
    {result : List Call × FileReport} (h : Concludes walker file text result)
    {diagnostic : Diagnostic} (hmem : diagnostic ∈ result.2.diagnostics) :
    diagnostic.file = fileLabel (some file) := by
  have hlogged {calls : List (Check × Notification)}
      (hcalls : diagnostic ∈ calls.flatMap (walker.logged (fileLabel (some file)))) :
      diagnostic.file = fileLabel (some file) := by
    obtain ⟨call, -, hcall⟩ := List.mem_flatMap.1 hcalls
    exact file_of_mem_logged hcall
  have hfailure {fault : Fault}
      (hfault : diagnostic ∈ [failure (fileLabel (some file)) fault]) :
      diagnostic.file = fileLabel (some file) := by
    rw [List.mem_singleton.1 hfault]
    rfl
  cases h with
  | unread => exact hfailure hmem
  | unparsed => exact hfailure hmem
  | finished => exact hlogged hmem
  | stopped =>
      rcases List.mem_append.1 hmem with hmem | hmem
      · exact hlogged hmem
      · exact hfailure hmem

theorem file_of_mem_process {walker : Walker} {fs : FileSystem} {file : String}
    (hname : file ≠ "") {diagnostic : Diagnostic}
    (h : diagnostic ∈ (walker.process fs file none).2.2.diagnostics) :
    diagnostic.file = file := by
  rw [process_eq] at h
  rw [(walker.concludes_reportOf file _).file_of_mem h, fileLabel, if_neg hname]

end Walker

/-! ## What comes of a command -/

namespace Cli

/-- The outcome but for what is logged. -/
def Outcome.unlogged (outcome : Outcome) : Outcome :=
  { outcome with log := [] }

/-- A text is printed or written to the file that is asked for, with the code that is
given, unless that file cannot be written to. -/
inductive Outcome.Delivers (fs : FileSystem) (target : Option String) (code : Nat)
    (text : String) : Outcome → Prop where
  | printed {log : List Record} (htarget : target = none ∨ target = some "-") :
      Delivers fs target code text { code, output := text, log }
  | written {log : List Record} {name : String} {file : Path} (htarget : target = some name)
      (hname : name ≠ "-") (hopen : fs.openForWriting (Path.ofString name) = .ok file) :
      Delivers fs target code text { code, written := some (file, text), log }
  | refused {log : List Record} {name : String} {fault : AccessFault}
      (htarget : target = some name) (hname : name ≠ "-")
      (hopen : fs.openForWriting (Path.ofString name) = .error fault) :
      Delivers fs target code text { code := 2, log }

/-- What comes of checking files with a walker.  The files may not be searched for, or
there may be none; else what was found in each of them is printed or written, in order, and
the code says whether that is anything. -/
inductive Checks (fs : FileSystem) (request : CheckRequest) (walker : Walker) :
    Outcome → Prop where
  | unsearched {log : List Record} {fault : AccessFault}
      (hfiles : grammarFiles fs request.extension request.operands = .error fault) :
      Checks fs request walker { code := 2, log }
  | unfound {log : List Record}
      (hfiles : grammarFiles fs request.extension request.operands = .ok []) :
      Checks fs request walker { code := 2, log }
  | reported {files : List Path} {diagnostics : List Diagnostic} {text : String}
      {outcome : Outcome}
      (hfiles : grammarFiles fs request.extension request.operands = .ok files)
      (hsome : files ≠ [])
      (harranges : Arranges
        (files.map fun file => (walker.process fs file.text none).2.2.diagnostics) diagnostics)
      (hprints : Prints diagnostics request.format text)
      (hdelivers :
        outcome.Delivers fs request.output (if diagnostics = [] then 0 else 1) text) :
      Checks fs request walker outcome

namespace Outcome

variable (fs : FileSystem) (target : Option String) (code : Nat)

theorem delivers_deliver (log : List Record) (text : String) :
    (deliver fs target code log text).Delivers fs target code text := by
  unfold deliver
  cases target with
  | none => exact .printed (.inl rfl)
  | some name =>
      dsimp only
      split_ifs with hname
      · exact .printed (.inr (congrArg some hname))
      · cases hopen : fs.openForWriting (Path.ofString name) with
        | ok file => exact .written rfl hname hopen
        | error fault => exact .refused rfl hname hopen

theorem unlogged_deliver (log other : List Record) (text : String) :
    (deliver fs target code log text).unlogged = (deliver fs target code other text).unlogged := by
  unfold deliver
  cases target with
  | none => rfl
  | some name =>
      dsimp only
      split_ifs
      · rfl
      · cases fs.openForWriting (Path.ofString name) <;> rfl

end Outcome

def arranged (fs : FileSystem) (walker : Walker) (files : List Path) : List Diagnostic :=
  Diagnostic.sort
    (files.map fun file => (walker.process fs file.text none).2.2.diagnostics).flatten

section Files

variable (fs : FileSystem) (request : CheckRequest) (walker : Walker)

theorem checkFiles_eq (log : List Record) (files : List Path) :
    ∃ records, checkFiles fs request walker log files =
      .deliver fs request.output (if arranged fs walker files = [] then 0 else 1) records
        (report (arranged fs walker files) request.format) := by
  have hfound : (walker.processAll fs (files.map Path.text)).2.2.flatMap (·.diagnostics) =
      (files.map fun file => (walker.process fs file.text none).2.2.diagnostics).flatten := by
    rw [walker.processAll_reports, List.flatMap_def, List.map_map, List.map_map]
    rfl
  unfold checkFiles
  dsimp only
  rw [hfound]
  simp only [List.isEmpty_iff]
  exact ⟨_, rfl⟩

theorem arranged_perm {files others : List Path} (hperm : files.Perm others)
    (hnamed : ∀ file ∈ files, file.text ≠ "") :
    arranged fs walker files = arranged fs walker others := by
  let result (name : String) : List Diagnostic := (walker.process fs name none).2.2.diagnostics
  have harranges (files : List Path) :
      Arranges ((files.map Path.text).map result) (arranged fs walker files) := by
    rw [List.map_map]
    exact Diagnostic.arranges_sort _
  refine Arranges.eq_of_perm (hperm.map Path.text) ?_ (harranges files) (harranges others)
  intro name hname diagnostic hdiagnostic
  obtain ⟨file, hfile, rfl⟩ := List.mem_map.1 hname
  exact Walker.file_of_mem_process (hnamed file hfile) hdiagnostic

theorem unlogged_checkFiles {files others : List Path} (hperm : files.Perm others)
    (hnamed : ∀ file ∈ files, file.text ≠ "") (operands : List String) (log other : List Record) :
    (checkFiles fs { request with operands } walker log files).unlogged =
      (checkFiles fs request walker other others).unlogged := by
  obtain ⟨records, hfirst⟩ := checkFiles_eq fs { request with operands } walker log files
  obtain ⟨otherRecords, hsecond⟩ := checkFiles_eq fs request walker other others
  rw [hfirst, hsecond, arranged_perm fs walker hperm hnamed]
  exact Outcome.unlogged_deliver ..

end Files

/-! ## The command -/

section Command

variable {fs : FileSystem} {request : CheckRequest} {configs : List CheckConfig}
  {loaded : List Record} {conventions : List Convention}

theorem runCheck_eq (hconfigs : requestedConfigs fs request = .ok (configs, loaded))
    (hsetup : (Walker.setupAll {} fs configs).result = .ok conventions) :
    ∃ log, runCheck fs request =
      match grammarFiles fs request.extension request.operands with
      | .error fault => .unexpected log (.access fault)
      | .ok [] =>
          .failed codeFailure log
            ("no grammar files found in " ++ String.intercalate ", " request.operands)
      | .ok files => checkFiles fs request (Walker.setupAll {} fs configs).walker log files := by
  unfold runCheck
  rw [hconfigs]
  dsimp only
  rw [hsetup]
  exact ⟨_, rfl⟩

theorem checks_runCheck (hconfigs : requestedConfigs fs request = .ok (configs, loaded))
    (hsetup : (Walker.setupAll {} fs configs).result = .ok conventions) :
    Checks fs request (Walker.setupAll {} fs configs).walker (runCheck fs request) := by
  obtain ⟨log, hrun⟩ := runCheck_eq hconfigs hsetup
  rw [hrun]
  cases hfiles : grammarFiles fs request.extension request.operands with
  | error fault => exact .unsearched hfiles
  | ok files =>
      cases files with
      | nil => exact .unfound hfiles
      | cons file files =>
          obtain ⟨records, hcheck⟩ :=
            checkFiles_eq fs request (Walker.setupAll {} fs configs).walker log (file :: files)
          dsimp only
          rw [hcheck]
          exact .reported hfiles (List.cons_ne_nil file files) (Diagnostic.arranges_sort _)
            (prints_report ..) (Outcome.delivers_deliver ..)

theorem unlogged_runCheck (hconfigs : requestedConfigs fs request = .ok (configs, loaded))
    (hsetup : (Walker.setupAll {} fs configs).result = .ok conventions) {operands : List String}
    (hperm : operands.Perm request.operands) :
    (runCheck fs { request with operands }).unlogged = (runCheck fs request).unlogged := by
  obtain ⟨log, hrun⟩ := runCheck_eq hconfigs hsetup
  obtain ⟨other, hother⟩ := @runCheck_eq fs { request with operands } _ _ _ hconfigs hsetup
  rw [hrun, hother]
  rcases grammarFiles_perm fs request.extension hperm with
    ⟨hfirst, hsecond⟩ | ⟨files, others, hfirst, hsecond, hfiles⟩
  · rw [hfirst, hsecond]
    rfl
  · have hnamed : ∀ file ∈ files, file.text ≠ "" := fun file hfile =>
      text_ne_empty_of_mem_grammarFiles fs request.extension hfirst hfile
    rw [hfirst, hsecond]
    cases files with
    | nil =>
        rw [← hfiles.nil_eq]
        rfl
    | cons file files =>
        cases others with
        | nil => exact absurd hfiles.eq_nil (List.cons_ne_nil file files)
        | cons other others =>
            exact unlogged_checkFiles fs request _ hfiles hnamed operands _ _

/-- The report does not depend on the order of the operands.  Whatever files exist and
whatever checks were set up, it holds what was found in each file, by file and then by
line, and for one line in the order in which it was found; and the code says whether
there is anything to report, or whether no file was found.  With the operands in any
other order, the code and the text that is printed or written are the same. -/
theorem runCheck_unordered (hconfigs : requestedConfigs fs request = .ok (configs, loaded))
    (hsetup : (Walker.setupAll {} fs configs).result = .ok conventions) :
    Checks fs request (Walker.setupAll {} fs configs).walker (runCheck fs request) ∧
      ∀ operands, operands.Perm request.operands →
        (runCheck fs { request with operands }).unlogged = (runCheck fs request).unlogged := by
  refine ⟨checks_runCheck hconfigs hsetup, ?_⟩
  intro operands hperm
  exact unlogged_runCheck hconfigs hsetup hperm

def Checks.sampleFiles : FileSystem :=
  { current := ["work"], entries := [(["work", "g", "a.g"], .file [])] }

/-- A file that is missing, a file, and the directory that it is in. -/
def Checks.sampleRequest : CheckRequest :=
  { operands := ["b.g", "g/a.g", "g"] }

def Checks.samplePaths : List Path :=
  ["b.g", "g/a.g", "g/a.g"].map Path.ofString

/-- The missing file could not be read, and the other one has no grammar, each time that it
is asked for. -/
def Checks.sampleReport : List Diagnostic :=
  let missing : Diagnostic :=
    { file := "b.g", line := 0, check := "GrammarWalker"
      message := "Got an exception - [Errno 2] No such file or directory: 'b.g'" }
  let empty : Diagnostic :=
    { file := "g/a.g", line := 0, check := "GrammarWalker"
      message := "Got an exception - g/a.g:1:0: " ++
        "Rule 'grammar_file' didn't match at '' (line 1, column 1)." }
  [missing, empty, empty]

def Checks.sampleText : String :=
  "b.g:0: error: Got an exception - [Errno 2] No such file or directory: 'b.g' " ++
    "[GrammarWalker]\n" ++
  "g/a.g:0: error: Got an exception - g/a.g:1:0: " ++
    "Rule 'grammar_file' didn't match at '' (line 1, column 1). [GrammarWalker]\n" ++
  "g/a.g:0: error: Got an exception - g/a.g:1:0: " ++
    "Rule 'grammar_file' didn't match at '' (line 1, column 1). [GrammarWalker]\n" ++
  "\n--- 3 diagnostic(s) in 2 file(s) ---\n"

theorem arranged_sampleFiles :
    arranged Checks.sampleFiles
      (Walker.setupAll {} Checks.sampleFiles (defaultConfigs none)).walker
      Checks.samplePaths = Checks.sampleReport := by
  have hfound : (Checks.samplePaths.map fun file =>
      ((Walker.setupAll {} Checks.sampleFiles (defaultConfigs none)).walker.process
        Checks.sampleFiles file.text none).2.2.diagnostics).flatten = Checks.sampleReport := by
    decide +kernel
  unfold arranged
  rw [hfound]
  exact List.mergeSort_of_pairwise (by decide)

theorem runCheck_sampleFiles :
    (runCheck Checks.sampleFiles Checks.sampleRequest).unlogged =
      { code := 1, output := Checks.sampleText } := by
  have hfiles : grammarFiles Checks.sampleFiles Checks.sampleRequest.extension
      Checks.sampleRequest.operands = .ok Checks.samplePaths := by
    decide +kernel
  obtain ⟨log, hrun⟩ := @runCheck_eq Checks.sampleFiles Checks.sampleRequest
    (defaultConfigs none) [] (Convention.all.filter (!·.needsSettings)) rfl
    (Walker.setupAll_plain {} Checks.sampleFiles (by decide))
  obtain ⟨records, hcheck⟩ := checkFiles_eq Checks.sampleFiles Checks.sampleRequest
    (Walker.setupAll {} Checks.sampleFiles (defaultConfigs none)).walker log Checks.samplePaths
  rw [arranged_sampleFiles, Checks.samplePaths, List.map_cons] at hcheck
  rw [hrun, hfiles, Checks.samplePaths, List.map_cons]
  dsimp only
  rw [hcheck, Outcome.unlogged_deliver _ _ _ _ []]
  decide +kernel

theorem runCheck_unordered_sample :
    Checks Checks.sampleFiles Checks.sampleRequest
      (Walker.setupAll {} Checks.sampleFiles (defaultConfigs none)).walker
      (runCheck Checks.sampleFiles Checks.sampleRequest) ∧
    (runCheck Checks.sampleFiles
        { Checks.sampleRequest with operands := ["g", "g/a.g", "b.g"] }).unlogged =
      { code := 1, output := Checks.sampleText } := by
  have hunordered := @runCheck_unordered Checks.sampleFiles Checks.sampleRequest
    (defaultConfigs none) [] (Convention.all.filter (!·.needsSettings)) rfl
    (Walker.setupAll_plain {} Checks.sampleFiles (by decide))
  refine ⟨hunordered.1, ?_⟩
  rw [hunordered.2 _ (by decide)]
  exact runCheck_sampleFiles

end Command

end Cli

end GrammarLint
