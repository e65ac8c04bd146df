import TypeIgnore.Proofs.Run.Stages

/-!
# Runs account for every diagnostic

* `RunOutput.AccountsFor` — what the receipt of a run says of the diagnostics of its report: those that the run is to
  act on are silenced or rejected, each once, all others are counted, and a file that failed is left alone;
* `RunPlan.output_perm`, `RunPlan.output_of_failed` — where the records come from, and what a file that failed lacks;
* `RunPlan.accountsFor_output` — so the receipt accounts for the diagnostics of a plan, however its tasks end;
* `runSilence_accountsFor` — hence no run loses a diagnostic of its report or counts one twice;
* `Selected` — a run that reads its report from a file and has selectors of every kind.
-/

namespace TypeIgnore

theorem Text.saturate_of_lt {n : Nat} (h : n < Text.wordLimit) : Text.saturate n = n := by
  unfold Text.saturate
  omega

/-! ## The receipt -/

/-- The receipt has a record of each diagnostic that is acted on, silenced or rejected, and counts the others. A file
that failed has no silenced record and no change. -/
structure RunOutput.AccountsFor (root : Path) (plan : RunPlan) (out : RunOutput) : Prop where
  records : (out.receipt.silenced ++ out.receipt.rejected.map (·.record)).Perm (plan.actedOn.map Diagnostic.record)
  ignored : plan.leftOut.length < Text.wordLimit → out.receipt.counts.ignored = plan.leftOut.length
  silenced : out.receipt.silenced.length < Text.wordLimit → out.receipt.counts.silenced = out.receipt.silenced.length
  rejected : out.receipt.rejected.length < Text.wordLimit → out.receipt.counts.notSilenced = out.receipt.rejected.length
  failed : ∀ p reason, (p, FileState.failed reason) ∈ out.states →
    (∀ record ∈ out.receipt.silenced, absolutize root record.path ≠ absolutize root p) ∧
      ∀ change ∈ out.receipt.changes, absolutize root ⟨change.path⟩ ≠ absolutize root p

section Output

variable {root : Text} {base : Path} {plan : RunPlan} {dryRun : Bool} {d d' : Disk} {results : List FileResult}

theorem RunPlan.output_perm (startedAt finishedAt : Timestamp)
    (h : PerformsAll root plan.policy dryRun (plan.tasks base) d results d') :
    let receipt := (plan.output startedAt finishedAt dryRun results).receipt
    (receipt.silenced ++ receipt.rejected.map (·.record)).Perm (plan.actedOn.map Diagnostic.record) := by
  intro receipt
  have hrejected : receipt.rejected.map (·.record) =
      ((results.flatMap (·.rejected)).map (·.diagnostic)).map Diagnostic.record := by
    simp only [receipt, output, makeReceipt, List.map_map]
    rfl
  have hsilenced : receipt.silenced = (results.flatMap (·.silenced)).map Diagnostic.record := rfl
  rw [hrejected, hsilenced, ← List.map_append]
  exact (h.perm.trans (plan.grouped_tasks base).perm).map Diagnostic.record

theorem RunPlan.output_of_failed (startedAt finishedAt : Timestamp)
    (h : PerformsAll root plan.policy dryRun (plan.tasks base) d results d') {p : ReportPath} {reason : Reason}
    (hp : (p, FileState.failed reason) ∈ (plan.output startedAt finishedAt dryRun results).states) :
    (∀ record ∈ (plan.output startedAt finishedAt dryRun results).receipt.silenced,
      absolutize base record.path ≠ absolutize base p) ∧
      ∀ change ∈ (plan.output startedAt finishedAt dryRun results).receipt.changes,
        absolutize base ⟨change.path⟩ ≠ absolutize base p := by
  have hgrouped := plan.grouped_tasks base
  obtain ⟨r, hr, heq⟩ := List.mem_map.1 hp
  obtain ⟨rfl, hstate⟩ := Prod.mk.inj heq
  obtain ⟨t, -, d₁, d₂, hperforms⟩ := h.exists_task hr
  obtain ⟨hnone, hkept, -⟩ := hperforms.of_failed hstate
  refine ⟨?_, ?_⟩
  · rintro record hrecord hlocation
    obtain ⟨x, hx, rfl⟩ := List.mem_map.1 hrecord
    obtain ⟨r', hr', hx⟩ := List.mem_flatMap.1 hx
    have hsame : r' = r :=
      h.eq_of_location_eq hgrouped hr' hr ((h.location_of_mem hgrouped hr' hx).symm.trans hlocation)
    rw [hsame, hnone] at hx
    cases hx
  · rintro change hchange hlocation
    obtain ⟨r', hr', hchange⟩ := List.mem_flatMap.1 hchange
    obtain ⟨c, hc, rfl⟩ := List.mem_map.1 hchange
    have hsame : r' = r := h.eq_of_location_eq hgrouped hr' hr hlocation
    rw [hsame, hkept] at hc
    cases hc

theorem RunPlan.accountsFor_output (startedAt finishedAt : Timestamp)
    (h : PerformsAll root plan.policy dryRun (plan.tasks base) d results d') :
    (plan.output startedAt finishedAt dryRun results).AccountsFor base plan where
  records := plan.output_perm startedAt finishedAt h
  ignored := by
    intro hlt
    have hignored : plan.selection.ignored = plan.leftOut := by rw [plan.selection_eq]
    simp only [output, makeReceipt, hignored]
    exact Text.saturate_of_lt hlt
  silenced := by
    intro hlt
    simp only [output, makeReceipt, List.length_map] at hlt ⊢
    exact Text.saturate_of_lt hlt
  rejected := by
    intro hlt
    simp only [output, makeReceipt, List.length_map] at hlt ⊢
    exact Text.saturate_of_lt hlt
  failed _ _ hp := plan.output_of_failed startedAt finishedAt h hp

end Output

/-- **No run loses a diagnostic or counts one twice,** whatever goes wrong with its files: it has a plan that is made
from its settings, from the text of its report and from the scope that its selectors have on the disk, and its receipt
accounts for every diagnostic of that report. -/
theorem runSilence_accountsFor (time : Disk → Timestamp) (input : RunInput) (d d' : Disk) (notices : List Notice)
    (out : RunOutput) (hrun : (runSilence (OnDisk.clock time) input).run d = (⟨notices, .ok out⟩, d')) :
    ∃ plan : RunPlan, plan.MadeFrom input d ∧
      (∀ p, plan.scope.contains p = true ↔ InScope d (.ofText input.root) plan.configuration.searchPaths
        input.selectors plan.configuration.exclude p) ∧
      out.AccountsFor (.ofText input.root) plan := by
  rcases runSilence_cases time input d with ⟨told, e, -, hstop⟩ | ⟨told, plan, results, d₁, hplan, hall, hdone⟩
  · rw [hstop] at hrun
    cases hrun
  · rw [hdone] at hrun
    cases hrun
    have hmade : plan.MadeFrom input d := run_planRun_eq_ok_iff.1 ⟨told, hplan⟩
    obtain ⟨_, hscope⟩ := hmade.scope
    exact ⟨plan, hmade, (Scope.resolves_of_run hscope).contains_iff, plan.accountsFor_output _ _ hall⟩

namespace Selected

/-- Eight errors in seven files. -/
def report : Text :=
  "a.py:1: error: bad  [misc]\na.py:1: error: bad  [name]\nb.py:1: error: bad  [misc]\n" ++
  "lib/g/y.py:1: error: bad  [misc]\nlib/x.py:1: error: bad  [misc]\no.py:1: error: bad  [misc]\n" ++
  "pkg/m.py:1: error: bad  [misc]\nrun.py:1: error: bad  [misc]\n"

/-- One selector of each kind, an exclusion, and a report that stands in a file. -/
def input : RunInput where
  root := "/r"
  settings := "exclude = [\"lib/g*\"]\n"
  overrides := { silenceCodes := some ["misc"] }
  report := .file "report.txt"
  selectors := { paths := ["a.py", "b.py"], modules := ["pkg.m"], packages := ["lib"], globs := ["r*.py"] }

/-- One file is no text, one is no source that can be scanned, and one cannot be replaced. -/
def disk : Disk where
  tree := .directory "r"
    (.file "a.py" (Utf8.encode "x = 1\n") (.file "b.py" [0xff]
      (.directory "lib" (.directory "g" (.file "y.py" [] .empty) (.file "x.py" (Utf8.encode "(\n") .empty))
        (.file "o.py" [] (.directory "pkg" (.file "m.py" (Utf8.encode "y = 2\n") .empty)
          (.file "report.txt" (Utf8.encode report) (.file "run.py" (Utf8.encode "z = 3\n") .empty)))))))
    .empty
  cwd := ["r"]
  faults := [⟨"/r/pkg/m.py", .rename, .busy, 0⟩]

def excluded : Glob := [.literal 'l', .literal 'i', .literal 'b', .literal '/', .literal 'g', .star]

def matched : Glob := [.literal 'r', .star, .literal '.', .literal 'p', .literal 'y']

def plan : RunPlan where
  configuration := { policy := { codes := some ["misc"] }, exclude := ["lib/g*"] }
  report := {
    diagnostics :=
      [firstLineError "a.py" "misc", firstLineError "a.py" "name", firstLineError "b.py" "misc",
        firstLineError "lib/g/y.py" "misc", firstLineError "lib/x.py" "misc", firstLineError "o.py" "misc",
        firstLineError "pkg/m.py" "misc", firstLineError "run.py" "misc"]
    unparsed := 0
    uncoded := 0 }
  scope := {
    root := .ofText "/r"
    selected := some (["/r/a.py", "/r/b.py", "/r/pkg/m.py", "/r/lib/g/y.py", "/r/lib/x.py", "/r/run.py"].map
      fun file => .ofText file.toList)
    exclude := [excluded] }

theorem ofText_report : Report.ofText report = plan.report := by
  have hfirst : firstOfKey (gather none (Report.items report)) = plan.report.diagnostics := by decide +kernel
  rw [Report.ofText_of_sorted hfirst (by decide +kernel)]
  decide +kernel

theorem readGlobs_excluded : readGlobs .exclude plan.configuration.exclude = .ok [excluded] := by
  have hread : plan.configuration.exclude.mapM Glob.ofText = .ok [excluded] := by
    simp [plan, Glob.ofText, Glob.Reader.read, Glob.Reader.push, Glob.Reader.inGroup, excluded]
  rw [readGlobs, hread]
  rfl

theorem readGlobs_matched : readGlobs .selector input.selectors.globs = .ok [matched] := by
  have hread : input.selectors.globs.mapM Glob.ofText = .ok [matched] := by
    simp [input, Glob.ofText, Glob.Reader.read, Glob.Reader.push, Glob.Reader.inGroup, matched]
  rw [readGlobs, hread]
  rfl

theorem run_planRun : ∃ told, (planRun input : OnDisk _).run disk = ((told, .ok plan), disk) := by
  have hconfigure : configure input.settings input.overrides = .ok plan.configuration := by decide +kernel
  have hreport : Report.ofText (Utf8.decodeLossy (Utf8.encode report)) = plan.report := by
    rw [Utf8.decodeLossy_encode, ofText_report]
  have hsome : input.selectors.isEmpty = false := rfl
  obtain ⟨told, hscope⟩ := run_resolveScope_of_selectors disk (.ofText input.root) plan.configuration.searchPaths
    readGlobs_excluded hsome
  have hfiles : some (((input.selectors.named disk (Path.ofText input.root).normalize
      (moduleBases (Path.ofText input.root).normalize plan.configuration.searchPaths)).append
      (input.selectors.matching disk (Path.ofText input.root).normalize [matched])).files.map Path.ofText).eraseDups =
      plan.scope.selected := by
    decide +kernel
  rw [readGlobs_matched] at hscope
  simp only [Except.map, hfiles] at hscope
  have hbytes : input.report.bytes disk = .ok (Utf8.encode report) := rfl
  exact run_planRun_eq_ok_iff.2 ⟨hconfigure, ⟨Utf8.encode report, hbytes, hreport.symm⟩, told, hscope⟩

end Selected

theorem runSilence_accountsFor_selected :
    ∃ notices out d',
      (runSilence (OnDisk.clock (fixedTime 8)) Selected.input).run Selected.disk = (⟨notices, .ok out⟩, d') ∧
      out.states = [(⟨"a.py"⟩, .done), (⟨"b.py"⟩, .failed .encodingError), (⟨"lib/x.py"⟩, .failed .unparseableSource),
        (⟨"pkg/m.py"⟩, .failed .ioError), (⟨"run.py"⟩, .done)] ∧
      out.receipt.silenced.length = 2 ∧ out.receipt.rejected.length = 3 ∧ out.receipt.counts.ignored = 3 ∧
      ∃ plan : RunPlan, plan.MadeFrom Selected.input Selected.disk ∧
        (∀ p, plan.scope.contains p = true ↔ InScope Selected.disk (.ofText "/r") plan.configuration.searchPaths
          Selected.input.selectors plan.configuration.exclude p) ∧
        out.AccountsFor (.ofText "/r") plan := by
  obtain ⟨told, hplan⟩ := Selected.run_planRun
  have hrun := run_runSilence_of_plan (fixedTime 8) hplan (Prod.eta _).symm
  refine ⟨_, _, _, hrun, ?_, ?_, ?_, ?_, runSilence_accountsFor _ _ _ _ _ _ hrun⟩
  · decide +kernel
  · decide +kernel
  · decide +kernel
  · decide +kernel

end TypeIgnore
