import Mathlib
import ProcessCompiler.Command.Run
import ProcessCompiler.Proofs.Program.UncheckedEmission
/-!
# Checking and compiling accord

Both commands read the settings and the diagram first, in that order, and leave
the files as they are while they do (`FileSystem.run_perform`). From there on one
prints a verdict and the other a program. The verdict decides between them: a
program is given out exactly if the diagram is accepted, and it is then never
empty (`programOf_accepted`, `programOf_rejected`), so that compilation fails for
one reason only, which it prints as the check would (`check_accords_compile`).

The stream of errors holds what is shown of a run's reports as well. On a
rejection the warnings among them are the faults that a lenient resolution passed
over (`warns_programReports_rejected`); where there is one, the verdict is not all
that is seen (`stderr_loose`).
-/

namespace ProcessCompiler

/-! ## What is warned of -/

namespace Notice

/-- Whether a notice is a warning. -/
def warns (n : Notice) : Bool := n.level = .warn

/-- Notices of faults that were passed over all warn. -/
theorem filter_warns_dropped (faults : List Fault) :
    (faults.map dropped).filter warns = faults.map dropped :=
  List.filter_eq_self.2 fun n hn => by
    obtain ⟨f, -, rfl⟩ := List.mem_map.1 hn
    rfl

end Notice

namespace Diagram

open Resolution

/-- The faults that a resolution passes over: none, if it is strict. -/
def passedOver (d : Diagram) : Strictness → List Fault
  | .lenient => d.faults
  | .strict => []

variable {s : Strictness} {d : Diagram}

/-- **A resolution warns of the faults it passes over**, and of nothing else. -/
theorem filter_warns_resolveNotices (s : Strictness) (d : Diagram) :
    (d.resolveNotices s).filter Notice.warns = (d.passedOver s).map .dropped := by
  cases s with
  | lenient =>
    have hresolve := (graph_of_meets d.meets_records).1
    rw [resolveNotices, hresolve, List.filter_append, Notice.filter_warns_dropped]
    exact List.append_nil _
  | strict =>
    have hresolve := d.meets_records.strict []
    rw [resolveNotices, resolve, hresolve]
    cases d.faults <;> rfl

/-- A validation warns of what its resolution warns of. -/
theorem filter_warns_validateNotices (s : Strictness) (d : Diagram) :
    (d.validateNotices s).filter Notice.warns = (d.passedOver s).map .dropped := by
  rw [validateNotices, List.filter_append, filter_warns_resolveNotices]
  cases d.validate s <;> exact List.append_nil _

/-- **With and without validation** an accepted diagram is warned of alike. -/
theorem filter_warns_emitUncheckedNotices {v : Validated} (h : d.validate s = .ok v)
    (config : EmitConfig) :
    (d.emitUncheckedNotices s config).filter Notice.warns =
      (d.validateNotices s ++ v.emitNotices config).filter Notice.warns := by
  have haccepts := validate_eq_ok_iff.1 h
  have hstarts := (filed_of_graph haccepts.resolved).startEvents_eq_singleton_iff.2 haccepts.only
  rw [emitUncheckedNotices, Validated.emitNotices, List.filter_append, List.filter_append,
    List.filter_append, filter_warns_validateNotices, filter_warns_resolveNotices]
  simp only [haccepts.resolved, hstarts]
  exact congrArg _ (List.append_nil _).symm

end Diagram

namespace Command

/-- Once a diagram is loaded, the warnings are those of the notices. -/
theorem Report.filter_warns_loaded (nodes : Nat) (notices : List Notice) :
    (loaded nodes :: notices.map notice).filter warns =
      (notices.filter Notice.warns).map notice :=
  List.filter_map

/-- Lines that are never empty show nothing only if there are none. -/
theorem Channel.text_eq_empty_iff {c : Channel} (h : ∀ n r, c.line n r ≠ "")
    (reports : List Report) : c.text reports = "" ↔ reports.filter c.shows = [] := by
  rw [text]
  cases reports.filter c.shows with
  | nil => exact ⟨fun _ => rfl, fun _ => rfl⟩
  | cons r rest =>
    refine ⟨fun hempty => ?_, fun hnil => by cases hnil⟩
    rw [List.mapIdx_cons, String.join_cons] at hempty
    exact absurd (String.append_eq_empty_iff.1 hempty).1 (h 0 r)

/-! ## What a run reads -/

/-- The settings of a run that may be asked to be strict. -/
def strengthened (strict : Bool) (settings : Settings) : Settings :=
  if strict then { settings with resolve := ⟨.strict⟩ } else settings

/-- The file of the diagram that a run is about. -/
def Task.file : Task → String
  | check file | compile file _ _ => file

/-- What a run does with a diagram. -/
def Task.carryOut {m : Type → Type} [Monad m] (files : FileAccess m) (settings : Settings)
    (d : Diagram) : Task → m Outcome
  | check _ => return Command.check settings d
  | compile _ output unchecked => Command.compile files settings output unchecked d

namespace FileSystem

variable {σ : Type} (sys : FileSystem σ)

/-- What a run is about, read from the files: its settings and its diagram, or
the outcome of a run that stops for want of one of them. -/
def load (s : σ) (config : Option String) (strict : Bool) (path : String) :
    Except Outcome (Settings × Diagram) := do
  let settings ← ((loadSettings sys.access config).run s).1
  let d ← ((loadDiagram sys.access path).run s).1
  return (strengthened strict settings, d)

/-- A run that checks a diagram. -/
def check (s : σ) (config : Option String) (strict : Bool) (path : String) : Outcome × σ :=
  (perform sys.access ⟨config, strict, some (.check path)⟩).run s

/-- A run that compiles a diagram. -/
def compile (s : σ) (config : Option String) (strict : Bool) (path : String)
    (output : Option String) (unchecked : Bool) : Outcome × σ :=
  (perform sys.access ⟨config, strict, some (.compile path output unchecked)⟩).run s

/-- A part of a run that only reads: it changes no file, and if it fails the
outcome is a failure with its causes. -/
def OnlyReads {α : Type} (part : StateM σ (Except Outcome α)) : Prop :=
  ∀ s, (part.run s).2 = s ∧
    ∀ o, (part.run s).1 = .error o → ∃ context causes, o = .failure context causes

/-- To read a file and to go on is to go on with its content. -/
theorem run_read_bind {α : Type} (path : String) (next : Except FileFault String → StateM σ α)
    (s : σ) : (sys.access.read path >>= next).run s = (next (sys.read s path)).run s := rfl

/-- To write a file and to go on is to go on with what came of it. -/
theorem run_write_bind {α : Type} (path content : String)
    (next : Except FileFault Unit → StateM σ α) (s : σ) :
    (sys.access.write path content >>= next).run s =
      (next (sys.write s path content).1).run (sys.write s path content).2 := rfl

namespace OnlyReads

variable {α : Type}

theorem done (a : α) : OnlyReads (pure (.ok a) : StateM σ _) :=
  fun _ => ⟨rfl, fun _ h => by cases h⟩

theorem failed (context : String) (causes : List String) :
    OnlyReads (pure (.error (.failure context causes)) : StateM σ (Except Outcome α)) :=
  fun _ => ⟨rfl, fun _ h => ⟨context, causes, (Except.error.inj h).symm⟩⟩

theorem read {path : String} {next : Except FileFault String → StateM σ (Except Outcome α)}
    (h : ∀ content, OnlyReads (next content)) : OnlyReads (sys.access.read path >>= next) :=
  fun s => h (sys.read s path) s

end OnlyReads

/-- Reading the settings is only reading. -/
theorem onlyReads_loadSettings (config : Option String) :
    OnlyReads (loadSettings sys.access config) := by
  cases config with
  | none => exact .done _
  | some file =>
    refine .read sys fun content => ?_
    cases content with
    | error f => exact .failed _ _
    | ok content =>
      dsimp only
      cases Settings.ofJson content with
      | error e => exact .failed _ _
      | ok settings => exact .done settings

/-- Reading the diagram is only reading. -/
theorem onlyReads_loadDiagram (path : String) : OnlyReads (loadDiagram sys.access path) := by
  refine .read sys fun content => ?_
  cases content with
  | error f => exact .failed _ _
  | ok content =>
    dsimp only
    cases Diagram.ofMarkup content with
    | error e => exact .failed _ _
    | ok d => exact .done d

/-- After a part that only reads, a run goes on with the files it began with. -/
theorem OnlyReads.run_bind {α β : Type} {part : StateM σ (Except Outcome α)}
    (h : OnlyReads part) (next : Except Outcome α → StateM σ β) (s : σ) :
    (part >>= next).run s = (next (part.run s).1).run s := by
  show (next (part.run s).1).run (part.run s).2 = _
  rw [(h s).1]

variable {sys} {s : σ} {config : Option String} {strict : Bool} {path : String}

/-- A run that cannot load what it is about fails, and says why. -/
theorem failure_of_load_error {o : Outcome} (h : sys.load s config strict path = .error o) :
    ∃ context causes, o = .failure context causes := by
  cases hsettings : ((loadSettings sys.access config).run s).1 with
  | error o' =>
    have heq : o' = o := by
      rw [load, hsettings] at h
      exact Except.error.inj h
    exact heq ▸ (onlyReads_loadSettings sys config s).2 o' hsettings
  | ok settings =>
    cases hdiagram : ((loadDiagram sys.access path).run s).1 with
    | error o' =>
      have heq : o' = o := by
        rw [load, hsettings, hdiagram] at h
        exact Except.error.inj h
      exact heq ▸ (onlyReads_loadDiagram sys path s).2 o' hdiagram
    | ok d =>
      rw [load, hsettings, hdiagram] at h
      cases h

/-- **A run is what it loads and what it does with that.** -/
theorem run_perform (task : Task) :
    (perform sys.access ⟨config, strict, some task⟩).run s =
      match sys.load s config strict task.file with
      | .error o => (o, s)
      | .ok (settings, d) => (task.carryOut sys.access settings d).run s := by
  rw [perform, (onlyReads_loadSettings sys config).run_bind]
  cases hsettings : ((loadSettings sys.access config).run s).1 with
  | error o =>
    rw [load, hsettings]
    rfl
  | ok settings =>
    rw [load, hsettings]
    cases task with
    | check path =>
      show (loadDiagram sys.access path >>= _).run s = _
      rw [(onlyReads_loadDiagram sys path).run_bind]
      cases hdiagram : ((loadDiagram sys.access path).run s).1 <;>
        simp only [Task.file, hdiagram] <;> rfl
    | compile path output unchecked =>
      show (loadDiagram sys.access path >>= _).run s = _
      rw [(onlyReads_loadDiagram sys path).run_bind]
      cases hdiagram : ((loadDiagram sys.access path).run s).1 <;>
        simp only [Task.file, hdiagram] <;> rfl

end FileSystem

/-! ## What becomes of a diagram -/

section Verdicts

variable {settings : Settings} {d : Diagram}

/-- The program of an accepted diagram is the same with and without validation. -/
theorem programOf_accepted {v : Validated} (h : d.validate settings.resolve.strictness = .ok v)
    (unchecked : Bool) : programOf settings unchecked d = .ok (v.emit settings.emit) ∧
      v.emit settings.emit ≠ "" := by
  have haccepts := Diagram.validate_eq_ok_iff.1 h
  have hunchecked : d.emitUnchecked settings.resolve.strictness settings.emit =
      v.emit settings.emit :=
    Diagram.emitUnchecked_of_onlyStart haccepts.resolved haccepts.only settings.emit
  have hne : v.emit settings.emit ≠ "" := Program.render_ne_empty _ settings.emit
  have hnonempty : (v.emit settings.emit).isEmpty = false := by
    rwa [← Bool.not_eq_true, String.isEmpty_iff]
  refine ⟨?_, hne⟩
  cases unchecked with
  | true => simp [programOf, hunchecked, hnonempty, pure, Except.pure, bind, Except.bind]
  | false => simp [programOf, h, hnonempty, pure, Except.pure, bind, Except.bind]

/-- A rejected diagram has no program, and the verdict says why. -/
theorem programOf_rejected {r : Rejection} (h : d.validate settings.resolve.strictness = .error r) :
    programOf settings false d = .error ⟨1, "", verdictText ⟨false, some r.message⟩, []⟩ := by
  simp [programOf, h, bind, Except.bind]

/-- **A rejection is warned of** by the faults that were passed over. -/
theorem warns_programReports_rejected {r : Rejection}
    (h : d.validate settings.resolve.strictness = .error r) :
    (programReports settings false d).filter Report.warns =
      (d.passedOver settings.resolve.strictness).map (.notice <| .dropped ·) := by
  have hnotices : programReports settings false d =
      .loaded d.nodeCount :: (d.validateNotices settings.resolve.strictness).map .notice := by
    simp [programReports, h]
  rw [hnotices, Report.filter_warns_loaded, Diagram.filter_warns_validateNotices, List.map_map]
  rfl

/-- An acceptance is warned of alike with and without validation. -/
theorem warns_programReports_accepted {v : Validated}
    (h : d.validate settings.resolve.strictness = .ok v) (unchecked : Bool) :
    (programReports settings unchecked d).filter Report.warns =
      (programReports settings false d).filter Report.warns := by
  cases unchecked with
  | false => rfl
  | true =>
    have hnotices : programReports settings false d = .loaded d.nodeCount ::
        (d.validateNotices settings.resolve.strictness ++ v.emitNotices settings.emit).map
          .notice := by
      simp [programReports, h]
    have hunchecked : programReports settings true d = .loaded d.nodeCount ::
        (d.emitUncheckedNotices settings.resolve.strictness settings.emit).map .notice := rfl
    rw [hnotices, hunchecked, Report.filter_warns_loaded, Report.filter_warns_loaded,
      Diagram.filter_warns_emitUncheckedNotices h]

end Verdicts

namespace FileSystem

variable {σ : Type} {sys : FileSystem σ} {s : σ}
variable {config : Option String} {strict : Bool} {path : String}
variable {settings : Settings} {d : Diagram}

/-- A program that is written to a file. -/
theorem run_deliver_file (program file : String) (s : σ) :
    (deliver sys.access program (some file)).run s =
      match sys.write s file program with
      | (.ok _, s') => (⟨0, "", "", [.written file program.utf8ByteSize]⟩, s')
      | (.error f, s') => (.failure ("failed to write program: " ++ file) [f.message], s') := by
  rw [deliver, run_write_bind]
  rcases sys.write s file program with ⟨_ | _, s'⟩ <;> rfl

/-- A check of what was loaded leaves the files as they are. -/
theorem check_of_load (hload : sys.load s config strict path = .ok (settings, d)) :
    sys.check s config strict path = (Command.check settings d, s) := by
  rw [check, run_perform, Task.file, hload]
  rfl

/-- A rejection fails both runs: the check prints the verdict, and compilation
prints it as its error and writes no file. -/
theorem runs_of_rejected {r : Rejection} (hload : sys.load s config strict path = .ok (settings, d))
    (h : d.validate settings.resolve.strictness = .error r) :
    (∃ reports, sys.check s config strict path =
        (⟨1, verdictText ⟨false, some r.message⟩, "", reports⟩, s)) ∧
      ∀ output, sys.compile s config strict path output false =
        (⟨1, "", verdictText ⟨false, some r.message⟩, programReports settings false d⟩, s) := by
  constructor
  · rw [check_of_load hload]
    simp [Command.check, Diagram.verdict, h, Verdict.of]
  · intro output
    rw [compile, run_perform, Task.file, hload]
    simp only [Task.carryOut, Command.compile, programOf_rejected h]
    show (Outcome.behind _ _, s) = _
    rw [Outcome.behind, List.append_nil]

/-- An accepted diagram passes the check, and is compiled to the program that it
has without validation. -/
theorem runs_of_accepted {v : Validated} (hload : sys.load s config strict path = .ok (settings, d))
    (h : d.validate settings.resolve.strictness = .ok v) :
    (∃ reports, sys.check s config strict path =
        (⟨0, verdictText ⟨true, none⟩, "", reports⟩, s)) ∧
      ∀ unchecked,
        sys.compile s config strict path none unchecked =
          (⟨0, v.emit settings.emit, "", programReports settings unchecked d⟩, s) ∧
        ∀ file, sys.compile s config strict path (some file) unchecked =
          let (o, s') := (deliver sys.access (v.emit settings.emit) (some file)).run s
          (o.behind (programReports settings unchecked d), s') := by
  constructor
  · rw [check_of_load hload]
    simp [Command.check, Diagram.verdict, h, Verdict.of]
  · intro unchecked
    have hcompile : ∀ output, sys.compile s config strict path output unchecked =
        ((·.behind (programReports settings unchecked d)) <$>
          deliver sys.access (v.emit settings.emit) output).run s := by
      intro output
      rw [compile, run_perform, Task.file, hload]
      simp only [Task.carryOut, Command.compile, (programOf_accepted h unchecked).1]
      rfl
    refine ⟨?_, fun file => hcompile (some file)⟩
    rw [hcompile]
    show ((Outcome.success (v.emit settings.emit)).behind _, s) = _
    rw [Outcome.behind, Outcome.success, List.append_nil]

/-- What compilation says of an unchecked diagram without a program. -/
def nothingEmitted : String := "Nothing emitted: the diagram needs exactly one start event\n"

/-- A failure with its causes says something else. -/
theorem err_failure_ne (context : String) (causes : List String) :
    (Outcome.failure context causes).err ≠ nothingEmitted := by
  intro h
  have hhead := congrArg (·.toList.head?) h
  simp [Outcome.failure, nothingEmitted, String.toList_append] at hhead

/-- So does a verdict. -/
theorem verdictText_ne (v : Verdict) : verdictText v ≠ nothingEmitted := by
  intro h
  have hhead := congrArg (·.toList.head?) h
  simp [verdictText, Verdict.toJson, Json.pretty, Json.prettyAt, Json.prettyFields, Json.block,
    nothingEmitted] at hhead

/-- Nor does a success, which says nothing. -/
theorem empty_ne_nothingEmitted : "" ≠ nothingEmitted := by decide

/-- **The commands accord** on a file and the settings it is read with. -/
structure Accord (sys : FileSystem σ) (s : σ) (config : Option String) (strict : Bool)
    (path : String) : Prop where
  /-- One succeeds exactly if the other does. -/
  code_iff : (sys.check s config strict path).1.code = 0 ↔
    (sys.compile s config strict path none false).1.code = 0
  /-- What cannot be loaded fails all runs alike, and nothing is reported. -/
  unloaded : ∀ o, sys.load s config strict path = .error o →
    o.code = 1 ∧ o.out = "" ∧ o.reports = [] ∧ sys.check s config strict path = (o, s) ∧
      ∀ output unchecked, sys.compile s config strict path output unchecked = (o, s)
  /-- On a rejection compilation says as its error what the check prints, the
  verdict. It prints nothing and no file is written. The warnings among its
  reports are the faults that were passed over. -/
  rejected : ∀ settings d, sys.load s config strict path = .ok (settings, d) →
    (sys.check s config strict path).1.code ≠ 0 → ∃ reason reports,
      (sys.check s config strict path).1.code = 1 ∧
      (sys.check s config strict path).1.out = verdictText ⟨false, some reason⟩ ∧
      (sys.check s config strict path).2 = s ∧
      (∀ output, sys.compile s config strict path output false =
        (⟨1, "", verdictText ⟨false, some reason⟩, reports⟩, s)) ∧
      reports.filter Report.warns =
        (d.passedOver settings.resolve.strictness).map (.notice <| .dropped ·)
  /-- The stream of errors then holds what is shown of the reports, and behind
  that exactly what the check prints. Where the warnings are shown, and no line
  is empty, there is nothing in front exactly if no fault was passed over. -/
  rejected_stderr : ∀ settings d, sys.load s config strict path = .ok (settings, d) →
    (sys.check s config strict path).1.code ≠ 0 → ∀ output,
      (∀ c, (sys.compile s config strict path output false).1.stderr c =
        c.text (sys.compile s config strict path output false).1.reports ++
          (sys.check s config strict path).1.out) ∧
      ∀ line, (∀ n r, line n r ≠ "") →
        ((sys.compile s config strict path output false).1.stderr (.warnings line) =
          (sys.check s config strict path).1.out ↔
            d.passedOver settings.resolve.strictness = [])
  /-- On acceptance there is a program, with and without validation the same.
  It is printed, or it is what is written to the file; and the warnings on the
  way to it are the same as well. -/
  accepted : (sys.check s config strict path).1.code = 0 →
    (sys.check s config strict path).1.out = verdictText ⟨true, none⟩ ∧
    (sys.check s config strict path).2 = s ∧
    ∃ program, program ≠ "" ∧ ∃ reports : Bool → List Report,
      (reports true).filter Report.warns = (reports false).filter Report.warns ∧
      ∀ unchecked,
        sys.compile s config strict path none unchecked =
          (⟨0, program, "", reports unchecked⟩, s) ∧
        ∀ file, sys.compile s config strict path (some file) unchecked =
          match sys.write s file program with
          | (.ok _, s') =>
            (⟨0, "", "", reports unchecked ++ [.written file program.utf8ByteSize]⟩, s')
          | (.error f, s') =>
            ((Outcome.failure ("failed to write program: " ++ file) [f.message]).behind
              (reports unchecked), s')
  /-- A checked diagram is never without a program for want of a start event. -/
  emitted : ∀ output, (sys.compile s config strict path output false).1.err ≠ nothingEmitted

/-- Where nothing can be loaded the runs are the same. -/
theorem accord_of_unloaded {o : Outcome} (hload : sys.load s config strict path = .error o) :
    sys.Accord s config strict path := by
  obtain ⟨context, causes, rfl⟩ := failure_of_load_error hload
  have hcheck : sys.check s config strict path = (.failure context causes, s) := by
    rw [check, run_perform, Task.file, hload]
  have hcompile : ∀ output unchecked,
      sys.compile s config strict path output unchecked = (.failure context causes, s) := by
    intro output unchecked
    rw [compile, run_perform, Task.file, hload]
  refine ⟨?_, ?_, ?_, ?_, ?_, ?_⟩
  · rw [hcheck, hcompile]
  · intro o heq
    cases heq.symm.trans hload
    exact ⟨rfl, rfl, rfl, hcheck, hcompile⟩
  · intro settings d heq
    cases heq.symm.trans hload
  · intro settings d heq
    cases heq.symm.trans hload
  · intro hzero
    rw [hcheck] at hzero
    cases hzero
  · intro output
    rw [hcompile]
    exact err_failure_ne context causes

/-- Where the diagram is rejected both fail, and compilation says why. -/
theorem accord_of_rejected {r : Rejection}
    (hload : sys.load s config strict path = .ok (settings, d))
    (h : d.validate settings.resolve.strictness = .error r) :
    sys.Accord s config strict path := by
  obtain ⟨⟨reports, hcheck⟩, hcompile⟩ := runs_of_rejected hload h
  have hwarns := warns_programReports_rejected h
  refine ⟨?_, ?_, ?_, ?_, ?_, ?_⟩
  · rw [hcheck, hcompile]
  · intro o heq
    cases heq.symm.trans hload
  · intro settings d heq _
    cases heq.symm.trans hload
    refine ⟨r.message, programReports settings false d, ?_, ?_, ?_, hcompile, hwarns⟩ <;>
      rw [hcheck]
  · intro settings d heq _ output
    cases heq.symm.trans hload
    rw [hcheck, hcompile]
    refine ⟨fun c => rfl, fun line hline => ?_⟩
    rw [← List.map_eq_nil_iff, ← hwarns]
    rw [Outcome.stderr, String.append_eq_right_iff]
    exact Channel.text_eq_empty_iff hline (programReports settings false d)
  · intro hzero
    rw [hcheck] at hzero
    cases hzero
  · intro output
    rw [hcompile]
    exact verdictText_ne _

/-- Where it is accepted both succeed, and the program is given out. -/
theorem accord_of_accepted {v : Validated}
    (hload : sys.load s config strict path = .ok (settings, d))
    (h : d.validate settings.resolve.strictness = .ok v) :
    sys.Accord s config strict path := by
  obtain ⟨⟨reports, hcheck⟩, hcompile⟩ := runs_of_accepted hload h
  refine ⟨?_, ?_, ?_, ?_, ?_, ?_⟩
  · rw [hcheck, (hcompile false).1]
  · intro o heq
    cases heq.symm.trans hload
  · intro _ _ _ hcode
    rw [hcheck] at hcode
    exact absurd rfl hcode
  · intro _ _ _ hcode
    rw [hcheck] at hcode
    exact absurd rfl hcode
  · intro _
    rw [hcheck]
    refine ⟨rfl, rfl, v.emit settings.emit, (programOf_accepted h false).2,
      (programReports settings · d), warns_programReports_accepted h true, ?_⟩
    intro unchecked
    refine ⟨(hcompile unchecked).1, fun file => ?_⟩
    rw [(hcompile unchecked).2, run_deliver_file]
    rcases sys.write s file (v.emit settings.emit) with ⟨_ | _, s'⟩ <;> rfl
  · intro output
    cases output with
    | none =>
      rw [(hcompile false).1]
      exact empty_ne_nothingEmitted
    | some file =>
      rw [(hcompile false).2, run_deliver_file]
      rcases sys.write s file (v.emit settings.emit) with ⟨f | _, s'⟩
      · exact err_failure_ne _ _
      · exact empty_ne_nothingEmitted

/-- **Checking and compiling accord**, whatever the files hold and whatever is
asked for. -/
theorem check_accords_compile (sys : FileSystem σ) (s : σ) (config : Option String)
    (strict : Bool) (path : String) : sys.Accord s config strict path := by
  cases hload : sys.load s config strict path with
  | error o => exact accord_of_unloaded hload
  | ok loaded =>
    obtain ⟨settings, d⟩ := loaded
    cases hvalid : d.validate settings.resolve.strictness with
    | error r => exact accord_of_rejected hload hvalid
    | ok v => exact accord_of_accepted hload hvalid

end FileSystem

namespace Directory

/-- A changed file is found as it was changed, and every other one as it was. -/
theorem get?_withFile (dir : Directory) (file content name : String) :
    (dir.withFile file content).get? name = if name = file then some content else dir.get? name := by
  by_cases h : name = file
  · simp [get?, withFile, h]
  · have hlater : ∀ files : List (String × String),
        (files.filter (·.1 != file)).lookup name = files.lookup name := by
      intro files
      induction files with
      | nil => rfl
      | cons entry rest ih => grind
    simp [get?, withFile, List.lookup_cons, h, hlater, beq_false_of_ne h]

/-- **What was written is read back**, and every other file is as it was. -/
theorem read_of_write {dir dir' : Directory} {path content : String}
    (h : dir.write path content = .ok dir') :
    dir'.read path = .ok content ∧
      ∀ name, Path.ofText path ≠ .file name false → dir'.get? name = dir.get? name := by
  unfold write at h
  split at h
  · cases h
  · cases h
  · cases h
  · rename_i file asDirectory hpath
    cases asDirectory with
    | true => cases h
    | false =>
      obtain rfl := Except.ok.inj h
      refine ⟨by simp [read, hpath, get?_withFile], fun name hname => ?_⟩
      have hne : name ≠ file := fun heq => hname (heq ▸ hpath)
      rw [get?_withFile, if_neg hne]

/-- A task without a text, whose flow leads nowhere. -/
def looseDiagram : Diagram :=
  { Diagram.empty with tasks := [⟨"T", none, none, none, ["g"]⟩] }

/-- The same, as a text. -/
def looseText : String := "<d><process><task id='T'><outgoing>g</outgoing></task></process></d>"

/-- A directory that holds it. -/
def loose : Directory := ⟨[("a", looseText)]⟩

theorem load_loose : system.load loose none false "a" = .ok (.default, looseDiagram) := by
  have hpath : Path.ofText "a" = .file "a" false := by cbv
  have hread : system.read loose "a" = .ok looseText := by
    show loose.read "a" = _
    rw [read, hpath]
    rfl
  have hmarkup : (Diagram.ofMarkup looseText).toOption = some looseDiagram := by decide +kernel
  have hdiagram : ((loadDiagram system.access "a").run loose).1 = .ok looseDiagram := by
    rw [loadDiagram, FileSystem.run_read_bind, hread]
    cases hof : Diagram.ofMarkup looseText with
    | error e =>
      rw [hof] at hmarkup
      cases hmarkup
    | ok d =>
      rw [hof] at hmarkup
      simp only [hof, Option.some.inj hmarkup]
      rfl
  rw [FileSystem.load, hdiagram]
  rfl

/-- **The verdict is not all that is seen.** The diagram is rejected, and where
the warnings are shown the stream of errors begins with one. -/
theorem stderr_loose :
    (system.check loose none false "a").1.code = 1 ∧
    (∀ line, (system.compile loose none false "a" none false).1.stderr (.warnings line) =
      line 0 (.notice (.dropped (.danglingFlow "T" "g"))) ++
        (system.check loose none false "a").1.out) ∧
    (system.compile loose none false "a" none false).1.stderr .plain ≠
      (system.check loose none false "a").1.out := by
  have hfails : (looseDiagram.validate .lenient).isOk = false := by decide +kernel
  have hreports : programReports .default false looseDiagram =
      [.loaded 1, .notice (.dropped (.danglingFlow "T" "g")), .notice (.resolved "" 1)] := by
    decide +kernel
  cases hvalid : looseDiagram.validate .lenient with
  | ok v =>
    rw [hvalid] at hfails
    cases hfails
  | error r =>
    obtain ⟨⟨reports, hcheck⟩, hcompile⟩ := FileSystem.runs_of_rejected load_loose hvalid
    rw [hcheck, hcompile, hreports]
    refine ⟨rfl, fun line => rfl, fun hsame => ?_⟩
    have hempty : Channel.plain.text
        [.loaded 1, .notice (.dropped (.danglingFlow "T" "g")), .notice (.resolved "" 1)] = "" :=
      String.append_eq_right_iff.1 hsame
    exact absurd hempty (by decide +kernel)

end Directory

end Command

end ProcessCompiler
