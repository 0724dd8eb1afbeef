/-
Programs that are not there. The call ends with status 127, and one line says so. The line comes to the standard
error of the command if that is the one of the process, or leads to the output of the process or to the captured
output. If the errors are discarded or go to a file, it comes to the standard error of the process instead.
-/
import Taskwork.Proofs.Program.Search
import Taskwork.Proofs.Shell.Diagnostics
import Taskwork.Proofs.Shell.Preparation
import Taskwork.Proofs.Shell.Variables

namespace Taskwork.Shell

/-! ## Where the line goes -/

/-- What is said of a program that is not found. -/
def missingLine (name : String) : Bytes := Utf8.encode (name ++ ": command not found\n")

theorem missingLine_ne_nil (name : String) : missingLine name ≠ [] := by
  unfold missingLine Utf8.encode
  rw [String.toList_append, List.flatMap_append]
  exact List.append_ne_nil_of_right_ne_nil _ (by decide)

namespace Sink

/-- Whether errors that are sent there are thrown away or written to a file. -/
def isAway : Sink → Bool
  | .null | .file _ => true
  | .stdout | .stderr | .capture => false

/-- Where it is said that a program is not found whose standard error goes to `sink`. -/
def reporting (sink : Sink) : Sink := if sink.isAway then .stderr else sink

/-- Whoever captures the errors of a program passes them on, and does not if they are sent away. -/
theorem output_eq_capture_iff (sink : Sink) : sink.output .stderr = .capture ↔ sink ≠ .stderr ∧ sink.isAway = false := by
  cases sink <;> simp [Sink.output, isAway]

end Sink

/-- The standard error of the process after something was written elsewhere. -/
theorem stderr_wrote {sink : Sink} (hsink : sink ≠ .stderr) (bytes : Bytes) (w : World) :
    (wrote sink bytes w).host.stderr = w.host.stderr := by
  unfold wrote Act.write
  split
  · rfl
  · cases sink with
    | stderr => exact absurd rfl hsink
    | stdout | null | capture | file => rfl

theorem wrote_stderr {bytes : Bytes} (hbytes : bytes ≠ []) (w : World) :
    wrote .stderr bytes w = { w with host := w.host.printErr bytes } := by
  unfold wrote Act.write
  rw [if_neg (by simpa using hbytes)]
  rfl

/-- The line leaves the standard error of the process alone exactly if it is reported elsewhere. -/
theorem stderr_reported_iff (sink : Sink) (name : String) (w : World) :
    (wrote sink.reporting (missingLine name) w).host.stderr = w.host.stderr ↔ sink.reporting ≠ .stderr := by
  refine ⟨fun hsame hreporting => ?_, fun hreporting => stderr_wrote hreporting _ w⟩
  rw [hreporting, wrote_stderr (missingLine_ne_nil name)] at hsame
  exact missingLine_ne_nil name (List.append_right_eq_self.1 hsame)

/-- The line is where it should be exactly if that is not away. -/
theorem wrote_reporting_iff (sink : Sink) (name : String) (w : World) :
    wrote sink.reporting (missingLine name) w = wrote sink (missingLine name) w ↔ sink.isAway = false := by
  cases hsink : sink.isAway with
  | false =>
    unfold Sink.reporting
    simp [hsink]
  | true =>
    refine iff_of_false (fun hsame => ?_) nofun
    -- the standard error of the process tells the two apart: only the report is written there
    have hreporting : sink.reporting = .stderr := by
      unfold Sink.reporting
      rw [if_pos hsink]
    have hother : sink ≠ .stderr := by
      rintro rfl
      cases hsink
    refine (stderr_reported_iff sink name w).1 ?_ hreporting
    rw [hsame]
    exact stderr_wrote hother _ w

/-! ## The call -/

/-- That a program is not found is told to whoever captures its errors, and else to the process. -/
theorem exec_missing {call : Program.Call} {host : Host} {name : String} {args : List String}
    (hwords : call.words = name :: args) (hmissing : Program.Native.find host.files call name = .error .notFound) :
    Program.Native.exec call host =
      if call.wiring.stderr = .capture then (host, .ok ⟨127, [], missingLine name⟩)
      else (host.printErr (missingLine name), .ok ⟨127, [], []⟩) := by
  unfold Program.Native.exec
  rw [hwords]
  simp only [hmissing]
  rfl

theorem afterProgram_errors (streams : Streams) (status : Int) (errors : Bytes) (w : World) :
    Pairing.afterProgram streams (.ok ⟨status, [], errors⟩) w = (.ok status, wrote streams.stderr errors w) := by
  unfold Pairing.afterProgram
  dsimp only
  have hnothing : Act.write streams.stdout [] w = (.ok (), w) := rfl
  rw [Stateful.bind_ok hnothing, Stateful.bind_ok (write_apply _ _ w)]
  rfl

variable {h : Handlers} (hexec : h.exec = Program.Native.exec)
include hexec

theorem call_missing {name : String} {args : List String} {assigned : List (String × String)} {streams : Streams}
    {w : World} (hmissing : Program.Native.find w.host.files
      ⟨w.state.directory, w.state.environment assigned, name :: args, Pairing.wiring streams⟩ name = .error .notFound) :
    Act.call h (name :: args) assigned streams w =
      (.ok 127, wrote streams.stderr.reporting (missingLine name) w) := by
  have hanswer : h.exec ⟨w.state.directory, w.state.environment assigned, name :: args, Pairing.wiring streams⟩ w.host =
      if streams.stderr.output .stderr = .capture then (w.host, .ok ⟨127, [], missingLine name⟩)
      else (w.host.printErr (missingLine name), .ok ⟨127, [], []⟩) := by
    rw [hexec]
    exact exec_missing rfl hmissing
  by_cases hcapture : streams.stderr.output .stderr = .capture
  -- a captured line comes back with the outcome, and the shell passes it on to the stream
  · have hreporting : streams.stderr.reporting = streams.stderr := by
      unfold Sink.reporting
      rw [((Sink.output_eq_capture_iff _).1 hcapture).2]
      rfl
    rw [if_pos hcapture] at hanswer
    rw [Pairing.InStep.call_apply hanswer, afterProgram_errors, hreporting]
  · have hreporting : streams.stderr.reporting = .stderr := by
      unfold Sink.reporting
      rw [Sink.output_eq_capture_iff] at hcapture
      split
      · rfl
      · rename_i haway
        by_contra hother
        exact hcapture ⟨hother, Bool.eq_false_iff.2 haway⟩
    rw [if_neg hcapture] at hanswer
    rw [Pairing.InStep.call_apply hanswer, afterProgram_errors, hreporting, wrote_stderr (missingLine_ne_nil name)]
    rfl

theorem command_missing {assigns : List Assign} {words : List Word} {redirects : List Redirect}
    {streams streams' : Streams} {name : String} {args : List String} {assigned : List (String × String)} {w w' : World}
    (hprepared : Run.preparation h streams assigns words redirects w = (.ok ⟨name :: args, assigned, .ok streams'⟩, w'))
    (hbuiltin : Builtin.builtin? name = none)
    (hmissing : Program.Native.find w'.host.files ⟨w'.state.directory, w'.state.environment assigned, name :: args,
      Pairing.wiring streams'⟩ name = .error .notFound) :
    Run.command h streams (.simple assigns words redirects) w =
      (.ok 127, wrote streams'.stderr.reporting (missingLine name) w') := by
  rw [Run.command_of_preparation hprepared]
  unfold Act.perform
  simp only [hbuiltin]
  exact call_missing hexec hmissing

/-- A command whose program is not found ends with status 127, and one line says so. The line is written to the
standard error of the command exactly if that is not away; and where that is another one than the standard error
of the process, only then is nothing written to the latter. -/
theorem missing_program_told_iff {assigns : List Assign} {words : List Word} {redirects : List Redirect}
    {streams streams' : Streams} {name : String} {args : List String} {assigned : List (String × String)} {w w' : World}
    (hprepared : Run.preparation h streams assigns words redirects w = (.ok ⟨name :: args, assigned, .ok streams'⟩, w'))
    (hbuiltin : Builtin.builtin? name = none)
    (hmissing : Program.Native.find w'.host.files ⟨w'.state.directory, w'.state.environment assigned, name :: args,
      Pairing.wiring streams'⟩ name = .error .notFound) :
    Run.command h streams (.simple assigns words redirects) w =
        (.ok 127, wrote streams'.stderr.reporting (missingLine name) w') ∧
      ((Run.command h streams (.simple assigns words redirects) w).2 = wrote streams'.stderr (missingLine name) w' ↔
        streams'.stderr.isAway = false) ∧
      ((streams'.stderr ≠ .stderr →
          (Run.command h streams (.simple assigns words redirects) w).2.host.stderr = w'.host.stderr) ↔
        streams'.stderr.isAway = false) := by
  rw [command_missing hexec hprepared hbuiltin hmissing]
  refine ⟨rfl, wrote_reporting_iff _ name w', ?_⟩
  dsimp only
  rw [stderr_reported_iff]
  cases hsink : streams'.stderr.isAway with
  | false => simp [Sink.reporting, hsink]
  | true =>
    have hother : streams'.stderr ≠ .stderr := by
      intro hstderr
      rw [hstderr] at hsink
      cases hsink
    simp [Sink.reporting, hsink, hother]

omit hexec

/-- Programs are looked for on the host, and files are as they are. -/
def nativeHandlers : Handlers := ⟨Program.Native.exec, Handlers.openDirect⟩

/-- `./nosuch` with redirections -/
def nosuch (redirects : List Redirect) : Command := .simple [] [[.literal "./nosuch" false]] redirects

theorem stat_root {files : Files} {clock : Instant} (hroot : files.entry? [] = some (.directory clock)) :
    files.stat "/" = .ok (.directory clock) := by
  have hnames : Files.namesOf "/" = [] := by decide
  have hlocate : files.locate true "/" = .ok (.found [] (.directory clock)) := by
    unfold Files.locate
    rw [hnames, show files.origin "/" = [] from rfl, Files.walk, hroot]
    rfl
  unfold Files.stat
  rw [hlocate]
  rfl

theorem locate_nosuch {files : Files} {clock : Instant} (hroot : files.entry? [] = some (.directory clock))
    (habsent : files.entry? ["nosuch"] = none) : files.locate true "/./nosuch" = .ok (.vacant [] "nosuch") := by
  have hnames : Files.namesOf "/./nosuch" = [".", "nosuch"] := by decide
  unfold Files.locate
  rw [hnames, show files.origin "/./nosuch" = [] from rfl, Files.walk, hroot]
  simp only [if_true]
  rw [Files.walk, hroot]
  simp only [List.nil_append, habsent]
  rfl

theorem find_nosuch {files : Files} {clock : Instant} (hroot : files.entry? [] = some (.directory clock))
    (habsent : files.entry? ["nosuch"] = none) (wiring : Program.Wiring) :
    Program.Native.find files ⟨"/", [], ["./nosuch"], wiring⟩ "./nosuch" = .error .notFound := by
  have hwhole : Program.Native.isCutShort ⟨"/", [], ["./nosuch"], wiring⟩ = false := by
    have hdirectory : Program.Native.hasNul "/" = false := by decide
    have hword : Program.Native.hasNul "./nosuch" = false := by decide
    simp [Program.Native.isCutShort, hdirectory, hword]
  have hstart : Program.Native.startIn files "/" = .ok () := by
    unfold Program.Native.startIn
    rw [if_pos (by decide), stat_root hroot]
  have hvacant : (Program.Native.withPrograms files).locate true "/./nosuch" = .ok (.vacant [] "nosuch") :=
    locate_nosuch ((Program.Native.entry?_withPrograms files (by decide)).trans hroot)
      ((Program.Native.entry?_withPrograms files (by decide)).trans habsent)
  have hseen : Program.Native.seenFrom files "/" "./nosuch" = .error .notFound := by
    unfold Program.Native.seenFrom
    rw [if_pos (by decide), show Path.join "/" "./nosuch" = "/./nosuch" by decide]
    exact Program.Native.atPath_of_vacant hvacant
  have hnowhere : Program.Native.IsNowhere files ⟨"/", [], ["./nosuch"], wiring⟩ "./nosuch" := by
    unfold Program.Native.IsNowhere
    rwa [if_pos (by decide)]
  exact (Program.Native.find_eq_notFound_iff ..).2 ⟨hwhole, .inr ⟨hstart, .inr ⟨by decide, hnowhere⟩⟩⟩

/-- Errors that follow an output that is captured are captured. -/
theorem nosuch_captured :
    Builtin.builtin? "./nosuch" = none ∧
      Program.Native.find rootWorld.host.files ⟨"/", [], ["./nosuch"], ⟨.null, .capture, .capture⟩⟩ "./nosuch" =
        .error .notFound ∧
      Run.command nativeHandlers ⟨.null, .capture, .stderr⟩ (nosuch [⟨2, .duplicate, [.literal "1" false]⟩]) rootWorld =
        (.ok 127, wrote .capture (missingLine "./nosuch") rootWorld) := by
  have hprepared : Run.preparation nativeHandlers ⟨.null, .capture, .stderr⟩ [] [[.literal "./nosuch" false]]
      [⟨2, .duplicate, [.literal "1" false]⟩] rootWorld =
        (.ok ⟨["./nosuch"], [], .ok ⟨.null, .capture, .capture⟩⟩, rootWorld) := by
    with_unfolding_all rfl
  have hmissing : Program.Native.find rootWorld.host.files ⟨"/", [], ["./nosuch"], ⟨.null, .capture, .capture⟩⟩
      "./nosuch" = .error .notFound := find_nosuch rfl rfl _
  exact ⟨rfl, hmissing, (missing_program_told_iff rfl hprepared rfl hmissing).1⟩

/-- Errors that are sent to a file are not written to it: the line comes to the standard error of the process, and
the files stay as they were when the redirection had opened. -/
theorem nosuch_not_in_file :
    Script.ofString "./nosuch 2>f" = .ok
        [⟨⟨false, [nosuch [⟨2, .write, [.literal "f" false]⟩]]⟩, [], "./nosuch 2>f", 1⟩] ∧
      ∃ w', Run.preparation nativeHandlers rootWorld.state.streams [] [[.literal "./nosuch" false]]
          [⟨2, .write, [.literal "f" false]⟩] rootWorld = (.ok ⟨["./nosuch"], [], .ok ⟨.null, .stdout, .file 0⟩⟩, w') ∧
        ∃ w'', Run.command nativeHandlers rootWorld.state.streams (nosuch [⟨2, .write, [.literal "f" false]⟩]) rootWorld =
          (.ok 127, w'') ∧ w''.host.files = w'.host.files ∧ w''.host.stderr = missingLine "./nosuch" := by
  obtain ⟨w', clock, hopened, hstate, hstderr, hroot, habsent⟩ : ∃ w' clock,
      Act.openFile nativeHandlers "f" .write rootWorld = (.ok (.ok 0), w') ∧ w'.state = rootWorld.state ∧
        w'.host.stderr = [] ∧ w'.host.files.entry? [] = some (.directory clock) ∧
        w'.host.files.entry? ["nosuch"] = none :=
    ⟨_, _, Prod.ext (by cbv) rfl, rfl, by cbv, by cbv, by cbv⟩
  have hwords : Run.fields nativeHandlers [[.literal "./nosuch" false]] rootWorld = (.ok ["./nosuch"], rootWorld) := by
    with_unfolding_all rfl
  have hvalues : Run.values nativeHandlers [] rootWorld = (.ok [], rootWorld) := by
    unfold Run.values
    rfl
  have htarget : Run.text nativeHandlers [.literal "f" false] rootWorld = (.ok "f", rootWorld) := by
    with_unfolding_all rfl
  have hredirect : Act.redirect nativeHandlers 2 .write "f" rootWorld.state.streams rootWorld =
      (.ok (.ok ⟨.null, .stdout, .file 0⟩), w') := Stateful.bind_ok hopened
  have hredirections : Run.redirections nativeHandlers rootWorld.state.streams [⟨2, .write, [.literal "f" false]⟩]
      rootWorld = (.ok (.ok ⟨.null, .stdout, .file 0⟩), w') := by
    unfold Run.redirections
    rw [Stateful.bind_ok htarget, Stateful.bind_ok hredirect]
    unfold Run.redirections
    rfl
  have hprepared : Run.preparation nativeHandlers rootWorld.state.streams [] [[.literal "./nosuch" false]]
      [⟨2, .write, [.literal "f" false]⟩] rootWorld = (.ok ⟨["./nosuch"], [], .ok ⟨.null, .stdout, .file 0⟩⟩, w') := by
    unfold Run.preparation
    rw [Stateful.bind_ok hwords, Stateful.bind_ok hvalues, Stateful.bind_ok hredirections]
    rfl
  have hmissing := find_nosuch hroot habsent (Pairing.wiring ⟨.null, .stdout, .file 0⟩)
  have hrun := command_missing rfl hprepared rfl (hstate ▸ hmissing)
  rw [show (Sink.file 0).reporting = .stderr from rfl, wrote_stderr (missingLine_ne_nil _)] at hrun
  refine ⟨by with_unfolding_all rfl, w', hprepared, _, hrun, rfl, ?_⟩
  show w'.host.stderr ++ _ = _
  rw [hstderr, List.nil_append]

end Taskwork.Shell
