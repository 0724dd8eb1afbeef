/-
What a stage of a pipeline writes to its standard error. Watching changes nothing, and the bytes
noted for a buffer are those that are captured in it. A marked stream leads where the standard error
of the pipeline does, if that is not captured; a captured one means whichever buffer is in use, and
in a stage that is never the one that it means outside.
-/
import Taskwork.Proofs.Shell.Commands
import Taskwork.Proofs.Shell.Deliveries
import Taskwork.Proofs.Shell.Pairing
import Taskwork.Program.Sample

namespace Taskwork.Shell

/-! ## Bytes that come to a place -/

theorem bytesTo_append (place : Place) (ds es : List Delivery) :
    bytesTo place (ds ++ es) = bytesTo place ds ++ bytesTo place es := List.flatMap_append

theorem Sink.place_eq_buffer_iff {sink : Sink} {depth n : Nat} :
    sink.place depth = .buffer n ↔ sink = .capture ∧ depth = n := by
  cases sink <;> simp [Sink.place]

/-- Nothing comes to a buffer while deeper ones are in use. -/
theorem bytesTo_buffer_of_deeper {n : Nat} {ds : List Delivery} (h : ∀ d ∈ ds, n < d.depth) :
    bytesTo (.buffer n) ds = [] := by
  rw [bytesTo, List.flatMap_eq_nil_iff]
  intro d hd
  refine if_neg fun hplace => ?_
  have := (Sink.place_eq_buffer_iff.mp hplace).2
  have := h d hd
  omega

/-! ## Writing -/

/-- The world after bytes were written to a stream. -/
def wrote (s : Sink) (bytes : Bytes) (w : World) : World := (Act.write s bytes w).2

theorem write_apply (s : Sink) (bytes : Bytes) (w : World) :
    Act.write s bytes w = (.ok (), wrote s bytes w) := by
  unfold wrote Act.write
  split <;> rfl

theorem wrote_with_state (s : Sink) (bytes : Bytes) (w : World) (state : State) :
    wrote s bytes { w with state } = { wrote s bytes w with state } := by
  unfold wrote Act.write
  split
  · rfl
  · cases s <;> rfl

theorem captured_wrote (s : Sink) (bytes : Bytes) (w : World) :
    (wrote s bytes w).captured = w.captured ++ if s = .capture then bytes else [] := by
  unfold wrote Act.write
  cases hb : bytes.isEmpty with
  | true => simp [List.isEmpty_iff.mp hb]; rfl
  | false => cases s <;> simp <;> rfl

theorem state_wrote (s : Sink) (bytes : Bytes) (w : World) : (wrote s bytes w).state = w.state := by
  unfold wrote Act.write
  split
  · rfl
  · cases s <;> rfl

/-- What is noted when bytes are written to a port. -/
def deliveriesOf (port : Port) (depth : Nat) (bytes : Bytes) : List Delivery :=
  if bytes.isEmpty then [] else [⟨port, depth, some bytes⟩]

theorem noteBytes_eq (watch : Watch) (port : Port) (bytes : Bytes) :
    watch.noteBytes port bytes =
      { watch with deliveries := watch.deliveries ++ deliveriesOf port watch.depth bytes } := by
  unfold Watch.noteBytes deliveriesOf
  split
  · rw [List.append_nil]
  · rfl

theorem bytesTo_deliveriesOf (port : Port) (depth : Nat) (bytes : Bytes) :
    bytesTo (.buffer depth) (deliveriesOf port depth bytes) = if port.sink = .capture then bytes else [] := by
  unfold deliveriesOf
  split <;> rename_i hb
  · simp [bytesTo, List.isEmpty_iff.mp hb]
  · simp [bytesTo, Delivery.place, Sink.place_eq_buffer_iff]

/-! ## Watched acts -/

/-- A marked stream leads to `sink`. -/
def Port.Given (sink : Sink) (port : Port) : Prop := port.own = true → port.sink = sink

structure Ports.Given (sink : Sink) (ports : Ports) : Prop where
  stdout : ports.stdout.Given sink
  stderr : ports.stderr.Given sink

theorem Port.given_unmarked (sink s : Sink) : Port.Given sink ⟨s, false⟩ := fun h => by cases h

/-- What may be delivered while the marked streams lead to `sink` and the buffers in use are the one
at `depth` and later ones. -/
structure Delivery.Fits (sink : Sink) (depth : Nat) (d : Delivery) : Prop where
  port : d.port.Given sink
  depth : depth ≤ d.depth

/-- The watched act ends like the other one and in the same world. What it adds to the buffer in use
is what is noted to be delivered there. -/
def Tracks {α β : Type} (sink : Sink) (P : α → β → Prop) (x : Watched α) (y : Act β) : Prop :=
  ∀ w watch, ∃ more,
    Alike P (x (w, watch)).1 (y w).1 ∧
    (x (w, watch)).2 = ((y w).2, { watch with deliveries := watch.deliveries ++ more }) ∧
    (y w).2.captured = w.captured ++ bytesTo (.buffer watch.depth) more ∧
    ∀ d ∈ more, d.Fits sink watch.depth

/-- Ports and the streams that they are, or the fault for which both could not be had. -/
inductive Connected (sink : Sink) :
    Except (String × FileFault) Ports → Except (String × FileFault) Streams → Prop where
  | ok {ports : Ports} (h : ports.Given sink) : Connected sink (.ok ports) (.ok ports.streams)
  | error (e : String × FileFault) : Connected sink (.error e) (.error e)

namespace Tracks

variable {α α' β β' : Type} {sink : Sink}

/-- Nothing is delivered. -/
theorem silent {P : α → β → Prop} {x : Watched α} {y : Act β}
    (h : ∀ w watch, Alike P (x (w, watch)).1 (y w).1 ∧ (x (w, watch)).2 = ((y w).2, watch) ∧
      (y w).2.captured = w.captured) : Tracks sink P x y := by
  intro w watch
  obtain ⟨halike, hworld, hcaptured⟩ := h w watch
  refine ⟨[], halike, ?_, ?_, nofun⟩
  · rw [hworld, List.append_nil]
  · rw [hcaptured]
    exact (List.append_nil _).symm

theorem pure {P : α → β → Prop} {a : α} {b : β} (h : P a b) :
    Tracks sink P (Pure.pure a) (Pure.pure b) := silent fun _ _ => ⟨.ok h, rfl, rfl⟩

theorem throw {P : α → β → Prop} (e : Stop) :
    Tracks sink P (MonadExcept.throw e) (MonadExcept.throw e) := silent fun _ _ => ⟨.error e, rfl, rfl⟩

theorem bind {P : α → β → Prop} {Q : α' → β' → Prop} {x : Watched α} {y : Act β} {f : α → Watched α'}
    {g : β → Act β'} (hx : Tracks sink P x y) (hf : ∀ a b, P a b → Tracks sink Q (f a) (g b)) :
    Tracks sink Q (x >>= f) (y >>= g) := by
  intro w watch
  obtain ⟨more, halike, hworld, hcaptured, hfits⟩ := hx w watch
  rw [Stateful.bind_apply, Stateful.bind_apply]
  rcases hxw : x (w, watch) with ⟨r, v⟩
  rcases hyw : y w with ⟨r', v'⟩
  rw [hxw, hyw] at halike
  rw [hxw, hyw] at hworld
  rw [hyw] at hcaptured
  obtain rfl : v = _ := hworld
  cases halike with
  | error e => exact ⟨more, .error e, rfl, hcaptured, hfits⟩
  | ok hab =>
    obtain ⟨last, halike', hworld', hcaptured', hfits'⟩ :=
      hf _ _ hab v' { watch with deliveries := watch.deliveries ++ more }
    refine ⟨more ++ last, halike', ?_, ?_, ?_⟩
    · rw [hworld', List.append_assoc]
    · rw [hcaptured', hcaptured, bytesTo_append, List.append_assoc]
    · exact List.forall_mem_append.mpr ⟨hfits, hfits'⟩

/-- Going on from acts that return the same. -/
theorem andThen {Q : α' → β' → Prop} {x : Watched α} {y : Act α} {f : α → Watched α'} {g : α → Act β'}
    (hx : Tracks sink Eq x y) (hf : ∀ a, Tracks sink Q (f a) (g a)) :
    Tracks sink Q (x >>= f) (y >>= g) := bind hx fun a _ h => h ▸ hf a

/-- Something that writes nothing is just done. -/
theorem plainly {act : Act α} (h : ∀ w, (act w).2.captured = w.captured) :
    Tracks sink Eq (Watched.plainly act) act := by
  refine silent fun w watch => ⟨?_, rfl, h w⟩
  show Alike Eq (act w).1 (act w).1
  rcases (act w).1 with e | a
  · exact .error e
  · exact .ok rfl

theorem state : Tracks sink Eq (Watched.plainly Act.state) Act.state := plainly fun _ => rfl

theorem files : Tracks sink Eq (Watched.plainly Act.files) Act.files := plainly fun _ => rfl

theorem setState (f : State → State) :
    Tracks sink Eq (Watched.plainly (Act.setState f)) (Act.setState f) := plainly fun _ => rfl

theorem isolated {x : Watched Int} {y : Act Int} (h : Tracks sink Eq x y) :
    Tracks sink Eq (Watched.isolated x) (Act.isolated y) := by
  intro w watch
  obtain ⟨more, halike, hworld, hcaptured, hfits⟩ := h w watch
  refine ⟨more, ?_⟩
  unfold Watched.isolated Act.isolated
  rcases hxw : x (w, watch) with ⟨r, v⟩
  rcases hyw : y w with ⟨r', v'⟩
  rw [hxw, hyw] at halike hworld
  rw [hyw] at hcaptured
  obtain rfl : v = _ := hworld
  simp only [hxw]
  cases halike with
  | ok h =>
    cases h
    exact ⟨.ok rfl, rfl, hcaptured, hfits⟩
  | error e =>
    cases e with
    | exit status => exact ⟨.ok rfl, rfl, hcaptured, hfits⟩
    | failure f => exact ⟨.error _, rfl, hcaptured, hfits⟩

theorem tested (isTest : Bool) {x : Watched Int} {y : Act Int} (h : Tracks sink Eq x y) :
    Tracks sink Eq (Watched.tested isTest x) (Act.tested isTest y) := by
  intro w watch
  unfold Watched.tested Act.tested
  cases isTest with
  | false => exact h w watch
  | true =>
    obtain ⟨more, halike, hworld, hcaptured, hfits⟩ :=
      h { w with state := { w.state with tests := w.state.tests + 1 } } watch
    let less (v : World × Watch) : World × Watch :=
      ({ v.1 with state := { v.1.state with tests := v.1.state.tests - 1 } }, v.2)
    exact ⟨more, halike, congrArg less hworld, hcaptured, hfits⟩

/-- What is done with a buffer of its own adds nothing to the one outside. -/
theorem buffered {x : Watched Int} {y : Act Int} (h : Tracks sink Eq x y) :
    Tracks sink Eq (Watched.buffered x) (Act.buffered y) := by
  intro w watch
  obtain ⟨more, halike, hworld, -, hfits⟩ :=
    h { w with captured := [] } { watch with depth := watch.depth + 1 }
  have hdeeper : bytesTo (.buffer watch.depth) more = [] :=
    bytesTo_buffer_of_deeper fun d hd => (hfits d hd).depth
  refine ⟨more, ?_⟩
  rw [hdeeper, List.append_nil]
  unfold Watched.buffered Act.buffered
  rcases hxw : x ({ w with captured := [] }, { watch with depth := watch.depth + 1 }) with ⟨r, v⟩
  rcases hyw : y { w with captured := [] } with ⟨r', v'⟩
  rw [hxw, hyw] at halike hworld
  obtain rfl : v = _ := hworld
  simp only [hxw]
  have hfits' : ∀ d ∈ more, d.Fits sink watch.depth := fun d hd =>
    ⟨(hfits d hd).port, Nat.le_of_succ_le (hfits d hd).depth⟩
  cases halike with
  | ok h =>
    cases h
    exact ⟨.ok rfl, rfl, rfl, hfits'⟩
  | error e => exact ⟨.error e, rfl, rfl, hfits'⟩

theorem fits_deliveriesOf {port : Port} (hport : port.Given sink) (depth : Nat) (bytes : Bytes) :
    ∀ d ∈ deliveriesOf port depth bytes, d.Fits sink depth := by
  unfold deliveriesOf
  split
  · exact nofun
  · rintro d hd
    obtain rfl := List.mem_singleton.mp hd
    exact ⟨hport, Nat.le_refl _⟩

theorem write {port : Port} (hport : port.Given sink) (bytes : Bytes) :
    Tracks sink Eq (Watched.write port bytes) (Act.write port.sink bytes) := by
  intro w watch
  have hwatched : Watched.write port bytes (w, watch) =
      (.ok (), (wrote port.sink bytes w, watch.noteBytes port bytes)) := by
    simp only [Watched.write, write_apply]
  rw [hwatched, write_apply, noteBytes_eq]
  refine ⟨_, .ok rfl, rfl, ?_, fits_deliveriesOf hport watch.depth bytes⟩
  rw [captured_wrote, bytesTo_deliveriesOf]

/-- What a program writes to a stream that it is connected to itself is not captured. -/
theorem connect {port : Port} (hport : port.Given sink) (own : Sink) :
    Tracks sink Eq (Watched.connect port (port.sink.output own)) (Pure.pure ()) := by
  intro w watch
  unfold Watched.connect
  by_cases hout : port.sink.output own = .capture
  · refine ⟨[], .ok rfl, ?_, (List.append_nil _).symm, nofun⟩
    simp only [hout, if_true, List.append_nil]
    rfl
  · refine ⟨[⟨port, watch.depth, none⟩], .ok rfl, ?_, ?_, ?_⟩
    · simp only [hout, if_false]
      rfl
    · simp [bytesTo, Stateful.pure_apply]
    · rintro d hd
      obtain rfl := List.mem_singleton.mp hd
      exact ⟨hport, Nat.le_refl _⟩

/-- Something may be noted first. -/
theorem first {P : α → β → Prop} {x : Watched Unit} {f : Watched α} {g : Act β}
    (hx : Tracks sink Eq x (Pure.pure ())) (hf : Tracks sink P f g) :
    Tracks sink P (x >>= fun _ => f) g :=
  bind (y := Pure.pure ()) (g := fun _ => g) hx fun _ _ _ => hf

end Tracks

/-! ## Builtin commands -/

/-- A command that changes the state and writes to its output and to its errors. Where that goes is
all that the streams decide. -/
def Speaks (act : Streams → Act Int) : Prop :=
  ∀ w, ∃ result state out err, ∀ streams,
    act streams w = (result, wrote streams.stderr err (wrote streams.stdout out { w with state }))

namespace Speaks

theorem silent {act : Streams → Act Int}
    (h : ∀ w, ∃ result state, ∀ streams, act streams w = (result, { w with state })) : Speaks act := by
  intro w
  obtain ⟨result, state, hact⟩ := h w
  exact ⟨result, state, [], [], hact⟩

theorem fail_apply (name message : String) (streams : Streams) (status : Int) (w : World) :
    Builtin.fail name message streams status w =
      (.ok status, wrote streams.stderr (Utf8.encode (name ++ ": " ++ message ++ "\n")) w) := by
  unfold Builtin.fail Act.writeText
  rw [Stateful.bind_ok (write_apply _ _ w)]
  rfl

theorem failing {act : Streams → Act Int} {w : World} {name message : String} {status : Int}
    (h : ∀ streams, act streams w = Builtin.fail name message streams status w) :
    ∃ result state out err, ∀ streams,
      act streams w = (result, wrote streams.stderr err (wrote streams.stdout out { w with state })) :=
  ⟨.ok status, w.state, [], _, fun streams => (h streams).trans (fail_apply name message streams status w)⟩

theorem cd (args : List String) : Speaks (Builtin.cd args) := by
  intro w
  unfold Builtin.cd
  simp only [Stateful.bind_ok (show Act.state w = (.ok w.state, w) from rfl)]
  cases args.head?.or (w.state.var? "HOME") with
  | none => exact failing fun _ => rfl
  | some target =>
    simp only [Stateful.bind_ok (show Act.files w = (.ok w.host.files, w) from rfl)]
    cases w.host.files.isDirectory (Builtin.cleanDirectory (Path.join w.state.directory target)) with
    | true => exact ⟨.ok 0, w.state.enter _, [], [], fun _ => rfl⟩
    | false => exact failing fun _ => rfl

theorem pwd : Speaks Builtin.pwd := by
  intro w
  refine ⟨.ok 0, w.state, Utf8.encode (w.state.directory ++ "\n"), [], fun streams => ?_⟩
  unfold Builtin.pwd Act.writeText
  rw [Stateful.bind_ok (show Act.state w = (.ok w.state, w) from rfl),
    Stateful.bind_ok (write_apply _ _ w)]
  rfl

theorem echo (args : List String) : Speaks (Builtin.echo args) := by
  intro w
  unfold Builtin.echo Act.writeText
  simp only [Stateful.bind_ok (write_apply _ _ w)]
  exact ⟨.ok 0, w.state, _, [], fun _ => rfl⟩

theorem exit (args : List String) : Speaks (Builtin.exit args) := by
  intro w
  unfold Builtin.exit
  cases args with
  | nil => exact ⟨_, { w.state with exited := true }, [], [], fun _ => rfl⟩
  | cons arg _ =>
    dsimp only
    cases Builtin.exitStatus? arg with
    | some n => exact ⟨_, { w.state with exited := true }, [], [], fun _ => rfl⟩
    | none =>
      refine ⟨.error (.exit 2), { w.state with exited := true }, [],
        Utf8.encode ("exit" ++ ": " ++ (arg ++ ": numeric argument required") ++ "\n"), fun streams => ?_⟩
      dsimp only
      rw [Stateful.bind_ok (fail_apply _ _ streams 2 w)]
      generalize Utf8.encode _ = message
      show _ = (_, wrote streams.stderr message { w with state := { w.state with exited := true } })
      rw [wrote_with_state streams.stderr message w { w.state with exited := true },
        ← state_wrote streams.stderr message w]
      rfl

theorem test (args : List String) : Speaks (Builtin.test args) := by
  intro w
  unfold Builtin.test
  simp only [Stateful.bind_ok (show Act.files w = (.ok w.host.files, w) from rfl),
    Stateful.bind_ok (show Act.state w = (.ok w.state, w) from rfl)]
  rcases Builtin.evaluate w.host.files w.state.directory args with _ | _ | _
  · exact failing fun _ => rfl
  · exact ⟨.ok 1, w.state, [], [], fun _ => rfl⟩
  · exact ⟨.ok 0, w.state, [], [], fun _ => rfl⟩

theorem bracket (args : List String) : Speaks (Builtin.bracket args) := by
  unfold Builtin.bracket
  split
  · exact test _
  · exact fun w => failing fun _ => rfl

theorem builtin {name : String} {run : List String → Streams → Act Int}
    (hrun : Builtin.builtin? name = some run) (args : List String) : Speaks (run args) := by
  unfold Builtin.builtin? at hrun
  split at hrun <;> cases hrun
  · exact cd args
  · exact pwd
  · exact echo args
  · exact silent fun w => ⟨.ok 0, w.state, fun _ => rfl⟩
  · exact silent fun w => ⟨.ok 0, w.state, fun _ => rfl⟩
  · exact silent fun w => ⟨.ok 1, w.state, fun _ => rfl⟩
  · exact exit args
  · exact silent fun w => ⟨.ok 0, _, fun _ => rfl⟩
  · exact silent fun w => ⟨.ok 0, _, fun _ => rfl⟩
  · exact test args
  · exact bracket args

end Speaks

/-! ## Commands -/

theorem Watched.redirect_other (h : Handlers) (fd : Nat) {target : String} (ports : Ports)
    (hone : target ≠ "1") (htwo : target ≠ "2") :
    Watched.redirect h fd .duplicate target ports = pure (.ok ports) := by
  unfold Watched.redirect
  dsimp only
  split
  · exact absurd rfl hone
  · exact absurd rfl htwo
  · rfl

namespace Tracks

variable {sink : Sink}

theorem builtin {run : List String → Streams → Act Int} (args : List String) (hrun : Speaks (run args))
    {ports : Ports} (hports : ports.Given sink) :
    Tracks sink Eq (Watched.builtin run args ports) (run args ports.streams) := by
  intro w watch
  obtain ⟨result, state, out, err, hact⟩ := hrun w
  -- the streams that captured just the output or just the errors tell what was written
  have hsaid : Watched.said run args w = (out, err) := by
    simp [Watched.said, hact, captured_wrote]
  have hwatched : Watched.builtin run args ports (w, watch) = ((run args ports.streams w).1,
      ((run args ports.streams w).2, (watch.noteBytes ports.stdout out).noteBytes ports.stderr err)) := by
    simp only [Watched.builtin, hsaid]
    rfl
  refine ⟨deliveriesOf ports.stdout watch.depth out ++ deliveriesOf ports.stderr watch.depth err, ?_, ?_, ?_, ?_⟩
  · rw [hwatched]
    rcases (run args ports.streams w).1 with e | a
    · exact .error e
    · exact .ok rfl
  · rw [hwatched, noteBytes_eq, noteBytes_eq]
    simp only [List.append_assoc]
  · rw [hact, captured_wrote, captured_wrote, bytesTo_append, bytesTo_deliveriesOf, bytesTo_deliveriesOf,
      List.append_assoc]
    rfl
  · exact List.forall_mem_append.mpr ⟨fits_deliveriesOf hports.stdout _ _, fits_deliveriesOf hports.stderr _ _⟩

/-- What is left of a watched call once the program has run. -/
def afterProgram (ports : Ports) : Except Program.Failure Program.Outcome → Watched Int
  | .error f => MonadExcept.throw (.failure f)
  | .ok outcome => do
    Watched.write ports.stdout outcome.stdout
    Watched.write ports.stderr outcome.stderr
    return outcome.status

variable (h : Handlers)

theorem call (words : List String) (assigned : List (String × String)) {ports : Ports}
    (hports : ports.Given sink) :
    Tracks sink Eq (Watched.call h words assigned ports) (Act.call h words assigned ports.streams) := by
  intro w watch
  rcases hexec : h.exec ⟨w.state.directory, assigned.foldl (fun env row => env.insert row.1 row.2)
    w.state.exported, words, Pairing.wiring ports.streams⟩ w.host with ⟨host, result⟩
  have hwatched : Watched.call h words assigned ports (w, watch) = (do
      Watched.connect ports.stdout (ports.stdout.sink.output .stdout)
      Watched.connect ports.stderr (ports.stderr.sink.output .stderr)
      afterProgram ports result : Watched Int) ({ w with host }, watch) := by
    have hwiring : h.exec ⟨w.state.directory, assigned.foldl (fun env row => env.insert row.1 row.2)
        w.state.exported, words, ⟨ports.stdin.input, ports.stdout.sink.output .stdout,
          ports.stderr.sink.output .stderr⟩⟩ w.host = (host, result) := hexec
    unfold Watched.call
    rw [Stateful.bind_ok (show Watched.plainly get (w, watch) = (.ok w, (w, watch)) from rfl)]
    simp only [hwiring]
    cases result <;> rfl
  rw [hwatched, Pairing.InStep.call_apply hexec]
  refine (first (connect hports.stdout .stdout) (first (connect hports.stderr .stderr) ?_)) { w with host } watch
  cases result with
  | error f => exact throw _
  | ok outcome =>
    exact andThen (write hports.stdout outcome.stdout) fun _ =>
      andThen (write hports.stderr outcome.stderr) fun _ => pure rfl

theorem perform (words : List String) (assigned : List (String × String)) {ports : Ports}
    (hports : ports.Given sink) :
    Tracks sink Eq (Watched.perform h words assigned ports) (Act.perform h words assigned ports.streams) := by
  unfold Watched.perform Act.perform
  cases words with
  | nil => exact plainly fun _ => rfl
  | cons name args =>
    cases hrun : Builtin.builtin? name with
    | some run =>
      simp only [hrun]
      exact builtin args (Speaks.builtin hrun args) hports
    | none =>
      simp only [hrun]
      exact call h _ assigned hports

/-- Ports and streams with a file that has just been opened, whatever place it takes in them. -/
theorem opened (path : String) (mode : OpenMode) {place : Nat → Ports} {place' : Nat → Streams}
    (hplace : ∀ k, (place k).Given sink ∧ (place k).streams = place' k) :
    Tracks sink (Connected sink) (do return (← Watched.plainly (Act.openFile h path mode)).map place)
      (do return (← Act.openFile h path mode).map place') := by
  refine andThen (plainly fun _ => rfl) fun r => pure ?_
  cases r with
  | ok k =>
    obtain ⟨hgiven, hstreams⟩ := hplace k
    show Connected sink (.ok (place k)) (.ok (place' k))
    rw [← hstreams]
    exact .ok hgiven
  | error e => exact .error e

theorem redirect (fd : Nat) (kind : RedirectKind) (target : String) {ports : Ports}
    (hports : ports.Given sink) :
    Tracks sink (Connected sink) (Watched.redirect h fd kind target ports)
      (Act.redirect h fd kind target ports.streams) := by
  have hplace {port : Port} (hport : port.Given sink) :
      (if fd = 1 then { ports with stdout := port }
        else if fd = 2 then { ports with stderr := port } else ports : Ports).Given sink ∧
      (if fd = 1 then { ports with stdout := port }
        else if fd = 2 then { ports with stderr := port } else ports : Ports).streams =
      if fd = 1 then { ports.streams with stdout := port.sink }
        else if fd = 2 then { ports.streams with stderr := port.sink } else ports.streams := by
    split
    · exact ⟨⟨hport, hports.stderr⟩, rfl⟩
    · split
      · exact ⟨⟨hports.stdout, hport⟩, rfl⟩
      · exact ⟨hports, rfl⟩
  have hfile (k : Nat) : Port.Given sink ⟨.file k, false⟩ := Port.given_unmarked sink _
  unfold Watched.redirect Act.redirect
  cases kind with
  | read =>
    refine opened h target .read fun k => ?_
    split
    · exact ⟨⟨hports.stdout, hports.stderr⟩, rfl⟩
    · exact ⟨hports, rfl⟩
  | write => exact opened h target .write fun k => hplace (hfile k)
  | append => exact opened h target .append fun k => hplace (hfile k)
  | duplicate =>
    have hcopy {port : Port} (hport : port.Given sink) : Connected sink
        (.ok (if fd = 1 then { ports with stdout := port }
          else if fd = 2 then { ports with stderr := port } else ports))
        (.ok (if fd = 1 then { ports.streams with stdout := port.sink }
          else if fd = 2 then { ports.streams with stderr := port.sink } else ports.streams)) :=
      (hplace hport).2 ▸ Connected.ok (hplace hport).1
    by_cases hone : target = "1"
    · subst hone
      exact pure (hcopy hports.stdout)
    by_cases htwo : target = "2"
    · subst htwo
      exact pure (hcopy hports.stderr)
    change Tracks sink (Connected sink) (Watched.redirect h fd .duplicate target ports)
      (Act.redirect h fd .duplicate target ports.streams)
    rw [Watched.redirect_other h fd ports hone htwo, Act.redirect_other h fd ports.streams hone htwo]
    exact pure (Connected.ok hports)
  | writeBoth => exact opened h target .write fun k => ⟨⟨hfile k, hfile k⟩, rfl⟩

theorem withPorts {outer : Ports} (houter : outer.Given sink) {r : Except (String × FileFault) Ports}
    {r' : Except (String × FileFault) Streams} (hr : Connected sink r r') {x : Ports → Watched Int}
    {y : Streams → Act Int} (hact : ∀ {ports : Ports}, ports.Given sink → Tracks sink Eq (x ports) (y ports.streams)) :
    Tracks sink Eq (Watched.withPorts outer r x) (Act.withStreams outer.streams r' y) := by
  cases hr with
  | ok hports => exact hact hports
  | error e => exact andThen (write houter.stderr _) fun _ => pure rfl

theorem substitution {x : Ports → Watched Int} {y : Streams → Act Int}
    (hrun : ∀ {ports : Ports}, ports.Given sink → Tracks sink Eq (x ports) (y ports.streams)) :
    Tracks sink Eq (Watched.substitution x) (Act.substitution y) := by
  refine andThen state fun s => andThen (buffered (isolated ?_)) fun _ => pure rfl
  have hports : Ports.Given sink ⟨.null, ⟨.capture, false⟩, ⟨s.streams.stderr, false⟩⟩ :=
    ⟨Port.given_unmarked _ _, Port.given_unmarked _ _⟩
  exact andThen (setState _) fun _ => hrun hports

end Tracks

/-! ## Every part of a stage -/

variable {sink : Sink} (h : Handlers)

mutual

theorem tracks_list {ports : Ports} (hports : ports.Given sink) : ∀ script : List Statement,
    Tracks sink Eq (Watched.list h ports script) (Run.list h ports.streams script)
  | [] => by
    unfold Watched.list Run.list
    exact .andThen .state fun s => .pure rfl
  | statement :: rest => by
    unfold Watched.list Run.list
    refine .andThen .state fun s => ?_
    split
    · exact .andThen .state fun s => .pure rfl
    · exact .andThen (tracks_andOr hports statement) fun status => .andThen (.setState _) fun _ =>
        tracks_list hports rest

theorem tracks_andOr {ports : Ports} (hports : ports.Given sink) : ∀ s : Statement,
    Tracks sink Eq (Watched.andOr h ports s) (Run.andOr h ports.streams s)
  | ⟨first, rest, _, _⟩ => by
    unfold Watched.andOr Run.andOr
    refine .andThen (tracks_guarded hports _ first) fun status =>
      .andThen (tracks_links hports status _ rest) fun last => .andThen .state fun s => ?_
    split
    · exact .throw _
    · exact .pure rfl

theorem tracks_links {ports : Ports} (hports : ports.Given sink) :
    ∀ (status : Int) (counts : Bool) (rest : List Link),
      Tracks sink Eq (Watched.links h ports status counts rest) (Run.links h ports.streams status counts rest)
  | status, counts, [] => by
    unfold Watched.links Run.links
    exact .pure rfl
  | status, counts, ⟨connector, next⟩ :: rest => by
    unfold Watched.links Run.links
    have hrun := Tracks.andThen (tracks_guarded hports (!rest.isEmpty) next) fun status =>
      tracks_links hports status (rest.isEmpty && !next.negated) rest
    have hskip := tracks_links hports status false rest
    cases connector <;> dsimp only <;> split
    · exact hrun
    · exact hskip
    · exact hrun
    · exact hskip

theorem tracks_guarded {ports : Ports} (hports : ports.Given sink) : ∀ (isTest : Bool) (p : Pipeline),
    Tracks sink Eq (Watched.guarded h ports isTest p) (Run.guarded h ports.streams isTest p)
  | isTest, ⟨negated, commands⟩ => by
    unfold Watched.guarded Run.guarded
    refine .tested _ ?_
    match commands with
    | [] => exact .andThen (tracks_stages hports _ []) fun _ => .pure rfl
    | [only] => exact .andThen (tracks_command hports only) fun _ => .pure rfl
    | stage :: next :: rest =>
      exact .andThen (tracks_stages hports _ (stage :: next :: rest)) fun _ => .pure rfl

theorem tracks_stages {ports : Ports} (hports : ports.Given sink) :
    ∀ (input : Source) (commands : List Command),
      Tracks sink Eq (Watched.stages h ports input commands) (Run.stages h ports.streams input commands)
  | _, [] => by
    unfold Watched.stages Run.stages
    exact .pure rfl
  | input, [last] => by
    unfold Watched.stages Run.stages
    have hports' : Ports.Given sink { ports with stdin := input } := ⟨hports.stdout, hports.stderr⟩
    exact .isolated (tracks_command hports' last)
  | input, stage :: next :: rest => by
    unfold Watched.stages Run.stages
    have hports' : Ports.Given sink { ports with stdin := input, stdout := ⟨.capture, false⟩ } :=
      ⟨Port.given_unmarked _ _, hports.stderr⟩
    exact .andThen (.buffered (.isolated (tracks_command hports' stage))) fun written =>
      tracks_stages hports _ (next :: rest)

theorem tracks_command {ports : Ports} (hports : ports.Given sink) : ∀ command : Command,
    Tracks sink Eq (Watched.command h ports command) (Run.command h ports.streams command)
  | .simple assigns words redirects => by
    unfold Watched.command Run.command
    exact .andThen (tracks_fields words) fun arguments => .andThen (tracks_values assigns) fun assigned =>
      .bind (tracks_redirections hports redirects) fun _ _ hr =>
        .withPorts hports hr fun hports => .perform h arguments assigned hports
  | .subshell script redirects => by
    unfold Watched.command Run.command
    exact .bind (tracks_redirections hports redirects) fun _ _ hr =>
      .withPorts hports hr fun hports => .isolated (tracks_list hports script)
  | .group script redirects => by
    unfold Watched.command Run.command
    exact .bind (tracks_redirections hports redirects) fun _ _ hr =>
      .withPorts hports hr fun hports => tracks_list hports script

theorem tracks_redirections {ports : Ports} (hports : ports.Given sink) : ∀ redirects : List Redirect,
    Tracks sink (Connected sink) (Watched.redirections h ports redirects)
      (Run.redirections h ports.streams redirects)
  | [] => by
    unfold Watched.redirections Run.redirections
    exact .pure (Connected.ok hports)
  | ⟨fd, kind, target⟩ :: rest => by
    unfold Watched.redirections Run.redirections
    refine .andThen (tracks_text target) fun target => .bind (.redirect h fd kind target hports) fun _ _ hr => ?_
    cases hr with
    | ok hports => exact tracks_redirections hports rest
    | error e => exact .pure (.error e)

theorem tracks_values : ∀ assigns : List Assign,
    Tracks sink Eq (Watched.values h assigns) (Run.values h assigns)
  | [] => by
    unfold Watched.values Run.values
    exact .pure rfl
  | ⟨name, value⟩ :: rest => by
    unfold Watched.values Run.values
    exact .andThen (tracks_text value) fun _ => .andThen (tracks_values rest) fun _ => .pure rfl

theorem tracks_fields : ∀ words : List (List Part),
    Tracks sink Eq (Watched.fields h words) (Run.fields h words)
  | [] => by
    unfold Watched.fields Run.fields
    exact .pure rfl
  | word :: rest => by
    unfold Watched.fields Run.fields
    exact .andThen (tracks_parts _ word) fun _ => .andThen .state fun _ => .andThen .files fun _ =>
      .andThen (tracks_fields rest) fun _ => .pure rfl

theorem tracks_parts : ∀ (found : Fields) (parts : List Part),
    Tracks sink Eq (Watched.parts h found parts) (Run.parts h found parts)
  | found, [] => by
    unfold Watched.parts Run.parts
    exact .pure rfl
  | found, .literal text quoted :: rest => by
    unfold Watched.parts Run.parts
    exact tracks_parts _ rest
  | found, .param name fallback quoted :: rest => by
    unfold Watched.parts Run.parts
    exact .andThen (tracks_parameter name fallback) fun _ => tracks_parts _ rest
  | found, .subst script quoted :: rest => by
    unfold Watched.parts Run.parts
    exact .andThen (.substitution fun hports => tracks_list hports script) fun _ => tracks_parts _ rest

theorem tracks_text : ∀ parts : List Part, Tracks sink Eq (Watched.text h parts) (Run.text h parts)
  | [] => by
    unfold Watched.text Run.text
    exact .pure rfl
  | .literal t _ :: rest => by
    unfold Watched.text Run.text
    exact .andThen (tracks_text rest) fun _ => .pure rfl
  | .param name fallback _ :: rest => by
    unfold Watched.text Run.text
    exact .andThen (tracks_parameter name fallback) fun _ => .andThen (tracks_text rest) fun _ => .pure rfl
  | .subst script _ :: rest => by
    unfold Watched.text Run.text
    exact .andThen (.substitution fun hports => tracks_list hports script) fun _ =>
      .andThen (tracks_text rest) fun _ => .pure rfl

theorem tracks_parameter (name : String) : ∀ fallback : Option (List Part),
    Tracks sink Eq (Watched.parameter h name fallback) (Run.parameter h name fallback)
  | none => by
    unfold Watched.parameter Run.parameter
    exact .andThen .state fun _ => .pure rfl
  | some fallback => by
    unfold Watched.parameter Run.parameter
    refine .andThen .state fun s => ?_
    dsimp only
    split
    · exact tracks_text fallback
    · exact .pure rfl

end

/-! ## Pipelines -/

/-- A stage with its buffer: what it writes to the pipe is what is noted for that buffer. -/
theorem watched_stage {x : Watched Int} {y : Act Int} (hx : Tracks sink Eq x y) (w : World) :
    ∃ ds, Watched.buffered x (w, ⟨0, []⟩) = ((Act.buffered y w).1, ((Act.buffered y w).2, ⟨0, ds⟩)) ∧
      (∀ status written, (Act.buffered y w).1 = .ok (status, written) → written = bytesTo (.buffer 1) ds) ∧
      ∀ d ∈ ds, d.Fits sink 1 := by
  obtain ⟨ds, halike, hworld, hcaptured, hfits⟩ := hx { w with captured := [] } ⟨1, []⟩
  refine ⟨ds, ?_⟩
  unfold Watched.buffered Act.buffered
  rcases hxw : x ({ w with captured := [] }, ⟨1, []⟩) with ⟨r, v⟩
  rcases hyw : y { w with captured := [] } with ⟨r', v'⟩
  rw [hxw, hyw] at halike hworld
  rw [hyw] at hcaptured
  obtain rfl : v = _ := hworld
  simp only [hxw]
  cases halike with
  | ok h =>
    cases h
    refine ⟨rfl, ?_, hfits⟩
    rintro status written ⟨⟩
    exact hcaptured
  | error e =>
    refine ⟨rfl, ?_, hfits⟩
    rintro status written ⟨⟩

theorem watchedStages_spec (streams : Streams) (commands : List Command) (input : Source) (w : World) :
    Run.stages h streams input commands w =
      ((watchedStages h streams input commands w).1, (watchedStages h streams input commands w).2.1) ∧
    ∀ s ∈ (watchedStages h streams input commands w).2.2,
      (∀ bytes, s.piped = some bytes → bytes = bytesTo (.buffer 1) s.deliveries) ∧
      ∀ d ∈ s.deliveries, d.Fits streams.stderr 1 := by
  induction commands generalizing input w with
  | nil =>
    unfold Run.stages watchedStages
    exact ⟨rfl, nofun⟩
  | cons stage rest ih =>
    cases rest with
    | nil =>
      unfold Run.stages watchedStages
      exact ⟨rfl, nofun⟩
    | cons next rest =>
      let ports : Ports := ⟨input, ⟨.capture, false⟩, ⟨streams.stderr, true⟩⟩
      have hports : ports.Given streams.stderr := ⟨Port.given_unmarked _ _, fun _ => rfl⟩
      obtain ⟨ds, hstage, hpiped, hfits⟩ := watched_stage (.isolated (tracks_command h hports stage)) w
      rw [show ports.streams = { streams with stdin := input, stdout := .capture } from rfl] at hstage hpiped
      unfold Run.stages watchedStages
      rw [Stateful.bind_apply]
      simp only [hstage, ports]
      rcases hbuffered : Act.buffered (Act.isolated
        (Run.command h { streams with stdin := input, stdout := .capture } stage)) w with
        ⟨e | ⟨status, written⟩, w'⟩ <;> rw [hbuffered] at hpiped
      · refine ⟨rfl, ?_⟩
        rintro s hs
        obtain rfl := List.mem_singleton.mp hs
        exact ⟨nofun, hfits⟩
      · obtain ⟨hrest, hsights⟩ := ih (.bytes written) w'
        refine ⟨hrest, List.forall_mem_cons.mpr ⟨⟨?_, hfits⟩, hsights⟩⟩
        rintro bytes ⟨⟩
        exact hpiped status written rfl

theorem place_eq_iff {d : Delivery} (hd : d.Fits sink 1) (hown : d.port.own = true) :
    d.place = sink.place 0 ∧ d.place ≠ .buffer 1 ↔ sink ≠ .capture := by
  have hdepth := hd.depth
  unfold Delivery.place
  rw [hd.port hown]
  cases sink <;> simp [Sink.place]
  omega

/-- Watching a pipeline is running it, and what a stage writes to the pipe is what is noted for its
buffer. The diagnostics of the stages go where the standard error of the pipeline leads, and not into
a pipe, just if that is not captured or there are none. -/
theorem stages_diagnostics (streams : Streams) (input : Source) (commands : List Command) (w : World) :
    ∃ result w' sights, watchedStages h streams input commands w = (result, w', sights) ∧
      Run.stages h streams input commands w = (result, w') ∧
      (∀ s ∈ sights, ∀ bytes, s.piped = some bytes → bytes = bytesTo (.buffer 1) s.deliveries) ∧
      ((∀ s ∈ sights, s.Separate streams.stderr) ↔
        streams.stderr ≠ .capture ∨ ∀ s ∈ sights, ∀ d ∈ s.deliveries, d.port.own = false) := by
  obtain ⟨hrun, hsights⟩ := watchedStages_spec h streams commands input w
  refine ⟨_, _, _, rfl, hrun, fun s hs => (hsights s hs).1, ?_, ?_⟩
  · intro hseparate
    by_cases hcapture : streams.stderr = .capture
    · refine .inr fun s hs d hd => Bool.eq_false_iff.mpr fun hown => ?_
      exact (place_eq_iff ((hsights s hs).2 d hd) hown).mp (hseparate s hs d hd hown) hcapture
    · exact .inl hcapture
  · rintro (hne | hnone) s hs d hd hown
    · exact (place_eq_iff ((hsights s hs).2 d hd) hown).mpr hne
    · exact absurd hown (by rw [hnone s hs d hd]; decide)

/-! ## Diagnostics that are captured -/

/-- The pipeline `err a | upper`. -/
def errUpper : List Command :=
  [.simple [] [[.literal "err" false], [.literal "a" false]] [], .simple [] [[.literal "upper" false]] []]

/-- In `{ err a | upper; } 2>&1`, when the output is captured, the line on the standard error of the
first stage does not go where that of the pipeline does, but through the pipe: it comes out in upper
case. -/
theorem captured_diagnostics_piped :
    let h : Handlers := ⟨Program.Sample.exec, Handlers.openDirect⟩
    let w : World := ⟨.initial "/", [], default⟩
    (watchedStages h ⟨.null, .capture, .capture⟩ .null errUpper w).2.2 =
      [⟨[⟨⟨.capture, true⟩, 1, some (Utf8.encode "a\n")⟩], some (Utf8.encode "a\n")⟩] ∧
    (¬ ∀ s ∈ (watchedStages h ⟨.null, .capture, .capture⟩ .null errUpper w).2.2, s.Separate .capture) ∧
    (Run.command h ⟨.null, .capture, .stderr⟩
      (.group [⟨⟨false, errUpper⟩, [], "err a | upper", 1⟩] [⟨2, .duplicate, [.literal "1" false]⟩]) w).2.captured =
      Utf8.encode "A\n" := by
  intro h w
  have hsights : (watchedStages h ⟨.null, .capture, .capture⟩ .null errUpper w).2.2 =
      [⟨[⟨⟨.capture, true⟩, 1, some (Utf8.encode "a\n")⟩], some (Utf8.encode "a\n")⟩] := by
    decide +kernel
  refine ⟨hsights, ?_, ?_⟩
  · rw [hsights]
    intro hseparate
    exact (hseparate _ (List.mem_singleton.mpr rfl) _ (List.mem_singleton.mpr rfl) rfl).2 rfl
  · decide +kernel

end Taskwork.Shell
