/-
Two runs side by side. A `Pairing` says how the hosts of two shells belong together and which
streams they may be given; if opening a file and running a program keep to it, so does running
anything: the two runs end alike, in worlds that belong together. The shells may differ in whether
failures end the script, as long as a test is being made.
-/
import Taskwork.Proofs.Files.Tree
import Taskwork.Proofs.Stateful
import Taskwork.Shell.Interpreter

namespace Taskwork.Shell

structure Pairing where
  /-- The hosts that belong together. -/
  hosts : Host → Host → Prop
  /-- The inputs that belong together. -/
  sources : Source → Source → Prop
  /-- The outputs that both shells may be given. -/
  sinks : Sink → Prop
  /-- The failures of the first shell after which nothing is said of the second. -/
  waived : Program.Failure → Prop
  /-- Whether a failing statement ends the script of the first shell. -/
  errexit : Bool
  /-- Whether a failing statement ends the script of the second shell. -/
  errexit' : Bool

/-- Two results that are alike: `P` is true of what was returned, or both stopped for one reason. -/
inductive Alike {α β : Type} (P : α → β → Prop) : Except Stop α → Except Stop β → Prop where
  | ok {a : α} {b : β} (h : P a b) : Alike P (.ok a) (.ok b)
  | error (e : Stop) : Alike P (.error e) (.error e)

theorem Alike.eq {α : Type} {x y : Except Stop α} (h : Alike Eq x y) : x = y := by
  cases h with
  | ok h => rw [h]
  | error e => rfl

namespace Pairing

variable (c : Pairing)

/-- Two states while `n` tests are being made: the same, but for whether failures end the script, in
which they may differ within a test. -/
structure States (n : Nat) (s s' : State) : Prop where
  tests : s.tests = n
  errexit : s.errexit = c.errexit
  same : s' = { s with errexit := c.errexit' }
  agreed : n = 0 → c.errexit = c.errexit'
  stderr : c.sinks s.streams.stderr

structure Worlds (n : Nat) (w w' : World) : Prop where
  states : c.States n w.state w'.state
  captured : w.captured = w'.captured
  hosts : c.hosts w.host w'.host

structure Wired (streams streams' : Streams) : Prop where
  stdin : c.sources streams.stdin streams'.stdin
  stdout : streams.stdout = streams'.stdout
  stderr : streams.stderr = streams'.stderr
  out : c.sinks streams.stdout
  err : c.sinks streams.stderr

/-- Redirected streams that belong together, or the fault for which both could not be had. -/
inductive Redirected : Except (String × FileFault) Streams → Except (String × FileFault) Streams → Prop where
  | ok {streams streams' : Streams} (h : c.Wired streams streams') : Redirected (.ok streams) (.ok streams')
  | error (e : String × FileFault) : Redirected (.error e) (.error e)

/-- Where a program run on some streams reads from and writes to. -/
def wiring (streams : Streams) : Program.Wiring :=
  ⟨streams.stdin.input, streams.stdout.output .stdout, streams.stderr.output .stderr⟩

/-- Two answers of the handlers to a call: the first is a failure after which nothing is said of the
second, or they are the same and the hosts still belong together. -/
def Answers (x y : Host × Except Program.Failure Program.Outcome) : Prop :=
  (∃ f, c.waived f ∧ x.2 = .error f) ∨ x.2 = y.2 ∧ c.hosts x.1 y.1

/-- The handlers of two shells keep to the pairing. -/
structure Kept (h h' : Handlers) : Prop where
  tree : ∀ {H H'}, c.hosts H H' → H.files.SameTree H'.files
  printOut : ∀ {H H'} bytes, c.hosts H H' → c.hosts (H.printOut bytes) (H'.printOut bytes)
  printErr : ∀ {H H'} bytes, c.hosts H H' → c.hosts (H.printErr bytes) (H'.printErr bytes)
  writeTo : ∀ {H H'} k bytes, c.sinks (.file k) → c.hosts H H' →
    c.hosts (H.writeTo k bytes) (H'.writeTo k bytes)
  null : c.sources .null .null
  bytes : ∀ content, c.sources (.bytes content) (.bytes content)
  capture : c.sinks .capture
  openFile : ∀ {H H'} directory path mode, c.hosts H H' →
    (h.openFile directory path mode H).2 = (h'.openFile directory path mode H').2 ∧
    c.hosts (h.openFile directory path mode H).1 (h'.openFile directory path mode H').1 ∧
    ∀ k, (h.openFile directory path mode H).2 = .ok k → c.sources (.file k) (.file k) ∧ c.sinks (.file k)
  exec : ∀ {H H' streams streams'} directory env words, c.hosts H H' → c.Wired streams streams' →
    c.Answers (h.exec ⟨directory, env, words, wiring streams⟩ H)
      (h'.exec ⟨directory, env, words, wiring streams'⟩ H')

/-- What two runs come to: the first fails so that nothing is said of the second, or their results
are alike and their worlds belong together. -/
def Meet {α β : Type} (n : Nat) (P : α → β → Prop) (x : Except Stop α × World)
    (y : Except Stop β × World) : Prop :=
  (∃ f, c.waived f ∧ x.1 = .error (.failure f)) ∨ Alike P x.1 y.1 ∧ c.Worlds n x.2 y.2

/-- Two acts that meet wherever they start from worlds that belong together. -/
def InStep {α β : Type} (n : Nat) (P : α → β → Prop) (x : Act α) (y : Act β) : Prop :=
  ∀ w w', c.Worlds n w w' → c.Meet n P (x w) (y w')

variable {c} {n : Nat}

/-! ## States -/

/-- A change of the state that neither looks at nor touches what two states may differ in. -/
structure Plain (f : State → State) : Prop where
  tests : ∀ s, (f s).tests = s.tests
  streams : ∀ s, (f s).streams = s.streams
  errexit : ∀ s b, f { s with errexit := b } = { f s with errexit := b }

namespace Plain

theorem foldl {α : Type} {f : State → α → State} (hf : ∀ a, Plain (f · a)) :
    ∀ l : List α, Plain fun s => l.foldl f s
  | [] => ⟨fun _ => rfl, fun _ => rfl, fun _ _ => rfl⟩
  | a :: l => by
    have hl := foldl hf l
    refine ⟨fun s => (hl.tests _).trans ((hf a).tests s), fun s => (hl.streams _).trans ((hf a).streams s),
      fun s b => ?_⟩
    have hstep : f { s with errexit := b } a = { f s a with errexit := b } := (hf a).errexit s b
    simp only [List.foldl_cons, hstep]
    exact hl.errexit (f s a) b

theorem set (name value : String) : Plain (·.set name value) := by
  constructor <;> intros <;> (unfold State.set; split <;> rfl)

theorem publish (name : String) (value : Option String) : Plain (·.publish name value) := by
  constructor <;> intros <;> (unfold State.publish; dsimp only; split <;> rfl)

theorem unset (name : String) : Plain (·.unset name) := ⟨fun _ => rfl, fun _ => rfl, fun _ _ => rfl⟩

theorem enter (directory : String) : Plain (·.enter directory) :=
  ⟨fun _ => rfl, fun _ => rfl, fun _ _ => rfl⟩

theorem noted (status : Int) : Plain ({ · with lastStatus := status }) :=
  ⟨fun _ => rfl, fun _ => rfl, fun _ _ => rfl⟩

theorem exited (exited : Bool) : Plain ({ · with exited := exited }) :=
  ⟨fun _ => rfl, fun _ => rfl, fun _ _ => rfl⟩

end Plain

namespace States

variable {s s' : State}

theorem map {f : State → State} (hf : Plain f) (h : c.States n s s') : c.States n (f s) (f s') := by
  have herrexit : (f s).errexit = s.errexit := by
    have hself : f s = { f s with errexit := s.errexit } := hf.errexit s s.errexit
    rw [hself]
  refine ⟨(hf.tests s).trans h.tests, herrexit.trans h.errexit, ?_, h.agreed, ?_⟩
  · rw [h.same, hf.errexit]
  · rw [hf.streams]
    exact h.stderr

theorem deeper (h : c.States n s s') :
    c.States (n + 1) { s with tests := s.tests + 1 } { s' with tests := s'.tests + 1 } := by
  refine ⟨congrArg (· + 1) h.tests, h.errexit, ?_, fun hn => absurd hn (Nat.succ_ne_zero n), h.stderr⟩
  rw [h.same]

/-- Once a test has been made, the states are those of a shell that makes one test less. -/
theorem back {t t' : State} (h : c.States n s s') (ht : c.States (n + 1) t t') :
    c.States n { t with tests := t.tests - 1 } { t' with tests := t'.tests - 1 } := by
  refine ⟨congrArg (· - 1) ht.tests, ht.errexit, ?_, h.agreed, ht.stderr⟩
  rw [ht.same]

theorem directory (h : c.States n s s') : s.directory = s'.directory := by rw [h.same]

theorem exported (h : c.States n s s') : s.exported = s'.exported := by rw [h.same]

theorem exited (h : c.States n s s') : s.exited = s'.exited := by rw [h.same]

theorem lastStatus (h : c.States n s s') : s.lastStatus = s'.lastStatus := by rw [h.same]

theorem streams (h : c.States n s s') : s.streams = s'.streams := by rw [h.same]

theorem var? (h : c.States n s s') (name : String) : s.var? name = s'.var? name := by
  rw [h.same]
  rfl

theorem parameter? (h : c.States n s s') (name : String) : s.parameter? name = s'.parameter? name := by
  rw [h.same]
  rfl

/-- Within a test no failure ends the script, and elsewhere the states do not differ. -/
theorem failsOnError (h : c.States n s s') : s.failsOnError = s'.failsOnError := by
  rw [h.same]
  unfold State.failsOnError
  rw [h.errexit, h.tests]
  cases n with
  | zero => rw [h.agreed rfl]
  | succ n => simp

end States

namespace Wired

variable {streams streams' : Streams}

theorem reading {input input' : Source} (hinput : c.sources input input') (h : c.Wired streams streams') :
    c.Wired { streams with stdin := input } { streams' with stdin := input' } :=
  ⟨hinput, h.stdout, h.stderr, h.out, h.err⟩

theorem writing {sink : Sink} (hsink : c.sinks sink) (h : c.Wired streams streams') :
    c.Wired { streams with stdout := sink } { streams' with stdout := sink } :=
  ⟨h.stdin, rfl, h.stderr, hsink, h.err⟩

end Wired

/-- The second world is the first one but for its host and for whether failures end the script. -/
theorem Worlds.eq {w w' : World} (h : c.Worlds n w w') :
    w' = { w with state := { w.state with errexit := c.errexit' }, host := w'.host } := by
  have hstate := h.states.same
  have hcaptured := h.captured
  obtain ⟨state, captured, host⟩ := w'
  subst hstate hcaptured
  rfl

theorem Worlds.map {w w' : World} {f : State → State} (hf : Plain f) (h : c.Worlds n w w') :
    c.Worlds n { w with state := f w.state } { w' with state := f w'.state } :=
  ⟨h.states.map hf, h.captured, h.hosts⟩

/-! ## Acts -/

/-- What is left of a call once the program has run. -/
def afterProgram (streams : Streams) : Except Program.Failure Program.Outcome → Act Int
  | .error f => throw (.failure f)
  | .ok outcome => do
    Act.write streams.stdout outcome.stdout
    Act.write streams.stderr outcome.stderr
    return outcome.status

namespace InStep

variable {α α' β β' : Type}

theorem pure {P : α → β → Prop} {a : α} {b : β} (h : P a b) :
    c.InStep n P (Pure.pure a) (Pure.pure b) := fun _ _ hw => .inr ⟨.ok h, hw⟩

theorem throw {P : α → β → Prop} (e : Stop) :
    c.InStep n P (MonadExcept.throw e) (MonadExcept.throw e) := fun _ _ hw => .inr ⟨.error e, hw⟩

theorem bind {P : α → β → Prop} {Q : α' → β' → Prop} {x : Act α} {y : Act β} {f : α → Act α'}
    {g : β → Act β'} (hx : c.InStep n P x y) (hf : ∀ a b, P a b → c.InStep n Q (f a) (g b)) :
    c.InStep n Q (x >>= f) (y >>= g) := by
  intro w w' hw
  have hmeet := hx w w' hw
  rw [Stateful.bind_apply, Stateful.bind_apply]
  rcases hxw : x w with ⟨r, v⟩
  rcases hyw : y w' with ⟨r', v'⟩
  rw [hxw, hyw] at hmeet
  rcases hmeet with ⟨failure, hwaived, hr⟩ | ⟨halike, hv⟩
  · -- a failure of the first run ends all of it, whatever the second one does
    obtain rfl : r = .error (.failure failure) := hr
    exact .inl ⟨failure, hwaived, rfl⟩
  · cases halike with
    | ok h => exact hf _ _ h v v' hv
    | error e => exact .inr ⟨.error e, hv⟩

/-- Going on from acts that return the same. -/
theorem andThen {Q : α' → β' → Prop} {x y : Act α} {f : α → Act α'} {g : α → Act β'}
    (hx : c.InStep n Eq x y) (hf : ∀ a, c.InStep n Q (f a) (g a)) :
    c.InStep n Q (x >>= f) (y >>= g) := bind hx fun a _ h => h ▸ hf a

theorem state : c.InStep n (c.States n) Act.state Act.state := fun _ _ hw => .inr ⟨.ok hw.states, hw⟩

theorem setState {f : State → State} (hf : Plain f) : c.InStep n Eq (Act.setState f) (Act.setState f) :=
  fun _ _ hw => .inr ⟨.ok rfl, hw.map hf⟩

/-- What is done on a copy of the state leaves the states together. -/
theorem isolated {x y : Act Int} (hx : c.InStep n Eq x y) :
    c.InStep n Eq (Act.isolated x) (Act.isolated y) := by
  intro w w' hw
  have hmeet := hx w w' hw
  unfold Act.isolated
  rcases hxw : x w with ⟨r, v⟩
  rcases hyw : y w' with ⟨r', v'⟩
  rw [hxw, hyw] at hmeet
  rcases hmeet with ⟨failure, hwaived, hr⟩ | ⟨halike, hv⟩
  · obtain rfl : r = .error (.failure failure) := hr
    exact .inl ⟨failure, hwaived, rfl⟩
  · -- of the copies only the status is kept, which is the same in both
    have hback (status : Int) : c.Worlds n { v with state := { w.state with lastStatus := status } }
        { v' with state := { w'.state with lastStatus := status } } :=
      ⟨hw.states.map (.noted status), hv.captured, hv.hosts⟩
    cases halike with
    | ok h =>
      cases h
      exact .inr ⟨.ok rfl, hback _⟩
    | error e =>
      cases e with
      | exit status => exact .inr ⟨.ok rfl, hback status⟩
      | failure f => exact .inr ⟨.error _, hw.states, hv.captured, hv.hosts⟩

theorem tested {x y : Act Int} (isTest : Bool) (hx : ∀ n, c.InStep n Eq x y) :
    c.InStep n Eq (Act.tested isTest x) (Act.tested isTest y) := by
  intro w w' hw
  unfold Act.tested
  cases isTest with
  | false => exact hx n w w' hw
  | true =>
    -- one test more is being made, and the states are as far apart after it as before
    rcases hx (n + 1) { w with state := { w.state with tests := w.state.tests + 1 } }
      { w' with state := { w'.state with tests := w'.state.tests + 1 } }
      ⟨hw.states.deeper, hw.captured, hw.hosts⟩ with hwaived | ⟨halike, hv⟩
    · exact .inl hwaived
    · exact .inr ⟨halike, hw.states.back hv.states, hv.captured, hv.hosts⟩

theorem buffered {x y : Act Int} (hx : c.InStep n Eq x y) :
    c.InStep n Eq (Act.buffered x) (Act.buffered y) := by
  intro w w' hw
  have hmeet := hx { w with captured := [] } { w' with captured := [] } ⟨hw.states, rfl, hw.hosts⟩
  unfold Act.buffered
  rcases hxw : x { w with captured := [] } with ⟨r, v⟩
  rcases hyw : y { w' with captured := [] } with ⟨r', v'⟩
  rw [hxw, hyw] at hmeet
  rcases hmeet with ⟨failure, hwaived, hr⟩ | ⟨halike, hv⟩
  · obtain rfl : r = .error (.failure failure) := hr
    exact .inl ⟨failure, hwaived, rfl⟩
  · cases halike with
    | ok h =>
      cases h
      exact .inr ⟨.ok (congrArg (Prod.mk _) hv.captured), hv.states, hw.captured, hv.hosts⟩
    | error e => exact .inr ⟨.error e, hv.states, hw.captured, hv.hosts⟩

variable {h h' : Handlers} (hkept : c.Kept h h')

include hkept

theorem files : c.InStep n (fun files files' => files.SameTree files') Act.files Act.files :=
  fun _ _ hw => .inr ⟨.ok (hkept.tree hw.hosts), hw⟩

theorem write {sink : Sink} (hsink : c.sinks sink) (bytes : Bytes) :
    c.InStep n Eq (Act.write sink bytes) (Act.write sink bytes) := by
  unfold Act.write
  split
  · exact pure rfl
  · cases sink with
    | stdout => exact fun _ _ hw => .inr ⟨.ok rfl, hw.states, hw.captured, hkept.printOut bytes hw.hosts⟩
    | stderr => exact fun _ _ hw => .inr ⟨.ok rfl, hw.states, hw.captured, hkept.printErr bytes hw.hosts⟩
    | null => exact fun _ _ hw => .inr ⟨.ok rfl, hw⟩
    | capture => exact fun _ _ hw => .inr ⟨.ok rfl, hw.states, congrArg (· ++ bytes) hw.captured, hw.hosts⟩
    | file k => exact fun _ _ hw => .inr ⟨.ok rfl, hw.states, hw.captured, hkept.writeTo k bytes hsink hw.hosts⟩

theorem openFile (path : String) (mode : OpenMode) :
    c.InStep n (fun r r' => r = r' ∧ ∀ k, r = .ok k → c.sources (.file k) (.file k) ∧ c.sinks (.file k))
      (Act.openFile h path mode) (Act.openFile h' path mode) := by
  intro w w' hw
  have hdirectory := hw.states.directory
  obtain ⟨hsame, hhosts, hopened⟩ := hkept.openFile w'.state.directory path mode hw.hosts
  have hx : Act.openFile h path mode w =
      (.ok ((h.openFile w'.state.directory path mode w.host).2.mapError
        fun f => (Path.join w'.state.directory path, f)),
        { w with host := (h.openFile w'.state.directory path mode w.host).1 }) := by
    rw [← hdirectory]
    rfl
  have hy : Act.openFile h' path mode w' =
      (.ok ((h'.openFile w'.state.directory path mode w'.host).2.mapError
        fun f => (Path.join w'.state.directory path, f)),
        { w' with host := (h'.openFile w'.state.directory path mode w'.host).1 }) := rfl
  rw [hx, hy, ← hsame]
  refine .inr ⟨.ok ⟨rfl, fun k hk => hopened k ?_⟩, hw.states, hw.captured, hhosts⟩
  cases hresult : (h.openFile w'.state.directory path mode w.host).2 with
  | ok j =>
    rw [hresult] at hk
    cases hk
    rfl
  | error f =>
    rw [hresult] at hk
    cases hk

/-- Streams with a file that has just been opened belong together, whatever place it takes in them. -/
theorem opened (path : String) (mode : OpenMode) {place place' : Nat → Streams}
    (hplace : ∀ k, c.sources (.file k) (.file k) → c.sinks (.file k) → c.Wired (place k) (place' k)) :
    c.InStep n c.Redirected (do return (← Act.openFile h path mode).map place)
      (do return (← Act.openFile h' path mode).map place') := by
  refine bind (openFile hkept path mode) fun r _ hr => pure ?_
  obtain ⟨rfl, hopened⟩ := hr
  cases r with
  | ok k => exact .ok (hplace k (hopened k rfl).1 (hopened k rfl).2)
  | error e => exact .error e

theorem redirect {streams streams' : Streams} (hwired : c.Wired streams streams') (fd : Nat)
    (kind : RedirectKind) (target : String) :
    c.InStep n c.Redirected (Act.redirect h fd kind target streams) (Act.redirect h' fd kind target streams') := by
  have hplace {sink sink' : Sink} (hsame : sink = sink') (hsink : c.sinks sink) : c.Wired
      (if fd = 1 then { streams with stdout := sink }
        else if fd = 2 then { streams with stderr := sink } else streams)
      (if fd = 1 then { streams' with stdout := sink' }
        else if fd = 2 then { streams' with stderr := sink' } else streams') := by
    split
    · exact ⟨hwired.stdin, hsame, hwired.stderr, hsink, hwired.err⟩
    · split
      · exact ⟨hwired.stdin, hwired.stdout, hsame, hwired.out, hsink⟩
      · exact hwired
  unfold Act.redirect
  cases kind with
  | read =>
    refine opened hkept target .read fun k hsource _ => ?_
    split
    · exact hwired.reading hsource
    · exact hwired
  | write => exact opened hkept target .write fun _ _ hsink => hplace rfl hsink
  | append => exact opened hkept target .append fun _ _ hsink => hplace rfl hsink
  | duplicate =>
    dsimp only
    split
    · exact pure (.ok (hplace hwired.stdout hwired.out))
    · exact pure (.ok (hplace hwired.stderr hwired.err))
    · exact pure (.ok hwired)
  | writeBoth => exact opened hkept target .write fun _ _ hsink => ⟨hwired.stdin, rfl, rfl, hsink, hsink⟩

theorem withStreams {outer outer' : Streams} (houter : c.Wired outer outer')
    {r r' : Except (String × FileFault) Streams} (hr : c.Redirected r r') {act act' : Streams → Act Int}
    (hact : ∀ {streams streams'}, c.Wired streams streams' → c.InStep n Eq (act streams) (act' streams')) :
    c.InStep n Eq (Act.withStreams outer r act) (Act.withStreams outer' r' act') := by
  cases hr with
  | ok hwired => exact hact hwired
  | error e =>
    unfold Act.withStreams
    rw [← houter.stderr]
    exact andThen (write hkept houter.err _) fun _ => pure rfl

theorem substitution {run run' : Streams → Act Int}
    (hrun : ∀ {streams streams'}, c.Wired streams streams' → c.InStep n Eq (run streams) (run' streams')) :
    c.InStep n Eq (Act.substitution run) (Act.substitution run') := by
  refine bind state fun s s' hs => andThen (buffered (isolated ?_)) fun _ => pure rfl
  refine andThen (setState (.exited false)) fun _ => hrun ?_
  rw [← hs.streams]
  exact ⟨hkept.null, rfl, rfl, hkept.capture, hs.stderr⟩

/-! ## Commands -/

variable {streams streams' : Streams} (hwired : c.Wired streams streams')

include hwired

theorem fail (name message : String) (status : Int) :
    c.InStep n Eq (Builtin.fail name message streams status) (Builtin.fail name message streams' status) := by
  unfold Builtin.fail
  rw [← hwired.stderr]
  exact andThen (write hkept hwired.err _) fun _ => pure rfl

theorem cd (args : List String) : c.InStep n Eq (Builtin.cd args streams) (Builtin.cd args streams') := by
  unfold Builtin.cd
  refine bind state fun s s' hs => ?_
  rw [← hs.var?, ← hs.directory]
  split
  · exact fail hkept hwired _ _ _
  · refine bind (files hkept) fun fs fs' hfs => ?_
    simp only [hfs.isDirectory]
    split
    · exact andThen (setState (.enter _)) fun _ => pure rfl
    · exact fail hkept hwired _ _ _

theorem pwd : c.InStep n Eq (Builtin.pwd streams) (Builtin.pwd streams') := by
  unfold Builtin.pwd
  refine bind state fun s s' hs => ?_
  rw [← hs.directory, ← hwired.stdout]
  exact andThen (write hkept hwired.out _) fun _ => pure rfl

theorem echo (args : List String) :
    c.InStep n Eq (Builtin.echo args streams) (Builtin.echo args streams') := by
  unfold Builtin.echo
  rw [← hwired.stdout]
  exact andThen (write hkept hwired.out _) fun _ => pure rfl

theorem exit (args : List String) :
    c.InStep n Eq (Builtin.exit args streams) (Builtin.exit args streams') := by
  have hend (status : Int) : c.InStep n (α := Int) Eq
      (Act.setState ({ · with exited := true }) >>= fun _ => MonadExcept.throw (Stop.exit status))
      (Act.setState ({ · with exited := true }) >>= fun _ => MonadExcept.throw (Stop.exit status)) :=
    andThen (setState (.exited true)) fun _ => throw _
  unfold Builtin.exit
  cases args with
  | nil =>
    refine bind state fun s s' hs => ?_
    rw [← hs.lastStatus]
    exact hend _
  | cons arg _ =>
    dsimp only
    split
    · exact hend _
    · exact andThen (fail hkept hwired _ _ _) hend

omit hkept hwired in
theorem export_ (args : List String) : c.InStep n Eq (Builtin.export_ args) (Builtin.export_ args) := by
  refine andThen (setState (.foldl (fun arg => ?_) args)) fun _ => pure rfl
  split
  · exact .publish _ _
  · exact .publish _ _

omit hkept hwired in
theorem unset (args : List String) : c.InStep n Eq (Builtin.unset args) (Builtin.unset args) :=
  andThen (setState (.foldl (fun _ => .unset _) args)) fun _ => pure rfl

theorem test (args : List String) :
    c.InStep n Eq (Builtin.test args streams) (Builtin.test args streams') := by
  unfold Builtin.test
  refine bind (files hkept) fun fs fs' hfs => bind state fun s s' hs => ?_
  rw [← hs.directory, hfs.evaluate]
  split
  · exact pure rfl
  · exact pure rfl
  · exact fail hkept hwired _ _ _

theorem afterProgram (result : Except Program.Failure Program.Outcome) :
    c.InStep n Eq (Pairing.afterProgram streams result) (Pairing.afterProgram streams' result) := by
  unfold Pairing.afterProgram
  cases result with
  | error f => exact throw _
  | ok outcome =>
    rw [← hwired.stdout, ← hwired.stderr]
    exact andThen (write hkept hwired.out _) fun _ => andThen (write hkept hwired.err _) fun _ => pure rfl

theorem bracket (args : List String) :
    c.InStep n Eq (Builtin.bracket args streams) (Builtin.bracket args streams') := by
  unfold Builtin.bracket
  split
  · exact test hkept hwired _
  · exact fail hkept hwired _ _ _

theorem builtin {name : String} {run : List String → Streams → Act Int}
    (hrun : Builtin.builtin? name = some run) (args : List String) :
    c.InStep n Eq (run args streams) (run args streams') := by
  unfold Builtin.builtin? at hrun
  split at hrun <;> cases hrun
  · exact cd hkept hwired args
  · exact pwd hkept hwired
  · exact echo hkept hwired args
  · exact pure rfl
  · exact pure rfl
  · exact pure rfl
  · exact exit hkept hwired args
  · exact export_ args
  · exact unset args
  · exact test hkept hwired args
  · exact bracket hkept hwired args

omit hkept hwired in
theorem call_apply {words : List String} {assigned : List (String × String)} {w : World} {H : Host}
    {result : Except Program.Failure Program.Outcome}
    (hexec : h.exec ⟨w.state.directory, assigned.foldl (fun env row => env.insert row.1 row.2) w.state.exported,
      words, wiring streams⟩ w.host = (H, result)) :
    Act.call h words assigned streams w = Pairing.afterProgram streams result { w with host := H } := by
  unfold wiring at hexec
  unfold Act.call
  rw [Stateful.bind_ok (show (get : Act World) w = (.ok w, w) from rfl)]
  simp only [hexec]
  cases result <;> rfl

theorem call (words : List String) (assigned : List (String × String)) :
    c.InStep n Eq (Act.call h words assigned streams) (Act.call h' words assigned streams') := by
  intro w w' hw
  have hexec := hkept.exec w'.state.directory
    (assigned.foldl (fun env row => env.insert row.1 row.2) w'.state.exported) words hw.hosts hwired
  rcases hrun' : h'.exec ⟨w'.state.directory, assigned.foldl (fun env row => env.insert row.1 row.2)
    w'.state.exported, words, wiring streams'⟩ w'.host with ⟨H', result'⟩
  rw [hrun', ← hw.states.directory, ← hw.states.exported] at hexec
  rcases hrun : h.exec ⟨w.state.directory, assigned.foldl (fun env row => env.insert row.1 row.2)
    w.state.exported, words, wiring streams⟩ w.host with ⟨H, result⟩
  rw [hrun] at hexec
  rw [call_apply hrun, call_apply hrun']
  rcases hexec with ⟨f, hwaived, hfailed⟩ | ⟨hsame, hhosts⟩
  · obtain rfl : result = .error f := hfailed
    exact .inl ⟨f, hwaived, rfl⟩
  · obtain rfl : result = result' := hsame
    exact afterProgram hkept hwired result _ _ ⟨hw.states, hw.captured, hhosts⟩

theorem perform (words : List String) (assigned : List (String × String)) :
    c.InStep n Eq (Act.perform h words assigned streams) (Act.perform h' words assigned streams') := by
  unfold Act.perform
  cases words with
  | nil => exact andThen (setState (.foldl (fun row => .set row.1 row.2) assigned)) fun _ => pure rfl
  | cons name args =>
    dsimp only
    split
    · rename_i run hrun
      exact builtin hkept hwired hrun args
    · exact call hkept hwired _ assigned

end InStep

/-! ## Every part of a script -/

variable {h h' : Handlers}

mutual

theorem inStep_list (hkept : c.Kept h h') (n : Nat)
    {streams streams' : Streams} (hwired : c.Wired streams streams') :
    ∀ script : List Statement, c.InStep n Eq (Run.list h streams script) (Run.list h' streams' script)
  | [] => by
    unfold Run.list
    exact .bind .state fun s s' hs => .pure hs.lastStatus
  | statement :: rest => by
    unfold Run.list
    refine .bind .state fun s s' hs => ?_
    rw [← hs.exited]
    split
    · exact .bind .state fun s s' hs => .pure hs.lastStatus
    · exact .andThen (inStep_andOr hkept n hwired statement) fun status =>
        .andThen (.setState (.noted status)) fun _ => inStep_list hkept n hwired rest

theorem inStep_andOr (hkept : c.Kept h h') (n : Nat)
    {streams streams' : Streams} (hwired : c.Wired streams streams') :
    ∀ s : Statement, c.InStep n Eq (Run.andOr h streams s) (Run.andOr h' streams' s)
  | ⟨first, rest, _, _⟩ => by
    unfold Run.andOr
    refine .andThen (inStep_guarded hkept n hwired _ first) fun status =>
      .andThen (inStep_links hkept n hwired status _ rest) fun last => .bind .state fun s s' hs => ?_
    rw [← hs.failsOnError]
    split
    · exact .throw _
    · exact .pure rfl

theorem inStep_links (hkept : c.Kept h h') (n : Nat)
    {streams streams' : Streams} (hwired : c.Wired streams streams') :
    ∀ (status : Int) (counts : Bool) (rest : List Link),
      c.InStep n Eq (Run.links h streams status counts rest) (Run.links h' streams' status counts rest)
  | status, counts, [] => by
    unfold Run.links
    exact .pure rfl
  | status, counts, ⟨connector, next⟩ :: rest => by
    unfold Run.links
    have hrun := InStep.andThen (inStep_guarded hkept n hwired (!rest.isEmpty) next) fun status =>
      inStep_links hkept n hwired status (rest.isEmpty && !next.negated) rest
    have hskip := inStep_links hkept n hwired status false rest
    cases connector <;> dsimp only <;> split
    · exact hrun
    · exact hskip
    · exact hrun
    · exact hskip

theorem inStep_guarded (hkept : c.Kept h h') (n : Nat)
    {streams streams' : Streams} (hwired : c.Wired streams streams') :
    ∀ (isTest : Bool) (p : Pipeline),
      c.InStep n Eq (Run.guarded h streams isTest p) (Run.guarded h' streams' isTest p)
  | isTest, ⟨negated, commands⟩ => by
    unfold Run.guarded
    refine .tested _ fun n => ?_
    match commands with
    | [] => exact .andThen (inStep_stages hkept n hwired hwired.stdin []) fun _ => .pure rfl
    | [only] => exact .andThen (inStep_command hkept n hwired only) fun _ => .pure rfl
    | stage :: next :: rest =>
      exact .andThen (inStep_stages hkept n hwired hwired.stdin (stage :: next :: rest)) fun _ => .pure rfl

theorem inStep_stages (hkept : c.Kept h h') (n : Nat)
    {streams streams' : Streams} (hwired : c.Wired streams streams') :
    ∀ {input input' : Source} (_ : c.sources input input') (commands : List Command),
      c.InStep n Eq (Run.stages h streams input commands) (Run.stages h' streams' input' commands)
  | _, _, _, [] => by
    unfold Run.stages
    exact .pure rfl
  | _, _, hinput, [last] => by
    unfold Run.stages
    exact .isolated (inStep_command hkept n (hwired.reading hinput) last)
  | _, _, hinput, stage :: next :: rest => by
    unfold Run.stages
    exact .andThen (.buffered (.isolated (inStep_command hkept n
      ((hwired.reading hinput).writing hkept.capture) stage))) fun written =>
        inStep_stages hkept n hwired (hkept.bytes _) (next :: rest)

theorem inStep_command (hkept : c.Kept h h') (n : Nat)
    {streams streams' : Streams} (hwired : c.Wired streams streams') :
    ∀ command : Command, c.InStep n Eq (Run.command h streams command) (Run.command h' streams' command)
  | .simple assigns words redirects => by
    unfold Run.command
    exact .andThen (inStep_fields hkept n words) fun arguments =>
      .andThen (inStep_values hkept n assigns) fun assigned =>
        .bind (inStep_redirections hkept n hwired redirects) fun _ _ hredirected =>
          .withStreams hkept hwired hredirected fun hwired => .perform hkept hwired arguments assigned
  | .subshell script redirects => by
    unfold Run.command
    exact .bind (inStep_redirections hkept n hwired redirects) fun _ _ hredirected =>
      .withStreams hkept hwired hredirected fun hwired => .isolated (inStep_list hkept n hwired script)
  | .group script redirects => by
    unfold Run.command
    exact .bind (inStep_redirections hkept n hwired redirects) fun _ _ hredirected =>
      .withStreams hkept hwired hredirected fun hwired => inStep_list hkept n hwired script

theorem inStep_redirections (hkept : c.Kept h h') (n : Nat)
    {streams streams' : Streams} (hwired : c.Wired streams streams') :
    ∀ redirects : List Redirect,
      c.InStep n c.Redirected (Run.redirections h streams redirects) (Run.redirections h' streams' redirects)
  | [] => by
    unfold Run.redirections
    exact .pure (.ok hwired)
  | ⟨fd, kind, target⟩ :: rest => by
    unfold Run.redirections
    refine .andThen (inStep_text hkept n target) fun target =>
      .bind (.redirect hkept hwired fd kind target) fun _ _ hredirected => ?_
    cases hredirected with
    | ok hwired => exact inStep_redirections hkept n hwired rest
    | error e => exact .pure (.error e)

theorem inStep_values (hkept : c.Kept h h') (n : Nat) : ∀ assigns : List Assign,
    c.InStep n Eq (Run.values h assigns) (Run.values h' assigns)
  | [] => by
    unfold Run.values
    exact .pure rfl
  | ⟨name, value⟩ :: rest => by
    unfold Run.values
    exact .andThen (inStep_text hkept n value) fun _ => .andThen (inStep_values hkept n rest) fun _ => .pure rfl

theorem inStep_fields (hkept : c.Kept h h') (n : Nat) : ∀ words : List (List Part),
    c.InStep n Eq (Run.fields h words) (Run.fields h' words)
  | [] => by
    unfold Run.fields
    exact .pure rfl
  | word :: rest => by
    unfold Run.fields
    refine .andThen (inStep_parts hkept n _ word) fun found => .bind .state fun s s' hs =>
      .bind (.files hkept) fun files files' hfiles => ?_
    have harguments : Field.arguments files s.directory = Field.arguments files' s'.directory := by
      rw [hs.directory]
      exact funext (Field.arguments_congr hfiles _)
    rw [harguments]
    exact .andThen (inStep_fields hkept n rest) fun _ => .pure rfl

theorem inStep_parts (hkept : c.Kept h h') (n : Nat) : ∀ (found : Fields) (parts : List Part),
    c.InStep n Eq (Run.parts h found parts) (Run.parts h' found parts)
  | found, [] => by
    unfold Run.parts
    exact .pure rfl
  | found, .literal text quoted :: rest => by
    unfold Run.parts
    exact inStep_parts hkept n _ rest
  | found, .param name fallback quoted :: rest => by
    unfold Run.parts
    exact .andThen (inStep_parameter hkept n name fallback) fun _ => inStep_parts hkept n _ rest
  | found, .subst script quoted :: rest => by
    unfold Run.parts
    exact .andThen (.substitution hkept fun hwired => inStep_list hkept n hwired script) fun _ =>
      inStep_parts hkept n _ rest

theorem inStep_text (hkept : c.Kept h h') (n : Nat) : ∀ parts : List Part,
    c.InStep n Eq (Run.text h parts) (Run.text h' parts)
  | [] => by
    unfold Run.text
    exact .pure rfl
  | .literal t _ :: rest => by
    unfold Run.text
    exact .andThen (inStep_text hkept n rest) fun _ => .pure rfl
  | .param name fallback _ :: rest => by
    unfold Run.text
    exact .andThen (inStep_parameter hkept n name fallback) fun _ =>
      .andThen (inStep_text hkept n rest) fun _ => .pure rfl
  | .subst script _ :: rest => by
    unfold Run.text
    exact .andThen (.substitution hkept fun hwired => inStep_list hkept n hwired script) fun _ =>
      .andThen (inStep_text hkept n rest) fun _ => .pure rfl

theorem inStep_parameter (hkept : c.Kept h h') (n : Nat) (name : String) : ∀ fallback : Option (List Part),
    c.InStep n Eq (Run.parameter h name fallback) (Run.parameter h' name fallback)
  | none => by
    unfold Run.parameter
    exact .bind .state fun s s' hs => .pure (by rw [hs.parameter?])
  | some fallback => by
    unfold Run.parameter
    refine .bind .state fun s s' hs => ?_
    rw [← hs.parameter?]
    dsimp only
    split
    · exact inStep_text hkept n fallback
    · exact .pure rfl

end

end Pairing
end Taskwork.Shell
