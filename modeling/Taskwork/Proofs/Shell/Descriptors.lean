/-
Redirections on a full table of descriptors. A shell keeps three streams only, and changes them where
a redirection is for one of them and names what it copies as `1` or `2`; every other redirection opens its
file, if it has one, and is dropped (`isFollowed`). With those left out, the streams are what the table has
for its first three descriptors, whichever list of redirections is gone through.
-/
import Taskwork.Proofs.Shell.Trees
import Taskwork.Proofs.Shell.Variables
import Mathlib.Logic.Function.Basic

namespace Taskwork.Shell

/-! ## The table -/

/-- What a descriptor is bound to. -/
inductive Descriptor where
  | reads (source : Source)
  | writes (sink : Sink)
  deriving DecidableEq, Repr

/-- What each descriptor is bound to, unless it is closed. -/
abbrev Descriptors := ℕ → Option Descriptor

/-- The table that has some streams for its first three descriptors, and is another table elsewhere. -/
def Streams.onto (streams : Streams) (table : Descriptors) : Descriptors
  | 0 => some (.reads streams.stdin)
  | 1 => some (.writes streams.stdout)
  | 2 => some (.writes streams.stderr)
  | n => table n

namespace Descriptors

/-- One redirection, with its target expanded: it binds its descriptor to the file that it opens, or to
what another descriptor is bound to. -/
def redirect (h : Handlers) (fd : ℕ) (kind : RedirectKind) (target : String) (table : Descriptors) :
    Act (Except (String × FileFault) Descriptors) :=
  match kind with
  | .read => do
    return (← Act.openFile h target .read).map fun handle =>
      Function.update table fd (some (.reads (.file handle)))
  | .write => do
    return (← Act.openFile h target .write).map fun handle =>
      Function.update table fd (some (.writes (.file handle)))
  | .append => do
    return (← Act.openFile h target .append).map fun handle =>
      Function.update table fd (some (.writes (.file handle)))
  | .duplicate =>
    return .ok ((Parser.descriptor? target.toList).elim table fun n => Function.update table fd (table n))
  | .writeBoth => do
    return (← Act.openFile h target .write).map fun handle =>
      Function.update (Function.update table 1 (some (.writes (.file handle)))) 2 (some (.writes (.file handle)))

/-- The table after some redirections, from left to right. Those that `binds` leaves out open their file,
but do not change it. -/
def redirections (h : Handlers) (binds : ℕ → RedirectKind → String → Bool) (table : Descriptors) :
    List Redirect → Act (Except (String × FileFault) Descriptors)
  | [] => return .ok table
  | ⟨fd, kind, target⟩ :: rest => do
    let target ← Run.text h target
    match ← redirect h fd kind target table with
    | .ok after => redirections h binds (if binds fd kind target then after else table) rest
    | .error fault => return .error fault

/-- The table after some redirections of which none is left out. -/
def all (h : Handlers) (table : Descriptors) (redirects : List Redirect) :
    Act (Except (String × FileFault) Descriptors) :=
  redirections h (fun _ _ _ => true) table redirects

end Descriptors

/-! ## Redirections that are followed -/

/-- Whether the shell does what the redirection says: it is for one of the streams, and copies one that is
named by its digit. A copy of the descriptor itself says nothing. -/
def isFollowed (fd : ℕ) : RedirectKind → String → Bool
  | .read, _ => fd == 0
  | .write, _ | .append, _ => fd == 1 || fd == 2
  | .duplicate, target =>
    (fd == 1 || fd == 2) && (target == "1" || target == "2") || Parser.descriptor? target.toList == some fd
  | .writeBoth, _ => true

/-- The same of a redirection as it is written. A descriptor to copy is always written plainly. -/
def Redirect.isFollowed (r : Redirect) : Bool := Shell.isFollowed r.fd r.kind ((Word.plain? r.target).getD "")

section Streams

variable (streams : Streams) (table : Descriptors)

@[simp] theorem onto_zero : streams.onto table 0 = some (.reads streams.stdin) := rfl
@[simp] theorem onto_one : streams.onto table 1 = some (.writes streams.stdout) := rfl
@[simp] theorem onto_two : streams.onto table 2 = some (.writes streams.stderr) := rfl

theorem update_onto_stdin (source : Source) :
    Function.update (streams.onto table) 0 (some (.reads source)) = { streams with stdin := source }.onto table := by
  funext n
  match n with
  | 0 | 1 | 2 | n + 3 => rfl

theorem update_onto_stdout (sink : Sink) :
    Function.update (streams.onto table) 1 (some (.writes sink)) = { streams with stdout := sink }.onto table := by
  funext n
  match n with
  | 0 | 1 | 2 | n + 3 => rfl

theorem update_onto_stderr (sink : Sink) :
    Function.update (streams.onto table) 2 (some (.writes sink)) = { streams with stderr := sink }.onto table := by
  funext n
  match n with
  | 0 | 1 | 2 | n + 3 => rfl

end Streams

/-! ## One redirection -/

section Step

variable (h : Handlers) (fd : ℕ) (kind : RedirectKind) (target : String) (streams : Streams) (table : Descriptors)

/-- What is made of an opened file may be made of it in two steps. -/
theorem opened_map {α β : Type} (mode : OpenMode) (f : ℕ → α) (g : α → β) :
    (Except.map g <$> (do return (← Act.openFile h target mode).map f) : Act (Except (String × FileFault) β)) =
      do return (← Act.openFile h target mode).map (g ∘ f) := by
  simp only [map_bind, map_pure]
  refine bind_congr fun opened => ?_
  cases opened <;> rfl

/-- A sink takes the place of an output stream as it takes that of the descriptor in the table. -/
theorem place_onto (sink : Sink) :
    (if fd == 1 || fd == 2 then Function.update (streams.onto table) fd (some (.writes sink)) else streams.onto table) =
      (if fd = 1 then { streams with stdout := sink }
        else if fd = 2 then { streams with stderr := sink } else streams).onto table := by
  by_cases hout : fd = 1
  · subst hout
    exact update_onto_stdout streams table sink
  · by_cases herr : fd = 2
    · subst herr
      exact update_onto_stderr streams table sink
    · simp [hout, herr]

/-- What a copy of another descriptor makes of the table. -/
def copied : Descriptors :=
  (Parser.descriptor? target.toList).elim (streams.onto table)
    fun n => Function.update (streams.onto table) fd (streams.onto table n)

/-- A copy of an output stream that is named by its digit. -/
theorem copied_digit {n : ℕ} {sink : Sink} (htarget : target = "1" ∨ target = "2")
    (hn : Parser.descriptor? target.toList = some n) (hsink : streams.onto table n = some (.writes sink))
    (houtput : n = 1 ∨ n = 2) :
    (if isFollowed fd .duplicate target then copied fd target streams table else streams.onto table) =
      (if fd = 1 then { streams with stdout := sink }
        else if fd = 2 then { streams with stderr := sink } else streams).onto table := by
  have hcopied : copied fd target streams table =
      Function.update (streams.onto table) fd (some (.writes sink)) := by
    rw [copied, hn, Option.elim_some, hsink]
  have hfollowed : isFollowed fd .duplicate target = true ↔ (fd == 1 || fd == 2) = true := by
    simp only [isFollowed, hn, Bool.or_eq_true, Bool.and_eq_true, beq_iff_eq, Option.some.injEq]
    constructor
    · rintro (⟨hfd, -⟩ | hfd)
      · exact hfd
      · omega
    · exact fun hfd => .inl ⟨hfd, htarget⟩
  rw [hcopied, ← place_onto]
  exact ite_congr (propext hfollowed) (fun _ => rfl) fun _ => rfl

/-- Another spelling is dropped, which does not show where the descriptor is made a copy of itself. -/
theorem copied_other (hone : target ≠ "1") (htwo : target ≠ "2") :
    (if isFollowed fd .duplicate target then copied fd target streams table else streams.onto table) =
      streams.onto table := by
  have hfollowed : isFollowed fd .duplicate target = (Parser.descriptor? target.toList == some fd) := by
    simp [isFollowed, hone, htwo]
  rw [hfollowed]
  split
  · rename_i hself
    rw [copied, beq_iff_eq.1 hself]
    exact Function.update_eq_self fd _
  · rfl

theorem duplicate_onto :
    (Except.map (fun after => if isFollowed fd .duplicate target then after else streams.onto table) <$>
        Descriptors.redirect h fd .duplicate target (streams.onto table)) =
      Except.map (·.onto table) <$> Act.redirect h fd .duplicate target streams := by
  have hcopied {after : Streams} (hact : Act.redirect h fd .duplicate target streams = pure (.ok after))
      (htable : (if isFollowed fd .duplicate target then copied fd target streams table else streams.onto table) =
        after.onto table) :
      (Except.map (fun after => if isFollowed fd .duplicate target then after else streams.onto table) <$>
          Descriptors.redirect h fd .duplicate target (streams.onto table)) =
        Except.map (·.onto table) <$> Act.redirect h fd .duplicate target streams := by
    rw [hact, map_pure, Except.map, ← htable]
    rfl
  by_cases hone : target = "1"
  · subst hone
    exact hcopied rfl (copied_digit fd _ streams table (.inl rfl) rfl rfl (.inl rfl))
  by_cases htwo : target = "2"
  · subst htwo
    exact hcopied rfl (copied_digit fd _ streams table (.inr rfl) rfl rfl (.inr rfl))
  exact hcopied (Act.redirect_other h fd streams hone htwo) (copied_other fd target streams table hone htwo)

/-- The streams change as the first three descriptors of the table do, if the redirection is followed, and
else not at all. -/
theorem redirect_onto :
    (Except.map (fun after => if isFollowed fd kind target then after else streams.onto table) <$>
        Descriptors.redirect h fd kind target (streams.onto table)) =
      Except.map (·.onto table) <$> Act.redirect h fd kind target streams := by
  -- what an opened file is made into is the same, so the file may be opened first
  have hopens {mode : OpenMode} {f g : ℕ → Descriptors} (hfg : ∀ handle, f handle = g handle) :
      (do return (← Act.openFile h target mode).map f : Act (Except (String × FileFault) Descriptors)) =
        do return (← Act.openFile h target mode).map g := by
    rw [funext hfg]
  cases kind with
  | duplicate => exact duplicate_onto h fd target streams table
  | read =>
    refine (opened_map ..).trans ((hopens fun handle => ?_).trans (opened_map ..).symm)
    by_cases hfd : fd = 0
    · subst hfd
      exact update_onto_stdin streams table _
    · simp [isFollowed, hfd]
  | write =>
    refine (opened_map ..).trans ((hopens fun handle => ?_).trans (opened_map ..).symm)
    exact place_onto fd streams table (.file handle)
  | append =>
    refine (opened_map ..).trans ((hopens fun handle => ?_).trans (opened_map ..).symm)
    exact place_onto fd streams table (.file handle)
  | writeBoth =>
    refine (opened_map ..).trans ((hopens fun handle => ?_).trans (opened_map ..).symm)
    show Function.update (Function.update _ 1 _) 2 _ = _
    rw [update_onto_stdout, update_onto_stderr]
    rfl

end Step

/-! ## Lists of redirections -/

section Lists

variable (h : Handlers) {binds : ℕ → RedirectKind → String → Bool} (streams : Streams) (table : Descriptors)

/-- Going on with the rest of a list after a redirection. -/
theorem bind_onto {fd : ℕ} {kind : RedirectKind} {target : String} {rest : List Redirect}
    (hbinds : binds fd kind target = isFollowed fd kind target)
    (hrest : ∀ streams : Streams, Descriptors.redirections h binds (streams.onto table) rest =
      Except.map (·.onto table) <$> Run.redirections h streams rest) :
    (Descriptors.redirect h fd kind target (streams.onto table) >>= fun
      | .ok after => Descriptors.redirections h binds (if binds fd kind target then after else streams.onto table) rest
      | .error fault => return .error fault) =
      Except.map (·.onto table) <$> (Act.redirect h fd kind target streams >>= fun
        | .ok streams => Run.redirections h streams rest
        | .error fault => return .error fault) := by
  have hstep := congrArg (· >>= fun
    | .ok after => Descriptors.redirections h binds after rest
    | .error fault => return .error fault) (redirect_onto h fd kind target streams table)
  rw [bind_map_left, bind_map_left] at hstep
  rw [map_bind, hbinds]
  refine Eq.trans (bind_congr fun opened => ?_) (hstep.trans (bind_congr fun opened => ?_))
  · cases opened <;> rfl
  · cases opened with
    | error fault => rfl
    | ok after => exact hrest after

/-- The streams after a list of redirections are those of the table that only the followed ones change. -/
theorem redirections_onto {redirects : List Redirect}
    (hbinds : ∀ r ∈ redirects, ∀ w text w', Run.text h r.target w = (.ok text, w') →
      binds r.fd r.kind text = isFollowed r.fd r.kind text) :
    Descriptors.redirections h binds (streams.onto table) redirects =
      Except.map (·.onto table) <$> Run.redirections h streams redirects := by
  induction redirects generalizing streams with
  | nil =>
    unfold Descriptors.redirections Run.redirections
    rfl
  | cons r rest ih =>
    obtain ⟨fd, kind, target⟩ := r
    obtain ⟨hr, hrest⟩ := List.forall_mem_cons.1 hbinds
    unfold Descriptors.redirections Run.redirections
    rw [map_bind]
    funext w
    rw [Stateful.bind_apply, Stateful.bind_apply]
    rcases htext : Run.text h target w with ⟨_ | text, w'⟩
    · rfl
    · exact congrFun (bind_onto h streams table (hr w text w' htext) fun streams => ih streams hrest) w'

end Lists

/-- What is written plainly is expanded to itself. -/
theorem text_of_plain? (h : Handlers) {word : List Part} {text : String} (hword : Word.plain? word = some text) :
    Run.text h word = pure text := by
  induction word generalizing text with
  | nil =>
    unfold Word.plain? at hword
    unfold Run.text
    rw [Option.some.inj hword]
  | cons part rest ih =>
    cases part with
    | literal t quoted =>
      cases quoted with
      | false =>
        unfold Word.plain? at hword
        obtain ⟨more, hmore, rfl⟩ := Option.map_eq_some_iff.1 hword
        unfold Run.text
        rw [ih hmore]
        rfl
      | true => cases hword
    | param => cases hword
    | subst => cases hword

/-- A redirection that is followed as it is written is followed whatever its target is expanded to. -/
theorem Redirect.isFollowed_expanded {r : Redirect} (hr : r.isFollowed = true) {h : Handlers} {w w' : World}
    {text : String} (htext : Run.text h r.target w = (.ok text, w')) : Shell.isFollowed r.fd r.kind text = true := by
  obtain ⟨fd, kind, target⟩ := r
  change Shell.isFollowed fd kind ((Word.plain? target).getD "") = true at hr
  cases kind with
  | read | write | append | writeBoth => exact hr
  | duplicate =>
    cases hplain : Word.plain? target with
    | none =>
      rw [hplain] at hr
      have hempty : Parser.descriptor? [] = none := by decide
      simp [Shell.isFollowed, hempty] at hr
    | some t =>
      rw [hplain] at hr
      rw [text_of_plain? h hplain, Stateful.pure_apply] at htext
      have ht : t = text := Except.ok.inj (congrArg Prod.fst htext)
      exact ht ▸ hr

/-! ## Exactly the followed ones -/

/-- Handlers that open every file with the same handle. -/
def openAll : Handlers := ⟨fun _ host => (host, .ok default), fun _ _ _ host => (host, .ok 0)⟩

/-- A table in which no two descriptors are bound to the same, and none to the file with handle 0. -/
def apart : Descriptors := Streams.onto ⟨.null, .stdout, .stderr⟩ fun n => some (.writes (.file n))

theorem apart_injective : Function.Injective apart := by
  intro n m h
  match n, m with
  | 0, 0 | 1, 1 | 2, 2 => rfl
  | n + 3, m + 3 =>
    have hfile : (Sink.file (n + 3)) = Sink.file (m + 3) := Descriptor.writes.inj (Option.some.inj h)
    exact Sink.file.inj hfile
  | 0, 1 | 0, 2 | 1, 0 | 1, 2 | 2, 0 | 2, 1 | 0, m + 3 | 1, m + 3 | 2, m + 3 | n + 3, 0 | n + 3, 1 | n + 3, 2 => cases h

theorem apart_ne_opened (fd : ℕ) :
    some (.reads (.file 0)) ≠ apart fd ∧ some (.writes (.file 0)) ≠ apart fd := by
  match fd with
  | 0 | 1 | 2 | n + 3 => exact ⟨by rintro ⟨⟩, by rintro ⟨⟩⟩

/-- What a redirection that is not followed binds its descriptor to is not what it was bound to. -/
theorem redirect_apart {fd : ℕ} {kind : RedirectKind} {target : String}
    (hnumber : kind = .duplicate → (Parser.descriptor? target.toList).isSome = true)
    (hdropped : isFollowed fd kind target = false) (w : World) :
    ∃ after w', Descriptors.redirect openAll fd kind target apart w = (.ok (.ok after), w') ∧ after fd ≠ apart fd := by
  have hopened {opened : Descriptor} (hne : some opened ≠ apart fd) :
      Function.update apart fd (some opened) fd ≠ apart fd := by
    rw [Function.update_self]
    exact hne
  cases kind with
  | read => exact ⟨_, _, rfl, hopened (apart_ne_opened fd).1⟩
  | write => exact ⟨_, _, rfl, hopened (apart_ne_opened fd).2⟩
  | append => exact ⟨_, _, rfl, hopened (apart_ne_opened fd).2⟩
  | writeBoth => cases hdropped
  | duplicate =>
    obtain ⟨n, hn⟩ := Option.isSome_iff_exists.1 (hnumber rfl)
    have hself : n ≠ fd := by
      rintro rfl
      simp [isFollowed, hn] at hdropped
    refine ⟨Function.update apart fd (apart n), w, ?_, ?_⟩
    · unfold Descriptors.redirect
      rw [hn]
      rfl
    · rw [Function.update_self]
      exact fun heq => hself (apart_injective heq)

/-- The shell does what a redirection of a full table does, from all streams and with all files, if the
redirection is followed, and only then. -/
theorem isFollowed_iff {fd : ℕ} {kind : RedirectKind} {target : String}
    (hnumber : kind = .duplicate → (Parser.descriptor? target.toList).isSome = true) :
    isFollowed fd kind target = true ↔ ∀ (h : Handlers) (streams : Streams) (table : Descriptors),
      Descriptors.redirect h fd kind target (streams.onto table) =
        Except.map (·.onto table) <$> Act.redirect h fd kind target streams := by
  constructor
  · intro hfollowed h streams table
    have hid : (Except.map fun after : Descriptors => after) = (id : Except (String × FileFault) Descriptors → _) := by
      funext opened
      cases opened <;> rfl
    rw [← redirect_onto, hfollowed]
    simp only [if_true, hid, id_map]
  · intro hall
    by_contra hdropped
    rw [Bool.not_eq_true] at hdropped
    obtain ⟨after, w', hafter, hne⟩ := redirect_apart hnumber hdropped default
    have hsame := congrFun (hall openAll ⟨.null, .stdout, .stderr⟩ fun n => some (.writes (.file n))) default
    rw [← redirect_onto, hdropped] at hsame
    have hkept : (Except.map (fun _ => apart) <$> Descriptors.redirect openAll fd kind target apart) default =
        (.ok (.ok apart), w') := by
      rw [map_eq_pure_bind, Stateful.bind_ok hafter]
      rfl
    have heq : after = apart :=
      Except.ok.inj (Except.ok.inj (congrArg Prod.fst ((hafter.symm.trans hsame).trans hkept)))
    exact hne (congrFun heq fd)

/-- Whichever redirections are gone through, the streams are what a full table has for its first three
descriptors when only the followed ones change it, with the same files opened on the way and the same
fault if one is not had; so where all of them are followed, they are what the table has that leaves none
out. A redirection by itself does what it does to the table exactly if it is followed. -/
theorem redirections_follow_table (h : Handlers) (streams : Streams) (table : Descriptors)
    (redirects : List Redirect) :
    Descriptors.redirections h isFollowed (streams.onto table) redirects =
        Except.map (·.onto table) <$> Run.redirections h streams redirects ∧
      ((∀ r ∈ redirects, r.isFollowed = true) → Descriptors.all h (streams.onto table) redirects =
        Except.map (·.onto table) <$> Run.redirections h streams redirects) ∧
      ∀ {fd : ℕ} {kind : RedirectKind} {target : String},
        (kind = .duplicate → (Parser.descriptor? target.toList).isSome = true) →
        (isFollowed fd kind target = true ↔ ∀ (h : Handlers) (streams : Streams) (table : Descriptors),
          Descriptors.redirect h fd kind target (streams.onto table) =
            Except.map (·.onto table) <$> Act.redirect h fd kind target streams) := by
  refine ⟨redirections_onto h streams table fun _ _ _ _ _ _ => rfl, fun hfollowed => ?_, isFollowed_iff⟩
  exact redirections_onto h streams table fun r hr _ _ _ htext => (Redirect.isFollowed_expanded (hfollowed r hr) htext).symm

/-- `>f 2>&1` -/
def outputAndErrors : List Redirect := [⟨1, .write, [.literal "f" false]⟩, ⟨2, .duplicate, [.literal "1" false]⟩]

theorem outputAndErrors_follow :
    (∀ r ∈ outputAndErrors, r.isFollowed = true) ∧
      Descriptors.all sampleHandlers (rootWorld.state.streams.onto fun _ => none) outputAndErrors =
        Except.map (·.onto fun _ => none) <$> Run.redirections sampleHandlers rootWorld.state.streams outputAndErrors ∧
      (Parser.descriptor? "1".toList).isSome = true ∧ isFollowed 2 .duplicate "1" = true ∧
      Descriptors.redirect sampleHandlers 2 .duplicate "1" (rootWorld.state.streams.onto fun _ => none) =
        Except.map (·.onto fun _ => none) <$> Act.redirect sampleHandlers 2 .duplicate "1" rootWorld.state.streams := by
  have hfollow := redirections_follow_table sampleHandlers rootWorld.state.streams (fun _ => none) outputAndErrors
  have hall : ∀ r ∈ outputAndErrors, r.isFollowed = true := by decide
  have hcopy : isFollowed 2 .duplicate "1" = true := by decide
  exact ⟨hall, hfollow.2.1 hall, by decide, hcopy, (hfollow.2.2 fun _ => by decide).1 hcopy _ _ _⟩

/-- `>f 2>&01` -/
def paddedCopy : List Redirect := [⟨1, .write, [.literal "f" false]⟩, ⟨2, .duplicate, [.literal "01" false]⟩]

/-- A copy of descriptor 1 that is named `01` is read without complaint and dropped: the errors still go to the
standard error, and a full table has the file there. -/
theorem paddedCopy_is_dropped :
    Script.ofString "err x >f 2>&01" = .ok
        [⟨⟨false, [.simple [] [[.literal "err" false], [.literal "x" false]] paddedCopy]⟩, [], "err x >f 2>&01", 1⟩] ∧
      (Run.redirections sampleHandlers rootWorld.state.streams paddedCopy rootWorld).1 = .ok (.ok ⟨.null, .file 0, .stderr⟩) ∧
      ∃ table w', Descriptors.all sampleHandlers (rootWorld.state.streams.onto fun _ => none) paddedCopy rootWorld =
        (.ok (.ok table), w') ∧ table 1 = some (.writes (.file 0)) ∧ table 2 = some (.writes (.file 0)) := by
  refine ⟨by with_unfolding_all rfl, by cbv, ?_⟩
  obtain ⟨w', hopened⟩ : ∃ w', Act.openFile sampleHandlers "f" .write rootWorld = (.ok (.ok 0), w') :=
    ⟨_, Prod.ext (by cbv) rfl⟩
  have hfirst (table : Descriptors) : Descriptors.redirect sampleHandlers 1 .write "f" table rootWorld =
      (.ok (.ok (Function.update table 1 (some (.writes (.file 0))))), w') := Stateful.bind_ok hopened
  have htext (text : String) (w : World) : Run.text sampleHandlers [.literal text false] w = (.ok text, w) := by
    have hplain : Word.plain? [.literal text false] = some text := by simp [Word.plain?]
    rw [text_of_plain? sampleHandlers hplain, Stateful.pure_apply]
  let opened := Function.update (rootWorld.state.streams.onto fun _ => none) 1 (some (.writes (.file 0)))
  refine ⟨Function.update opened 2 (opened 1), w', ?_, rfl, rfl⟩
  unfold Descriptors.all paddedCopy Descriptors.redirections
  refine (Stateful.bind_ok (htext "f" rootWorld)).trans ((Stateful.bind_ok (hfirst _)).trans ?_)
  show Descriptors.redirections sampleHandlers _ opened _ w' = _
  unfold Descriptors.redirections
  exact Stateful.bind_ok (htext "01" w')

end Taskwork.Shell
