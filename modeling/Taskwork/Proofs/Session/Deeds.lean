/-
What is done in a session. A call comes down to deeds: it configures the project, because it is asked to
or because the recipe has changed, and it runs tasks. The deeds of a call are written down as it does them,
each with the host it begins on, and nothing else is different. Between calls the project is edited.
-/
import Taskwork.Proofs.Stateful
import Taskwork.Proofs.Table
import Taskwork.Session.Basic

namespace Taskwork.Session

variable {h : Shell.Handlers} {s : Session}

/-! ## Configuring and loading -/

theorem evaluate_eq {options : Table} {host evaluated : Host} {result : Except Recipe.EvaluationFault Recipe.Evaluation}
    (heval : Recipe.evaluate h s.script s.projectRoot options false host = (evaluated, result)) :
    evaluate h s options false host = (result.mapError .recipe, evaluated) := by
  unfold evaluate Act.of
  rw [heval]

/-- Configuring ends where the recipe cannot be evaluated. -/
theorem configure_error {options : Table} {host evaluated : Host} {f : Recipe.EvaluationFault}
    (heval : Recipe.evaluate h s.script s.projectRoot options false host = (evaluated, .error f)) :
    configure h s options host = (.error (.recipe f), evaluated) := Stateful.bind_error (evaluate_eq heval)

/-- Configuring evaluates the recipe and writes the cache. -/
theorem configure_ok {options : Table} {host evaluated : Host} {e : Recipe.Evaluation} {files : Files}
    (heval : Recipe.evaluate h s.script s.projectRoot options false host = (evaluated, .ok e))
    (hsave : Cache.save evaluated.files s.cachePath options e.registry = .ok files) :
    configure h s options host = (.ok e.registry, { evaluated with files }.report .info "configured") := by
  have hstore : store s options e.registry evaluated = (.ok (), { evaluated with files }) := by
    unfold store Act.of
    dsimp only
    rw [hsave]
    rfl
  have hconfigure : configure h s options host = _ := Stateful.bind_ok (evaluate_eq heval)
  rw [hconfigure]
  exact Stateful.bind_ok hstore

theorem ofFiles_ok {α ε : Type} {cause : ε → Fault} {look : Files → Except ε α} {host : Host} {a : α}
    (hlook : look host.files = .ok a) : Act.ofFiles cause look host = (.ok a, host) := by
  unfold Act.ofFiles Act.of
  dsimp only
  rw [hlook]
  rfl

theorem ofFiles_error {α ε : Type} {cause : ε → Fault} {look : Files → Except ε α} {host : Host} {f : ε}
    (hlook : look host.files = .error f) : Act.ofFiles cause look host = (.error (cause f), host) := by
  unfold Act.ofFiles Act.of
  dsimp only
  rw [hlook]
  rfl

theorem cached_some {host : Host} {content : Table × Registry}
    (hcache : Cache.load host.files s.cachePath = .ok (some content)) :
    s.cached host = (.ok content, host) := by
  unfold cached
  rw [Stateful.bind_ok (ofFiles_ok hcache)]
  rfl

/-- The cache is only looked at. -/
theorem cached_cases (s : Session) (host : Host) :
    (∃ f, s.cached host = (.error f, host)) ∨
      ∃ content, Cache.load host.files s.cachePath = .ok (some content) := by
  rcases hcache : Cache.load host.files s.cachePath with f | content
  · unfold cached
    exact .inl ⟨_, Stateful.bind_error (ofFiles_error hcache)⟩
  cases content with
  | none =>
    unfold cached
    rw [Stateful.bind_ok (ofFiles_ok hcache)]
    exact .inl ⟨_, rfl⟩
  | some content => exact .inr ⟨content, rfl⟩

/-! ## Deeds -/

variable (h s)

inductive Deed where
  /-- Configuring with some options; they were asked for or are those in the cache. -/
  | configured (asked : Bool) (options : Table) (before : Host)
  | ran (settings : Execution.Settings) (r : Registry) (name : String) (before : Host)

/-- Doing something in a session and writing down its deeds. -/
abbrev Noted (α : Type) := ExceptT Fault (StateM (Host × List Deed)) α

namespace Noted

/-- Does something that is no deed. -/
def silently {α : Type} (act : Act α) : Noted α := fun (host, ds) =>
  let (result, host) := act host
  (result, (host, ds))

/-- Does something that is a deed. -/
def noting {α : Type} (deed : Host → Deed) (act : Act α) : Noted α := fun (host, ds) =>
  let (result, host') := act host
  (result, (host', ds ++ [deed host]))

def configure (asked : Bool) (options : Table) : Noted Registry :=
  noting (.configured asked options) (Session.configure h s options)

def load : Noted Registry := do
  let (options, r) ← silently s.cached
  let scriptTime ← silently (Act.ofFiles .file fun fs => fs.modified s.script)
  let cacheTime ← silently (Act.ofFiles .file fun fs => fs.modified s.cachePath)
  if scriptTime ≤ cacheTime then return r
  else
    silently (Act.tell "script changed, re-evaluating")
    configure h s false options

def runAll (options : Table) (settings : Execution.Settings) :
    Option Registry → List String → Noted (List Execution.Report)
  | _, [] => return []
  | known, name :: rest => do
    if name = Task.reservedName then
      let r ← configure h s true options
      runAll options settings (some r) rest
    else
      let r ← match known with
        | some r => pure r
        | none => load h s
      let report ← noting (.ran settings r name) (Act.of .execution (Execution.run h settings r name))
      return report :: (← runAll options settings (some r) rest)

def run (tasks : List String) (options : Table) (settings : Execution.Settings) :
    Noted (List Execution.Report) := do
  if !options.isEmpty && tasks != [Task.reservedName] then
    throw (.project .optionsWithoutConfigure)
  runAll h s options settings none tasks

theorem noting_snd {α : Type} (deed : Host → Deed) (act : Act α) (host : Host) (ds : List Deed) :
    (noting deed act (host, ds)).2 = ((act host).2, ds ++ [deed host]) := rfl

/-! ## Without what is noted -/

/-- What is noted does what another act does. -/
def Does {α : Type} (noted : Noted α) (act : Act α) : Prop :=
  ∀ host ds, ((noted (host, ds)).1, (noted (host, ds)).2.1) = act host

theorem does_silently {α : Type} (act : Act α) : Does (silently act) act := fun _ _ => rfl

theorem does_noting {α : Type} (deed : Host → Deed) (act : Act α) : Does (noting deed act) act := fun _ _ => rfl

theorem does_pure {α : Type} (a : α) : Does (pure a) (pure a) := fun _ _ => rfl

theorem Does.bind {α β : Type} {x : Noted α} {act : Act α} {f : α → Noted β} {g : α → Act β}
    (hx : Does x act) (hf : ∀ a, Does (f a) (g a)) : Does (x >>= f) (act >>= g) := by
  intro host ds
  rw [Stateful.bind_apply, Stateful.bind_apply, ← hx host ds]
  rcases x (host, ds) with ⟨_ | a, host', ds'⟩
  · rfl
  · exact hf a host' ds'

theorem does_configure (asked : Bool) (options : Table) :
    Does (configure h s asked options) (Session.configure h s options) := does_noting _ _

theorem does_load : Does (load h s) (Session.load h s) := by
  refine (does_silently _).bind fun content => (does_silently _).bind fun scriptTime =>
    (does_silently _).bind fun cacheTime => ?_
  split
  · exact does_pure _
  · exact (does_silently _).bind fun _ => does_configure h s false _

theorem does_runAll (options : Table) (settings : Execution.Settings) :
    ∀ (known : Option Registry) (names : List String),
      Does (runAll h s options settings known names) (Session.runAll h s options settings known names)
  | _, [] => does_pure []
  | known, name :: rest => by
    -- the first task and the rest, once the tasks of the project are known
    have hrun (r : Registry) : Does
        (noting (.ran settings r name) (Act.of .execution (Execution.run h settings r name)) >>= fun report =>
          runAll h s options settings (some r) rest >>= fun reports => pure (report :: reports))
        (Act.of .execution (Execution.run h settings r name) >>= fun report =>
          Session.runAll h s options settings (some r) rest >>= fun reports => pure (report :: reports)) :=
      (does_noting _ _).bind fun report => (does_runAll options settings (some r) rest).bind fun reports => does_pure _
    unfold runAll Session.runAll
    split
    · exact (does_configure h s true options).bind fun r => does_runAll options settings (some r) rest
    · cases known with
      | some r => exact (does_pure r).bind hrun
      | none => exact (does_load h s).bind hrun

theorem does_run (tasks : List String) (options : Table) (settings : Execution.Settings) :
    Does (run h s tasks options settings) (Session.run h s tasks options settings) := by
  unfold run Session.run
  dsimp only
  split
  · exact fun _ _ => rfl
  · exact does_runAll h s options settings none tasks

/-! ## Loading -/

theorem silently_eq {α : Type} {act : Act α} {host host' : Host} {result : Except Fault α}
    (hact : act host = (result, host')) (ds : List Deed) : silently act (host, ds) = (result, (host', ds)) := by
  unfold silently
  dsimp only
  rw [hact]

variable {h s}

/-- Loading is decided by the times of the recipe and of the cache. -/
theorem load_of_cached {host : Host} {options : Table} {r : Registry} {scriptTime cacheTime : Instant}
    (hcache : Cache.load host.files s.cachePath = .ok (some (options, r)))
    (hscript : host.files.modified s.script = .ok scriptTime)
    (hkept : host.files.modified s.cachePath = .ok cacheTime) (ds : List Deed) :
    load h s (host, ds) = if scriptTime ≤ cacheTime then (.ok r, (host, ds))
      else configure h s false options (host.report .info "script changed, re-evaluating", ds) := by
  unfold load
  rw [Stateful.bind_ok (silently_eq (cached_some hcache) ds)]
  dsimp only
  rw [Stateful.bind_ok (silently_eq (ofFiles_ok hscript) ds), Stateful.bind_ok (silently_eq (ofFiles_ok hkept) ds)]
  split
  · rfl
  · exact Stateful.bind_ok rfl

variable (h s)

/-- Loading fails without having done anything, or finds a cache and the times. -/
theorem load_cases (host : Host) (ds : List Deed) :
    (∃ f, load h s (host, ds) = (.error f, (host, ds))) ∨
    ∃ options r scriptTime cacheTime, Cache.load host.files s.cachePath = .ok (some (options, r)) ∧
      host.files.modified s.script = .ok scriptTime ∧ host.files.modified s.cachePath = .ok cacheTime := by
  rcases cached_cases s host with ⟨f, hcached⟩ | ⟨⟨options, r⟩, hcache⟩
  · exact .inl ⟨f, Stateful.bind_error (silently_eq hcached ds)⟩
  rcases hscript : host.files.modified s.script with f | scriptTime
  · unfold load
    rw [Stateful.bind_ok (silently_eq (cached_some hcache) ds)]
    exact .inl ⟨_, Stateful.bind_error (silently_eq (ofFiles_error hscript) ds)⟩
  rcases hkept : host.files.modified s.cachePath with f | cacheTime
  · unfold load
    rw [Stateful.bind_ok (silently_eq (cached_some hcache) ds)]
    dsimp only
    rw [Stateful.bind_ok (silently_eq (ofFiles_ok hscript) ds)]
    exact .inl ⟨_, Stateful.bind_error (silently_eq (ofFiles_error hkept) ds)⟩
  exact .inr ⟨options, r, scriptTime, cacheTime, hcache, rfl, rfl⟩

end Noted

/-! ## Calls -/

inductive Call where
  | configure (options : Table)
  | load
  | run (tasks : List String) (options : Table) (settings : Execution.Settings)

/-- The options it is made with. -/
def Call.options : Call → Table
  | .configure options => options
  | .load => []
  | .run _ options _ => options

/-- The host after a call, be it successful or not. -/
def Call.after : Call → Host → Host
  | .configure options, host => (Session.configure h s options host).2
  | .load, host => (Session.load h s host).2
  | .run tasks options settings, host => (Session.run h s tasks options settings host).2

/-- The deeds after a call, where some were done before. -/
def Call.note : Call → Host → List Deed → List Deed
  | .configure options, host, ds => (Noted.configure h s true options (host, ds)).2.2
  | .load, host, ds => (Noted.load h s (host, ds)).2.2
  | .run tasks options settings, host, ds => (Noted.run h s tasks options settings (host, ds)).2.2

/-- What was done since a session began, the first deed first, and where it led: there are calls one after
another, and edits between them that may change everything but the cache. -/
inductive History (start : Host) : List Deed → Host → Prop
  | start : History start [] start
  | call {ds : List Deed} {host : Host} (hist : History start ds host) (c : Call) (ho : c.options.Ordered) :
    History start (c.note h s host ds) (c.after h s host)
  | edit {ds : List Deed} {host host' : Host} (hist : History start ds host)
    (hcache : host'.files.bytesAt s.cachePath = host.files.bytesAt s.cachePath) : History start ds host'

/-! ## One call after another -/

variable {h s} {start host host' : Host} {ds ds' : List Deed} {options : Table}

theorem History.configure {result : Except Fault Registry} (hist : History h s start ds host) (ho : options.Ordered)
    (hconfigure : Session.configure h s options host = (result, host')) :
    History h s start (ds ++ [Deed.configured true options host]) host' := by
  have hnote : Call.note h s (.configure options) host ds = ds ++ [Deed.configured true options host] := by
    rw [Call.note, Noted.configure, Noted.noting_snd]
  have hcall := hist.call (.configure options) ho
  rwa [show Call.after h s (.configure options) host = host' from congrArg Prod.snd hconfigure, hnote] at hcall

theorem History.load (hist : History h s start ds host) (hload : (Noted.load h s (host, ds)).2 = (host', ds')) :
    History h s start ds' host' := by
  have hdoes := congrArg Prod.snd (Noted.does_load h s host ds)
  have hcall := hist.call .load Table.ordered_nil
  rwa [show Call.after h s .load host = host' from hdoes.symm.trans (congrArg Prod.fst hload),
    show Call.note h s .load host ds = ds' from congrArg Prod.snd hload] at hcall

/-- A run of one task that begins by loading. -/
theorem History.run {r : Registry} {name : String} {settings : Execution.Settings}
    {result : Except Execution.Fault Execution.Report} (hist : History h s start ds host)
    (hname : name ≠ Task.reservedName) (hload : Noted.load h s (host, ds) = (.ok r, (host, ds)))
    (hrun : Execution.run h settings r name host = (host', result)) :
    History h s start (ds ++ [Deed.ran settings r name host]) host' := by
  have hnoted : (Noted.run h s [name] [] settings (host, ds)).2 = (host', ds ++ [Deed.ran settings r name host]) := by
    unfold Noted.run
    dsimp only
    rw [if_neg (by simp)]
    unfold Noted.runAll
    rw [if_neg hname]
    dsimp only
    rw [Stateful.bind_ok hload, Stateful.bind_apply, Noted.noting]
    unfold Act.of
    dsimp only
    rw [hrun]
    cases result <;> rfl
  have hdoes := congrArg Prod.snd (Noted.does_run h s [name] [] settings host ds)
  have hcall := hist.call (.run [name] [] settings) Table.ordered_nil
  rwa [show Call.after h s (.run [name] [] settings) host = host' from
      hdoes.symm.trans (congrArg Prod.fst hnoted),
    show Call.note h s (.run [name] [] settings) host ds = _ from congrArg Prod.snd hnoted] at hcall

end Taskwork.Session
