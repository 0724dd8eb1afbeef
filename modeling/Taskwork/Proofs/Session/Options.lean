/-
Options stay with a project. Of all that is done in a session only configuring that succeeds writes the
cache, and it writes the options it was done with; that loading configures as well does not matter, since
it takes the options from the cache. So at every time the cache holds the options of the last configuring
that was asked for and succeeded, if there was one, with a registry the recipe gave for them (`Kept`).
-/
import Taskwork.Proofs.Execution.Parsing
import Taskwork.Proofs.Session.Deeds

namespace Taskwork.Session

variable (h : Shell.Handlers) (s : Session)

/-! ## The cache after some deeds -/

/-- What runs in a deed leaves the cache as it is, and where a cache is to be written it can be. -/
def Deed.Undisturbing : Deed → Prop
  | .configured _ options before =>
    let evaluated := Recipe.evaluate h s.script s.projectRoot options false before
    evaluated.1.files.bytesAt s.cachePath = before.files.bytesAt s.cachePath ∧
      ∀ e, evaluated.2 = .ok e → Cache.Countable (Cache.encode options e.registry).length ∧
        ∃ files, Cache.save evaluated.1.files s.cachePath options e.registry = .ok files
  | .ran settings r name before =>
    (Execution.run h settings r name before).1.files.bytesAt s.cachePath = before.files.bytesAt s.cachePath

/-- The options of a deed that was asked to configure the project and did. -/
def Deed.asked? : Deed → Option Table
  | .configured true options before => if (configure h s options before).1.isOk then some options else none
  | _ => none

/-- The options of the last configuring that was asked for and succeeded. -/
def lastOptions (ds : List Deed) : Option Table := (ds.filterMap (Deed.asked? h s)).getLast?

/-- The registry is what the recipe gave in one of the deeds for just these options. -/
def Gave (ds : List Deed) (options : Table) (r : Registry) : Prop :=
  ∃ asked before after e, .configured asked options before ∈ ds ∧
    Recipe.evaluate h s.script s.projectRoot options false before = (after, .ok e) ∧ e.registry = r

/-- The cache a session has kept. -/
structure Holds (ds : List Deed) (host : Host) (options : Table) : Prop where
  ordered : options.Ordered
  cache : ∃ r, host.files.bytesAt s.cachePath = .ok (Cache.encode options r) ∧
    Cache.Countable (Cache.encode options r).length ∧ Gave h s ds options r

/-- There is a cache since the project was first configured, with the options it was last configured with. -/
def Kept (ds : List Deed) (host : Host) : Prop :=
  match lastOptions h s ds with
  | none => host.files.bytesAt s.cachePath = .error .notFound
  | some options => Holds h s ds host options

variable {h s} {ds : List Deed} {host : Host} {options : Table}

theorem lastOptions_append (d : Deed) :
    lastOptions h s (ds ++ [d]) = (d.asked? h s).or (lastOptions h s ds) := by
  unfold lastOptions
  rw [List.filterMap_append, List.filterMap_cons, List.filterMap_nil]
  cases d.asked? h s <;> simp

theorem Gave.built {r : Registry} (hr : Gave h s ds options r) : Recipe.Built r := by
  obtain ⟨asked, before, after, e, -, heval, rfl⟩ := hr
  exact Recipe.built_of_evaluate heval

theorem Holds.load (hc : Holds h s ds host options) :
    ∃ r, Cache.load host.files s.cachePath = .ok (some (options, r)) ∧ Gave h s ds options r := by
  obtain ⟨r, hbytes, hn, hgave⟩ := hc.cache
  refine ⟨r, ?_, hgave⟩
  have hdecode := hgave.built.decode_encode hc.ordered hn []
  rw [List.append_nil] at hdecode
  rw [Cache.load_of_bytesAt hbytes, hdecode]

namespace Kept

/-- What is left to a cache to write. -/
theorem writable (hk : Kept h s ds host) :
    ∃ old, host.files.bytesAt s.cachePath = .error .notFound ∨
      host.files.bytesAt s.cachePath = .ok old ∧ old ≠ [] := by
  unfold Kept at hk
  split at hk
  · exact ⟨[], .inl hk⟩
  · obtain ⟨r, hbytes, -⟩ := hk.cache
    exact ⟨_, .inr ⟨hbytes, Cache.encode_ne_nil _ _⟩⟩

/-- A deed that is no success with other options, and leaves the cache. -/
theorem pass {host' : Host} (hk : Kept h s ds host) (more : List Deed)
    (hlast : lastOptions h s (ds ++ more) = lastOptions h s ds)
    (hbytes : host'.files.bytesAt s.cachePath = host.files.bytesAt s.cachePath) : Kept h s (ds ++ more) host' := by
  unfold Kept at hk ⊢
  rw [hlast]
  split at hk
  · exact hbytes.trans hk
  · obtain ⟨r, hold, hn, asked, before, after, e, hmem, heval⟩ := hk.cache
    exact ⟨hk.ordered, r, hbytes.trans hold, hn, asked, before, after, e, List.mem_append_left _ hmem, heval⟩

theorem edit {host' : Host} (hk : Kept h s ds host)
    (hbytes : host'.files.bytesAt s.cachePath = host.files.bytesAt s.cachePath) : Kept h s ds host' := by
  have hpass := hk.pass [] (by rw [List.append_nil]) hbytes
  rwa [List.append_nil] at hpass

/-- The options found in the cache are those it was last configured with. -/
theorem lastOptions_of_load {r : Registry} (hk : Kept h s ds host)
    (hload : Cache.load host.files s.cachePath = .ok (some (options, r))) :
    lastOptions h s ds = some options ∧ options.Ordered := by
  unfold Kept at hk
  split at hk
  · rw [Cache.load_eq_none_iff.2 hk] at hload
    cases hload
  · rename_i hlast
    obtain ⟨r', hload', -⟩ := hk.load
    rw [hload'] at hload
    cases hload
    exact ⟨hlast, hk.ordered⟩

/-- Configuring, with options that were asked for or are those of the last time. -/
theorem configure (hk : Kept h s ds host) (asked : Bool) (ho : options.Ordered)
    (hsame : asked = false → lastOptions h s ds = some options)
    (hd : (Deed.configured asked options host).Undisturbing h s) :
    Kept h s (ds ++ [.configured asked options host]) (configure h s options host).2 := by
  obtain ⟨hquiet, hwrite⟩ := hd
  rcases heval : Recipe.evaluate h s.script s.projectRoot options false host with ⟨evaluated, result⟩
  rw [heval] at hquiet hwrite
  cases result with
  | error f =>
    have hconfigure := configure_error heval
    rw [hconfigure]
    refine hk.pass _ ?_ hquiet
    rw [lastOptions_append]
    cases asked <;> simp [Deed.asked?, hconfigure, Except.isOk, Except.toBool]
  | ok e =>
    -- if it was not asked for, its options are those the cache held, and so they stay the last ones
    obtain ⟨hn, files, hsave⟩ := hwrite e rfl
    have hconfigure := configure_ok heval hsave
    have hlast : lastOptions h s (ds ++ [.configured asked options host]) = some options := by
      rw [lastOptions_append]
      cases asked with
      | true => simp [Deed.asked?, hconfigure, Except.isOk, Except.toBool]
      | false => exact hsame rfl
    obtain ⟨old, hbefore⟩ := hk.writable
    rw [← hquiet] at hbefore
    unfold Kept
    rw [hlast, hconfigure]
    exact ⟨ho, e.registry, Cache.bytesAt_save hbefore hsave, hn, asked, host, evaluated, e,
      List.mem_append_right _ List.mem_cons_self, heval, rfl⟩

end Kept

/-! ## Calls -/

variable (h s)

/-- More deeds are done, and if they are undisturbing the cache is what it should be after them too. -/
def Leads (before after : Host × List Deed) : Prop :=
  ∃ more, after.2 = before.2 ++ more ∧
    ((∀ d ∈ more, d.Undisturbing h s) → Kept h s before.2 before.1 → Kept h s after.2 after.1)

variable {h s}

theorem Leads.refl (before : Host × List Deed) : Leads h s before before :=
  ⟨[], (List.append_nil _).symm, fun _ hk => hk⟩

theorem Leads.deed {d : Deed} {host' : Host}
    (hk : d.Undisturbing h s → Kept h s ds host → Kept h s (ds ++ [d]) host') :
    Leads h s (host, ds) (host', ds ++ [d]) := ⟨[d], rfl, fun hd => hk (hd d List.mem_cons_self)⟩

theorem Leads.trans (before between after : Host × List Deed) (hfirst : Leads h s before between)
    (hnext : Leads h s between after) : Leads h s before after := by
  obtain ⟨more, hmore, hk⟩ := hfirst
  obtain ⟨more', hmore', hk'⟩ := hnext
  refine ⟨more ++ more', ?_, fun hd hkept => ?_⟩
  · rw [hmore', hmore, List.append_assoc]
  · rw [List.forall_mem_append] at hd
    exact hk' hd.2 (hk hd.1 hkept)

namespace Noted

open Stateful (Keeps)

theorem keeps_pure {α : Type} (a : α) : Keeps (Leads h s) (pure a : Noted α) := .refl

theorem keeps_configure (ho : options.Ordered) : Keeps (Leads h s) (configure h s true options) := by
  rintro ⟨host, ds⟩
  rw [configure, noting_snd]
  exact .deed fun hd hk => hk.configure true ho Bool.noConfusion hd

theorem keeps_ran (settings : Execution.Settings) (r : Registry) (name : String) :
    Keeps (Leads h s) (noting (.ran settings r name) (Act.of .execution (Execution.run h settings r name))) := by
  rintro ⟨host, ds⟩
  rw [noting_snd]
  refine .deed fun hd hk => hk.pass _ ?_ hd
  rw [lastOptions_append]
  rfl

/-- Loading configures with the options in the cache, or does nothing. -/
theorem keeps_load : Keeps (Leads h s) (load h s) := by
  rintro ⟨host, ds⟩
  rcases load_cases h s host ds with ⟨f, hload⟩ | ⟨options, r, scriptTime, cacheTime, hcache, hscript, hkept⟩
  · rw [hload]
    exact .refl _
  · rw [load_of_cached hcache hscript hkept]
    split
    · exact .refl _
    · rw [configure, noting_snd]
      refine .deed fun hd hk => ?_
      obtain ⟨hlast, ho⟩ := hk.lastOptions_of_load hcache
      have htold : Kept h s ds (host.report .info "script changed, re-evaluating") := hk.edit rfl
      exact htold.configure false ho (fun _ => hlast) hd

theorem keeps_runAll (ho : options.Ordered) (settings : Execution.Settings) :
    ∀ (known : Option Registry) (names : List String), Keeps (Leads h s) (runAll h s options settings known names)
  | _, [] => keeps_pure []
  | known, name :: rest => by
    have hrun (r : Registry) : Keeps (Leads h s)
        (noting (.ran settings r name) (Act.of .execution (Execution.run h settings r name)) >>= fun report =>
          runAll h s options settings (some r) rest >>= fun reports => pure (report :: reports)) :=
      (keeps_ran settings r name).bind (fun report =>
        (keeps_runAll ho settings (some r) rest).bind (fun reports => keeps_pure _) .trans) .trans
    unfold runAll
    split
    · exact (keeps_configure ho).bind (fun r => keeps_runAll ho settings (some r) rest) .trans
    · cases known with
      | some r => exact (keeps_pure r).bind hrun .trans
      | none => exact keeps_load.bind hrun .trans

theorem keeps_run (ho : options.Ordered) (tasks : List String) (settings : Execution.Settings) :
    Keeps (Leads h s) (run h s tasks options settings) := by
  unfold run
  dsimp only
  split
  · exact .refl
  · exact keeps_runAll ho settings none tasks

/-- A call that is noted leads to where the act leads that it notes. -/
theorem Does.leads {α : Type} {x : Noted α} {act : Act α} (hdoes : Does x act) (hx : Keeps (Leads h s) x)
    (host : Host) (ds : List Deed) : Leads h s (host, ds) ((act host).2, (x (host, ds)).2.2) := by
  rw [← hdoes host ds]
  exact hx (host, ds)

end Noted

theorem Call.leads (c : Call) (ho : c.options.Ordered) (host : Host) (ds : List Deed) :
    Leads h s (host, ds) (c.after h s host, c.note h s host ds) := by
  cases c with
  | configure options => exact (Noted.does_configure h s true options).leads (Noted.keeps_configure ho) host ds
  | load => exact (Noted.does_load h s).leads Noted.keeps_load host ds
  | run tasks options settings =>
    exact (Noted.does_run h s tasks options settings).leads (Noted.keeps_run ho tasks settings) host ds

theorem History.kept {start : Host} (hstart : start.files.bytesAt s.cachePath = .error .notFound)
    (hist : History h s start ds host) (hd : ∀ d ∈ ds, d.Undisturbing h s) : Kept h s ds host := by
  induction hist with
  | start => exact hstart
  | @call ds host hist c ho ih =>
    obtain ⟨more, hnote, hk⟩ := c.leads (h := h) (s := s) ho host ds
    dsimp only at hnote hk
    rw [hnote, List.forall_mem_append] at hd
    exact hk hd.2 (ih hd.1)
  | edit hist hcache ih => exact (ih hd).edit hcache

/-! ## Histories -/

/-- **Options stay with the project.** Take any calls of a session that began without a cache, successful or
not, and any edits between them, where the evaluations and runs that the calls come to leave the cache alone
and caches can be written. After each of them there is no cache if configuring has not succeeded when it was
asked for; else the cache holds the options of the last time it has, and with them a registry that the recipe
gave when it was evaluated with just these. Where an evaluation failed the cache is what it was before. -/
theorem options_stay {start : Host} (hstart : start.files.bytesAt s.cachePath = .error .notFound)
    (hist : History h s start ds host) (hd : ∀ d ∈ ds, d.Undisturbing h s) :
    (match lastOptions h s ds with
      | none => Cache.load host.files s.cachePath = .ok none
      | some options =>
        ∃ r, Cache.load host.files s.cachePath = .ok (some (options, r)) ∧ Gave h s ds options r) ∧
    ∀ asked options before after f, .configured asked options before ∈ ds →
      Recipe.evaluate h s.script s.projectRoot options false before = (after, .error f) →
      (configure h s options before).2.files.bytesAt s.cachePath = before.files.bytesAt s.cachePath := by
  constructor
  · have hk := hist.kept hstart hd
    unfold Kept at hk
    split at hk
    · exact Cache.load_eq_none_iff.2 hk
    · exact hk.load
  · intro asked options before after f hmem heval
    have hquiet := (hd _ hmem).1
    rw [heval] at hquiet
    rw [configure_error heval]
    exact hquiet

open Execution (copyingText ofText_copyingText copyingHandlers)

/-- A session for a recipe in a directory where nothing else is. -/
def copyist : Session := ⟨"/t", "/"⟩

def copyistFiles (text : String) (t : Instant) : Files :=
  ⟨[([], .directory t), (["t"], .file 0)], [⟨Utf8.encode text, t⟩], [], t, []⟩

def copyistHost : Host := .ofFiles (copyistFiles copyingText 0) []

theorem absolute_recipe {fs : Files} (hhere : fs.here = []) : fs.absolute copyist.script = "/t" := by
  have hclean : Path.clean (Path.join "/" "/t") = "/t" := by decide +kernel
  unfold Files.absolute Files.herePath
  rw [hhere]
  exact hclean

theorem absolute_root {fs : Files} (hhere : fs.here = []) : fs.absolute copyist.projectRoot = "/" := by
  have hclean : Path.clean (Path.join "/" "/") = "/" := by decide +kernel
  unfold Files.absolute Files.herePath
  rw [hhere]
  exact hclean

theorem locate_recipe (text : String) (t : Instant) :
    (copyistFiles text t).locate true "/t" = .ok (.found ["t"] (.file 0)) := by
  unfold Files.locate Files.walk
  rfl

theorem locate_cache (text : String) (t : Instant) :
    (copyistFiles text t).locate true "/t.cache" = .ok (.vacant [] "t.cache") := by
  unfold Files.locate Files.walk
  rfl

theorem textAt_of_bytesAt {fs : Files} {path text : String} (hbytes : fs.bytesAt path = .ok (Utf8.encode text)) :
    fs.textAt path = .ok text := by
  have hdecode : Utf8.decode? (Utf8.encode text) = some text := by
    unfold Utf8.decode?
    rw [Utf8.decode_encode]
    rfl
  unfold Files.textAt
  rw [hbytes]
  dsimp only
  rw [hdecode]

theorem textAt_recipe (text : String) (t : Instant) : (copyistFiles text t).textAt "/t" = .ok text :=
  textAt_of_bytesAt (Files.bytesAt_of_locate (locate_recipe text t))

theorem absent_cache (text : String) (t : Instant) :
    (copyistFiles text t).bytesAt copyist.cachePath = .error .notFound :=
  Files.bytesAt_eq_notFound_iff.2 (.inr ⟨_, _, locate_cache text t⟩)

theorem save_copyist (text : String) (t : Instant) (options : Table) (r : Registry) :
    ∃ files, Cache.save (copyistFiles text t) copyist.cachePath options r = .ok files := by
  have hparent : (copyistFiles text t).parent copyist.cachePath = .ok ([], .name "t.cache", false) := by
    unfold Files.parent Files.walk
    rfl
  unfold Cache.save Files.putBytes Files.openFile
  rw [hparent]
  dsimp only [bind, Except.bind]
  rw [show (copyistFiles text t).locate true copyist.cachePath = _ from locate_cache text t]
  exact ⟨_, rfl⟩

theorem bytesAt_saved {text : String} {t : Instant} {options : Table} {r : Registry} {files : Files}
    (hsave : Cache.save (copyistFiles text t) copyist.cachePath options r = .ok files) :
    files.bytesAt copyist.cachePath = .ok (Cache.encode options r) := by
  have hbefore : (copyistFiles text t).bytesAt copyist.cachePath = .error .notFound ∨
      (copyistFiles text t).bytesAt copyist.cachePath = .ok [] ∧ ([] : Bytes) ≠ [] := .inl (absent_cache text t)
  exact Cache.bytesAt_save hbefore hsave

/-- What the evaluation of its recipe comes to. -/
def copyistResult : Host × Except Recipe.EvaluationFault Recipe.Evaluation :=
  Recipe.evaluateText copyingHandlers ⟨"/t", "/"⟩ [("mode", "fast")] false copyingText copyistHost

theorem evaluate_copyist :
    Recipe.evaluate copyingHandlers copyist.script copyist.projectRoot [("mode", "fast")] false copyistHost =
      copyistResult := by
  unfold Recipe.evaluate
  rw [absolute_recipe rfl, absolute_root rfl]
  dsimp only
  rw [show copyistHost.files.textAt "/t" = _ from textAt_recipe copyingText 0]
  rfl

/-- Its files once there is a cache. -/
def cachedFiles (cache : Bytes) (text : String) (t : Instant) : Files :=
  ⟨[([], .directory t), (["t"], .file 0), (["t.cache"], .file 1)], [⟨Utf8.encode text, t⟩, ⟨cache, 0⟩], [], t, []⟩

def cachedHost (r : Registry) (text : String) (t : Instant) : Host :=
  .ofFiles (cachedFiles (Cache.encode [("mode", "fast")] r) text t) []

def copyistSettings : Execution.Settings := ⟨false, false, Execution.Settings.defaultSpread⟩

/-- Its evaluation succeeds and leaves the files, and so does a run of its task, which calls a program. -/
theorem check_copyist : (match copyistResult.2 with
    | .ok e =>
      let ran := (Execution.run copyingHandlers copyistSettings e.registry "a" (cachedHost e.registry copyingText 0)).1
      decide ((Cache.encode [("mode", "fast")] e.registry).length < Nat.pow 256 8 ∧
        ran.files = (cachedHost e.registry copyingText 0).files ∧ ran.calls = [["cp", "a b"]])
    | .error _ => false) = true ∧ copyistResult.1.files = copyistHost.files := by
  unfold copyistResult Recipe.evaluateText
  rw [ofText_copyingText]
  decide +kernel

theorem evaluated_copyist : ∃ after e, copyistResult = (after, .ok e) ∧ after.files = copyistFiles copyingText 0 ∧
    Cache.Countable (Cache.encode [("mode", "fast")] e.registry).length ∧
    ∃ ran result, Execution.run copyingHandlers copyistSettings e.registry "a" (cachedHost e.registry copyingText 0) =
        (ran, result) ∧
      ran.files = (cachedHost e.registry copyingText 0).files ∧ ran.calls = [["cp", "a b"]] := by
  obtain ⟨hok, hfiles⟩ := check_copyist
  rcases hresult : copyistResult with ⟨after, f | e⟩ <;> rw [hresult] at hok hfiles
  · cases hok
  · obtain ⟨hn, hran⟩ := of_decide_eq_true hok
    exact ⟨after, e, rfl, hfiles, hn, _, _, rfl, hran⟩

section

variable (cache : Bytes) (text : String) (t : Instant)

theorem locate_cachedRecipe : (cachedFiles cache text t).locate true "/t" = .ok (.found ["t"] (.file 0)) := by
  unfold Files.locate Files.walk
  rfl

theorem locate_cachedCache : (cachedFiles cache text t).locate true "/t.cache" = .ok (.found ["t.cache"] (.file 1)) := by
  unfold Files.locate Files.walk
  rfl

theorem bytesAt_cached : (cachedFiles cache text t).bytesAt copyist.cachePath = .ok cache :=
  Files.bytesAt_of_locate (locate_cachedCache cache text t)

end

/-- Its tasks are loaded from the cache; if the recipe is newer they are asked of it again. -/
theorem load_cached {r : Registry} (hdecode : Cache.decode (Cache.encode [("mode", "fast")] r) = .ok ([("mode", "fast")], r))
    (text : String) (t : Instant) (ds : List Deed) :
    Noted.load copyingHandlers copyist (cachedHost r text t, ds) = if t ≤ 0 then (.ok r, (cachedHost r text t, ds))
      else Noted.configure copyingHandlers copyist false [("mode", "fast")]
        ((cachedHost r text t).report .info "script changed, re-evaluating", ds) := by
  have hbytes : (cachedHost r text t).files.bytesAt copyist.cachePath = _ := bytesAt_cached _ text t
  have hload : Cache.load (cachedHost r text t).files copyist.cachePath = .ok (some ([("mode", "fast")], r)) := by
    rw [Cache.load_of_bytesAt hbytes, hdecode]
  exact Noted.load_of_cached hload (Files.modified_of_locate (locate_cachedRecipe _ text t))
    (Files.modified_of_locate (locate_cachedCache _ text t)) ds

theorem ofText_empty : Recipe.Program.ofText "" = .ok ⟨[], []⟩ := by cbv

/-- An empty recipe cannot be evaluated. -/
theorem evaluateText_empty (h : Shell.Handlers) (site : Recipe.Site) (options : Table) (host : Host) :
    Recipe.evaluateText h site options false "" host = (host, .error (.noEntry site.shown)) := by
  have hrun (file : String) (machine : Recipe.Machine) :
      Recipe.Program.run h ⟨[], []⟩ file false machine = (.error (.noEntry file), machine) := rfl
  unfold Recipe.evaluateText
  rw [ofText_empty]
  dsimp only
  rw [hrun]

theorem evaluate_emptied (host : Host) {cache : Bytes} {t : Instant} (hfiles : host.files = cachedFiles cache "" t)
    (options : Table) : Recipe.evaluate copyingHandlers copyist.script copyist.projectRoot options false host =
      (host, .error (.noEntry (Recipe.Site.shown ⟨"/t", "/"⟩))) := by
  have htext : (cachedFiles cache "" t).textAt "/t" = .ok "" :=
    textAt_of_bytesAt (Files.bytesAt_of_locate (locate_cachedRecipe cache "" t))
  unfold Recipe.evaluate
  rw [hfiles, absolute_recipe rfl, absolute_root rfl]
  dsimp only
  rw [htext]
  dsimp only
  exact evaluateText_empty _ _ _ _

/-- A recipe that cannot be evaluated, and leaves all as it is, is configured without a trace. -/
theorem Deed.undisturbing_of_error {asked : Bool} {f : Recipe.EvaluationFault}
    (heval : Recipe.evaluate h s.script s.projectRoot options false host = (host, .error f)) :
    (Deed.configured asked options host).Undisturbing h s := by
  unfold Deed.Undisturbing
  dsimp only
  rw [heval]
  exact ⟨rfl, fun e he => by cases he⟩

/-- What is done with the project: it is configured and its task is run; then its recipe is emptied, and to configure
it with other options fails, and so does loading it. -/
def copyistDeeds (r : Registry) : List Deed :=
  [.configured true [("mode", "fast")] copyistHost, .ran copyistSettings r "a" (cachedHost r copyingText 0),
    .configured true [("mode", "slow")] (cachedHost r "" 1),
    .configured false [("mode", "fast")] ((cachedHost r "" 1).report .info "script changed, re-evaluating")]

/-- None of it disturbs the cache. -/
theorem history_copyist : ∃ r,
    Cache.decode (Cache.encode [("mode", "fast")] r) = .ok ([("mode", "fast")], r) ∧
    History copyingHandlers copyist copyistHost (copyistDeeds r)
      ((cachedHost r "" 1).report .info "script changed, re-evaluating") ∧
    (∀ d ∈ copyistDeeds r, d.Undisturbing copyingHandlers copyist) ∧
    lastOptions copyingHandlers copyist (copyistDeeds r) = some [("mode", "fast")] ∧
    (Execution.run copyingHandlers copyistSettings r "a" (cachedHost r copyingText 0)).1.calls = [["cp", "a b"]] := by
  have hfast : Table.Ordered [("mode", "fast")] := by simp [Table.Ordered]
  have hslow : Table.Ordered [("mode", "slow")] := by simp [Table.Ordered]
  obtain ⟨after, e, hresult, hfiles, hn, ran, result, hrun, hkept, hcalls⟩ := evaluated_copyist
  obtain ⟨files, hsave⟩ := save_copyist copyingText 0 [("mode", "fast")] e.registry
  have hwritten := bytesAt_saved hsave
  rw [← hfiles] at hsave
  have heval := evaluate_copyist.trans hresult
  have hconfigure := configure_ok heval hsave
  have hdecode := (Recipe.built_of_evaluate heval).decode_encode hfast hn []
  rw [List.append_nil] at hdecode
  have hempty := evaluate_emptied (cachedHost e.registry "" 1) rfl [("mode", "slow")]
  have htold := evaluate_emptied ((cachedHost e.registry "" 1).report .info "script changed, re-evaluating") rfl
    [("mode", "fast")]
  refine ⟨e.registry, hdecode, ?_, ?_, ?_, ?_⟩
  -- the calls in turn; the recipe is edited before the task is run and after it
  · have hconfigured := History.start.configure hfast hconfigure
    have hran := (hconfigured.edit ((bytesAt_cached _ copyingText 0).trans hwritten.symm)).run (by decide)
      (load_cached hdecode copyingText 0 _) hrun
    have hedited : History copyingHandlers copyist copyistHost _ (cachedHost e.registry "" 1) :=
      hran.edit ((bytesAt_cached _ "" 1).trans (hkept ▸ (bytesAt_cached _ copyingText 0).symm))
    refine (hedited.configure hslow (configure_error hempty)).load ?_
    rw [load_cached hdecode "" 1, if_neg (by decide), Noted.configure, Noted.noting_snd, configure_error htold]
    rfl
  · have hfirst : (Deed.configured true [("mode", "fast")] copyistHost).Undisturbing copyingHandlers copyist := by
      unfold Deed.Undisturbing
      dsimp only
      rw [heval]
      refine ⟨congrArg (Files.bytesAt · copyist.cachePath) hfiles, fun e' he' => ?_⟩
      cases he'
      exact ⟨hn, files, hsave⟩
    have hquiet : (Deed.ran copyistSettings e.registry "a" (cachedHost e.registry copyingText 0)).Undisturbing
        copyingHandlers copyist := by
      unfold Deed.Undisturbing
      dsimp only
      rw [hrun, hkept]
    simpa [copyistDeeds] using
      ⟨hfirst, hquiet, Deed.undisturbing_of_error hempty, Deed.undisturbing_of_error htold⟩
  · have hasked : (Deed.configured true [("mode", "fast")] copyistHost).asked? copyingHandlers copyist =
        some [("mode", "fast")] := by
      simp [Deed.asked?, hconfigure, Except.isOk, Except.toBool]
    have hrefused : (Deed.configured true [("mode", "slow")] (cachedHost e.registry "" 1)).asked? copyingHandlers copyist =
        none := by
      simp [Deed.asked?, configure_error hempty, Except.isOk, Except.toBool]
    unfold lastOptions copyistDeeds
    rw [List.filterMap_cons_some hasked, List.filterMap_cons_none rfl, List.filterMap_cons_none hrefused,
      List.filterMap_cons_none rfl]
    rfl
  · rw [hrun, hcalls]

/-- The first options are kept, and the tasks that the recipe gave for them. -/
theorem options_stay_of_copyist : ∃ r host,
    History copyingHandlers copyist copyistHost (copyistDeeds r) host ∧
    (∀ d ∈ copyistDeeds r, d.Undisturbing copyingHandlers copyist) ∧
    lastOptions copyingHandlers copyist (copyistDeeds r) = some [("mode", "fast")] ∧
    (Execution.run copyingHandlers copyistSettings r "a" (cachedHost r copyingText 0)).1.calls = [["cp", "a b"]] ∧
    Cache.load host.files copyist.cachePath = .ok (some ([("mode", "fast")], r)) ∧
    Gave copyingHandlers copyist (copyistDeeds r) [("mode", "fast")] r ∧
    (configure copyingHandlers copyist [("mode", "slow")] (cachedHost r "" 1)).2.files.bytesAt copyist.cachePath =
      (cachedHost r "" 1).files.bytesAt copyist.cachePath := by
  obtain ⟨r, hdecode, hhist, hd, hlast, hcalls⟩ := history_copyist
  obtain ⟨hstay, hfailed⟩ := options_stay (absent_cache copyingText 0) hhist hd
  rw [hlast] at hstay
  obtain ⟨r', hload, hgave⟩ := hstay
  have hcached : ((cachedHost r "" 1).report .info "script changed, re-evaluating").files.bytesAt copyist.cachePath = _ :=
    bytesAt_cached _ "" 1
  obtain rfl : r' = r := by
    have hsame := hload
    rw [Cache.load_of_bytesAt hcached, hdecode] at hsame
    cases hsame
    rfl
  refine ⟨r', _, hhist, hd, hlast, hcalls, hload, hgave, ?_⟩
  exact hfailed true _ _ _ _ (by simp [copyistDeeds]) (evaluate_emptied (cachedHost r' "" 1) rfl [("mode", "slow")])

end Taskwork.Session
