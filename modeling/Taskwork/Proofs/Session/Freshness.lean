/-
Whether the tasks that are loaded are those of the recipe as it is. A recipe may be edited at any time, also
between the steps of configuring: it is read, evaluated, and the cache is written. A cache is made from the
text that was read (`Origin`), and that text is still the recipe's or the times tell, unless an edit went
unseen (`Origin.Sound`): one after the recipe was read and before the cache was written, or a later one at the
very time of the cache (`serves_of_tie`).
-/
import Taskwork.Proofs.Session.Options

namespace Taskwork.Session

variable (h : Shell.Handlers) (s : Session)

/-! ## Loading without configuring -/

/-- Loading gives a registry, and there is no deed: nothing is configured. -/
def Serves (host : Host) (r : Registry) : Prop := Noted.load h s (host, []) = (.ok r, (host, []))

variable {h s} {host : Host} {r : Registry}

theorem Serves.load (hr : Serves h s host r) : Session.load h s host = (.ok r, host) := by
  have hdoes := Noted.does_load h s host []
  rw [show Noted.load h s (host, []) = _ from hr] at hdoes
  exact hdoes.symm

theorem serves_iff : Serves h s host r ↔ ∃ options scriptTime cacheTime,
    Cache.load host.files s.cachePath = .ok (some (options, r)) ∧ host.files.modified s.script = .ok scriptTime ∧
      host.files.modified s.cachePath = .ok cacheTime ∧ scriptTime ≤ cacheTime := by
  unfold Serves
  constructor
  · intro hr
    rcases Noted.load_cases h s host [] with ⟨f, hload⟩ |
      ⟨options, r', scriptTime, cacheTime, hcache, hscript, hkept⟩
    · rw [hload] at hr
      cases hr
    · rw [Noted.load_of_cached hcache hscript hkept] at hr
      split at hr
      · rename_i hle
        cases hr
        exact ⟨options, scriptTime, cacheTime, hcache, hscript, hkept, hle⟩
      · -- configuring would be noted
        have hdeeds := congrArg Prod.snd hr
        rw [Noted.configure, Noted.noting_snd] at hdeeds
        exact absurd (congrArg Prod.snd hdeeds) (List.cons_ne_nil _ _)
  · rintro ⟨options, scriptTime, cacheTime, hcache, hscript, hkept, hle⟩
    rw [Noted.load_of_cached hcache hscript hkept, if_pos hle]

/-! ## The recipe -/

variable (h s)

/-- The text of the recipe. -/
def recipe (fs : Files) : Except TextFault String := fs.textAt (fs.absolute s.script)

/-- Where it is evaluated. -/
def site (fs : Files) : Recipe.Site := ⟨fs.absolute s.script, fs.absolute s.projectRoot⟩

theorem evaluate_recipe (options : Table) (host : Host) :
    Recipe.evaluate h s.script s.projectRoot options false host = match recipe s host.files with
      | .error f => (host, .error (.unreadable (site s host.files).script f))
      | .ok text => Recipe.evaluateText h (site s host.files) options false text host := by
  unfold Recipe.evaluate
  dsimp only
  rcases htext : recipe s host.files with f | text
  · rw [show host.files.textAt (host.files.absolute s.script) = _ from htext]
    rfl
  · rw [show host.files.textAt (host.files.absolute s.script) = _ from htext]
    rfl

/-- A recipe of this text gives the registry for the options. -/
def Gives (options : Table) (text : String) (r : Registry) : Prop :=
  ∃ before after e, Recipe.evaluateText h (site s before.files) options false text before = (after, .ok e) ∧
    e.registry = r

/-- The recipe is a file, and not the one that the cache is in. -/
def Apart (fs : Files) : Prop :=
  ∃ r n, fs.locate true (fs.absolute s.script) = .ok (.found r (.file n)) ∧ n < fs.contents.length ∧
    ∀ r', fs.locate true s.cachePath ≠ .ok (.found r' (.file n))

/-- Whether the recipe has the time of the cache. -/
def tie (fs : Files) : Bool :=
  match fs.modified s.script, fs.modified s.cachePath with
  | .ok t, .ok t' => t == t'
  | _, _ => false

/-- Something happens that leaves the cache alone. If the recipe is edited, its time then is not before that
of any file so far. -/
structure Drift (edited : Bool) (fs fs' : Files) : Prop where
  here : fs'.here = fs.here
  cache : fs'.bytesAt s.cachePath = fs.bytesAt s.cachePath
  cacheTime : fs'.modified s.cachePath = fs.modified s.cachePath
  quiet (hedited : edited = false) : recipe s fs' = recipe s fs ∧ fs'.modified s.script = fs.modified s.script
  later (hedited : edited = true) :
    ∃ t, fs'.modified s.script = .ok t ∧ ∀ path t', fs.modified path = .ok t' → t' ≤ t

variable {h s} {fs fs' : Files} {edited : Bool}

theorem Drift.refl (fs : Files) : Drift s false fs fs := ⟨rfl, rfl, rfl, fun _ => ⟨rfl, rfl⟩, nofun⟩

theorem recipe_save {options : Table} (hapart : Apart s fs)
    (hsave : Cache.save fs s.cachePath options r = .ok fs') : recipe s fs' = recipe s fs := by
  obtain ⟨place, n, hplace, hn, hother⟩ := hapart
  have hput := Cache.putBytes_of_save hsave
  obtain ⟨hplace', hcontent⟩ := Files.putBytes_other hput hplace hn hother
  have hpath : fs'.absolute s.script = fs.absolute s.script := by
    unfold Files.absolute Files.herePath
    rw [Files.here_putBytes hput]
  unfold recipe Files.textAt
  rw [hpath, Files.bytesAt_of_locate hplace', Files.bytesAt_of_locate hplace, hcontent]

/-! ## The steps of configuring -/

/-- How far configuring has come. -/
inductive Stage where
  | idle
  | read (options : Table) (text : String)
  | evaluated (options : Table) (text : String) (r : Registry)

/-- What the cache was made from. -/
structure Origin where
  options : Table
  text : String
  registry : Registry
  /-- Whether the recipe was edited between being read and the writing of the cache. -/
  overtaken : Bool
  /-- Whether the recipe was edited since at the time of the cache. -/
  tied : Bool

structure Moment where
  host : Host
  stage : Stage
  /-- Whether the recipe was edited since it was last read. -/
  edited : Bool
  origin : Option Origin

/-- Before anything is done. -/
def Moment.start (host : Host) : Moment := ⟨host, .idle, false, none⟩

variable (h s)

def Origin.drift (o : Origin) (edited : Bool) (fs : Files) : Origin := { o with tied := o.tied || (edited && tie s fs) }

def Moment.drift (m : Moment) (edited : Bool) (host : Host) : Moment :=
  { m with host, edited := m.edited || edited, origin := m.origin.map fun o => o.drift s edited host.files }

/-- The steps of configuring, and what happens between them. -/
inductive Step : Moment → Moment → Prop
  | drift {m : Moment} {host : Host} {edited : Bool} (hd : Drift s edited m.host.files host.files) :
    Step m (m.drift s edited host)
  | read {m : Moment} {options : Table} {text : String} (hstage : m.stage = .idle) (ho : options.Ordered)
    (htext : recipe s m.host.files = .ok text) : Step m { m with stage := .read options text, edited := false }
  | evaluate {m : Moment} {options : Table} {text : String} {host : Host} {e : Recipe.Evaluation} {edited : Bool}
    (hstage : m.stage = .read options text)
    (heval : Recipe.evaluateText h (site s m.host.files) options false text m.host = (host, .ok e))
    (hd : Drift s edited m.host.files host.files) :
    Step m { m.drift s edited host with stage := .evaluated options text e.registry }
  /-- Evaluating fails, or writing the cache. -/
  | abandon {m : Moment} : Step m { m with stage := .idle }
  | store {m : Moment} {options : Table} {text : String} {r : Registry} {files : Files}
    (hstage : m.stage = .evaluated options text r) (hn : Cache.Countable (Cache.encode options r).length)
    (hapart : Apart s m.host.files) (hsave : Cache.save m.host.files s.cachePath options r = .ok files) :
    Step m { m with
      host := { m.host with files }.report .info "configured"
      stage := .idle
      origin := some ⟨options, text, r, m.edited, false⟩ }

/-- What may come of a start, in any order of steps. -/
def Reachable (start : Host) : Moment → Prop := Relation.ReflTransGen (Step h s) (.start start)

/-! ## What the cache is made from -/

/-- The cache is as it was made, and if its recipe was not edited unseen, it is the recipe now or the times tell. -/
structure Origin.Sound (o : Origin) (fs : Files) : Prop where
  ordered : o.options.Ordered
  cache : fs.bytesAt s.cachePath = .ok (Cache.encode o.options o.registry)
  countable : Cache.Countable (Cache.encode o.options o.registry).length
  given : Gives h s o.options o.text o.registry
  current (hover : o.overtaken = false) (htied : o.tied = false) : recipe s fs = .ok o.text ∨
    ∃ t t', fs.modified s.script = .ok t ∧ fs.modified s.cachePath = .ok t' ∧ t' < t

def Stage.Sound (edited : Bool) (fs : Files) : Stage → Prop
  | .idle => True
  | .read options text => options.Ordered ∧ (edited = false → recipe s fs = .ok text)
  | .evaluated options text r =>
    options.Ordered ∧ Gives h s options text r ∧ (edited = false → recipe s fs = .ok text)

structure Moment.Sound (m : Moment) : Prop where
  stage : m.stage.Sound h s m.edited m.host.files
  origin : match m.origin with
    | none => m.host.files.bytesAt s.cachePath = .error .notFound
    | some o => o.Sound h s m.host.files

variable {h s} {o : Origin} {m m' : Moment}

/-- An edit makes the recipe later than the cache, or is at its time. -/
theorem Origin.Sound.drift (ho : o.Sound h s fs) (hd : Drift s edited fs fs') :
    (o.drift s edited fs').Sound h s fs' where
  ordered := ho.ordered
  cache := hd.cache.trans ho.cache
  countable := ho.countable
  given := ho.given
  current hover htied := by
    obtain ⟨hbefore, htie⟩ := Bool.or_eq_false_iff.1 htied
    cases edited with
    | false =>
      obtain ⟨htext, htime⟩ := hd.quiet rfl
      rw [htext, htime, hd.cacheTime]
      exact ho.current hover hbefore
    | true =>
      -- it has no time before that of the cache, and not the same, so loading will see it
      obtain ⟨t, ht, hlater⟩ := hd.later rfl
      obtain ⟨t', ht'⟩ := Files.modified_of_bytesAt ho.cache
      refine .inr ⟨t, t', ht, hd.cacheTime.trans ht', lt_of_le_of_ne (hlater _ _ ht') fun heq => ?_⟩
      unfold tie at htie
      rw [ht, hd.cacheTime, ht', heq] at htie
      simp at htie

theorem Origin.Sound.load (ho : o.Sound h s fs) : Cache.load fs s.cachePath = .ok (some (o.options, o.registry)) := by
  obtain ⟨before, after, e, heval, he⟩ := ho.given
  have hdecode := (he ▸ Recipe.built_of_evaluateText heval).decode_encode ho.ordered ho.countable []
  rw [List.append_nil] at hdecode
  rw [Cache.load_of_bytesAt ho.cache, hdecode]

/-- A cache as late as the recipe is used, whatever the recipe is. -/
theorem Origin.Sound.serves (ho : o.Sound h s host.files) {t t' : Instant}
    (hscript : host.files.modified s.script = .ok t) (hcache : host.files.modified s.cachePath = .ok t')
    (hle : t ≤ t') : Serves h s host o.registry :=
  serves_iff.2 ⟨_, _, _, ho.load, hscript, hcache, hle⟩

theorem Stage.Sound.drift {stage : Stage} {before : Bool} (hs : stage.Sound h s before fs)
    (hd : Drift s edited fs fs') : stage.Sound h s (before || edited) fs' := by
  have hsame {text : String} (hkept : before = false → recipe s fs = .ok text)
      (hnow : (before || edited) = false) : recipe s fs' = .ok text := by
    obtain ⟨hbefore, hedited⟩ := Bool.or_eq_false_iff.1 hnow
    exact (hd.quiet hedited).1.trans (hkept hbefore)
  cases stage with
  | idle => trivial
  | read options text => exact ⟨hs.1, hsame hs.2⟩
  | evaluated options text r => exact ⟨hs.1, hs.2.1, hsame hs.2.2⟩

namespace Moment.Sound

theorem drift (hm : m.Sound h s) (hd : Drift s edited m.host.files host.files) : (m.drift s edited host).Sound h s where
  stage := hm.stage.drift hd
  origin := by
    have horigin := hm.origin
    unfold Moment.drift
    rcases hcase : m.origin with _ | o <;> rw [hcase] at horigin
    · exact hd.cache.trans horigin
    · exact horigin.drift hd

/-- Writing the cache. -/
theorem store {options : Table} {text : String} {files : Files} (hm : m.Sound h s)
    (hstage : m.stage = .evaluated options text r) (hn : Cache.Countable (Cache.encode options r).length)
    (hapart : Apart s m.host.files) (hsave : Cache.save m.host.files s.cachePath options r = .ok files) :
    Origin.Sound h s ⟨options, text, r, m.edited, false⟩ files := by
  have hsound := hm.stage
  rw [hstage] at hsound
  obtain ⟨ho, hgives, hsame⟩ := hsound
  have hbefore : ∃ old, m.host.files.bytesAt s.cachePath = .error .notFound ∨
      m.host.files.bytesAt s.cachePath = .ok old ∧ old ≠ [] := by
    have horigin := hm.origin
    split at horigin
    · exact ⟨[], .inl horigin⟩
    · exact ⟨_, .inr ⟨horigin.cache, Cache.encode_ne_nil _ _⟩⟩
  obtain ⟨old, hbefore⟩ := hbefore
  exact ⟨ho, Cache.bytesAt_save hbefore hsave, hn, hgives,
    fun hover _ => .inl ((recipe_save hapart hsave).trans (hsame hover))⟩

theorem step (hm : m.Sound h s) (hstep : Step h s m m') : m'.Sound h s := by
  cases hstep with
  | drift hd => exact hm.drift hd
  | read hstage ho htext => exact ⟨⟨ho, fun _ => htext⟩, hm.origin⟩
  | evaluate hstage heval hd =>
    -- an edit during the evaluation comes after the reading, so it counts like any later one
    have hread := (hm.drift hd).stage
    rw [show (m.drift s _ _).stage = _ from hstage] at hread
    exact ⟨⟨hread.1, ⟨_, _, _, heval, rfl⟩, hread.2⟩, (hm.drift hd).origin⟩
  | abandon => exact ⟨trivial, hm.origin⟩
  | store hstage hn hapart hsave => exact ⟨trivial, hm.store hstage hn hapart hsave⟩

end Moment.Sound

theorem Reachable.sound {start : Host} (hstart : start.files.bytesAt s.cachePath = .error .notFound)
    (hm : Reachable h s start m) : m.Sound h s := by
  induction hm with
  | refl => exact ⟨trivial, hstart⟩
  | tail _ hstep ih => exact ih.step hstep

/-- Configuring in one go is to read the recipe, to evaluate it and to write the cache. -/
theorem Reachable.configure {start : Host} {options : Table} {evaluated : Host} {e : Recipe.Evaluation} {files : Files}
    (hm : Reachable h s start m) (hidle : m.stage = .idle) (ho : options.Ordered)
    (heval : Recipe.evaluate h s.script s.projectRoot options false m.host = (evaluated, .ok e))
    (hd : Drift s edited m.host.files evaluated.files) (hn : Cache.Countable (Cache.encode options e.registry).length)
    (hapart : Apart s evaluated.files) (hsave : Cache.save evaluated.files s.cachePath options e.registry = .ok files) :
    ∃ m' text, Reachable h s start m' ∧ Session.configure h s options m.host = (.ok e.registry, m'.host) ∧
      m'.host.files = files ∧ recipe s m.host.files = .ok text ∧
      m'.origin = some ⟨options, text, e.registry, edited, false⟩ := by
  have hconfigure := configure_ok heval hsave
  rw [evaluate_recipe] at heval
  rcases htext : recipe s m.host.files with f | text <;> rw [htext] at heval
  · cases heval
  · have hread := hm.tail (.read hidle ho htext)
    have hevaluated := hread.tail (.evaluate rfl heval hd)
    exact ⟨_, text, hevaluated.tail (.store rfl hn hapart hsave), hconfigure, rfl, rfl, rfl⟩

/-! ## What is served -/

/-- **What is loaded is the recipe as it is, unless an edit went unseen.** Begin without a cache, and let edits
come at any time between the steps of configuring and after them, where none gives the recipe a time before
that of another file. If loading gives a registry without configuring, then this is what the recipe whose
text was read for the cache gives for the options in it; and the recipe has just this text when it is
loaded, if it was not edited between being read and the writing of the cache, nor later at the time of
the cache. -/
theorem served_current {start : Host} (hstart : start.files.bytesAt s.cachePath = .error .notFound)
    (hm : Reachable h s start m) (hr : Serves h s m.host r) :
    ∃ o, m.origin = some o ∧ Cache.load m.host.files s.cachePath = .ok (some (o.options, r)) ∧
      Gives h s o.options o.text r ∧
      (o.overtaken = false → o.tied = false → recipe s m.host.files = .ok o.text) := by
  obtain ⟨options, t, t', hcache, hscript, hkept, hle⟩ := serves_iff.1 hr
  have horigin := (hm.sound hstart).origin
  rcases hcase : m.origin with _ | o <;> rw [hcase] at horigin
  · rw [Cache.load_eq_none_iff.2 horigin] at hcache
    cases hcache
  · have hload := horigin.load
    rw [hcache] at hload
    cases hload
    refine ⟨o, rfl, hcache, horigin.given, fun hover htied => ?_⟩
    rcases horigin.current hover htied with htext | ⟨u, u', hu, hu', hlt⟩
    · exact htext
    · -- a recipe later than the cache would not have been passed over
      rw [hscript] at hu
      rw [hkept] at hu'
      cases hu
      cases hu'
      exact absurd hle (not_le.2 hlt)

open Execution (copyingText copyingHandlers)

section

variable (text : String) (t : Instant)

theorem recipe_copyist : recipe copyist (copyistFiles text t) = .ok text := by
  unfold recipe
  rw [absolute_recipe rfl, textAt_recipe]

theorem cache_not_recipe (r : Route) :
    (copyistFiles text t).locate true copyist.cachePath ≠ .ok (.found r (.file 0)) := by
  rw [show (copyistFiles text t).locate true copyist.cachePath = _ from locate_cache text t]
  nofun

theorem apart_copyist : Apart copyist (copyistFiles text t) := by
  refine ⟨["t"], 0, ?_, Nat.one_pos, cache_not_recipe text t⟩
  rw [absolute_recipe rfl, locate_recipe]

/-- All its files have one time. -/
theorem modified_copyist {path : String} {t' : Instant} (ht : (copyistFiles text t).modified path = .ok t') :
    t' = t := by
  have hentries (r : Route) (e : Entry) (he : Files.entry? (copyistFiles text t) r = some e) :
      e = .directory t ∨ e = .file 0 := by
    obtain ⟨row, hrow, rfl⟩ := Option.map_eq_some_iff.1 he
    rcases List.mem_cons.1 (List.mem_of_find?_eq_some hrow) with rfl | hmem
    · exact .inl rfl
    · obtain rfl := List.mem_singleton.1 hmem
      exact .inr rfl
  rcases Files.modified_eq_ok ht with ⟨r, hr⟩ | ⟨r, n, hr, hn⟩ | hnow
  · rcases hentries r _ hr with he | he <;> cases he
    rfl
  · rcases hentries r _ hr with he | he <;> cases he
    exact hn.symm
  · exact hnow.symm

/-- Once the cache is written the recipe has the time it had, and the cache none before it. -/
theorem times_copyist {options : Table} {r : Registry} {files : Files}
    (hsave : Cache.save (copyistFiles text t) copyist.cachePath options r = .ok files) :
    files.modified copyist.script = .ok t ∧ ∃ t', files.modified copyist.cachePath = .ok t' ∧ t ≤ t' := by
  obtain ⟨hcache, hlater⟩ := Cache.modified_save hsave
  obtain ⟨hplace, hcontent⟩ :=
    Files.putBytes_other (Cache.putBytes_of_save hsave) (locate_recipe text t) Nat.one_pos (cache_not_recipe text t)
  refine ⟨?_, _, hcache, hlater⟩
  rw [show copyist.script = "/t" from rfl, Files.modified_of_locate hplace, hcontent]
  rfl

end

/-- Once it is configured its tasks are loaded without configuring, and are those of its recipe. -/
theorem served_current_of_copyist : ∃ m r o, Reachable copyingHandlers copyist copyistHost m ∧
    Serves copyingHandlers copyist m.host r ∧ m.origin = some o ∧ o.overtaken = false ∧ o.tied = false ∧
    Gives copyingHandlers copyist o.options o.text r ∧ recipe copyist m.host.files = .ok o.text := by
  have ho : Table.Ordered [("mode", "fast")] := by simp [Table.Ordered]
  obtain ⟨after, e, hresult, hfiles, hn, -⟩ := evaluated_copyist
  have heval : Recipe.evaluate copyingHandlers copyist.script copyist.projectRoot [("mode", "fast")] false copyistHost =
      (after, .ok e) := evaluate_copyist.trans hresult
  obtain ⟨files, hsave⟩ := save_copyist copyingText 0 [("mode", "fast")] e.registry
  obtain ⟨hscript, t', hcache, hle⟩ := times_copyist copyingText 0 hsave
  have hd : Drift copyist false copyistHost.files after.files := hfiles ▸ .refl _
  have hstart : Reachable copyingHandlers copyist copyistHost _ := .refl
  obtain ⟨m, text, hm, -, hwritten, -, horigin⟩ := hstart.configure rfl ho heval hd hn
    (hfiles ▸ apart_copyist copyingText 0) (hfiles ▸ hsave)
  have hsound := (hm.sound (absent_cache copyingText 0)).origin
  rw [horigin] at hsound
  rw [← hwritten] at hscript hcache
  have hserves := hsound.serves hscript hcache hle
  obtain ⟨o, ho', -, hgives, hcurrent⟩ := served_current (absent_cache copyingText 0) hm hserves
  rw [horigin] at ho'
  cases ho'
  exact ⟨m, _, _, hm, hserves, horigin, rfl, rfl, hgives, hcurrent rfl rfl⟩

/-! ## Edits that go unseen -/

/-- A recipe with the time of the cache is never looked at, whatever it is by now. -/
theorem serves_of_tie {start : Host} (hstart : start.files.bytesAt s.cachePath = .error .notFound)
    (hm : Reachable h s start m) (horigin : m.origin = some o) (htie : tie s m.host.files = true) :
    Serves h s m.host o.registry := by
  have hsound := (hm.sound hstart).origin
  rw [horigin] at hsound
  unfold tie at htie
  split at htie
  · rename_i t t' hscript hcache
    exact hsound.serves hscript hcache (beq_iff_eq.1 htie).le
  · cases htie

/-- An empty recipe gives nothing. -/
theorem not_gives_empty (options : Table) (r : Registry) : ¬ Gives h s options "" r := by
  rintro ⟨before, after, e, heval, -⟩
  rw [evaluateText_empty] at heval
  cases heval

theorem drift_copyist : Drift copyist true (copyistFiles copyingText 0) (copyistFiles "" 1) where
  here := rfl
  cache := (absent_cache "" 1).trans (absent_cache copyingText 0).symm
  cacheTime := (Files.modified_of_vacant (locate_cache "" 1)).trans
    (Files.modified_of_vacant (locate_cache copyingText 0)).symm
  quiet := nofun
  later _ := by
    refine ⟨1, Files.modified_of_locate (locate_recipe "" 1), fun path t' ht => ?_⟩
    rw [modified_copyist copyingText 0 ht]
    exact Int.zero_le_ofNat 1

/-- What is loaded without configuring need not be what the recipe gives: where the recipe is emptied after it
was evaluated, before the cache is written, its old tasks are loaded. -/
theorem overtaken_stale : ¬ ∀ m r, Reachable copyingHandlers copyist copyistHost m →
    Serves copyingHandlers copyist m.host r → ∃ options text,
      Cache.load m.host.files copyist.cachePath = .ok (some (options, r)) ∧
      recipe copyist m.host.files = .ok text ∧ Gives copyingHandlers copyist options text r := by
  intro hfresh
  have ho : Table.Ordered [("mode", "fast")] := by simp [Table.Ordered]
  obtain ⟨after, e, hresult, hfiles, hn, -⟩ := evaluated_copyist
  have heval : Recipe.evaluateText copyingHandlers (site copyist copyistHost.files) [("mode", "fast")] false copyingText
      copyistHost = (after, .ok e) := by
    have hsite : site copyist copyistHost.files = ⟨"/t", "/"⟩ := by decide +kernel
    rw [hsite]
    exact hresult
  obtain ⟨files, hsave⟩ := save_copyist "" 1 [("mode", "fast")] e.registry
  obtain ⟨hscript, t', hcache, hle⟩ := times_copyist "" 1 hsave
  have hread : Reachable copyingHandlers copyist copyistHost _ :=
    .tail .refl (.read rfl ho (recipe_copyist copyingText 0))
  have hquiet : Drift copyist false copyistHost.files after.files := hfiles ▸ .refl _
  have hevaluated := hread.tail (.evaluate rfl heval hquiet)
  -- the edit, when all is evaluated and nothing is written yet
  obtain ⟨emptied, hemptied⟩ : ∃ host : Host, host.files = copyistFiles "" 1 :=
    ⟨{ after with files := copyistFiles "" 1 }, rfl⟩
  have hedit : Drift copyist true after.files emptied.files := hemptied ▸ hfiles ▸ drift_copyist
  have hedited := hevaluated.tail (.drift hedit)
  have hstored : Reachable copyingHandlers copyist copyistHost _ :=
    hedited.tail (.store rfl hn (hemptied ▸ apart_copyist "" 1) (hemptied ▸ hsave))
  have hsound := (hstored.sound (absent_cache copyingText 0)).origin
  have hserves := hsound.serves hscript hcache hle
  obtain ⟨options, text, -, htext, hgives⟩ := hfresh _ _ hstored hserves
  have hempty : recipe copyist files = .ok "" :=
    (recipe_save (apart_copyist "" 1) hsave).trans (recipe_copyist "" 1)
  have hnow : (Except.ok text : Except TextFault String) = .ok "" := htext.symm.trans hempty
  cases hnow
  exact not_gives_empty _ _ hgives

end Taskwork.Session
