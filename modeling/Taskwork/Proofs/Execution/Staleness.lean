/-
When a task is up to date. Its inputs must be there, and an output counts if it is; the newest of the one
is compared with the newest of the other. So the decision is about two sets of times (`changeTimes`), which
the order of the patterns and patterns that are repeated do not change, and what is told of the outputs
plays no part in it.
-/
import Mathlib.Order.Bounds.Basic
import Taskwork.Proofs.Execution.Faults
import Taskwork.Proofs.Files.Whole

namespace Taskwork

/-! ## Patterns -/

namespace Glob

variable {files : Files} {directory : String} {patterns paths : List String}

theorem pathsOfAll_cons (pattern : String) (rest : List String) :
    pathsOfAll files directory (pattern :: rest) =
      (do return (← pathsOf files directory pattern) ++ (← pathsOfAll files directory rest)) := by
  unfold pathsOfAll
  rw [List.mapM_cons]
  cases pathsOf files directory pattern with
  | error e => rfl
  | ok found => cases rest.mapM (pathsOf files directory) <;> rfl

theorem exists_pathsOfAll (h : ∀ pattern ∈ patterns, ∃ found, pathsOf files directory pattern = .ok found) :
    ∃ paths, pathsOfAll files directory patterns = .ok paths := by
  induction patterns with
  | nil => exact ⟨[], rfl⟩
  | cons pattern rest ih =>
    obtain ⟨⟨found, hfound⟩, hrest⟩ := List.forall_mem_cons.1 h
    obtain ⟨more, hmore⟩ := ih hrest
    exact ⟨found ++ more, by rw [pathsOfAll_cons, hfound, hmore]; rfl⟩

/-- Patterns stand for what each of them stands for. -/
theorem pathsOfAll_ok (h : pathsOfAll files directory patterns = .ok paths) :
    (∀ pattern ∈ patterns, ∃ found, pathsOf files directory pattern = .ok found) ∧
      ∀ path, path ∈ paths ↔ ∃ pattern ∈ patterns, ∃ found,
        pathsOf files directory pattern = .ok found ∧ path ∈ found := by
  induction patterns generalizing paths with
  | nil =>
    cases h
    exact ⟨nofun, by simp⟩
  | cons pattern rest ih =>
    rw [pathsOfAll_cons] at h
    rcases hfound : pathsOf files directory pattern with e | found <;> rw [hfound] at h
    · cases h
    rcases hmore : pathsOfAll files directory rest with e | more <;> rw [hmore] at h
    · cases h
    cases h
    obtain ⟨hall, hmem⟩ := ih hmore
    refine ⟨List.forall_mem_cons.2 ⟨⟨found, hfound⟩, hall⟩, fun path => ?_⟩
    simp [hfound, hmem]

/-- The same patterns in another order, or repeated, stand for the same paths. -/
theorem pathsOfAll_congr {patterns' : List String} (hsame : ∀ pattern, pattern ∈ patterns ↔ pattern ∈ patterns')
    (h : pathsOfAll files directory patterns = .ok paths) :
    ∃ paths', pathsOfAll files directory patterns' = .ok paths' ∧ ∀ path, path ∈ paths ↔ path ∈ paths' := by
  obtain ⟨hall, hmem⟩ := pathsOfAll_ok h
  obtain ⟨paths', h'⟩ := exists_pathsOfAll fun pattern hpattern => hall pattern ((hsame pattern).2 hpattern)
  refine ⟨paths', h', fun path => ?_⟩
  rw [hmem, (pathsOfAll_ok h').2]
  exact exists_congr fun pattern => and_congr_left' (hsame pattern)

end Glob

namespace Execution

variable {fs : Files} {t u : Task} {task path : String} {paths : List String}

theorem pathsOf_eq_ok_iff {patterns : List String} :
    pathsOf fs t patterns = .ok paths ↔ Glob.pathsOfAll fs t.base patterns = .ok paths := by
  unfold pathsOf
  cases Glob.pathsOfAll fs t.base patterns <;> simp [Except.mapError]

/-! ## Times -/

/-- There is a file at the path. -/
def IsThere (fs : Files) (path : String) : Prop := ∃ time, fs.modified path = .ok time

/-- There is no file at the path; nothing else is wrong with it. -/
def IsAbsent (fs : Files) (path : String) : Prop := fs.modified path = .error .notFound

/-- When the files at some paths were changed, as far as they are there. -/
def changeTimes (fs : Files) (paths : List String) : Set Instant :=
  {time | ∃ path ∈ paths, fs.modified path = .ok time}

theorem changeTimes_congr {paths' : List String} (h : ∀ path, path ∈ paths ↔ path ∈ paths') :
    changeTimes fs paths = changeTimes fs paths' := by
  ext time
  exact exists_congr fun path => and_congr_left' (h path)

theorem mem_changeTimes_cons {time : Instant} :
    time ∈ changeTimes fs (path :: paths) ↔ fs.modified path = .ok time ∨ time ∈ changeTimes fs paths := by
  constructor
  · rintro ⟨at', hat, htime⟩
    rcases List.mem_cons.1 hat with rfl | hat
    · exact .inl htime
    · exact .inr ⟨at', hat, htime⟩
  · rintro (htime | ⟨at', hat, htime⟩)
    · exact ⟨path, List.mem_cons_self, htime⟩
    · exact ⟨at', List.mem_cons_of_mem path hat, htime⟩

theorem exists_inputTimes (task : String) (h : ∀ path ∈ paths, IsThere fs path) :
    ∃ times, inputTimes fs task paths = .ok times := by
  induction paths with
  | nil => exact ⟨[], rfl⟩
  | cons path rest ih =>
    obtain ⟨⟨time, htime⟩, hrest⟩ := List.forall_mem_cons.1 h
    obtain ⟨times, htimes⟩ := ih hrest
    exact ⟨time :: times, by simp only [inputTimes, htime, htimes]; rfl⟩

/-- Inputs have times only if all of them are there. -/
theorem inputTimes_ok {times : List Instant} (h : inputTimes fs task paths = .ok times) :
    (∀ path ∈ paths, IsThere fs path) ∧ ∀ time, time ∈ times ↔ time ∈ changeTimes fs paths := by
  induction paths generalizing times with
  | nil =>
    cases h
    exact ⟨nofun, by simp [changeTimes]⟩
  | cons path rest ih =>
    unfold inputTimes at h
    split at h
    · rename_i time htime
      rcases hrest : inputTimes fs task rest with f | more <;> rw [hrest] at h
      · cases h
      cases h
      obtain ⟨hthere, hmem⟩ := ih hrest
      refine ⟨List.forall_mem_cons.2 ⟨⟨time, htime⟩, hthere⟩, fun x => ?_⟩
      rw [List.mem_cons, mem_changeTimes_cons, htime, hmem, Except.ok.injEq, eq_comm]
    · cases h

/-- The first input that is not there is at fault. -/
theorem inputTimes_missing {before after : List String} {f : FileFault} (hbefore : ∀ path ∈ before, IsThere fs path)
    (hpath : fs.modified path = .error f) :
    inputTimes fs task (before ++ path :: after) = .error (.input task path f) := by
  induction before with
  | nil => simp only [List.nil_append, inputTimes, hpath]
  | cons first rest ih =>
    obtain ⟨⟨time, htime⟩, hrest⟩ := List.forall_mem_cons.1 hbefore
    simp only [List.cons_append, inputTimes, htime, ih hrest]
    rfl

theorem exists_outputTimes (task : String) (h : ∀ path ∈ paths, IsThere fs path ∨ IsAbsent fs path) :
    ∃ times, outputTimes fs task paths = .ok times := by
  induction paths with
  | nil => exact ⟨[], rfl⟩
  | cons path rest ih =>
    obtain ⟨hpath, hrest⟩ := List.forall_mem_cons.1 h
    obtain ⟨times, htimes⟩ := ih hrest
    rcases hpath with ⟨time, htime⟩ | habsent
    · exact ⟨time :: times, by simp only [outputTimes, htime, htimes]; rfl⟩
    · exact ⟨times, by simp only [outputTimes, show fs.modified path = .error .notFound from habsent, htimes]⟩

/-- Outputs have times if nothing is wrong with those that are not there. -/
theorem outputTimes_ok {times : List Instant} (h : outputTimes fs task paths = .ok times) :
    (∀ path ∈ paths, IsThere fs path ∨ IsAbsent fs path) ∧
      ∀ time, time ∈ times ↔ time ∈ changeTimes fs paths := by
  induction paths generalizing times with
  | nil =>
    cases h
    exact ⟨nofun, by simp [changeTimes]⟩
  | cons path rest ih =>
    unfold outputTimes at h
    split at h
    · rename_i time htime
      rcases hrest : outputTimes fs task rest with f | more <;> rw [hrest] at h
      · cases h
      cases h
      obtain ⟨hok, hmem⟩ := ih hrest
      refine ⟨List.forall_mem_cons.2 ⟨.inl ⟨time, htime⟩, hok⟩, fun x => ?_⟩
      rw [List.mem_cons, mem_changeTimes_cons, htime, hmem, Except.ok.injEq, eq_comm]
    · -- an output that is not there adds no time
      rename_i habsent
      obtain ⟨hok, hmem⟩ := ih h
      refine ⟨List.forall_mem_cons.2 ⟨.inr habsent, hok⟩, fun x => ?_⟩
      rw [hmem, mem_changeTimes_cons, habsent]
      exact (or_iff_right nofun).symm
    · cases h

/-! ## The newest times -/

/-- The newest output is newer than the newest input. -/
def Newer (fs : Files) (inputs outputs : List String) : Prop :=
  ∃ i o, IsGreatest (changeTimes fs inputs) i ∧ IsGreatest (changeTimes fs outputs) o ∧ i < o

theorem max?_eq_some_iff_isGreatest {times : List Instant} {set : Set Instant} {newest : Instant}
    (h : ∀ time, time ∈ times ↔ time ∈ set) : times.max? = some newest ↔ IsGreatest set newest := by
  rw [List.max?_eq_some_iff, h]
  exact and_congr_right' (forall_congr' fun time => by rw [h])

theorem Freshness.ofTimes_isUpToDate_iff {inputs outputs : List Instant} :
    (ofTimes inputs outputs).isUpToDate = true ↔
      ∃ i o, inputs.max? = some i ∧ outputs.max? = some o ∧ i < o := by
  unfold ofTimes
  cases outputs with
  | nil => simp [none, isUpToDate]
  | cons output rest =>
    rw [List.max?_cons', List.min?_cons']
    cases inputs.max? with
    | none => simp [none, isUpToDate]
    | some input => simp [isUpToDate]

/-- Without inputs nothing is newer than they are. -/
theorem Newer.ne_nil {inputs outputs : List String} (h : Newer fs inputs outputs) : inputs ≠ [] := by
  rintro rfl
  obtain ⟨i, -, ⟨⟨path, hpath, -⟩, -⟩, -⟩ := h
  cases hpath

/-- Some output is there that is newer. -/
theorem Newer.exists_isThere {inputs outputs : List String} (h : Newer fs inputs outputs) :
    ∃ path ∈ outputs, IsThere fs path := by
  obtain ⟨-, o, -, ⟨⟨path, hpath, htime⟩, -⟩, -⟩ := h
  exact ⟨path, hpath, o, htime⟩

theorem Newer.congr {inputs outputs inputs' outputs' : List String} (hi : ∀ path, path ∈ inputs ↔ path ∈ inputs')
    (ho : ∀ path, path ∈ outputs ↔ path ∈ outputs') : Newer fs inputs outputs ↔ Newer fs inputs' outputs' := by
  unfold Newer
  rw [changeTimes_congr hi, changeTimes_congr ho]

theorem ofTimes_isUpToDate_iff_newer {inputs outputs : List String} {inputTimes outputTimes : List Instant}
    (hi : ∀ time, time ∈ inputTimes ↔ time ∈ changeTimes fs inputs)
    (ho : ∀ time, time ∈ outputTimes ↔ time ∈ changeTimes fs outputs) :
    (Freshness.ofTimes inputTimes outputTimes).isUpToDate = true ↔ Newer fs inputs outputs := by
  rw [Freshness.ofTimes_isUpToDate_iff]
  exact exists₂_congr fun i o =>
    and_congr (max?_eq_some_iff_isGreatest hi) (and_congr_left' (max?_eq_some_iff_isGreatest ho))

/-! ## The decision of a task -/

/-- Whether a task is up to date, as its files show it. -/
def isUpToDate (fs : Files) (t : Task) : Except Fault Bool := (freshness fs t).map Freshness.isUpToDate

/-- A task whose patterns stand for paths shows what these show. -/
theorem freshness_eq {inputs outputs : List String} (hi : pathsOf fs t t.inputs = .ok inputs)
    (ho : pathsOf fs t t.outputs = .ok outputs) :
    freshness fs t = (do
      let times ← inputTimes fs t.name inputs
      if times.isEmpty then return .none else return .ofTimes times (← outputTimes fs t.name outputs)) := by
  unfold freshness
  rw [hi, ho]
  rfl

/-- What there must be for a decision: inputs that are all there and, if there are any, outputs with nothing
wrong but that they are not there. -/
structure Decided (fs : Files) (t : Task) (inputs outputs : List String) : Prop where
  inputs_eq : pathsOf fs t t.inputs = .ok inputs
  outputs_eq : pathsOf fs t t.outputs = .ok outputs
  isThere : ∀ path ∈ inputs, IsThere fs path
  accounted : inputs ≠ [] → ∀ path ∈ outputs, IsThere fs path ∨ IsAbsent fs path

namespace Decided

variable {inputs outputs : List String}

/-- It is for the newest output and the newest input to decide. -/
theorem isUpToDate (h : Decided fs t inputs outputs) :
    ∃ b, isUpToDate fs t = .ok b ∧ (b = true ↔ Newer fs inputs outputs) := by
  obtain ⟨inputTimes, hinputTimes⟩ := exists_inputTimes t.name h.isThere
  have hi := (inputTimes_ok hinputTimes).2
  unfold Execution.isUpToDate
  rw [freshness_eq h.inputs_eq h.outputs_eq, hinputTimes]
  cases inputTimes with
  | nil =>
    -- the outputs are not looked at, and there is nothing they could be newer than
    refine ⟨false, rfl, iff_of_false nofun ?_⟩
    rintro ⟨i, -, ⟨hmem, -⟩, -⟩
    exact List.not_mem_nil ((hi i).2 hmem)
  | cons first more =>
    obtain ⟨path, hpath, -⟩ := (hi first).1 List.mem_cons_self
    obtain ⟨outputTimes, houtputTimes⟩ := exists_outputTimes t.name (h.accounted (List.ne_nil_of_mem hpath))
    exact ⟨_, by rw [houtputTimes]; rfl, ofTimes_isUpToDate_iff_newer hi (outputTimes_ok houtputTimes).2⟩

/-- There is no other decision. -/
theorem of_isUpToDate {b : Bool} (h : Execution.isUpToDate fs t = .ok b) :
    ∃ inputs outputs, Decided fs t inputs outputs := by
  unfold Execution.isUpToDate at h
  rcases hshown : freshness fs t with f | shown <;> rw [hshown] at h
  · cases h
  obtain ⟨inputs, hi, hshown⟩ := exists_of_bind_ok hshown
  obtain ⟨outputs, ho, hshown⟩ := exists_of_bind_ok hshown
  obtain ⟨times, htimes, hshown⟩ := exists_of_bind_ok hshown
  obtain ⟨hthere, hmem⟩ := inputTimes_ok htimes
  refine ⟨inputs, outputs, hi, ho, hthere, fun hne => ?_⟩
  -- some input has a time, so the outputs were looked at
  have htimes_ne : times ≠ [] := by
    rintro rfl
    obtain ⟨path, hpath⟩ := List.exists_mem_of_ne_nil inputs hne
    obtain ⟨time, htime⟩ := hthere path hpath
    exact List.not_mem_nil ((hmem time).2 ⟨path, hpath, htime⟩)
  rw [if_neg (by simpa using htimes_ne)] at hshown
  obtain ⟨outputTimes, houtputTimes, -⟩ := exists_of_bind_ok hshown
  exact (outputTimes_ok houtputTimes).1

/-- The same patterns in another order, or repeated, are decided by the same. -/
theorem congr (h : Decided fs t inputs outputs) (hbase : t.base = u.base)
    (hi : ∀ pattern, pattern ∈ t.inputs ↔ pattern ∈ u.inputs)
    (ho : ∀ pattern, pattern ∈ t.outputs ↔ pattern ∈ u.outputs) :
    ∃ inputs' outputs', Decided fs u inputs' outputs' ∧ (Newer fs inputs outputs ↔ Newer fs inputs' outputs') := by
  have hinputs := pathsOf_eq_ok_iff.1 h.inputs_eq
  have houtputs := pathsOf_eq_ok_iff.1 h.outputs_eq
  rw [hbase] at hinputs houtputs
  obtain ⟨inputs', hinputs', hmemi⟩ := Glob.pathsOfAll_congr hi hinputs
  obtain ⟨outputs', houtputs', hmemo⟩ := Glob.pathsOfAll_congr ho houtputs
  refine ⟨inputs', outputs', ⟨pathsOf_eq_ok_iff.2 hinputs', pathsOf_eq_ok_iff.2 houtputs',
    fun path hpath => h.isThere path ((hmemi path).2 hpath), fun hne path hpath => ?_⟩, Newer.congr hmemi hmemo⟩
  -- the outputs are looked at for both tasks or for neither, as both have inputs or neither has
  obtain ⟨path', hpath'⟩ := List.exists_mem_of_ne_nil inputs' hne
  exact h.accounted (List.ne_nil_of_mem ((hmemi path').2 hpath')) path ((hmemo path).2 hpath)

end Decided

/-- A decision is the same for all orders of the patterns, whichever of them are repeated. -/
theorem isUpToDate_congr {b : Bool} (h : isUpToDate fs t = .ok b) (hbase : t.base = u.base)
    (hi : ∀ pattern, pattern ∈ t.inputs ↔ pattern ∈ u.inputs)
    (ho : ∀ pattern, pattern ∈ t.outputs ↔ pattern ∈ u.outputs) : isUpToDate fs u = .ok b := by
  obtain ⟨inputs, outputs, hd⟩ := Decided.of_isUpToDate h
  obtain ⟨b', hb', hnewer⟩ := hd.isUpToDate
  obtain rfl : b' = b := by rw [hb'] at h; exact Except.ok.inj h
  obtain ⟨inputs', outputs', hd', hsame⟩ := hd.congr hbase hi ho
  obtain ⟨b'', hb'', hnewer'⟩ := hd'.isUpToDate
  rw [hb'', Bool.eq_iff_iff.2 (hnewer'.trans (hsame.symm.trans hnewer.symm))]

/-- An input that is not there decides nothing. -/
theorem isUpToDate_missing {before after : List String} {f : FileFault}
    (hi : pathsOf fs t t.inputs = .ok (before ++ path :: after)) (hbefore : ∀ path ∈ before, IsThere fs path)
    (hpath : fs.modified path = .error f) :
    isUpToDate fs t = (pathsOf fs t t.outputs).bind fun _ => .error (.input t.name path f) := by
  unfold isUpToDate freshness
  rw [hi]
  cases pathsOf fs t t.outputs with
  | error e => rfl
  | ok outputs =>
    show Except.map Freshness.isUpToDate (inputTimes fs t.name (before ++ path :: after) >>= _) = _
    rw [inputTimes_missing hbefore hpath]
    rfl

/-- What is told of the outputs plays no part in what the files of a task that is not skipped decide. -/
theorem settled_eq_isUpToDate (s : Settings) {w : World} (hskipped : isSkipped w.host.files t = .ok false) :
    (settled s t w).1 = (isUpToDate w.host.files t).map fun b => if b then some .upToDate else none := by
  obtain ⟨messages, hw⟩ := settled_eq s t w
  rw [hw]
  unfold outcomeOf isUpToDate
  rw [hskipped]
  cases freshness w.host.files t <;> rfl

/-- The newest of the outputs that are there and the newest input decide whether a task is up to date. Neither
the order of the patterns nor the bound that a warning about the outputs has plays a part in it. A task with an
input that is not there is not decided; the patterns of its outputs come before that input. -/
theorem newest_times_decide (fs : Files) (t : Task) :
    (∀ inputs outputs, pathsOf fs t t.inputs = .ok inputs → pathsOf fs t t.outputs = .ok outputs →
      (∀ path ∈ inputs, IsThere fs path) → (∀ path ∈ outputs, IsThere fs path ∨ IsAbsent fs path) →
      ∃ b, isUpToDate fs t = .ok b ∧
        (b = true ↔ inputs ≠ [] ∧ (∃ path ∈ outputs, IsThere fs path) ∧ Newer fs inputs outputs)) ∧
    (∀ u : Task, t.base = u.base → (∀ pattern, pattern ∈ t.inputs ↔ pattern ∈ u.inputs) →
      (∀ pattern, pattern ∈ t.outputs ↔ pattern ∈ u.outputs) →
      ∀ b, isUpToDate fs t = .ok b ↔ isUpToDate fs u = .ok b) ∧
    (∀ (s : Settings) (w : World), w.host.files = fs → isSkipped fs t = .ok false →
      (settled s t w).1 = (isUpToDate fs t).map fun b => if b then some .upToDate else none) ∧
    (∀ before path after f, pathsOf fs t t.inputs = .ok (before ++ path :: after) →
      (∀ path ∈ before, IsThere fs path) → fs.modified path = .error f →
      (∀ b, isUpToDate fs t ≠ .ok b) ∧
      (∀ outputs, pathsOf fs t t.outputs = .ok outputs → isUpToDate fs t = .error (.input t.name path f)) ∧
      (∀ e, pathsOf fs t t.outputs = .error e → isUpToDate fs t = .error e)) := by
  refine ⟨fun inputs outputs hi ho hthere hok => ?_, fun u hbase hi ho b => ⟨fun h => ?_, fun h => ?_⟩,
    fun s w hfiles hskipped => ?_, fun before path after f hi hbefore hpath => ?_⟩
  · obtain ⟨b, hb, hnewer⟩ := Decided.isUpToDate ⟨hi, ho, hthere, fun _ => hok⟩
    exact ⟨b, hb, hnewer.trans ⟨fun h => ⟨h.ne_nil, h.exists_isThere, h⟩, fun h => h.2.2⟩⟩
  · exact isUpToDate_congr h hbase hi ho
  · exact isUpToDate_congr h hbase.symm (fun pattern => (hi pattern).symm) fun pattern => (ho pattern).symm
  · subst hfiles
    exact settled_eq_isUpToDate s hskipped
  · have hmissing := isUpToDate_missing hi hbefore hpath
    refine ⟨fun b h => ?_, fun outputs ho => by rw [hmissing, ho]; rfl, fun e he => by rw [hmissing, he]; rfl⟩
    rw [hmissing] at h
    cases ho : pathsOf fs t t.outputs <;> rw [ho] at h <;> cases h

/-- A file that a task makes of another one. -/
def madeFiles (input output : Instant) : Files :=
  ⟨[([], .directory 0), (["in"], .file 0), (["out"], .file 1)], [⟨[], input⟩, ⟨[], output⟩], [], 10, []⟩

theorem modified_in (input output : Instant) : (madeFiles input output).modified "/in" = .ok input := by
  have hplace : (madeFiles input output).locate true "/in" = .ok (.found ["in"] (.file 0)) := by
    unfold Files.locate Files.walk
    rfl
  exact Files.modified_of_locate hplace

theorem modified_out (input output : Instant) : (madeFiles input output).modified "/out" = .ok output := by
  have hplace : (madeFiles input output).locate true "/out" = .ok (.found ["out"] (.file 1)) := by
    unfold Files.locate Files.walk
    rfl
  exact Files.modified_of_locate hplace

theorem modified_absent (input output : Instant) : (madeFiles input output).modified "/x" = .error .notFound := by
  have hplace : (madeFiles input output).locate true "/x" = .ok (.vacant [] "x") := by
    unfold Files.locate Files.walk
    rfl
  exact Files.modified_of_vacant hplace

/-- A task that makes a file, and may make others. -/
def making (inputs outputs : List String) : Task :=
  { name := "t", description := "", visible := true, base := "/", deps := [], inputs, outputs
    skipIfExists := [], env := [], cmds := [] }

theorem newest_times_decide_making :
    isUpToDate (madeFiles 3 4) (making ["in"] ["x", "out"]) = .ok true ∧
    isUpToDate (madeFiles 3 4) (making ["in", "in"] ["out", "x", "out"]) = .ok true ∧
    (∀ (s : Settings) (w : World), w.host.files = madeFiles 3 4 →
      (settled s (making ["in"] ["x", "out"]) w).1 = .ok (some .upToDate)) ∧
    isUpToDate (madeFiles 3 4) (making ["in", "x"] ["out"]) = .error (.input "t" "/x" .notFound) := by
  have hin := modified_in 3 4
  have hout := modified_out 3 4
  have habsent := modified_absent 3 4
  have hinputs : ∀ path ∈ ["/in"], IsThere (madeFiles 3 4) path := by simpa using ⟨3, hin⟩
  obtain ⟨hdecision, hcongr, hsettled, -⟩ := newest_times_decide (madeFiles 3 4) (making ["in"] ["x", "out"])
  have houtputs : ∀ path ∈ ["/x", "/out"], IsThere (madeFiles 3 4) path ∨ IsAbsent (madeFiles 3 4) path := by
    simpa using ⟨.inr habsent, .inl ⟨4, hout⟩⟩
  have hnewer : Newer (madeFiles 3 4) ["/in"] ["/x", "/out"] := by
    refine ⟨3, 4, ⟨⟨"/in", by simp, hin⟩, fun time htime => ?_⟩, ⟨⟨"/out", by simp, hout⟩, fun time htime => ?_⟩,
      by decide⟩
    · obtain rfl : time = 3 := by simpa [changeTimes, hin] using htime
      exact le_rfl
    · obtain rfl : time = 4 := by simpa [changeTimes, habsent, hout] using htime
      exact le_rfl
  have htrue : isUpToDate (madeFiles 3 4) (making ["in"] ["x", "out"]) = .ok true := by
    obtain ⟨b, hb, hiff⟩ := hdecision ["/in"] ["/x", "/out"] (by decide +kernel) (by decide +kernel) hinputs houtputs
    rw [hb, hiff.2 ⟨by simp, ⟨"/out", by simp, 4, hout⟩, hnewer⟩]
  refine ⟨htrue, ?_, fun s w hw => ?_, ?_⟩
  · exact (hcongr (making ["in", "in"] ["out", "x", "out"]) rfl (by simp [making]) (by simp [making]) true).1 htrue
  · rw [hsettled s w hw (by decide +kernel), htrue]
    rfl
  · exact ((newest_times_decide (madeFiles 3 4) (making ["in", "x"] ["out"])).2.2.2 ["/in"] "/x" [] .notFound
      (by decide +kernel) hinputs habsent).2.1 ["/out"] (by decide +kernel)

/-- An input that is not there is not always at fault: the pattern of an output may be. -/
theorem pattern_before_missing :
    ¬ ∀ (fs : Files) (t : Task) before path after f, pathsOf fs t t.inputs = .ok (before ++ path :: after) →
      (∀ path ∈ before, IsThere fs path) → fs.modified path = .error f →
      isUpToDate fs t = .error (.input t.name path f) := by
  intro h
  have hi : pathsOf (madeFiles 3 4) (making ["x"] ["a/***"]) ["x"] = .ok ([] ++ "/x" :: []) := by decide +kernel
  have habsent := modified_absent 3 4
  have hpattern : pathsOf (madeFiles 3 4) (making ["x"] ["a/***"]) (making ["x"] ["a/***"]).outputs =
      .error (.pattern "t" ⟨"a/***", .wildcards⟩) := by decide +kernel
  have hmissing := h _ _ _ _ _ _ hi nofun habsent
  rw [isUpToDate_missing hi nofun habsent, hpattern] at hmissing
  cases hmissing

end Execution
end Taskwork
