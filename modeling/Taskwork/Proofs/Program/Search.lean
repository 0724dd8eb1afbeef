/-
When a program is not found. That is told only of a call that could be made and whose directory is there, or
is not there at all; and then nothing is at the path of the program, or in none of the directories that are
searched, and not even the last of these failed in another way. All else is another fault, with which starting
the program fails.
-/
import Taskwork.Program.Native
import Taskwork.Proofs.Text.Split

namespace Taskwork.Program.Native

variable {files : Files} {start name path : String} {denied : Bool} {last : FileFault} {call : Call} {r d : Route}

/-! ## The programs among the files -/

/-- At any place that is none of a program the files are as they are. -/
theorem entry?_withPrograms (files : Files) (hr : r ∉ programRoutes) :
    Files.entry? (withPrograms files) r = files.entry? r := by
  have hnone : (programRoutes.map fun r => (r, Entry.void)).find? (fun row => row.1 == r) = none := by
    rw [List.find?_eq_none, List.forall_mem_map]
    exact fun q hq => by simpa using fun hqr : q = r => hr (hqr ▸ hq)
  unfold Files.entry? withPrograms
  rw [List.find?_append, hnone, Option.none_or]

theorem atPath_of_vacant (h : (withPrograms files).locate true path = .ok (.vacant d name)) :
    atPath files path = .error .notFound := by
  rw [atPath, h]

/-! ## Searching -/

/-- A directory that can be searched has nothing by the name, or it is no directory. -/
def Lacks (files : Files) (start name d : String) : Prop :=
  seenFrom files start (Path.join d name) = .error .notFound ∨
    seenFrom files start (Path.join d name) = .error .notADirectory

/-- A search finds nothing if no directory has anything by the name, not even what may not be run, and the last one
tells just this. -/
theorem search_eq_notFound_iff (files : Files) (start name d : String) (front : List String) :
    search files start name denied last (front ++ [d]) = .error .notFound ↔
      denied = false ∧ (∀ d' ∈ front, Lacks files start name d') ∧
        seenFrom files start (Path.join d name) = .error .notFound := by
  induction front generalizing denied last with
  | nil =>
    rw [List.nil_append, search]
    cases hfound : seenFrom files start (Path.join d name) with
    | ok program => simp
    | error f => cases f <;> cases denied <;> simp [isPassedOver, search]
  | cons d' front ih =>
    rw [List.cons_append, search, List.forall_mem_cons]
    cases hfound : seenFrom files start (Path.join d' name) with
    | ok program => simp [Lacks, hfound]
    | error f => cases f <;> simp [isPassedOver, ih, Lacks, hfound]

theorem searchPath_ne_nil (call : Call) : searchPath call ≠ [] := by
  unfold searchPath splitColons
  rw [Ne, List.map_eq_nil_iff]
  exact Text.splitOn_ne_nil _ _

/-- Nothing is where a program is looked up: at its path if the name has a slash, else in the directories that are
searched. -/
def IsNowhere (files : Files) (call : Call) (name : String) : Prop :=
  if '/' ∈ name.toList then seenFrom files call.directory name = .error .notFound
  else ∃ front d, searchPath call = front ++ [d] ∧ (∀ d' ∈ front, Lacks files call.directory name d') ∧
    seenFrom files call.directory (Path.join d name) = .error .notFound

/-- **When a program is not found**: the call can be made, and its directory is not there, or it is and nothing is
where the program is looked up. -/
theorem find_eq_notFound_iff (files : Files) (call : Call) (name : String) :
    find files call name = .error .notFound ↔ isCutShort call = false ∧
      (startIn files call.directory = .error .notFound ∨
        startIn files call.directory = .ok () ∧ (name = "" ∨ name ≠ "" ∧ IsNowhere files call name)) := by
  obtain ⟨front, d, hpath⟩ : ∃ front d, searchPath call = front ++ [d] :=
    (List.eq_nil_or_concat' _).resolve_left (searchPath_ne_nil call)
  have hsearch : search files call.directory name false .notFound (searchPath call) = .error .notFound ↔
      ∃ front d, searchPath call = front ++ [d] ∧ (∀ d' ∈ front, Lacks files call.directory name d') ∧
        seenFrom files call.directory (Path.join d name) = .error .notFound := by
    constructor
    · intro hnone
      rw [hpath] at hnone
      exact ⟨front, d, hpath, ((search_eq_notFound_iff ..).1 hnone).2⟩
    · rintro ⟨front, d, hpath, hnone⟩
      rw [hpath]
      exact (search_eq_notFound_iff ..).2 ⟨rfl, hnone⟩
  unfold find IsNowhere
  cases hcut : isCutShort call with
  | true => simp
  | false =>
    cases hstart : startIn files call.directory with
    | error f => simp
    | ok _ =>
      by_cases hname : name = ""
      · simp [hname]
      · by_cases hslash : '/' ∈ name.toList
        · simp [hname, hslash]
        · simp [hname, hslash, hsearch]

end Taskwork.Program.Native
