/-
The paths that a field stands for. They are looked for behind the part of the field before its wildcards, its lead. In a
sound tree each argument is there, seen from the directory. But what is left of a path below the directory is written
from its steps again. So it begins with the lead as written only if that begins with a step and has nothing empty
between its slashes, if more than its steps is found, and if the directory is set apart from it by a slash.
-/
import Mathlib
import Taskwork.Proofs.Glob.Found
import Taskwork.Proofs.Shell.Inert

namespace Taskwork.Shell

open Glob (Mark isLive)
open Taskwork.Path (isAbsolute pieces stepsOf strip)

variable {files : Files} {directory found : String}

/-! ## The directory in front of a pattern -/

theorem map_directoryMarks (directory : String) : (directoryMarks directory).map (·.1) = directory.toList ++
    if directory.toList.getLast? = some '/' ∨ directory.toList.getLast? = some '\\' then [] else ['/'] := by
  have hchars : directory.toList.map ((·.1) ∘ (·, true)) = directory.toList := List.map_id _
  have hlast : ((Glob.escape directory).toList.getLast? == some '/' ||
        (Glob.escape directory).toList.getLast? == some '\\') = true ↔
      directory.toList.getLast? = some '/' ∨ directory.toList.getLast? = some '\\' := by
    rw [Glob.escape, String.toList_ofList, Bool.or_eq_true, beq_iff_eq, beq_iff_eq,
      Glob.getLast?_escapeChars (by decide), Glob.getLast?_escapeChars (by decide)]
  unfold directoryMarks
  dsimp only
  split
  · rename_i hend
    rw [if_pos (hlast.1 hend), List.map_map, hchars, List.append_nil]
  · rename_i hend
    rw [if_neg (mt hlast.2 hend), List.map_append, List.map_map, hchars]
    rfl

theorem exists_cons_directoryMarks (habs : isAbsolute directory = true) :
    ∃ ms, directoryMarks directory = ('/', true) :: ms ∧ ∀ m ∈ ms, m.2 = true := by
  obtain ⟨rest, hrest⟩ := List.head?_eq_some_iff.1 (beq_iff_eq.1 habs)
  unfold directoryMarks
  rw [hrest]
  dsimp only
  split
  · exact ⟨rest.map (·, true), rfl, by simp⟩
  · exact ⟨rest.map (·, true) ++ [('/', true)], rfl, by simp⟩

/-- A directory that does not end in a backslash is set apart: its steps stand before what follows. -/
theorem exists_pieces_of_directory (habs : isAbsolute directory = true)
    (hback : directory.toList.getLast? ≠ some '\\') :
    ∃ ds, stepsOf ds = stepsOf (pieces directory.toList) ∧ ∀ cs body : List Char,
      (directoryMarks directory).map (·.1) ++ cs = '/' :: body → pieces body = ds ++ pieces cs := by
  obtain ⟨rest, hrest⟩ := List.head?_eq_some_iff.1 (beq_iff_eq.1 habs)
  obtain ⟨before, ds, hbefore, hds, hsteps⟩ : ∃ before ds, (directoryMarks directory).map (·.1) = before ++ ['/'] ∧
      pieces before = [] :: ds ∧ stepsOf ds = stepsOf (pieces directory.toList) := by
    rw [map_directoryMarks]
    by_cases hslash : directory.toList.getLast? = some '/'
    · -- the slash is the directory's own
      obtain ⟨before, hbefore⟩ := List.getLast?_eq_some_iff.1 hslash
      rw [if_pos (.inl hslash), hbefore, Path.pieces_append_slash, Path.pieces_nil, Path.stepsOf_append]
      cases before with
      | nil => exact ⟨[], [], rfl, rfl, rfl⟩
      | cons c before =>
        rw [hrest] at hbefore
        obtain rfl : '/' = c := (List.cons.inj hbefore).1
        exact ⟨_, pieces before, List.append_nil _, Path.pieces_cons_slash _, by simp [stepsOf, Path.isIdle]⟩
    · rw [if_neg (by simp [hslash, hback]), hrest]
      exact ⟨_, pieces rest, rfl, Path.pieces_cons_slash _, by simp [stepsOf, Path.isIdle]⟩
  refine ⟨ds, hsteps, fun cs body hbody => ?_⟩
  have h := congrArg pieces hbody
  rw [hbefore, List.append_assoc, List.singleton_append, Path.pieces_append_slash, hds, Path.pieces_cons_slash] at h
  exact (List.cons.inj h).2.symm

/-- A directory that ends in a backslash is not set apart: its last name goes on. -/
theorem not_prefix_of_backslash (hback : directory.toList.getLast? = some '\\') {cs body : List Char}
    (hcs : ∀ p ∈ (pieces cs).head?, p ≠ []) (hbody : (directoryMarks directory).map (·.1) ++ cs = '/' :: body)
    (steps : List (List Char)) :
    ¬ stepsOf (pieces directory.toList) <+: stepsOf (pieces body) ++ steps := by
  obtain ⟨text, htext⟩ := List.getLast?_eq_some_iff.1 hback
  obtain ⟨before, last, hlast⟩ : ∃ before last, pieces text = before ++ [last] :=
    ⟨_, _, (List.dropLast_append_getLast (Text.splitOn_ne_nil _ text)).symm⟩
  obtain ⟨first, more, hfirst⟩ : ∃ first more, pieces cs = first :: more :=
    List.exists_cons_of_ne_nil (Text.splitOn_ne_nil _ cs)
  have hdirectory : pieces directory.toList = before ++ [last ++ ['\\']] :=
    htext ▸ Path.pieces_append hlast (Path.pieces_of_no_slash (by decide))
  have hwhole : [] :: pieces body = before ++ (last ++ ['\\'] ++ first) :: more := by
    rw [← Path.pieces_cons_slash, ← hbody, map_directoryMarks, if_pos (.inr hback), List.append_nil]
    exact Path.pieces_append hdirectory hfirst
  have hsteps : stepsOf (pieces body) = stepsOf ([] :: pieces body) := rfl
  -- in place of the last name of the directory stands a longer one
  rw [hsteps, hwhole, hdirectory, Path.stepsOf_append, Path.stepsOf_append, List.append_assoc,
    List.prefix_append_right_inj, Path.stepsOf_cons_of_mem (c := '\\') (by simp) (by decide),
    Path.stepsOf_cons_of_mem (c := '\\') (by simp) (by decide), List.cons_append, List.cons_prefix_cons]
  rintro ⟨hname, -⟩
  exact hcs first (by rw [hfirst]; rfl) (List.append_right_eq_self.1 hname.symm)

/-- A path that stands behind a directory and a text before a slash: first their pieces stand between its slashes, then
other names, and perhaps a slash stands at its end. -/
structure Behind (directory found : String) (cs body rest : List Char) (names last : List (List Char)) : Prop where
  start : (directoryMarks directory).map (·.1) ++ cs = '/' :: body
  text : found.toList = '/' :: rest
  pieces : Path.pieces rest = (Path.pieces body).filter (· ≠ []) ++ names ++ last
  named : ∀ name ∈ names, '/' ∉ name ∧ name ≠ []
  ends : ∀ p ∈ last, p = []

namespace Behind

variable {cs body rest : List Char} {names last : List (List Char)} (h : Behind directory found cs body rest names last)
  (habs : isAbsolute directory = true)
include h habs

/-- Below a directory that is set apart the names are left, behind those of the text. -/
theorem below?_of_apart (hback : directory.toList.getLast? ≠ some '\\') : Path.below? directory found =
    some (Path.stripped ((Path.pieces cs).filter (· ≠ []) ++ names)) := by
  obtain ⟨ds, hds, hsplit⟩ := exists_pieces_of_directory habs hback
  have hidle : ∀ p ∈ last, Path.isIdle p = true := fun p hp => by rw [h.ends p hp]; rfl
  rw [Path.stripped, ← Path.strip_append hidle]
  refine Path.below?_of_split habs h.text ?_ ((Path.stepsOf_filter ds).trans hds)
  rw [h.pieces, hsplit cs body h.start]
  simp

/-- It does not lie below any other directory. -/
theorem below?_of_backslash (hback : directory.toList.getLast? = some '\\')
    (hcs : ∀ p ∈ (Path.pieces cs).head?, p ≠ []) :
    Path.below? directory found = none := by
  rw [Path.below?_eq habs h.text, h.pieces, Path.stepsOf_append, Path.stepsOf_append, Path.stepsOf_filter,
    List.append_assoc, if_neg (not_prefix_of_backslash hback hcs h.start _)]

/-- What is shown of it begins with the text up to the slash just if the directory is set apart, the text is straight,
and more than the steps of the text is shown. -/
theorem prefix_shown_iff {lead : String} (hlead : lead.toList = cs ++ ['/']) (hrelative : isAbsolute lead = false) :
    lead.toList <+: ((Path.below? directory found).getD found).toList ↔ directory.toList.getLast? ≠ some '\\' ∧
      Path.IsStraight lead ∧ Path.components ((Path.below? directory found).getD found) ≠ Path.components lead := by
  have hhead : (cs ++ ['/']).head? ≠ some '/' := by
    rw [← hlead]
    simpa [isAbsolute] using hrelative
  by_cases hback : directory.toList.getLast? = some '\\'
  · have hbelow := h.below?_of_backslash habs hback (Path.head_pieces_ne_nil hhead)
    have hnot : ¬ cs ++ ['/'] <+: '/' :: rest := by
      rintro ⟨more, hmore⟩
      have hfirst := congrArg List.head? hmore
      rw [List.head?_append_of_ne_nil _ (by simp)] at hfirst
      exact hhead hfirst
    rw [hbelow, Option.getD_none, h.text, hlead]
    simp [hnot, hback]
  · rw [h.below?_of_apart habs hback, Option.getD_some, Path.prefix_rest_iff hlead h.named]
    simp [hback]

end Behind

/-! ## The part of a field before its wildcards -/

namespace Field

variable {f : Field} {paths : List String} {before : List Mark} {slash : Mark}

/-- What stands before the first component with a wildcard that is not quoted, with the slash behind it. -/
def leadMarks (f : Field) : List Mark := Text.dropLastWhile (·.1 != '/') (f.marks.takeWhile (!isLive ·))

def lead (f : Field) : String := String.ofList (f.leadMarks.map (·.1))

/-- The lead is empty, or it goes up to a slash before which no wildcard stands. -/
theorem lead_cases (f : Field) :
    f.lead = "" ∨ ∃ before slash more, f.marks = before ++ slash :: more ∧ slash.1 = '/' ∧
      (∀ m ∈ before, isLive m = false) ∧ f.lead.toList = before.map (·.1) ++ ['/'] := by
  obtain ⟨post, hpost, -, hlast⟩ := Path.exists_dropLastWhile (·.1 != '/') (f.marks.takeWhile (!isLive ·))
  change _ = f.leadMarks ++ post at hpost
  change ∀ m ∈ f.leadMarks.getLast?, _ at hlast
  unfold lead
  rcases List.eq_nil_or_concat f.leadMarks with hnil | ⟨before, slash, hlead⟩
  · left
    rw [hnil]
    rfl
  · right
    rw [List.concat_eq_append] at hlead
    rw [hlead] at hpost hlast ⊢
    have hslash : slash.1 = '/' := by simpa using hlast slash List.getLast?_concat
    refine ⟨before, slash, post ++ f.marks.dropWhile (!isLive ·), ?_, hslash, fun m hm => ?_, ?_⟩
    · conv_lhs => rw [← List.takeWhile_append_dropWhile (p := (!isLive ·)) (l := f.marks), hpost]
      simp
    · have hmem : m ∈ f.marks.takeWhile (!isLive ·) := by simp [hpost, hm]
      simpa using List.mem_takeWhile_imp hmem
    · rw [String.toList_ofList, List.map_append, List.map_singleton, hslash]

/-- The lead of a relative field is relative. -/
theorem not_isAbsolute_lead (hrelative : isAbsolute f.text = false) {more : List Mark} (hslash : slash.1 = '/')
    (hmarks : f.marks = before ++ slash :: more) (hlead : f.lead.toList = before.map (·.1) ++ ['/']) :
    isAbsolute f.lead = false := by
  have htext : f.text.toList = f.lead.toList ++ more.map (·.1) := by
    rw [toList_text, hmarks, hlead, List.map_append, List.map_cons, hslash]
    simp
  unfold isAbsolute at hrelative ⊢
  rwa [htext, List.head?_append_of_ne_nil _ (by simp [hlead])] at hrelative

theorem pattern_eq {ms : List Mark} (hms : directoryMarks directory = ('/', true) :: ms) (f : Field) :
    patternPrefix directory ++ f.pattern = String.ofList (Glob.render (('/', true) :: (ms ++ f.marks))) := by
  rw [← String.toList_inj, String.toList_append, String.toList_ofList, toList_pattern, patternPrefix_eq,
    ← Glob.render_append, hms]
  rfl

/-- The arguments that a relative field with a wildcard stands for are the paths that are found, seen from the
directory. -/
theorem exists_found_of_mem (hrelative : isAbsolute f.text = false) (hwild : f.hasWildcard = true)
    (hsearch : Glob.search files true (patternPrefix directory ++ f.pattern) = .ok paths) (hpaths : paths ≠ [])
    {argument : String} (h : argument ∈ f.arguments files directory) :
    ∃ found ∈ paths, argument = (Path.below? directory found).getD found := by
  unfold arguments at h
  rw [hwild, hrelative] at h
  simp only [Bool.not_true, Bool.not_false, Bool.false_eq_true, if_false, if_true, hsearch] at h
  rw [if_neg (by simpa [Except.toOption] using hpaths), List.mem_mergeSort] at h
  obtain ⟨found, hfound, rfl⟩ := List.mem_map.1 h
  exact ⟨found, hfound, rfl⟩

/-- A path that is found for a field stands behind the directory and the lead. -/
theorem exists_behind_of_found (hfiles : files.Sound) (habs : isAbsolute directory = true)
    (hsearch : Glob.search files true (patternPrefix directory ++ f.pattern) = .ok paths) (hfound : found ∈ paths)
    {more : List Mark} (hslash : slash.1 = '/') (hmarks : f.marks = before ++ slash :: more)
    (hbefore : ∀ m ∈ before, isLive m = false) :
    ∃ body rest names last, Behind directory found (before.map (·.1)) body rest names last := by
  obtain ⟨ms, hms, hquoted⟩ := exists_cons_directoryMarks habs
  have hquiet : ∀ m ∈ ms ++ before, isLive m = false := by
    intro m hm
    rcases List.mem_append.1 hm with hm | hm
    · simp [isLive, hquoted m hm]
    · exact hbefore m hm
  rw [pattern_eq hms, hmarks, ← List.append_assoc] at hsearch
  obtain ⟨names, hnames, hjoin⟩ := Glob.starts_of_mem_search hfiles hslash hquiet hsearch hfound
  obtain ⟨rest, names, last, htext, hpieces, hnamed, hends⟩ := Path.exists_pieces_of_foldl_join hnames hjoin
  exact ⟨_, rest, names, last, by rw [hms]; simp, htext, hpieces, hnamed, hends⟩

/-- **The lead of the arguments.** If paths are found for a relative field with a wildcard, every argument is there,
seen from the directory. It begins with the lead of the field as it is written exactly if there is none, or if the
directory does not end in a backslash, the lead is straight, and the argument is more than a path of it. -/
theorem pathnames_keep_lead_iff (hfiles : files.Sound) (habs : isAbsolute directory = true)
    (hdirectory : files.isDirectory directory = true) (hrelative : isAbsolute f.text = false)
    (hwild : f.hasWildcard = true)
    (hsearch : Glob.search files true (patternPrefix directory ++ f.pattern) = .ok paths) (hpaths : paths ≠ []) :
    ∀ argument ∈ f.arguments files directory,
      (f.lead.toList <+: argument.toList ↔ f.lead = "" ∨ directory.toList.getLast? ≠ some '\\' ∧
        Path.IsStraight f.lead ∧ Path.components argument ≠ Path.components f.lead) ∧
      (files.statLink (Path.join directory argument)).isOk = true := by
  intro argument hargument
  obtain ⟨found, hfound, rfl⟩ := exists_found_of_mem hrelative hwild hsearch hpaths hargument
  refine ⟨?_, ?_⟩
  · rcases f.lead_cases with hlead | ⟨before, slash, more, hmarks, hslash, hbefore, hlead⟩
    · simp [hlead]
    · have hne : f.lead ≠ "" := by
        rw [← String.toList_inj.ne, hlead]
        simp
      obtain ⟨body, rest, names, last, hbehind⟩ :=
        exists_behind_of_found hfiles habs hsearch hfound hslash hmarks hbefore
      rw [hbehind.prefix_shown_iff habs hlead (not_isAbsolute_lead hrelative hslash hmarks hlead)]
      simp [hne]
  · obtain ⟨ms, hms, -⟩ := exists_cons_directoryMarks habs
    rw [pattern_eq hms] at hsearch
    obtain ⟨hfoundAbs, hthere⟩ := Glob.there_of_mem_search hfiles hsearch hfound
    exact Files.there_shown habs hdirectory hfoundAbs hthere

/-- A tree with a file x in a directory /a. -/
def oneFile : Files := ⟨[([], .directory 0), (["a"], .directory 0), (["a", "x"], .file 0)], [⟨[], 0⟩], [], 0, []⟩

/-- In the root the field `"a"/./*` stands for `a/./x`: a dot between other names is kept. -/
theorem oneFile_keeps_lead :
    let f : Field := ⟨[("a", true), ("/./*", false)]⟩
    oneFile.Sound ∧ isAbsolute "/" = true ∧ oneFile.isDirectory "/" = true ∧ isAbsolute f.text = false ∧
      f.hasWildcard = true ∧ Glob.search oneFile true (patternPrefix "/" ++ f.pattern) = .ok ["/a/./x"] ∧
      f.arguments oneFile "/" = ["a/./x"] ∧ f.lead = "a/./" ∧ f.lead.toList <+: "a/./x".toList ∧
      (oneFile.statLink (Path.join "/" "a/./x")).isOk = true := by
  intro f
  have hsound : oneFile.Sound := by decide +kernel
  have hdirectory : oneFile.isDirectory "/" = true := by cbv
  have hsearch : Glob.search oneFile true (patternPrefix "/" ++ f.pattern) = .ok ["/a/./x"] := by cbv
  have harguments : f.arguments oneFile "/" = ["a/./x"] := by cbv
  have hlead : f.lead = "a/./" := by decide
  obtain ⟨hiff, hthere⟩ := pathnames_keep_lead_iff hsound (by decide) hdirectory (by decide) (by decide) hsearch
    (by decide) "a/./x" (harguments ▸ List.mem_singleton_self _)
  exact ⟨hsound, by decide, hdirectory, by decide, by decide, hsearch, harguments, hlead,
    hiff.2 (.inr ⟨by decide, by decide, by decide⟩), hthere⟩

/-- In the root the field `./*` stands for `a`: the dot is lost. -/
theorem oneFile_loses_dot :
    let f : Field := ⟨[("./*", false)]⟩
    oneFile.Sound ∧ isAbsolute "/" = true ∧ oneFile.isDirectory "/" = true ∧ isAbsolute f.text = false ∧
      f.hasWildcard = true ∧ Glob.search oneFile true (patternPrefix "/" ++ f.pattern) = .ok ["/./a"] ∧
      f.lead = "./" ∧ f.arguments oneFile "/" = ["a"] ∧ ¬ f.lead.toList <+: "a".toList :=
  ⟨by decide +kernel, by decide, by cbv, by decide, by decide, by cbv, by decide, by cbv, by decide⟩

end Field

end Taskwork.Shell
