/-
Trees as they are on disk. In a tree that is sound every place lies in a directory and has a name that can be looked
up. There a name that is listed in a directory is found behind its path, and so are the directory itself and the one
above it (`there_join`); and what is found below a directory is found as well with other dots on the way
(`there_below`), so too where it is shown from the directory (`there_shown`).
-/
import Taskwork.Proofs.Files.Walk
import Taskwork.Proofs.Path.Below

namespace Taskwork.Files

open Relation (ReflTransGen)
open Component (IsName)
open Path (isAbsolute join pieces stepsOf strip)

variable {fs : Files} {follow : Bool} {path rest directory found : String} {r : Route} {e : Entry} {t : Instant}
  {xs : List String}

/-! ## Names of a path -/

/-- The names between the slashes of a path. -/
def fileNames (path : String) : List String := ((pieces path.toList).filter (· ≠ [])).map String.ofList

theorem namesOf_eq (path : String) :
    namesOf path = if path.toList.getLast? = some '/' ∧ fileNames path ≠ [] then fileNames path ++ ["."]
      else fileNames path := by
  unfold namesOf
  change (if path.toList.getLast? == some '/' && !(fileNames path).isEmpty then _ else _) = _
  by_cases hslash : path.toList.getLast? = some '/' ∧ fileNames path ≠ []
  · rw [if_pos hslash, if_pos (by simpa using hslash)]
    rfl
  · rw [if_neg hslash, if_neg (by simpa using hslash)]
    rfl

theorem thin_namesOf (path : String) : Thin (fileNames path) (namesOf path) := by
  rw [namesOf_eq]
  split
  · have h := (Thin.refl (fileNames path)).append (.drop .nil)
    rwa [List.append_nil] at h
  · exact .refl _

theorem namesOf_of_not_slash (h : path.toList.getLast? ≠ some '/') : namesOf path = fileNames path := by
  rw [namesOf_eq, if_neg fun hslash => h hslash.1]

/-- What is written behind a path adds its names. -/
theorem fileNames_join (a : String) {b : String} (hb : isAbsolute b = false) :
    fileNames (join a b) = fileNames a ++ fileNames b := by
  unfold fileNames
  rw [Path.filter_pieces_join hb rfl, List.map_append]

theorem getLast?_join (a : String) {b : String} (hb : isAbsolute b = false) (hne : b ≠ "") :
    (join a b).toList.getLast? = b.toList.getLast? := by
  obtain ⟨before, last, hlast⟩ : ∃ before last, b.toList = before ++ [last] :=
    ⟨_, _, (List.dropLast_append_getLast (by simpa using hne)).symm⟩
  unfold join
  rw [if_neg (by simp [hb])]
  split <;> rw [String.toList_append, hlast, ← List.append_assoc, List.getLast?_concat, List.getLast?_concat]

/-! ## Places of a path -/

theorem locate_eq_ok_iff (habs : isAbsolute path = true) {place : Place} :
    fs.locate follow path = .ok place ↔
      Char.ofNat 0 ∉ path.toList ∧ fs.walk follow maxLinks [] (namesOf path) = .ok place := by
  have hne : path ≠ "" := by
    rintro rfl
    cases habs
  unfold locate origin
  rw [if_neg (c := path.isEmpty = true) (by simpa using hne), if_pos habs]
  by_cases hnul : Char.ofNat 0 ∈ path.toList
  · rw [if_pos (by simpa using hnul)]
    simp [hnul]
  · rw [if_neg (by simpa using hnul)]
    simp [hnul]

theorem isDirectory_iff : fs.isDirectory path = true ↔ ∃ r t, fs.locate true path = .ok (.found r (.directory t)) := by
  unfold isDirectory stat
  rcases fs.locate true path with f | ⟨r, _ | n | _ | _⟩ | ⟨r, name⟩ <;> simp [bind, Except.bind, pure, Except.pure]

theorem statLink_isOk_iff : (fs.statLink path).isOk = true ↔ ∃ r e, fs.locate false path = .ok (.found r e) := by
  unfold statLink
  rcases fs.locate false path with f | ⟨r, e⟩ | ⟨r, name⟩ <;>
    simp [bind, Except.bind, pure, Except.pure, Except.isOk, Except.toBool]

/-- What can be followed is there itself. -/
theorem statLink_of_exists (habs : isAbsolute path = true) (h : fs.exists? path = true) :
    (fs.statLink path).isOk = true := by
  have hfound : ∃ r e, fs.locate true path = .ok (.found r e) := by
    unfold exists? stat at h
    rcases hplace : fs.locate true path with f | ⟨r, e⟩ | ⟨r, name⟩ <;> rw [hplace] at h
    · cases h
    · exact ⟨r, e, rfl⟩
    · cases h
  obtain ⟨r, e, hplace⟩ := hfound
  obtain ⟨hnul, hwalk⟩ := (locate_eq_ok_iff habs).1 hplace
  obtain ⟨r', e', hwalk'⟩ : ∃ r e, fs.walk false maxLinks [] (namesOf path) = .ok (.found r e) :=
    walk_thin hwalk (.refl _) fun h => absurd h Bool.false_ne_true
  exact statLink_isOk_iff.2 ⟨r', e', (locate_eq_ok_iff habs).2 ⟨hnul, hwalk'⟩⟩

/-- A walk makes steps to the directory at a path, whichever dots are left out. -/
theorem exists_steps_of_locate (habs : isAbsolute path = true)
    (h : fs.locate true path = .ok (.found r (.directory t))) :
    ∃ left, ∀ xs, Thin xs (namesOf path) → ReflTransGen fs.Step ⟨maxLinks, [], xs⟩ ⟨left, r, []⟩ := by
  obtain ⟨w, hsteps, hends⟩ := exists_steps_of_walk ((locate_eq_ok_iff habs).1 h).2
  cases hends with
  | @here left _ _ hat =>
    refine ⟨left, fun xs hthin => ?_⟩
    obtain ⟨zs, hzs, hsteps⟩ := steps_thin hsteps hthin
    cases hzs
    exact hsteps
  | name _ _ _ hlast => exact absurd rfl (hlast t)

/-- What a walk over the names of a directory and some more ones finds is there. -/
theorem there_join (habs : isAbsolute path = true) (hnul : Char.ofNat 0 ∉ path.toList) (hrest : isAbsolute rest = false)
    (hslash : rest.toList.getLast? ≠ some '/') (hrestNul : Char.ofNat 0 ∉ rest.toList) (hne : fileNames rest ≠ [])
    (hwalk : ∃ r e, fs.walk false maxLinks [] (fileNames path ++ fileNames rest) = .ok (.found r e)) :
    (fs.statLink (join path rest)).isOk = true := by
  have hempty : rest ≠ "" := by
    rintro rfl
    exact hne rfl
  have hend : (join path rest).toList.getLast? ≠ some '/' := by rwa [getLast?_join path hrest hempty]
  have hnuls : Char.ofNat 0 ∉ (join path rest).toList := by
    unfold join
    rw [if_neg (by simp [hrest])]
    split <;> simp [hnul, hrestNul]
  obtain ⟨r, e, hfound⟩ := hwalk
  rw [← fileNames_join path hrest, ← namesOf_of_not_slash hend] at hfound
  exact statLink_isOk_iff.2 ⟨r, e, (locate_eq_ok_iff (Path.isAbsolute_join_left habs rest)).2 ⟨hnuls, hfound⟩⟩

/-! ## Sound trees -/

/-- A name that an entry of a directory can have. -/
structure FileName (name : String) : Prop extends IsName name where
  no_nul : Char.ofNat 0 ∉ name.toList
  length : (Utf8.encode name).length ≤ maxNameLength

/-- There is a root, and every other place has a name in a directory. Several places may be names of one file. -/
structure Sound (fs : Files) : Prop where
  root : fs.HoldsDirectory []
  name {row : Route × Entry} (h : row ∈ fs.entries) : ∀ n ∈ row.1, FileName n
  parent {row : Route × Entry} (h : row ∈ fs.entries) : fs.HoldsDirectory row.1.dropLast

instance (name : String) : Decidable (FileName name) :=
  decidable_of_iff ((name.toList ≠ [] ∧ '/' ∉ name.toList ∧ name.toList ≠ ['.'] ∧ name.toList ≠ ['.', '.']) ∧
      Char.ofNat 0 ∉ name.toList ∧ (Utf8.encode name).length ≤ maxNameLength)
    ⟨fun ⟨⟨h₁, h₂, h₃, h₄⟩, h₅, h₆⟩ => ⟨⟨h₁, h₂, h₃, h₄⟩, h₅, h₆⟩,
      fun h => ⟨⟨h.nonempty, h.no_slash, h.not_here, h.not_up⟩, h.no_nul, h.length⟩⟩

instance (fs : Files) (r : Route) : Decidable (fs.HoldsDirectory r) :=
  decidable_of_iff ((fs.entry? r).any (· matches .directory _)) <| by
    unfold HoldsDirectory
    rcases fs.entry? r with _ | _ | _ | _ | _ <;> simp

instance (fs : Files) : Decidable fs.Sound :=
  decidable_of_iff (fs.HoldsDirectory [] ∧ (∀ row ∈ fs.entries, ∀ n ∈ row.1, FileName n) ∧
      ∀ row ∈ fs.entries, fs.HoldsDirectory row.1.dropLast)
    ⟨fun ⟨hroot, hname, hparent⟩ => ⟨hroot, fun h => hname _ h, fun h => hparent _ h⟩,
      fun h => ⟨h.root, fun _ hrow => h.name hrow, fun _ hrow => h.parent hrow⟩⟩

theorem FileName.lookedUp {name : String} (h : FileName name) : LookedUp name where
  not_here := by
    rintro rfl
    exact h.not_here rfl
  not_up := by
    rintro rfl
    exact h.not_up rfl
  length := Nat.not_lt.2 h.length

theorem fileNames_of_no_slash {name : String} (hne : name.toList ≠ []) (hslash : '/' ∉ name.toList) :
    fileNames name = [name] := by
  unfold fileNames
  rw [Path.pieces_of_no_slash hslash, List.filter_cons_of_pos (by simpa using hne), List.filter_nil, List.map_singleton, String.ofList_toList]

theorem mem_entries_of_eq_some (h : fs.entry? r = some e) : (r, e) ∈ fs.entries := by
  obtain ⟨row, hrow, rfl⟩ := Option.map_eq_some_iff.1 h
  obtain rfl : row.1 = r := by simpa using List.find?_some hrow
  exact List.mem_of_find?_eq_some hrow

theorem eq_some_of_mem_entries (h : (r, e) ∈ fs.entries) : ∃ e', fs.entry? r = some e' := by
  obtain ⟨row, hrow⟩ : ∃ row, fs.entries.find? (fun row => row.1 == r) = some row := by
    rw [← Option.isSome_iff_exists, List.find?_isSome]
    exact ⟨(r, e), h, beq_self_eq_true r⟩
  refine ⟨row.2, ?_⟩
  unfold entry?
  rw [hrow]
  rfl

theorem exists_of_mem_names {name : String} (h : name ∈ fs.names r) : ∃ e, (r ++ [name], e) ∈ fs.entries := by
  obtain ⟨⟨route, e⟩, hrow, hname⟩ := List.mem_filterMap.1 h
  dsimp only at hname
  split at hname
  · rename_i last hlast
    split at hname
    · rename_i hdir
      cases hname
      obtain ⟨before, rfl⟩ := List.getLast?_eq_some_iff.1 hlast
      obtain rfl : before = r := by simpa using hdir
      exact ⟨e, hrow⟩
    · cases hname
  · cases hname

theorem Sound.there_root (hfs : fs.Sound) : (fs.statLink "/").isOk = true := by
  obtain ⟨t, hroot⟩ := hfs.root
  refine statLink_isOk_iff.2 ⟨[], .directory t, (locate_eq_ok_iff rfl).2 ⟨by decide, ?_⟩⟩
  rw [show namesOf "/" = [] from rfl, walk, hroot]

namespace Sound

variable (hfs : fs.Sound) (habs : isAbsolute path = true)
include hfs habs

/-- A name that is listed in a directory is there. -/
theorem there_listed {names : List String} {name : String} (hlist : fs.list path = .ok names) (hname : name ∈ names) :
    FileName name ∧ (fs.statLink (join path name)).isOk = true := by
  obtain ⟨r, t, hplace, rfl⟩ : ∃ r t, fs.locate true path = .ok (.found r (.directory t)) ∧ names = fs.names r := by
    unfold list at hlist
    rcases hplace : fs.locate true path with f | ⟨r, t | n | _ | _⟩ | ⟨r, n⟩ <;> rw [hplace] at hlist <;> cases hlist
    exact ⟨r, t, rfl, rfl⟩
  obtain ⟨e, hrow⟩ := exists_of_mem_names hname
  have hvalid := hfs.name hrow name (by simp)
  have hat : fs.HoldsDirectory r := ⟨t, entry?_of_found hplace⟩
  have hnames := fileNames_of_no_slash hvalid.nonempty hvalid.no_slash
  have hnul := ((locate_eq_ok_iff habs).1 hplace).1
  obtain ⟨left, hsteps⟩ := exists_steps_of_locate habs hplace
  refine ⟨hvalid, there_join habs hnul ?_ ?_ hvalid.no_nul (by simp [hnames]) ?_⟩
  · exact Path.not_isAbsolute_text (c := .name name) hvalid.toIsName
  · exact fun hlast => hvalid.no_slash (List.mem_of_getLast? hlast)
  · rw [hnames, walk_append (hsteps _ (thin_namesOf path)) (List.cons_ne_nil _ _)]
    obtain ⟨e', he'⟩ := eq_some_of_mem_entries hrow
    by_cases hdirectory : ∃ t, e' = .directory t
    · obtain ⟨t', rfl⟩ := hdirectory
      exact ⟨_, _, by rw [walk_down hat hvalid.lookedUp ⟨t', he'⟩, walk, he']⟩
    · exact ⟨_, _, walk_last hat hvalid.lookedUp he' (fun t' h => hdirectory ⟨t', h⟩) fun _ _ => rfl⟩

/-- A directory and the one above it are there. -/
theorem there_special {name : String} (hdirectory : fs.isDirectory path = true) (hname : name ∈ ["..", "."]) :
    (fs.statLink (join path name)).isOk = true := by
  obtain ⟨r, t, hplace⟩ := isDirectory_iff.1 hdirectory
  have hat : fs.HoldsDirectory r := ⟨t, entry?_of_found hplace⟩
  have hnul := ((locate_eq_ok_iff habs).1 hplace).1
  obtain ⟨left, hsteps⟩ := exists_steps_of_locate habs hplace
  have hgoes {names : List String} (hne : names ≠ []) :
      fs.walk false maxLinks [] (fileNames path ++ names) = fs.walk false left r names :=
    walk_append (hsteps _ (thin_namesOf path)) hne
  rcases List.mem_pair.1 hname with rfl | rfl
  · obtain ⟨t', habove⟩ := hfs.parent (mem_entries_of_eq_some (entry?_of_found hplace))
    refine there_join habs hnul rfl (by decide) (by decide) (by decide) ⟨r.dropLast, .directory t', ?_⟩
    rw [hgoes (by decide), show fileNames ".." = [".."] from rfl, walk_up hat, walk, habove]
  · refine there_join habs hnul rfl (by decide) (by decide) (by decide) ⟨r, .directory t, ?_⟩
    rw [hgoes (by decide), show fileNames "." = ["."] from rfl, walk_here hat, walk, entry?_of_found hplace]

end Sound

/-! ## Below a directory -/

/-- A slash behind a directory changes nothing. -/
theorem there_join_empty (habs : isAbsolute path = true) (h : fs.isDirectory path = true) :
    (fs.statLink (join path "")).isOk = true := by
  obtain ⟨r, t, hplace⟩ := isDirectory_iff.1 h
  have hat : fs.HoldsDirectory r := ⟨t, entry?_of_found hplace⟩
  obtain ⟨hnul, hwalk⟩ := (locate_eq_ok_iff habs).1 hplace
  have hnuls : Char.ofNat 0 ∉ (join path "").toList := by
    unfold join
    rw [if_neg (by decide)]
    split <;> simp [hnul]
  have hnames : fileNames (join path "") = fileNames path := by
    rw [fileNames_join path rfl]
    exact List.append_nil _
  have hfound : ∃ r e, fs.walk false maxLinks [] (namesOf (join path "")) = .ok (.found r e) := by
    rw [namesOf_eq (join path ""), hnames]
    split
    · obtain ⟨left, hsteps⟩ := exists_steps_of_locate habs hplace
      refine ⟨r, .directory t, ?_⟩
      rw [walk_append (hsteps _ (thin_namesOf path)) (by simp), walk_here hat, walk, entry?_of_found hplace]
    · exact walk_thin hwalk (thin_namesOf path) fun h => absurd h Bool.false_ne_true
  obtain ⟨r', e, hfound⟩ := hfound
  exact statLink_isOk_iff.2 ⟨r', e, (locate_eq_ok_iff (Path.isAbsolute_join_left habs "")).2 ⟨hnuls, hfound⟩⟩

/-- What is found below a directory is there behind any path of it, with any of its dots left out. -/
theorem there_below (habs : isAbsolute path = true) (hdirectory : fs.isDirectory path = true)
    (hfoundAbs : isAbsolute found = true) (hfound : (fs.statLink found).isOk = true)
    (hrest : isAbsolute rest = false) (hslash : rest.toList.getLast? ≠ some '/') (hnul : Char.ofNat 0 ∉ rest.toList)
    (hthin : Thin ((fileNames path).filter (· ≠ ".") ++ fileNames rest) (namesOf found)) (hne : fileNames rest ≠ []) :
    (fs.statLink (join path rest)).isOk = true := by
  obtain ⟨r, t, hplace⟩ := isDirectory_iff.1 hdirectory
  obtain ⟨r', e, hplace'⟩ := statLink_isOk_iff.1 hfound
  obtain ⟨left, hsteps⟩ := exists_steps_of_locate habs hplace
  obtain ⟨r'', e', hwalk⟩ : ∃ r e, fs.walk false maxLinks []
      ((fileNames path).filter (· ≠ ".") ++ fileNames rest) = .ok (.found r e) :=
    walk_thin ((locate_eq_ok_iff hfoundAbs).1 hplace').2 hthin fun h => absurd h Bool.false_ne_true
  refine there_join habs ((locate_eq_ok_iff habs).1 hplace).1 hrest hslash hnul hne ⟨r'', e', ?_⟩
  have hcore : Thin ((fileNames path).filter (· ≠ ".")) (namesOf path) := (Thin.filter _).trans (thin_namesOf path)
  rw [walk_append (hsteps _ (thin_namesOf path)) hne, ← walk_append (hsteps _ hcore) hne, hwalk]

/-- The steps among pieces are their names without the dots. -/
theorem filter_names (ps : List (List Char)) :
    ((ps.filter (· ≠ [])).map String.ofList).filter (· ≠ ".") = (stepsOf ps).map String.ofList := by
  rw [← Path.stepsOf_filter]
  unfold stepsOf
  rw [List.filter_map]
  congr 1
  refine List.filter_congr fun p hp => ?_
  have hne : p ≠ [] := by simpa using (List.mem_filter.1 hp).2
  have hdot : String.ofList p = "." ↔ p = ['.'] := ⟨fun h => String.ofList_injective h, fun h => by rw [h]⟩
  have hidle : Path.isIdle p = decide (p = ['.']) := by
    unfold Path.isIdle
    rw [beq_eq_false_iff_ne.2 hne, Bool.false_or, beq_eq_decide]
  simp [hidle, hdot]

theorem thin_steps (ps : List (List Char)) :
    Thin ((stepsOf ps).map String.ofList) ((ps.filter (· ≠ [])).map String.ofList) :=
  filter_names ps ▸ Thin.filter _

/-- Idle pieces may be left out on the way. -/
theorem thin_of_idle {ps : List (List Char)} (hps : ∀ p ∈ ps, Path.isIdle p = true) :
    Thin [] ((ps.filter (· ≠ [])).map String.ofList) := by
  induction ps with
  | nil => exact .nil
  | cons p ps ih =>
    obtain ⟨hp, hrest⟩ := List.forall_mem_cons.1 hps
    rcases Bool.or_eq_true_iff.1 hp with hp | hp
    · obtain rfl := beq_iff_eq.1 hp
      exact ih hrest
    · obtain rfl := beq_iff_eq.1 hp
      exact .drop (ih hrest)

/-- What is left of a path below a directory, behind the steps to the directory, is the way to it without some dots. -/
theorem thin_below {body : List Char} {as bs : List (List Char)} (hfound : found.toList = '/' :: body)
    (hpieces : pieces body = as ++ bs) (has : stepsOf as = stepsOf (pieces directory.toList)) :
    Thin ((fileNames directory).filter (· ≠ ".") ++ ((strip bs).filter (· ≠ [])).map String.ofList)
      (namesOf found) := by
  obtain ⟨pre, post, hbs, hpre, hpost, -⟩ := Path.exists_strip bs
  generalize strip bs = kept at *
  have hnames : fileNames found = (as.filter (· ≠ [])).map String.ofList ++
      ((pre.filter (· ≠ [])).map String.ofList ++ ((kept.filter (· ≠ [])).map String.ofList ++
        (post.filter (· ≠ [])).map String.ofList)) := by
    unfold fileNames
    rw [hfound, Path.pieces_cons_slash, List.filter_cons_of_neg (by simp), hpieces, hbs]
    simp only [List.filter_append, List.map_append]
  have hsteps : (fileNames directory).filter (· ≠ ".") = (stepsOf as).map String.ofList :=
    (filter_names _).trans (by rw [has])
  have hkept := Thin.refl ((kept.filter (· ≠ [])).map String.ofList)
  have hthin := (thin_steps as).append ((thin_of_idle hpre).append (hkept.append (thin_of_idle hpost)))
  rw [← hnames, List.nil_append, List.append_nil, ← hsteps] at hthin
  exact hthin.trans (thin_namesOf found)

/-- What is found is there as well behind the directory, where it is shown from there. -/
theorem there_shown (habs : isAbsolute directory = true) (hdirectory : fs.isDirectory directory = true)
    (hfound : isAbsolute found = true) (hthere : (fs.statLink found).isOk = true) :
    (fs.statLink (Path.join directory ((Path.below? directory found).getD found))).isOk = true := by
  obtain ⟨body, hbody⟩ := List.head?_eq_some_iff.1 (beq_iff_eq.1 hfound)
  cases hbelow : Path.below? directory found with
  | none =>
    have hjoin : Path.join directory found = found := by rw [Path.join, if_pos hfound]
    rwa [Option.getD_none, hjoin]
  | some rest =>
    obtain ⟨as, bs, hpieces, has, rfl⟩ := Path.exists_split_of_below? habs hbody hbelow
    rw [Option.getD_some]
    by_cases hempty : strip bs = []
    · -- the directory itself was found
      rw [Path.stripped, hempty]
      exact there_join_empty habs hdirectory
    have hbs : ∀ p ∈ bs, p ∈ pieces body := fun p hp => hpieces ▸ List.mem_append_right _ hp
    have hslash : ∀ p ∈ bs, '/' ∉ p := fun p hp => Path.not_slash_of_mem_pieces (hbs p hp)
    have hnames : fileNames (Path.stripped bs) = ((strip bs).filter (· ≠ [])).map String.ofList := by
      rw [fileNames, Path.pieces_stripped hslash hempty]
    have hnul : Char.ofNat 0 ∉ (Path.stripped bs).toList := by
      obtain ⟨r, e, hplace⟩ := statLink_isOk_iff.1 hthere
      intro hnul
      obtain ⟨p, hp, hnul⟩ := Path.exists_piece_of_mem hnul (by decide)
      rw [Path.pieces_stripped hslash hempty] at hp
      refine ((locate_eq_ok_iff hfound).1 hplace).1 ?_
      rw [hbody]
      exact List.mem_cons_of_mem _ (Path.mem_of_mem_pieces (hbs p (Path.mem_of_mem_strip hp)) hnul)
    refine there_below habs hdirectory hfound hthere (Path.not_isAbsolute_stripped hslash hempty)
      (Path.getLast?_stripped hslash hempty) hnul ?_ ?_
    · rw [hnames]
      exact thin_below hbody hpieces has
    · obtain ⟨pre, post, -, -, -, hhead, -⟩ := Path.exists_strip bs
      obtain ⟨p, hp⟩ := Option.ne_none_iff_exists'.1 (by simpa using hempty : (strip bs).head? ≠ none)
      rw [hnames]
      simp only [ne_eq, List.map_eq_nil_iff, List.filter_eq_nil_iff]
      intro hall
      exact hall p (List.mem_of_head? hp) (by simpa using Path.ne_nil_of_not_idle (hhead p hp))

end Taskwork.Files
