/-
Paths below a directory. What is left of a path below a directory is what stands between its slashes behind the steps
of the directory, without what is idle at either end (`below?_of_split`, `exists_split_of_below?`). If names were
written behind each other (`Written`), nothing but names stands there; so it begins with some text up to a slash only if
the text does so by names alone, and no idle one comes first (`prefix_rest_iff`).
-/
import Taskwork.Proofs.Path.Fragments
import Mathlib.Data.List.TakeWhile

namespace Taskwork.Path

variable {path directory found name rest : String} {ps as bs lead names : List (List Char)}

/-! ## Pieces written with slashes -/

theorem pieces_flatMap (hps : ∀ p ∈ ps, '/' ∉ p) (cs : List Char) :
    pieces (ps.flatMap (· ++ ['/']) ++ cs) = ps ++ pieces cs := by
  induction ps with
  | nil => rfl
  | cons p ps ih =>
    obtain ⟨hp, hrest⟩ := List.forall_mem_cons.1 hps
    have hplain : ∀ c ∈ p, (c == '/') = false := fun c hc => by simpa using ne_of_mem_of_not_mem hc hp
    have hsplit : (p :: ps).flatMap (· ++ ['/']) ++ cs = p ++ '/' :: (ps.flatMap (· ++ ['/']) ++ cs) := by simp
    rw [hsplit, pieces, Text.splitOn_append_cons hplain rfl]
    exact congrArg (p :: ·) (ih hrest)

/-- A text is its pieces, with a slash behind each one but the last. -/
theorem flatMap_pieces (cs : List Char) : (pieces cs).flatMap (· ++ ['/']) = cs ++ ['/'] := by
  induction cs with
  | nil => rfl
  | cons c cs ih =>
    by_cases hslash : c = '/'
    · rw [hslash, pieces_cons_slash, List.flatMap_cons, ih]
      rfl
    · obtain ⟨first, more, hpieces⟩ := List.exists_cons_of_ne_nil (Text.splitOn_ne_nil (· == '/') cs)
      have hcons : pieces (c :: cs) = (c :: first) :: more :=
        Text.splitOn_append (l := [c]) (by simpa using hslash) hpieces
      rw [show pieces cs = first :: more from hpieces] at ih
      rw [hcons, List.flatMap_cons, List.cons_append, List.cons_append, List.cons_append, ← ih]
      rfl

/-- A text goes on in its last piece. -/
theorem pieces_append {cs last first : List Char} {before more : List (List Char)} {ds : List Char}
    (hcs : pieces cs = before ++ [last]) (hds : pieces ds = first :: more) :
    pieces (cs ++ ds) = before ++ (last ++ first) :: more := by
  have hslash : ∀ p ∈ before ++ [last], '/' ∉ p := fun p hp => not_slash_of_mem_pieces (hcs ▸ hp)
  obtain ⟨hbefore, hlast⟩ := List.forall_mem_append.1 hslash
  have htext : cs = before.flatMap (· ++ ['/']) ++ last := by
    have h := flatMap_pieces cs
    rw [hcs, List.flatMap_append, List.flatMap_singleton, ← List.append_assoc] at h
    exact (List.append_cancel_right h).symm
  have hplain : ∀ c ∈ last, (c == '/') = false := fun c hc => by
    simpa using ne_of_mem_of_not_mem hc (hlast last List.mem_cons_self)
  rw [htext, List.append_assoc, pieces_flatMap hbefore, pieces, Text.splitOn_append hplain hds]

/-- What does not start with a slash has a name before its first one. -/
theorem head_pieces_ne_nil {cs : List Char} (h : (cs ++ ['/']).head? ≠ some '/') :
    ∀ p ∈ (pieces cs).head?, p ≠ [] := by
  rintro p hp rfl
  obtain ⟨more, hmore⟩ := List.head?_eq_some_iff.1 hp
  rw [← flatMap_pieces, hmore] at h
  exact h rfl

theorem mem_of_mem_pieces {cs p : List Char} {c : Char} (hp : p ∈ pieces cs) (hc : c ∈ p) : c ∈ cs := by
  have hflat : c ∈ (pieces cs).flatten := List.mem_flatten_of_mem hp hc
  unfold pieces at hflat
  rw [Text.flatten_splitOn] at hflat
  exact List.mem_of_mem_filter hflat

theorem exists_piece_of_mem {cs : List Char} {c : Char} (hc : c ∈ cs) (hslash : c ≠ '/') : ∃ p ∈ pieces cs, c ∈ p := by
  rw [← List.mem_flatten, pieces, Text.flatten_splitOn]
  exact List.mem_filter.2 ⟨hc, by simpa using hslash⟩

theorem not_isAbsolute_of_head (h : ∀ p ∈ (pieces path.toList).head?, p ≠ []) : isAbsolute path = false := by
  refine Bool.eq_false_iff.2 fun habs => ?_
  obtain ⟨rest, hrest⟩ := List.head?_eq_some_iff.1 (beq_iff_eq.1 habs)
  rw [hrest, pieces_cons_slash] at h
  exact h [] rfl rfl

theorem getLast?_ne_slash_of_getLast (h : ∀ p ∈ (pieces path.toList).getLast?, p ≠ []) :
    path.toList.getLast? ≠ some '/' := by
  intro hslash
  obtain ⟨before, hbefore⟩ := List.getLast?_eq_some_iff.1 hslash
  rw [hbefore, pieces_append_slash, pieces_nil, List.getLast?_concat] at h
  exact h [] rfl rfl

theorem intercalate_append (ps : List (List Char)) (hbs : bs ≠ []) :
    ['/'].intercalate (ps ++ bs) = ps.flatMap (· ++ ['/']) ++ ['/'].intercalate bs := by
  induction ps with
  | nil => rfl
  | cons p ps ih =>
    obtain ⟨q, qs, hqs⟩ := List.exists_cons_of_ne_nil (List.append_ne_nil_of_right_ne_nil ps hbs)
    rw [List.cons_append, hqs, List.intercalate_cons_cons, ← hqs, ih]
    simp

/-- Pieces are read as they were written. -/
theorem pieces_intercalate (hps : ∀ p ∈ ps, '/' ∉ p) (hne : ps ≠ []) : pieces (['/'].intercalate ps) = ps := by
  obtain ⟨before, last, rfl⟩ : ∃ before last, ps = before ++ [last] :=
    ⟨_, _, (List.dropLast_append_getLast hne).symm⟩
  obtain ⟨hbefore, hlast⟩ := List.forall_mem_append.1 hps
  rw [intercalate_append before (by simp), List.intercalate_singleton, pieces_flatMap hbefore,
    pieces_of_no_slash (hlast last List.mem_cons_self)]

/-! ## Steps of a path -/

/-- The pieces that lead somewhere. -/
def stepsOf (ps : List (List Char)) : List (List Char) := ps.filter (!isIdle ·)

@[simp] theorem stepsOf_append (as bs : List (List Char)) : stepsOf (as ++ bs) = stepsOf as ++ stepsOf bs :=
  List.filter_append ..

theorem isIdle_of_mem {p : List Char} {c : Char} (hc : c ∈ p) (hdot : c ≠ '.') : isIdle p = false := by
  have hempty : p ≠ [] := List.ne_nil_of_mem hc
  have hhere : p ≠ ['.'] := by
    rintro rfl
    exact hdot (List.mem_singleton.1 hc)
  simp [isIdle, hempty, hhere]

theorem stepsOf_cons_of_mem {p : List Char} {c : Char} (hc : c ∈ p) (hdot : c ≠ '.') (ps : List (List Char)) :
    stepsOf (p :: ps) = p :: stepsOf ps :=
  List.filter_cons_of_pos (by simp [isIdle_of_mem hc hdot])

theorem stepsOf_eq_nil (h : ∀ p ∈ ps, isIdle p = true) : stepsOf ps = [] :=
  List.filter_eq_nil_iff.2 fun p hp => by simp [h p hp]

/-- Empty pieces are no steps. -/
theorem stepsOf_filter (ps : List (List Char)) : stepsOf (ps.filter (· ≠ [])) = stepsOf ps := by
  unfold stepsOf
  rw [List.filter_filter]
  refine List.filter_congr fun p _ => ?_
  cases p with
  | nil => rfl
  | cons c p => simp

theorem injective_component :
    Function.Injective fun p : List Char => if p == ['.', '.'] then Component.up else .name (String.ofList p) := by
  intro p q h
  dsimp only at h
  split at h <;> split at h <;> rename_i hp hq
  · exact (beq_iff_eq.1 hp).trans (beq_iff_eq.1 hq).symm
  · cases h
  · cases h
  · exact String.ofList_injective (Component.name.inj h)

theorem ofPieces_inj : ofPieces as = ofPieces bs ↔ stepsOf as = stepsOf bs :=
  (List.map_injective_iff.2 injective_component).eq_iff

theorem ofPieces_prefix_iff : ofPieces as <+: ofPieces bs ↔ stepsOf as <+: stepsOf bs :=
  List.prefix_map_iff_of_injective injective_component

/-! ## What is left below a directory -/

/-- Pieces without what is idle at either end. -/
def strip (ps : List (List Char)) : List (List Char) := Text.dropLastWhile isIdle (ps.dropWhile isIdle)

theorem exists_dropLastWhile {α : Type} (p : α → Bool) (l : List α) :
    ∃ post, l = Text.dropLastWhile p l ++ post ∧ (∀ a ∈ post, p a = true) ∧
      ∀ a ∈ (Text.dropLastWhile p l).getLast?, p a = false := by
  refine ⟨(l.reverse.takeWhile p).reverse, ?_, fun a ha => ?_, fun a ha => ?_⟩
  · unfold Text.dropLastWhile
    rw [← List.reverse_append, List.takeWhile_append_dropWhile, List.reverse_reverse]
  · exact List.mem_takeWhile_imp (List.mem_reverse.1 ha)
  · unfold Text.dropLastWhile at ha
    rw [List.getLast?_reverse] at ha
    have h := List.head?_dropWhile_not p l.reverse
    rwa [Option.mem_def.1 ha] at h

/-- What is stripped off is idle, and what is left begins and ends with a step. -/
theorem exists_strip (ps : List (List Char)) :
    ∃ pre post, ps = pre ++ (strip ps ++ post) ∧ (∀ p ∈ pre, isIdle p = true) ∧ (∀ p ∈ post, isIdle p = true) ∧
      (∀ p ∈ (strip ps).head?, isIdle p = false) ∧ ∀ p ∈ (strip ps).getLast?, isIdle p = false := by
  obtain ⟨post, hpost, hidle, hlast⟩ := exists_dropLastWhile isIdle (ps.dropWhile isIdle)
  change _ = strip ps ++ post at hpost
  refine ⟨ps.takeWhile isIdle, post, ?_, fun p hp => List.mem_takeWhile_imp hp, hidle, fun p hp => ?_, hlast⟩
  · rw [← hpost, List.takeWhile_append_dropWhile]
  · have hhead : (ps.dropWhile isIdle).head? = some p := by
      rw [hpost, List.head?_append, Option.mem_def.1 hp]
      rfl
    have h := List.head?_dropWhile_not isIdle ps
    rwa [hhead] at h

theorem mem_of_mem_strip {p : List Char} (h : p ∈ strip ps) : p ∈ ps := by
  obtain ⟨pre, post, hps, -⟩ := exists_strip ps
  exact hps ▸ List.mem_append_right _ (List.mem_append_left _ h)

theorem ne_nil_of_not_idle {p : List Char} (h : isIdle p = false) : p ≠ [] := by
  rintro rfl
  cases h

/-- What is left of pieces, as it is written. -/
def stripped (ps : List (List Char)) : String := String.ofList (['/'].intercalate (strip ps))

section Stripped

variable (hps : ∀ p ∈ ps, '/' ∉ p) (hne : strip ps ≠ [])
include hps hne

theorem pieces_stripped : pieces (stripped ps).toList = strip ps := by
  rw [stripped, String.toList_ofList, pieces_intercalate (fun p hp => hps p (mem_of_mem_strip hp)) hne]

theorem not_isAbsolute_stripped : isAbsolute (stripped ps) = false := by
  obtain ⟨pre, post, -, -, -, hhead, -⟩ := exists_strip ps
  refine not_isAbsolute_of_head ?_
  rw [pieces_stripped hps hne]
  exact fun p hp => ne_nil_of_not_idle (hhead p hp)

theorem getLast?_stripped : (stripped ps).toList.getLast? ≠ some '/' := by
  obtain ⟨pre, post, -, -, -, -, hlast⟩ := exists_strip ps
  refine getLast?_ne_slash_of_getLast ?_
  rw [pieces_stripped hps hne]
  exact fun p hp => ne_nil_of_not_idle (hlast p hp)

end Stripped

theorem dropSteps_append (as bs : List (List Char)) :
    dropSteps (stepsOf as).length (as ++ bs) = bs.dropWhile isIdle := by
  induction as with
  | nil => rw [List.nil_append, show (stepsOf []).length = 0 from rfl, dropSteps]
  | cons p as ih =>
    cases hp : isIdle p with
    | true =>
      have hsteps : stepsOf (p :: as) = stepsOf as := List.filter_cons_of_neg (by simp [hp])
      rw [hsteps, List.cons_append]
      cases hlength : (stepsOf as).length with
      | zero =>
        rw [hlength] at ih
        rw [← ih, dropSteps, dropSteps, List.dropWhile_cons_of_pos hp]
      | succ n => rw [dropSteps, if_pos hp, ← hlength, ih]
    | false =>
      have hsteps : stepsOf (p :: as) = p :: stepsOf as := List.filter_cons_of_pos (by simp [hp])
      rw [hsteps, List.length_cons, List.cons_append, dropSteps, if_neg (by simp [hp]), ih]

section Directory

variable {body : List Char}

theorem components_of_body (hfound : found.toList = '/' :: body) :
    components found = .root :: ofPieces (pieces body) := by
  rw [components_of_isAbsolute (by simp [isAbsolute, hfound]), moves, hfound, pieces_cons_slash, ofPieces_cons_nil]

variable (hdirectory : isAbsolute directory = true) (hfound : found.toList = '/' :: body)
include hdirectory hfound

theorem below?_eq : below? directory found =
    if stepsOf (pieces directory.toList) <+: stepsOf (pieces body) then
      some (ofBody (dropSteps (stepsOf (pieces directory.toList)).length (pieces body)))
    else none := by
  have hlength : (ofPieces (pieces directory.toList)).length = (stepsOf (pieces directory.toList)).length :=
    List.length_map ..
  unfold below?
  rw [components_of_isAbsolute hdirectory, components_of_body hfound, hfound]
  dsimp only [start]
  rw [List.length_cons, moves, hlength]
  refine ite_congr (propext ?_) (fun _ => rfl) fun _ => rfl
  rw [List.isPrefixOf_iff_prefix, List.prefix_cons_inj, ofPieces_prefix_iff]

/-- Behind the steps of a directory the rest of a path is as it is written. -/
theorem below?_of_split (hpieces : pieces body = as ++ bs) (has : stepsOf as = stepsOf (pieces directory.toList)) :
    below? directory found = some (stripped bs) := by
  rw [below?_eq hdirectory hfound, hpieces, ← has, dropSteps_append,
    if_pos (stepsOf_append as bs ▸ List.prefix_append _ _)]
  rfl

theorem exists_split_of_below? (h : below? directory found = some rest) :
    ∃ as bs, pieces body = as ++ bs ∧ stepsOf as = stepsOf (pieces directory.toList) ∧
      rest = stripped bs := by
  have hprefix : stepsOf (pieces directory.toList) <+: stepsOf (pieces body) := by
    rw [below?_eq hdirectory hfound] at h
    split at h
    · assumption
    · cases h
  obtain ⟨more, hmore⟩ := hprefix
  obtain ⟨as, bs, hpieces, has, -⟩ := List.filter_eq_append_iff.1 hmore.symm
  refine ⟨as, bs, hpieces, has, ?_⟩
  rw [below?_of_split hdirectory hfound hpieces has] at h
  exact (Option.some.inj h).symm

end Directory

/-! ## Names written behind each other -/

/-- A path from the root with a slash before each name, and perhaps one at its end. -/
def Written (path : String) (names : List (List Char)) : Prop :=
  path.toList = names.flatMap ('/' :: ·) ++ ['/'] ∨
    names ≠ [] ∧ path.toList = names.flatMap ('/' :: ·) ∧ path.toList.getLast? ≠ some '/'

theorem written_root : Written "/" [] := .inl rfl

theorem Written.join (h : Written path names) (hname : '/' ∉ name.toList) :
    Written (join path name) (if name = "" then names else names ++ [name.toList]) := by
  have hrelative : isAbsolute name = false := by
    unfold isAbsolute
    rw [beq_eq_false_iff_ne]
    exact fun hhead => hname (List.mem_of_head? hhead)
  -- the slash that is there already is not written again
  have hjoin : (Path.join path name).toList = names.flatMap ('/' :: ·) ++ '/' :: name.toList := by
    unfold Path.join
    rw [if_neg (by simp [hrelative])]
    rcases h with h | ⟨hne, h, hlast⟩
    · rw [if_pos (by simp [h]), String.toList_append, h, List.append_assoc, List.singleton_append]
    · have hempty : path ≠ "" := by
        rintro rfl
        exact hne (List.eq_nil_iff_forall_not_mem.2 (by simpa using h))
      rw [if_neg (by simp [hempty, hlast]), String.toList_append, String.toList_append, h, List.append_assoc]
      rfl
  split
  · rename_i hempty
    left
    rw [hjoin, hempty]
    rfl
  · rename_i hne
    obtain ⟨before, last, hsplit⟩ : ∃ before last, name.toList = before ++ [last] :=
      ⟨_, _, (List.dropLast_append_getLast (by simpa using hne)).symm⟩
    refine .inr ⟨by simp, by simp [hjoin], fun hlast => hname ?_⟩
    rw [hjoin, hsplit, ← List.cons_append, ← List.append_assoc, List.getLast?_concat] at hlast
    rw [hsplit, Option.some.inj hlast]
    exact List.mem_append_right _ List.mem_cons_self

/-- What is joined is written without the empty names. -/
theorem Written.foldl_join {texts : List String} (h : Written path names)
    (htexts : ∀ text ∈ texts, '/' ∉ text.toList) :
    Written (texts.foldl Path.join path) (names ++ (texts.map String.toList).filter (· ≠ [])) := by
  induction texts generalizing path names with
  | nil => simpa using h
  | cons text texts ih =>
    obtain ⟨htext, hrest⟩ := List.forall_mem_cons.1 htexts
    have hstep := ih (h.join htext) hrest
    rw [List.foldl_cons]
    by_cases hempty : text = ""
    · simpa [hempty] using hstep
    · simpa [hempty] using hstep

theorem pieces_written_behind (hnames : ∀ name ∈ names, '/' ∉ name) (cs : List Char) :
    pieces (cs ++ names.flatMap ('/' :: ·)) = pieces cs ++ names := by
  induction names generalizing cs with
  | nil => simp
  | cons name names ih =>
    obtain ⟨hname, hrest⟩ := List.forall_mem_cons.1 hnames
    have hassoc : cs ++ (name :: names).flatMap ('/' :: ·) = (cs ++ '/' :: name) ++ names.flatMap ('/' :: ·) := by
      simp
    rw [hassoc, ih hrest, pieces_append_slash, pieces_of_no_slash hname, List.append_assoc, List.singleton_append]

/-- Between the slashes stand the names. -/
theorem Written.exists_body (h : Written path names) (hnames : ∀ name ∈ names, '/' ∉ name) :
    ∃ body last, path.toList = '/' :: body ∧ pieces body = names ++ last ∧ ∀ p ∈ last, p = [] := by
  have hpieces : ∃ last, pieces path.toList = [] :: (names ++ last) ∧ ∀ p ∈ last, p = [] := by
    rcases h with h | ⟨-, h, -⟩
    · refine ⟨[[]], ?_, by simp⟩
      rw [h, pieces_append_slash, ← List.nil_append (names.flatMap _), pieces_written_behind hnames]
      rfl
    · refine ⟨[], ?_, List.forall_mem_nil _⟩
      rw [h, ← List.nil_append (names.flatMap _), pieces_written_behind hnames, List.append_nil]
      rfl
  obtain ⟨body, hbody⟩ : ∃ body, path.toList = '/' :: body := by
    rcases h with h | ⟨hne, h, -⟩
    · cases names with
      | nil => exact ⟨[], h⟩
      | cons name names => exact ⟨_, h⟩
    · obtain ⟨name, rest, rfl⟩ := List.exists_cons_of_ne_nil hne
      exact ⟨_, h⟩
  obtain ⟨last, hlast, hempty⟩ := hpieces
  rw [hbody, pieces_cons_slash] at hlast
  exact ⟨body, last, hbody, (List.cons.inj hlast).2, hempty⟩

/-- What is joined to the root has the pieces of a text and some names between its slashes, if these are joined. -/
theorem exists_pieces_of_foldl_join {body : List Char} {texts : List String}
    (htexts : ∀ text ∈ texts, '/' ∉ text.toList)
    (hfound : found = ((pieces body).map String.ofList ++ texts).foldl Path.join "/") :
    ∃ rest names last, found.toList = '/' :: rest ∧ pieces rest = (pieces body).filter (· ≠ []) ++ names ++ last ∧
      (∀ name ∈ names, '/' ∉ name ∧ name ≠ []) ∧ ∀ p ∈ last, p = [] := by
  have hall : ∀ text ∈ (pieces body).map String.ofList ++ texts, '/' ∉ text.toList := by
    intro text htext
    rcases List.mem_append.1 htext with htext | htext
    · obtain ⟨p, hp, rfl⟩ := List.mem_map.1 htext
      rw [String.toList_ofList]
      exact not_slash_of_mem_pieces hp
    · exact htexts text htext
  have hread : (pieces body).map (String.toList ∘ String.ofList) = pieces body :=
    List.map_id'' (fun _ => String.toList_ofList) _
  have hwritten := written_root.foldl_join hall
  rw [← hfound, List.nil_append, List.map_append, List.filter_append, List.map_map, hread] at hwritten
  have hnamed : ∀ name ∈ (texts.map String.toList).filter (· ≠ []), '/' ∉ name ∧ name ≠ [] := by
    intro name hname
    obtain ⟨hmem, hne⟩ := List.mem_filter.1 hname
    obtain ⟨text, htext, rfl⟩ := List.mem_map.1 hmem
    exact ⟨htexts text htext, by simpa using hne⟩
  have hslash : ∀ name ∈ (pieces body).filter (· ≠ []) ++ (texts.map String.toList).filter (· ≠ []), '/' ∉ name := by
    intro name hname
    rcases List.mem_append.1 hname with hname | hname
    · exact not_slash_of_mem_pieces (List.mem_of_mem_filter hname)
    · exact (hnamed name hname).1
  obtain ⟨rest, last, hrest, hpieces, hlast⟩ := hwritten.exists_body hslash
  exact ⟨rest, _, last, hrest, hpieces, hnamed, hlast⟩

/-! ## What a shortened path begins with -/

theorem dropLastWhile_append {α : Type} {p : α → Bool} {post : List α} (hpost : ∀ a ∈ post, p a = true) (l : List α) :
    Text.dropLastWhile p (l ++ post) = Text.dropLastWhile p l := by
  unfold Text.dropLastWhile
  rw [List.reverse_append, List.dropWhile_append_of_pos fun a ha => hpost a (List.mem_reverse.1 ha)]

theorem strip_append {post : List (List Char)} (hpost : ∀ p ∈ post, isIdle p = true) (ps : List (List Char)) :
    strip (ps ++ post) = strip ps := by
  have hidle : post.dropWhile isIdle = [] := List.dropWhile_eq_nil_iff.2 hpost
  unfold strip
  rw [List.dropWhile_append]
  split
  · rename_i hempty
    rw [hidle, List.isEmpty_iff.1 hempty]
  · exact dropLastWhile_append hpost _

/-- Where nothing is idle at the beginning, only the end is stripped. -/
theorem strip_of_head (h : ∀ p ∈ ps.head?, isIdle p = false) :
    ∃ post, ps = strip ps ++ post ∧ ∀ p ∈ post, isIdle p = true := by
  obtain ⟨post, hpost, hidle, -⟩ := exists_dropLastWhile isIdle ps
  have hkeep : ps.dropWhile isIdle = ps := by
    cases ps with
    | nil => rfl
    | cons p ps => rw [List.dropWhile_cons_of_neg (by simp [h p rfl])]
  refine ⟨post, ?_, hidle⟩
  unfold strip
  rwa [hkeep]

theorem stepsOf_append_ne (hne : bs ≠ []) (hlast : ∀ p ∈ (as ++ bs).getLast?, isIdle p = false) :
    stepsOf (as ++ bs) ≠ stepsOf as := by
  rw [stepsOf_append, Ne, List.append_right_eq_self]
  intro hnone
  have hidle := hlast _ (by rw [List.getLast?_append_of_ne_nil _ hne]; exact List.getLast?_eq_some_getLast hne)
  have hmem := List.filter_eq_nil_iff.1 hnone _ (List.getLast_mem hne)
  simp [hidle] at hmem

/-- A text of pieces is a beginning of other ones just if it goes on with some of them. -/
theorem prefix_intercalate_iff {kept : List (List Char)} (hlead : ∀ p ∈ lead, '/' ∉ p) (hne : lead ≠ [])
    (hkept : ∀ p ∈ kept, '/' ∉ p) :
    lead.flatMap (· ++ ['/']) <+: ['/'].intercalate kept ↔ ∃ more, more ≠ [] ∧ kept = lead ++ more := by
  constructor
  · rintro ⟨cs, hcs⟩
    have hsome : kept ≠ [] := by
      rintro rfl
      obtain ⟨p, ps, rfl⟩ := List.exists_cons_of_ne_nil hne
      simp at hcs
    refine ⟨pieces cs, Text.splitOn_ne_nil _ cs, ?_⟩
    rw [← pieces_intercalate hkept hsome, ← hcs, pieces_flatMap hlead]
  · rintro ⟨more, hmore, rfl⟩
    rw [intercalate_append lead hmore]
    exact List.prefix_append _ _

/-- Pieces are left in front of others if no idle one comes first, and if more than their steps is left. -/
theorem exists_strip_eq_append {more : List (List Char)} (hhead : ∀ p ∈ (lead ++ more).head?, isIdle p = false)
    (hsteps : stepsOf (strip (lead ++ more)) ≠ stepsOf lead) :
    ∃ rest, rest ≠ [] ∧ strip (lead ++ more) = lead ++ rest := by
  obtain ⟨post, hpost, hidle⟩ := strip_of_head hhead
  rcases List.append_eq_append_iff.1 hpost with ⟨rest, hkept, -⟩ | ⟨rest, hkept, hrest⟩
  · refine ⟨rest, ?_, hkept⟩
    rintro rfl
    rw [hkept, List.append_nil] at hsteps
    exact hsteps rfl
  · -- nothing but idle pieces stood behind the steps
    refine absurd ?_ hsteps
    have hnone : stepsOf rest = [] := stepsOf_eq_nil fun p hp => hidle p (hrest ▸ List.mem_append_left _ hp)
    conv_rhs => rw [hkept]
    rw [stepsOf_append, hnone, List.append_nil]

/-- A text of pieces is a beginning of what is left of these and more ones just if nothing is left out of it, and if
more than the steps in it is left. -/
theorem prefix_strip_iff {more : List (List Char)} (hlead : ∀ p ∈ lead, '/' ∉ p) (hne : lead ≠ [])
    (hmore : ∀ p ∈ more, '/' ∉ p ∧ p ≠ []) :
    lead.flatMap (· ++ ['/']) <+: (stripped (lead.filter (· ≠ []) ++ more)).toList ↔
      ((∀ p ∈ lead.head?, isIdle p = false) ∧ [] ∉ lead) ∧
        stepsOf (strip (lead.filter (· ≠ []) ++ more)) ≠ stepsOf lead := by
  have hall : ∀ p ∈ lead.filter (· ≠ []) ++ more, '/' ∉ p ∧ p ≠ [] := by
    intro p hp
    rcases List.mem_append.1 hp with hp | hp
    · obtain ⟨hmem, hpiece⟩ := List.mem_filter.1 hp
      exact ⟨hlead p hmem, by simpa using hpiece⟩
    · exact hmore p hp
  rw [stripped, String.toList_ofList, prefix_intercalate_iff hlead hne fun p hp => (hall p (mem_of_mem_strip hp)).1]
  obtain ⟨pre, post, -, -, -, hhead, hlast⟩ := exists_strip (lead.filter (· ≠ []) ++ more)
  constructor
  · rintro ⟨rest, hrest, hkept⟩
    rw [hkept] at hhead hlast ⊢
    have hempty : [] ∉ lead := fun hmem =>
      (hall [] (mem_of_mem_strip (hkept ▸ List.mem_append_left _ hmem))).2 rfl
    refine ⟨⟨?_, hempty⟩, stepsOf_append_ne hrest hlast⟩
    rwa [List.head?_append_of_ne_nil _ hne] at hhead
  · rintro ⟨⟨hfirst, hempty⟩, hsteps⟩
    have hfilter : lead.filter (· ≠ []) = lead :=
      List.filter_eq_self.2 fun p hp => by simpa using ne_of_mem_of_not_mem hp hempty
    rw [hfilter] at hsteps ⊢
    exact exists_strip_eq_append (by rwa [List.head?_append_of_ne_nil _ hne]) hsteps

/-! ## Paths that begin with a step -/

/-- A path that begins with a step stands for its moves. -/
theorem components_of_head (h : ∀ p ∈ (pieces path.toList).head?, isIdle p = false) : components path = moves path := by
  rw [components_eq, moves]
  generalize path.toList = cs at h
  have hroot (rest : List Char) : cs ≠ '/' :: rest := by
    rintro rfl
    cases h [] (by simp)
  have hdot (rest : List Char) : cs ≠ '.' :: '/' :: rest := by
    rintro rfl
    have hpieces : pieces ('.' :: '/' :: rest) = ['.'] :: pieces rest := pieces_append_slash ['.'] rest
    cases h ['.'] (by rw [hpieces]; rfl)
  unfold start
  split
  · exact absurd rfl (hroot _)
  · cases h ['.'] rfl
  · exact absurd rfl (hdot _)
  · rfl

/-- A text that is kept as it is when its steps are written again: it begins with a step, and nothing empty stands
before a slash. -/
def IsStraight (text : String) : Prop :=
  (∀ p ∈ (pieces text.toList).head?, isIdle p = false) ∧ [] ∉ (pieces text.toList).dropLast

instance (text : String) : Decidable (IsStraight text) :=
  inferInstanceAs (Decidable ((∀ p ∈ (pieces text.toList).head?, isIdle p = false) ∧
    [] ∉ (pieces text.toList).dropLast))

theorem components_stripped (hps : ∀ p ∈ ps, '/' ∉ p) : components (stripped ps) = ofPieces (strip ps) := by
  obtain ⟨pre, post, -, -, -, hhead, -⟩ := exists_strip ps
  by_cases hne : strip ps = []
  · rw [stripped, hne]
    rfl
  · have hpieces := pieces_stripped hps hne
    rw [components_of_head (by rwa [hpieces]), moves, hpieces]

/-- What is left of a path below a directory begins with the text before its names just if this text is straight, and if
it is more than a path of that text. -/
theorem prefix_rest_iff {text : String} {cs : List Char} {more : List (List Char)} (htext : text.toList = cs ++ ['/'])
    (hmore : ∀ p ∈ more, '/' ∉ p ∧ p ≠ []) :
    text.toList <+: (stripped ((pieces cs).filter (· ≠ []) ++ more)).toList ↔ IsStraight text ∧
      components (stripped ((pieces cs).filter (· ≠ []) ++ more)) ≠ components text := by
  have hslash : ∀ p ∈ pieces cs, '/' ∉ p := fun p hp => not_slash_of_mem_pieces hp
  have hne : pieces cs ≠ [] := Text.splitOn_ne_nil _ cs
  have hpieces : pieces text.toList = pieces cs ++ [[]] := by rw [htext, pieces_append_slash, pieces_nil]
  have hstraight : IsStraight text ↔ (∀ p ∈ (pieces cs).head?, isIdle p = false) ∧ [] ∉ pieces cs := by
    unfold IsStraight
    rw [hpieces, List.head?_append_of_ne_nil _ hne, List.dropLast_concat]
  have hall : ∀ p ∈ (pieces cs).filter (· ≠ []) ++ more, '/' ∉ p := by
    intro p hp
    rcases List.mem_append.1 hp with hp | hp
    · exact hslash p (List.mem_of_mem_filter hp)
    · exact (hmore p hp).1
  rw [htext, ← flatMap_pieces, prefix_strip_iff hslash hne hmore, hstraight, components_stripped hall]
  refine and_congr_right fun hstart => not_congr ?_
  have hcomponents : components text = ofPieces (pieces cs) := by
    rw [components_of_head (by rw [hpieces, List.head?_append_of_ne_nil _ hne]; exact hstart.1), moves, hpieces]
    simp
  rw [hcomponents, ofPieces_inj]

end Taskwork.Path
