/-
Where the paths that a search finds come from. A search goes from directory to directory by names;
the names on the way to a path match the parts of the pattern one by one, and a part for any
directories is passed by any number of them. So the characters of a pattern that stand for
themselves are those of the names, in the order of the parts.
-/
import Taskwork.Glob.Walk
import Taskwork.Proofs.Glob.Standing
import Taskwork.Proofs.Stateful
import Taskwork.Proofs.Text.Split

namespace Taskwork.Glob

/-- Names that match the parts of a pattern in their order. -/
inductive Matched (dots : Bool) : List Pattern → List String → Prop where
  | nil : Matched dots [] []
  | name {p : Pattern} {ps : List Pattern} {name : String} {names : List String}
    (h : p.matches dots name = true) (hmore : Matched dots ps names) : Matched dots (p :: ps) (name :: names)
  | directories {p : Pattern} {ps : List Pattern} {names : List String} (h : p.isRecursive = true)
    (passed : List String) (hmore : Matched dots ps names) : Matched dots (p :: ps) (passed ++ names)

/-- A way by names from one path to another. -/
inductive Reaches : String → List String → String → Prop where
  | nil {path : String} : Reaches path [] path
  | name {path name found : String} {names : List String}
    (h : Reaches (Search.step path name) names found) : Reaches path (name :: names) found
  /-- The directory itself and the one above it may have a path even where the search starts. -/
  | special {path name found : String} {names : List String}
    (h : Reaches (Path.join path name) names found) : Reaches path (name :: names) found

namespace Search

/-- One move of a search, from a path by a name to the next path. A name that is looked up is `known`. -/
inductive Move (s : Search) (known : String → Prop) : String → String → String → Prop where
  | looked {path name : String} (hname : known name)
    (hthere : (if name == "." || name == ".." then s.files.isDirectory path else s.isThere (step path name)) = true) :
    Move s known path name (step path name)
  | special {path name : String} (hname : name ∈ ["..", "."]) (hdirectory : s.files.isDirectory path = true) :
    Move s known path name (Path.join path name)
  | listed {path name : String} (hname : name ∈ s.listed path) (hdirectory : s.files.isDirectory path = true) :
    Move s known path name (step path name)

/-- The moves of a search from one path to another, by their names. -/
inductive Visits (s : Search) (known : String → Prop) : String → List String → String → Prop where
  | nil {path : String} : Visits s known path [] path
  | cons {path name next found : String} {names : List String} (h : Move s known path name next)
    (hmore : Visits s known next names found) : Visits s known path (name :: names) found

namespace Visits

variable {s : Search} {known : String → Prop} {path found : String} {names : List String}

theorem reaches (h : Visits s known path names found) : Reaches path names found := by
  induction h with
  | nil => exact .nil
  | cons hmove _ ih =>
    cases hmove with
    | looked => exact .name ih
    | special => exact .special ih
    | listed => exact .name ih

/-- What each move keeps is so at the end. -/
theorem invariant {I : String → Prop} (h : Visits s known path names found) (hpath : I path)
    (hmove : ∀ {path name next}, I path → Move s known path name next → I next) : I found := by
  induction h with
  | nil => exact hpath
  | cons h _ ih => exact ih (hmove hpath h)

end Visits
end Search

namespace Matched

variable {dots : Bool} {p : Pattern} {ps : List Pattern} {names : List String}

/-- A part for any directories is passed by one more name. -/
theorem deeper (h : Matched dots (p :: ps) names) (hp : p.isRecursive = true) (name : String) :
    Matched dots (p :: ps) (name :: names) := by
  cases h with
  | name _ hmore => exact .directories hp [name, _] hmore
  | directories _ passed hmore => exact .directories hp (name :: passed) hmore

/-- Further parts for any directories ask for no names. -/
theorem of_afterRecursive (h : Matched dots (Search.afterRecursive ps) names) : Matched dots ps names := by
  induction ps with
  | nil => exact h
  | cons p ps ih =>
    unfold Search.afterRecursive at h
    split at h
    · rename_i hp
      exact .directories hp [] (ih h)
    · exact h

theorem append_afterRecursive (h : Matched dots (p :: Search.afterRecursive ps) names) :
    Matched dots (p :: ps) names := by
  cases h with
  | name h hmore => exact .name h hmore.of_afterRecursive
  | directories h passed hmore => exact .directories h passed hmore.of_afterRecursive

end Matched

namespace Search

variable {s : Search} {known : String → Prop}

theorem eq_of_mem_result {path found : String} (h : found ∈ s.result path) : found = path := by
  unfold result at h
  split at h
  · cases h
  · exact List.mem_singleton.mp h

/-- A pattern without wildcards matches the text it stands for. -/
theorem matches_of_text? {dots : Bool} {p : Pattern} {name : String} (h : p.text? = some name) :
    p.matches dots name = true := by
  obtain ⟨cs, hcs, rfl⟩ := Option.map_eq_some_iff.mp h
  unfold Pattern.matches
  rw [String.toList_ofList]
  exact matchTokens_of_chars hcs true

theorem mem_of_mem_afterRecursive {p : Pattern} {ps : List Pattern} (h : p ∈ afterRecursive ps) : p ∈ ps := by
  induction ps with
  | nil => exact h
  | cons q ps ih =>
    unfold afterRecursive at h
    split at h
    · exact List.mem_cons_of_mem _ (ih h)
    · exact h

mutual

/-- What is found below a directory is visited by names that match the parts. -/
theorem visited_below {depth : Nat} {parts : List Pattern} {path found : String}
    (hknown : ∀ p ∈ parts, ∀ name, p.text? = some name → known name) (h : found ∈ s.below depth parts path) :
    ∃ names, Matched s.dots parts names ∧ Visits s known path names found := by
  match depth, parts with
  | 0, _ =>
    rw [below] at h
    cases h
  | depth + 1, [] =>
    rw [below] at h
    · obtain rfl := eq_of_mem_result h
      exact ⟨[], .nil, .nil⟩
    · exact nofun
  | depth + 1, p :: rest =>
    obtain ⟨hp, hrest⟩ := List.forall_mem_cons.mp hknown
    rw [below] at h
    split at h
    · -- a part without wildcards is looked up, and not compared with any names
      rename_i name htext
      dsimp only at h
      generalize hthere : (if name == "." || name == ".." then _ else _) = isThere at h
      cases isThere with
      | false => cases h
      | true =>
        obtain ⟨names, hmatched, hvisits⟩ := visited_below hrest h
        exact ⟨name :: names, .name (matches_of_text? htext) hmatched, .cons (.looked (hp name htext) hthere) hvisits⟩
    · split at h
      · rename_i hdirectory
        rcases List.mem_append.mp h with h | h
        · obtain ⟨name, hname, h⟩ := List.mem_flatMap.mp h
          have hspecial : name ∈ ["..", "."] ∧ p.matches s.dots name = true := by
            split at hname
            · exact List.mem_filter.mp hname
            · cases hname
          obtain ⟨names, hmatched, hvisits⟩ := visited_below hrest h
          exact ⟨name :: names, .name hspecial.2 hmatched, .cons (.special hspecial.1 hdirectory) hvisits⟩
        · obtain ⟨name, hname, h⟩ := List.mem_flatMap.mp h
          obtain ⟨names, hmatched, hvisits⟩ := visited_atName hknown h
          exact ⟨name :: names, hmatched, .cons (.listed hname hdirectory) hvisits⟩
      · cases h

theorem visited_atName {depth : Nat} {parts : List Pattern} {name path found : String}
    (hknown : ∀ p ∈ parts, ∀ name, p.text? = some name → known name) (h : found ∈ s.atName depth parts name path) :
    ∃ names, Matched s.dots parts (name :: names) ∧ Visits s known path names found := by
  match depth, parts with
  | 0, _ =>
    rw [atName] at h
    cases h
  | depth + 1, [] =>
    rw [atName] at h
    cases h
  | depth + 1, p :: rest =>
    have hlast {q : Pattern} {more : List Pattern} (hq : q.matches s.dots name = true)
        (hmore : ∀ p ∈ more, ∀ name, p.text? = some name → known name)
        (h : found ∈ if more.isEmpty then s.result path else s.below depth more path) :
        ∃ names, Matched s.dots (q :: more) (name :: names) ∧ Visits s known path names found := by
      split at h
      · rename_i hnone
        obtain rfl := List.isEmpty_iff.mp hnone
        obtain rfl := eq_of_mem_result h
        exact ⟨[], .name hq .nil, .nil⟩
      · obtain ⟨names, hmatched, hvisits⟩ := visited_below hmore h
        exact ⟨names, .name hq hmatched, hvisits⟩
    rw [atName] at h
    dsimp only at h
    split at h
    · -- a part for any directories: the name is one of those passed, or matches the next part
      rename_i hp
      have hafterKnown : ∀ q ∈ p :: afterRecursive rest, ∀ name, q.text? = some name → known name := by
        intro q hq
        rcases List.mem_cons.mp hq with rfl | hq
        · exact hknown q List.mem_cons_self
        · exact hknown q (List.mem_cons_of_mem _ (mem_of_mem_afterRecursive hq))
      split at h
      · rename_i hafter
        rw [hafter] at hafterKnown
        split at h
        · rcases List.mem_append.mp h with h | h
          · obtain rfl := eq_of_mem_result h
            exact ⟨[], Matched.append_afterRecursive (hafter ▸ .directories hp [name] .nil), .nil⟩
          · obtain ⟨names, hmatched, hvisits⟩ := visited_below hafterKnown h
            exact ⟨names, Matched.append_afterRecursive (hafter ▸ hmatched.deeper hp name), hvisits⟩
        · cases h
      · rename_i q more hafter
        rw [hafter] at hafterKnown
        rcases List.mem_append.mp h with h | h
        · split at h
          · rename_i hq
            have hmoreKnown := (List.forall_mem_cons.mp (List.forall_mem_cons.mp hafterKnown).2).2
            obtain ⟨names, hmatched, hvisits⟩ := hlast hq hmoreKnown h
            exact ⟨names, Matched.append_afterRecursive (hafter ▸ .directories hp [] hmatched), hvisits⟩
          · cases h
        · split at h
          · obtain ⟨names, hmatched, hvisits⟩ := visited_below hafterKnown h
            exact ⟨names, Matched.append_afterRecursive (hafter ▸ hmatched.deeper hp name), hvisits⟩
          · cases h
    · split at h
      · exact hlast ‹_› (List.forall_mem_cons.mp hknown).2 h
      · cases h

end

/-- What is found below a directory is visited by names that match the parts, whatever names are looked up. -/
theorem visits_of_mem_below {depth : Nat} {parts : List Pattern} {path found : String}
    (h : found ∈ s.below depth parts path) :
    ∃ names, Matched s.dots parts names ∧ Visits s (fun _ => True) path names found :=
  visited_below (fun _ _ _ _ => trivial) h

end Search

/-! ## Parts of a pattern with quoted characters -/

/-- Names in which the characters that stand for themselves are as they are. A part in which none
does may be passed by any number of names. -/
inductive Along : List (List Mark) → List String → Prop where
  | nil : Along [] []
  | name {piece : List Mark} {pieces : List (List Mark)} {name : String} {names : List String}
    (h : Fits piece name.toList) (hmore : Along pieces names) : Along (piece :: pieces) (name :: names)
  | free {piece : List Mark} {pieces : List (List Mark)} {names : List String} (h : ∀ m ∈ piece, m.2 = false)
    (passed : List String) (hmore : Along pieces names) : Along (piece :: pieces) (passed ++ names)

theorem none_asked {ms' ms : List Mark} (hle : List.Forall₂ AsksLess ms' ms) (h : ∀ m ∈ ms, m.2 = false) :
    ∀ m ∈ ms', m.2 = false := by
  induction hle with
  | nil => exact h
  | cons hm _ ih =>
    rw [List.forall_mem_cons] at h ⊢
    exact ⟨Bool.eq_false_iff.mpr fun htrue => by simp [hm.2 htrue] at h, ih h.2⟩

namespace Along

variable {pieces : List (List Mark)} {names : List String}

theorem weaken {pieces' : List (List Mark)} (h : Along pieces names)
    (hle : List.Forall₂ (List.Forall₂ AsksLess) pieces' pieces) : Along pieces' names := by
  induction h generalizing pieces' with
  | nil => cases hle; exact .nil
  | name h _ ih =>
    obtain _ | ⟨hpiece, hrest⟩ := hle
    exact .name (h.weaken hpiece) (ih hrest)
  | free h passed _ ih =>
    obtain _ | ⟨hpiece, hrest⟩ := hle
    exact .free (none_asked hpiece h) passed (ih hrest)

/-- A slash at the end asks for no name. -/
theorem slash (h : Along pieces names) : Along (pieces ++ [[]]) names := by
  induction h with
  | nil => exact .free (List.forall_mem_nil _) [] .nil
  | name h _ ih => exact .name h ih
  | free h passed _ ih => exact .free h passed ih

end Along

/-- The marks between slashes. -/
def markPieces (ms : List Mark) : List (List Mark) := Text.splitOn (·.1 == '/') ms

theorem no_slash_of_mem_markPieces {ms piece : List Mark} (h : piece ∈ markPieces ms) {m : Mark} (hm : m ∈ piece) :
    m.1 ≠ '/' := by
  simpa using Text.mem_splitOn h hm

/-- Which characters of a whole pattern stand for themselves, part by part. -/
def standingPieces (ms : List Mark) : List (List Mark) := (markPieces ms).map (standing 0)

/-- Marks of the same characters have their slashes at the same places. -/
theorem forall₂_markPieces {R : Mark → Mark → Prop} (hR : ∀ m' m, R m' m → m'.1 = m.1) {ms' ms : List Mark}
    (h : List.Forall₂ R ms' ms) : List.Forall₂ (List.Forall₂ R) (markPieces ms') (markPieces ms) :=
  Text.forall₂_splitOn (fun m' m hm => congrArg (· == '/') (hR m' m hm)) h

theorem renderChar_slash {m : Mark} (hm : m.1 = '/') : renderChar m = ['/'] := by
  rw [renderChar_of_plain (by rw [hm]; exact Bool.and_false _), hm]

theorem renderChar_no_slash {m : Mark} (hm : m.1 ≠ '/') : ∀ c ∈ renderChar m, (c == '/') = false := by
  intro c hc
  unfold renderChar at hc
  split at hc
  · simp only [List.mem_cons, List.not_mem_nil, or_false] at hc
    rcases hc with rfl | rfl | rfl
    · rfl
    · simpa using hm
    · rfl
  · obtain rfl := List.mem_singleton.mp hc
    simpa using hm

/-- A slash is written as it is, and no other character with one. -/
theorem pieces_render (ms : List Mark) : Path.pieces (render ms) = (markPieces ms).map render := by
  unfold Path.pieces markPieces
  induction ms with
  | nil => rfl
  | cons m ms ih =>
    rw [render_cons, Text.splitOn]
    cases hm : m.1 == '/' with
    | true =>
      rw [renderChar_slash (beq_iff_eq.mp hm), List.singleton_append, Text.splitOn, ih]
      rfl
    | false =>
      have hplain := renderChar_no_slash (m := m) (by simpa using hm)
      cases hpieces : Text.splitOn (fun x : Mark => x.1 == '/') ms with
      | nil => exact absurd hpieces (Text.splitOn_ne_nil _ ms)
      | cons first more =>
        rw [hpieces] at ih
        rw [Text.splitOn_append hplain ih]
        rfl

theorem isRecursive_iff {p : Pattern} : p.isRecursive = true ↔ .anyDirectories ∈ p.tokens :=
  List.contains_iff_mem

theorem forall₂_of_mapM_ok {ε α β : Type} {f : α → Except ε β} {as : List α} {bs : List β} (h : as.mapM f = .ok bs) :
    List.Forall₂ (fun a b => f a = .ok b) as bs := by
  induction as generalizing bs with
  | nil =>
    cases h
    exact .nil
  | cons a as ih =>
    rw [List.mapM_cons] at h
    obtain ⟨b, hb, h⟩ := exists_of_bind_ok h
    obtain ⟨more, hmore, h⟩ := exists_of_bind_ok h
    cases h
    exact .cons hb (ih hmore)

/-- Each part of a pattern is read from what stands between two slashes. -/
theorem exists_pieces_of_partsOf {ms : List Mark} {parts : List Pattern} (h : partsOf (render ms) = .ok parts) :
    ∃ pieces last, markPieces ms = pieces ++ last ∧ (last = [] ∨ last = [[]]) ∧
      List.Forall₂ (fun piece p => Pattern.ofChars (render piece) = .ok p) pieces parts := by
  have hread {pieces : List (List Mark)} (h : (pieces.map render).mapM Pattern.ofChars = .ok parts) :
      List.Forall₂ (fun piece p => Pattern.ofChars (render piece) = .ok p) pieces parts :=
    List.forall₂_map_left_iff.mp (forall₂_of_mapM_ok h)
  unfold partsOf at h
  rw [pieces_render] at h
  dsimp only at h
  split at h
  · rename_i hlast
    obtain ⟨pieces, last, hpieces⟩ : ∃ pieces last, markPieces ms = pieces ++ [last] :=
      ⟨_, _, (List.dropLast_append_getLast (Text.splitOn_ne_nil _ ms)).symm⟩
    have hnone : render last = [] := by simpa [hpieces] using hlast
    obtain rfl := render_eq_nil hnone
    rw [hpieces, List.map_append, List.map_singleton, List.dropLast_concat] at h
    exact ⟨pieces, [[]], hpieces, .inr rfl, hread h⟩
  · exact ⟨markPieces ms, [], (List.append_nil _).symm, .inl rfl, hread h⟩

/-- Names that match the parts of a pattern have the characters that stand for themselves. -/
theorem Matched.along {dots : Bool} {pieces : List (List Mark)} {parts : List Pattern} {names : List String}
    (hmatched : Matched dots parts names)
    (hparts : List.Forall₂ (fun piece p => Pattern.ofChars (render piece) = .ok p) pieces parts)
    (hslash : ∀ piece ∈ pieces, ∀ m ∈ piece, m.1 ≠ '/') : Along (pieces.map (standing 0)) names := by
  induction hparts generalizing names with
  | nil =>
    cases hmatched
    exact .nil
  | @cons piece p pieces ps hp _ ih =>
    obtain ⟨hpiece, hrest⟩ := List.forall_mem_cons.mp hslash
    have hreads : Reads none piece p.tokens := by
      unfold Pattern.ofChars at hp
      cases htokens : tokensFrom none (render piece) with
      | error f => rw [htokens] at hp; cases hp
      | ok ts =>
        rw [htokens] at hp
        cases hp
        exact reads_of_tokensFrom htokens hpiece
    cases hmatched with
    | name h hmore => exact .name (hreads.fits h) (ih hmore hrest)
    | directories h passed hmore =>
      obtain ⟨-, rfl⟩ := hreads.eq_stars hpiece (isRecursive_iff.mp h)
      exact .free (by decide) passed (ih hmore hrest)

/-! ## Searches -/

/-- Where a search starts, and the pattern from there on. -/
def startChars (cs : List Char) : String × List Char :=
  match cs with
  | '/' :: rest => ("/", rest)
  | _ => (".", cs)

/-- The same for a pattern with quoted characters. -/
def startOf : List Mark → String × List Mark
  | ('/', _) :: ms => ("/", ms)
  | ms => (".", ms)

theorem startOf_fst (ms : List Mark) : (startOf ms).1 = if ms.head?.map (·.1) = some '/' then "/" else "." := by
  unfold startOf
  split
  · rfl
  · rename_i hne
    cases ms with
    | nil => rfl
    | cons m ms =>
      obtain ⟨c, quoted⟩ := m
      rw [if_neg]
      rintro ⟨rfl⟩
      exact hne _ _ rfl

theorem forall₂_startOf {R : Mark → Mark → Prop} (hR : ∀ m' m, R m' m → m'.1 = m.1) {ms' ms : List Mark}
    (h : List.Forall₂ R ms' ms) : List.Forall₂ R (startOf ms').2 (startOf ms).2 := by
  cases h with
  | nil => exact .nil
  | @cons m' m ms' ms hm hms =>
    obtain ⟨c', quoted'⟩ := m'
    obtain ⟨c, quoted⟩ := m
    obtain rfl : c' = c := hR _ _ hm
    by_cases hc : c' = '/'
    · subst hc
      exact hms
    · rw [startOf, startOf]
      · exact .cons hm hms
      · rintro b r ⟨rfl⟩
        exact hc rfl
      · rintro b r ⟨rfl⟩
        exact hc rfl

theorem startChars_render (ms : List Mark) :
    startChars (render ms) = ((startOf ms).1, render (startOf ms).2) := by
  unfold startChars
  split
  · rename_i rest hread
    obtain ⟨b, ms, rfl, -, rfl⟩ := render_eq_cons hread (by decide)
    rfl
  · rename_i hread
    unfold startOf
    split
    · exact absurd (congrArg (· ++ _) (renderChar_slash rfl)) (hread _)
    · rfl

theorem search_ofList (files : Files) (dots : Bool) (cs : List Char) :
    search files dots (String.ofList cs) = do
      let _ ← Pattern.ofString (String.ofList cs)
      let parts ← partsOf (startChars cs).2
      let parts := if (startChars cs).2.isEmpty then [⟨[]⟩] else parts
      let s : Search := ⟨files, dots, cs.getLast? == some '/'⟩
      return s.below (depthOf files parts) parts (startChars cs).1 := by
  unfold search
  rw [String.toList_ofList]
  rfl

/-- What a pattern with quoted characters is searched for by: its parts, from where it starts. -/
theorem exists_parts_of_search {files : Files} {dots : Bool} {ms : List Mark} {paths : List String}
    (h : search files dots (String.ofList (render ms)) = .ok paths) :
    ∃ parts only depth, partsOf (render (startOf ms).2) = .ok parts ∧
      paths = Search.below ⟨files, dots, only⟩ depth (if (startOf ms).2 = [] then [⟨[]⟩] else parts) (startOf ms).1 := by
  rw [search_ofList, startChars_render] at h
  dsimp only at h
  cases hwhole : Pattern.ofString (String.ofList (render ms)) with
  | error f => rw [hwhole] at h; cases h
  | ok p =>
    cases hparts : partsOf (render (startOf ms).2) with
    | error f => rw [hwhole, hparts] at h; cases h
    | ok parts =>
      rw [hwhole, hparts] at h
      cases h
      refine ⟨parts, _, _, rfl, congrArg (Search.below _ _ · _) ?_⟩
      by_cases hnil : (startOf ms).2 = []
      · rw [if_pos hnil, hnil]
        rfl
      · rw [if_neg hnil, if_neg fun hempty => hnil (render_eq_nil (List.isEmpty_iff.mp hempty))]

theorem along_partsOf {dots : Bool} {ms : List Mark} {parts : List Pattern} {names : List String}
    (hparts : partsOf (render ms) = .ok parts) (hmatched : Matched dots parts names) :
    Along (standingPieces ms) names := by
  obtain ⟨pieces, last, hpieces, hlast, hread⟩ := exists_pieces_of_partsOf hparts
  have halong := hmatched.along hread fun piece hpiece m hm =>
    no_slash_of_mem_markPieces (hpieces ▸ List.mem_append_left _ hpiece) hm
  unfold standingPieces
  rw [hpieces, List.map_append]
  rcases hlast with rfl | rfl
  · rwa [List.map_nil, List.append_nil]
  · exact halong.slash

/-- Every path that a search finds is reached by names in which the characters of the pattern that
stand for themselves are as they are. -/
theorem along_of_mem_search {files : Files} {dots : Bool} {ms : List Mark} {paths : List String}
    (h : search files dots (String.ofList (render ms)) = .ok paths) {found : String} (hfound : found ∈ paths) :
    ∃ names, Along (standingPieces (startOf ms).2) names ∧ Reaches (startOf ms).1 names found := by
  obtain ⟨parts, only, depth, hparts, rfl⟩ := exists_parts_of_search h
  obtain ⟨names, hmatched, hvisits⟩ := Search.visits_of_mem_below hfound
  refine ⟨names, ?_, hvisits.reaches⟩
  split at hmatched
  · rename_i hnil
    rw [hnil]
    have hfree : Along [[]] (names ++ []) := .free (List.forall_mem_nil _) names .nil
    rwa [List.append_nil] at hfree
  · exact along_partsOf hparts hmatched

end Taskwork.Glob
