/-
What a search from the root finds. In a sound tree every path it finds is there (`there_of_mem_search`): a name that was
looked up is there behind the path so far, and so are those that are listed. Where a pattern begins with parts in which
every character stands for itself, each path found begins with the names they are written from
(`starts_of_mem_search`), since such a part is looked up or matches one name.
-/
import Taskwork.Proofs.Files.Sound
import Taskwork.Proofs.Glob.Escape
import Taskwork.Proofs.Glob.Route

namespace Taskwork.Glob

open Path (isAbsolute join)

namespace Search

variable {s : Search} {known : String → Prop} {path name next found : String} {names : List String}

theorem step_eq_join (habs : isAbsolute path = true) (name : String) : step path name = join path name := by
  have hstart : isStart path = false := by
    unfold isStart
    rw [beq_eq_false_iff_ne]
    intro hhere
    obtain ⟨cs, -, ⟨-, hcs⟩ | ⟨hrelative, -⟩⟩ := Path.components_cases path
    · rw [hhere] at hcs
      cases hcs
    · rw [habs] at hrelative
      cases hrelative
  unfold step
  rw [hstart]
  rfl

/-- The name of a move is written behind the path. -/
theorem eq_join_of_move (habs : isAbsolute path = true) (h : Move s known path name next) : next = join path name := by
  cases h with
  | looked => exact step_eq_join habs name
  | special => rfl
  | listed => exact step_eq_join habs name

theorem exists_of_mem_listed (h : name ∈ s.listed path) : ∃ names, s.files.list path = .ok names ∧ name ∈ names := by
  unfold listed at h
  split at h
  · rename_i names hlist
    exact ⟨names, hlist, List.mem_of_mem_filter (List.mem_mergeSort.1 h)⟩
  · cases h

/-- Each move of a search leads to something that is there. -/
theorem there_of_move (hfiles : s.files.Sound) (habs : isAbsolute path = true) (h : Move s known path name next) :
    (s.files.statLink next).isOk = true := by
  cases h with
  | looked _ hthere =>
    rw [step_eq_join habs] at hthere ⊢
    split at hthere
    · rename_i hspecial
      exact hfiles.there_special habs hthere (by simpa [or_comm] using hspecial)
    · rcases Bool.or_eq_true_iff.1 hthere with hexists | hlink
      · exact Files.statLink_of_exists (Path.isAbsolute_join_left habs name) hexists
      · exact hlink
  | special hname hdirectory => exact hfiles.there_special habs hdirectory hname
  | listed hname =>
    obtain ⟨names, hlist, hmem⟩ := exists_of_mem_listed hname
    rw [step_eq_join habs]
    exact (hfiles.there_listed habs hlist hmem).2

theorem no_slash_of_move (hfiles : s.files.Sound) (habs : isAbsolute path = true)
    (h : Move s (fun name => '/' ∉ name.toList) path name next) : '/' ∉ name.toList := by
  cases h with
  | looked hname => exact hname
  | special hname => rcases List.mem_pair.1 hname with rfl | rfl <;> decide
  | listed hname =>
    obtain ⟨names, hlist, hmem⟩ := exists_of_mem_listed hname
    exact (hfiles.there_listed habs hlist hmem).1.no_slash

/-- The names by which a search moves are written behind each other. -/
theorem foldl_join_of_visits (hfiles : s.files.Sound) (habs : isAbsolute path = true)
    (h : Visits s (fun name => '/' ∉ name.toList) path names found) :
    found = names.foldl join path ∧ ∀ name ∈ names, '/' ∉ name.toList := by
  induction h with
  | nil => exact ⟨rfl, List.forall_mem_nil _⟩
  | cons hmove _ ih =>
    have hname := no_slash_of_move hfiles habs hmove
    obtain rfl := eq_join_of_move habs hmove
    obtain ⟨rfl, hnames⟩ := ih (Path.isAbsolute_join_left habs _)
    exact ⟨rfl, List.forall_mem_cons.2 ⟨hname, hnames⟩⟩

end Search

/-! ## Parts in which every character stands for itself -/

/-- It stands for one text, whichever of its characters are in brackets. -/
def Pattern.Spells (p : Pattern) (text : List Char) : Prop := List.Forall₂ Token.Single p.tokens text

section Spells

variable {p : Pattern} {text : List Char} {rest : List Pattern} {depth : Nat} {s : Search} {path found : String}

theorem Pattern.Spells.eq_of_matches (hp : p.Spells text) {dots : Bool} {name : String}
    (h : p.matches dots name = true) : name = String.ofList text := by
  rw [← String.toList_inj, String.toList_ofList]
  exact (matchTokens_iff_eq hp dots true).1 h

theorem Pattern.Spells.not_isRecursive (hp : p.Spells text) : ¬ p.isRecursive = true := by
  rw [isRecursive_iff]
  unfold Spells at hp
  generalize p.tokens = ts at hp
  induction hp with
  | nil => exact List.not_mem_nil
  | cons hsingle _ ih =>
    rw [List.mem_cons, not_or]
    refine ⟨?_, ih⟩
    rintro rfl
    cases hsingle

/-- From a name such a part goes on only if it is its text. -/
theorem below_of_atName_spells {name : String} (hp : p.Spells text) (h : found ∈ s.atName depth (p :: rest) name path) :
    name = String.ofList text ∧ ∃ depth, found ∈ s.below depth rest path := by
  cases depth with
  | zero =>
    rw [Search.atName] at h
    cases h
  | succ depth =>
    rw [Search.atName, if_neg hp.not_isRecursive] at h
    split at h
    · rename_i hmatch
      refine ⟨hp.eq_of_matches hmatch, ?_⟩
      split at h
      · rename_i hlast
        obtain rfl := List.isEmpty_iff.1 hlast
        exact ⟨1, by rwa [Search.below]; exact Nat.one_ne_zero⟩
      · exact ⟨depth, h⟩
    · cases h

/-- Such a part is looked up or matches one name, so the search goes on by its text. -/
theorem below_of_spells (hp : p.Spells text) (habs : isAbsolute path = true)
    (h : found ∈ s.below depth (p :: rest) path) :
    ∃ depth, found ∈ s.below depth rest (join path (String.ofList text)) := by
  cases depth with
  | zero =>
    rw [Search.below] at h
    cases h
  | succ depth =>
    rw [Search.below] at h
    split at h
    · rename_i name htext
      dsimp only at h
      rw [Search.step_eq_join habs] at h
      generalize (if name == "." || name == ".." then _ else _) = isThere at h
      obtain rfl := hp.eq_of_matches (Search.matches_of_text? htext : p.matches true name = true)
      cases isThere with
      | false => cases h
      | true => exact ⟨depth, h⟩
    · split at h
      · rcases List.mem_append.1 h with h | h
        · obtain ⟨name, hname, h⟩ := List.mem_flatMap.1 h
          have hmatch : p.matches s.dots name = true := by
            split at hname
            · exact (List.mem_filter.1 hname).2
            · cases hname
          obtain rfl := hp.eq_of_matches hmatch
          exact ⟨depth, h⟩
        · obtain ⟨name, -, h⟩ := List.mem_flatMap.1 h
          rw [Search.step_eq_join habs] at h
          obtain ⟨rfl, hbelow⟩ := below_of_atName_spells hp h
          exact hbelow
      · cases h

theorem below_append_of_spells {ps : List Pattern} {texts : List (List Char)}
    (hps : List.Forall₂ Pattern.Spells ps texts) (habs : isAbsolute path = true)
    (h : found ∈ s.below depth (ps ++ rest) path) :
    ∃ depth, found ∈ s.below depth rest ((texts.map String.ofList).foldl join path) := by
  induction hps generalizing depth path with
  | nil => exact ⟨depth, h⟩
  | cons hp _ ih =>
    obtain ⟨depth, h⟩ := below_of_spells hp habs h
    exact ih (Path.isAbsolute_join_left habs _) h

end Spells

/-! ## Marks that stand for themselves -/

/-- A wildcard that is not quoted. -/
def isLive (m : Mark) : Bool := !m.2 && (m.1 == '*' || m.1 == '?' || m.1 == '[')

/-- Without live marks a pattern is read as its characters. -/
theorem literalChars?_render {ms : List Mark} (h : ∀ m ∈ ms, isLive m = false) :
    literalChars? (render ms) = some (ms.map (·.1)) := by
  induction ms with
  | nil => rfl
  | cons m ms ih =>
    obtain ⟨hm, hms⟩ := List.forall_mem_cons.1 h
    rw [render_cons, List.map_cons]
    cases hspecial : (m.2 && isSpecial m.1) with
    | true =>
      rw [renderChar_of_special hspecial]
      show literalChars? ('[' :: m.1 :: ']' :: render ms) = _
      rw [literalChars?, if_pos (Bool.and_eq_true_iff.1 hspecial).2, ih hms]
      rfl
    | false =>
      have hplain : m.1 ≠ '*' ∧ m.1 ≠ '?' ∧ m.1 ≠ '[' := by
        obtain ⟨c, quoted⟩ := m
        cases quoted with
        | true => refine ⟨?_, ?_, ?_⟩ <;> rintro rfl <;> exact absurd hspecial (by decide)
        | false => simpa [isLive, and_assoc] using hm
      rw [renderChar_of_plain hspecial]
      show literalChars? (m.1 :: render ms) = _
      rw [literalChars?, if_neg (by simp [hplain]), ih hms]
      · rfl
      · rintro d more hbracket
        exact absurd hbracket hplain.2.2

theorem spells_of_ofChars {ms : List Mark} (h : ∀ m ∈ ms, isLive m = false) {p : Pattern}
    (hp : Pattern.ofChars (render ms) = .ok p) : p.Spells (ms.map (·.1)) := by
  obtain ⟨ts, hts, hsingle⟩ := tokensFrom_of_literalChars? (literalChars?_render h) none
  unfold Pattern.ofChars at hp
  rw [hts] at hp
  cases hp
  exact hsingle

/-! ## Characters of a text that is looked up -/

theorem mem_of_dropWhile_eq_cons {cs after : List Char} {p : Char → Bool} {c d : Char}
    (h : cs.dropWhile p = d :: after) (hc : c ∈ after) : c ∈ cs :=
  (List.dropWhile_sublist _).subset (h ▸ List.mem_cons_of_mem _ hc)

theorem mem_of_mem_bracket? {cs set after : List Char} {negated : Bool} {c : Char}
    (h : bracket? cs = some (negated, set, after)) (hc : c ∈ after) : c ∈ cs := by
  unfold bracket? at h
  dsimp only at h
  split at h
  · split at h <;> rename_i hclose <;> cases h
    exact List.mem_cons_of_mem _ (List.mem_cons_of_mem _ (mem_of_dropWhile_eq_cons hclose hc))
  · cases h
  · split at h <;> rename_i hclose <;> cases h
    exact List.mem_cons_of_mem _ (mem_of_dropWhile_eq_cons hclose hc)
  · cases h

theorem mem_of_char_mem {before : Option Char} {cs : List Char} {ts : List Token} {c : Char}
    (h : tokensFrom before cs = .ok ts) (hc : Token.char c ∈ ts) : c ∈ cs := by
  fun_induction tokensFrom before cs generalizing ts with
  | case1 =>
    cases h
    cases hc
  | case2 _ rest ih | case8 _ rest _ _ ih =>
    obtain ⟨ts, hrest, rfl⟩ := eq_of_map_ok h
    exact List.mem_cons_of_mem _ (ih hrest (by simpa using hc))
  | case4 =>
    cases h
    simp at hc
  | case5 _ _ rest _ ih =>
    obtain ⟨ts, hrest, rfl⟩ := eq_of_map_ok h
    have hmem := ih hrest (by simpa using hc)
    exact List.mem_cons_of_mem _ (List.mem_cons_of_mem _ (List.mem_cons_of_mem _ hmem))
  | case10 _ rest negated set after hset _ token =>
    rename_i ih
    obtain ⟨ts, hrest, rfl⟩ := eq_of_map_ok h
    have htoken : Token.char c ≠ token := by
      unfold token
      split <;> intro h <;> cases h
    exact List.mem_cons_of_mem _ (mem_of_mem_bracket? hset (ih hrest (by simpa [htoken] using hc)))
  | case11 _ d rest _ _ _ _ _ ih =>
    obtain ⟨ts, hrest, rfl⟩ := eq_of_map_ok h
    rcases List.mem_cons.1 hc with hd | hc
    · cases hd
      exact List.mem_cons_self
    · exact List.mem_cons_of_mem _ (ih hrest hc)
  | _ => cases h

/-- A text that is looked up has only characters of its part. -/
theorem mem_of_mem_text? {cs : List Char} {p : Pattern} {name : String} {c : Char} (hp : Pattern.ofChars cs = .ok p)
    (hname : p.text? = some name) (hc : c ∈ name.toList) : c ∈ cs := by
  obtain ⟨read, hread, rfl⟩ := Option.map_eq_some_iff.1 hname
  rw [String.toList_ofList] at hc
  unfold Pattern.ofChars at hp
  cases hts : tokensFrom none cs with
  | error f => rw [hts] at hp; cases hp
  | ok ts =>
    rw [hts] at hp
    cases hp
    refine mem_of_char_mem hts ?_
    rw [show ts = read.map .char from eq_map_char hread]
    exact List.mem_map_of_mem hc

/-! ## Searches from the root -/

section Search

variable {files : Files} {dots quoted : Bool} {ms : List Mark} {paths : List String} {found : String}

/-- Whatever a search from the root finds is there. -/
theorem there_of_mem_search (hfiles : files.Sound)
    (h : search files dots (String.ofList (render (('/', quoted) :: ms))) = .ok paths) (hfound : found ∈ paths) :
    isAbsolute found = true ∧ (files.statLink found).isOk = true := by
  obtain ⟨parts, only, depth, -, rfl⟩ := exists_parts_of_search h
  obtain ⟨names, -, hvisits⟩ := Search.visits_of_mem_below hfound
  have hroot : isAbsolute "/" = true ∧ (files.statLink "/").isOk = true := ⟨rfl, hfiles.there_root⟩
  refine hvisits.invariant (I := fun path => isAbsolute path = true ∧ (files.statLink path).isOk = true) hroot
    fun hpath hmove => ?_
  exact ⟨Search.eq_join_of_move hpath.1 hmove ▸ Path.isAbsolute_join_left hpath.1 _,
    Search.there_of_move hfiles hpath.1 hmove⟩

/-- How a part is read from what stands between two slashes. -/
def ReadFrom (p : Pattern) (piece : List Mark) : Prop := Pattern.ofChars (render piece) = .ok p

theorem ReadFrom.no_slash {p : Pattern} {piece : List Mark} (h : ReadFrom p piece) (hpiece : ∀ m ∈ piece, m.1 ≠ '/')
    {name : String} (hname : p.text? = some name) : '/' ∉ name.toList := by
  intro hc
  obtain ⟨m, hm, hc⟩ := List.mem_flatMap.1 (mem_of_mem_text? h hname hc)
  exact absurd (renderChar_no_slash (hpiece m hm) _ hc) (by simp)

theorem spells_of_readFrom {ps : List Pattern} {pieces : List (List Mark)} (h : List.Forall₂ ReadFrom ps pieces)
    (hpieces : ∀ piece ∈ pieces, ∀ m ∈ piece, isLive m = false) :
    List.Forall₂ Pattern.Spells ps (pieces.map (List.map (·.1))) := by
  rw [List.forall₂_map_right_iff]
  induction h with
  | nil => exact .nil
  | cons hp _ ih =>
    obtain ⟨hpiece, hrest⟩ := List.forall_mem_cons.1 hpieces
    exact .cons (spells_of_ofChars hpiece hp) (ih hrest)

theorem no_slash_of_readFrom {ps : List Pattern} {pieces : List (List Mark)} (h : List.Forall₂ ReadFrom ps pieces)
    (hpieces : ∀ piece ∈ pieces, ∀ m ∈ piece, m.1 ≠ '/') :
    ∀ p ∈ ps, ∀ name, p.text? = some name → '/' ∉ name.toList := by
  induction h with
  | nil => exact List.forall_mem_nil _
  | cons hp _ ih =>
    obtain ⟨hpiece, hrest⟩ := List.forall_mem_cons.1 hpieces
    exact List.forall_mem_cons.2 ⟨fun _ hname => hp.no_slash hpiece hname, ih hrest⟩

/-- Before a slash up to which no mark is live the names stand as they are written, and behind it there are others. -/
theorem starts_of_mem_search (hfiles : files.Sound) {before more : List Mark} {slash : Mark} (hslash : slash.1 = '/')
    (hbefore : ∀ m ∈ before, isLive m = false)
    (h : search files dots (String.ofList (render (('/', quoted) :: (before ++ slash :: more)))) = .ok paths)
    (hfound : found ∈ paths) :
    ∃ names, (∀ name ∈ names, '/' ∉ name.toList) ∧
      found = ((Path.pieces (before.map (·.1))).map String.ofList ++ names).foldl join "/" := by
  have hstart : startOf (('/', quoted) :: (before ++ slash :: more)) = ("/", before ++ slash :: more) := rfl
  obtain ⟨parts, only, depth, hparts, rfl⟩ := exists_parts_of_search h
  rw [hstart] at hparts hfound
  obtain ⟨pieces, last, hpieces, hlast, hread⟩ := exists_pieces_of_partsOf hparts
  have hsplit : markPieces (before ++ slash :: more) = markPieces before ++ markPieces more :=
    Text.splitOn_append_separator before (by simpa using hslash) more
  -- of all pieces at most the last one is no part, and that is not among those before the slash
  obtain ⟨rest, rfl⟩ : markPieces before <+: pieces := by
    rcases hlast with rfl | rfl
    · exact ⟨markPieces more, by rw [← hsplit, hpieces, List.append_nil]⟩
    · have hne : markPieces more ≠ [] := Text.splitOn_ne_nil _ more
      exact ⟨_, by rw [← List.dropLast_append_of_ne_nil hne, ← hsplit, hpieces, List.dropLast_concat]⟩
  have hnoSlash : ∀ piece ∈ rest, ∀ m ∈ piece, m.1 ≠ '/' := fun piece hpiece m hm =>
    no_slash_of_mem_markPieces (hpieces ▸ List.mem_append_left _ (List.mem_append_right _ hpiece)) hm
  have hquiet : ∀ piece ∈ markPieces before, ∀ m ∈ piece, isLive m = false := by
    intro piece hpiece m hm
    have hflat : m ∈ (markPieces before).flatten := List.mem_flatten_of_mem hpiece hm
    unfold markPieces at hflat
    rw [Text.flatten_splitOn] at hflat
    exact hbefore m (List.mem_of_mem_filter hflat)
  have htexts : (markPieces before).map (List.map (·.1)) = Path.pieces (before.map (·.1)) :=
    (Text.splitOn_map (· == '/') (·.1) before).symm
  obtain ⟨hlead, hbehind⟩ : List.Forall₂ ReadFrom (parts.take (markPieces before).length) (markPieces before) ∧
      List.Forall₂ ReadFrom (parts.drop (markPieces before).length) rest :=
    ⟨List.forall₂_take_append _ _ _ hread.flip, List.forall₂_drop_append _ _ _ hread.flip⟩
  have hspells := spells_of_readFrom hlead hquiet
  rw [htexts] at hspells
  rw [if_neg (by simp), ← List.take_append_drop (markPieces before).length parts] at hfound
  have hroot : isAbsolute "/" = true := rfl
  obtain ⟨depth, hfound⟩ := below_append_of_spells hspells hroot hfound
  obtain ⟨names, -, hvisits⟩ := Search.visited_below (no_slash_of_readFrom hbehind hnoSlash) hfound
  obtain ⟨hfold, hnames⟩ := Search.foldl_join_of_visits hfiles (Path.isAbsolute_foldl_join hroot _) hvisits
  exact ⟨names, hnames, by rw [hfold, List.foldl_append]⟩

end Search

end Taskwork.Glob
