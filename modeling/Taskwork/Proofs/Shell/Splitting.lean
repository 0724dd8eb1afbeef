/-
Field splitting. The parts of a word are expanded and put together, and what comes of it is cut at the separators
that come from unquoted parameters and substitutions. The fields are the pieces in which there is any text or a
quoted part, even an empty one; without wildcards each of them is one argument.
-/
import Taskwork.Proofs.Shell.Inert
import Taskwork.Proofs.Shell.Variables

namespace Taskwork.Shell

/-! ## Pieces -/

/-- What an expanded word is put together from. -/
inductive Element where
  | char (c : Char) (quoted : Bool)
  /-- A separator that comes from an unquoted expansion. -/
  | cut
  /-- The beginning of a quoted part. -/
  | quote
  deriving DecidableEq, Repr

namespace Element

def isCut : Element → Bool
  | .cut => true
  | .char _ _ | .quote => false

/-- Whether it means something in a pattern. -/
def isWildcard : Element → Bool
  | .char c quoted => !quoted && (c == '*' || c == '?' || c == '[')
  | .cut | .quote => false

def char? : Element → Option Char
  | .char c _ => some c
  | .cut | .quote => none

/-- The characters of a piece. -/
def text (es : List Element) : String := String.ofList (es.filterMap char?)

/-- Text that is not cut. -/
def whole (letters : List Letter) (quoted : Bool) : List Element :=
  (if quoted then [.quote] else []) ++ letters.map fun l => .char l.char quoted

/-- A character of an unquoted expansion: a blank, a tab and a newline are separators. -/
def ofExpansion (l : Letter) : Element := if l.char ∈ [' ', '\t', '\n'] then .cut else .char l.char false

theorem ofExpansion_eq (l : Letter) : ofExpansion l = if l.isSeparator then .cut else .char l.char false := by
  simp [ofExpansion, Letter.isSeparator, Fields.isSeparator, or_assoc]

/-- The pieces between the cuts, of which the empty ones are dropped. -/
def pieces (es : List Element) : List (List Element) := (Text.splitOn isCut es).filter (!·.isEmpty)

theorem not_isCut_of_mem_whole {letters : List Letter} {quoted : Bool} {e : Element} (he : e ∈ whole letters quoted) :
    e.isCut = false := by
  unfold whole at he
  rcases List.mem_append.1 he with he | he
  · cases quoted with
    | true =>
      obtain rfl := List.mem_singleton.1 he
      rfl
    | false => cases he
  · obtain ⟨l, -, rfl⟩ := List.mem_map.1 he
    rfl

theorem text_whole (letters : List Letter) (quoted : Bool) : text (whole letters quoted) = Letter.text letters := by
  have hchars : (letters.map fun l => char l.char quoted).filterMap char? = letters.map (·.char) := by
    rw [List.filterMap_map]
    exact congrFun List.filterMap_eq_map letters
  unfold text whole
  rw [List.filterMap_append, hchars]
  cases quoted <;> rfl

theorem text_append (es es' : List Element) : text (es ++ es') = text es ++ text es' := by
  unfold text
  rw [List.filterMap_append, String.ofList_append]

theorem pieces_of_uncut {es : List Element} (hes : ∀ e ∈ es, e.isCut = false) :
    pieces es = if es.isEmpty then [] else [es] := by
  unfold pieces
  rw [Text.splitOn_of_forall hes]
  cases es <;> rfl

theorem pieces_append_cut (es rest : List Element) : pieces (es ++ .cut :: rest) = pieces es ++ pieces rest := by
  unfold pieces
  rw [Text.splitOn_append_separator es rfl, List.filter_append]

theorem mem_of_mem_pieces {es piece : List Element} (hpiece : piece ∈ pieces es) {e : Element} (he : e ∈ piece) :
    e ∈ es := by
  have hflat : e ∈ (Text.splitOn isCut es).flatten := List.mem_flatten_of_mem (List.mem_of_mem_filter hpiece) he
  rw [Text.flatten_splitOn] at hflat
  exact List.mem_of_mem_filter hflat

/-- An unquoted expansion is its pieces with a cut before each but the first. -/
theorem map_ofExpansion_of_splitOn {letters first : List Letter} {more : List (List Letter)}
    (hsplit : Text.splitOn Letter.isSeparator letters = first :: more) :
    letters.map ofExpansion = whole first false ++ more.flatMap fun piece => .cut :: whole piece false := by
  induction letters generalizing first more with
  | nil =>
    cases hsplit
    rfl
  | cons l letters ih =>
    rw [Text.splitOn] at hsplit
    cases hrest : Text.splitOn Letter.isSeparator letters with
    | nil => exact absurd hrest (Text.splitOn_ne_nil _ _)
    | cons next rest =>
      rw [hrest] at hsplit
      cases hl : l.isSeparator with
      | true =>
        rw [hl] at hsplit
        cases hsplit
        rw [List.map_cons, ih hrest, ofExpansion_eq, if_pos hl]
        rfl
      | false =>
        rw [hl] at hsplit
        cases hsplit
        rw [List.map_cons, ih hrest, ofExpansion_eq, if_neg (Bool.eq_false_iff.1 hl)]
        rfl

end Element

/-! ## Fields -/

namespace LetteredField

def elements (f : LetteredField) : List Element := f.segments.flatMap fun s => Element.whole s.1 s.2

variable (f : LetteredField)

theorem not_isCut_of_mem_elements : ∀ e ∈ f.elements, e.isCut = false := by
  intro e he
  obtain ⟨s, -, he⟩ := List.mem_flatMap.1 he
  exact Element.not_isCut_of_mem_whole he

theorem elements_push (letters : List Letter) (quoted : Bool) :
    (f.push letters quoted).elements = f.elements ++ Element.whole letters quoted := by
  simp [elements, push]

/-- A field counts if there is anything in it. -/
theorem isPresent_eq : f.isPresent = !f.elements.isEmpty := by
  unfold isPresent elements
  induction f.segments with
  | nil => rfl
  | cons s rest ih =>
    obtain ⟨letters, quoted⟩ := s
    rw [List.any_cons, ih, List.flatMap_cons]
    cases quoted <;> cases letters <;> rfl

theorem text_elements : Element.text f.elements = f.field.text := by
  rw [text_field]
  unfold elements letters
  induction f.segments with
  | nil => rfl
  | cons s rest ih =>
    rw [List.flatMap_cons, List.flatMap_cons, Element.text_append, Element.text_whole, ih, Letter.text_append]

theorem hasWildcard_eq : f.field.hasWildcard = f.elements.any Element.isWildcard := by
  unfold Field.hasWildcard field elements
  rw [List.any_map, List.any_flatMap]
  congr 1
  funext ⟨letters, quoted⟩
  unfold Element.whole
  cases quoted with
  | true => simp [Element.isWildcard]
  | false => simp [Element.isWildcard, Letter.text, Function.comp_def]

/-- Without wildcards a field is one argument. -/
theorem arguments_eq {f : LetteredField} (hf : ∀ e ∈ f.elements, e.isWildcard = false) (files : Files)
    (directory : String) : f.field.arguments files directory = [Element.text f.elements] := by
  have hnone : f.field.hasWildcard = false := by
    rw [hasWildcard_eq, List.any_eq_false]
    exact fun e he => Bool.eq_false_iff.1 (hf e he)
  unfold Field.arguments
  rw [hnone, text_elements]
  rfl

end LetteredField

/-! ## Fields so far -/

namespace LetteredFields

/-- The pieces there are if `rest` follows the fields so far. -/
def pieces (fs : LetteredFields) (rest : List Element) : List (List Element) :=
  fs.done.map (·.elements) ++ Element.pieces (fs.current.elements ++ rest)

variable (fs : LetteredFields) (rest : List Element)

theorem pieces_push (letters : List Letter) (quoted : Bool) :
    (fs.push letters quoted).pieces rest = fs.pieces (Element.whole letters quoted ++ rest) := by
  unfold pieces push
  rw [LetteredField.elements_push, List.append_assoc]

/-- Ending a field is a cut. -/
theorem pieces_cut : fs.cut.pieces rest = fs.pieces (.cut :: rest) := by
  unfold pieces cut
  -- nothing in the current field is a cut, so that it is one piece, or none if it is empty
  rw [Element.pieces_append_cut, Element.pieces_of_uncut fs.current.not_isCut_of_mem_elements, fs.current.isPresent_eq]
  cases fs.current.elements.isEmpty <;> simp [LetteredField.empty, LetteredField.elements]

theorem pieces_pushPiece (piece : List Letter) :
    (fs.pushPiece piece).pieces rest = fs.pieces (Element.whole piece false ++ rest) := by
  unfold pushPiece
  cases piece with
  | nil => rfl
  | cons l piece => exact fs.pieces_push rest _ false

theorem pieces_pushSplit (letters : List Letter) :
    (fs.pushSplit letters).pieces rest = fs.pieces (letters.map Element.ofExpansion ++ rest) := by
  have hmore (more : List (List Letter)) (fs : LetteredFields) :
      (more.foldl (fun fs piece => fs.cut.pushPiece piece) fs).pieces rest =
        fs.pieces ((more.flatMap fun piece => .cut :: Element.whole piece false) ++ rest) := by
    induction more generalizing fs with
    | nil => rfl
    | cons piece more ih =>
      rw [List.foldl_cons, ih, pieces_pushPiece, pieces_cut, List.flatMap_cons, List.append_assoc]
      rfl
  unfold pushSplit
  cases hsplit : Text.splitOn Letter.isSeparator letters with
  | nil => exact absurd hsplit (Text.splitOn_ne_nil _ _)
  | cons first more =>
    dsimp only
    rw [hmore, pieces_pushPiece, Element.map_ofExpansion_of_splitOn hsplit, List.append_assoc]

end LetteredFields

/-! ## Words -/

namespace Stretch

def elements : Stretch → List Element
  | .whole letters quoted => Element.whole letters quoted
  | .cut letters => letters.map Element.ofExpansion

/-- The fields of a word by their definition: what its parts expand to is put together and cut, and the pieces
that are not empty are kept. -/
def split (ss : List Stretch) : List String := (Element.pieces (ss.flatMap elements)).map Element.text

theorem pieces_add (fs : LetteredFields) (rest : List Element) : ∀ s : Stretch,
    (fs.add s).pieces rest = fs.pieces (s.elements ++ rest)
  | .whole letters quoted => fs.pieces_push rest letters quoted
  | .cut letters => fs.pieces_pushSplit rest letters

theorem pieces_foldl (ss : List Stretch) (fs : LetteredFields) (rest : List Element) :
    (ss.foldl LetteredFields.add fs).pieces rest = fs.pieces (ss.flatMap elements ++ rest) := by
  induction ss generalizing fs with
  | nil => rfl
  | cons s ss ih => rw [List.foldl_cons, ih, pieces_add, List.flatMap_cons, List.append_assoc]

/-- The fields that are made of a word one part after the other are the pieces of the whole. -/
theorem elements_place (ss : List Stretch) : (place ss).map (·.elements) = Element.pieces (ss.flatMap elements) := by
  -- at the end of the word the last field is ended, which is one more cut
  calc (place ss).map (·.elements)
    _ = (ss.foldl LetteredFields.add .empty).cut.pieces [] := (List.append_nil _).symm
    _ = LetteredFields.empty.pieces (ss.flatMap elements ++ [.cut]) := by
      rw [LetteredFields.pieces_cut, pieces_foldl]
    _ = Element.pieces (ss.flatMap elements) ++ Element.pieces [] := Element.pieces_append_cut _ []
    _ = Element.pieces (ss.flatMap elements) := List.append_nil _

/-- Without wildcards the arguments of a word are its fields by their definition. -/
theorem arguments_place {ss : List Stretch} (hss : ∀ s ∈ ss, ∀ e ∈ s.elements, e.isWildcard = false) (files : Files)
    (directory : String) : ((place ss).flatMap fun f => f.field.arguments files directory) = split ss := by
  have hplain : ∀ f ∈ place ss, f.field.arguments files directory = [Element.text f.elements] := by
    intro f hf
    have hpiece : f.elements ∈ Element.pieces (ss.flatMap elements) := elements_place ss ▸ List.mem_map_of_mem hf
    refine LetteredField.arguments_eq (fun e he => ?_) files directory
    obtain ⟨s, hs, he⟩ := List.mem_flatMap.1 (Element.mem_of_mem_pieces hpiece he)
    exact hss s hs e he
  calc ((place ss).flatMap fun f => f.field.arguments files directory)
    _ = (place ss).flatMap fun f => [Element.text f.elements] := List.flatMap_congr hplain
    _ = ((place ss).map (·.elements)).map Element.text := by rw [List.map_map, List.map_eq_flatMap]; rfl
    _ = split ss := by rw [elements_place, split]

end Stretch

variable (h : Handlers)

/-- If no wildcard stands unquoted in what some words expand to, their arguments are the fields of each word by their
definition, one word after the other. -/
theorem fields_eq_split : ∀ (words : List Word) (w : World),
    (∀ expanded w', words.mapM (Lettered.stretches h) w = (.ok expanded, w') →
      ∀ ss ∈ expanded, ∀ s ∈ ss, ∀ e ∈ s.elements, e.isWildcard = false) →
    Run.fields h words w = ((·.flatMap Stretch.split) <$> words.mapM (Lettered.stretches h)) w
  | [], w, _ => by
    unfold Run.fields
    rfl
  | word :: rest, w, hplain => by
    rw [fields_cons, List.mapM_cons, map_bind]
    rw [List.mapM_cons] at hplain
    rcases hword : Lettered.stretches h word w with ⟨e | ss, v⟩
    · rw [Stateful.bind_error hword, Stateful.bind_error hword]
    · rw [Stateful.bind_ok hword, Stateful.bind_ok hword]
      rw [Stateful.bind_ok hword] at hplain
      have hothers := fields_eq_split rest v fun expanded w' hexpanded ss' hss' =>
        hplain (ss :: expanded) w' (Stateful.bind_ok hexpanded) ss' (List.mem_cons_of_mem _ hss')
      show (Run.fields h rest >>= fun others => pure (((Stretch.place ss).flatMap fun f =>
        f.field.arguments v.host.files v.state.directory) ++ others)) v = _
      rw [map_eq_pure_bind] at hothers
      simp only [map_bind, map_pure]
      rcases hrest : rest.mapM (Lettered.stretches h) v with ⟨e | expanded, u⟩
      · rw [Stateful.bind_error hrest] at hothers
        rw [Stateful.bind_error hothers, Stateful.bind_error hrest]
      · rw [Stateful.bind_ok hrest] at hothers
        rw [Stateful.bind_ok hothers, Stateful.bind_ok hrest,
          Stretch.arguments_place (hplain _ u (Stateful.bind_ok hrest) ss List.mem_cons_self)]
        rfl

/-- The words of `a$X""`, `$E` and `"$E"$X`: blanks around a value and between its words, a parameter that is not set,
and quoted parts that are empty. -/
def blankWords : List Word :=
  [[.literal "a" false, .param "X" none false, .literal "" true], [.param "E" none false],
    [.literal "" true, .param "E" none true, .param "X" none false]]

/-- A world in which `X` is two letters with blanks around them. -/
def blankWorld : World := { rootWorld with state := rootWorld.state.set "X" " p  q " }

theorem fields_blankWords :
    Script.ofString "a$X\"\" $E \"$E\"$X" =
        .ok [⟨⟨false, [.simple [] blankWords []]⟩, [], "a$X\"\" $E \"$E\"$X", 1⟩] ∧
      Run.fields sampleHandlers blankWords blankWorld = (.ok ["a", "p", "q", "", "", "p", "q"], blankWorld) := by
  have hexpanded : blankWords.mapM (Lettered.stretches sampleHandlers) blankWorld = (.ok
      [[.whole (Letter.ofText false "a") false, .cut (Letter.ofText false " p  q "), .whole [] true], [.cut []],
        [.whole [] true, .whole [] true, .cut (Letter.ofText false " p  q ")]], blankWorld) := by
    with_unfolding_all rfl
  refine ⟨by with_unfolding_all rfl, ?_⟩
  rw [fields_eq_split sampleHandlers blankWords blankWorld ?_, map_eq_pure_bind, Stateful.bind_ok hexpanded]
  · with_unfolding_all rfl
  · intro expanded w' hrun
    rw [hexpanded] at hrun
    cases hrun
    decide

end Taskwork.Shell
