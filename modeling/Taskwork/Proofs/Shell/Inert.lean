/-
What becomes of text in quotes. Of the letters of a word that are written in quotes none is lost, and
so each is in just one field, unless one is a separator in the default of an unquoted parameter. In
the paths that a field stands for, a letter that is written in quotes is as it is, if it is quoted in
the field as well, or means nothing in a pattern, and is in no set whose bracket is not quoted.
-/
import Taskwork.Program.Sample
import Taskwork.Proofs.Glob.Route
import Taskwork.Proofs.Shell.Letters
import Taskwork.Proofs.Shell.Spelling

namespace Taskwork.Shell

/-! ## Separators -/

namespace Stretch

/-- Where an expansion is cut, no separator is written in quotes. -/
def Uncut (ss : List Stretch) : Prop :=
  ∀ ls, .cut ls ∈ ss → ∀ l ∈ ls, l.written = true → l.isSeparator = false

theorem kept_sublist (s : Stretch) : s.kept.Sublist s.letters := by
  cases s with
  | whole ls quoted => exact .refl ls
  | cut ls => exact List.filter_sublist

/-- Whether the letters of a stretch that are written in quotes are all kept. -/
theorem written_kept_iff (s : Stretch) :
    s.kept.filter (·.written) = s.letters.filter (·.written) ↔
      ∀ ls, s = .cut ls → ∀ l ∈ ls, l.written = true → l.isSeparator = false := by
  cases s with
  | whole ls quoted => exact ⟨fun _ => nofun, fun _ => rfl⟩
  | cut ls =>
    constructor
    · rintro h _ ⟨rfl⟩ l hl hwritten
      have hkept : l ∈ (kept (.cut ls)).filter (·.written) := h ▸ List.mem_filter.mpr ⟨hl, hwritten⟩
      simpa using (List.mem_filter.mp (List.mem_of_mem_filter hkept)).2
    · intro h
      -- both ways of filtering ask the same of each letter
      change (ls.filter _).filter _ = ls.filter _
      rw [List.filter_filter]
      refine List.filter_congr fun l hl => ?_
      cases hwritten : l.written with
      | false => rfl
      | true => rw [h ls rfl l hl hwritten]; rfl

theorem flatMap_kept_sublist (ss : List Stretch) : (ss.flatMap kept).Sublist (ss.flatMap letters) := by
  induction ss with
  | nil => exact .slnil
  | cons s ss ih =>
    rw [List.flatMap_cons, List.flatMap_cons]
    exact s.kept_sublist.append ih

theorem append_eq_iff_of_sublist {α : Type} {a a' b b' : List α} (ha : a.Sublist a') (hb : b.Sublist b') :
    a ++ b = a' ++ b' ↔ a = a' ∧ b = b' := by
  refine ⟨fun h => ?_, fun h => by rw [h.1, h.2]⟩
  have hlength := congrArg List.length h
  rw [List.length_append, List.length_append] at hlength
  have := ha.length_le
  have := hb.length_le
  exact List.append_inj h (by omega)

/-- The letters of a word that are written in quotes are all in its fields just if none of them is a
separator where an expansion is cut. -/
theorem written_place_iff (ss : List Stretch) :
    ((place ss).flatMap (·.letters)).filter (·.written) = (ss.flatMap letters).filter (·.written) ↔
      Uncut ss := by
  rw [letters_place]
  induction ss with
  | nil => exact ⟨fun _ _ => nofun, fun _ => rfl⟩
  | cons s ss ih =>
    rw [List.flatMap_cons, List.flatMap_cons, List.filter_append, List.filter_append,
      append_eq_iff_of_sublist (s.kept_sublist.filter _) ((flatMap_kept_sublist ss).filter _),
      written_kept_iff, ih]
    unfold Uncut
    simp only [List.mem_cons, or_imp, forall_and, eq_comm]

end Stretch

/-! ## Patterns -/

open Glob (Mark AsksLess)

/-- The letters of a directory before a pattern. -/
def directoryMarks (directory : String) : List Mark :=
  let marks := directory.toList.map (·, true)
  let last := (Glob.escape directory).toList.getLast?
  if last == some '/' || last == some '\\' then marks else marks ++ [('/', true)]

theorem escape_eq (text : String) : (Glob.escape text).toList = Glob.render (text.toList.map (·, true)) := by
  rw [Glob.render_quoted, Glob.escape, String.toList_ofList]

theorem patternPrefix_eq (directory : String) :
    (Field.patternPrefix directory).toList = Glob.render (directoryMarks directory) := by
  unfold Field.patternPrefix directoryMarks
  dsimp only
  split
  · exact escape_eq directory
  · rw [String.toList_append, escape_eq, Glob.render_append]
    rfl

namespace Field

/-- The characters of a field, of which those in quoted text are quoted. -/
def marks (f : Field) : List Mark := f.segments.flatMap fun s => s.1.toList.map (·, s.2)

theorem toList_text (f : Field) : f.text.toList = f.marks.map (·.1) := by
  unfold text marks
  induction f.segments with
  | nil => rfl
  | cons s ss ih =>
    have hchars : (s.1.toList.map (·, s.2)).map (·.1) = s.1.toList := by
      rw [List.map_map]
      exact List.map_id _
    rw [List.map_cons, String.join_cons, String.toList_append, ih, List.flatMap_cons, List.map_append, hchars]

theorem toList_pattern (f : Field) : f.pattern.toList = Glob.render f.marks := by
  unfold pattern marks
  induction f.segments with
  | nil => rfl
  | cons s ss ih =>
    obtain ⟨text, quoted⟩ := s
    rw [List.map_cons, String.join_cons, String.toList_append, ih, List.flatMap_cons, Glob.render_append]
    congr 1
    cases quoted with
    | true => exact escape_eq text
    | false => exact (Glob.render_unquoted text.toList).symm

end Field

namespace LetteredField

variable (f : LetteredField)

/-- The letters of a field, of which those in quoted text are quoted. -/
def marks : List Mark := f.segments.flatMap fun s => s.1.map fun l => (l.char, s.2)

/-- The same with those that are written in quotes in the word. -/
def written : List Mark := f.letters.map fun l => (l.char, l.written)

theorem text_field : f.field.text = Letter.text f.letters := by
  unfold Field.text field letters
  dsimp only
  rw [List.map_map]
  induction f.segments with
  | nil => rfl
  | cons s ss ih =>
    rw [List.map_cons, String.join_cons, ih, List.flatMap_cons, Letter.text_append]
    rfl

theorem marks_field : f.field.marks = f.marks := by
  unfold Field.marks field marks
  rw [List.flatMap_map]
  congr 1
  funext s
  simp [Letter.text]

theorem pattern_field : f.field.pattern.toList = Glob.render f.marks := by
  rw [Field.toList_pattern, marks_field]

/-- The directory before a relative pattern. -/
def lead (directory : String) : List Mark :=
  if Path.isAbsolute (Letter.text f.letters) then [] else directoryMarks directory

/-- What is asked of a path: that the letters written in quotes are as they are. -/
def asked (directory : String) : List Mark := f.lead directory ++ f.written

/-- The pattern that the field is in a directory. -/
def wholePattern (directory : String) : List Mark := f.lead directory ++ f.marks

/-- In the pattern of the field each letter that is written in quotes stands for itself. -/
def Shielded (directory : String) : Prop :=
  List.Forall₂ (List.Forall₂ AsksLess) (Glob.markPieces (Glob.startOf (f.asked directory)).2)
    (Glob.standingPieces (Glob.startOf (f.wholePattern directory)).2)

theorem search_pattern (directory : String) :
    (if !Path.isAbsolute (Letter.text f.letters) then Field.patternPrefix directory else "") ++ f.field.pattern =
      String.ofList (Glob.render (f.wholePattern directory)) := by
  rw [← String.toList_inj, String.toList_append, String.toList_ofList, pattern_field, wholePattern,
    Glob.render_append]
  congr 1
  unfold lead
  cases Path.isAbsolute (Letter.text f.letters) with
  | true => rfl
  | false => exact patternPrefix_eq directory

end LetteredField

/-- An argument is a path by names in which the characters asked for are as they are, or is the way
to such a path from a directory. -/
def PathBy (start : String) (pieces : List (List Mark)) (directory argument : String) : Prop :=
  ∃ names path, Glob.Along pieces names ∧ Glob.Reaches start names path ∧
    (argument = path ∨ Path.below? directory path = some argument)

namespace LetteredField

variable {f : LetteredField}

theorem mem_shown {paths : List String} {shown : String → String} {text argument : String}
    (h : argument ∈ if (paths.map shown).isEmpty then [text] else (paths.map shown).mergeSort Glob.textLe) :
    argument = text ∨ ∃ path ∈ paths, argument = shown path := by
  split at h
  · exact .inl (List.mem_singleton.mp h)
  · obtain ⟨path, hpath, rfl⟩ := List.mem_map.mp (List.mem_mergeSort.mp h)
    exact .inr ⟨path, hpath, rfl⟩

/-- What a field stands for is its text, or a path in which the characters of its pattern that stand
for themselves are as they are. -/
theorem mem_arguments {files : Files} {directory argument : String}
    (h : argument ∈ f.field.arguments files directory) :
    argument = Letter.text f.letters ∨ PathBy (Glob.startOf (f.wholePattern directory)).1
      (Glob.standingPieces (Glob.startOf (f.wholePattern directory)).2) directory argument := by
  unfold Field.arguments at h
  rw [text_field] at h
  dsimp only at h
  cases hwild : f.field.hasWildcard with
  | false =>
    rw [hwild] at h
    exact .inl (List.mem_singleton.mp h)
  | true =>
    rw [hwild, search_pattern] at h
    rcases mem_shown h with rfl | ⟨path, hpath, rfl⟩
    · exact .inl rfl
    · right
      cases hsearch : Glob.search files true (String.ofList (Glob.render (f.wholePattern directory))) with
      | error fault =>
        rw [hsearch] at hpath
        cases hpath
      | ok paths =>
        rw [hsearch] at hpath
        obtain ⟨names, halong, hreaches⟩ := Glob.along_of_mem_search hsearch hpath
        refine ⟨names, path, halong, hreaches, ?_⟩
        split
        · cases Path.below? directory path with
          | none => exact .inl rfl
          | some rest => exact .inr rfl
        · exact .inl rfl

theorem map_written : f.written.map (·.1) = f.marks.map (·.1) := by
  unfold written marks letters
  rw [List.map_map, List.map_flatMap, List.map_flatMap]
  congr 1
  funext s
  rw [List.map_map]
  rfl

/-- In the paths for a field in which each letter written in quotes stands for itself these letters
are as they are. -/
theorem Shielded.mem_arguments {files : Files} {directory argument : String} (hf : f.Shielded directory)
    (h : argument ∈ f.field.arguments files directory) :
    argument = Letter.text f.letters ∨ PathBy (Glob.startOf (f.asked directory)).1
      (Glob.markPieces (Glob.startOf (f.asked directory)).2) directory argument := by
  refine (LetteredField.mem_arguments h).imp_right ?_
  rintro ⟨names, path, halong, hreaches, hargument⟩
  refine ⟨names, path, halong.weaken hf, ?_, hargument⟩
  have hchars : (f.asked directory).map (·.1) = (f.wholePattern directory).map (·.1) := by
    unfold asked wholePattern
    rw [List.map_append, List.map_append, map_written]
  rwa [Glob.startOf_fst, ← List.head?_map, hchars, List.head?_map, ← Glob.startOf_fst]

end LetteredField

/-! ## Fields without sets -/

/-- A character that is asked to be as it is where nothing speaks against it: there is no set, and it is
quoted or no wildcard. -/
def Spared (m' m : Mark) : Prop :=
  m'.1 = m.1 ∧ m ≠ ('[', false) ∧ (m'.2 = true → (m.2 || (m.1 != '*' && m.1 != '?')) = true)

theorem asksLess_of_spared {ms' ms : List Mark} (h : List.Forall₂ Spared ms' ms) :
    List.Forall₂ AsksLess ms' (Glob.standing 0 ms) := by
  have hset : ('[', false) ∉ ms := by
    induction h with
    | nil => exact List.not_mem_nil
    | cons hm _ ih => exact List.not_mem_cons_of_ne_of_not_mem (Ne.symm hm.2.1) ih
  rw [Glob.standing_of_no_set hset, List.forall₂_map_right_iff]
  exact h.imp fun _ _ hm => ⟨hm.1, hm.2.2⟩

namespace LetteredField

/-- No set starts in the unquoted text of a field, and no wildcard there is written in quotes. -/
def Plain (f : LetteredField) : Prop :=
  ∀ s ∈ f.segments, s.2 = false → ∀ l ∈ s.1, l.char ≠ '[' ∧ (l.written = true → l.char ≠ '*' ∧ l.char ≠ '?')

instance (f : LetteredField) : Decidable f.Plain :=
  inferInstanceAs (Decidable (∀ s ∈ f.segments, s.2 = false →
    ∀ l ∈ s.1, l.char ≠ '[' ∧ (l.written = true → l.char ≠ '*' ∧ l.char ≠ '?')))

theorem Plain.spared {f : LetteredField} (h : f.Plain) : List.Forall₂ Spared f.written f.marks := by
  obtain ⟨segments⟩ := f
  unfold written marks letters
  unfold Plain at h
  induction segments with
  | nil => exact .nil
  | cons s ss ih =>
    rw [List.forall_mem_cons] at h
    rw [List.flatMap_cons, List.flatMap_cons, List.map_append]
    refine List.rel_append ?_ (ih h.2)
    rw [List.forall₂_map_left_iff, List.forall₂_map_right_iff, List.forall₂_same]
    intro l hl
    cases hquoted : s.2 with
    | true => exact ⟨rfl, fun hm => Bool.noConfusion (congrArg Prod.snd hm), fun _ => rfl⟩
    | false =>
      have hplain := h.1 hquoted l hl
      exact ⟨rfl, fun hm => hplain.1 (congrArg Prod.fst hm), fun hw => by simpa using hplain.2 hw⟩

theorem lead_spared (f : LetteredField) (directory : String) :
    List.Forall₂ Spared (f.lead directory) (f.lead directory) := by
  have hquoted : ∀ m ∈ f.lead directory, m.2 = true := by
    unfold lead directoryMarks
    split
    · exact nofun
    · dsimp only
      split <;> simp
  rw [List.forall₂_same]
  intro m hm
  refine ⟨rfl, ?_, fun _ => by rw [hquoted m hm]; rfl⟩
  rintro rfl
  cases hquoted _ hm

/-- In such a field every letter that is written in quotes stands for itself. -/
theorem Plain.shielded {f : LetteredField} (h : f.Plain) (directory : String) : f.Shielded directory := by
  have hchars (m' m : Mark) (hm : Spared m' m) : m'.1 = m.1 := hm.1
  unfold Shielded Glob.standingPieces
  rw [List.forall₂_map_right_iff]
  exact (Glob.forall₂_markPieces hchars (Glob.forall₂_startOf hchars
    (List.rel_append (f.lead_spared directory) h.spared))).imp fun _ _ => asksLess_of_spared

end LetteredField

/-! ## Words -/

variable (h : Handlers)

theorem finish_fields (fs : LetteredFields) : fs.fields.finish = fs.cut.done.map (·.field) := by
  unfold Fields.finish
  rw [← LetteredFields.fields_cut]
  rfl

/-- The arguments of the first of some words are those of the fields that its stretches make. -/
theorem fields_cons (word : Word) (rest : List Word) :
    Run.fields h (word :: rest) = do
      let ss ← Lettered.stretches h word
      let s ← Act.state
      let files ← Act.files
      let others ← Run.fields h rest
      return ((Stretch.place ss).flatMap fun f => f.field.arguments files s.directory) ++ others := by
  rw [Run.fields, show Fields.empty = LetteredFields.empty.fields from rfl, parts_eq_stretches]
  simp only [bind_map_left, finish_fields, List.flatMap_map, Stretch.place]

theorem fields_eq_stretches (word : Word) :
    Run.fields h [word] = do
      let ss ← Lettered.stretches h word
      let s ← Act.state
      let files ← Act.files
      return (Stretch.place ss).flatMap fun f => f.field.arguments files s.directory := by
  rw [fields_cons, Run.fields]
  simp only [pure_bind, List.append_nil]

theorem fields_apply {word : Word} {w w' : World} {ss : List Stretch}
    (hword : Lettered.stretches h word w = (.ok ss, w')) :
    Run.fields h [word] w =
      (.ok ((Stretch.place ss).flatMap fun f => f.field.arguments w'.host.files w'.state.directory), w') := by
  rw [fields_eq_stretches, Stateful.bind_ok hword]
  rfl

/-- A word of a command is written where it is read, and it becomes arguments as follows. The letters
that are written in quotes are all in its fields, in their order, just if none of them is a separator
in an unquoted expansion. If each of those in a field stands for itself in the pattern that the field
is, each argument is the text of the field or a path in which they are as they are. -/
theorem quoted_text_inert {leading : Bool} {c s e : Cursor} {word : Word} {w w' : World} {ss : List Stretch}
    (hread : Parser.found (Parser.item? leading c) = .ok (some (.word word, e), s))
    (hword : Lettered.stretches h word w = (.ok ss, w')) :
    Spells s.rest word e.rest ∧
    Run.fields h [word] w =
      (.ok ((Stretch.place ss).flatMap fun f => f.field.arguments w'.host.files w'.state.directory), w') ∧
    (((Stretch.place ss).flatMap (·.letters)).filter (·.written) =
      (ss.flatMap Stretch.letters).filter (·.written) ↔ Stretch.Uncut ss) ∧
    ∀ f ∈ Stretch.place ss, f.Shielded w'.state.directory →
      ∀ argument ∈ f.field.arguments w'.host.files w'.state.directory,
        argument = Letter.text f.letters ∨
        PathBy (Glob.startOf (f.asked w'.state.directory)).1
          (Glob.markPieces (Glob.startOf (f.asked w'.state.directory)).2) w'.state.directory argument :=
  ⟨Parser.spells_item hread, fields_apply h hword, Stretch.written_place_iff ss,
    fun _ _ hf _ hargument => hf.mem_arguments hargument⟩

/-- In the word `'a*'*` the first star is one in each path, and the second one stands for any text. -/
theorem quoted_star_inert :
    let h : Handlers := ⟨Program.Sample.exec, Handlers.openDirect⟩
    let w : World := ⟨.initial "/", [], default⟩
    let word : Word := [.literal "a*" true, .literal "*" false]
    let f : LetteredField := ⟨[([⟨'a', true⟩, ⟨'*', true⟩], true), ([⟨'*', false⟩], false)]⟩
    let c := Cursor.ofString "'a*'*"
    let e : Cursor := ⟨[], 1, 6⟩
    let ss : List Stretch := [.whole [⟨'a', true⟩, ⟨'*', true⟩] true, .whole [⟨'*', false⟩] false]
    Parser.found (Parser.item? true c) = .ok (some (.word word, e), c) ∧
    Lettered.stretches h word w = (.ok ss, w) ∧
    Spells c.rest word [] ∧
    Run.fields h [word] w = (.ok (f.field.arguments w.host.files "/"), w) ∧
    ∀ argument ∈ f.field.arguments w.host.files "/",
      argument = "a**" ∨ PathBy "/" [[('a', true), ('*', true), ('*', false)]] "/" argument := by
  intro h w word f c e ss
  have hread : Parser.found (Parser.item? true c) = .ok (some (.word word, e), c) := by with_unfolding_all rfl
  have hword : Lettered.stretches h word w = (.ok ss, w) := rfl
  have hplace : Stretch.place ss = [f] := by decide
  have hplain : f.Plain := by decide
  have hstart : Glob.startOf (f.asked "/") = ("/", [('a', true), ('*', true), ('*', false)]) := by decide
  obtain ⟨hspells, hrun, -, harguments⟩ := quoted_text_inert h hread hword
  refine ⟨hread, hword, hspells, ?_, ?_⟩
  · rw [hrun, hplace, List.flatMap_singleton]
    rfl
  · intro argument hargument
    refine (harguments f (hplace ▸ List.mem_singleton.mpr rfl) (hplain.shielded "/") argument hargument).imp
      (fun htext => htext.trans (by decide)) fun hpath => ?_
    change PathBy (Glob.startOf (f.asked "/")).1 (Glob.markPieces (Glob.startOf (f.asked "/")).2) "/" argument
      at hpath
    rwa [hstart] at hpath

/-- In the word `${X:-"a b"}` the blank is written in quotes. If X is not set, the word becomes two
fields all the same, and the blank is in none of them. -/
theorem quoted_blank_cut :
    let h : Handlers := ⟨Program.Sample.exec, Handlers.openDirect⟩
    let w : World := ⟨.initial "/", [], default⟩
    let word : Word := [.param "X" (some [.literal "a b" true]) false]
    let c := Cursor.ofString "$\x7bX:-\"a b\"\x7d"
    let ss : List Stretch := [.cut [⟨'a', true⟩, ⟨' ', true⟩, ⟨'b', true⟩]]
    Parser.found (Parser.item? false c) = .ok (some (.word word, ⟨[], 1, 12⟩), c) ∧
    Spells c.rest word [] ∧
    Lettered.stretches h word w = (.ok ss, w) ∧
    (Run.fields h [word] w).1 = .ok ["a", "b"] ∧
    ((Stretch.place ss).flatMap (·.letters)).filter (·.written) ≠
      (ss.flatMap Stretch.letters).filter (·.written) := by
  intro h w word c ss
  have hread : Parser.found (Parser.item? false c) = .ok (some (.word word, ⟨[], 1, 12⟩), c) := by
    with_unfolding_all rfl
  refine ⟨hread, Parser.spells_item hread, ?_, ?_, ?_⟩
  · with_unfolding_all rfl
  · decide +kernel
  · decide

end Taskwork.Shell
