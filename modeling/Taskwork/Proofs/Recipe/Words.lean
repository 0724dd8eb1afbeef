/-
The words of a command given as a list. A list whose first word is neither reserved nor looks like
an assignment is read back as one command, with just the leading assignments and with the other
words as they are; and only such a list is. Words after the first one are safe, whatever they say.
-/
import Taskwork.Proofs.Shell.Assignments
import Taskwork.Recipe.Words

namespace Taskwork.Recipe

open Shell (Binding Handlers World quote quotedWord isHarmless)

/-! ## Lists of words -/

/-- A word of a list: a string, or a path. -/
inductive Entry where
  | string (s : String)
  | path (p : String)
  deriving DecidableEq, Repr

namespace Entry

def value : Entry → Value
  | .string s => .text s
  | .path p => .path p

/-- What the command is to see of a word: a string as it is, and a path as one from `base`. -/
def text (base : String) : Entry → String
  | .string s => s
  | .path p => pathWord base p

/-- The assignment that a string is, if it is one. -/
def binding? : Entry → Option Binding
  | .path _ => none
  | .string s =>
    match s.toList.dropWhile (· != '=') with
    | '=' :: value =>
      if h : Shell.Cursor.isName (s.toList.takeWhile (· != '=')) then
        some ⟨String.ofList (s.toList.takeWhile (· != '=')), String.ofList value, by simpa using h⟩
      else none
    | _ => none

theorem assignment?_of_no_sign {s : String} (h : ∀ value, s.toList.dropWhile (· != '=') ≠ '=' :: value) :
    assignment? s = none := by
  unfold assignment?
  dsimp only
  split <;> rename_i hdrop
  · exact absurd hdrop (h _)
  · rfl

theorem binding?_of_no_sign {s : String} (h : ∀ value, s.toList.dropWhile (· != '=') ≠ '=' :: value) :
    (Entry.string s).binding? = none := by
  unfold binding?
  dsimp only
  split <;> rename_i hdrop
  · exact absurd hdrop (h _)
  · rfl

theorem assignment?_eq (s : String) :
    assignment? s = (Entry.string s).binding?.map fun b => (b.name, b.value) := by
  by_cases hsign : ∃ value, s.toList.dropWhile (· != '=') = '=' :: value
  · obtain ⟨value, hdrop⟩ := hsign
    unfold assignment? binding?
    simp only [hdrop]
    split <;> rfl
  · rw [assignment?_of_no_sign (not_exists.mp hsign), binding?_of_no_sign (not_exists.mp hsign)]
    rfl

/-- A string is an assignment in one way at most, with a name before the `=`. -/
theorem binding?_eq_some_iff {e : Entry} {b : Binding} :
    e.binding? = some b ↔ e = .string (b.name ++ "=" ++ b.value) := by
  constructor
  · intro h
    cases e with
    | path p => cases h
    | string s =>
      unfold binding? at h
      dsimp only at h
      split at h <;> rename_i hdrop
      · split at h
        · cases h
          have hs := List.takeWhile_append_dropWhile (p := (· != '=')) (l := s.toList)
          rw [hdrop] at hs
          congr 1
          apply String.toList_injective
          simpa using hs.symm
        · cases h
      · cases h
  · rintro rfl
    obtain ⟨htake, hdrop⟩ := Shell.span_name b.isName b.value.toList
    have htext : (b.name ++ "=" ++ b.value).toList = b.name.toList ++ '=' :: b.value.toList := by simp
    unfold binding?
    simp [htext, htake, hdrop, b.isName]

end Entry

/-- The assignments at the start of a list. -/
def bindings (entries : List Entry) : List Binding :=
  (entries.takeWhile (·.binding?.isSome)).filterMap Entry.binding?

/-- The entries after the assignments at the start of a list. -/
def arguments (entries : List Entry) : List Entry :=
  entries.dropWhile (·.binding?.isSome)

theorem bindings_cons_some {e : Entry} {b : Binding} (h : e.binding? = some b) (es : List Entry) :
    bindings (e :: es) = b :: bindings es ∧ arguments (e :: es) = arguments es := by
  simp [bindings, arguments, h]

theorem bindings_cons_none {e : Entry} (h : e.binding? = none) (es : List Entry) :
    bindings (e :: es) = [] ∧ arguments (e :: es) = e :: es := by
  simp [bindings, arguments, h]

theorem bindings_or_arguments {entries : List Entry} (hne : entries ≠ []) (h : bindings entries = []) :
    arguments entries ≠ [] := by
  obtain ⟨e, es, rfl⟩ := List.exists_cons_of_ne_nil hne
  cases hb : e.binding? with
  | some b =>
    rw [(bindings_cons_some hb es).1] at h
    cases h
  | none =>
    rw [(bindings_cons_none hb es).2]
    exact List.cons_ne_nil _ _

/-! ## The line of a list -/

theorem quotedWords_false (base : String) (es : List Entry) :
    quotedWords base false (es.map Entry.value) = .ok (es.map fun e => quote (e.text base)) := by
  induction es with
  | nil => rfl
  | cons e es ih =>
    cases e <;> rw [List.map_cons, Entry.value, quotedWords, ih] <;> rfl

theorem quotedWords_true (base : String) (es : List Entry) :
    quotedWords base true (es.map Entry.value) =
      .ok ((bindings es).map Binding.text ++ (arguments es).map fun e => quote (e.text base)) := by
  induction es with
  | nil => rfl
  | cons e es ih =>
    cases hb : e.binding? with
    | some b =>
      obtain ⟨hbindings, harguments⟩ := bindings_cons_some hb es
      obtain rfl := Entry.binding?_eq_some_iff.mp hb
      rw [List.map_cons, Entry.value, quotedWords, if_pos rfl, Entry.assignment?_eq, hb, hbindings,
        harguments, ih]
      rfl
    | none =>
      obtain ⟨hbindings, harguments⟩ := bindings_cons_none hb es
      rw [hbindings, harguments]
      cases e with
      | string s =>
        rw [List.map_cons, Entry.value, quotedWords, if_pos rfl, Entry.assignment?_eq, hb,
          quotedWords_false]
        rfl
      | path p =>
        rw [List.map_cons, Entry.value, quotedWords, quotedWords_false]
        rfl

theorem wordLine_eq (base : String) {entries : List Entry} (hne : entries ≠ []) :
    ∃ source, wordLine base (entries.map Entry.value) = .ok source ∧
      ' ' :: source.toList = Shell.Parser.bindingText (bindings entries)
        (Shell.argumentText ((arguments entries).map (Entry.text base))) := by
  refine ⟨" ".intercalate ((bindings entries).map Binding.text ++
    (arguments entries).map fun e => quote (e.text base)), ?_, ?_⟩
  · rw [wordLine, if_neg (by simpa using hne), quotedWords_true]
    rfl
  · have hparts : (bindings entries).map Binding.text ++
        ((arguments entries).map fun e => quote (e.text base)) ≠ [] := by
      simpa using fun h => bindings_or_arguments hne h
    obtain ⟨t, ts, hts⟩ := List.exists_cons_of_ne_nil hparts
    rw [hts, Shell.toList_intercalate, ← hts, List.flatMap_append, Shell.argumentText_eq,
      Shell.Parser.bindingText, List.flatMap_map, List.map_map]
    rfl

/-- The list becomes the script of one simple command. Its assignments are those at the start of
the list, with their values as they are, and its words are the other entries as they are, in every
state and whatever files there are. -/
def Verbatim (base : String) (entries : List Entry) : Prop :=
  ∃ source assigns words text line,
    wordLine base (entries.map Entry.value) = .ok source ∧
    Shell.Script.ofString source = .ok [⟨⟨false, [.simple assigns words []]⟩, [], text, line⟩] ∧
    ∀ (h : Handlers) (w : World),
      Shell.Run.values h assigns w =
        (.ok ((bindings entries).map fun b => (b.name, b.value)), w) ∧
      Shell.Run.fields h words w = (.ok ((arguments entries).map (Entry.text base)), w)

/-! ## The first word -/

/-- A text that quoting leaves as it is, but that is not read as a word at the start of a command:
a reserved word, or what looks like an assignment. -/
def Misread (text : String) : Prop :=
  text ∈ Shell.Parser.reservedWords ∨
    isHarmless text.toList = true ∧ (Entry.string text).binding?.isSome = true

theorem assignment?_literal (text : String) :
    (Shell.Parser.assignment? [.literal text false]).isSome = (Entry.string text).binding?.isSome := by
  unfold Shell.Parser.assignment? Entry.binding?
  dsimp only
  cases hdrop : text.toList.dropWhile (· != '=') with
  | nil => rfl
  | cons x value =>
    obtain rfl : x = '=' := by
      have := List.head?_dropWhile_not (· != '=') text.toList
      simpa [hdrop] using this
    by_cases hname : Shell.Cursor.isName (text.toList.takeWhile (· != '=')) = true <;> simp [hname]

theorem reserved_plain : ∀ t ∈ Shell.Parser.reservedWords, isHarmless t.toList = true ∧
    (Shell.Parser.assignment? [.literal t false]).isSome = false := by
  decide

/-- What comes first in a command is a word unless it is misread. -/
theorem itemOf_word {text : String} (h : ¬ Misread text) (s : Shell.Cursor) :
    Shell.Parser.itemOf true s (quotedWord text) = .ok (.word (quotedWord text)) := by
  obtain ⟨hreserved, hassign⟩ := not_or.mp h
  unfold Shell.Parser.itemOf quotedWord
  rw [if_pos rfl]
  cases hh : isHarmless text.toList with
  | false => rfl
  | true =>
    have hnone : Shell.Parser.assignment? [.literal text false] = none := by
      rw [← Option.not_isSome_iff_eq_none, assignment?_literal]
      exact fun hsome => hassign ⟨hh, hsome⟩
    simp only [Bool.not_true, hnone, Shell.Word.plain?]
    simp [hreserved]

theorem itemOf_ne_word {text : String} (h : Misread text) (s : Shell.Cursor) (w : Shell.Word) :
    Shell.Parser.itemOf true s (quotedWord text) ≠ .ok (.word w) := by
  unfold Shell.Parser.itemOf quotedWord
  rw [if_pos rfl]
  rcases h with hreserved | ⟨hh, hsome⟩
  · obtain ⟨hh, hassign⟩ := reserved_plain text hreserved
    have hnone := Option.not_isSome_iff_eq_none.mp (Bool.eq_false_iff.mp hassign)
    simp only [hh, Bool.not_true, hnone, Shell.Word.plain?]
    simp [hreserved, Shell.Parser.fail]
  · rw [← assignment?_literal] at hsome
    obtain ⟨a, ha⟩ := Option.isSome_iff_exists.mp hsome
    rw [hh, Bool.not_true, ha]
    exact nofun

/-! ## Lists that reach the command -/

theorem verbatim_of_not_misread (base : String) {entries : List Entry} (hne : entries ≠ [])
    (hhead : ∀ e ∈ (arguments entries).head?, ¬ Misread (e.text base)) : Verbatim base entries := by
  obtain ⟨source, hline, hsource⟩ := wordLine_eq base hne
  obtain ⟨text, line, hscript⟩ := Shell.ofString_bindings hsource (by
    intro v hv
    rw [List.head?_map] at hv
    obtain ⟨e, he, rfl⟩ := Option.map_eq_some_iff.mp hv
    exact itemOf_word (hhead e he))
  exact ⟨source, _, _, text, line, hline, hscript, fun h w =>
    ⟨Shell.values_bindings h _ w, Shell.fields_quotedWords h _ w⟩⟩

theorem not_verbatim_of_misread (base : String) {entries : List Entry} {e : Entry} {es : List Entry}
    (hargs : arguments entries = e :: es) (he : Misread (e.text base)) : ¬ Verbatim base entries := by
  rintro ⟨source, assigns, words, text, line, hline, hscript, hrun⟩
  have hne : entries ≠ [] := by
    rintro rfl
    cases hargs
  obtain ⟨source', hline', hsource⟩ := wordLine_eq base hne
  obtain rfl : source = source' := Except.ok.inj (hline.symm.trans hline')
  rw [hargs, List.map_cons] at hsource
  have hlt := Shell.length_lt_of_misread hsource (fun s w => itemOf_ne_word he s w) hscript
  have hlength := Shell.length_values ⟨fun _ h => (h, .error default), fun _ _ _ h => (h, .error default)⟩
    (hrun _ default).1
  rw [List.length_map] at hlength
  omega

/-- A list reaches the command as it is just if its first word is none that is misread. -/
theorem wordLine_verbatim_iff (base : String) (entries : List Entry) :
    Verbatim base entries ↔
      entries ≠ [] ∧ ∀ e ∈ (arguments entries).head?, ¬ Misread (e.text base) := by
  constructor
  · intro h
    refine ⟨?_, ?_⟩
    · rintro rfl
      obtain ⟨source, -, -, -, -, hline, -⟩ := h
      cases hline
    · intro e he hmisread
      obtain ⟨es, hargs⟩ := List.head?_eq_some_iff.mp he
      exact not_verbatim_of_misread base hargs hmisread h
  · rintro ⟨hne, hhead⟩
    exact verbatim_of_not_misread base hne hhead

/-- A command named like a reserved word is not called. -/
theorem keyword_not_verbatim : ¬ Verbatim "/p" [.string "if", .string "x"] :=
  not_verbatim_of_misread "/p" (show arguments _ = .string "if" :: [.string "x"] by decide) (.inl (by decide))

/-- A program in the file `A=b` is not run, but `A` is set. -/
example : ¬ Verbatim "/p" [.path "/p/A=b", .string "x"] :=
  not_verbatim_of_misread "/p" (show arguments _ = .path "/p/A=b" :: [.string "x"] by decide) (.inr (by decide))

end Taskwork.Recipe
