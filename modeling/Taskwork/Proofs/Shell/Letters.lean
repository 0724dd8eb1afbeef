/-
Expanding a word letter by letter. Of each character that a word expands to it is remembered whether
it is written in quotes in the word, be it in the default of a parameter; the characters of values and
outputs are not. Without these marks the expansion is that of the interpreter. The letters of the
fields are those of the word in their order, but for the separators at which an unquoted expansion is
cut.
-/
import Taskwork.Proofs.Stateful
import Taskwork.Proofs.Text.Split
import Taskwork.Shell.Interpreter

namespace Taskwork.Shell

/-- A character that a word expands to, and whether it is written in quotes there. -/
structure Letter where
  char : Char
  written : Bool
  deriving DecidableEq, Repr

namespace Letter

/-- The letters of a text, all written in quotes or none. -/
def ofText (written : Bool) (text : String) : List Letter := text.toList.map (⟨·, written⟩)

def text (ls : List Letter) : String := String.ofList (ls.map (·.char))

@[simp] theorem text_ofText (written : Bool) (t : String) : text (ofText written t) = t := by
  unfold text ofText
  rw [List.map_map]
  exact (congrArg String.ofList (List.map_id _)).trans String.ofList_toList

@[simp] theorem text_append (ls ls' : List Letter) : text (ls ++ ls') = text ls ++ text ls' := by
  unfold text
  rw [List.map_append, String.ofList_append]

def isSeparator (l : Letter) : Bool := Fields.isSeparator l.char

end Letter

/-! ## Expansion -/

/-- What a part of a word adds to its fields: letters that stay together, or those of an unquoted
expansion, which is cut at separators. -/
inductive Stretch where
  | whole (letters : List Letter) (quoted : Bool)
  | cut (letters : List Letter)
  deriving DecidableEq, Repr

namespace Stretch

def letters : Stretch → List Letter
  | .whole ls _ => ls
  | .cut ls => ls

/-- The letters that are not lost as separators. -/
def kept : Stretch → List Letter
  | .whole ls _ => ls
  | .cut ls => ls.filter (!·.isSeparator)

/-- The value of a parameter or substitution. -/
def ofValue (letters : List Letter) (quoted : Bool) : Stretch :=
  if quoted then .whole letters true else .cut letters

end Stretch

namespace Lettered

variable (h : Handlers)

mutual

/-- The text a word expands to where it is not split, within quotes or not. -/
def text (quotes : Bool) : List Part → Act (List Letter)
  | [] => return []
  | .literal t quoted :: rest => return Letter.ofText (quotes || quoted) t ++ (← text quotes rest)
  | .param name fallback quoted :: rest => do
    let value ← parameter (quotes || quoted) name fallback
    return value ++ (← text quotes rest)
  | .subst script _ :: rest => do
    let value ← Act.substitution fun streams => Run.list h streams script
    return Letter.ofText false value ++ (← text quotes rest)

/-- The value of a parameter, or of its fallback if it is empty or not set. -/
def parameter (quotes : Bool) (name : String) : Option (List Part) → Act (List Letter)
  | none => return Letter.ofText false (((← Act.state).parameter? name).getD "")
  | some fallback => do
    let value := ((← Act.state).parameter? name).getD ""
    if value.isEmpty then text quotes fallback else return Letter.ofText false value

end

/-- What the parts of a word add to its fields. -/
def stretches : List Part → Act (List Stretch)
  | [] => return []
  | .literal t quoted :: rest => return .whole (Letter.ofText quoted t) quoted :: (← stretches rest)
  | .param name fallback quoted :: rest => do
    let value ← parameter h quoted name fallback
    return .ofValue value quoted :: (← stretches rest)
  | .subst script quoted :: rest => do
    let value ← Act.substitution fun streams => Run.list h streams script
    return .ofValue (Letter.ofText false value) quoted :: (← stretches rest)

mutual

theorem text_eq (quotes : Bool) (word : List Part) :
    Run.text h word = Letter.text <$> text h quotes word := by
  match word with
  | [] =>
    rw [Run.text, text, map_pure]
    rfl
  | .literal t quoted :: rest =>
    rw [Run.text, text, text_eq quotes rest]
    simp only [map_bind, map_pure, bind_map_left, Letter.text_append, Letter.text_ofText]
  | .param name fallback quoted :: rest =>
    rw [Run.text, text, text_eq quotes rest, parameter_eq (quotes || quoted) name fallback]
    simp only [map_bind, map_pure, bind_map_left, Letter.text_append]
  | .subst script quoted :: rest =>
    rw [Run.text, text, text_eq quotes rest]
    simp only [map_bind, map_pure, bind_map_left, Letter.text_append, Letter.text_ofText]

theorem parameter_eq (quotes : Bool) (name : String) (fallback : Option (List Part)) :
    Run.parameter h name fallback = Letter.text <$> parameter h quotes name fallback := by
  match fallback with
  | none =>
    rw [Run.parameter, parameter]
    simp only [map_bind, map_pure, Letter.text_ofText]
  | some fallback =>
    rw [Run.parameter, parameter, text_eq quotes fallback]
    simp only [map_bind, apply_ite (Letter.text <$> ·), map_pure, Letter.text_ofText]

end

end Lettered

/-! ## Fields -/

/-- A field with the letters of its stretches. -/
structure LetteredField where
  segments : List (List Letter × Bool)
  deriving DecidableEq, Repr

namespace LetteredField

def empty : LetteredField := ⟨[]⟩

def push (f : LetteredField) (letters : List Letter) (quoted : Bool) : LetteredField :=
  ⟨f.segments ++ [(letters, quoted)]⟩

def isPresent (f : LetteredField) : Bool := f.segments.any fun s => s.2 || !s.1.isEmpty

def letters (f : LetteredField) : List Letter := f.segments.flatMap (·.1)

/-- The field without the marks of its letters. -/
def field (f : LetteredField) : Field := ⟨f.segments.map fun s => (Letter.text s.1, s.2)⟩

theorem letters_push (f : LetteredField) (ls : List Letter) (quoted : Bool) :
    (f.push ls quoted).letters = f.letters ++ ls := by
  simp [letters, push]

theorem field_push (f : LetteredField) (ls : List Letter) (quoted : Bool) :
    (f.push ls quoted).field = f.field.push (Letter.text ls) quoted := by
  simp [field, push, Field.push]

theorem isPresent_field (f : LetteredField) : f.field.isPresent = f.isPresent := by
  unfold Field.isPresent isPresent field
  rw [List.any_map]
  congr 1
  funext ⟨ls, quoted⟩
  cases ls <;> simp [Letter.text]

theorem letters_of_absent {f : LetteredField} (h : f.isPresent = false) : f.letters = [] := by
  unfold letters
  rw [List.flatMap_eq_nil_iff]
  intro s hs
  have := List.any_eq_false.mp h s hs
  simpa using (by simpa using this : _ ∧ _).2

end LetteredField

/-- The fields of a word so far, of which the last one may go on. -/
structure LetteredFields where
  done : List LetteredField
  current : LetteredField
  deriving DecidableEq, Repr

namespace LetteredFields

def empty : LetteredFields := ⟨[], .empty⟩

def push (fs : LetteredFields) (letters : List Letter) (quoted : Bool) : LetteredFields :=
  { fs with current := fs.current.push letters quoted }

def cut (fs : LetteredFields) : LetteredFields :=
  ⟨if fs.current.isPresent then fs.done ++ [fs.current] else fs.done, .empty⟩

/-- Adds a piece of an expansion that is cut. -/
def pushPiece (fs : LetteredFields) (piece : List Letter) : LetteredFields :=
  if piece.isEmpty then fs else fs.push piece false

def pushSplit (fs : LetteredFields) (letters : List Letter) : LetteredFields :=
  match Text.splitOn Letter.isSeparator letters with
  | [] => fs
  | first :: more => more.foldl (fun fs piece => fs.cut.pushPiece piece) (fs.pushPiece first)

def add (fs : LetteredFields) : Stretch → LetteredFields
  | .whole ls quoted => fs.push ls quoted
  | .cut ls => fs.pushSplit ls

/-- The fields without the marks of their letters. -/
def fields (fs : LetteredFields) : Fields := ⟨fs.done.map (·.field), fs.current.field⟩

/-- All letters in their order. -/
def letters (fs : LetteredFields) : List Letter := fs.done.flatMap (·.letters) ++ fs.current.letters

variable (fs : LetteredFields)

theorem letters_push (ls : List Letter) (quoted : Bool) : (fs.push ls quoted).letters = fs.letters ++ ls := by
  unfold letters push
  rw [LetteredField.letters_push, List.append_assoc]

theorem letters_cut : fs.cut.letters = fs.letters := by
  unfold letters cut
  cases hpresent : fs.current.isPresent with
  | true => simp [LetteredField.letters, LetteredField.empty]
  | false =>
    rw [LetteredField.letters_of_absent hpresent]
    rfl

theorem letters_pushPiece (piece : List Letter) : (fs.pushPiece piece).letters = fs.letters ++ piece := by
  unfold pushPiece
  cases piece with
  | nil => exact (List.append_nil _).symm
  | cons l piece => exact fs.letters_push _ false

/-- Of an expansion that is cut nothing but the separators is lost. -/
theorem letters_pushSplit (ls : List Letter) :
    (fs.pushSplit ls).letters = fs.letters ++ ls.filter (!·.isSeparator) := by
  have hmore (more : List (List Letter)) (fs : LetteredFields) :
      (more.foldl (fun fs piece => fs.cut.pushPiece piece) fs).letters = fs.letters ++ more.flatten := by
    induction more generalizing fs with
    | nil => exact (List.append_nil _).symm
    | cons piece more ih =>
      rw [List.foldl_cons, ih, letters_pushPiece, letters_cut, List.append_assoc]
      rfl
  unfold pushSplit
  rw [← Text.flatten_splitOn]
  cases Text.splitOn Letter.isSeparator ls with
  | nil => exact (List.append_nil _).symm
  | cons first more =>
    dsimp only
    rw [hmore, letters_pushPiece, List.append_assoc]
    rfl

theorem letters_add (s : Stretch) : (fs.add s).letters = fs.letters ++ s.kept := by
  cases s with
  | whole ls quoted => exact fs.letters_push ls quoted
  | cut ls => exact fs.letters_pushSplit ls

theorem fields_cut : fs.cut.fields = fs.fields.cut := by
  unfold fields cut Fields.cut
  rw [LetteredField.isPresent_field]
  cases fs.current.isPresent <;> simp [LetteredField.field, LetteredField.empty, Field.empty]

theorem fields_pushPiece (piece : List Letter) :
    (fs.pushPiece piece).fields =
      if (piece.map (·.char)).isEmpty then fs.fields else fs.fields.push (Letter.text piece) false := by
  unfold pushPiece
  cases piece with
  | nil => rfl
  | cons l piece => exact congrArg (Fields.mk _) (fs.current.field_push _ _)

theorem fields_pushSplit (ls : List Letter) :
    (fs.pushSplit ls).fields = fs.fields.pushSplit (Letter.text ls) := by
  have hpieces : Text.splitOn Fields.isSeparator (Letter.text ls).toList =
      (Text.splitOn Letter.isSeparator ls).map (List.map (·.char)) := by
    unfold Letter.text
    rw [String.toList_ofList, Text.splitOn_map]
    rfl
  unfold pushSplit Fields.pushSplit
  rw [hpieces]
  cases Text.splitOn Letter.isSeparator ls with
  | nil => rfl
  | cons first more =>
    rw [List.map_cons]
    dsimp only
    rw [show (if (first.map (·.char)).isEmpty then fs.fields
        else fs.fields.push (String.ofList (first.map (·.char))) false) = (fs.pushPiece first).fields from
      (fs.fields_pushPiece first).symm]
    -- the first piece goes on with the current field, and each other one starts a new field
    generalize fs.pushPiece first = fs
    induction more generalizing fs with
    | nil => rfl
    | cons piece more ih =>
      rw [List.foldl_cons, ih, List.map_cons, List.foldl_cons, fields_pushPiece, fields_cut]
      rfl

theorem fields_add_whole (ls : List Letter) (quoted : Bool) :
    (fs.add (.whole ls quoted)).fields = fs.fields.push (Letter.text ls) quoted :=
  congrArg (Fields.mk _) (fs.current.field_push _ _)

theorem fields_ofValue (ls : List Letter) (quoted : Bool) :
    (fs.add (.ofValue ls quoted)).fields = fs.fields.pushValue (Letter.text ls) quoted := by
  cases quoted with
  | true => exact fs.fields_add_whole ls true
  | false => exact fs.fields_pushSplit ls

end LetteredFields

/-! ## Words -/

namespace Stretch

/-- The fields that the stretches of a word make. -/
def place (ss : List Stretch) : List LetteredField := (ss.foldl LetteredFields.add .empty).cut.done

/-- The letters of the fields are those of the word that are not lost as separators, in order. -/
theorem letters_place (ss : List Stretch) : (place ss).flatMap (·.letters) = ss.flatMap kept := by
  have hsome (fs : LetteredFields) : (ss.foldl LetteredFields.add fs).letters = fs.letters ++ ss.flatMap kept := by
    induction ss generalizing fs with
    | nil => exact (List.append_nil _).symm
    | cons s ss ih => rw [List.foldl_cons, ih, LetteredFields.letters_add, List.append_assoc, List.flatMap_cons]
  have hall := (LetteredFields.letters_cut _).trans (hsome .empty)
  unfold LetteredFields.letters at hall
  simpa [LetteredFields.cut, LetteredFields.empty, LetteredField.empty, LetteredField.letters, place] using hall

end Stretch

/-- The fields of a word are those that its stretches make. -/
theorem parts_eq_stretches (h : Handlers) (word : List Part) (fs : LetteredFields) :
    Run.parts h fs.fields word =
      (fun ss => (ss.foldl LetteredFields.add fs).fields) <$> Lettered.stretches h word := by
  induction word generalizing fs with
  | nil =>
    rw [Run.parts, Lettered.stretches, map_pure]
    rfl
  | cons part rest ih =>
    cases part with
    | literal t quoted =>
      rw [Run.parts, Lettered.stretches]
      have hpush : fs.fields.push t quoted = (fs.add (.whole (Letter.ofText quoted t) quoted)).fields := by
        rw [LetteredFields.fields_add_whole, Letter.text_ofText]
      rw [hpush, ih]
      simp only [List.foldl_cons, map_eq_pure_bind, bind_assoc, pure_bind]
    | param name fallback quoted =>
      rw [Run.parts, Lettered.stretches, Lettered.parameter_eq h quoted]
      simp only [← LetteredFields.fields_ofValue, ih, List.foldl_cons, map_eq_pure_bind, bind_assoc, pure_bind]
    | subst script quoted =>
      rw [Run.parts, Lettered.stretches]
      have hvalue (value : String) : fs.fields.pushValue value quoted =
          (fs.add (.ofValue (Letter.ofText false value) quoted)).fields := by
        rw [LetteredFields.fields_ofValue, Letter.text_ofText]
      simp only [hvalue, ih, List.foldl_cons, map_eq_pure_bind, bind_assoc, pure_bind]

end Taskwork.Shell
