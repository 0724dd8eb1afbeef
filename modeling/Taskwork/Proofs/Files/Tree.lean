/-
What a path leads to depends on the entries of the tree and on where relative paths start from, and
on nothing else: not on which files are open, on what is read or on the time.
-/
import Taskwork.Shell.Builtin
import Taskwork.Shell.Field

namespace Taskwork

/-- The same entries, seen from the same directory. -/
structure Files.SameTree (fs fs' : Files) : Prop where
  entries : fs.entries = fs'.entries
  here : fs.here = fs'.here

namespace Files.SameTree

variable {fs fs' : Files}

theorem refl (fs : Files) : SameTree fs fs := ⟨rfl, rfl⟩

theorem entry? (h : SameTree fs fs') (r : Route) : fs.entry? r = fs'.entry? r := by
  unfold Files.entry?
  rw [h.entries]

theorem names (h : SameTree fs fs') (r : Route) : fs.names r = fs'.names r := by
  unfold Files.names
  rw [h.entries]

theorem walk (h : SameTree fs fs') (follow : Bool) (links : Nat) (at_ : Route) (names : List String) :
    fs.walk follow links at_ names = fs'.walk follow links at_ names := by
  fun_induction Files.walk fs follow links at_ names <;>
    (conv => rhs; unfold Files.walk) <;> grind [h.entry?]

theorem locate (h : SameTree fs fs') (follow : Bool) (path : String) :
    fs.locate follow path = fs'.locate follow path := by
  unfold Files.locate Files.origin
  rw [h.here, h.walk]

theorem stat (h : SameTree fs fs') (path : String) : fs.stat path = fs'.stat path := by
  unfold Files.stat
  rw [h.locate]

theorem statLink (h : SameTree fs fs') (path : String) : fs.statLink path = fs'.statLink path := by
  unfold Files.statLink
  rw [h.locate]

theorem exists? (h : SameTree fs fs') (path : String) : fs.exists? path = fs'.exists? path := by
  unfold Files.exists?
  rw [h.stat]

theorem isFile (h : SameTree fs fs') (path : String) : fs.isFile path = fs'.isFile path := by
  unfold Files.isFile
  rw [h.stat]

theorem isDirectory (h : SameTree fs fs') (path : String) : fs.isDirectory path = fs'.isDirectory path := by
  unfold Files.isDirectory
  rw [h.stat]

theorem list (h : SameTree fs fs') (path : String) : fs.list path = fs'.list path := by
  unfold Files.list
  rw [h.locate]
  simp only [h.names]

theorem unary (h : SameTree fs fs') (directory op operand : String) :
    Shell.Builtin.unary fs directory op operand = Shell.Builtin.unary fs' directory op operand := by
  unfold Shell.Builtin.unary
  simp only [h.exists?, h.isFile, h.isDirectory]

theorem evaluate (h : SameTree fs fs') (directory : String) (args : List String) :
    Shell.Builtin.evaluate fs directory args = Shell.Builtin.evaluate fs' directory args := by
  fun_induction Shell.Builtin.evaluate fs directory args <;>
    (conv => rhs; unfold Shell.Builtin.evaluate) <;> simp_all [h.unary]

end Files.SameTree

/-! ## Patterns -/

namespace Glob

open Search

variable {fs fs' : Files} {dots onlyDirectories : Bool}

theorem result_congr (h : fs.SameTree fs') (path : String) :
    result ⟨fs, dots, onlyDirectories⟩ path = result ⟨fs', dots, onlyDirectories⟩ path := by
  unfold result
  rw [h.isDirectory]

theorem isThere_congr (h : fs.SameTree fs') (path : String) :
    isThere ⟨fs, dots, onlyDirectories⟩ path = isThere ⟨fs', dots, onlyDirectories⟩ path := by
  unfold isThere
  rw [h.exists?, h.statLink]

theorem listed_congr (h : fs.SameTree fs') (path : String) :
    listed ⟨fs, dots, onlyDirectories⟩ path = listed ⟨fs', dots, onlyDirectories⟩ path := by
  unfold listed
  rw [h.list]

mutual

theorem below_congr (h : fs.SameTree fs') : ∀ (depth : Nat) (parts : List Pattern) (path : String),
    below ⟨fs, dots, onlyDirectories⟩ depth parts path = below ⟨fs', dots, onlyDirectories⟩ depth parts path
  | 0, parts, path => by
    unfold below
    rfl
  | depth + 1, [], path => by
    unfold below
    exact result_congr h path
  | depth + 1, p :: rest, path => by
    unfold below
    simp only [h.isDirectory, isThere_congr h, listed_congr h, below_congr h depth, atName_congr h depth]

theorem atName_congr (h : fs.SameTree fs') : ∀ (depth : Nat) (parts : List Pattern) (name path : String),
    atName ⟨fs, dots, onlyDirectories⟩ depth parts name path =
      atName ⟨fs', dots, onlyDirectories⟩ depth parts name path
  | 0, parts, name, path => by
    unfold atName
    rfl
  | depth + 1, [], name, path => by
    unfold atName
    rfl
  | depth + 1, p :: rest, name, path => by
    unfold atName
    simp only [h.isDirectory, result_congr h, below_congr h depth]

end

theorem search_congr (h : fs.SameTree fs') (dots : Bool) (pattern : String) :
    search fs dots pattern = search fs' dots pattern := by
  unfold search depthOf
  simp only [h.entries, below_congr h]

end Glob

theorem Shell.Field.arguments_congr {fs fs' : Files} (h : fs.SameTree fs') (directory : String) (f : Field) :
    f.arguments fs directory = f.arguments fs' directory := by
  unfold arguments
  simp only [Glob.search_congr h]

end Taskwork
