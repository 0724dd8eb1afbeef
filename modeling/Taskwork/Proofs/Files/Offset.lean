/-
How far an open file has been read. Those who hold one number share one offset; moving it touches
neither the tree nor the contents, nor what is done with the other open files.
-/
import Taskwork.Host
import Taskwork.Proofs.Files.Tree

namespace Taskwork

/-- The same open file at an offset. -/
def Opened.at (o : Opened) (offset : Nat) : Opened :=
  match o with
  | .file content _ atEnd => .file content offset atEnd
  | o => o

namespace Files

/-- The offset of an open file. -/
def offset (fs : Files) (k : Nat) : Nat :=
  match fs.opened[k]? with
  | some (.file _ offset _) => offset
  | _ => 0

/-- Moves the offset of an open file. -/
def seek (fs : Files) (k offset : Nat) : Files := { fs with opened := fs.opened.modify k (·.at offset) }

variable (fs : Files)

theorem seek_seek (k i j : Nat) : (fs.seek k i).seek k j = fs.seek k j := by
  have hat : (fun o : Opened => (o.at i).at j) = (·.at j) := by
    funext o
    cases o <;> rfl
  unfold seek
  rw [List.modify_modify_eq]
  exact congrArg (fun f => { fs with opened := fs.opened.modify k f }) hat

theorem seek_offset (k : Nat) : fs.seek k (fs.offset k) = fs := by
  have hsame : fs.opened.modify k (·.at (fs.offset k)) = fs.opened := by
    refine List.ext_getElem? fun j => ?_
    rw [List.getElem?_modify]
    split
    · rename_i hj
      subst hj
      unfold offset
      cases fs.opened[k]? with
      | none => rfl
      | some o => cases o <;> rfl
    · simp
  unfold seek
  rw [hsame]

theorem sameTree_seek (k i : Nat) : fs.SameTree (fs.seek k i) := ⟨rfl, rfl⟩

theorem opened_seek {j k : Nat} (h : j ≠ k) (i : Nat) : (fs.seek k i).opened[j]? = fs.opened[j]? := by
  unfold seek
  rw [List.getElem?_modify]
  simp [Ne.symm h]

theorem writeTo_seek {j k : Nat} (h : j ≠ k) (i : Nat) (bytes : Bytes) :
    (fs.seek k i).writeTo j bytes = (fs.writeTo j bytes).seek k i := by
  have hset (o : Opened) : (fs.opened.modify k (·.at i)).set j o = (fs.opened.set j o).modify k (·.at i) := by
    refine List.ext_getElem? fun m => ?_
    simp only [List.getElem?_modify, List.getElem?_set, List.length_modify]
    grind
  unfold writeTo
  rw [opened_seek fs h]
  split
  · rfl
  · split
    · exact congrArg (fun opened => { fs.setBytes _ _ with opened }) (hset _)
    · rfl

end Files

namespace Host

def offset (h : Host) (k : Nat) : Nat := h.files.offset k

def seek (h : Host) (k offset : Nat) : Host := { h with files := h.files.seek k offset }

end Host
end Taskwork
