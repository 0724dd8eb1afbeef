/-
What the commands of one stage of a pipeline read. A file that is open at a handle is read once:
the first command that reads it gets its content, and the ones after it get nothing. What comes
from a pipe is handed to every command of the stage anew, and each one that reads gets all of it.
So a stage runs as it does with its input from a file if one of its commands at most reads.
-/
import Taskwork.Proofs.Files.Offset
import Taskwork.Proofs.Shell.Pairing
import Taskwork.Proofs.Shell.Status

namespace Taskwork

/-- The same call with another input. -/
def Program.Call.reading (call : Call) (input : Input) : Call :=
  { call with wiring := { call.wiring with stdin := input } }

namespace Shell

/-! ## Programs that read -/

/-- Something done on a host that neither notices nor moves the offset of the file at a handle. -/
def Apart {α : Type} (inv : Host → Prop) (k : Nat) (act : Host → Host × α) : Prop :=
  ∀ H, inv H → inv (act H).1 ∧ ∀ i, act (H.seek k i) = ((act H).1.seek k i, (act H).2)

/-- Programs of which some, those that `reads` tells, read their input to its end and the others
leave it alone, and a file that stands open at a handle. As long as `inv` is true of the host, the
file holds `content`, and only a program that is given the handle has to do with it. -/
structure Supplies (h : Handlers) (reads : List String → Bool) (inv : Host → Prop) (k : Nat)
    (content : Bytes) : Prop where
  seek : ∀ {H} i, inv H → inv (H.seek k i)
  offset : ∀ {H} i, inv H → (H.seek k i).offset k = i
  /-- What is still to be read of the file is what stands behind its offset. -/
  left : ∀ {H}, inv H →
    H.files.readRest k = .ok (H.files.seek k (max (H.offset k) content.length), content.drop (H.offset k))
  printOut : ∀ {H} bytes, inv H → inv (H.printOut bytes)
  printErr : ∀ {H} bytes, inv H → inv (H.printErr bytes)
  writeTo : ∀ {H j} bytes, j ≠ k → inv H → inv (H.writeTo j bytes)
  openFile : ∀ directory path mode, Apart inv k (h.openFile directory path mode)
  opened : ∀ {H} directory path mode, inv H → (h.openFile directory path mode H).2 ≠ .ok k
  exec : ∀ call, call.wiring.stdin ≠ .file k → call.wiring.stdout ≠ .file k → call.wiring.stderr ≠ .file k →
    Apart inv k (h.exec call)
  /-- A program that does not read has nothing to do with its input. -/
  idle : ∀ call H, reads call.words = false → h.exec call H = h.exec (call.reading .null) H
  /-- A program that reads does with an open file what it does with the bytes that are left of it. -/
  reading : ∀ call j H files rest, reads call.words = true → call.wiring.stdin = .file j →
    H.files.readRest j = .ok (files, rest) → h.exec call H = h.exec (call.reading (.bytes rest)) { H with files }

/-- The failure of a command that wants to read where there is no piece left. -/
def spent : Program.Failure := ⟨"", .refused⟩

/-- The same handlers, where the input at a handle comes in pieces: the commands that read it get
one each, in turn, and a command for which there is none left is not run. The offset of the handle
tells how many have been given out. -/
def Handlers.serving (h : Handlers) (reads : List String → Bool) (k : Nat) (pieces : Nat → Option Bytes) :
    Handlers :=
  { h with exec := fun call H =>
      if call.wiring.stdin = .file k then
        if reads call.words then
          match pieces (H.offset k) with
          | some piece => h.exec (call.reading (.bytes piece)) (H.seek k (H.offset k + 1))
          | none => (H, .error spent)
        else h.exec (call.reading .null) H
      else h.exec call H }

variable {h : Handlers} {reads : List String → Bool} {inv : Host → Prop} {k : Nat} {content : Bytes}

namespace Supplies

variable {α : Type}

theorem offset_apart (hs : Supplies h reads inv k content) {act : Host → Host × α} (hact : Apart inv k act)
    {H : Host} (hH : inv H) : (act H).1.offset k = H.offset k := by
  have hmoved := (hact H hH).2 (H.offset k)
  have hself : H.seek k (H.offset k) = H := congrArg (fun files => { H with files }) (H.files.seek_offset k)
  rw [hself] at hmoved
  have hfixed := congrArg (fun x => x.1.offset k) hmoved
  exact hfixed.trans (hs.offset _ (hact H hH).1)

end Supplies

/-! ## Pieces and what they stand for -/

/-- A shell whose commands get pieces of input from a handle, and one whose commands have `source`
instead. `R` relates how many pieces have been given out to the offset of the handle. -/
def piecewise (inv : Host → Prop) (k : Nat) (pieces : Nat → Option Bytes) (source : Source)
    (R : Nat → Nat → Prop) (errexit : Bool) : Pairing where
  hosts H H' := inv H ∧ ∃ j, R (H.offset k) j ∧ H' = H.seek k j
  sources s s' := s ≠ .file k ∧ s' = s ∨ s = .file k ∧ s' = source
  sinks s := s ≠ .file k
  waived f := f = spent ∧ ∃ i, pieces i = none
  errexit := errexit
  errexit' := errexit

namespace piecewise

variable {pieces : Nat → Option Bytes} {source : Source} {R : Nat → Nat → Prop} {errexit : Bool} {α : Type}

theorem apart (hs : Supplies h reads inv k content) {act : Host → Host × α} (hact : Apart inv k act)
    {H H' : Host} (hH : (piecewise inv k pieces source R errexit).hosts H H') :
    (act H).2 = (act H').2 ∧ (piecewise inv k pieces source R errexit).hosts (act H).1 (act H').1 := by
  obtain ⟨hinv, j, hR, rfl⟩ := hH
  rw [(hact H hinv).2 j]
  refine ⟨rfl, (hact H hinv).1, j, ?_, rfl⟩
  rw [hs.offset_apart hact hinv]
  exact hR

theorem apart_writeTo (hs : Supplies h reads inv k content) {j : Nat} (hj : j ≠ k) (bytes : Bytes) :
    Apart inv k fun H => (H.writeTo j bytes, ()) := by
  refine fun H hH => ⟨hs.writeTo bytes hj hH, fun i => ?_⟩
  exact congrArg (fun files => ({ H with files }, ())) (H.files.writeTo_seek hj i bytes)

theorem output_ne {sink : Sink} (hsink : sink ≠ .file k) (own : Sink) : sink.output own ≠ .file k := by
  unfold Sink.output
  split
  · nofun
  · rename_i j
    intro heq
    cases heq
    exact hsink rfl
  · nofun
  · split <;> nofun

theorem input_ne {source : Source} (hsource : source ≠ .file k) : source.input ≠ .file k := by
  cases source with
  | file j =>
    intro heq
    cases heq
    exact hsource rfl
  | null => nofun
  | inherit => nofun
  | bytes content => nofun

/-- A command that reads from `source` gets what it gets from the handle: the piece that is next. -/
def Delivers (h : Handlers) (reads : List String → Bool) (inv : Host → Prop) (k : Nat)
    (pieces : Nat → Option Bytes) (source : Source) (R : Nat → Nat → Prop) : Prop :=
  ∀ (call : Program.Call) (H : Host) (j : Nat) (piece : Bytes), inv H → R (H.offset k) j →
    pieces (H.offset k) = some piece → reads call.words = true →
    ∃ j', R (H.offset k + 1) j' ∧
      h.exec (call.reading source.input) (H.seek k j) = h.exec (call.reading (.bytes piece)) (H.seek k j')

theorem exec_handle (hs : Supplies h reads inv k content) (hdelivers : Delivers h reads inv k pieces source R)
    (call : Program.Call) (hin : call.wiring.stdin = .file k) (hout : call.wiring.stdout ≠ .file k)
    (herr : call.wiring.stderr ≠ .file k) {H H' : Host}
    (hH : (piecewise inv k pieces source R errexit).hosts H H') :
    (piecewise inv k pieces source R errexit).Answers ((h.serving reads k pieces).exec call H)
      (h.exec (call.reading source.input) H') := by
  have hexec (input : Program.Input) (hinput : input ≠ .file k) : Apart inv k (h.exec (call.reading input)) :=
    hs.exec _ hinput hout herr
  unfold Handlers.serving
  simp only [if_pos hin]
  by_cases hreads : reads call.words = true
  · obtain ⟨hinv, j, hR, rfl⟩ := hH
    simp only [if_pos hreads]
    cases hpiece : pieces (H.offset k) with
    | none => exact .inl ⟨spent, ⟨rfl, _, hpiece⟩, rfl⟩
    | some piece =>
      -- both run on the same bytes, and the hosts differ in the offset as they did before
      obtain ⟨j', hR', hsame⟩ := hdelivers call H j piece hinv hR hpiece hreads
      have hapart := hexec (.bytes piece) nofun H hinv
      simp only [hsame, hapart.2]
      refine .inr ⟨rfl, hs.seek _ hapart.1, j', ?_, ?_⟩
      · rw [hs.offset _ hapart.1]
        exact hR'
      · exact congrArg (fun files => { (h.exec (call.reading (.bytes piece)) H).1 with files })
          (Files.seek_seek _ k _ j').symm
  · -- a command that does not read does not notice which input it has
    have hidle : reads (call.reading source.input).words = false := Bool.eq_false_iff.mpr hreads
    rw [if_neg hreads, hs.idle _ H' hidle]
    exact .inr (apart hs (hexec .null nofun) hH)

/-- The two shells keep together. -/
theorem kept (hs : Supplies h reads inv k content) (hdelivers : Delivers h reads inv k pieces source R) :
    (piecewise inv k pieces source R errexit).Kept (h.serving reads k pieces) h where
  tree := by
    rintro H _ ⟨-, j, -, rfl⟩
    exact H.files.sameTree_seek k j
  printOut := by
    rintro H _ bytes ⟨hinv, j, hR, rfl⟩
    exact ⟨hs.printOut bytes hinv, j, hR, rfl⟩
  printErr := by
    rintro H _ bytes ⟨hinv, j, hR, rfl⟩
    exact ⟨hs.printErr bytes hinv, j, hR, rfl⟩
  writeTo j bytes hj hH := (apart hs (apart_writeTo hs (fun h => hj (congrArg Sink.file h)) bytes) hH).2
  null := .inl ⟨nofun, rfl⟩
  bytes _ := .inl ⟨nofun, rfl⟩
  capture := nofun
  openFile := by
    intro H H' directory path mode hH
    obtain ⟨hresult, hhosts⟩ := apart hs (hs.openFile directory path mode) hH
    refine ⟨hresult, hhosts, fun j hj => ?_⟩
    have hne : j ≠ k := by
      rintro rfl
      exact hs.opened directory path mode hH.1 hj
    exact ⟨.inl ⟨fun h => hne (Source.file.inj h), rfl⟩, fun h => hne (Sink.file.inj h)⟩
  exec := by
    rintro H H' ⟨stdin, out, err⟩ ⟨stdin', out', err'⟩ directory env words hH hwired
    obtain ⟨hsource, hstdout, hstderr, hout, herr⟩ := hwired
    obtain rfl : out = out' := hstdout
    obtain rfl : err = err' := hstderr
    have hcases : stdin ≠ .file k ∧ stdin' = stdin ∨ stdin = .file k ∧ stdin' = source := hsource
    rcases hcases with ⟨hne, rfl⟩ | ⟨rfl, rfl⟩
    · -- another input, which both have
      have hinput : stdin'.input ≠ .file k := input_ne hne
      unfold Handlers.serving Pairing.wiring
      simp only [if_neg hinput]
      exact .inr (apart hs (hs.exec _ hinput (output_ne hout _) (output_ne herr _)) hH)
    · exact exec_handle hs hdelivers
        ⟨directory, env, words, ⟨.file k, out.output .stdout, err.output .stderr⟩⟩ rfl
        (output_ne hout _) (output_ne herr _) hH

end piecewise

/-! ## Stages -/

/-- Two runs come to the same, but for how far the file at a handle has been read. -/
structure SameBut (k : Nat) (x y : Except Stop Int × World) : Prop where
  result : x.1 = y.1
  world : ∃ i, y.2 = { x.2 with host := x.2.host.seek k i }

namespace SameBut

variable {x y z : Except Stop Int × World}

/-- Runs that are the same as a third one. -/
theorem join (hxy : SameBut k x y) (hxz : SameBut k x z) : SameBut k y z := by
  obtain ⟨i, hi⟩ := hxy.world
  obtain ⟨j, hj⟩ := hxz.world
  refine ⟨hxy.result.symm.trans hxz.result, j, ?_⟩
  rw [hj, hi]
  exact congrArg (fun files => { x.2 with host := { x.2.host with files } }) (Files.seek_seek _ k i j).symm

end SameBut

/-- A `cat`, whose output is passed on for it, on a host where one file is open at a time. -/
def catHandlers : Handlers where
  exec call H :=
    if call.words = ["cat"] then
      match Program.readInput H call.wiring.stdin with
      | .ok (H, input) => (H, .ok ⟨0, input, []⟩)
      | .error _ => (H, .ok ⟨1, [], []⟩)
    else (H, .ok ⟨127, [], []⟩)
  openFile directory path mode H :=
    if H.files.opened.isEmpty then Handlers.openDirect directory path mode H else (H, .error .notFound)

/-- One file is open, and holds some bytes. -/
def OneOpen (content : Bytes) (H : Host) : Prop :=
  ∃ offset atEnd, H.files.opened = [.file 0 offset atEnd] ∧ (H.files.content 0).bytes = content

namespace OneOpen

variable {H : Host}

theorem seek (hH : OneOpen content H) (i : Nat) : OneOpen content (H.seek 0 i) := by
  obtain ⟨_, atEnd, hopened, hcontent⟩ := hH
  refine ⟨i, atEnd, ?_, hcontent⟩
  show H.files.opened.modify 0 (·.at i) = _
  rw [hopened]
  rfl

theorem readRest (hH : OneOpen content H) : H.files.readRest 0 =
    .ok (H.files.seek 0 (max (H.offset 0) content.length), content.drop (H.offset 0)) := by
  obtain ⟨_, _, hopened, rfl⟩ := hH
  unfold Files.readRest Host.offset Files.offset Files.seek
  rw [hopened]
  rfl

theorem openFile (directory path : String) (mode : OpenMode) (hH : OneOpen content H) :
    catHandlers.openFile directory path mode H = (H, .error .notFound) := by
  obtain ⟨_, _, hopened, -⟩ := hH
  unfold catHandlers
  simp only [hopened]
  rfl

end OneOpen

end Shell
end Taskwork
