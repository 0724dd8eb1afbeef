/-
The cache as a file. What is found there is decided by the bytes at its path: those of a cache are read
as its options and its registry, and where nothing is there is no cache. What was saved is there
(`bytesAt_save`), and it fits if it is no longer than eight bytes can tell (`tableFits_of_countable`,
`registryFits_of_countable`).
-/
import Taskwork.Cache.Store
import Taskwork.Proofs.Cache.RoundTrip
import Taskwork.Proofs.Files.Whole
import Taskwork.Proofs.Task.Needs

namespace Taskwork.Cache

/-! ## What fits into a cache -/

theorem Countable.of_le {m n : Nat} (h : Countable n) (hle : m ≤ n) : Countable m := Nat.lt_of_le_of_lt hle h

theorem length_encodeText (s : String) : (encodeText s).length = 8 + (Utf8.encode s).length := by
  rw [encodeText, List.length_append, length_encodeNat]

theorem textFits_of_le {s : String} {n : Nat} (hn : Countable n) (hle : (encodeText s).length ≤ n) : TextFits s := by
  rw [length_encodeText] at hle
  exact hn.of_le (by omega)

/-- An item is no longer than the list it is in. -/
theorem length_item_le {α : Type} {write : α → Bytes} {x : α} :
    ∀ {xs : List α}, x ∈ xs → (write x).length ≤ (xs.flatMap write).length
  | y :: xs, h => by
    rw [List.flatMap_cons, List.length_append]
    rcases List.mem_cons.1 h with rfl | h
    · omega
    · have hitem : (write x).length ≤ (xs.flatMap write).length := length_item_le h
      omega

theorem length_le_flatMap {α : Type} {write : α → Bytes} (hpos : ∀ x, 1 ≤ (write x).length) :
    ∀ xs : List α, xs.length ≤ (xs.flatMap write).length
  | [] => Nat.le_refl _
  | x :: xs => by
    have hx := hpos x
    have ih := length_le_flatMap hpos xs
    rw [List.flatMap_cons, List.length_append, List.length_cons]
    omega

theorem length_encodeList {α : Type} (write : α → Bytes) (xs : List α) :
    (encodeList write xs).length = 8 + (xs.flatMap write).length := by
  rw [encodeList, List.length_append, length_encodeNat]

/-- A list fits if its items do where they are no longer than the list. -/
theorem listFits_of_le {α : Type} {write : α → Bytes} {fits : α → Prop} {xs : List α} {n : Nat}
    (hpos : ∀ x, 1 ≤ (write x).length) (hn : Countable n) (hle : (encodeList write xs).length ≤ n)
    (hfits : ∀ x ∈ xs, (write x).length ≤ n → fits x) : ListFits fits xs := by
  rw [length_encodeList] at hle
  have hlength := length_le_flatMap hpos xs
  refine ⟨hn.of_le (by omega), fun x hx => hfits x hx ?_⟩
  have hitem : (write x).length ≤ (xs.flatMap write).length := length_item_le hx
  omega

theorem textsFit_of_le {xs : List String} {n : Nat} (hn : Countable n)
    (hle : (encodeList encodeText xs).length ≤ n) : ListFits TextFits xs :=
  listFits_of_le (fun s => by rw [length_encodeText]; omega) hn hle fun _ _ => textFits_of_le hn

theorem tableFits_of_le {t : Table} {n : Nat} (ht : t.Ordered) (hn : Countable n)
    (hle : (encodeTable t).length ≤ n) : TableFits t := by
  refine ⟨ht, listFits_of_le (fun row => ?_) hn hle fun row _ hrow => ?_⟩
  · rw [List.length_append, length_encodeText]
    omega
  · rw [List.length_append] at hrow
    exact ⟨textFits_of_le hn (by omega), textFits_of_le hn (by omega)⟩

theorem length_encodeTask_pos (t : Task) : 1 ≤ (encodeTask t).length := by
  cases t
  simp only [encodeTask, List.append_assoc, List.length_append, length_encodeText]
  omega

theorem length_le_encodeCommands (cmds : List TaskCommand) : cmds.length ≤ (encodeCommands cmds).length := by
  induction cmds with
  | nil => exact Nat.le_refl _
  | cons cmd rest ih =>
    cases cmd <;> simp only [encodeCommands, List.length_append, List.length_cons, length_encodeNat] <;> omega

mutual

theorem taskFits_of_le {n : Nat} (hn : Countable n) : ∀ t : Task, (∀ u ∈ t.nested, u.env.Ordered) →
    (encodeTask t).length ≤ n → TaskFits t
  | ⟨name, description, visible, base, deps, inputs, outputs, skipIfExists, env, cmds⟩, henv, hle => by
    rw [Task.nested, List.forall_mem_cons] at henv
    simp only [encodeTask, List.length_append, length_encodeNat] at hle
    have hcount := length_le_encodeCommands cmds
    refine ⟨⟨?_, ?_, ?_⟩, ⟨?_, ?_, ?_, ?_⟩, ?_, hn.of_le (by omega), ?_⟩
    · exact textFits_of_le hn (by omega)
    · exact textFits_of_le hn (by omega)
    · exact textFits_of_le hn (by omega)
    · exact textsFit_of_le hn (by omega)
    · exact textsFit_of_le hn (by omega)
    · exact textsFit_of_le hn (by omega)
    · exact textsFit_of_le hn (by omega)
    · exact tableFits_of_le henv.1 hn (by omega)
    · exact commandsFit_of_le hn cmds henv.2 (by omega)

theorem commandsFit_of_le {n : Nat} (hn : Countable n) : ∀ cmds : List TaskCommand,
    (∀ u ∈ Task.nestedIn cmds, u.env.Ordered) → (encodeCommands cmds).length ≤ n → CommandsFit cmds
  | [], _, _ => trivial
  | .script source :: rest, henv, hle => by
    simp only [encodeCommands, List.length_append] at hle
    exact ⟨textFits_of_le hn (by omega), commandsFit_of_le hn rest henv (by omega)⟩
  | .task t :: rest, henv, hle => by
    rw [Task.nestedIn, List.forall_mem_append] at henv
    simp only [encodeCommands, List.length_append] at hle
    exact ⟨taskFits_of_le hn t henv.1 (by omega), commandsFit_of_le hn rest henv.2 (by omega)⟩

end

/-- The tables of a registry are in order, as those are that were made by storing values. -/
structure Ordered (r : Registry) : Prop where
  env : r.env.Ordered
  tasks : ∀ t ∈ r.held, t.env.Ordered

theorem tableFits_of_countable {options : Table} {r : Registry} (ho : options.Ordered)
    (hn : Countable (encode options r).length) : TableFits options := by
  rw [encode, List.length_append] at hn
  exact tableFits_of_le ho hn (by omega)

theorem registryFits_of_countable {options : Table} {r : Registry} (hr : Ordered r)
    (hn : Countable (encode options r).length) : RegistryFits r := by
  rw [encode, encodeRegistry, List.length_append, List.length_append] at hn
  refine ⟨listFits_of_le length_encodeTask_pos hn (by omega) fun t ht hle => ?_,
    tableFits_of_le hr.env hn (by omega)⟩
  exact taskFits_of_le hn t (fun u hu => hr.tasks u (List.mem_flatMap.2 ⟨t, ht, hu⟩)) hle

/-- What was written is read back. -/
theorem decode_encode {options : Table} {r : Registry} (ho : TableFits options) (hr : RegistryFits r)
    (hn : r.names.Nodup) (extra : Bytes) : decode (encode options r ++ extra) = .ok (options, r) := by
  rw [encode, List.append_assoc, decode, (takes_table ho _).bind]
  dsimp only
  rw [(takes_registry hr hn extra).bind]
  rfl

/-! ## Loading -/

theorem load_of_bytesAt {fs : Files} {path : String} {bytes : Bytes} (h : fs.bytesAt path = .ok bytes) :
    load fs path = match decode bytes with
      | .ok content => .ok (some content)
      | .error f => .error (.malformed path f) := by
  obtain ⟨opened, k, after, hopen, hread⟩ := Files.read_of_bytesAt h
  unfold load
  rcases hdecode : decode bytes with f | content <;> simp only [hopen, hread, hdecode]

/-- Reading is not possible where nothing is. -/
theorem openFile_eq_notFound_iff {fs : Files} {path : String} :
    fs.openFile path .read = .error .notFound ↔ fs.bytesAt path = .error .notFound := by
  rw [Files.bytesAt_eq_notFound_iff]
  unfold Files.openFile
  rcases hplace : fs.locate true path with f | ⟨r, _ | n | _ | _⟩ | ⟨r, name⟩ <;>
    simp [bind, Except.bind, pure, Except.pure]

/-- There is no cache where nothing is, and only there. -/
theorem load_eq_none_iff {fs : Files} {path : String} :
    load fs path = .ok none ↔ fs.bytesAt path = .error .notFound := by
  rw [← openFile_eq_notFound_iff]
  unfold load
  split
  · simp [*]
  · rename_i f hf hopen
    simpa [hopen] using hf
  · rename_i hopen
    rw [hopen]
    split
    · simp
    · split <;> simp

theorem encode_ne_nil (options : Table) (r : Registry) : encode options r ≠ [] := by
  intro hnil
  have hlength := congrArg List.length hnil
  rw [encode, List.length_append, encodeTable, length_encodeList] at hlength
  simp at hlength

theorem putBytes_of_save {fs fs' : Files} {path : String} {options : Table} {r : Registry}
    (h : save fs path options r = .ok fs') : fs.putBytes path (encode options r) = .ok fs' := by
  unfold save at h
  cases hput : fs.putBytes path (encode options r) with
  | error f =>
    rw [hput] at h
    cases h
  | ok fs'' =>
    rw [hput] at h
    obtain rfl : fs'' = fs' := Except.ok.inj h
    rfl

/-- What was saved is there, whether there was a cache before or nothing. -/
theorem bytesAt_save {fs fs' : Files} {path : String} {options : Table} {r : Registry} {old : Bytes}
    (hbefore : fs.bytesAt path = .error .notFound ∨ fs.bytesAt path = .ok old ∧ old ≠ [])
    (h : save fs path options r = .ok fs') : fs'.bytesAt path = .ok (encode options r) :=
  Files.bytesAt_putBytes hbefore (putBytes_of_save h)

theorem modified_save {fs fs' : Files} {path : String} {options : Table} {r : Registry}
    (h : save fs path options r = .ok fs') : fs'.modified path = .ok fs'.clock ∧ fs.clock ≤ fs'.clock :=
  Files.modified_putBytes (putBytes_of_save h) (encode_ne_nil options r)

end Taskwork.Cache
