/-
What is written to a cache is read back: the options and the registry that were encoded are decoded,
whatever bytes follow. Each reader is shown to take from the front of the bytes exactly what the
writer of its kind put there (`Takes`); a task is read by the induction that follows how tasks lie
in the commands of other tasks, and a table by storing its rows in order.
-/
import Taskwork.Cache.Layout
import Taskwork.Proofs.Table
import Taskwork.Proofs.Task.Registry
import Taskwork.Proofs.Text.Utf8

namespace Taskwork.Cache

/-! ## What fits into a cache -/

/-- A length that eight bytes tell, as they do of anything that fits into memory. -/
def Countable (n : Nat) : Prop := n < Nat.pow 256 8

def TextFits (s : String) : Prop := Countable (Utf8.encode s).length

def ListFits {α : Type} (fits : α → Prop) (xs : List α) : Prop :=
  Countable xs.length ∧ ∀ x ∈ xs, fits x

/-- A table is in the order of its names, with each name once, as every table is that is made by
storing values (`Table.ordered_ofList`). -/
def TableFits (t : Table) : Prop :=
  t.Ordered ∧ ListFits (fun row => TextFits row.1 ∧ TextFits row.2) t

mutual

/-- Everything in a task fits, and so do the tasks among its commands. -/
def TaskFits : Task → Prop
  | ⟨name, description, _, base, deps, inputs, outputs, skipIfExists, env, cmds⟩ =>
    (TextFits name ∧ TextFits description ∧ TextFits base) ∧
      (ListFits TextFits deps ∧ ListFits TextFits inputs ∧ ListFits TextFits outputs ∧
        ListFits TextFits skipIfExists) ∧
      TableFits env ∧ Countable cmds.length ∧ CommandsFit cmds

def CommandsFit : List TaskCommand → Prop
  | [] => True
  | .script source :: rest => TextFits source ∧ CommandsFit rest
  | .task t :: rest => TaskFits t ∧ CommandsFit rest

end

def RegistryFits (r : Registry) : Prop := ListFits TaskFits r.tasks ∧ TableFits r.env

/-! ## Readers -/

/-- A reader takes `a` from the front of some bytes and leaves `rest`. -/
structure Takes {α : Type} (read : Reader α) (bytes : Bytes) (a : α) (rest : Bytes) : Prop where
  le : rest.length ≤ bytes.length
  eq : read bytes = .ok ⟨a, rest, le⟩

/-- Reading goes on with what a reader took. -/
theorem Takes.bind {α β : Type} {read : Reader α} {bytes rest : Bytes} {a : α}
    (h : Takes read bytes a rest) (go : Taken bytes α → Except Fault β) :
    (read bytes >>= go) = go ⟨a, rest, h.le⟩ := by
  rw [h.eq]; rfl

theorem takes_take (taken rest : Bytes) : Takes (take taken.length) (taken ++ rest) taken rest := by
  refine ⟨by simp, ?_⟩
  unfold take
  rw [if_neg (by simp)]
  simp

theorem length_encodeNat (count n : Nat) : (encodeNat count n).length = count := by
  induction count generalizing n with
  | zero => rfl
  | succ count ih => rw [encodeNat, List.length_cons, ih]

theorem natOfBytes_encodeNat (count : Nat) :
    ∀ n, n < Nat.pow 256 count → natOfBytes (encodeNat count n) = n := by
  induction count with
  | zero => intro n h; exact (Nat.lt_one_iff.1 h).symm
  | succ count ih =>
    intro n h
    have hq : n / 256 < Nat.pow 256 count := by
      rw [Nat.div_lt_iff_lt_mul (by decide)]; exact h
    have hb : (UInt8.ofNat (n % 256)).toNat = n % 256 := Utf8.toNat_ofNat_of_lt (by omega)
    rw [encodeNat, natOfBytes, ih _ hq, hb]
    omega

theorem takes_nat {count n : Nat} (h : n < Nat.pow 256 count) (rest : Bytes) :
    Takes (decodeNat count) (encodeNat count n ++ rest) n rest := by
  have ht := takes_take (encodeNat count n) rest
  rw [length_encodeNat] at ht
  refine ⟨ht.le, ?_⟩
  rw [decodeNat, ht.bind]
  simp only [natOfBytes_encodeNat count n h]
  rfl

theorem takes_text {s : String} (h : TextFits s) (rest : Bytes) :
    Takes decodeText (encodeText s ++ rest) s rest := by
  rw [encodeText, List.append_assoc]
  have hn := takes_nat h (Utf8.encode s ++ rest)
  have ht := takes_take (Utf8.encode s) rest
  refine ⟨Nat.le_trans ht.le hn.le, ?_⟩
  rw [decodeText, hn.bind]
  dsimp only
  rw [ht.bind]
  simp only [Utf8.decode_encode]
  rfl

theorem takes_flag (b : Bool) (rest : Bytes) : Takes decodeFlag (encodeFlag b ++ rest) b rest := by
  cases b <;> exact ⟨by simp [encodeFlag], rfl⟩

/-! ## Lists and tables -/

theorem takes_items {α : Type} {read : Reader α} {write : α → Bytes} {fits : α → Prop}
    (hread : ∀ a, fits a → ∀ rest, Takes read (write a ++ rest) a rest) (rest : Bytes) :
    ∀ xs : List α, (∀ x ∈ xs, fits x) →
      Takes (decodeItems read xs.length) (xs.flatMap write ++ rest) xs rest
  | [], _ => ⟨by simp, rfl⟩
  | x :: xs, h => by
    rw [List.flatMap_cons, List.append_assoc]
    have hx := hread x (h x (List.mem_cons_self ..)) (xs.flatMap write ++ rest)
    have hxs := takes_items hread rest xs fun y hy => h y (List.mem_cons_of_mem _ hy)
    refine ⟨Nat.le_trans hxs.le hx.le, ?_⟩
    rw [List.length_cons, decodeItems, hx.bind]
    dsimp only
    rw [hxs.bind]
    rfl

theorem takes_list {α : Type} {read : Reader α} {write : α → Bytes} {fits : α → Prop}
    (hread : ∀ a, fits a → ∀ rest, Takes read (write a ++ rest) a rest) {xs : List α}
    (h : ListFits fits xs) (rest : Bytes) :
    Takes (decodeList read) (encodeList write xs ++ rest) xs rest := by
  rw [encodeList, List.append_assoc]
  have hn := takes_nat h.1 (xs.flatMap write ++ rest)
  have hxs := takes_items hread rest xs h.2
  refine ⟨Nat.le_trans hxs.le hn.le, ?_⟩
  rw [decodeList, hn.bind]
  dsimp only
  rw [hxs.bind]
  rfl

theorem takes_texts {xs : List String} (h : ListFits TextFits xs) (rest : Bytes) :
    Takes (decodeList decodeText) (encodeList encodeText xs ++ rest) xs rest :=
  takes_list (fun _ => takes_text) h rest

theorem takes_row {row : String × String} (h : TextFits row.1 ∧ TextFits row.2) (rest : Bytes) :
    Takes decodeRow (encodeText row.1 ++ encodeText row.2 ++ rest) row rest := by
  rw [List.append_assoc]
  have hk := takes_text h.1 (encodeText row.2 ++ rest)
  have hv := takes_text h.2 rest
  refine ⟨Nat.le_trans hv.le hk.le, ?_⟩
  rw [decodeRow, hk.bind]
  dsimp only
  rw [hv.bind]
  rfl

theorem takes_table {t : Table} (h : TableFits t) (rest : Bytes) :
    Takes decodeTable (encodeTable t ++ rest) t rest := by
  have ht := takes_list (fun _ => takes_row) h.2 rest
  rw [encodeTable]
  refine ⟨ht.le, ?_⟩
  rw [decodeTable, ht.bind]
  simp only [Table.ofList_of_ordered h.1]
  rfl

/-! ## Tasks -/

theorem takes_script_command {bytes b1 b2 rest : Bytes} {source : String} {cmds : List TaskCommand}
    {count : Nat} (hk : Takes (decodeNat 4) bytes 0 b1) (hs : Takes decodeText b1 source b2)
    (hc : Takes (decodeCommands count) b2 cmds rest) :
    Takes (decodeCommands (count + 1)) bytes (.script source :: cmds) rest := by
  refine ⟨Nat.le_trans hc.le (Nat.le_trans hs.le hk.le), ?_⟩
  rw [decodeCommands]
  -- the kind is read by a match, to which `Takes.bind` does not apply
  split
  · rename_i e he
    cases hk.eq.symm.trans he
  · rename_i kind b1' h1 he
    cases hk.eq.symm.trans he
    rw [if_pos rfl, hs.bind]
    dsimp only
    rw [hc.bind]
    rfl

theorem takes_task_command {bytes b1 b2 rest : Bytes} {t : Task} {cmds : List TaskCommand}
    {count : Nat} (hk : Takes (decodeNat 4) bytes 1 b1) (ht : Takes decodeTask b1 t b2)
    (hc : Takes (decodeCommands count) b2 cmds rest) :
    Takes (decodeCommands (count + 1)) bytes (.task t :: cmds) rest := by
  refine ⟨Nat.le_trans hc.le (Nat.le_trans ht.le hk.le), ?_⟩
  rw [decodeCommands]
  split
  · rename_i e he
    cases hk.eq.symm.trans he
  · rename_i kind b1' h1 he
    cases hk.eq.symm.trans he
    rw [if_neg (by decide), if_pos rfl, ht.bind]
    dsimp only
    rw [hc.bind]
    rfl

mutual

/-- A task lies in the bytes field by field; its commands come last. -/
theorem takes_task : ∀ (t : Task), TaskFits t → ∀ rest, Takes decodeTask (encodeTask t ++ rest) t rest
  | ⟨name, description, visible, base, deps, inputs, outputs, skipIfExists, env, cmds⟩, h, rest => by
    obtain ⟨⟨hname, hdescription, hbase⟩, ⟨hdeps, hinputs, houtputs, hskip⟩, henv, hcount, hcmds⟩ := h
    simp only [encodeTask, List.append_assoc]
    refine ⟨by simp; omega, ?_⟩
    -- each reader leaves the bytes of the fields after its own
    rw [decodeTask, (takes_text hname _).bind]
    dsimp only
    rw [(takes_text hdescription _).bind]
    dsimp only
    rw [(takes_flag visible _).bind]
    dsimp only
    rw [(takes_text hbase _).bind]
    dsimp only
    rw [(takes_texts hdeps _).bind]
    dsimp only
    rw [(takes_texts hinputs _).bind]
    dsimp only
    rw [(takes_texts houtputs _).bind]
    dsimp only
    rw [(takes_texts hskip _).bind]
    dsimp only
    rw [(takes_table henv _).bind]
    dsimp only
    rw [(takes_nat hcount _).bind]
    dsimp only
    rw [(takes_commands cmds hcmds rest).bind]
    rfl

theorem takes_commands : ∀ (cmds : List TaskCommand), CommandsFit cmds → ∀ rest,
    Takes (decodeCommands cmds.length) (encodeCommands cmds ++ rest) cmds rest
  | [], _, rest => ⟨by simp [encodeCommands], by simp [decodeCommands, encodeCommands]⟩
  | .script source :: cmds, h, rest => by
    obtain ⟨hs, hc⟩ := h
    simp only [encodeCommands, List.append_assoc]
    exact takes_script_command (takes_nat (by decide) _) (takes_text hs _) (takes_commands cmds hc rest)
  | .task t :: cmds, h, rest => by
    obtain ⟨ht, hc⟩ := h
    simp only [encodeCommands, List.append_assoc]
    exact takes_task_command (takes_nat (by decide) _) (takes_task t ht _) (takes_commands cmds hc rest)

end

theorem takes_registry {r : Registry} (h : RegistryFits r) (hn : r.names.Nodup) (rest : Bytes) :
    Takes decodeRegistry (encodeRegistry r ++ rest) r rest := by
  rw [encodeRegistry, List.append_assoc]
  have ht := takes_list takes_task h.1 (encodeTable r.env ++ rest)
  have he := takes_table h.2 rest
  refine ⟨Nat.le_trans he.le ht.le, ?_⟩
  rw [decodeRegistry, ht.bind]
  dsimp only
  rw [he.bind]
  simp only [Registry.ofTasks_of_nodup r.env hn]
  rfl

/-! ## The cache -/

/-- The options and the registry that were written are read, whatever bytes follow them: the tasks
with those among their commands, in their order, and so the position of each name, and the
environment. -/
theorem decode_encode_append (options : Table) (changes : List Registry.Change) (extra : Bytes)
    (ho : TableFits options) (hr : RegistryFits (Registry.build changes)) :
    decode (encode options (Registry.build changes) ++ extra) =
      .ok (options, Registry.build changes) := by
  rw [encode, List.append_assoc, decode, (takes_table ho _).bind]
  dsimp only
  rw [(takes_registry hr (Registry.names_nodup_build changes) extra).bind]
  rfl

/-- A task with a task among its commands. -/
def nestedTask : Task :=
  ⟨"all", "", true, "/é", ["gen"], [], ["/out/*"], [], [("A", "1"), ("B", "")],
    [.script "make", .task ⟨"auto#1", "", false, "/", [], [], [], [], [], [.script "rm x"]⟩]⟩

/-- Of the two tasks of one name the second one is given back. -/
def nestedChanges : List Registry.Change :=
  [.insert nestedTask, .insert nestedTask, .setEnv [("C", "2")]]

theorem decode_encode_nested :
    TableFits [("mode", "fast")] ∧ RegistryFits (Registry.build nestedChanges) ∧
      decode (encode [("mode", "fast")] (Registry.build nestedChanges) ++ [255]) =
        .ok ([("mode", "fast")], Registry.build nestedChanges) := by
  have ho : TableFits [("mode", "fast")] := by
    simp [TableFits, ListFits, TextFits, Countable, Table.Ordered]
    decide
  have hb : Registry.build nestedChanges = ⟨[nestedTask], [("C", "2")]⟩ := rfl
  have hlt : "A" < "B" := by decide
  have hr : RegistryFits (Registry.build nestedChanges) := by
    rw [hb]
    simp [RegistryFits, nestedTask, TaskFits, CommandsFit, TableFits, ListFits, TextFits, Countable,
      Table.Ordered, hlt, -String.lt_iff_ltb]
    decide
  exact ⟨ho, hr, decode_encode_append _ _ _ ho hr⟩

end Taskwork.Cache
