/-
A cache that was not written to its end is no cache. Each reader needs all the bytes that the writer of
its kind put down for a value (`Needs`): with them it takes the value, whatever follows, and with only a
beginning of them it says that the bytes end too early. So the readers of fields, lists and tasks are
followed in their order up to the one in whose bytes the cache was cut.
-/
import Taskwork.Proofs.Cache.RoundTrip
import Taskwork.Proofs.Cache.Store

namespace Taskwork.Cache

/-! ## Bytes that were cut -/

/-- The bytes `p` are a beginning of `bytes`, and some are missing. -/
def Cut (p bytes : Bytes) : Prop := ∃ q, q ≠ [] ∧ p ++ q = bytes

namespace Cut

variable {p a b : Bytes}

theorem length_lt (h : Cut p a) : p.length < a.length := by
  obtain ⟨q, hq, rfl⟩ := h
  have hpos := List.length_pos_of_ne_nil hq
  rw [List.length_append]
  omega

/-- Two stretches of bytes are cut in the first one or in the second one. -/
theorem append (h : Cut p (a ++ b)) : Cut p a ∨ ∃ p', p = a ++ p' ∧ Cut p' b := by
  obtain ⟨q, hq, hpq⟩ := h
  rcases List.append_eq_append_iff.1 hpq with ⟨c, rfl, rfl⟩ | ⟨c, rfl, rfl⟩
  · -- where the first one is there to its end, the second one has not begun
    by_cases hc : c = []
    · subst hc
      exact .inr ⟨[], by simp, b, hq, rfl⟩
    · exact .inl ⟨c, hc, rfl⟩
  · exact .inr ⟨c, rfl, q, hq, rfl⟩

end Cut

/-! ## Readers -/

/-- A reader takes `a` where all of `bytes` are there, and no less will do. -/
structure Needs {α : Type} (read : Reader α) (bytes : Bytes) (a : α) : Prop where
  takes : ∀ rest, Takes read (bytes ++ rest) a rest
  short : ∀ p, Cut p bytes → read p = .error .endOfInput

namespace Needs

variable {α β : Type} {read : Reader α} {bytes more p : Bytes} {a : α}

/-- Reading ends where the bytes of the first reader are cut. -/
theorem bind_short (h : Needs read bytes a) (hp : Cut p bytes) (go : Taken p α → Except Fault β) :
    (read p >>= go) = .error .endOfInput := by
  rw [h.short p hp]
  rfl

/-- Reading ends early where the first reader's bytes are cut, or goes on with a cut of what follows. -/
theorem bind (h : Needs read bytes a) (hp : Cut p (bytes ++ more)) (go : Taken p α → Except Fault β)
    (hgo : ∀ p' le, Cut p' more → go ⟨a, p', le⟩ = .error .endOfInput) :
    (read p >>= go) = .error .endOfInput := by
  rcases hp.append with hp | ⟨p', rfl, hp'⟩
  · exact h.bind_short hp go
  · rw [(h.takes p').bind]
    exact hgo p' _ hp'

end Needs

theorem needs_take (taken : Bytes) : Needs (take taken.length) taken taken where
  takes rest := takes_take taken rest
  short p hp := by
    unfold take
    rw [if_pos hp.length_lt]

theorem needs_nat {count n : Nat} (h : n < Nat.pow 256 count) :
    Needs (decodeNat count) (encodeNat count n) n where
  takes rest := takes_nat h rest
  short p hp := by
    have ht := needs_take (encodeNat count n)
    rw [length_encodeNat] at ht
    rw [decodeNat]
    exact ht.bind_short hp _

theorem needs_text {s : String} (h : TextFits s) : Needs decodeText (encodeText s) s where
  takes rest := takes_text h rest
  short p hp := by
    rw [decodeText]
    exact (needs_nat h).bind hp _ fun p' _ hp' => (needs_take _).bind_short hp' _

theorem needs_flag (b : Bool) : Needs decodeFlag (encodeFlag b) b where
  takes rest := takes_flag b rest
  short p hp := by
    have hlt : p.length < 1 := hp.length_lt
    obtain rfl : p = [] := List.length_eq_zero_iff.1 (by omega)
    rfl

/-! ## Lists and tables -/

theorem needs_items {α : Type} {read : Reader α} {write : α → Bytes} :
    ∀ xs : List α, (∀ x ∈ xs, Needs read (write x) x) →
      Needs (decodeItems read xs.length) (xs.flatMap write) xs
  | [], _ => ⟨fun rest => ⟨by simp, rfl⟩, fun p hp => absurd hp.length_lt (Nat.not_lt_zero _)⟩
  | x :: xs, h => by
    have hx := h x List.mem_cons_self
    have hxs := needs_items xs fun y hy => h y (List.mem_cons_of_mem _ hy)
    refine ⟨fun rest => ?_, fun p hp => ?_⟩
    · have htakes (y : α) (hy : y ∈ x :: xs) : ∀ rest, Takes read (write y ++ rest) y rest := (h y hy).takes
      exact takes_items htakes rest (x :: xs) fun _ hy => hy
    · rw [List.flatMap_cons] at hp
      rw [List.length_cons, decodeItems]
      exact hx.bind hp _ fun p' _ hp' => hxs.bind_short hp' _

theorem needs_list {α : Type} {read : Reader α} {write : α → Bytes} {xs : List α}
    (hcount : Countable xs.length) (h : ∀ x ∈ xs, Needs read (write x) x) :
    Needs (decodeList read) (encodeList write xs) xs where
  takes rest :=
    have htakes (x : α) (hx : x ∈ xs) : ∀ rest, Takes read (write x ++ rest) x rest := (h x hx).takes
    takes_list htakes ⟨hcount, fun _ hx => hx⟩ rest
  short p hp := by
    rw [decodeList]
    exact (needs_nat hcount).bind hp _ fun p' _ hp' => (needs_items xs h).bind_short hp' _

theorem needs_texts {xs : List String} (h : ListFits TextFits xs) :
    Needs (decodeList decodeText) (encodeList encodeText xs) xs :=
  needs_list h.1 fun x hx => needs_text (h.2 x hx)

theorem needs_row {row : String × String} (h : TextFits row.1 ∧ TextFits row.2) :
    Needs decodeRow (encodeText row.1 ++ encodeText row.2) row where
  takes rest := takes_row h rest
  short p hp := by
    rw [decodeRow]
    exact (needs_text h.1).bind hp _ fun p' _ hp' => (needs_text h.2).bind_short hp' _

theorem needs_table {t : Table} (h : TableFits t) : Needs decodeTable (encodeTable t) t where
  takes rest := takes_table h rest
  short p hp := by
    rw [decodeTable]
    exact (needs_list h.2.1 fun row hrow => needs_row (h.2.2 row hrow)).bind_short hp _

/-! ## Tasks -/

/-- A command is cut in its kind, in what is kept of it, or later. -/
theorem short_script_command {p : Bytes} {source : String} {cmds : List TaskCommand} {more : Bytes}
    (hs : Needs decodeText (encodeText source) source)
    (hc : ∀ p', Cut p' more → decodeCommands cmds.length p' = .error .endOfInput)
    (hp : Cut p (encodeNat 4 0 ++ (encodeText source ++ more))) :
    decodeCommands (cmds.length + 1) p = .error .endOfInput := by
  have hkind : Needs (decodeNat 4) (encodeNat 4 0) 0 := needs_nat (by decide)
  rw [decodeCommands]
  rcases hp.append with hp | ⟨p', rfl, hp'⟩
  · split
    · rename_i e he
      exact congrArg _ (Except.error.inj (he.symm.trans (hkind.short p hp)))
    · rename_i he
      cases he.symm.trans (hkind.short p hp)
  · have htaken := (hkind.takes p').eq
    split
    · rename_i e he
      cases htaken.symm.trans he
    · rename_i he
      cases htaken.symm.trans he
      rw [if_pos rfl]
      refine hs.bind hp' _ fun p'' _ hp'' => ?_
      dsimp only
      rw [hc p'' hp'']
      rfl

theorem short_task_command {p : Bytes} {t : Task} {cmds : List TaskCommand} {more : Bytes}
    (ht : Needs decodeTask (encodeTask t) t)
    (hc : ∀ p', Cut p' more → decodeCommands cmds.length p' = .error .endOfInput)
    (hp : Cut p (encodeNat 4 1 ++ (encodeTask t ++ more))) :
    decodeCommands (cmds.length + 1) p = .error .endOfInput := by
  have hkind : Needs (decodeNat 4) (encodeNat 4 1) 1 := needs_nat (by decide)
  rw [decodeCommands]
  rcases hp.append with hp | ⟨p', rfl, hp'⟩
  · split
    · rename_i e he
      exact congrArg _ (Except.error.inj (he.symm.trans (hkind.short p hp)))
    · rename_i he
      cases he.symm.trans (hkind.short p hp)
  · have htaken := (hkind.takes p').eq
    split
    · rename_i e he
      cases htaken.symm.trans he
    · rename_i he
      cases htaken.symm.trans he
      rw [if_neg (by decide), if_pos rfl]
      refine ht.bind hp' _ fun p'' _ hp'' => ?_
      dsimp only
      rw [hc p'' hp'']
      rfl

mutual

/-- A task is cut in one of its fields. -/
theorem needs_task : ∀ t : Task, TaskFits t → Needs decodeTask (encodeTask t) t
  | ⟨name, description, visible, base, deps, inputs, outputs, skipIfExists, env, cmds⟩, h => by
    refine ⟨takes_task _ h, fun p hp => ?_⟩
    obtain ⟨⟨hname, hdescription, hbase⟩, ⟨hdeps, hinputs, houtputs, hskip⟩, henv, hcount, hcmds⟩ := h
    simp only [encodeTask, List.append_assoc] at hp
    rw [decodeTask]
    refine (needs_text hname).bind hp _ fun p1 _ hp => ?_
    refine (needs_text hdescription).bind hp _ fun p2 _ hp => ?_
    refine (needs_flag visible).bind hp _ fun p3 _ hp => ?_
    refine (needs_text hbase).bind hp _ fun p4 _ hp => ?_
    refine (needs_texts hdeps).bind hp _ fun p5 _ hp => ?_
    refine (needs_texts hinputs).bind hp _ fun p6 _ hp => ?_
    refine (needs_texts houtputs).bind hp _ fun p7 _ hp => ?_
    refine (needs_texts hskip).bind hp _ fun p8 _ hp => ?_
    refine (needs_table henv).bind hp _ fun p9 _ hp => ?_
    refine (needs_nat hcount).bind hp _ fun p10 _ hp => ?_
    dsimp only
    rw [short_commands cmds hcmds p10 hp]
    rfl

theorem short_commands : ∀ cmds : List TaskCommand, CommandsFit cmds → ∀ p, Cut p (encodeCommands cmds) →
    decodeCommands cmds.length p = .error .endOfInput
  | [], _, p, hp => absurd hp.length_lt (Nat.not_lt_zero _)
  | .script source :: cmds, h, p, hp => by
    rw [encodeCommands, List.append_assoc] at hp
    exact short_script_command (needs_text h.1) (short_commands cmds h.2) hp
  | .task t :: cmds, h, p, hp => by
    rw [encodeCommands, List.append_assoc] at hp
    exact short_task_command (needs_task t h.1) (short_commands cmds h.2) hp

end

theorem short_registry {r : Registry} (h : RegistryFits r) {p : Bytes} (hp : Cut p (encodeRegistry r)) :
    decodeRegistry p = .error .endOfInput := by
  have htasks : Needs (decodeList decodeTask) (encodeList encodeTask r.tasks) r.tasks :=
    needs_list h.1.1 fun t ht => needs_task t (h.1.2 t ht)
  rw [decodeRegistry]
  exact htasks.bind hp _ fun p' _ hp' => (needs_table h.2).bind_short hp' _

/-! ## The cache -/

theorem short_cache {options : Table} {r : Registry} (ho : TableFits options) (hr : RegistryFits r)
    {p : Bytes} (hp : Cut p (encode options r)) : decode p = .error .endOfInput := by
  rw [decode]
  refine (needs_table ho).bind hp _ fun p' _ hp' => ?_
  dsimp only
  rw [short_registry hr hp']
  rfl

/-- **A truncated cache is rejected.** A file that holds a beginning of a cache without its end is
malformed: its bytes end too early. -/
theorem load_truncated (fs : Files) (path : String) (options : Table) (r : Registry) (p q : Bytes)
    (ho : TableFits options) (hr : RegistryFits r) (hpq : p ++ q = encode options r) (hq : q ≠ [])
    (hfile : fs.bytesAt path = .ok p) : load fs path = .error (.malformed path .endOfInput) := by
  rw [load_of_bytesAt hfile, short_cache ho hr ⟨q, hq, hpq⟩]

/-- A cache whose writing was stopped within the task that is nested in another one. -/
def stoppedCache : Bytes := (encode [("mode", "fast")] ⟨[nestedTask], [("C", "2")]⟩).take 250

def stoppedFiles : Files := ⟨[([], .directory 0), (["c"], .file 0)], [⟨stoppedCache, 0⟩], [], 0, []⟩

theorem load_stopped :
    stoppedFiles.bytesAt "/c" = .ok stoppedCache ∧
      load stoppedFiles "/c" = .error (.malformed "/c" .endOfInput) := by
  have hlocate : stoppedFiles.locate true "/c" = .ok (.found ["c"] (.file 0)) := by
    unfold Files.locate Files.walk
    rfl
  have hfile : stoppedFiles.bytesAt "/c" = .ok stoppedCache :=
    Files.bytesAt_eq_ok_iff.2 (.inl ⟨_, _, hlocate, rfl⟩)
  have hn : (encode [("mode", "fast")] ⟨[nestedTask], [("C", "2")]⟩).length < Nat.pow 256 8 := by decide +kernel
  have hr : Ordered ⟨[nestedTask], [("C", "2")]⟩ := by
    refine ⟨by simp [Table.Ordered], ?_⟩
    have hlt : "A" < "B" := by decide
    simp [Registry.held, Task.nested, Task.nestedIn, nestedTask, Table.Ordered, hlt, -String.lt_iff_ltb]
  refine ⟨hfile, load_truncated _ _ _ _ _ _ (tableFits_of_countable (by simp [Table.Ordered]) hn)
    (registryFits_of_countable hr hn) (List.take_append_drop 250 _) ?_ hfile⟩
  decide +kernel

end Taskwork.Cache
