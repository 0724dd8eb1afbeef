/-
The way from one place to another. What two paths start with in common is their greatest common beginning. The way up
out of what the base has alone takes its names back one by one, the way down adds what the path has alone; so the way
from a base, resolved from the base, leads to the path (`FromRoot.exists_leadsFrom`). What a path has alone below a
directory was written behind the directory (`mem_moves_of_mem_drop_join`).
-/
import Taskwork.Proofs.Path.Fragments
import Mathlib.Data.List.Induction

namespace Taskwork.Path

open Component (IsName)

/-! ## Common beginnings -/

section CommonPart

variable {α β : Type} [DecidableEq α] [DecidableEq β]

theorem commonPart_nil_right (as : List α) : commonPart as [] = [] := by
  cases as <;> rfl

theorem commonPart_prefix_left (as bs : List α) : commonPart as bs <+: as := by
  induction as generalizing bs with
  | nil => exact List.nil_prefix
  | cons a as ih =>
    cases bs with
    | nil => exact List.nil_prefix
    | cons b bs =>
      rw [commonPart]
      split
      · exact List.cons_prefix_cons.2 ⟨rfl, ih bs⟩
      · exact List.nil_prefix

theorem commonPart_comm (as bs : List α) : commonPart as bs = commonPart bs as := by
  induction as generalizing bs with
  | nil => exact (commonPart_nil_right bs).symm
  | cons a as ih =>
    cases bs with
    | nil => rfl
    | cons b bs =>
      rw [commonPart, commonPart, ih bs]
      by_cases h : a = b
      · rw [if_pos h, if_pos h.symm, h]
      · rw [if_neg h, if_neg (Ne.symm h)]

theorem commonPart_prefix_right (as bs : List α) : commonPart as bs <+: bs :=
  commonPart_comm as bs ▸ commonPart_prefix_left bs as

/-- Nothing longer is a beginning of both lists. -/
theorem prefix_commonPart {as bs l : List α} (ha : l <+: as) (hb : l <+: bs) : l <+: commonPart as bs := by
  obtain ⟨more, rfl⟩ := ha
  induction l generalizing bs with
  | nil => exact List.nil_prefix
  | cons x l ih =>
    obtain ⟨others, rfl⟩ := hb
    rw [List.cons_append, List.cons_append, commonPart, if_pos rfl]
    exact List.cons_prefix_cons.2 ⟨rfl, ih ⟨others, rfl⟩⟩

theorem commonPart_map {f : α → β} (hf : f.Injective) (as bs : List α) :
    commonPart (as.map f) (bs.map f) = (commonPart as bs).map f := by
  induction as generalizing bs with
  | nil => rfl
  | cons a as ih =>
    cases bs with
    | nil => rfl
    | cons b bs =>
      rw [List.map_cons, List.map_cons, commonPart, commonPart, ih bs]
      by_cases h : a = b
      · rw [if_pos h, if_pos (congrArg f h), List.map_cons]
      · rw [if_neg h, if_neg (hf.ne h), List.map_nil]

end CommonPart

/-- What two paths from the root have in common is the root and the names that both start with. -/
theorem commonPart_root (as bs : List String) :
    commonPart (.root :: as.map .name) (.root :: bs.map .name) = .root :: (commonPart as bs).map Component.name := by
  have hname : Function.Injective Component.name := fun _ _ => Component.name.inj
  rw [commonPart, if_pos rfl, commonPart_map hname]

/-! ## Ways -/

/-- Resolved from a base, a text that is not absolute leads to a path. -/
structure LeadsFrom (base word path : String) : Prop where
  relative : isAbsolute word = false
  leads : clean (join base word) = path

/-- As many steps up as there are names take them back. -/
theorem foldl_cleanStep_back (names : List String) (steps : List Component) :
    (List.replicate names.length Component.up).foldl cleanStep (names.map .name ++ steps) = steps := by
  induction names with
  | nil => rfl
  | cons n names ih =>
    rw [List.length_cons, List.replicate_succ, List.foldl_cons]
    exact ih

/-- Some steps as they are written, if they are the way to somewhere. -/
def way (steps : List Component) : String := if steps.isEmpty then "." else ofComponents steps

theorem way_spec {steps : List Component} (hsteps : ∀ c ∈ steps, c.IsMove) :
    isAbsolute (way steps) = false ∧ moves (way steps) = steps := by
  unfold way
  split
  · rename_i hnone
    obtain rfl := List.isEmpty_iff.1 hnone
    exact ⟨by decide, rfl⟩
  · exact ⟨not_isAbsolute_ofComponents hsteps, moves_ofComponents hsteps⟩

/-- The way up out of what a base has alone, then down into what a path has alone. -/
def steps (out down : List String) : List Component := List.replicate out.length .up ++ down.map .name

/-- The steps lead from the one list of names to the other. -/
theorem foldl_cleanStep_steps (shared out down : List String) (lead : List Component) :
    (steps out down).foldl cleanStep (((shared ++ out).map .name).reverse ++ lead) =
      ((shared ++ down).map .name).reverse ++ lead := by
  have hback := foldl_cleanStep_back out.reverse ((shared.map .name).reverse ++ lead)
  rw [List.length_reverse, List.map_reverse, ← List.append_assoc, ← List.reverse_append, ← List.map_append] at hback
  rw [steps, List.foldl_append, hback, foldl_cleanStep_names, ← List.append_assoc, ← List.reverse_append,
    ← List.map_append]

theorem relative?_root {shared out down : List String}
    (hshared : commonPart (shared ++ out) (shared ++ down) = shared) (hbase : ∀ n ∈ shared ++ out, IsName n)
    (hpath : ∀ n ∈ shared ++ down, IsName n) :
    relative? (ofComponents (.root :: (shared ++ out).map .name)) (ofComponents (.root :: (shared ++ down).map .name)) =
      some (way (steps out down)) := by
  unfold relative? way steps
  rw [components_ofComponents_root (isMove_of_mem_map hbase), components_ofComponents_root (isMove_of_mem_map hpath)]
  dsimp only
  rw [commonPart_root, hshared]
  simp

/-- From a clean absolute path there is a way to any other one. -/
theorem FromRoot.exists_leadsFrom {base path : String} (hbase : FromRoot base) (hpath : FromRoot path) :
    ∃ word, relative? base path = some word ∧ LeadsFrom base word path := by
  have hclean := hpath.clean_eq
  obtain ⟨bases, hbases, rfl⟩ := hbase
  obtain ⟨names, hnames, rfl⟩ := hpath
  obtain ⟨out, hout⟩ := commonPart_prefix_left bases names
  obtain ⟨down, hdown⟩ := commonPart_prefix_right bases names
  generalize hshared : commonPart bases names = shared at hout hdown
  subst hout hdown
  have hsteps : ∀ c ∈ steps out down, c.IsMove := fun c hc =>
    isMove_of_mem_ups (isMove_of_mem_map fun n hn => hnames n (List.mem_append_right shared hn)) hc
  obtain ⟨hrelative, hmoves⟩ := way_spec hsteps
  refine ⟨way (steps out down), relative?_root hshared hbases hnames, hrelative, ?_⟩
  rw [← hclean]
  apply clean_congr
  rw [trail_join hrelative, hmoves, trail_ofComponents_root hbases, trail_ofComponents_root hnames]
  exact foldl_cleanStep_steps shared out down [.root]

/-! ## What was written behind a directory -/

section Behind

variable {a b path : String} {c : Component} {start : List Component}

theorem cleanStep_cases (steps : List Component) (c : Component) :
    cleanStep steps c = c :: steps ∨ cleanStep steps c = steps ∨ cleanStep steps c = steps.tail := by
  unfold cleanStep
  split <;> simp

/-- Steps take back some of the last ones that were there, and what they add is some of them. -/
theorem exists_foldl_cleanStep (cs steps : List Component) :
    ∃ added kept, cs.foldl cleanStep steps = added ++ kept ∧ kept <:+ steps ∧ ∀ c ∈ added, c ∈ cs := by
  induction cs using List.reverseRecOn with
  | nil => exact ⟨[], steps, rfl, List.suffix_rfl, nofun⟩
  | append_singleton cs c ih =>
    obtain ⟨added, kept, hfold, hkept, hadded⟩ := ih
    have hmore : ∀ d ∈ added, d ∈ cs ++ [c] := fun d hd => List.mem_append_left _ (hadded d hd)
    rw [List.foldl_append, hfold, List.foldl_cons, List.foldl_nil]
    rcases cleanStep_cases (added ++ kept) c with h | h | h <;> rw [h]
    · refine ⟨c :: added, kept, rfl, hkept, ?_⟩
      simpa using hmore
    · exact ⟨added, kept, rfl, hkept, hmore⟩
    · -- a step back takes what was added last, else one of those that were there
      cases added with
      | nil => exact ⟨[], kept.tail, rfl, (List.tail_suffix kept).trans hkept, nofun⟩
      | cons d added => exact ⟨added, kept, rfl, hkept, fun e he => hmore e (List.mem_cons_of_mem _ he)⟩

namespace FromRoot

theorem components_eq (h : FromRoot path) : components path = (trail path).reverse := by
  obtain ⟨names, hnames, rfl⟩ := h
  rw [trail_ofComponents_root hnames, components_ofComponents_root (isMove_of_mem_map hnames)]
  simp

/-- Below what a path has in common with another one it has moves that were made from there. -/
theorem mem_moves_of_mem_drop (h : FromRoot path) (htrail : trail path = (moves b).foldl cleanStep start)
    (hstart : start.reverse <+: components a)
    (hc : c ∈ (components path).drop (commonPart (components a) (components path)).length) : c ∈ moves b := by
  obtain ⟨added, kept, hfold, hkept, hadded⟩ := exists_foldl_cleanStep (moves b) start
  have hsteps : components path = kept.reverse ++ added.reverse := by
    rw [h.components_eq, htrail, hfold, List.reverse_append]
  -- what is kept of the start belongs to both paths
  have hcommon : kept.reverse <+: commonPart (components a) (components path) :=
    prefix_commonPart ((List.reverse_prefix.2 hkept).trans hstart) (hsteps ▸ List.prefix_append _ _)
  obtain ⟨more, hmore⟩ := (List.drop_suffix_drop_left (components path) hcommon.length_le)
  have hmem : c ∈ (components path).drop kept.reverse.length := hmore ▸ List.mem_append_right _ hc
  rw [hsteps, List.drop_left, List.mem_reverse] at hmem
  exact hadded c hmem

/-- A path from the root, taken apart behind what it has in common with another one. -/
theorem exists_names (ha : FromRoot a) (h : FromRoot path) : ∃ shared down : List String,
    (∀ n ∈ shared ++ down, IsName n) ∧ path = ofComponents (.root :: (shared ++ down).map .name) ∧
      components path = .root :: (shared ++ down).map .name ∧
      commonPart (components a) (components path) = .root :: shared.map .name := by
  obtain ⟨above, habove, rfl⟩ := ha
  obtain ⟨names, hnames, rfl⟩ := h
  obtain ⟨down, hdown⟩ := commonPart_prefix_right above names
  refine ⟨commonPart above names, down, ?_⟩
  rw [components_ofComponents_root (isMove_of_mem_map habove), components_ofComponents_root (isMove_of_mem_map hnames),
    commonPart_root, hdown]
  exact ⟨hnames, rfl, rfl, rfl⟩

end FromRoot

theorem mem_of_mem_moves (h : c ∈ moves path) {x : Char} (hx : x ∈ c.text.toList) : x ∈ path.toList := by
  obtain ⟨p, hp, rfl⟩ := List.mem_map.1 h
  have hmem : x ∈ p := by
    split at hx
    · rename_i hup
      rw [beq_iff_eq.1 hup]
      simpa [Component.text] using hx
    · simpa [Component.text] using hx
  have hflat : x ∈ (pieces path.toList).flatten := List.mem_flatten.2 ⟨p, (List.mem_filter.1 hp).1, hmem⟩
  unfold pieces at hflat
  rw [Text.flatten_splitOn] at hflat
  exact (List.mem_filter.1 hflat).1

/-- Below what it has in common with a directory, a path has moves that were written behind the directory. -/
theorem mem_moves_of_mem_drop_join (ha : isAbsolute a = true)
    (hc : c ∈ (components (clean (join a b))).drop
      (commonPart (components (clean a)) (components (clean (join a b)))).length) : c ∈ moves b := by
  have hfrom : FromRoot (clean a) := fromRoot_clean_of_isAbsolute ha
  have hjoin : FromRoot (clean (join a b)) := fromRoot_clean_of_isAbsolute (isAbsolute_join_left ha b)
  cases hb : isAbsolute b with
  | false =>
    have htrail : trail (clean (join a b)) = (moves b).foldl cleanStep (trail a) := by rw [trail_clean, trail_join hb]
    have hstart : (trail a).reverse = components (clean a) := by rw [hfrom.components_eq, trail_clean]
    exact hjoin.mem_moves_of_mem_drop htrail (hstart ▸ List.prefix_rfl) hc
  | true =>
    have hself : join a b = b := by
      unfold join
      rw [if_pos hb]
    have htrail : trail (clean (join a b)) = (moves b).foldl cleanStep [.root] := by
      rw [trail_clean, hself, trail_eq, if_pos hb]
    refine hjoin.mem_moves_of_mem_drop htrail ?_ hc
    obtain ⟨names, hnames, hclean⟩ := hfrom
    rw [hclean, components_ofComponents_root (isMove_of_mem_map hnames)]
    exact ⟨_, rfl⟩

end Behind

end Taskwork.Path
