/-
Tags in a document. A key leads down one level with each of its parts, and what it leads to is the same without
the tags of the document where no tag is on its way. A tag on the way uses up a part of the key, and at the end of
it hides a scalar: then there is a key with another answer than without the tags, unless the document is a null with
a tag.
-/
import Taskwork.Proofs.Text.Split
import Taskwork.Recipe.Value
import Taskwork.Yaml.Lookup

namespace Taskwork.Yaml

namespace Node

variable {n m below content : Node} {part tag : String} {parts rest : List String} {rows : List (Node × Node)}
  {items : List Node}

/-! ## Ways through a document -/

/-- Parts of a key lead from a node down to another, each of them by one level. -/
inductive Leads : List String → Node → Node → Prop
  | here (n : Node) : Leads [] n n
  | key {part : String} {rest : List String} {rows : List (Node × Node)} {below m : Node}
    (hvalue : valueOf? part rows = some below) (hrest : Leads rest below m) : Leads (part :: rest) (.mapping rows) m
  | item {part : String} {rest : List String} {items : List Node} {i : Nat} {below m : Node}
    (hnumber : itemNumber? part = some i) (hitem : items[i]? = some below) (hrest : Leads rest below m) :
    Leads (part :: rest) (.sequence items) m

/-- It has no tag, nor a key that has one. -/
def IsPlain : Node → Prop
  | .tagged _ _ => False
  | .mapping rows => ∀ row ∈ rows, ∀ tag content, row.1 ≠ .tagged tag content
  | _ => True

/-- There is no tag on the way of a key. -/
def Clear (parts : List String) (n : Node) : Prop := ∀ ps m, ps <+: parts → Leads ps n m → m.IsPlain

theorem Clear.isPlain (h : Clear parts n) : n.IsPlain := h [] n List.nil_prefix (.here n)

theorem leads_of_step (hplain : n.IsPlain) (hstep : n.step part = .ok (some below)) (hrest : Leads rest below m) :
    Leads (part :: rest) n m := by
  cases n with
  | mapping rows => exact .key (Except.ok.inj hstep) hrest
  | sequence items =>
    obtain ⟨i, hnumber, hitem⟩ := Option.bind_eq_some_iff.1 (Except.ok.inj hstep)
    exact .item hnumber hitem hrest
  | tagged => exact hplain.elim
  | _ => cases hstep

theorem clear_nil_iff : Clear [] n ↔ n.IsPlain := by
  constructor
  · exact Clear.isPlain
  · rintro h ps m hps hleads
    obtain rfl := List.prefix_nil.1 hps
    cases hleads
    exact h

/-- There is no tag on the way of a key if there is none where it starts, and none from its first step on. -/
theorem clear_cons_iff :
    Clear (part :: rest) n ↔ n.IsPlain ∧ ∀ below, n.step part = .ok (some below) → Clear rest below := by
  constructor
  · intro h
    refine ⟨h.isPlain, fun below hstep ps m hps hleads => ?_⟩
    exact h _ m ((List.prefix_cons_inj part).2 hps) (leads_of_step h.isPlain hstep hleads)
  · rintro ⟨h, hbelow⟩ ps m hps hleads
    rcases List.prefix_cons_iff.1 hps with rfl | ⟨ps, rfl, hrestPs⟩
    · cases hleads
      exact h
    · cases hleads with
      | key hvalue hrest => exact hbelow _ (congrArg Except.ok hvalue) ps m hrestPs hrest
      | item hnumber hitem hrest => exact hbelow _ (by rw [step, hnumber, Option.bind_some, hitem]) ps m hrestPs hrest

theorem Leads.walk_append (h : Leads parts n m) (more : List String) : n.walk (parts ++ more) = m.walk more := by
  induction h with
  | here => rfl
  | key hvalue _ ih => rw [List.cons_append, walk, step, hvalue, ← ih]
  | item hnumber hitem _ ih =>
    rw [List.cons_append, walk, step, hnumber, ← ih]
    simp [hitem]

/-- Where no tag is on its way, each part of a key leads down one level. -/
theorem walk_eq_some_iff (h : Clear parts n) : n.walk parts = .ok (some m) ↔ Leads parts n m := by
  constructor
  · induction parts generalizing n with
    | nil =>
      rintro ⟨⟩
      exact .here _
    | cons part rest ih =>
      intro hwalk
      rw [walk] at hwalk
      split at hwalk
      · cases hwalk
      · cases hwalk
      · rename_i below hstep
        exact leads_of_step h.isPlain hstep (ih ((clear_cons_iff.1 h).2 below hstep) hwalk)
  · intro hleads
    have hwalk := hleads.walk_append []
    rwa [List.append_nil] at hwalk

/-! ## Without tags -/

theorem untagged_ne_tagged : ∀ n : Node, n.untagged ≠ .tagged tag content
  | .tagged _ c => by
    rw [untagged]
    exact untagged_ne_tagged c
  | .null | .bool _ | .number _ | .text _ | .sequence _ | .mapping _ => by simp [untagged]

theorem valueOf?_untaggedRows (h : (mapping rows).IsPlain) :
    valueOf? part (untaggedRows rows) = (valueOf? part rows).map untagged := by
  induction rows with
  | nil => rfl
  | cons row rows ih =>
    obtain ⟨key, value⟩ := row
    have hrest := ih fun row hrow => h row (List.mem_cons_of_mem _ hrow)
    have hkey : ∀ tag content, key ≠ .tagged tag content := h (key, value) List.mem_cons_self
    cases key with
    | tagged tag content => exact absurd rfl (hkey tag content)
    | text k =>
      simp only [untaggedRows, untagged, valueOf?, hrest]
      split <;> rfl
    | _ => simpa [untaggedRows, untagged, valueOf?] using hrest

theorem getElem?_untaggedItems : ∀ (items : List Node) (i : Nat), (untaggedItems items)[i]? = items[i]?.map untagged
  | [], _ => rfl
  | _ :: _, 0 => rfl
  | _ :: rest, i + 1 => getElem?_untaggedItems rest i

theorem step_untagged (h : n.IsPlain) : n.untagged.step part = (n.step part).map (Option.map untagged) := by
  cases n with
  | mapping rows => exact congrArg Except.ok (valueOf?_untaggedRows h)
  | sequence items =>
    refine congrArg Except.ok ?_
    cases itemNumber? part with
    | none => rfl
    | some i => exact getElem?_untaggedItems items i
  | tagged => exact h.elim
  | _ => rfl

theorem walk_untagged (h : Clear parts n) : n.untagged.walk parts = (n.walk parts).map (Option.map untagged) := by
  induction parts generalizing n with
  | nil => rfl
  | cons part rest ih =>
    rw [walk, walk, step_untagged h.isPlain]
    rcases hstep : n.step part with found | _ | below
    · rfl
    · rfl
    · exact ih ((clear_cons_iff.1 h).2 below hstep)

/-- No mapping that keys lead to has a key with a tag. -/
def KeysPlain (n : Node) : Prop := ∀ ps rows, Leads ps n (.mapping rows) → (mapping rows).IsPlain

theorem Leads.untagged (h : Leads parts n m) (hkeys : n.KeysPlain) : Leads parts n.untagged m.untagged := by
  induction h with
  | here n => exact .here _
  | @key part rest rows below m hvalue _ ih =>
    refine .key ?_ (ih fun ps rows' hleads => hkeys (part :: ps) rows' (.key hvalue hleads))
    rw [valueOf?_untaggedRows (hkeys [] rows (.here _)), hvalue]
    rfl
  | @item part rest items i below m hnumber hitem _ ih =>
    refine .item hnumber ?_ (ih fun ps rows' hleads => hkeys (part :: ps) rows' (.item hnumber hitem hleads))
    rw [getElem?_untaggedItems, hitem]
    rfl

/-- From some length on, no text is a key of a mapping. -/
theorem exists_valueOf?_eq_none (rows : List (Node × Node)) :
    ∃ length, ∀ part : String, length ≤ part.length → valueOf? part rows = none := by
  induction rows with
  | nil => exact ⟨0, fun _ _ => rfl⟩
  | cons row rows ih =>
    obtain ⟨length, hrows⟩ := ih
    obtain ⟨key, value⟩ := row
    cases key with
    | text k =>
      refine ⟨max length (k.length + 1), fun part hpart => ?_⟩
      have hne : k ≠ part := by
        rintro rfl
        omega
      rw [valueOf?, if_neg hne]
      exact hrows part (by omega)
    | _ => exact ⟨length, hrows⟩

/-- Beside a tag, from every node there is a part that leads nowhere. -/
theorem exists_step_ne_some (h : ∀ tag content, n ≠ .tagged tag content) :
    ∃ part, '.' ∉ part.toList ∧ ∀ below, n.step part ≠ .ok (some below) := by
  cases n with
  | tagged tag content => exact absurd rfl (h tag content)
  | mapping rows =>
    obtain ⟨length, hrows⟩ := exists_valueOf?_eq_none rows
    refine ⟨String.ofList (List.replicate length 'x'), by simp, fun below => ?_⟩
    rw [step, hrows _ (by simp)]
    nofun
  | sequence items =>
    have hnumber : itemNumber? "x" = none := by decide
    refine ⟨"x", by decide, fun below => ?_⟩
    rw [step, hnumber]
    nofun
  | _ => exact ⟨"x", by decide, fun below => nofun⟩

/-! ## Keys -/

theorem keyParts_ne_nil (key : String) : keyParts key ≠ [] := by
  simp [keyParts, Text.splitOn_ne_nil]

theorem not_mem_of_mem_keyParts {key : String} (h : part ∈ keyParts key) : '.' ∉ part.toList := by
  obtain ⟨piece, hpiece, rfl⟩ := List.mem_map.1 h
  intro hdot
  have hmem := Text.mem_splitOn hpiece (by simpa using hdot)
  simp at hmem

theorem dotless (h : '.' ∉ part.toList) : ∀ c ∈ part.toList, (c == '.') = false := by
  intro c hc
  simpa using ne_of_mem_of_not_mem hc h

theorem keyParts_of_not_mem (h : '.' ∉ part.toList) : keyParts part = [part] := by
  rw [keyParts, Text.splitOn_of_forall (dotless h)]
  simp

theorem keyParts_append (h : '.' ∉ part.toList) (key : String) :
    keyParts (part ++ "." ++ key) = part :: keyParts key := by
  have hsplit := Text.splitOn_append_cons (dotless h) (a := '.') rfl key.toList
  rw [keyParts, keyParts, String.toList_append, String.toList_append, List.append_assoc]
  simp [hsplit]

/-- Parts without dots are those of a key. -/
theorem exists_keyParts_eq : ∀ {ps : List String}, ps ≠ [] → (∀ part ∈ ps, '.' ∉ part.toList) →
    ∃ key, keyParts key = ps
  | [], h, _ => absurd rfl h
  | [part], _, h => ⟨part, keyParts_of_not_mem (h part List.mem_cons_self)⟩
  | part :: second :: rest, _, h => by
    obtain ⟨key, hkey⟩ := exists_keyParts_eq (List.cons_ne_nil second rest)
      fun p hp => h p (List.mem_cons_of_mem _ hp)
    exact ⟨part ++ "." ++ key, by rw [keyParts_append (h part List.mem_cons_self), hkey]⟩

/-! ## Answers -/

/-- What is found under a key: nothing, something that is no scalar, or a value. -/
def answer (key : String) (n : Node) : Except LookupFault (Option (Option Recipe.Value)) :=
  (n.lookup key).map (Option.map Recipe.Value.ofScalar?)

theorem answer_of_error {key : String} (h : n.walk (keyParts key) = .error m) :
    answer key n = .error ⟨key, m⟩ := by
  rw [answer, lookup, h]
  rfl

theorem answer_of_none {key : String} (h : n.walk (keyParts key) = .ok none) : answer key n = .ok none := by
  rw [answer, lookup, h]
  rfl

theorem answer_of_null {key : String} (h : n.walk (keyParts key) = .ok (some .null)) : answer key n = .ok none := by
  rw [answer, lookup, h]
  rfl

theorem answer_of_some {key : String} (h : n.walk (keyParts key) = .ok (some m)) (hm : m ≠ .null) :
    answer key n = .ok (some (Recipe.Value.ofScalar? m)) := by
  rw [answer, lookup, h]
  cases m with
  | null => exact absurd rfl hm
  | _ => rfl

/-- Where no tag is on the way of a key, its answer is that without tags. -/
theorem answer_untagged {key : String} (h : Clear (keyParts key) n) : answer key n.untagged = answer key n := by
  have hwalk := walk_untagged h
  rcases hend : n.walk (keyParts key) with found | _ | m <;> rw [hend] at hwalk
  · rw [answer_of_error hend, answer_of_error hwalk]
  · rw [answer_of_none hend, answer_of_none hwalk]
  · have hplain := h _ m (List.prefix_refl _) ((walk_eq_some_iff h).1 hend)
    cases m with
    | null => rw [answer_of_null hend, answer_of_null hwalk]
    | tagged => exact hplain.elim
    | _ =>
      rw [answer_of_some hend (by simp), answer_of_some hwalk (by simp [untagged])]
      rfl

theorem answer_null (key : String) : answer key .null = .ok none := by
  refine answer_of_none ?_
  obtain ⟨part, rest, hparts⟩ := List.exists_cons_of_ne_nil (keyParts_ne_nil key)
  rw [hparts]
  rfl

/-- The tag of a null uses up the one part that there is, at least. -/
theorem answer_tagged_null (key : String) : answer key (.tagged tag .null) = .ok none := by
  rcases hparts : keyParts key with _ | ⟨part, _ | ⟨second, rest⟩⟩
  · exact absurd hparts (keyParts_ne_nil key)
  · exact answer_of_null (by rw [hparts]; rfl)
  · exact answer_of_none (by rw [hparts]; rfl)

/-- A tag on the way of a key changes an answer. -/
theorem exists_answer_ne (hkeys : n.KeysPlain) (hleads : Leads parts n (.tagged tag content))
    (hparts : ∀ part ∈ parts, '.' ∉ part.toList) (hsome : parts ≠ [] ∨ content ≠ .null) :
    ∃ key, answer key n.untagged ≠ answer key n := by
  have hbelow : Leads parts n.untagged content.untagged := hleads.untagged hkeys
  by_cases hnull : content = .null
  · -- the null is found without the tag, and is nothing
    subst hnull
    obtain ⟨key, hkey⟩ := exists_keyParts_eq (hsome.resolve_right (not_not_intro rfl)) hparts
    refine ⟨key, ?_⟩
    have hn := hleads.walk_append []
    have hu := hbelow.walk_append []
    rw [List.append_nil, ← hkey] at hn hu
    rw [answer_of_some hn (by simp), answer_of_null hu]
    nofun
  · -- one more part is used up by the tag, and leads nowhere without it
    obtain ⟨part, hpart, hstep⟩ := exists_step_ne_some (n := content.untagged) fun _ _ => untagged_ne_tagged content
    have hdotless : ∀ p ∈ parts ++ [part], '.' ∉ p.toList := by
      rintro p hp
      rcases List.mem_append.1 hp with hp | hp
      · exact hparts p hp
      · exact List.mem_singleton.1 hp ▸ hpart
    obtain ⟨key, hkey⟩ := exists_keyParts_eq (by simp) hdotless
    refine ⟨key, ?_⟩
    have hn := hleads.walk_append [part]
    have hu := hbelow.walk_append [part]
    rw [← hkey] at hn hu
    rw [answer_of_some hn hnull]
    rw [walk] at hu
    rcases hend : content.untagged.step part with found | _ | below <;> rw [hend] at hu
    · rw [answer_of_error hu]
      nofun
    · rw [answer_of_none hu]
      nofun
    · exact absurd hend (hstep below)

/-- **Tags are transparent where none is on the way of a key.** Where a key meets no tag its answer is that of the
document without tags, and each of its parts leads down one level of a mapping or a sequence. In a document whose
mappings have no keys with tags, every key is answered so only if none meets a tag, unless the document is a null
with a tag. -/
theorem tags_transparent_iff (n : Node) :
    (∀ key, Clear (keyParts key) n → answer key n.untagged = answer key n ∧
      ∀ m, n.walk (keyParts key) = .ok (some m) ↔ Leads (keyParts key) n m) ∧
    (n.KeysPlain → ((∀ key, answer key n.untagged = answer key n) ↔
      (∀ key, Clear (keyParts key) n) ∨ ∃ tag, n = .tagged tag .null)) := by
  refine ⟨fun key h => ⟨answer_untagged h, fun m => walk_eq_some_iff h⟩, ?_⟩
  intro hkeys
  constructor
  · intro hall
    refine or_iff_not_imp_right.2 fun hroot key ps m hps hleads => ?_
    cases m with
    | mapping rows => exact hkeys ps rows hleads
    | tagged tag content =>
      obtain ⟨key', hne⟩ := exists_answer_ne hkeys hleads
        (fun part hpart => not_mem_of_mem_keyParts (hps.subset hpart)) (by
          refine or_iff_not_imp_left.2 fun hnil hnull => ?_
          obtain rfl : ps = [] := not_not.1 hnil
          cases hleads
          exact hroot ⟨tag, by rw [hnull]⟩)
      exact hne (hall key')
    | _ => trivial
  · rintro (hclear | ⟨tag, rfl⟩) key
    · exact answer_untagged (hclear key)
    · rw [answer_tagged_null]
      exact answer_null key

/-- A document with a tag beside the way of `a.b`. -/
def besideTag : Node := .mapping [(.text "a", .mapping [(.text "b", .text "x"), (.text "c", .tagged "!t" .null)])]

theorem answer_besideTag :
    Clear (keyParts "a.b") besideTag ∧ answer "a.b" besideTag = .ok (some (some (.text "x"))) ∧
      answer "a.b" besideTag.untagged = answer "a.b" besideTag := by
  have hclear : Clear (keyParts "a.b") besideTag := by
    rw [show keyParts "a.b" = ["a", "b"] by decide]
    refine clear_cons_iff.2 ⟨by simp [besideTag, IsPlain], ?_⟩
    rintro _ ⟨⟩
    refine clear_cons_iff.2 ⟨by simp [IsPlain], ?_⟩
    rintro _ ⟨⟩
    exact clear_nil_iff.2 trivial
  exact ⟨hclear, rfl, ((tags_transparent_iff besideTag).1 "a.b" hclear).1⟩

/-- A document with a tag on the way of `a.b`. -/
def onTag : Node := .mapping [(.text "a", .tagged "!t" (.mapping [(.text "b", .text "x")]))]

/-- The tag uses up the second part of `a.b`, which leads to the mapping and not to what is in it. -/
theorem answer_onTag :
    answer "a.b" onTag = .ok (some none) ∧ answer "a.b" onTag.untagged = .ok (some (some (.text "x"))) ∧
      ¬ ∀ n key, answer key n.untagged = answer key n := by
  have hn : answer "a.b" onTag = .ok (some none) := rfl
  have hu : answer "a.b" onTag.untagged = .ok (some (some (.text "x"))) := rfl
  refine ⟨hn, hu, fun hall => ?_⟩
  have hab := hall onTag "a.b"
  rw [hn, hu] at hab
  cases hab

end Node
end Taskwork.Yaml
