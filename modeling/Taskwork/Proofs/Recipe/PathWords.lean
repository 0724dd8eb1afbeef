/-
Paths in lists of words. An absolute path is written as the way to it from the directory of the task, so what the
command of the list is given leads to the path from there. The directory of a task is absolute and clean where its
recipe and project are absolute, and it is the one in which the commands of the task begin.
-/
import Taskwork.Execution.Basic
import Taskwork.Proofs.Path.Relative
import Taskwork.Proofs.Recipe.Declared
import Taskwork.Proofs.Recipe.Words

namespace Taskwork

namespace Path

variable {path : String}

theorem fromRoot_iff : FromRoot path ↔ isAbsolute path = true ∧ clean path = path := by
  constructor
  · intro h
    exact ⟨h.isAbsolute, h.clean_eq⟩
  · rintro ⟨habs, hclean⟩
    rw [← hclean]
    exact fromRoot_clean_of_isAbsolute habs

/-- The directory above an absolute path is absolute. -/
theorem isAbsolute_of_parent? {above : String} (habs : isAbsolute path = true) (h : parent? path = some above) :
    isAbsolute above = true := by
  obtain ⟨rest, hrest⟩ := List.head?_eq_some_iff.1 (beq_iff_eq.1 habs)
  have hstart : start path.toList = (some .root, rest) := by rw [hrest]; rfl
  unfold parent? at h
  rw [hstart] at h
  dsimp only at h
  split at h
  · cases h
  · cases h
    simp [isAbsolute, Component.text]

end Path

namespace Recipe

open Shell (quote)
open Taskwork.Path (FromRoot LeadsFrom isAbsolute clean)

theorem Site.isAbsolute_directory {site : Site} (hscript : isAbsolute site.script = true)
    (hproject : isAbsolute site.projectRoot = true) : isAbsolute site.directory = true := by
  unfold directory
  cases habove : Path.parent? site.script with
  | none => exact hproject
  | some above => exact Path.isAbsolute_of_parent? hscript habove

/-- The directory of a described task is absolute and clean. -/
theorem Draft.fromRoot_base {d : Draft} {rows : List (String × Value)} {t : Task} (h : d.taskOf rows = .ok t)
    (hscript : isAbsolute d.site.script = true) (hproject : isAbsolute d.site.projectRoot = true) :
    FromRoot t.base := by
  obtain ⟨⟨fragment, hbase⟩, -, -⟩ := taskOf_cases h
  rw [hbase]
  exact Path.fromRoot_resolve (Site.isAbsolute_directory hscript hproject) hproject [fragment]

/-! ## The line of a list, word by word -/

/-- How the entries of a list are written. -/
def parts (base : String) (entries : List Entry) : List String :=
  (bindings entries).map Shell.Binding.text ++ (arguments entries).map fun e => quote (e.text base)

theorem wordLine_parts (base : String) {entries : List Entry} (hne : entries ≠ []) :
    wordLine base (entries.map Entry.value) = .ok (" ".intercalate (parts base entries)) := by
  rw [wordLine, if_neg (by simpa using hne), quotedWords_true]
  rfl

/-- A path stands among the words behind the assignments. -/
theorem getElem?_arguments {entries : List Entry} {j : ℕ} {path : String} (h : entries[j]? = some (.path path)) :
    (bindings entries).length ≤ j ∧ (arguments entries)[j - (bindings entries).length]? = some (.path path) := by
  induction entries generalizing j with
  | nil => simp at h
  | cons e es ih =>
    cases hb : e.binding? with
    | none =>
      obtain ⟨hbindings, harguments⟩ := bindings_cons_none hb es
      simpa [hbindings, harguments] using h
    | some b =>
      obtain ⟨hbindings, harguments⟩ := bindings_cons_some hb es
      rw [hbindings, harguments]
      cases j with
      | zero =>
        -- a path is no assignment
        obtain rfl : e = .path path := by simpa using h
        cases hb
      | succ j =>
        obtain ⟨hle, hget⟩ := ih h
        exact ⟨Nat.succ_le_succ hle, by simpa using hget⟩

theorem getElem?_parts {base : String} {entries : List Entry} {j : ℕ} {path : String}
    (h : entries[j]? = some (.path path)) : (parts base entries)[j]? = some (quote (pathWord base path)) := by
  obtain ⟨hle, hget⟩ := getElem?_arguments h
  rw [parts, List.getElem?_append_right (by simpa using hle), List.getElem?_map, List.length_map, hget]
  rfl

/-- A list that becomes a line has only strings and paths in it. -/
theorem exists_entries_of_quotedWords {base : String} {leading : Bool} {words : List Value} {quoted : List String}
    (h : quotedWords base leading words = .ok quoted) : ∃ entries, words = List.map Entry.value entries := by
  induction words generalizing leading quoted with
  | nil => exact ⟨[], rfl⟩
  | cons v rest ih =>
    cases v with
    | text s =>
      rw [quotedWords] at h
      split at h <;> obtain ⟨more, hmore, -⟩ := exists_of_bind_ok h <;> obtain ⟨entries, rfl⟩ := ih hmore
      · exact ⟨.string s :: entries, rfl⟩
      · exact ⟨.string s :: entries, rfl⟩
    | path p =>
      rw [quotedWords] at h
      obtain ⟨more, hmore, -⟩ := exists_of_bind_ok h
      obtain ⟨entries, rfl⟩ := ih hmore
      exact ⟨.path p :: entries, rfl⟩
    | _ =>
      unfold quotedWords at h
      cases h

theorem exists_entries_of_wordLine {base line : String} {words : List Value} (h : wordLine base words = .ok line) :
    ∃ entries, words = List.map Entry.value entries ∧ line = " ".intercalate (parts base entries) := by
  have hline := h
  unfold wordLine at h
  split at h
  · cases h
  · rename_i hne
    obtain ⟨quoted, hquoted, -⟩ := exists_of_bind_ok h
    obtain ⟨entries, rfl⟩ := exists_entries_of_quotedWords hquoted
    rw [wordLine_parts base (by simpa using hne)] at hline
    cases hline
    exact ⟨entries, rfl, rfl⟩

theorem eq_path_of_value {e : Entry} {path : String} (h : e.value = .path path) : e = .path path := by
  cases e with
  | string s => cases h
  | path p =>
    cases h
    rfl

/-- The word at a place of the line that a list becomes. It is written quoted, and a command that the list reaches is
given it as it is, whatever the state and the files are. -/
structure HasWord (base : String) (entries : List Entry) (line : String) (j : ℕ) (word : String) : Prop where
  written : ∃ parts, line = " ".intercalate parts ∧ parts[j]? = some (quote word)
  given : Verbatim base entries → ∃ assigns words text n,
    Shell.Script.ofString line = .ok [⟨⟨false, [.simple assigns words []]⟩, [], text, n⟩] ∧
      ∀ (h : Shell.Handlers) (w : Shell.World), ∃ args, Shell.Run.fields h words w = (.ok args, w) ∧
        args[j - (bindings entries).length]? = some word

theorem hasWord_pathWord {base : String} {entries : List Entry} {j : ℕ} {path : String}
    (h : entries[j]? = some (.path path)) :
    HasWord base entries (" ".intercalate (parts base entries)) j (pathWord base path) := by
  constructor
  · exact ⟨_, rfl, getElem?_parts h⟩
  · rintro ⟨source, assigns, words, text, n, hsource, hscript, hrun⟩
    have hne : entries ≠ [] := by
      rintro rfl
      simp at h
    rw [wordLine_parts base hne] at hsource
    cases hsource
    refine ⟨assigns, words, text, n, hscript, fun handlers w => ⟨_, (hrun handlers w).2, ?_⟩⟩
    rw [List.getElem?_map, (getElem?_arguments h).2]
    rfl

/-- An absolute path is written as a way to it. -/
theorem leadsFrom_pathWord {base path : String} (hbase : FromRoot base) (hpath : FromRoot path) :
    LeadsFrom base (pathWord base path) path := by
  obtain ⟨word, hword, hleads⟩ := hbase.exists_leadsFrom hpath
  unfold pathWord
  rwa [if_pos hpath.isAbsolute, hword]

/-! ## Lists of words in a task -/

/-- A list among the commands of a task is the script of its line. -/
theorem exists_line_of_commandsFrom {name base : String} {words : List Value} :
    ∀ {items : List Value} {index i : ℕ} {cmds : List TaskCommand},
      commandsFrom name base index items = .ok cmds → items[i]? = some (.array words) →
        ∃ line, wordLine base words = .ok line ∧ cmds[i]? = some (.script line)
  | [], _, _, _, _, hitem => by simp at hitem
  | v :: rest, index, i, cmds, h, hitem => by
    unfold commandsFrom at h
    obtain ⟨first, hfirst, h⟩ := exists_of_bind_ok h
    obtain ⟨others, hothers, h⟩ := exists_of_bind_ok h
    cases h
    cases i with
    | succ i =>
      have hrest := exists_line_of_commandsFrom hothers hitem
      exact hrest
    | zero =>
      obtain rfl : v = .array words := by simpa using hitem
      unfold commandOf at hfirst
      dsimp only at hfirst
      split at hfirst
      · rename_i line hline
        unfold checkedScript at hfirst
        split at hfirst
        · cases hfirst
          exact ⟨line, hline, rfl⟩
        · cases hfirst
      · cases hfirst

theorem exists_line_of_taskOf {d : Draft} {rows : List (String × Value)} {t : Task} (h : d.taskOf rows = .ok t)
    {items words : List Value} (hitems : Value.lookup "cmds" rows = some (.array items)) {i : ℕ}
    (hitem : items[i]? = some (.array words)) :
    ∃ line, wordLine t.base words = .ok line ∧ t.cmds[i]? = some (.script line) := by
  obtain ⟨-, hcmds, -⟩ := Draft.taskOf_cases h
  unfold TaskKeys.commands at hcmds
  rw [hitems] at hcmds
  dsimp only at hcmds
  rcases hfrom : commandsOf t.name t.base items with f | cmds <;> rw [hfrom] at hcmds <;> cases hcmds
  exact exists_line_of_commandsFrom hfrom hitem

/-- **Path words lead back.** From an absolute and clean path there is a way to any other one, and resolved from the
first it leads to the second. It is the word that is written for a path in a list of words, and given to a command that
the list reaches. A task of a recipe has such a directory, its commands begin in it, and the lists among them are
written from there. -/
theorem path_words_lead_back :
    (∀ base path, isAbsolute base = true → clean base = base → isAbsolute path = true → clean path = path →
      (∃ way, Path.relative? base path = some way ∧ LeadsFrom base way path) ∧
      ∀ (entries : List Entry) (j : ℕ), entries[j]? = some (.path path) →
        ∃ line word, wordLine base (entries.map Entry.value) = .ok line ∧ HasWord base entries line j word ∧
          LeadsFrom base word path) ∧
    ∀ (d : Draft) (rows : List (String × Value)) (t : Task), isAbsolute d.site.script = true →
      isAbsolute d.site.projectRoot = true → d.taskOf rows = .ok t →
        isAbsolute t.base = true ∧ clean t.base = t.base ∧
        (∀ processEnv registryEnv, (Execution.initialState processEnv registryEnv t).directory = t.base) ∧
        ∀ (items words : List Value) (i j : ℕ) (path : String), Value.lookup "cmds" rows = some (.array items) →
          items[i]? = some (.array words) → words[j]? = some (.path path) →
            isAbsolute path = true → clean path = path →
              ∃ entries line word, words = entries.map Entry.value ∧ t.cmds[i]? = some (.script line) ∧
                HasWord t.base entries line j word ∧ LeadsFrom t.base word path := by
  constructor
  · intro base path habs hclean habs' hclean'
    have hbase := Path.fromRoot_iff.2 ⟨habs, hclean⟩
    have hpath := Path.fromRoot_iff.2 ⟨habs', hclean'⟩
    refine ⟨hbase.exists_leadsFrom hpath, fun entries j hentry => ?_⟩
    have hne : entries ≠ [] := by
      rintro rfl
      simp at hentry
    exact ⟨_, _, wordLine_parts base hne, hasWord_pathWord hentry, leadsFrom_pathWord hbase hpath⟩
  · intro d rows t hscript hproject htask
    have hbase := Draft.fromRoot_base htask hscript hproject
    refine ⟨hbase.isAbsolute, hbase.clean_eq, fun _ _ => rfl, ?_⟩
    intro items words i j path hitems hitem hword habs hclean
    have hpath := Path.fromRoot_iff.2 ⟨habs, hclean⟩
    obtain ⟨line, hline, hcmd⟩ := exists_line_of_taskOf htask hitems hitem
    obtain ⟨entries, rfl, rfl⟩ := exists_entries_of_wordLine hline
    rw [List.getElem?_map] at hword
    obtain ⟨e, he, hvalue⟩ := Option.map_eq_some_iff.1 hword
    obtain rfl := eq_path_of_value hvalue
    exact ⟨entries, _, _, rfl, hcmd, hasWord_pathWord he, leadsFrom_pathWord hbase hpath⟩

/-- A recipe that configures the project in `/p`. -/
def makingDraft : Draft := { Draft.initial ⟨"/p/tasks", "/p"⟩ [] with phase := .configuring }

def makingWords : List Value := [.text "CC=gcc -m64", .text "make", .path "/p/src/main.c", .text "two words"]

/-- A task in `/p/out` that is to make something of a file beside its directory. -/
def makingRows : List (String × Value) :=
  [("base", .text "out"), ("cmds", .array [.array makingWords]), ("short", .text "t")]

theorem making_leads_back :
    (∃ way, Path.relative? "/p/out" "/p/src/main.c" = some way ∧ LeadsFrom "/p/out" way "/p/src/main.c") ∧
      ∃ t entries line word, makingDraft.taskOf makingRows = .ok t ∧ t.cmds[0]? = some (.script line) ∧
        HasWord t.base entries line 2 word ∧ LeadsFrom t.base word "/p/src/main.c" := by
  have hclean : clean "/p/src/main.c" = "/p/src/main.c" := by decide +kernel
  have hout : clean "/p/out" = "/p/out" := by decide +kernel
  have hcmds : Value.lookup "cmds" makingRows = some (.array [.array makingWords]) := by cbv
  have hok : (makingDraft.taskOf makingRows).isOk = true := by decide +kernel
  obtain ⟨hways, htasks⟩ := path_words_lead_back
  constructor
  · exact (hways "/p/out" "/p/src/main.c" rfl hout rfl hclean).1
  · rcases htask : makingDraft.taskOf makingRows with f | t
    · rw [htask] at hok
      cases hok
    · obtain ⟨-, -, -, hwords⟩ := htasks makingDraft makingRows t rfl rfl htask
      obtain ⟨entries, line, word, -, hcmd, hword, hleads⟩ :=
        hwords [.array makingWords] makingWords 0 2 "/p/src/main.c" hcmds rfl rfl rfl hclean
      exact ⟨t, entries, line, word, rfl, hcmd, hword, hleads⟩

end Recipe
end Taskwork
