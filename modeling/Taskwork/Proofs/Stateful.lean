/-
Doing something that changes a state and may fail, at one state. What is done in a shell and what
is done in a run of tasks are both of this kind. What only may fail has no state to change.
-/

namespace Taskwork

/-- What is done in two parts that may fail is done if both of them are. -/
theorem exists_of_bind_ok {ε α β : Type} {e : Except ε α} {go : α → Except ε β} {b : β}
    (h : (e >>= go) = .ok b) :
    ∃ a, e = .ok a ∧ go a = .ok b := by
  cases e with
  | error f => cases h
  | ok a => exact ⟨a, rfl, h⟩

namespace Stateful

variable {ε σ α β : Type}

theorem bind_apply (act : ExceptT ε (StateM σ) α) (f : α → ExceptT ε (StateM σ) β) (s : σ) :
    (act >>= f) s = match act s with
      | (.ok a, s) => f a s
      | (.error e, s) => (.error e, s) := by
  show (ExceptT.bind act f).run s = _
  unfold ExceptT.bind ExceptT.bindCont
  rcases h : act s with ⟨_ | _, s'⟩
  · simp [ExceptT.mk, ExceptT.run, bind, StateT.bind, h]
    rfl
  · simp [ExceptT.mk, ExceptT.run, bind, StateT.bind, h]

theorem bind_ok {act : ExceptT ε (StateM σ) α} {f : α → ExceptT ε (StateM σ) β} {s s' : σ} {a : α}
    (h : act s = (.ok a, s')) : (act >>= f) s = f a s' := by
  rw [bind_apply, h]

theorem bind_error {act : ExceptT ε (StateM σ) α} {f : α → ExceptT ε (StateM σ) β} {s s' : σ} {e : ε}
    (h : act s = (.error e, s')) : (act >>= f) s = (.error e, s') := by
  rw [bind_apply, h]

theorem pure_apply (a : α) (s : σ) : (pure a : ExceptT ε (StateM σ) α) s = (.ok a, s) := rfl

theorem get_bind (f : σ → ExceptT ε (StateM σ) α) (s : σ) : (get >>= f) s = f s s := rfl

theorem modify_bind (g : σ → σ) (f : Unit → ExceptT ε (StateM σ) α) (s : σ) : (modify g >>= f) s = f () (g s) := rfl

theorem adapt_apply {ε' : Type} (f : ε → ε') (act : ExceptT ε (StateM σ) α) (s : σ) :
    (ExceptT.adapt f act : ExceptT ε' (StateM σ) α) s = ((act s).1.mapError f, (act s).2) := rfl

/-- Whatever comes of it, doing something takes a state to one that `R` relates it to. -/
def Keeps (R : σ → σ → Prop) (act : ExceptT ε (StateM σ) α) : Prop := ∀ s, R s (act s).2

theorem Keeps.bind {R : σ → σ → Prop} {act : ExceptT ε (StateM σ) α} {f : α → ExceptT ε (StateM σ) β}
    (h : Keeps R act) (hf : ∀ a, Keeps R (f a)) (htrans : ∀ s t u, R s t → R t u → R s u) :
    Keeps R (act >>= f) := by
  intro s
  have hs := h s
  rw [bind_apply]
  rcases hact : act s with ⟨_ | a, s'⟩ <;> rw [hact] at hs
  · exact hs
  · exact htrans _ _ _ hs (hf a s')

end Stateful
end Taskwork
