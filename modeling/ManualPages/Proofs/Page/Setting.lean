import ManualPages.Page.State

/-! # Steps of setting

What a step does from a state is said in two ways.

* `runFrom_pure`, `runFrom_throw`, `runFrom_bind`, `runFrom_register`, `runFrom_nextNumber` and
  `runFrom_numbered` are equations, for a step that succeeds as well as for one that fails.
* `Setting.Yields` is for a step that succeeds: each of its facts is an equivalence, by which a run
  is taken apart into the runs of its parts. -/

namespace ManualPages.Page.Setting

variable {α β : Type} {σ τ : State}

/-! ### Runs -/

theorem ext {a b : Setting α} (h : ∀ σ, a.runFrom σ = b.runFrom σ) : a = b := funext h

theorem runFrom_pure {a : α} : (pure a : Setting α).runFrom σ = (.ok a, σ) := rfl

theorem runFrom_throw {e : Fault} : (throw e : Setting α).runFrom σ = (.error e, σ) := rfl

theorem runFrom_bind (step : Setting α) (f : α → Setting β) (σ : State) :
    (step >>= f).runFrom σ = match step.runFrom σ with
      | (.ok a, τ) => (f a).runFrom τ
      | (.error e, τ) => (.error e, τ) := by
  unfold runFrom
  have e : (step >>= f).run σ =
      (ExceptT.bindCont f (step.run σ).1 : StateM State (Except Fault β)) (step.run σ).2 := rfl
  rw [e]
  rcases step.run σ with ⟨_ | _, _⟩ <;> rfl

theorem runFrom_nextNumber : nextNumber.runFrom σ =
    (.ok σ.numbering.next.1, ⟨σ.numbering.next.2, σ.index⟩) := rfl

theorem runFrom_register {term : List Char} : (register term).runFrom σ =
    (.ok (σ.index.register (String.ofList term)).1.isSome,
      ⟨σ.numbering, (σ.index.register (String.ofList term)).2⟩) := rfl

/-- A numbered list is set with a counter of its own, also when it fails. -/
theorem runFrom_numbered {step : Setting α} : (numbered step).runFrom σ =
    ((step.runFrom ⟨σ.numbering.enter, σ.index⟩).1,
      ⟨(step.runFrom ⟨σ.numbering.enter, σ.index⟩).2.numbering.leave,
        (step.runFrom ⟨σ.numbering.enter, σ.index⟩).2.index⟩) := rfl

/-! ### Steps that succeed -/

/-- From `σ` the step makes `a` and leaves the state `τ`. -/
def Yields (step : Setting α) (σ : State) (a : α) (τ : State) : Prop :=
  step.runFrom σ = (.ok a, τ)

theorem Yields.unique {step : Setting α} {a b : α} {τ' : State} (h : step.Yields σ a τ)
    (h' : step.Yields σ b τ') : a = b ∧ τ = τ' := by
  unfold Yields at h h'
  rw [h] at h'
  cases h'
  exact ⟨rfl, rfl⟩

theorem yields_pure {a b : α} : (pure a : Setting α).Yields σ b τ ↔ b = a ∧ τ = σ := by
  unfold Yields
  rw [runFrom_pure]
  simp [eq_comm]

theorem yields_throw {e : Fault} {b : α} : ¬ (throw e : Setting α).Yields σ b τ := by
  unfold Yields
  rw [runFrom_throw]
  simp

theorem yields_bind {step : Setting α} {f : α → Setting β} {b : β} :
    (step >>= f).Yields σ b τ ↔ ∃ a σ', step.Yields σ a σ' ∧ (f a).Yields σ' b τ := by
  unfold Yields
  rw [runFrom_bind]
  rcases step.runFrom σ with ⟨e | a, σ'⟩
  · simp
  · constructor
    · exact fun h => ⟨a, σ', rfl, h⟩
    · rintro ⟨_, _, h, hf⟩
      cases h
      exact hf

theorem yields_map {step : Setting α} {f : α → β} {b : β} :
    (f <$> step).Yields σ b τ ↔ ∃ a, step.Yields σ a τ ∧ b = f a := by
  rw [map_eq_pure_bind, yields_bind]
  simp only [yields_pure]
  constructor
  · rintro ⟨a, σ', h, rfl, rfl⟩
    exact ⟨a, h, rfl⟩
  · rintro ⟨a, h, rfl⟩
    exact ⟨a, τ, h, rfl, rfl⟩

theorem yields_nextNumber {n : Nat} : nextNumber.Yields σ n τ ↔
    n = σ.numbering.next.1 ∧ τ = { σ with numbering := σ.numbering.next.2 } := by
  unfold Yields
  rw [runFrom_nextNumber]
  simp [eq_comm]

theorem yields_register {term : List Char} {new : Bool} : (register term).Yields σ new τ ↔
    new = (σ.index.register (String.ofList term)).1.isSome ∧
      τ = { σ with index := (σ.index.register (String.ofList term)).2 } := by
  unfold Yields
  rw [runFrom_register]
  simp [eq_comm]

theorem yields_numbered {step : Setting α} {a : α} : (numbered step).Yields σ a τ ↔
    ∃ σ', step.Yields { σ with numbering := σ.numbering.enter } a σ' ∧
      τ = { σ' with numbering := σ'.numbering.leave } := by
  unfold Yields
  rw [runFrom_numbered]
  rcases step.runFrom ⟨σ.numbering.enter, σ.index⟩ with ⟨r, s⟩
  simp only [Prod.mk.injEq]
  constructor
  · rintro ⟨rfl, rfl⟩
    exact ⟨s, ⟨rfl, rfl⟩, rfl⟩
  · rintro ⟨σ', ⟨rfl, rfl⟩, rfl⟩
    exact ⟨rfl, rfl⟩

end ManualPages.Page.Setting
