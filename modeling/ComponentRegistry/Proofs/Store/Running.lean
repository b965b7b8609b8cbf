import ComponentRegistry.Store

/-! # Running operations

What the parts of an operation on a store do when they are run.
-/

namespace ComponentRegistry

namespace StoreM

variable {σ α β : Type} (store : σ)

@[simp]
theorem run_bind (x : StoreM σ α) (f : α → StoreM σ β) :
    run (x >>= f) store =
      match run x store with
      | (.ok a, store') => run (f a) store'
      | (.error e, store') => (.error e, store') := by
  change (ExceptT.bind x f) store = _
  unfold ExceptT.bind ExceptT.mk run
  simp only [bind, StateT.bind, Id]
  cases x store with
  | mk result store' => cases result <;> rfl

@[simp]
theorem run_get : run (get : StoreM σ σ) store = (.ok store, store) := rfl

@[simp]
theorem run_set (store' : σ) : run (set store' : StoreM σ PUnit) store = (.ok ⟨⟩, store') := rfl

@[simp]
theorem run_refuse (e : RegistryError) :
    run (refuse e : StoreM σ α) store = (.error (.refused e), store) := rfl

@[simp]
theorem run_lift (x : Except Failure α) : run (lift x : StoreM σ α) store = (x, store) := by
  cases x <;> rfl

variable {store} {store' : σ} {x : StoreM σ α} {f : α → StoreM σ β} {b : β}

/-- A sequence of operations succeeds when its parts do, one after the other. -/
theorem run_bind_eq_ok :
    run (x >>= f) store = (.ok b, store') ↔
      ∃ a middle, run x store = (.ok a, middle) ∧ run (f a) middle = (.ok b, store') := by
  rw [run_bind]
  rcases run x store with ⟨e | a, middle⟩
  · simp
  · constructor
    · exact fun h => ⟨a, middle, rfl, h⟩
    · rintro ⟨_, _, ⟨⟩, h⟩
      exact h

theorem run_lift_bind_eq_ok {r : Except Failure α} :
    run (lift r >>= f) store = (.ok b, store') ↔
      ∃ a, r = .ok a ∧ run (f a) store = (.ok b, store') := by
  rw [run_bind, run_lift]
  cases r <;> simp

end StoreM

end ComponentRegistry
