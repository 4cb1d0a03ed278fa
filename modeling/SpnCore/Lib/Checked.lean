import Mathlib.Logic.Basic

/-!
# Computations that may fail

Computations in `Except` are taken apart by saying when they return (`bind_eq_ok`) and which
errors they can raise (`Raises`).
-/

namespace SpnCore.Lib

variable {ε α β : Type} {P : ε → Prop} {x : Except ε α} {f : α → Except ε β} {e : ε}

/-- Fails with `e` unless the condition holds. -/
def require (c : Bool) (e : ε) : Except ε Unit :=
  if c then .ok () else .error e

@[simp] theorem require_eq_ok {c : Bool} {u : Unit} : require c e = .ok u ↔ c = true := by
  cases c <;> simp [require]

theorem ok_bind (a : α) (f : α → Except ε β) : (Except.ok a >>= f) = f a := rfl

/-- A computation that returned ran its first part and then its rest. -/
theorem bind_eq_ok {b : β} : (x >>= f) = .ok b ↔ ∃ a, x = .ok a ∧ f a = .ok b := by
  cases x <;> simp [bind, Except.bind]

theorem check_bind_eq_ok {x : Except ε Unit} {f : Unit → Except ε β} {b : β} :
    (x >>= f) = .ok b ↔ x = .ok () ∧ f () = .ok b := by
  cases x <;> simp [bind, Except.bind]

@[simp] theorem pure_eq_ok {a b : α} : (pure a : Except ε α) = .ok b ↔ a = b := by
  simp [pure, Except.pure]

/-- A loop without a result that returned did so in every round. -/
theorem forM_eq_ok {f : α → Except ε Unit} {l : List α} :
    l.forM f = .ok () ↔ ∀ a ∈ l, f a = .ok () := by
  induction l with
  | nil => simp [pure, Except.pure]
  | cons a l ih =>
    have hcons : (a :: l).forM f = f a >>= fun _ => l.forM f := rfl
    rw [hcons, check_bind_eq_ok, ih, List.forall_mem_cons]

/-- Every error of the computation satisfies the predicate. -/
def Raises (P : ε → Prop) (x : Except ε α) : Prop :=
  ∀ e, x = .error e → P e

@[simp] theorem raises_ok {a : α} : Raises P (.ok a : Except ε α) := by
  intro e h
  cases h

@[simp] theorem raises_error : Raises P (.error e : Except ε α) ↔ P e := by
  simp [Raises]

@[simp] theorem raises_pure {a : α} : Raises P (pure a : Except ε α) :=
  raises_ok

@[simp] theorem raises_require {c : Bool} : Raises P (require c e) ↔ (c = false → P e) := by
  cases c <;> simp [require]

@[simp] theorem raises_bind :
    Raises P (x >>= f) ↔ Raises P x ∧ ∀ a, x = .ok a → Raises P (f a) := by
  cases x <;> simp [bind, Except.bind]

@[simp] theorem raises_map {f : α → β} : Raises P (f <$> x) ↔ Raises P x := by
  cases x <;> simp [Functor.map, Except.map]

@[simp] theorem raises_ite {c : Prop} [Decidable c] {y : Except ε α} :
    Raises P (if c then x else y) ↔ (c → Raises P x) ∧ (¬ c → Raises P y) := by
  split <;> simp [*]

end SpnCore.Lib
