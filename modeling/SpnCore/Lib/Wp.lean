import Mathlib.Logic.Basic
import Mathlib.Order.RelClasses
import SpnCore.Lib.Checked

/-!
# Weakest preconditions of programs with state and exceptions

A program is an `EStateM`: it either returns a value or throws an error, and in both cases
leaves a state behind. `wp x Q E s` says that running `x` from `s` ends in a state that meets
the postcondition `Q`, or the exceptional postcondition `E`. The rules below follow the
structure of a program, so a proof about it never unfolds the monad.
-/

namespace SpnCore.Lib

variable {ε σ α β : Type}

/-- Every way `x` can end from `s` meets its postcondition. -/
def wp (x : EStateM ε σ α) (Q : α → σ → Prop) (E : ε → σ → Prop) (s : σ) : Prop :=
  match x s with
  | .ok a t => Q a t
  | .error e t => E e t

/-- Fails with `e` unless the condition holds. -/
def ensure (c : Bool) (e : ε) : EStateM ε σ Unit :=
  if c then pure () else throw e

/-- Runs a program only when the condition holds. -/
def onlyIf (c : Bool) (x : EStateM ε σ Unit) : EStateM ε σ Unit :=
  if c then x else pure ()

/-- A pure computation that may fail, run inside a program. -/
def runExcept : Except ε α → EStateM ε σ α
  | .ok a => pure a
  | .error e => throw e

/-- Runs a program on a copy of the state. The copy replaces the state when the result asks for
it, and is dropped otherwise, also when the program fails. -/
def nested (commits : α → Bool) (x : EStateM ε σ α) : EStateM ε σ α :=
  fun s =>
    match x s with
    | .ok a t => .ok a (if commits a then t else s)
    | .error e _ => .error e s

/-- Runs a program and catches its errors, except the fatal ones. -/
def catching (fatal : ε → Bool) (x : EStateM ε σ α) : EStateM ε σ (Option α) :=
  fun s =>
    match x s with
    | .ok a t => .ok (some a) t
    | .error e t => if fatal e then .error e t else .ok none t

/-- The state a program leaves behind when it returns. -/
def okState (x : EStateM ε σ α) (s : σ) : Option σ :=
  match x s with
  | .ok _ t => some t
  | .error _ _ => none

variable {s t : σ} {a : α} {b : β} {e : ε} {c : Bool} {x y : EStateM ε σ α} {z : EStateM ε σ β}
  {f : β → EStateM ε σ α} {commits : α → Bool} {p : Prop} [Decidable p]

theorem okState_eq_some : okState x s = some t ↔ ∃ a, x s = .ok a t := by
  unfold okState
  cases x s <;> simp

/-- The state a program leaves behind, whether it returns or throws. -/
def leftState (x : EStateM ε σ α) (s : σ) : σ :=
  match x s with
  | .ok _ t | .error _ t => t

theorem leftState_of_ok (h : x s = .ok a t) : leftState x s = t := by
  simp only [leftState, h]

/-- The error a program fails with. -/
def thrown (x : EStateM ε σ α) (s : σ) : Option ε :=
  match x s with
  | .ok _ _ => none
  | .error e _ => some e

theorem thrown_eq_some : thrown x s = some e ↔ ∃ t, x s = .error e t := by
  unfold thrown
  cases x s <;> simp

section Rules

variable {Q Q' : α → σ → Prop} {E E' : ε → σ → Prop}

@[simp] theorem wp_pure : wp (pure a : EStateM ε σ α) Q E s ↔ Q a s := Iff.rfl

@[simp] theorem wp_throw : wp (throw e : EStateM ε σ α) Q E s ↔ E e s := Iff.rfl

@[simp] theorem wp_bind : wp (z >>= f) Q E s ↔ wp z (fun b t => wp (f b) Q E t) E s := by
  simp only [wp, bind, EStateM.bind]
  cases z s <;> rfl

@[simp] theorem wp_map {f : β → α} : wp (f <$> z) Q E s ↔ wp z (fun b t => Q (f b) t) E s := by
  simp only [wp, Functor.map, EStateM.map]
  cases z s <;> rfl

@[simp] theorem wp_get {Q : σ → σ → Prop} :
    wp (get : EStateM ε σ σ) Q E s ↔ Q s s := Iff.rfl

theorem wp_get_bind {f : σ → EStateM ε σ α} : wp (get >>= f) Q E s ↔ wp (f s) Q E s :=
  wp_bind

@[simp] theorem wp_set {Q : PUnit → σ → Prop} :
    wp (set t : EStateM ε σ PUnit) Q E s ↔ Q ⟨⟩ t := Iff.rfl

@[simp] theorem wp_modify {f : σ → σ} {Q : PUnit → σ → Prop} :
    wp (modify f : EStateM ε σ PUnit) Q E s ↔ Q ⟨⟩ (f s) := Iff.rfl

@[simp] theorem wp_ensure {Q : Unit → σ → Prop} :
    wp (ensure c e) Q E s ↔ (c = true → Q () s) ∧ (c = false → E e s) := by
  cases c <;> simp [ensure]

theorem wp_check {Q : Unit → σ → Prop} :
    wp (ensure (decide p) e) Q E s ↔ (p → Q () s) ∧ (¬ p → E e s) := by
  by_cases h : p <;> simp [h, ensure]

theorem wp_guard {f : Unit → EStateM ε σ α} (hE : E e s)
    (h : c = true → wp (f ()) Q E s) : wp (ensure c e >>= f) Q E s :=
  wp_bind.2 (wp_ensure.2 ⟨h, fun _ => hE⟩)

theorem wp_onlyIf {x : EStateM ε σ Unit} {Q : Unit → σ → Prop} :
    wp (onlyIf c x) Q E s ↔ (c = true → wp x Q E s) ∧ (c = false → Q () s) := by
  cases c <;> simp [onlyIf]

theorem wp_ite : wp (if p then x else y) Q E s ↔ (p → wp x Q E s) ∧ (¬ p → wp y Q E s) := by
  by_cases h : p <;> simp [h]

/-- An early return. -/
theorem wp_unless (h : Q a s) (hy : ¬ p → wp y Q E s) : wp (if p then pure a else y) Q E s :=
  wp_ite.2 ⟨fun _ => wp_pure.2 h, hy⟩

theorem wp_runExcept {x : Except ε α} :
    wp (runExcept x) Q E s ↔ (∀ a, x = .ok a → Q a s) ∧ ∀ e, x = .error e → E e s := by
  cases x <;> simp [runExcept]

theorem wp_nested :
    wp (nested commits x) Q E s ↔
      wp x (fun a t => Q a (if commits a then t else s)) (fun e _ => E e s) s := by
  simp only [wp, nested]
  cases x s <;> rfl

theorem wp_catching {fatal : ε → Bool} {Q : Option α → σ → Prop} :
    wp (catching fatal x) Q E s ↔
      wp x (fun a => Q (some a)) (fun e t => if fatal e then E e t else Q none t) s := by
  simp only [wp, catching]
  cases x s with
  | ok a t => rfl
  | error e t => cases hfatal : fatal e <;> simp [hfatal]

/-- Postconditions may be weakened. -/
theorem wp_mono (h : wp x Q E s) (hQ : ∀ a t, Q a t → Q' a t) (hE : ∀ e t, E e t → E' e t) :
    wp x Q' E' s := by
  unfold wp at h ⊢
  cases hx : x s with
  | ok a t => exact hQ a t (by simpa [hx] using h)
  | error e t => exact hE e t (by simpa [hx] using h)

theorem wp_imp (h : wp x Q E s) (hQ : ∀ a t, Q a t → Q' a t) : wp x Q' E s :=
  wp_mono h hQ fun _ _ h => h

/-- What holds however a program ends may be weakened. -/
theorem wp_ends {P P' : σ → Prop} (h : wp x (fun _ => P) (fun _ => P) s)
    (hP : ∀ t, P t → P' t) : wp x (fun _ => P') (fun _ => P') s :=
  wp_mono h (fun _ => hP) fun _ => hP

/-- A program goes on from what its first part ensures. -/
theorem wp_seq {Q' : β → σ → Prop} (h : wp z Q' E s) (hf : ∀ b t, Q' b t → wp (f b) Q E t) :
    wp (z >>= f) Q E s :=
  wp_bind.2 (wp_imp h hf)

/-- A program goes on from where its first part has returned. -/
theorem wp_seq_run {Q' : β → σ → Prop} (h : wp z Q' E s)
    (hf : ∀ b t, z s = .ok b t → Q' b t → wp (f b) Q E t) : wp (z >>= f) Q E s := by
  refine wp_bind.2 ?_
  unfold wp at h ⊢
  cases hx : z s with
  | ok b t => exact hf b t hx (by simpa [hx] using h)
  | error e t => simpa [hx] using h

/-- What two proofs show of a program holds together. -/
theorem wp_and (h : wp x Q E s) (h' : wp x Q' E' s) :
    wp x (fun a t => Q a t ∧ Q' a t) (fun e t => E e t ∧ E' e t) s := by
  unfold wp at h h' ⊢
  cases hx : x s with
  | ok a t => exact ⟨by simpa [hx] using h, by simpa [hx] using h'⟩
  | error e t => exact ⟨by simpa [hx] using h, by simpa [hx] using h'⟩

/-- A second proof adds to what a program ensures when it returns. -/
theorem wp_with {R : α → σ → Prop} (h : wp x Q E s) (h' : wp x Q' E' s)
    (hR : ∀ a t, Q a t ∧ Q' a t → R a t) : wp x R E s :=
  wp_mono (wp_and h h') hR fun _ _ he => he.1

/-- A program that cannot fail. -/
theorem wp_total (h : wp x Q (fun _ _ => False) s) (hQ : ∀ a t, Q a t → Q' a t) :
    wp x Q' E s :=
  wp_mono h hQ fun _ _ he => he.elim

/-- A run that returned meets the normal postcondition. -/
theorem wp_ok (h : wp x Q E s) (hx : x s = .ok a t) : Q a t := by
  simpa [wp, hx] using h

/-- A run that threw meets the exceptional postcondition. -/
theorem wp_error (h : wp x Q E s) (hx : x s = .error e t) : E e t := by
  simpa [wp, hx] using h

/-- A run that is known to return. -/
theorem wp_of_ok (hx : x s = .ok a t) (h : Q a t) : wp x Q E s := by
  simpa [wp, hx] using h

theorem wp_of_error (hx : x s = .error e t) (h : E e t) : wp x Q E s := by
  simpa [wp, hx] using h

/-- A program that cannot fail returns. -/
theorem exists_ok_of_wp (h : wp x Q (fun _ _ => False) s) : ∃ a t, x s = .ok a t := by
  cases hx : x s with
  | ok a t => exact ⟨a, t, rfl⟩
  | error e t => exact (wp_error h hx).elim

/-- A program goes on from where its first part has returned. -/
theorem bind_of_ok (h : z s = .ok b t) : (z >>= f) s = f b t := by
  simp only [bind, EStateM.bind, h]

/-- A program that returned ran its first part and then its rest. -/
theorem bind_run_eq_ok : (z >>= f) s = .ok a t ↔ ∃ b u, z s = .ok b u ∧ f b u = .ok a t := by
  simp only [bind, EStateM.bind]
  cases z s <;> simp [and_assoc]

theorem get_bind_run {f : σ → EStateM ε σ α} : (get >>= f) s = f s s := rfl

/-- Only the run of the first part matters. -/
theorem bind_congr_run {x : EStateM ε σ β} (h : x s = z s) : (x >>= f) s = (z >>= f) s := by
  simp only [bind, EStateM.bind, h]

/-- A run whose value is known ends in some state. -/
theorem exists_run_eq (h : x.run' s = some a) : ∃ t, x s = .ok a t := by
  unfold EStateM.run' at h
  cases hx : x s with
  | ok b t =>
    rw [EStateM.run, hx] at h
    cases h
    exact ⟨t, rfl⟩
  | error e t =>
    rw [EStateM.run, hx] at h
    cases h

theorem wp_true (x : EStateM ε σ α) (s : σ) : wp x (fun _ _ => True) (fun _ _ => True) s := by
  unfold wp
  cases x s <;> trivial

/-- The rest of a program, when nothing is known of the part before it. -/
theorem wp_bind_any (hE : ∀ e t, E e t) (h : ∀ b t, wp (f b) Q E t) : wp (z >>= f) Q E s :=
  wp_bind.2 (wp_mono (wp_true z s) (fun b t _ => h b t) fun e t _ => hE e t)

/-- Two branches that go on in the same way. -/
theorem wp_ite_bind {x : EStateM ε σ β}
    (h : wp (if p then x else z) (fun b => wp (f b) Q E) E s) :
    wp (if p then x >>= f else z >>= f) Q E s := by
  split
  case isTrue hc =>
    rw [if_pos hc] at h
    exact wp_bind.2 h
  case isFalse hc =>
    rw [if_neg hc] at h
    exact wp_bind.2 h

end Rules

/-- What every round of a loop over a list keeps, the loop keeps. -/
theorem wp_forM {I : σ → Prop} {f : α → EStateM ε σ PUnit}
    (hf : ∀ a s, I s → wp (f a) (fun _ => I) (fun _ => I) s) (l : List α) (hs : I s) :
    wp (l.forM f) (fun _ => I) (fun _ => I) s := by
  induction l generalizing s with
  | nil => exact hs
  | cons a l ih =>
    show wp (f a >>= fun _ => l.forM f) _ _ s
    rw [wp_bind]
    exact wp_mono (hf a s hs) (fun _ _ ht => ih ht) fun _ _ ht => ht

/-! ### Programs that avoid an error -/

/-- The program never fails with the error. -/
def Avoids (e : ε) (x : EStateM ε σ α) : Prop :=
  ∀ s, wp x (fun _ _ => True) (fun e' _ => e' ≠ e) s

section Avoids

variable {e' : ε}

theorem avoids_pure : Avoids e (pure a : EStateM ε σ α) :=
  fun _ => wp_pure.2 trivial

theorem avoids_throw (h : e' ≠ e) : Avoids e (throw e' : EStateM ε σ α) :=
  fun _ => wp_throw.2 h

theorem avoids_get : Avoids e (get : EStateM ε σ σ) :=
  fun _ => wp_get.2 trivial

theorem avoids_set : Avoids e (set t : EStateM ε σ PUnit) :=
  fun _ => wp_set.2 trivial

theorem avoids_modify {f : σ → σ} : Avoids e (modify f : EStateM ε σ PUnit) :=
  fun _ => wp_modify.2 trivial

/-- Only the first part needs to start from this state. -/
theorem wp_bind_avoids (hx : wp z (fun _ _ => True) (fun e' _ => e' ≠ e) s)
    (hf : ∀ b, Avoids e (f b)) : wp (z >>= f) (fun _ _ => True) (fun e' _ => e' ≠ e) s :=
  wp_bind.2 (wp_mono hx (fun b t _ => hf b t) fun _ _ h => h)

theorem avoids_bind (hx : Avoids e z) (hf : ∀ b, Avoids e (f b)) : Avoids e (z >>= f) :=
  fun s => wp_bind_avoids (hx s) hf

theorem avoids_ensure (h : e' ≠ e) : Avoids e (ensure c e' : EStateM ε σ Unit) :=
  fun _ => wp_ensure.2 ⟨fun _ => trivial, fun _ => h⟩

theorem avoids_onlyIf {x : EStateM ε σ Unit} (hx : Avoids e x) : Avoids e (onlyIf c x) :=
  fun s => wp_onlyIf.2 ⟨fun _ => hx s, fun _ => trivial⟩

theorem avoids_ite (hx : Avoids e x) (hy : Avoids e y) : Avoids e (if p then x else y) :=
  fun s => wp_ite.2 ⟨fun _ => hx s, fun _ => hy s⟩

theorem avoids_runExcept {x : Except ε α} (h : Raises (· ≠ e) x) :
    Avoids e (runExcept x : EStateM ε σ α) :=
  fun _ => wp_runExcept.2 ⟨fun _ _ => trivial, h⟩

end Avoids

/-! ### Programs that stay within a relation -/

/-- Whatever state the program leaves behind is related to the one it started from. -/
def Within (R : σ → σ → Prop) (x : EStateM ε σ α) : Prop :=
  ∀ s, wp x (fun _ => R s) (fun _ => R s) s

section Within

variable {R : σ → σ → Prop} {Q : α → σ → Prop}

theorem within_modify {f : σ → σ} (h : ∀ s, R s (f s)) :
    Within R (modify f : EStateM ε σ PUnit) :=
  fun s => wp_modify.2 (h s)

theorem within_map {f : β → α} (hx : Within R z) : Within R (f <$> z) :=
  fun s => wp_map.2 (hx s)

theorem within_ite (hx : p → Within R x) (hy : ¬ p → Within R y) :
    Within R (if p then x else y) :=
  fun s => wp_ite.2 ⟨fun h => hx h s, fun h => hy h s⟩

theorem within_catching {fatal : ε → Bool} (hx : Within R x) : Within R (catching fatal x) := by
  intro s
  refine wp_catching.2 (wp_mono (hx s) (fun _ _ h => h) fun e t h => ?_)
  split
  · exact h
  · exact h

/-- A program that stays within a relation, followed by the rest of a program. -/
theorem Within.wp_bind {E : ε → σ → Prop} (hx : Within R z) (hE : ∀ e t, R s t → E e t)
    (hf : ∀ b t, R s t → wp (f b) Q E t) : wp (z >>= f) Q E s :=
  Lib.wp_bind.2 (wp_mono (hx s) hf hE)

/-- A program that only reads, followed by the rest of a program. -/
theorem wp_reads (hx : Within Eq z) (hf : ∀ b, wp (f b) Q (fun _ _ => True) s) :
    wp (z >>= f) Q (fun _ _ => True) s :=
  hx.wp_bind (fun _ _ _ => trivial) fun b _ h => h ▸ hf b

theorem Within.of_ok (hx : Within R x) (hrun : x s = .ok a t) : R s t := by
  have h := wp_ok (hx s) hrun
  exact h

theorem Within.mono {R' : σ → σ → Prop} (hx : Within R x) (h : ∀ s t, R s t → R' s t) :
    Within R' x :=
  fun s => wp_ends (hx s) (h s)

variable [IsPreorder σ R]

theorem within_pure : Within R (pure a : EStateM ε σ α) :=
  fun s => wp_pure.2 (refl_of R s)

theorem within_throw : Within R (throw e : EStateM ε σ α) :=
  fun s => wp_throw.2 (refl_of R s)

theorem within_get : Within R (get : EStateM ε σ σ) :=
  fun s => wp_get.2 (refl_of R s)

/-- The program may come second. -/
theorem Within.after (hx : Within R x) (h : R s t) : wp x (fun _ => R s) (fun _ => R s) t :=
  wp_ends (hx t) fun _ => trans_of R h

theorem within_bind (hx : Within R z) (hf : ∀ b, Within R (f b)) : Within R (z >>= f) :=
  fun s => wp_seq (hx s) fun b _ h => (hf b).after h

theorem within_ensure : Within R (ensure c e : EStateM ε σ Unit) :=
  fun s => wp_ensure.2 ⟨fun _ => refl_of R s, fun _ => refl_of R s⟩

theorem within_onlyIf {x : EStateM ε σ Unit} (hx : Within R x) : Within R (onlyIf c x) :=
  fun s => wp_onlyIf.2 ⟨fun _ => hx s, fun _ => refl_of R s⟩

theorem within_unless (hy : ¬ p → Within R y) : Within R (if p then pure a else y) :=
  within_ite (fun _ => within_pure) hy

theorem within_runExcept {x : Except ε α} : Within R (runExcept x : EStateM ε σ α) :=
  fun s => wp_runExcept.2 ⟨fun _ _ => refl_of R s, fun _ _ => refl_of R s⟩

theorem within_nested (hx : Within R x) : Within R (nested commits x) := by
  intro s
  refine wp_nested.2 (wp_mono (hx s) (fun a t h => ?_) fun _ _ _ => refl_of R s)
  cases commits a with
  | true => exact h
  | false => exact refl_of R s

/-- A program that runs another one for each element of a list. -/
theorem within_forM {γ : Type} {f : γ → EStateM ε σ PUnit} (hf : ∀ c, Within R (f c))
    (l : List γ) : Within R (l.forM f) := by
  induction l with
  | nil => exact within_pure
  | cons c l ih => exact within_bind (hf c) fun _ => ih

/-- A program that is always rolled back changes nothing. -/
theorem within_rolledBack : Within R (nested (fun _ => false) x) := by
  intro s
  refine wp_nested.2 (wp_mono (wp_true x s) (fun _ _ _ => ?_) fun _ _ _ => refl_of R s)
  exact refl_of R s

end Within

/-- What holds of a state still holds of another one. -/
def Keeps (I : σ → Prop) (s t : σ) : Prop := I s → I t

instance (I : σ → Prop) : IsPreorder σ (Keeps I) where
  refl _ h := h
  trans _ _ _ h h' hs := h' (h hs)

attribute [irreducible] wp

end SpnCore.Lib
