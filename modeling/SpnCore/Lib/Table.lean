import SpnCore.Lib.FMap
import Mathlib.Algebra.Order.Group.Defs
import Mathlib.Algebra.Order.BigOperators.Group.List

/-!
# Tables of keyed values

A table stores values under the key that each value carries itself, so a value cannot be found
under another key. The sum of a weight over the values of a table changes with an insertion or
an erasure by the weights of the one value concerned. Two tables are related when they bind the
same keys to related values.
-/

namespace SpnCore.Lib

open List

/-- Values that carry their own key. -/
class Keyed (ν : Type) (κ : outParam Type) where
  key : ν → κ

/-- A finite map that binds values to their own keys. -/
structure Table (ν : Type) {κ : Type} [Keyed ν κ] [DecidableEq κ] where
  map : FMap κ ν
  keyed : ∀ k v, map.lookup k = some v → Keyed.key v = k

namespace Table

variable {ν κ : Type} [Keyed ν κ] [DecidableEq κ]

/-- The table without values. -/
def empty : Table ν :=
  ⟨∅, fun _ _ h => by simp at h⟩

/-- The value stored under a key. -/
def lookup (t : Table ν) (k : κ) : Option ν :=
  t.map.lookup k

/-- All values, in no particular order. -/
def values (t : Table ν) : List ν :=
  t.map.entries.map Sigma.snd

/-- Stores a value, replacing the one with the same key. -/
def upsert (t : Table ν) (v : ν) : Table ν where
  map := t.map.insert (Keyed.key v) v
  keyed := by
    intro k w h
    rw [FMap.lookup_insert] at h
    split at h
    case isTrue hk => cases h; exact hk.symm
    case isFalse => exact t.keyed k w h

/-- Removes the value stored under a key. -/
def erase (t : Table ν) (k : κ) : Table ν where
  map := t.map.erase k
  keyed := by
    intro j w h
    rw [FMap.lookup_erase] at h
    split at h
    case isTrue => cases h
    case isFalse => exact t.keyed j w h

variable {t : Table ν} {k j : κ} {v w : ν}

theorem key_of_lookup (h : t.lookup k = some v) : Keyed.key v = k :=
  t.keyed k v h

@[simp] theorem lookup_empty (k : κ) : (empty : Table ν).lookup k = none := rfl

theorem lookup_upsert (t : Table ν) (v : ν) (k : κ) :
    (t.upsert v).lookup k = if k = Keyed.key v then some v else t.lookup k :=
  FMap.lookup_insert _ _ _ _

@[simp] theorem lookup_upsert_self {v : ν} : (t.upsert v).lookup (Keyed.key v) = some v :=
  FMap.lookup_insert_self _ _ _

theorem lookup_upsert_of_ne (h : k ≠ Keyed.key v) : (t.upsert v).lookup k = t.lookup k :=
  FMap.lookup_insert_of_ne h

theorem lookup_erase (t : Table ν) (k j : κ) :
    (t.erase k).lookup j = if j = k then none else t.lookup j :=
  FMap.lookup_erase _ _ _

@[simp] theorem lookup_erase_self (t : Table ν) (k : κ) : (t.erase k).lookup k = none :=
  FMap.lookup_erase_self _ _

theorem lookup_erase_of_ne (t : Table ν) (h : j ≠ k) : (t.erase k).lookup j = t.lookup j :=
  FMap.lookup_erase_of_ne _ h

/-- The values of a table are those found under their own key. -/
theorem mem_values : v ∈ t.values ↔ t.lookup (Keyed.key v) = some v := by
  simp only [values, mem_map, Sigma.exists, exists_eq_right]
  constructor
  · rintro ⟨k, hmem⟩
    have hlookup : t.lookup k = some v := FMap.mem_entries.1 hmem
    rwa [key_of_lookup hlookup]
  · intro h
    exact ⟨_, FMap.mem_entries.2 h⟩

theorem mem_values_of_lookup (h : t.lookup k = some v) : v ∈ t.values :=
  mem_values.2 (by rwa [key_of_lookup h])

/-- The values that satisfy a predicate. -/
def filter (p : ν → Bool) (t : Table ν) : Table ν where
  map := t.map.eraseIf fun v => !p v
  keyed := by
    intro k v h
    rw [FMap.lookup_eraseIf] at h
    exact t.keyed k v (Option.filter_eq_some_iff.1 h).1

theorem lookup_filter (p : ν → Bool) (t : Table ν) (k : κ) :
    (t.filter p).lookup k = (t.lookup k).filter p := by
  have h := FMap.lookup_eraseIf (fun v => !p v) t.map k
  simp only [Bool.not_not] at h
  exact h

section Loops

/-- No two values have the same key. -/
theorem values_pairwise (t : Table ν) :
    t.values.Pairwise fun v w => Keyed.key v ≠ Keyed.key w := by
  rw [values, pairwise_map]
  have hnodup := nodupKeys_iff_pairwise.1 t.map.nodupKeys
  refine hnodup.imp_of_mem fun {e e'} he he' hne => ?_
  have hkey : Keyed.key e.2 = e.1 := key_of_lookup (FMap.mem_entries.1 he)
  have hkey' : Keyed.key e'.2 = e'.1 := key_of_lookup (FMap.mem_entries.1 he')
  rw [hkey, hkey']
  exact hne

section Elim

variable {α β : Type} {p p' : Prop} {q q' : α → Prop} {r : β → Prop} {x : Option α}

theorem elim_mono (hx : x.elim p q) (hp : p → p') (hq : ∀ a, q a → q' a) : x.elim p' q' := by
  cases x with
  | none => exact hp hx
  | some a => exact hq a hx

theorem elim_map {f : α → β} (hx : x.elim p q) (hf : ∀ a, q a → r (f a)) :
    (x.map f).elim p r := by
  cases x with
  | none => exact hx
  | some a => exact hf a hx

theorem elim_bind {f : α → Option β} (hx : x.elim p q) (hp : p → p')
    (hf : ∀ a, q a → (f a).elim p' r) : (x >>= f).elim p' r := by
  cases x with
  | none => exact hp hx
  | some a => exact hf a hx

end Elim

variable {α β : Type} {f : α → ν → Option α} {I : α → Prop} {o : κ → α → β} {g : ν → β → β}
  {a b : α} {l : List ν}

/-- A loop over values with different keys, whose rounds change only what concerns the key of their
value: at the value of a round, what concerns its key is still as it was at the start. A round may
fail only if `P` holds. -/
theorem foldlM_keyed {P : Prop} (hl : l.Pairwise fun v w => Keyed.key v ≠ Keyed.key w)
    (hround : ∀ b v, I b → v ∈ l → o (Keyed.key v) b = o (Keyed.key v) a → (f b v).elim P fun c =>
      I c ∧ ∀ k, o k c = if k = Keyed.key v then g v (o k b) else o k b)
    (hb : I b) (hsame : ∀ v ∈ l, o (Keyed.key v) b = o (Keyed.key v) a) :
    (l.foldlM f b).elim P fun c => I c ∧
      (∀ k, (∀ v ∈ l, Keyed.key v ≠ k) → o k c = o k b) ∧
      ∀ v ∈ l, o (Keyed.key v) c = g v (o (Keyed.key v) a) := by
  induction l generalizing b with
  | nil => exact ⟨hb, fun _ _ => rfl, fun v hv => by cases hv⟩
  | cons v l ih =>
    obtain ⟨hv, hl⟩ := pairwise_cons.1 hl
    rw [foldlM_cons]
    refine elim_bind (hround b v hb mem_cons_self (hsame v mem_cons_self)) id ?_
    rintro c ⟨hIc, hoc⟩
    have hsame' : ∀ w ∈ l, o (Keyed.key w) c = o (Keyed.key w) a := by
      intro w hw
      rw [hoc, if_neg (hv w hw).symm]
      exact hsame w (mem_cons_of_mem v hw)
    refine elim_mono (ih hl (fun b w hb hw => hround b w hb (mem_cons_of_mem v hw)) hIc hsame')
      id ?_
    rintro d ⟨hId, hother, hself⟩
    refine ⟨hId, ?_, ?_⟩
    · intro k hk
      rw [hother k fun w hw => hk w (mem_cons_of_mem v hw), hoc, if_neg (hk v mem_cons_self).symm]
    · intro w hw
      rcases mem_cons.1 hw with rfl | hw
      · rw [hother _ fun u hu => (hv u hu).symm, hoc, if_pos rfl, hsame w mem_cons_self]
      · exact hself w hw

/-- What a loop over the values of a table does to what concerns one key is decided by the value
under that key. -/
theorem foldlM_values_elim {P : Prop} (t : Table ν)
    (hround : ∀ b v, I b → v ∈ t.values → o (Keyed.key v) b = o (Keyed.key v) a →
      (f b v).elim P fun c => I c ∧ ∀ k, o k c = if k = Keyed.key v then g v (o k b) else o k b)
    (ha : I a) :
    (t.values.foldlM f a).elim P fun c => I c ∧
      ∀ k, o k c = (t.lookup k).elim (o k a) fun v => g v (o k a) := by
  refine elim_mono (foldlM_keyed t.values_pairwise hround ha fun _ _ => rfl) id ?_
  rintro c ⟨hIc, hother, hself⟩
  refine ⟨hIc, fun k => ?_⟩
  cases hlookup : t.lookup k with
  | none =>
    refine hother k fun v hv hk => ?_
    rw [mem_values, hk, hlookup] at hv
    cases hv
  | some v =>
    have hv := hself v (mem_values_of_lookup hlookup)
    rwa [key_of_lookup hlookup] at hv

/-- A loop over the values of a table that has succeeded. -/
theorem foldlM_values_of_some (t : Table ν)
    (hround : ∀ b v c, I b → v ∈ t.values → f b v = some c →
      I c ∧ ∀ k, o k c = if k = Keyed.key v then g v (o k b) else o k b)
    (ha : I a) {c : α} (h : t.values.foldlM f a = some c) :
    I c ∧ ∀ k, o k c = (t.lookup k).elim (o k a) fun v => g v (o k a) := by
  have hloop := foldlM_values_elim (P := True) (f := f) (g := g) t (fun b v hb hv _ => by
    cases hc : f b v with
    | none => trivial
    | some c => exact hround b v c hb hv hc) ha
  rw [h] at hloop
  exact hloop

/-- The same for a loop that cannot fail. -/
theorem foldl_values {f : α → ν → α} (t : Table ν)
    (hround : ∀ b v k, o k (f b v) = if k = Keyed.key v then g v (o k b) else o k b) (k : κ) :
    o k (t.values.foldl f a) = (t.lookup k).elim (o k a) fun v => g v (o k a) := by
  have hloop := foldlM_values_elim (P := False) (f := fun a v => some (f a v)) (a := a)
    (I := fun _ => True) t (fun b v _ _ _ => ⟨trivial, hround b v⟩) (trivial : True)
  rw [show t.values.foldlM (fun a v => some (f a v)) a = some (t.values.foldl f a) from
    foldlM_pure] at hloop
  exact hloop.2 k

end Loops

section Related

variable {R : ν → ν → Prop} {t' t'' : Table ν}

/-- Tables that bind the same keys, to related values. -/
def Rel (R : ν → ν → Prop) (t t' : Table ν) : Prop :=
  ∀ k, Option.Rel R (t.lookup k) (t'.lookup k)

theorem Rel.refl (h : ∀ v, R v v) (t : Table ν) : Rel R t t := by
  intro k
  cases t.lookup k with
  | none => exact .none
  | some v => exact .some (h v)

/-- A value of the first table is related to one of the second. -/
theorem Rel.lookup (h : Rel R t t') (hv : t.lookup k = some v) :
    ∃ v', t'.lookup k = some v' ∧ R v v' := by
  have hk := h k
  rw [hv] at hk
  cases hk' : t'.lookup k with
  | none => rw [hk'] at hk; cases hk
  | some v' => rw [hk'] at hk; cases hk with | some hr => exact ⟨v', rfl, hr⟩

theorem Rel.lookup_none (h : Rel R t t') : t.lookup k = none ↔ t'.lookup k = none := by
  have hk := h k
  constructor
  · intro hn
    rw [hn] at hk
    cases hk' : t'.lookup k with
    | none => rfl
    | some v => rw [hk'] at hk; cases hk
  · intro hn
    rw [hn] at hk
    cases hk' : t.lookup k with
    | none => rfl
    | some v => rw [hk'] at hk; cases hk

theorem Rel.trans {R' R'' : ν → ν → Prop} (h : Rel R t t') (h' : Rel R' t' t'')
    (htrans : ∀ u v w, R u v → R' v w → R'' u w) : Rel R'' t t'' := by
  intro k
  cases hk : t.lookup k with
  | none =>
    rw [h'.lookup_none.1 (h.lookup_none.1 hk)]
    exact .none
  | some u =>
    obtain ⟨v, hv, huv⟩ := h.lookup hk
    obtain ⟨w, hw, hvw⟩ := h'.lookup hv
    rw [hw]
    exact .some (htrans u v w huv hvw)

/-- Replacing a value by a related one. -/
theorem Rel.upsert (hrefl : ∀ v, R v v) (hv : t.lookup k = some v) (hr : R v w)
    (hkey : Keyed.key w = Keyed.key v) : Rel R t (t.upsert w) := by
  intro j
  rw [lookup_upsert]
  split
  case isTrue hj =>
    rw [hj, hkey, key_of_lookup hv, hv]
    exact .some hr
  case isFalse => exact Rel.refl hrefl t j

end Related

section Total

variable {M : Type*} [AddCommGroup M]

/-- The sum of a weight over all values. -/
def total (f : ν → M) (t : Table ν) : M :=
  t.map.total fun _ => f

/-- The weight of the value under a key, nothing when there is none. -/
def weight (f : ν → M) (t : Table ν) (k : κ) : M :=
  (t.lookup k).elim 0 f

variable (f : ν → M)

@[simp] theorem total_empty : total f (empty : Table ν) = 0 := rfl

theorem weight_of_lookup (h : t.lookup k = some v) : weight f t k = f v := by
  simp [weight, h]

theorem weight_of_none (h : t.lookup k = none) : weight f t k = 0 := by
  simp [weight, h]

/-- Storing a value replaces the weight of its key. -/
theorem total_upsert (t : Table ν) (v : ν) :
    total f (t.upsert v) = total f t - weight f t (Keyed.key v) + f v :=
  FMap.total_insert _ _ _ _

/-- Erasing a key takes off the weight of its value. -/
theorem total_erase (t : Table ν) (k : κ) : total f (t.erase k) = total f t - weight f t k :=
  FMap.total_erase _ _ _

theorem total_sub (f g : ν → M) (t : Table ν) :
    total (fun v => f v - g v) t = total f t - total g t := by
  simp only [total, FMap.total]
  induction t.map.entries with
  | nil => simp
  | cons e l ih => simp only [map_cons, sum_cons, ih, add_sub_add_comm]

theorem total_nonneg {f : ν → Int} (t : Table ν) (h : ∀ k v, t.lookup k = some v → 0 ≤ f v) :
    0 ≤ total f t := by
  rw [total, FMap.total]
  apply sum_nonneg
  intro x hx
  obtain ⟨e, he, rfl⟩ := mem_map.1 hx
  exact h e.1 e.2 (FMap.mem_entries.1 he)

/-- A sum of weights that are not negative is at least each of them. -/
theorem le_total {f : ν → Int} (hv : t.lookup k = some v)
    (h : ∀ k v, t.lookup k = some v → 0 ≤ f v) : f v ≤ total f t := by
  have hrest : 0 ≤ total f (t.erase k) := by
    apply total_nonneg
    intro j w hw
    rw [lookup_erase] at hw
    split at hw
    case isTrue => cases hw
    case isFalse => exact h j w hw
  rw [total_erase, weight_of_lookup f hv] at hrest
  omega

theorem total_eq_sum (t : Table ν) : total f t = (t.values.map f).sum := by
  simp only [total, FMap.total, values, map_map]
  rfl

end Total

end Table

end SpnCore.Lib
