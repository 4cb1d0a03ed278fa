import SpnCore.Lib.Checked
import SpnCore.Lib.Table

/-!
# Changes of a table

A change says what a table holds under a key before and after it. A table of changes takes a table
to another one, and a sum over the values grows by what the changes make of it (`total_apply`).
A loop that tallies changes ends with their sum (`foldlM_sum`).
-/

namespace SpnCore.Lib

open List

/-- What is said about a key: a value before and one after. -/
structure Versions (κ ν : Type) where
  key : κ
  current : Option ν
  previous : Option ν

/-- The value under a key before and after. -/
structure Change (ν : Type) {κ : Type} [Keyed ν κ] extends Versions κ ν where
  key_current : ∀ v, current = some v → Keyed.key v = key
  key_previous : ∀ v, previous = some v → Keyed.key v = key

variable {ν κ : Type} [Keyed ν κ] {M : Type*} [AddCommGroup M] {c : Change ν}

instance : Keyed (Change ν) κ := ⟨fun c => c.key⟩

@[simp] theorem key_change (c : Change ν) : Keyed.key c = c.key := rfl

namespace Change

/-- What a change adds to the sum of a weight. -/
def gain (f : ν → M) (c : Change ν) : M :=
  c.current.elim 0 f - c.previous.elim 0 f

/-- The entry that exists after the change, or else before it. -/
theorem key_of_either {v : ν} (h : (c.current <|> c.previous) = some v) : Keyed.key v = c.key := by
  rcases hcurrent : c.current with _ | w
  · rw [hcurrent] at h
    exact c.key_previous v h
  · rw [hcurrent] at h
    exact c.key_current v (hcurrent.trans h)

/-- Weights that agree on the values under the key of a change agree on the change. -/
theorem gain_congr {f g : ν → M} (h : ∀ v, Keyed.key v = c.key → f v = g v) :
    c.gain f = c.gain g := by
  have hcurrent : c.current.elim 0 f = c.current.elim 0 g := by
    cases hv : c.current with
    | none => rfl
    | some v => exact h v (c.key_current v hv)
  have hprevious : c.previous.elim 0 f = c.previous.elim 0 g := by
    cases hv : c.previous with
    | none => rfl
    | some v => exact h v (c.key_previous v hv)
  rw [gain, gain, hcurrent, hprevious]

@[simp] theorem gain_zero (c : Change ν) : c.gain (fun _ => (0 : M)) = 0 := by
  have helim : ∀ o : Option ν, (o.elim 0 fun _ => (0 : M)) = 0 := by
    intro o
    cases o <;> rfl
  rw [gain, helim, helim, sub_zero]

/-- A homomorphism takes what a change adds to what it adds to the images. -/
theorem map_gain {N : Type*} [AddCommGroup N] (φ : M →+ N) (f : ν → M) (c : Change ν) :
    φ (c.gain f) = c.gain fun v => φ (f v) := by
  have helim : ∀ o : Option ν, φ (o.elim 0 f) = o.elim 0 fun v => φ (f v) := by
    intro o
    cases o with
    | none => exact map_zero φ
    | some v => rfl
  rw [gain, map_sub, helim, helim, gain]

end Change

namespace Table

variable [DecidableEq κ]

/-- The table after one change. -/
def change (t : Table ν) (c : Change ν) : Table ν :=
  match c.current with
  | some v => t.upsert v
  | none => t.erase c.key

/-- The table after all changes. -/
def apply (t : Table ν) (changes : Table (Change ν)) : Table ν :=
  changes.values.foldl change t

/-- The changes start from what the table holds. -/
def ChangedBy (t : Table ν) (changes : Table (Change ν)) : Prop :=
  ∀ c ∈ changes.values, t.lookup c.key = c.previous

variable {t : Table ν} {changes : Table (Change ν)} {k : κ}

theorem lookup_change (t : Table ν) (c : Change ν) (k : κ) :
    (t.change c).lookup k = if k = c.key then c.current else t.lookup k := by
  unfold change
  split
  case h_1 v hv => rw [lookup_upsert, c.key_current v hv, hv]
  case h_2 hv => rw [lookup_erase, hv]

/-- What is found after the changes. -/
theorem lookup_apply (t : Table ν) (changes : Table (Change ν)) (k : κ) :
    (t.apply changes).lookup k = (changes.lookup k).elim (t.lookup k) fun c => c.current :=
  foldl_values (f := change) (o := fun k t => t.lookup k) (g := fun c _ => c.current) changes
    (fun t c k => lookup_change t c k) k

theorem total_change (f : ν → M) (h : t.lookup c.key = c.previous) :
    total f (t.change c) = total f t + c.gain f := by
  have hweight : weight f t c.key = c.previous.elim 0 f := by rw [weight, h]
  unfold change
  split
  case h_1 v hv =>
    rw [total_upsert, c.key_current v hv, hweight, Change.gain, hv, Option.elim_some]
    abel
  case h_2 hv =>
    rw [total_erase, hweight, Change.gain, hv, Option.elim_none]
    abel

/-- The changes of a sum add up. -/
theorem total_apply_changes (f : ν → M) (h : t.ChangedBy changes) :
    total f (t.apply changes) = total f t + changes.total (Change.gain f) := by
  have hloop : ∀ (l : List (Change ν)) (s : Table ν), l.Pairwise (fun c d => c.key ≠ d.key) →
      (∀ c ∈ l, s.lookup c.key = c.previous) →
      total f (l.foldl change s) = total f s + (l.map (Change.gain f)).sum := by
    intro l
    induction l with
    | nil => intro s _ _; simp
    | cons c l ih =>
      intro s hdistinct hprevious
      obtain ⟨hc, hdistinct⟩ := pairwise_cons.1 hdistinct
      -- the other changes still start from what the table holds
      have hrest : ∀ d ∈ l, (s.change c).lookup d.key = d.previous := by
        intro d hd
        rw [lookup_change, if_neg (hc d hd).symm]
        exact hprevious d (mem_cons_of_mem c hd)
      rw [foldl_cons, ih _ hdistinct hrest, total_change f (hprevious c mem_cons_self),
        map_cons, sum_cons, add_assoc]
  rw [total_eq_sum (Change.gain f)]
  exact hloop changes.values t changes.values_pairwise h

end Table

/-- A loop whose rounds each add an amount. -/
theorem foldlM_sum {ε α β : Type} {f : β → α → Except ε β} {o : β → M} {g : α → M} {l : List α}
    (hround : ∀ b a c, f b a = .ok c → o c = o b + g a) {b c : β} (h : l.foldlM f b = .ok c) :
    o c = o b + (l.map g).sum := by
  induction l generalizing b with
  | nil =>
    have hc : b = c := pure_eq_ok.1 h
    simp [hc]
  | cons a l ih =>
    rw [foldlM_cons] at h
    obtain ⟨d, hd, hrest⟩ := bind_eq_ok.1 h
    rw [ih hrest, hround b a d hd, map_cons, sum_cons, add_assoc]

theorem toOption_eq_some {ε α : Type} {x : Except ε α} {a : α} :
    x.toOption = some a ↔ x = .ok a := by
  cases x <;> simp [Except.toOption]

/-- A loop that returns does so as well when its errors are forgotten. -/
theorem toOption_foldlM {ε α β : Type} {f : β → α → Except ε β} {l : List α} {b c : β}
    (h : l.foldlM f b = .ok c) : l.foldlM (fun b a => (f b a).toOption) b = some c := by
  induction l generalizing b with
  | nil => exact congrArg some (pure_eq_ok.1 h)
  | cons a l ih =>
    rw [foldlM_cons] at h ⊢
    obtain ⟨d, hd, hrest⟩ := bind_eq_ok.1 h
    rw [hd]
    exact ih hrest

end SpnCore.Lib
