import Mathlib.Logic.Function.Iterate
import Mathlib.Tactic.Ring
import SpnCore.Lib.BitCount

/-!
# Enumerating sets of bits

`PermutationEnumerator` goes through the words of 64 bits with a given number of ones by the next
bit permutation. For fewer than 64 bits it sees each word of this many bits and ones once, in
increasing order, and stops.
-/

namespace SpnCore.Util

open Lib

/-- `std::bitset<64>::count`. -/
def count (bits : BitVec 64) : Nat := onesBelow 64 bits.toNat

structure PermutationEnumerator where
  mCur : BitVec 64
  mSet : Nat
  mTot : Nat
deriving DecidableEq

namespace PermutationEnumerator

/-- The loop that shifts in ones. -/
def shiftIn : Nat → BitVec 64 → BitVec 64
  | 0, cur => cur
  | nSet + 1, cur => shiftIn nSet (cur <<< 1 ||| 1#64)

/-- The constructor, unless one of its assertions fails. -/
def create (nSet nTotal : Nat) : Option PermutationEnumerator := do
  guard (nSet ≤ nTotal)
  guard (0 < nSet ∧ nSet ≤ 64)
  guard (0 < nTotal ∧ nTotal ≤ 64)
  return ⟨shiftIn nSet 0, nSet, nTotal⟩

def reset (e : PermutationEnumerator) : PermutationEnumerator :=
  { e with mCur := shiftIn e.mSet 0 }

/-- `operator bool`. -/
def isLive (e : PermutationEnumerator) : Bool :=
  e.mCur &&& ~~~((1#64 <<< e.mTot) - 1#64) == 0#64

/-- `operator*`, unless the count is not the one asserted. -/
def get (e : PermutationEnumerator) : Option (BitVec 64) := do
  guard (count e.mCur = e.mSet)
  return e.mCur

def uneg (n : BitVec 64) : BitVec 64 := ~~~n + 1#64

/-- `operator++`. -/
def next (e : PermutationEnumerator) : PermutationEnumerator :=
  let t := (e.mCur ||| (e.mCur - 1#64)) + 1#64
  { e with mCur := t ||| ((((t &&& uneg t) / (e.mCur &&& uneg e.mCur)) >>> 1) - 1#64) }

/-- The words seen until `operator bool` turns false, if that is within the given number of rounds
and no assertion fails. -/
def seen : Nat → PermutationEnumerator → Option (List (BitVec 64))
  | 0, _ => none
  | rounds + 1, e =>
    if e.isLive then do
      let bits ← e.get
      let rest ← seen rounds e.next
      return bits :: rest
    else return []

variable {e : PermutationEnumerator} {x : BitVec 64} {a c k r : Nat}

/-! ### The next word -/

theorem toNat_uneg (hx : x.toNat ≠ 0) : (uneg x).toNat = 2 ^ 64 - (x.toNat - 1 + 1) := by
  have hlt := x.isLt
  rw [uneg, BitVec.toNat_add, BitVec.toNat_not, BitVec.toNat_ofNat]
  omega

theorem toNat_sub_one (hx : x.toNat ≠ 0) : (x - 1#64).toNat = x.toNat - 1 := by
  have hlt := x.isLt
  rw [BitVec.toNat_sub, BitVec.toNat_ofNat]
  omega

/-- The bits up to the lowest one. -/
theorem toNat_lowest (hx : x.toNat = 2 ^ a * (2 * c + 1)) :
    (x &&& uneg x).toNat = 2 ^ a ∧ (x ||| (x - 1#64)).toNat = x.toNat + (2 ^ a - 1) := by
  have hpow := Nat.two_pow_pos a
  have hlt := x.isLt
  have hne : x.toNat ≠ 0 := by
    rw [hx]
    exact (Nat.mul_pos hpow (Nat.succ_pos _)).ne'
  have hpred : x.toNat - 1 = 2 ^ a * (2 * c) + (2 ^ a - 1) := by
    rw [hx, mul_add, mul_one]
    omega
  have hone : ∀ i, x.toNat.testBit i = (decide (a ≤ i) && (2 * c + 1).testBit (i - a)) := by
    intro i
    rw [hx, Nat.testBit_two_pow_mul]
  have hless : ∀ i, (x.toNat - 1).testBit i =
      if i < a then true else (2 * c).testBit (i - a) := by
    intro i
    rw [hpred, Nat.testBit_two_pow_mul_add _ (by omega), Nat.testBit_two_pow_sub_one]
    split <;> simp [*]
  have hhalf : (2 * c + 1) / 2 = c := by omega
  have ha : a < 64 := by
    refine (Nat.pow_lt_pow_iff_right (by decide : 1 < 2)).1 (lt_of_le_of_lt ?_ hlt)
    rw [hx]
    exact Nat.le_mul_of_pos_right _ (Nat.succ_pos _)
  constructor
  · refine Nat.eq_of_testBit_eq fun i => ?_
    rw [BitVec.toNat_and, toNat_uneg hne, Nat.testBit_and, Nat.testBit_two_pow_sub_succ (by omega),
      hone, hless, Nat.testBit_two_pow]
    obtain hi | ⟨_ | d, rfl⟩ := (Nat.lt_or_ge i a).imp_right Nat.exists_eq_add_of_le
    · simp [hi, hi.ne']
    · simp [ha]
    · simp +contextual [Nat.testBit_succ, hhalf]
  · refine Nat.eq_of_testBit_eq fun i => ?_
    rw [BitVec.toNat_or, toNat_sub_one hne, Nat.testBit_or, hone, hless, hx,
      Nat.testBit_two_pow_mul_add _ (by omega), Nat.testBit_two_pow_sub_one]
    obtain hi | ⟨_ | d, rfl⟩ := (Nat.lt_or_ge i a).imp_right Nat.exists_eq_add_of_le
    · simp [hi]
    · simp
    · simp [Nat.testBit_succ, hhalf]

/-- `operator++` goes to the next word with as many ones. -/
theorem toNat_next (h : LowestRun e.mCur.toNat a k r) (hlt : e.mCur.toNat < 2 ^ 63) :
    e.next.mCur.toNat = nextWord a k r := by
  obtain ⟨k, rfl⟩ := Nat.exists_eq_add_one_of_ne_zero h.pos.ne'
  have hpow := Nat.two_pow_pos a
  obtain ⟨c, hc⟩ := Nat.exists_eq_add_one_of_ne_zero
    (Nat.mul_pos (Nat.two_pow_pos k) (Nat.succ_pos (2 * r))).ne'
  have hcur : e.mCur.toNat = 2 ^ a * (2 * c + 1) := by
    refine Nat.add_right_cancel (m := 2 ^ a) ?_
    calc e.mCur.toNat + 2 ^ a = 2 ^ (a + (k + 1)) * (2 * r + 1) := h.eq
      _ = 2 ^ a * (2 * (2 ^ k * (2 * r + 1))) := by ring
      _ = 2 ^ a * (2 * (c + 1)) := by rw [hc]
      _ = 2 ^ a * (2 * c + 1) + 2 ^ a := by ring
  have hle : 2 ^ a ≤ e.mCur.toNat := by
    rw [hcur]
    exact Nat.le_mul_of_pos_right _ (Nat.succ_pos _)
  obtain ⟨hlowest, hfilled⟩ := toNat_lowest hcur
  have ht : ((e.mCur ||| (e.mCur - 1#64)) + 1#64).toNat = 2 ^ (a + (k + 1)) * (2 * r + 1) := by
    have heq := h.eq
    rw [BitVec.toNat_add, hfilled, BitVec.toNat_ofNat]
    omega
  unfold next
  generalize (e.mCur ||| (e.mCur - 1#64)) + 1#64 = t at ht
  obtain ⟨hcarry, -⟩ := toNat_lowest ht
  have hquotient : (((t &&& uneg t) / (e.mCur &&& uneg e.mCur)) >>> 1).toNat = 2 ^ k := by
    rw [BitVec.toNat_ushiftRight, BitVec.toNat_udiv, hcarry, hlowest, pow_add,
      Nat.mul_div_cancel_left _ hpow, Nat.shiftRight_one, pow_succ,
      Nat.mul_div_cancel _ (by decide)]
  have hlow : 2 ^ k - 1 < 2 ^ (a + (k + 1)) :=
    (Nat.sub_one_lt (Nat.two_pow_pos k).ne').trans_le (Nat.pow_le_pow_right (by decide) (by omega))
  show (t ||| _).toNat = _
  rw [BitVec.toNat_or, ht, toNat_sub_one (hquotient.trans_ne (Nat.two_pow_pos k).ne'), hquotient,
    nextWord, Nat.add_sub_cancel, Nat.two_pow_add_eq_or_of_lt hlow]

/-! ### The loop -/

theorem isLive_iff (h : e.mTot < 64) : e.isLive = true ↔ e.mCur.toNat < 2 ^ e.mTot := by
  have hone : (1#64 <<< e.mTot).toNat = 2 ^ e.mTot := by
    rw [BitVec.toNat_shiftLeft, BitVec.toNat_ofNat, Nat.shiftLeft_eq,
      Nat.one_mod_two_pow (by decide), one_mul,
      Nat.mod_eq_of_lt (Nat.pow_lt_pow_right (by decide) h)]
  have hmask : ∀ i, ((1#64 <<< e.mTot) - 1#64).getLsbD i = decide (i < e.mTot) := by
    intro i
    rw [← BitVec.testBit_toNat, toNat_sub_one (hone.trans_ne (Nat.two_pow_pos _).ne'), hone,
      Nat.testBit_two_pow_sub_one]
  rw [isLive, beq_iff_eq]
  constructor
  · intro hzero
    refine Nat.lt_pow_two_of_testBit _ fun i hi => ?_
    rw [BitVec.testBit_toNat]
    by_cases hsmall : i < 64
    · have hbit := congrArg (BitVec.getLsbD · i) hzero
      rw [BitVec.getLsbD_and, BitVec.getLsbD_not, hmask, decide_eq_true hsmall,
        decide_eq_false (not_lt.2 hi), BitVec.getLsbD_zero] at hbit
      simpa using hbit
    · exact BitVec.getLsbD_of_ge _ _ (not_lt.1 hsmall)
  · intro hlt
    refine BitVec.eq_of_getLsbD_eq fun i hi => ?_
    by_cases hlow : i < e.mTot
    · simp [hmask, hlow]
    · have hpow := Nat.pow_le_pow_right (by decide : 0 < 2) (not_lt.1 hlow)
      have hbit := Nat.testBit_eq_false_of_lt (hlt.trans_le hpow)
      rw [BitVec.testBit_toNat] at hbit
      simp [hbit]

theorem toNat_shiftIn {n j : Nat} (hx : x.toNat = 2 ^ j - 1) (hj : j + n < 64) :
    (shiftIn n x).toNat = 2 ^ (j + n) - 1 := by
  induction n generalizing x j with
  | zero => exact hx
  | succ n ih =>
    have hlt : 2 ^ (j + 1) < 2 ^ 64 := Nat.pow_lt_pow_right (by decide) (by omega)
    have hpos := Nat.two_pow_pos j
    rw [pow_succ] at hlt
    have hstep : (x <<< 1 ||| 1#64).toNat = 2 ^ (j + 1) - 1 := by
      have hshift : (x <<< 1).toNat = 2 ^ 1 * x.toNat := by
        rw [BitVec.toNat_shiftLeft, Nat.shiftLeft_eq, mul_comm, Nat.mod_eq_of_lt (by omega)]
      rw [BitVec.toNat_or, hshift, BitVec.toNat_ofNat,
        ← Nat.two_pow_add_eq_or_of_lt (by decide : 1 % 2 ^ 64 < 2 ^ 1), hx, pow_succ]
      omega
    rw [shiftIn, ih hstep (by omega), add_right_comm, add_assoc]

/-- From a live word on, the loop sees the words with as many ones in increasing order. -/
theorem exists_seen (hset : 0 < e.mSet) (htot : e.mTot < 64)
    (hcount : e.isLive = true → count e.mCur = e.mSet) :
    ∃ words, (∀ rounds, 2 ^ e.mTot - e.mCur.toNat < rounds → seen rounds e = some words) ∧
      words.Pairwise (· < ·) ∧
      ∀ w, w ∈ words ↔ e.mCur ≤ w ∧ w.toNat < 2 ^ e.mTot ∧ count w = e.mSet := by
  generalize hleft : 2 ^ e.mTot - e.mCur.toNat = left
  induction left using Nat.strong_induction_on generalizing e with
  | h left ih =>
  by_cases hlive : e.isLive = true
  case neg =>
    refine ⟨[], fun rounds hrounds => ?_, List.Pairwise.nil, fun w => ?_⟩
    · obtain ⟨rounds, rfl⟩ := Nat.exists_eq_add_one_of_ne_zero (Nat.ne_zero_of_lt hrounds)
      rw [seen, if_neg hlive]
      rfl
    · rw [isLive_iff htot] at hlive
      simp only [List.not_mem_nil, false_iff, BitVec.le_def]
      omega
  case pos =>
    have hlt := (isLive_iff htot).1 hlive
    have hones := hcount hlive
    have hne : e.mCur.toNat ≠ 0 := by
      intro hzero
      rw [count, hzero, onesBelow_zero] at hones
      omega
    obtain ⟨a, k, r, hrun⟩ := exists_lowestRun hne
    have hnext := toNat_next hrun (hlt.trans_le (Nat.pow_le_pow_right (by decide) (by omega)))
    have hmore := hrun.lt_nextWord
    have hwidth : a + k < 64 := (hrun.length_le hlt).trans_lt htot
    have hsame : count e.next.mCur = e.mSet := by
      rw [← hones, count, count, hnext]
      exact hrun.onesBelow_nextWord hwidth
    obtain ⟨words, hseen, hsorted, hwords⟩ :=
      ih (2 ^ e.mTot - nextWord a k r) (by omega) (e := e.next) hset htot (fun _ => hsame)
        (by rw [hnext]; rfl)
    refine ⟨e.mCur :: words, fun rounds hrounds => ?_,
      List.pairwise_cons.2 ⟨fun w hw => ?_, hsorted⟩, fun w => ?_⟩
    · obtain ⟨rounds, rfl⟩ := Nat.exists_eq_add_one_of_ne_zero (Nat.ne_zero_of_lt hrounds)
      rw [seen, if_pos hlive, get, guard, if_pos hones, hseen rounds (by omega)]
      rfl
    · have hle := ((hwords w).1 hw).1
      rw [BitVec.le_def, hnext] at hle
      exact BitVec.lt_def.2 (hmore.trans_le hle)
    · rw [List.mem_cons, hwords, BitVec.le_def, BitVec.le_def, hnext]
      constructor
      · rintro (rfl | ⟨hle, hw⟩)
        · exact ⟨le_rfl, hlt, hones⟩
        · exact ⟨hmore.le.trans hle, hw⟩
      · rintro ⟨hle, hw⟩
        obtain heq | hless := hle.eq_or_lt
        · exact Or.inl (BitVec.eq_of_toNat_eq heq.symm)
        · exact Or.inr ⟨hrun.nextWord_le hwidth hless (hw.2.trans hones.symm), hw⟩

/-- From construction or a reset, the words seen before `operator bool` turns false are the words of
`nTotal` bits with `nSet` ones, in increasing order. No assertion fails. -/
theorem seen_create {nSet nTotal : Nat} (hset : 1 ≤ nSet) (hle : nSet ≤ nTotal)
    (htotal : nTotal < 64) :
    ∃ e words, create nSet nTotal = some e ∧ (∀ n, (next^[n] e).reset = e) ∧
      (∀ rounds, 2 ^ nTotal < rounds → seen rounds e = some words) ∧
      words.Pairwise (· < ·) ∧ ∀ w, w ∈ words ↔ w.toNat < 2 ^ nTotal ∧ count w = nSet := by
  have hfirst : (shiftIn nSet 0).toNat = 2 ^ nSet - 1 := by
    rw [toNat_shiftIn (j := 0) rfl (by omega), zero_add]
  have hpow := Nat.two_pow_pos nSet
  obtain ⟨words, hseen, hsorted, hwords⟩ := exists_seen (e := ⟨shiftIn nSet 0, nSet, nTotal⟩) hset
    htotal fun _ => by
      rw [count, hfirst, onesBelow_of_lt (by omega) (by omega : nSet ≤ 64), onesBelow_full]
  refine ⟨⟨shiftIn nSet 0, nSet, nTotal⟩, words, ?_, fun n => ?_, fun rounds hrounds => ?_, hsorted,
    fun w => ?_⟩
  · simp [create, guard, hle, show 0 < nSet ∧ nSet ≤ 64 by omega,
      show 0 < nTotal ∧ nTotal ≤ 64 by omega]
  · induction n with
    | zero => rfl
    | succ n ih => rw [Function.iterate_succ_apply']; exact ih
  · exact hseen rounds ((Nat.sub_le _ _).trans_lt hrounds)
  · rw [hwords, BitVec.le_def, hfirst]
    refine and_iff_right_of_imp fun hw => ?_
    -- a smaller word has fewer ones
    by_contra hless
    have hfewer := onesBelow_lt (not_le.1 hless)
    rw [count, onesBelow_of_lt (p := nSet) (by omega) (by omega)] at hw
    exact hfewer.ne hw.2

theorem seen_create_two_of_four : ∃ e words, create 2 4 = some e ∧ seen 17 e = some words ∧
    ∀ w, w ∈ words ↔ w.toNat < 2 ^ 4 ∧ count w = 2 := by
  obtain ⟨e, words, he, -, hseen, -, hwords⟩ := seen_create (by decide : 1 ≤ 2) (by decide : 2 ≤ 4)
    (by decide)
  exact ⟨e, words, he, hseen 17 (by decide), hwords⟩

end PermutationEnumerator

end SpnCore.Util
