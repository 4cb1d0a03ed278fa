import SpnCore.Buckets.BucketList

/-!
# The buckets to download for an archived state

`differingBuckets` lists the buckets of an archived state that the local state does not hold. They
are what `assumeState` and `restartMerges` look up later, in another order.
-/

namespace SpnCore.History

open Buckets (kNumLevels)

-- hashes in hexadecimal
variable {η : Type} [DecidableEq η]

/-- `FutureBucket` by its state. Live buckets are given by their hashes, and a running merge also by
the output that it will have. -/
inductive FutureBucket (η : Type) where
  | clear
  | liveInputs (curr snap : η) (shadows : List η) (output : η)
  | liveOutput (output : η)
  | hashInputs (curr snap : η) (shadows : List η)
  | hashOutput (output : η)

namespace FutureBucket

def isMerging : FutureBucket η → Bool
  | .liveInputs _ _ _ _ => true
  | .clear | .liveOutput _ | .hashInputs _ _ _ | .hashOutput _ => false

/-- `resolve` if the bucket is live. -/
def resolveIfLive : FutureBucket η → FutureBucket η
  | .liveInputs _ _ _ output => .liveOutput output
  | next => next

/-- The hash of the output, if there is one yet. -/
def outputHash? : FutureBucket η → Option η
  | .liveOutput output | .hashOutput output => some output
  | .clear | .liveInputs _ _ _ _ | .hashInputs _ _ _ => none

def hasInputHashes : FutureBucket η → Bool
  | .hashInputs _ _ _ => true
  | .clear | .liveInputs _ _ _ _ | .liveOutput _ | .hashOutput _ => false

end FutureBucket

structure HistoryStateBucket (η : Type) where
  curr : η
  next : FutureBucket η
  snap : η

structure HistoryArchiveState (η : Type) where
  currentBuckets : Vector (HistoryStateBucket η) kNumLevels

namespace HistoryArchiveState

def futuresAllResolved (has : HistoryArchiveState η) : Bool :=
  has.currentBuckets.toList.all fun level => !level.next.isMerging

/-- The buckets that a state holds once its merges are done. -/
def held (has : HistoryArchiveState η) : List η :=
  has.currentBuckets.toList.flatMap fun b =>
    b.curr :: (b.next.resolveIfLive.outputHash?.toList ++ [b.snap])

/-- The hashes that are not listed any more, and the list. -/
structure Listing (η : Type) where
  inhibit : List η
  ret : List η := []

def Listing.push (listing : Listing η) (j : η) : Listing η :=
  if j ∈ listing.inhibit then listing
  else { inhibit := j :: listing.inhibit, ret := listing.ret ++ [j] }

/-- Lists `snap`, the output of the merge and `curr` of each level, from the last level to the
first. -/
def differingBuckets (zero : η) (has other : HistoryArchiveState η) : Option (List η) :=
  if has.futuresAllResolved then
    some (has.currentBuckets.toList.reverse.foldl
      (fun listing level =>
        [level.snap, level.next.outputHash?.getD level.snap, level.curr].foldl Listing.push listing)
      { inhibit := zero :: other.held }).ret
  else none

end HistoryArchiveState

/-! ### Assuming a state -/

inductive AssumeError where
  /-- "Missing bucket files while assuming saved BucketList state" -/
  | missingFiles
  /-- A null pointer or a failed assertion in `makeLive`. -/
  | noBucket
deriving DecidableEq

/-- `getBucketByHash` returns a bucket: the empty one, or one with a file. -/
def getBucketByHash (zero : η) (files : η → Bool) (hash : η) : Bool :=
  decide (hash = zero) || files hash

/-- `restartMerges` on a level: what `FutureBucket::makeLive` stops with, if there are hashes. -/
def restartMerge (zero : η) (files : η → Bool) : FutureBucket η → Option AssumeError
  | .hashOutput output => if getBucketByHash zero files output then none else some .noBucket
  | .hashInputs curr snap shadows =>
    if (curr :: snap :: shadows).all (getBucketByHash zero files) then none else some .noBucket
  | .clear | .liveInputs _ _ _ _ | .liveOutput _ => none

/-- `BucketManagerImpl::assumeState`: what it stops with, if anything. -/
def assumeState (zero : η) (files : η → Bool) (has : HistoryArchiveState η) : Option AssumeError :=
  let missing := has.currentBuckets.toList.findSome? fun level =>
    if getBucketByHash zero files level.curr && getBucketByHash zero files level.snap then none
    else some .missingFiles
  missing.or (has.currentBuckets.toList.findSome? fun level => restartMerge zero files level.next)

/-! ### The list is sufficient and minimal -/

section Listing

open HistoryArchiveState

variable {start l : List η} {listing : Listing η}

/-- What holds of the list while it is made. -/
structure Listed (start : List η) (listing : Listing η) : Prop where
  nodup : listing.ret.Nodup
  new : ∀ j ∈ listing.ret, j ∉ start
  inhibit : ∀ j, j ∈ listing.inhibit ↔ j ∈ start ∨ j ∈ listing.ret

theorem Listed.push (h : Listed start listing) (j : η) : Listed start (listing.push j) := by
  unfold Listing.push
  split
  case isTrue => exact h
  case isFalse hnew =>
    rw [h.inhibit, not_or] at hnew
    refine ⟨List.nodup_append.2 ⟨h.nodup, List.nodup_singleton j, ?_⟩, ?_, fun k => ?_⟩
    · rintro a ha b hb rfl
      exact hnew.2 (List.mem_singleton.1 hb ▸ ha)
    · intro k hk
      rcases List.mem_append.1 hk with hk | hk
      · exact h.new k hk
      · exact List.mem_singleton.1 hk ▸ hnew.1
    · rw [List.mem_cons, h.inhibit, List.mem_append, List.mem_singleton]
      tauto

/-- What is passed is listed unless it is in the list or inhibited, and nothing else is. -/
theorem Listed.foldl (h : Listed start listing) :
    Listed start (l.foldl Listing.push listing) ∧
    ∀ j, j ∈ (l.foldl Listing.push listing).inhibit ↔ j ∈ listing.inhibit ∨ j ∈ l := by
  induction l generalizing listing with
  | nil => exact ⟨h, fun j => by simp⟩
  | cons i l ih =>
    obtain ⟨hlisted, hinhibit⟩ := ih (h.push i)
    refine ⟨hlisted, fun j => ?_⟩
    have hpush : j ∈ (listing.push i).inhibit ↔ j ∈ listing.inhibit ∨ j = i := by
      unfold Listing.push
      split
      case isTrue hi =>
        refine ⟨Or.inl, ?_⟩
        rintro (hj | rfl)
        · exact hj
        · exact hi
      case isFalse => rw [List.mem_cons, or_comm]
    rw [List.foldl_cons, hinhibit, hpush, List.mem_cons, or_assoc]

end Listing

/-- What is looked up for a level when a state is assumed whose merges are done. -/
def HistoryStateBucket.LooksUp (level : HistoryStateBucket η) (j : η) : Prop :=
  j = level.curr ∨ j = level.snap ∨ level.next.outputHash? = some j

/-- When all that is looked up is there, only input hashes can stop a state from being assumed. -/
theorem assumeState_found {zero : η} {files : η → Bool} {has : HistoryArchiveState η}
    (hfound : ∀ level ∈ has.currentBuckets.toList, ∀ j, level.LooksUp j →
      getBucketByHash zero files j = true) {e : AssumeError}
    (he : assumeState zero files has = some e) :
    e = .noBucket ∧ ∃ level ∈ has.currentBuckets.toList, level.next.hasInputHashes = true := by
  have hnone : (has.currentBuckets.toList.findSome? fun level =>
      if getBucketByHash zero files level.curr && getBucketByHash zero files level.snap then none
      else some AssumeError.missingFiles) = none := by
    rw [List.findSome?_eq_none_iff]
    intro level hlevel
    simp [hfound level hlevel level.curr (Or.inl rfl),
      hfound level hlevel level.snap (Or.inr (Or.inl rfl))]
  rw [assumeState, hnone, Option.none_or] at he
  obtain ⟨level, hlevel, hrestart⟩ := List.exists_of_findSome?_eq_some he
  have hlook := hfound level hlevel
  unfold HistoryStateBucket.LooksUp at hlook
  cases hnext : level.next with
  | hashOutput output =>
    have houtput := hlook output (Or.inr (Or.inr (by rw [hnext]; rfl)))
    simp [hnext, restartMerge, houtput] at hrestart
  | hashInputs curr snap shadows =>
    rw [hnext, restartMerge] at hrestart
    split at hrestart
    · cases hrestart
    · cases hrestart
      exact ⟨rfl, level, hlevel, by rw [hnext]; rfl⟩
  | _ => simp [hnext, restartMerge] at hrestart

/-- The list of differing buckets has all that is looked up and not held, and nothing twice. With
its files and those of the local state the archived state can be assumed. -/
theorem differingBuckets_sufficient (zero : η) (has other : HistoryArchiveState η)
    (hresolved : has.futuresAllResolved = true) :
    ∃ list, has.differingBuckets zero other = some list ∧ list.Nodup ∧ zero ∉ list ∧
      (∀ j ∈ list, j ∉ other.held) ∧
      (∀ level ∈ has.currentBuckets.toList, ∀ j, level.LooksUp j → j ≠ zero →
        j ∈ other.held ∨ j ∈ list) ∧
      ∀ files, (∀ j, j ∈ other.held ∨ j ∈ list → files j = true) →
        assumeState zero files has ≠ some .missingFiles ∧
        ((∀ level ∈ has.currentBuckets.toList, level.next.hasInputHashes = false) →
          assumeState zero files has = none) := by
  have hstart : Listed (zero :: other.held) { inhibit := zero :: other.held } :=
    ⟨List.nodup_nil, fun j hj => (by cases hj), fun j => (by simp)⟩
  obtain ⟨hlisted, hall⟩ := hstart.foldl (l := has.currentBuckets.toList.reverse.flatMap
    fun level => [level.snap, level.next.outputHash?.getD level.snap, level.curr])
  rw [List.foldl_flatMap] at hlisted hall
  generalize hlisting : List.foldl _ _ has.currentBuckets.toList.reverse = listing at hlisted hall
  have hlook : ∀ level ∈ has.currentBuckets.toList, ∀ j, level.LooksUp j → j ≠ zero →
      j ∈ other.held ∨ j ∈ listing.ret := by
    intro level hlevel j hj hzero
    have hpassed : j ∈ [level.snap, level.next.outputHash?.getD level.snap, level.curr] := by
      rcases hj with rfl | rfl | hj
      · simp
      · simp
      · simp [hj]
    have hmem := (hall j).2
      (Or.inr (List.mem_flatMap.2 ⟨level, List.mem_reverse.2 hlevel, hpassed⟩))
    have hor := (hlisted.inhibit j).1 hmem
    rwa [List.mem_cons, or_assoc, or_iff_right hzero] at hor
  refine ⟨listing.ret, (if_pos hresolved).trans (by rw [← hlisting]), hlisted.nodup,
    fun hzero => hlisted.new _ hzero List.mem_cons_self, fun j hj hheld =>
      hlisted.new j hj (List.mem_cons_of_mem _ hheld), hlook, ?_⟩
  intro files hfiles
  have hfound : ∀ level ∈ has.currentBuckets.toList, ∀ j, level.LooksUp j →
      getBucketByHash zero files j = true := by
    intro level hlevel j hj
    rw [getBucketByHash, Bool.or_eq_true, decide_eq_true_eq, or_iff_not_imp_left]
    exact fun hzero => hfiles j (hlook level hlevel j hj hzero)
  refine ⟨fun he => ?_, fun hnone => ?_⟩
  · cases (assumeState_found hfound he).1
  · rw [Option.eq_none_iff_forall_ne_some]
    intro e he
    obtain ⟨-, level, hlevel, hinputs⟩ := assumeState_found hfound he
    cases hinputs.symm.trans (hnone level hlevel)

theorem differingBuckets_sufficient_new :
    ∃ list, (⟨.replicate _ ⟨1, .hashOutput 2, 0⟩⟩ : HistoryArchiveState Nat).differingBuckets 0
      ⟨.replicate _ ⟨0, .clear, 0⟩⟩ = some list ∧ list.Nodup := by
  obtain ⟨list, hlist, hnodup, -⟩ := differingBuckets_sufficient (0 : Nat)
    ⟨.replicate _ ⟨1, .hashOutput 2, 0⟩⟩ ⟨.replicate _ ⟨0, .clear, 0⟩⟩ (by decide)
  exact ⟨list, hlist, hnodup⟩

end SpnCore.History
