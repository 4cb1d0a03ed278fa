import SpnCore.Buckets.Bucket

/-!
# What a merged bucket holds

Buckets with increasing keys never put a record out of order, so a merge goes through. The merged
bucket has increasing keys and holds, for a key that no shadow has, the record of the newer bucket
or else that of the older one, unless it is a deletion that is not kept.
-/

namespace SpnCore.Buckets

open Lib Ledger

variable {b old new : Bucket} {e : Record} {shadows : List Bucket} {keepDeadEntries : Bool}

/-- The records that an output iterator keeps. -/
def kept (keepDeadEntries : Bool) (record : Record) : Bool :=
  keepDeadEntries || !isDead record

/-- A bucket holds the key. -/
def holds (key : LedgerKey) (b : Bucket) : Bool :=
  (findKey b key).isSome

/-! ### The output iterator -/

/-- A record that comes after the one held back is appended. -/
theorem put_spec {out : BucketOutputIterator}
    (h : ∀ buffered ∈ out.buf, (Keyed.key buffered : LedgerKey) < Keyed.key e) :
    ∃ out', out.put e = some out' ∧ out'.keepDeadEntries = out.keepDeadEntries ∧
      (∀ buffered ∈ out'.buf, buffered = e ∨ buffered ∈ out.buf) ∧
      out'.getBucket = out.getBucket ++ [e].filter (kept out.keepDeadEntries) := by
  unfold BucketOutputIterator.put
  by_cases hdrop : (!out.keepDeadEntries && isDead e) = true
  · refine ⟨out, by rw [if_pos hdrop], rfl, fun _ => Or.inr, ?_⟩
    simp only [Bool.and_eq_true, Bool.not_eq_true'] at hdrop
    simp [kept, hdrop.1, hdrop.2]
  · have hkept : kept out.keepDeadEntries e = true := by
      simp only [Bool.and_eq_true, Bool.not_eq_true', not_and, Bool.not_eq_true] at hdrop
      cases hkeep : out.keepDeadEntries with
      | true => rfl
      | false => simp [kept, hdrop hkeep]
    rw [if_neg hdrop]
    cases hbuf : out.buf with
    | none =>
      refine ⟨{ out with buf := some e }, rfl, rfl, ?_, ?_⟩
      · rintro _ ⟨⟩
        exact Or.inl rfl
      · simp [BucketOutputIterator.getBucket, hbuf, hkept]
    | some buffered =>
      have hlt := h buffered hbuf
      refine ⟨{ out with written := out.written ++ [buffered], buf := some e }, ?_, rfl, ?_, ?_⟩
      · simp only [if_neg (not_lt_of_gt hlt), if_pos hlt]
      · rintro _ ⟨⟩
        exact Or.inl rfl
      · simp [BucketOutputIterator.getBucket, hbuf, hkept]

/-- Records with increasing keys are written one after the other. -/
theorem foldlM_put (hb : Increasing b) (out : BucketOutputIterator)
    (h : ∀ buffered ∈ out.buf, ∀ x ∈ b, (Keyed.key buffered : LedgerKey) < Keyed.key x) :
    ∃ out', b.foldlM BucketOutputIterator.put out = some out' ∧
      out'.getBucket = out.getBucket ++ b.filter (kept out.keepDeadEntries) := by
  induction b generalizing out with
  | nil => exact ⟨out, rfl, by simp⟩
  | cons e b ih =>
    obtain ⟨he, hb⟩ := List.pairwise_cons.1 hb
    obtain ⟨mid, hput, hkeep, hbuf, hmid⟩ :=
      put_spec fun buffered hbuffered => h buffered hbuffered e List.mem_cons_self
    have hmid' : ∀ buffered ∈ mid.buf, ∀ x ∈ b, (Keyed.key buffered : LedgerKey) < Keyed.key x := by
      intro buffered hbuffered x hx
      rcases hbuf buffered hbuffered with rfl | hbuffered
      · exact he x hx
      · exact h buffered hbuffered x (List.mem_cons_of_mem e hx)
    obtain ⟨out', hrun, hout⟩ := ih hb mid hmid'
    refine ⟨out', by rw [List.foldlM_cons, hput]; exact hrun, ?_⟩
    rw [hout, hmid, hkeep, List.append_assoc, ← List.filter_append, List.singleton_append]

/-! ### Shadows -/

/-- Dropping smaller keys changes nothing for greater ones. -/
theorem findKey_dropWhile {key k : LedgerKey} (hk : key ≤ k) :
    findKey (b.dropWhile fun x => decide ((Keyed.key x : LedgerKey) < key)) k = findKey b k := by
  induction b with
  | nil => rfl
  | cons x b ih =>
    by_cases hx : (Keyed.key x : LedgerKey) < key
    · rw [List.dropWhile_cons_of_pos (by simpa using hx), ih, findKey_cons,
        if_neg (hx.trans_le hk).ne]
    · rw [List.dropWhile_cons_of_neg (by simpa using hx)]

/-- Once the smaller keys are dropped, a key can only be the first one. -/
theorem head_dropWhile (hb : Increasing b) (key : LedgerKey) :
    ((b.dropWhile fun x => decide ((Keyed.key x : LedgerKey) < key)).head?.any
      fun x => !decide (key < Keyed.key x)) = holds key b := by
  induction b with
  | nil => rfl
  | cons x b ih =>
    obtain ⟨hx, hb⟩ := List.pairwise_cons.1 hb
    by_cases hlt : (Keyed.key x : LedgerKey) < key
    · rw [List.dropWhile_cons_of_pos (by simpa using hlt), ih hb, holds, holds, findKey_cons,
        if_neg hlt.ne]
    · rw [List.dropWhile_cons_of_neg (by simpa using hlt), holds, findKey_cons]
      rcases (not_lt.1 hlt).lt_or_eq with hgt | heq
      · have hnone : findKey b key = none :=
          findKey_eq_none.2 fun y hy => (hgt.trans (hx y hy)).ne'
        simp [hgt, hgt.ne', hnone]
      · simp [heq]

/-- Searching the shadows finds a key that one of them has, and leaves them the same for greater
keys. -/
theorem searchShadows_spec (hshadows : ∀ s ∈ shadows, Increasing s) (e : Record) :
    (searchShadows e shadows).1 = shadows.any (holds (Keyed.key e)) ∧
    (∀ s ∈ (searchShadows e shadows).2, Increasing s) ∧
    ∀ k, (Keyed.key e : LedgerKey) ≤ k →
      (searchShadows e shadows).2.any (holds k) = shadows.any (holds k) := by
  induction shadows with
  | nil => exact ⟨rfl, hshadows, fun _ _ => rfl⟩
  | cons s shadows ih =>
    have hs := hshadows s List.mem_cons_self
    obtain ⟨ihfound, ihsorted, ihsame⟩ := ih fun t ht => hshadows t (List.mem_cons_of_mem s ht)
    have hdrop :
        Increasing (s.dropWhile fun x => decide ((Keyed.key x : LedgerKey) < Keyed.key e)) :=
      List.Pairwise.sublist (List.dropWhile_sublist _) hs
    have hsame : ∀ k, (Keyed.key e : LedgerKey) ≤ k →
        holds k (s.dropWhile fun x => decide ((Keyed.key x : LedgerKey) < Keyed.key e)) =
          holds k s := fun k hk => by rw [holds, holds, findKey_dropWhile hk]
    rw [searchShadows, head_dropWhile hs]
    simp only [List.any_cons]
    cases hfound : holds (Keyed.key e) s with
    | true =>
      refine ⟨rfl, ?_, fun k hk => by simp only [if_true, List.any_cons, hsame k hk]⟩
      exact List.forall_mem_cons.2
        ⟨hdrop, fun t ht => hshadows t (List.mem_cons_of_mem s ht)⟩
    | false =>
      refine ⟨by simpa using ihfound, List.forall_mem_cons.2 ⟨hdrop, ihsorted⟩, fun k hk => ?_⟩
      simp only [Bool.false_eq_true, if_false, List.any_cons, hsame k hk, ihsame k hk]

/-! ### The merge -/

/-- The loop puts the records of both buckets in the order of their keys. -/
theorem mergeWith_eq {o : Record} {rest : Bucket → Merge → Option Merge} {list : Bucket → Bucket}
    (hrest : ∀ ni m, rest ni m = (list ni).foldlM maybePut m) (ni : Bucket) (m : Merge) :
    mergeWith o rest ni m = (interleaveWith o list ni).foldlM maybePut m := by
  induction ni generalizing m with
  | nil => rw [mergeWith, interleaveWith, List.foldlM_cons, funext (hrest [])]
  | cons n ni ih =>
    rw [mergeWith, interleaveWith]
    split_ifs
    · rw [List.foldlM_cons, funext (hrest (n :: ni))]
    · rw [List.foldlM_cons, funext ih]
    · rw [List.foldlM_cons, funext (hrest ni)]

theorem mergeLoop_eq (oi ni : Bucket) (m : Merge) :
    mergeLoop oi ni m = (interleave oi ni).foldlM maybePut m := by
  induction oi generalizing ni m with
  | nil => rfl
  | cons o oi ih => exact mergeWith_eq ih ni m

/-- Records with increasing keys are put unless they are shadowed. -/
theorem foldlM_maybePut (hb : Increasing b) {m : Merge}
    (hshadows : ∀ s ∈ m.shadowIterators, Increasing s)
    (h : ∀ buffered ∈ m.out.buf, ∀ x ∈ b, (Keyed.key buffered : LedgerKey) < Keyed.key x) :
    ∃ m', b.foldlM maybePut m = some m' ∧
      m'.out.getBucket = m.out.getBucket ++ b.filter fun x =>
        !m.shadowIterators.any (holds (Keyed.key x)) && kept m.out.keepDeadEntries x := by
  induction b generalizing m with
  | nil => exact ⟨m, rfl, by simp⟩
  | cons e b ih =>
    obtain ⟨he, hb⟩ := List.pairwise_cons.1 hb
    obtain ⟨hfound, hsorted, hsame⟩ := searchShadows_spec hshadows e
    -- the rest of the bucket has greater keys
    have hrest : ∀ x ∈ b, (searchShadows e m.shadowIterators).2.any (holds (Keyed.key x)) =
        m.shadowIterators.any (holds (Keyed.key x)) := fun x hx => hsame _ (he x hx).le
    have hfilter : ∀ keep, (b.filter fun x => !(searchShadows e m.shadowIterators).2.any
        (holds (Keyed.key x)) && kept keep x) =
        b.filter fun x => !m.shadowIterators.any (holds (Keyed.key x)) && kept keep x :=
      fun keep => List.filter_congr fun x hx => by rw [hrest x hx]
    simp only [List.foldlM_cons, maybePut, hfound]
    cases hshadowed : m.shadowIterators.any (holds (Keyed.key e)) with
    | true =>
      obtain ⟨m', hrun, hout⟩ := ih hb (m := { m with
        shadowIterators := (searchShadows e m.shadowIterators).2 }) hsorted
        fun buffered hbuffered x hx => h buffered hbuffered x (List.mem_cons_of_mem e hx)
      refine ⟨m', by simpa using hrun, ?_⟩
      rw [hout, hfilter, List.filter_cons_of_neg (by simp [hshadowed])]
    | false =>
      obtain ⟨out, hput, hkeep, hbuf, hgot⟩ :=
        put_spec fun buffered hbuffered => h buffered hbuffered e List.mem_cons_self
      obtain ⟨m', hrun, hout⟩ := ih hb (m :=
        { out, shadowIterators := (searchShadows e m.shadowIterators).2 }) hsorted
        fun buffered hbuffered x hx => by
          rcases hbuf buffered hbuffered with rfl | hbuffered
          · exact he x hx
          · exact h buffered hbuffered x (List.mem_cons_of_mem e hx)
      refine ⟨m', by simpa [hput] using hrun, ?_⟩
      rw [hout, hfilter, hgot, hkeep, List.append_assoc]
      congr 1
      cases hkept : kept m.out.keepDeadEntries e <;> simp [hshadowed, hkept]

theorem merge_spec (shadows : List Bucket) (keepDeadEntries : Bool) (hold : Increasing old)
    (hnew : Increasing new) (hshadows : ∀ s ∈ shadows, Increasing s) :
    ∃ b, merge old new shadows keepDeadEntries = some b ∧ Increasing b ∧
      ∀ k, findKey b k = if shadows.any (holds k) then none
        else ((findKey new k).or (findKey old k)).filter (kept keepDeadEntries) := by
  have hsorted := increasing_interleave hold hnew
  obtain ⟨m, hrun, hout⟩ := foldlM_maybePut hsorted
    (m := { out := { keepDeadEntries }, shadowIterators := shadows }) hshadows
    fun buffered hbuffered => by cases hbuffered
  refine ⟨m.out.getBucket, by simp [merge, mergeLoop_eq, hrun], ?_, fun k => ?_⟩
  · rw [hout]
    exact hsorted.filter _
  · rw [hout]
    simp only [BucketOutputIterator.getBucket, Option.toList_none, List.append_nil, List.nil_append]
    rw [findKey_filter hsorted.distinct, findKey_interleave hold hnew]
    cases hfind : (findKey new k).or (findKey old k) with
    | none => simp
    | some x =>
      have hkey : Keyed.key x = k := by
        rcases Option.or_eq_some_iff.1 hfind with h | ⟨-, h⟩
        · exact key_of_findKey h
        · exact key_of_findKey h
      rw [Option.filter_some, Option.filter_some, hkey]
      cases shadows.any (holds k) <;> simp

/-! ### Batches -/

@[simp] theorem kept_true (record : Record) : kept true record = true := rfl

@[simp] theorem filter_kept_true (x : Option Record) : x.filter (kept true) = x := by
  cases x <;> rfl

theorem sortedBucket_spec {records : List Record} (hrecords : DistinctKeys records) :
    ∃ b, sortedBucket records = some b ∧ Increasing b ∧ ∀ k, findKey b k = findKey records k := by
  have hsorted := increasing_insertionSort hrecords
  obtain ⟨out, hrun, hout⟩ := foldlM_put hsorted { keepDeadEntries := true }
    fun buffered hbuffered => by cases hbuffered
  have hbucket : out.getBucket =
      records.insertionSort fun a b => (Keyed.key a : LedgerKey) ≤ Keyed.key b := by
    rw [hout]
    simp [BucketOutputIterator.getBucket]
  refine ⟨out.getBucket, by rw [sortedBucket, hrun, Option.map_some], ?_, fun k => ?_⟩
  · rw [hbucket]
    exact hsorted
  · rw [hbucket, ← findKey_perm hrecords (List.perm_insertionSort
      (fun a b => (Keyed.key a : LedgerKey) ≤ Keyed.key b) records).symm]

/-- The operations of a batch. -/
def Batch.records (batch : Batch) : List Record :=
  batch.liveEntries.map .live ++ batch.deadEntries.map .dead

/-- The fresh bucket of a batch that has each key at most once holds its operations. -/
theorem fresh_spec {batch : Batch} (hbatch : DistinctKeys batch.records) :
    ∃ b, fresh batch = some b ∧ Increasing b ∧ ∀ k, findKey b k = findKey batch.records k := by
  obtain ⟨hlive, hdead, hdisjoint⟩ := List.pairwise_append.1 hbatch
  obtain ⟨liveBucket, hliveRun, hliveSorted, hliveFind⟩ := sortedBucket_spec hlive
  obtain ⟨deadBucket, hdeadRun, hdeadSorted, hdeadFind⟩ := sortedBucket_spec hdead
  obtain ⟨b, hmerge, hb, hfind⟩ :=
    merge_spec [] true hliveSorted hdeadSorted fun s hs => by cases hs
  refine ⟨b, by simp [fresh, hliveRun, hdeadRun, hmerge], hb, fun k => ?_⟩
  rw [hfind, hliveFind, hdeadFind, Batch.records, findKey_append, List.any_nil,
    if_neg Bool.false_ne_true, filter_kept_true]
  cases hl : findKey (batch.liveEntries.map Record.live) k with
  | none => rw [Option.or_none, Option.none_or]
  | some x =>
    have hnone : findKey (batch.deadEntries.map Record.dead) k = none := by
      refine findKey_eq_none.2 fun y hy hkey => ?_
      exact hdisjoint x (mem_of_findKey hl) y hy ((key_of_findKey hl).trans hkey.symm)
    rw [hnone, Option.none_or, Option.some_or]

end SpnCore.Buckets
