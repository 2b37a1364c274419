import Mathlib.Data.Finset.Card
import Mathlib.Data.List.Nodup
import Crossgram.MessageSlots
/-!
# SlotSearch — the order in which free message ids are tried (packages/bridge/src/message-store.ts)

A pass comes to the open slots in one order (`passOrder`), bucket after bucket outwards from the preferred one; the relaxed
pass follows the strict one (`trialOrder`).  An allocation takes the first slots of that order (`collected_eq_take`).
-/
namespace Crossgram

open List

namespace SlotRequest

variable (q : SlotRequest) (parts : List TlMessagePartRow)

def buckets (range : BucketRange) : List Int :=
  (List.range ((q.maxDistance range).toNat + 1)).flatMap q.bucketsAt

def slotsOf (bounds : IdBounds) (range : BucketRange) (given : List Int) (bucket : Int) : List Int :=
  if bucket < range.first ∨ range.last < bucket then [] else q.candidates parts bounds given bucket

def passOrder (bounds : IdBounds) (given : List Int) : List Int :=
  match slottedMessageIdBucketRange bounds with
  | none       => []
  | some range => (q.buckets range).flatMap (q.slotsOf parts bounds range given)

def trialOrder : List Int :=
  q.passOrder parts q.bounds [] ++
    if q.bounds.lowerExclusive.isSome ∨ q.bounds.upperExclusive.isSome then
      q.passOrder parts {} (q.passOrder parts q.bounds [])
    else []

variable {q parts} {bounds : IdBounds} {range : BucketRange} {given ids : List Int} {bucket n m : Int}

/-! ## The buckets of a pass -/

theorem bucketsAt_aligned {distance : Nat} (h : bucket ∈ q.bucketsAt distance) : bucket % 16 = 0 := by
  rw [mem_bucketsAt] at h
  simp only [preferredBucket, messageIdBucketStart, timestampMessageIdSlots] at h
  omega

theorem distance_of_mem {distance : Nat} (h : bucket ∈ q.bucketsAt distance) :
    |bucket - q.preferredBucket| = distance * 16 := by
  rw [mem_bucketsAt] at h
  simp only [timestampMessageIdSlots] at h
  rcases h with rfl | rfl
  · rw [add_sub_cancel_left]
    exact abs_of_nonneg (by omega)
  · rw [sub_sub_cancel_left, abs_neg]
    exact abs_of_nonneg (by omega)

theorem nodup_bucketsAt (q : SlotRequest) (distance : Nat) : (q.bucketsAt distance).Nodup := by
  unfold bucketsAt
  simp only [timestampMessageIdSlots]
  split
  · exact nodup_singleton _
  · split <;>
    · rw [nodup_cons, mem_singleton]
      exact ⟨by omega, nodup_singleton _⟩

theorem nodup_buckets (q : SlotRequest) (range : BucketRange) : (q.buckets range).Nodup := by
  unfold buckets
  rw [nodup_flatMap]
  refine ⟨fun distance _ => nodup_bucketsAt q distance, ?_⟩
  refine pairwise_lt_range.imp (fun {a b} hlt => ?_)
  intro bucket ha hb
  have hd := (distance_of_mem ha).symm.trans (distance_of_mem hb)
  omega

theorem buckets_pairwise (q : SlotRequest) (range : BucketRange) :
    (q.buckets range).Pairwise (fun a b => |a - q.preferredBucket| ≤ |b - q.preferredBucket|) := by
  unfold buckets
  rw [pairwise_flatMap]
  refine ⟨fun distance _ => ?_, pairwise_lt_range.imp (fun {a b} hlt x hx y hy => ?_)⟩
  · refine List.Pairwise.imp_of_mem (R := fun _ _ => True) (fun {a b} ha hb _ => ?_) (pairwise_of_forall (fun _ _ => trivial))
    rw [distance_of_mem ha, distance_of_mem hb]
  · rw [distance_of_mem hx, distance_of_mem hy]
    omega

theorem mem_buckets_aligned (h : bucket ∈ q.buckets range) : bucket % 16 = 0 := by
  obtain ⟨distance, -, hb⟩ := mem_flatMap.1 h
  exact bucketsAt_aligned hb

/-! ## The slots of a bucket -/

theorem mem_slotsOf (hrange : slottedMessageIdBucketRange bounds = some range) : n ∈ q.slotsOf parts bounds range given bucket ↔
    (range.first ≤ bucket ∧ bucket ≤ range.last) ∧ (bucket ≤ n ∧ n ≤ bucket + 15) ∧ q.OpenSlot parts bounds n ∧ n ∉ given := by
  have hwithin := range_within hrange
  unfold slotsOf
  split
  · rename_i hout
    simp only [not_mem_nil, false_iff]
    rintro ⟨hin, -⟩
    omega
  · rename_i hin
    rw [candidates_perm.mem_iff, mem_available]
    constructor
    · rintro ⟨⟨hlo, hhi, hadm⟩, hex, hgiven, hstored⟩
      exact ⟨by omega, ⟨hlo, hhi⟩, ⟨by omega, by omega, hadm, hex, hstored⟩, hgiven⟩
    · rintro ⟨-, ⟨hlo, hhi⟩, hopen, hgiven⟩
      exact ⟨⟨hlo, hhi, hopen.admitted⟩, hopen.notExisting, hgiven, hopen.notStored⟩

theorem bucket_of_slot (haligned : bucket % 16 = 0) (h : bucket ≤ n ∧ n ≤ bucket + 15) : messageIdBucketStart n = bucket := by
  simp only [messageIdBucketStart, timestampMessageIdSlots]
  omega

theorem nodup_slotsOf : (q.slotsOf parts bounds range given bucket).Nodup := by
  unfold slotsOf
  split
  · exact nodup_nil
  · exact nodup_candidates

/-! ## The order of a pass -/

/-- **A pass comes to every open slot that it was not given.** -/
theorem mem_passOrder : n ∈ q.passOrder parts bounds given ↔ q.OpenSlot parts bounds n ∧ n ∉ given := by
  unfold passOrder
  constructor
  · intro h
    split at h
    · cases h
    · rename_i range hrange
      obtain ⟨bucket, -, hn⟩ := mem_flatMap.1 h
      exact ((mem_slotsOf hrange).1 hn).2.2
  · rintro ⟨hopen, hgiven⟩
    obtain ⟨range, hrange, hin⟩ := hopen.inRange
    obtain ⟨distance, hlt, hmem⟩ := bucket_tried q hin
    rw [hrange]
    refine mem_flatMap.2 ⟨_, mem_flatMap.2 ⟨distance, mem_range.2 hlt, hmem⟩, ?_⟩
    refine (mem_slotsOf hrange).2 ⟨hin, ?_, hopen, hgiven⟩
    simp only [messageIdBucketStart, timestampMessageIdSlots]
    omega

/-- **A pass comes to no slot twice, and to the slots of a nearer bucket first.** -/
theorem passOrder_pairwise : (q.passOrder parts bounds given).Nodup ∧ (q.passOrder parts bounds given).Pairwise
    (fun m n => |messageIdBucketStart m - q.preferredBucket| ≤ |messageIdBucketStart n - q.preferredBucket|) := by
  unfold passOrder
  split
  · exact ⟨nodup_nil, List.Pairwise.nil⟩
  · rename_i range hrange
    have hbucket : ∀ bucket ∈ q.buckets range, ∀ n ∈ q.slotsOf parts bounds range given bucket,
        messageIdBucketStart n = bucket := fun bucket hb n hn =>
      bucket_of_slot (mem_buckets_aligned hb) ((mem_slotsOf hrange).1 hn).2.1
    constructor
    · rw [nodup_flatMap]
      refine ⟨fun bucket _ => nodup_slotsOf, List.Pairwise.imp_of_mem (fun {a b} ha hb hne => ?_) (nodup_buckets q range)⟩
      intro n hna hnb
      exact hne ((hbucket a ha n hna).symm.trans (hbucket b hb n hnb))
    · rw [pairwise_flatMap]
      refine ⟨fun bucket hb => ?_, List.Pairwise.imp_of_mem (fun {a b} ha hb hle x hx y hy => ?_) (buckets_pairwise q range)⟩
      · refine List.Pairwise.imp_of_mem (R := fun _ _ => True) (fun {a b} hx hy _ => ?_)
          (pairwise_of_forall (fun _ _ => trivial))
        rw [hbucket bucket hb a hx, hbucket bucket hb b hy]
      · rw [hbucket a ha x hx, hbucket b hb y hy]
        exact hle

/-! ## What a pass takes -/

theorem candidates_of_others (haligned : bucket % 16 = 0)
    (h : ∀ n, messageIdBucketStart n = bucket → (n ∈ ids ↔ n ∈ given)) :
    q.candidates parts bounds ids bucket = q.candidates parts bounds given bucket := by
  have havailable : q.available parts bounds ids bucket = q.available parts bounds given bucket := by
    unfold available
    refine filter_congr (fun n hn => ?_)
    rw [mem_idsBetween] at hn
    simp only [timestampMessageIdSlots] at hn
    have hmem := h n (bucket_of_slot haligned (by omega))
    rw [contains_eq_mem n ids, contains_eq_mem n given, decide_eq_decide.2 hmem]
  unfold candidates
  rw [havailable]

theorem fillBucket_eq (haligned : bucket % 16 = 0) (h : ∀ n, messageIdBucketStart n = bucket → (n ∈ ids ↔ n ∈ given)) :
    q.fillBucket parts bounds range ids bucket =
      ids ++ (q.slotsOf parts bounds range given bucket).take (q.count - ids.length) := by
  unfold fillBucket slotsOf
  by_cases hfull : q.count ≤ ids.length
  · rw [if_pos (Or.inl hfull), Nat.sub_eq_zero_of_le hfull, take_zero, append_nil]
  · by_cases hout : bucket < range.first ∨ range.last < bucket
    · rw [if_pos (Or.inr hout), if_pos hout, take_nil, append_nil]
    · rw [if_neg (fun hc => hc.elim hfull hout), if_neg hout, candidates_of_others haligned h]

/-- **Buckets tried one after another take the first slots of the order.** -/
theorem foldl_fillBucket_eq (hrange : slottedMessageIdBucketRange bounds = some range) : ∀ (buckets ids : List Int),
    buckets.Nodup → (∀ b ∈ buckets, b % 16 = 0) → (∀ n, messageIdBucketStart n ∈ buckets → (n ∈ ids ↔ n ∈ given)) →
      buckets.foldl (q.fillBucket parts bounds range) ids =
        ids ++ (buckets.flatMap (q.slotsOf parts bounds range given)).take (q.count - ids.length)
  | [], ids, _, _, _ => by simp
  | bucket :: buckets, ids, hnodup, haligned, h => by
    obtain ⟨hbucket, hrest⟩ := nodup_cons.1 hnodup
    have hfill : q.fillBucket parts bounds range ids bucket =
        ids ++ (q.slotsOf parts bounds range given bucket).take (q.count - ids.length) :=
      fillBucket_eq (haligned bucket mem_cons_self) (fun n hn => h n (hn ▸ mem_cons_self))
    have hothers : ∀ n, messageIdBucketStart n ∈ buckets →
        (n ∈ q.fillBucket parts bounds range ids bucket ↔ n ∈ given) := by
      intro n hn
      rw [hfill, mem_append, h n (mem_cons_of_mem _ hn)]
      refine ⟨fun hmem => hmem.resolve_right (fun htake => ?_), Or.inl⟩
      have hslot := ((mem_slotsOf hrange).1 (mem_of_mem_take htake)).2.1
      rw [bucket_of_slot (haligned bucket mem_cons_self) hslot] at hn
      exact hbucket hn
    rw [foldl_cons, foldl_fillBucket_eq hrange buckets _ hrest (fun b hb => haligned b (mem_cons_of_mem _ hb)) hothers,
      hfill, flatMap_cons, take_append, append_assoc, length_append, length_take]
    congr 3
    omega

theorem foldl_fillBucket_full (h : q.count ≤ ids.length) (buckets : List Int) :
    buckets.foldl (q.fillBucket parts bounds range) ids = ids := by
  induction buckets with
  | nil => rfl
  | cons bucket buckets ih =>
    rw [foldl_cons]
    unfold fillBucket at ih ⊢
    rw [if_pos (Or.inl h)]
    exact ih

theorem collectFrom_eq : ∀ (fuel distance : Nat) (ids : List Int), q.collectFrom parts bounds range fuel distance ids =
    ((List.range' distance fuel).flatMap q.bucketsAt).foldl (q.fillBucket parts bounds range) ids
  | 0, _, _ => rfl
  | fuel + 1, distance, ids => by
    rw [collectFrom, List.range'_succ, flatMap_cons, foldl_append]
    split
    · exact collectFrom_eq fuel (distance + 1) _
    · rename_i hfull
      have hle : q.count ≤ ids.length := Nat.not_lt.1 hfull
      rw [foldl_fillBucket_full hle, foldl_fillBucket_full hle]

/-- **A pass takes the first slots of its order.** -/
theorem collect_eq_take (q : SlotRequest) (parts : List TlMessagePartRow) (bounds : IdBounds) (given : List Int) :
    q.collect parts bounds given = given ++ (q.passOrder parts bounds given).take (q.count - given.length) := by
  unfold collect passOrder
  cases hrange : slottedMessageIdBucketRange bounds with
  | none => rw [take_nil, append_nil]
  | some range =>
    dsimp only
    rw [collectFrom_eq, ← range_eq_range']
    exact foldl_fillBucket_eq hrange _ _ (nodup_buckets q range) (fun _ => mem_buckets_aligned) (fun _ _ => Iff.rfl)

/-- **The search takes the first slots of the trial order.** -/
theorem collected_eq_take (q : SlotRequest) (parts : List TlMessagePartRow) :
    q.collected parts = (q.trialOrder parts).take q.count := by
  have hstrict : q.collect parts q.bounds [] = (q.passOrder parts q.bounds []).take q.count :=
    collect_eq_take q parts q.bounds []
  unfold collected trialOrder
  rw [take_append]
  by_cases hbounds : q.bounds.lowerExclusive.isSome ∨ q.bounds.upperExclusive.isSome
  · rw [if_pos hbounds]
    by_cases hshort : (q.passOrder parts q.bounds []).length < q.count
    · have hall : q.collect parts q.bounds [] = q.passOrder parts q.bounds [] := by
        rw [hstrict, take_of_length_le (Nat.le_of_lt hshort)]
      have hneed : q.NeedsRelaxedPass parts := ⟨by rw [hall]; exact hshort, hbounds⟩
      rw [if_pos hneed, hall, collect_eq_take, take_of_length_le (Nat.le_of_lt hshort)]
    · have hneed : ¬q.NeedsRelaxedPass parts := by
        rintro ⟨hc, -⟩
        rw [hstrict, length_take] at hc
        omega
      rw [if_neg hneed, hstrict, Nat.sub_eq_zero_of_le (by omega), take_zero, append_nil]
  · rw [if_neg hbounds, if_neg (fun hneed => hbounds hneed.2), hstrict, take_nil, append_nil]

/-! ## The search is complete and takes the nearest slots -/

theorem OpenSlot.of_unbounded (hn : q.OpenSlot parts {} n)
    (hbounds : ¬(q.bounds.lowerExclusive.isSome ∨ q.bounds.upperExclusive.isSome)) : q.OpenSlot parts q.bounds n := by
  rw [not_or, Bool.not_eq_true, Bool.not_eq_true, Option.isSome_eq_false_iff, Option.isSome_eq_false_iff,
    Option.isNone_iff_eq_none, Option.isNone_iff_eq_none] at hbounds
  refine { hn with admitted := ⟨fun lower hl => ?_, fun upper hu => ?_⟩ }
  · rw [hbounds.1] at hl
    cases hl
  · rw [hbounds.2] at hu
    cases hu

/-- **The search comes to every open slot, once.** -/
theorem mem_trialOrder : n ∈ q.trialOrder parts ↔ q.OpenSlot parts {} n := by
  unfold trialOrder
  rw [mem_append, mem_passOrder]
  constructor
  · rintro (⟨hopen, -⟩ | hn)
    · exact hopen.unbounded
    · split at hn
      · exact (mem_passOrder.1 hn).1
      · cases hn
  · intro hopen
    by_cases hbounds : q.bounds.lowerExclusive.isSome ∨ q.bounds.upperExclusive.isSome
    · rw [if_pos hbounds, mem_passOrder, mem_passOrder]
      by_cases hin : q.OpenSlot parts q.bounds n
      · exact Or.inl ⟨hin, not_mem_nil⟩
      · exact Or.inr ⟨hopen, fun h => hin h.1⟩
    · exact Or.inl ⟨hopen.of_unbounded hbounds, not_mem_nil⟩

theorem nodup_trialOrder (q : SlotRequest) (parts : List TlMessagePartRow) : (q.trialOrder parts).Nodup := by
  unfold trialOrder
  rw [nodup_append]
  refine ⟨passOrder_pairwise.1, ?_, fun a ha b hb => ?_⟩
  · split
    · exact passOrder_pairwise.1
    · exact nodup_nil
  · rintro rfl
    split at hb
    · exact (mem_passOrder.1 hb).2 ha
    · cases hb

def HasRoom (q : SlotRequest) (parts : List TlMessagePartRow) (bounds : IdBounds) : Prop :=
  ∃ free : Finset Int, free.card = q.count ∧ ∀ n ∈ free, q.OpenSlot parts bounds n

theorem HasRoom.length_le (h : q.HasRoom parts bounds) : q.count ≤ (q.passOrder parts bounds []).length := by
  obtain ⟨free, hcard, hopen⟩ := h
  rw [← hcard, ← toFinset_card_of_nodup passOrder_pairwise.1]
  refine Finset.card_le_card (fun n hn => ?_)
  rw [mem_toFinset, mem_passOrder]
  exact ⟨hopen n hn, not_mem_nil⟩

theorem collected_of_room (h : q.HasRoom parts q.bounds) :
    q.collected parts = (q.passOrder parts q.bounds []).take q.count := by
  rw [collected_eq_take]
  unfold trialOrder
  rw [take_append, Nat.sub_eq_zero_of_le h.length_le, take_zero, append_nil]

theorem mem_take_of_pairwise {R : Int → Int → Prop} {l : List Int} {k : Nat} (h : l.Pairwise R) (hn : n ∈ l.take k)
    (hm : m ∈ l) (hlt : ¬R n m) : m ∈ l.take k := by
  rw [← take_append_drop k l] at h hm
  rcases mem_append.1 hm with hm | hm
  · exact hm
  · exact absurd ((pairwise_append.1 h).2.2 n hn m hm) hlt

theorem allocateSlottedMessageIds_ok (h : q.count ≤ (q.trialOrder parts).length) :
    q.allocateSlottedMessageIds parts = .ok ((q.collected parts).insertionSort (· ≤ ·)) := by
  unfold allocateSlottedMessageIds
  rw [if_neg]
  rw [collected_eq_take, length_take]
  omega

theorem allocated_increasing (h : q.allocateSlottedMessageIds parts = .ok ids) : ids.Pairwise (· < ·) := by
  have hall := allocated h
  unfold allocateSlottedMessageIds at h
  split at h
  · cases h
  · cases h
    have hsorted : ((q.collected parts).insertionSort (· ≤ ·)).Pairwise (· ≤ ·) := pairwise_insertionSort _ _
    exact (hsorted.and hall.nodup).imp (fun {a b} hab => lt_of_le_of_ne hab.1 hab.2)

/-- **The slot search is complete and takes the nearest slots.**  It answers with as many distinct free ids as asked for,
in increasing order, and throws only when fewer are free; with room between the bounds it stays there, and takes no id
while one of a nearer bucket is free. -/
theorem slot_search_complete (q : SlotRequest) (parts : List TlMessagePartRow) :
    (∀ ids, q.allocateSlottedMessageIds parts = .ok ids →
      ids.length = q.count ∧ ids.Pairwise (· < ·) ∧ ∀ n ∈ ids, q.OpenSlot parts {} n) ∧
    (∀ e, q.allocateSlottedMessageIds parts = .error e → ¬q.HasRoom parts {}) ∧
    (q.HasRoom parts q.bounds → ∃ ids, q.allocateSlottedMessageIds parts = .ok ids ∧
      (∀ n ∈ ids, q.OpenSlot parts q.bounds n) ∧
      ∀ n ∈ ids, ∀ m, q.OpenSlot parts q.bounds m →
        |messageIdBucketStart m - q.preferredBucket| < |messageIdBucketStart n - q.preferredBucket| → m ∈ ids) := by
  refine ⟨fun ids h => ?_, fun e h hroom => ?_, fun hroom => ?_⟩
  · exact ⟨(allocated h).length, allocated_increasing h, (allocated h).openSlots⟩
  · obtain ⟨free, hcard, hopen⟩ := hroom
    have hlen : q.count ≤ (q.trialOrder parts).length := by
      rw [← hcard, ← toFinset_card_of_nodup (nodup_trialOrder q parts)]
      refine Finset.card_le_card (fun n hn => ?_)
      rw [mem_toFinset, mem_trialOrder]
      exact hopen n hn
    rw [allocateSlottedMessageIds_ok hlen] at h
    cases h
  · have hlen : q.count ≤ (q.trialOrder parts).length := by
      have hstrict := hroom.length_le
      unfold trialOrder
      rw [length_append]
      omega
    have hperm := perm_insertionSort (· ≤ ·) (q.collected parts)
    refine ⟨_, allocateSlottedMessageIds_ok hlen, fun n hn => ?_, fun n hn m hm hlt => ?_⟩
    · have hmem := hperm.subset hn
      rw [collected_of_room hroom] at hmem
      exact (mem_passOrder.1 (mem_of_mem_take hmem)).1
    · have hmem := hperm.subset hn
      refine hperm.symm.subset ?_
      rw [collected_of_room hroom] at hmem ⊢
      exact mem_take_of_pairwise passOrder_pairwise.2 hmem (mem_passOrder.2 ⟨hm, not_mem_nil⟩) (not_le.2 hlt)

end SlotRequest

end Crossgram
