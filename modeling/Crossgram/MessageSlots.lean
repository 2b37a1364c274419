import Mathlib.Algebra.Order.Group.Abs
import Mathlib.Algebra.Order.Group.Int
import Mathlib.Data.Int.Interval
import Crossgram.MessageId
import Crossgram.MessageRows
/-!
# MessageSlots — the search for free message ids (packages/bridge/src/message-store.ts)

Buckets are tried outwards from a preferred one, first those between the two bounds (the strict pass), then, when that
falls short, all of them (the relaxed pass).  A pass takes open slots only (`OpenSlot`), takes none twice, and one that
falls short has taken every open slot between its bounds (`collect_complete`).
-/
namespace Crossgram

open List

structure IdBounds where
  lowerExclusive : Option Int := none
  upperExclusive : Option Int := none

structure BucketRange where
  first : Int
  last : Int

def slottedMessageIdBucketRange (bounds : IdBounds) : Option BucketRange :=
  let firstCandidate := bounds.lowerExclusive.getD 0 + 1
  let lastCandidate := bounds.upperExclusive.getD (telegramMessageIdMax + 1) - 1
  let first := max timestampMessageIdSlots (messageIdBucketStart firstCandidate)
  let last := min (messageIdBucketStart telegramMessageIdMax) (messageIdBucketStart lastCandidate)
  if first ≤ last then some ⟨first, last⟩ else none

def orderedMessagePreferredId (bounds : IdBounds) : Int :=
  let preferred := match bounds.lowerExclusive, bounds.upperExclusive with
    | some lower, some upper => (lower + upper) / 2
    | some lower, none       => lower + 1
    | none,       some upper => upper - 1
    | none,       none       => 0x40000000
  max timestampMessageIdSlots (min telegramMessageIdMax preferred)

/-! ## Middle out -/

/-- The loop of `middleOut`: the values one step further out on either side, while any is left. -/
def middleOutFrom (values : List Int) (middle : Nat) (preferForward : Bool) : Nat → Nat → List Int → List Int
  | 0,        _,        output => output
  | fuel + 1, distance, output =>
    if output.length < values.length then
      let forward := values[middle + distance]?.toList
      let backward := if distance ≤ middle then values[middle - distance]?.toList else []
      middleOutFrom values middle preferForward fuel (distance + 1)
        (output ++ if preferForward then forward ++ backward else backward ++ forward)
    else output

def middleOut (values : List Int) (preferForward : Bool) : List Int :=
  if values.length < 2 then values
  else
    let middle := (values.length - 1) / 2
    middleOutFrom values middle preferForward values.length 1 values[middle]?.toList

/-- The values less than `distance` from the middle. -/
def aroundMiddle (values : List Int) (middle distance : Nat) : List Int :=
  (values.take (middle + distance)).drop (middle + 1 - distance)

theorem aroundMiddle_one (values : List Int) (middle : Nat) :
    aroundMiddle values middle 1 = values[middle]?.toList := by
  unfold aroundMiddle
  rw [take_add_one, Nat.add_sub_cancel]
  by_cases h : middle < values.length
  · rw [drop_append_of_le_length (by simp; omega), drop_eq_nil_of_le (by simp), nil_append]
  · rw [getElem?_eq_none (by omega)]
    simp

theorem aroundMiddle_succ {values : List Int} {middle distance : Nat} (hm : middle < values.length)
    (hd : 1 ≤ distance) :
    aroundMiddle values middle (distance + 1) = (if distance ≤ middle then values[middle - distance]?.toList else [])
      ++ aroundMiddle values middle distance ++ values[middle + distance]?.toList := by
  have hsub : middle + 1 - (distance + 1) = middle - distance := by omega
  have hlen : middle - distance ≤ (values.take (middle + distance)).length := by
    rw [length_take]
    omega
  unfold aroundMiddle
  rw [← Nat.add_assoc, take_add_one, hsub, drop_append_of_le_length hlen]
  split
  · rename_i hle
    have hlt : middle - distance < (values.take (middle + distance)).length := by
      rw [length_take]
      omega
    have hnext : middle - distance + 1 = middle + 1 - distance := by omega
    rw [drop_eq_getElem_cons hlt, hnext, getElem_take,
      getElem?_eq_getElem (show middle - distance < values.length by omega)]
    rfl
  · have hzero : middle - distance = middle + 1 - distance := by omega
    rw [hzero, nil_append]

theorem middleOutFrom_perm {values : List Int} {middle : Nat} {preferForward : Bool} (hm : middle < values.length) :
    ∀ (fuel distance : Nat) (output : List Int), 1 ≤ distance → values.length + 1 ≤ fuel + distance →
      output.Perm (aroundMiddle values middle distance) →
      (middleOutFrom values middle preferForward fuel distance output).Perm values
  | 0, distance, output, _, hfuel, hp => by
    have hall : aroundMiddle values middle distance = values := by
      rw [aroundMiddle, take_of_length_le (by omega), show middle + 1 - distance = 0 by omega, drop_zero]
    rw [middleOutFrom, ← hall]
    exact hall.symm ▸ hp
  | fuel + 1, distance, output, hd, hfuel, hp => by
    rw [middleOutFrom]
    split
    · refine middleOutFrom_perm hm fuel (distance + 1) _ (by omega) (by omega) ?_
      rw [aroundMiddle_succ hm hd, perm_iff_count]
      intro a
      cases preferForward <;> simp [count_append, hp.count_eq] <;> omega
    · rename_i hfull
      have hsub : List.Sublist (aroundMiddle values middle distance) values :=
        (drop_sublist _ _).trans (take_sublist _ _)
      have hlen : values.length ≤ (aroundMiddle values middle distance).length := by
        rw [← hp.length_eq]
        omega
      rw [hsub.eq_of_length_le hlen] at hp
      exact hp

/-- **Middle out is a reordering.** -/
theorem middleOut_perm (values : List Int) (preferForward : Bool) : (middleOut values preferForward).Perm values := by
  unfold middleOut
  split
  · exact List.Perm.refl _
  · exact middleOutFrom_perm (by omega) _ _ _ (Nat.le_refl 1) (by omega) (by rw [aroundMiddle_one])

/-! ## The search -/

/-- The arguments of `_allocateSlottedMessageIds`. -/
structure SlotRequest where
  scope : String
  count : Nat
  preferredId : Int
  allocation : Allocation
  centerSlots : Bool
  existingIds : List Int
  bounds : IdBounds

def idsBetween (first last : Int) : List Int := (List.range (last + 1 - first).toNat).map (fun (i : Nat) => first + i)

theorem mem_idsBetween {first last n : Int} : n ∈ idsBetween first last ↔ first ≤ n ∧ n ≤ last := by
  simp only [idsBetween, mem_map, mem_range]
  constructor
  · rintro ⟨i, hi, rfl⟩
    omega
  · rintro ⟨h1, h2⟩
    exact ⟨(n - first).toNat, by omega, by omega⟩

theorem nodup_idsBetween (first last : Int) : (idsBetween first last).Nodup := by
  refine List.Nodup.map (fun i j h => ?_) nodup_range
  omega

def IdBounds.Admits (bounds : IdBounds) (n : Int) : Prop :=
  (∀ lower ∈ bounds.lowerExclusive, lower < n) ∧ ∀ upper ∈ bounds.upperExclusive, n < upper

instance (bounds : IdBounds) (n : Int) : Decidable (bounds.Admits n) :=
  inferInstanceAs (Decidable
    ((∀ lower ∈ bounds.lowerExclusive, lower < n) ∧ ∀ upper ∈ bounds.upperExclusive, n < upper))

namespace SlotRequest

variable (q : SlotRequest) (parts : List TlMessagePartRow)

def preferredBucket : Int := messageIdBucketStart q.preferredId

def preferForward : Bool := q.allocation = .live ∨ 1 < q.count ∨ 0 < q.existingIds.length

def available (activeBounds : IdBounds) (ids : List Int) (bucket : Int) : List Int :=
  let first := max bucket (activeBounds.lowerExclusive.getD (bucket - 1) + 1)
  let last := min (bucket + timestampMessageIdSlots - 1)
    (activeBounds.upperExclusive.getD (bucket + timestampMessageIdSlots) - 1)
  let occupied := (parts.filter (fun part => part.scope = q.scope ∧ first ≤ part.tlMessageId ∧ part.tlMessageId ≤ last)).map
    (fun part => part.tlMessageId)
  (idsBetween first last).filter (fun candidate =>
    !(q.existingIds.contains candidate || ids.contains candidate) && !occupied.contains candidate)

def candidates (activeBounds : IdBounds) (ids : List Int) (bucket : Int) : List Int :=
  if q.centerSlots then middleOut (q.available parts activeBounds ids bucket) q.preferForward
  else q.available parts activeBounds ids bucket

/-- One bucket: candidates are taken until there are `count` ids. -/
def fillBucket (activeBounds : IdBounds) (range : BucketRange) (ids : List Int) (bucket : Int) : List Int :=
  if q.count ≤ ids.length ∨ bucket < range.first ∨ range.last < bucket then ids
  else ids ++ (q.candidates parts activeBounds ids bucket).take (q.count - ids.length)

def bucketsAt (distance : Nat) : List Int :=
  let ahead := q.preferredBucket + distance * timestampMessageIdSlots
  let behind := q.preferredBucket - distance * timestampMessageIdSlots
  if distance = 0 then [q.preferredBucket] else if q.preferForward then [ahead, behind] else [behind, ahead]

/-- The loop of `collect`, with the number of distances left to try. -/
def collectFrom (activeBounds : IdBounds) (range : BucketRange) : Nat → Nat → List Int → List Int
  | 0,        _,        ids => ids
  | fuel + 1, distance, ids =>
    if ids.length < q.count then
      collectFrom activeBounds range fuel (distance + 1)
        ((q.bucketsAt distance).foldl (q.fillBucket parts activeBounds range) ids)
    else ids

def maxDistance (range : BucketRange) : Int :=
  max |q.preferredBucket - range.first| |range.last - q.preferredBucket| / timestampMessageIdSlots

def collect (activeBounds : IdBounds) (ids : List Int) : List Int :=
  match slottedMessageIdBucketRange activeBounds with
  | none       => ids
  | some range => q.collectFrom parts activeBounds range ((q.maxDistance range).toNat + 1) 0 ids

/-- The strict pass falls short and there are bounds to relax. -/
def NeedsRelaxedPass : Prop :=
  (q.collect parts q.bounds []).length < q.count ∧ (q.bounds.lowerExclusive.isSome ∨ q.bounds.upperExclusive.isSome)

instance : Decidable (q.NeedsRelaxedPass parts) := by unfold NeedsRelaxedPass; infer_instance

def collected : List Int :=
  if q.NeedsRelaxedPass parts then q.collect parts {} (q.collect parts q.bounds []) else q.collect parts q.bounds []

def allocateSlottedMessageIds : Except JsError (List Int) :=
  if (q.collected parts).length < q.count then .error (.rangeError ("message ID scope exhausted: " ++ q.scope))
  else .ok ((q.collected parts).insertionSort (· ≤ ·))

/-! ## What a pass takes -/

structure OpenSlot (bounds : IdBounds) (n : Int) : Prop where
  lower : timestampMessageIdSlots ≤ n
  upper : n ≤ telegramMessageIdMax
  admitted : bounds.Admits n
  notExisting : n ∉ q.existingIds
  notStored : ∀ part ∈ parts, part.scope = q.scope → part.tlMessageId ≠ n

variable {q parts} {bounds : IdBounds} {range : BucketRange} {ids : List Int} {bucket n : Int}

theorem mem_available : n ∈ q.available parts bounds ids bucket ↔
    (bucket ≤ n ∧ n ≤ bucket + 15 ∧ bounds.Admits n) ∧ n ∉ q.existingIds ∧ n ∉ ids ∧
      ∀ part ∈ parts, part.scope = q.scope → part.tlMessageId ≠ n := by
  have hrange : (max bucket (bounds.lowerExclusive.getD (bucket - 1) + 1) ≤ n ∧
      n ≤ min (bucket + timestampMessageIdSlots - 1)
        (bounds.upperExclusive.getD (bucket + timestampMessageIdSlots) - 1)) ↔
      bucket ≤ n ∧ n ≤ bucket + 15 ∧ bounds.Admits n := by
    unfold IdBounds.Admits timestampMessageIdSlots
    cases bounds.lowerExclusive <;> cases bounds.upperExclusive <;> simp <;> omega
  simp only [available, mem_filter, mem_idsBetween, hrange, Bool.and_eq_true, Bool.not_eq_true',
    Bool.or_eq_false_iff, contains_eq_mem, decide_eq_false_iff_not, mem_map, mem_filter,
    decide_eq_true_eq, not_exists, not_and]
  constructor
  · rintro ⟨hin, ⟨hex, hids⟩, hocc⟩
    refine ⟨hin, hex, hids, fun part hp hs heq => ?_⟩
    have hin' := hrange.2 hin
    exact hocc part ⟨hp, hs, by rw [heq]; exact hin'.1, by rw [heq]; exact hin'.2⟩ heq
  · rintro ⟨hin, hex, hids, hocc⟩
    exact ⟨hin, ⟨hex, hids⟩, fun part hp heq => hocc part hp.1 hp.2.1 heq⟩

theorem candidates_perm : (q.candidates parts bounds ids bucket).Perm (q.available parts bounds ids bucket) := by
  unfold candidates
  split
  · exact middleOut_perm _ _
  · exact List.Perm.refl _

theorem nodup_candidates : (q.candidates parts bounds ids bucket).Nodup :=
  candidates_perm.nodup_iff.2 ((nodup_idsBetween _ _).filter _)

structure Taken (q : SlotRequest) (parts : List TlMessagePartRow) (bounds : IdBounds) (given ids : List Int) : Prop where
  isPrefix : given <+: ids
  nodup : ids.Nodup
  length : ids.length ≤ q.count
  openSlots : ∀ n ∈ ids, n ∈ given ∨ q.OpenSlot parts bounds n

theorem range_within (h : slottedMessageIdBucketRange bounds = some range) :
    timestampMessageIdSlots ≤ range.first ∧ range.last + 15 ≤ telegramMessageIdMax := by
  simp only [slottedMessageIdBucketRange] at h
  split at h
  · cases h
    simp only [timestampMessageIdSlots, messageIdBucketStart, telegramMessageIdMax]
    omega
  · cases h

theorem Taken.fillBucket {given : List Int} (hrange : slottedMessageIdBucketRange bounds = some range)
    (h : Taken q parts bounds given ids) : Taken q parts bounds given (q.fillBucket parts bounds range ids bucket) := by
  unfold SlotRequest.fillBucket
  split
  · exact h
  · rename_i hcond
    have hcand : ∀ n ∈ (q.candidates parts bounds ids bucket).take (q.count - ids.length),
        n ∈ q.available parts bounds ids bucket := fun n hn => candidates_perm.subset (mem_of_mem_take hn)
    refine ⟨h.isPrefix.trans (prefix_append _ _), ?_, ?_, fun n hn => ?_⟩
    · refine nodup_append.2 ⟨h.nodup, nodup_candidates.sublist (take_sublist _ _), fun a ha b hb => ?_⟩
      rintro rfl
      exact (mem_available.1 (hcand a hb)).2.2.1 ha
    · have := h.length
      simp only [length_append, length_take]
      omega
    · rcases mem_append.1 hn with hn | hn
      · exact h.openSlots n hn
      · obtain ⟨⟨hlo, hhi, hadm⟩, hex, -, hstored⟩ := mem_available.1 (hcand n hn)
        have hw := range_within hrange
        exact Or.inr ⟨by omega, by omega, hadm, hex, hstored⟩

theorem collectFrom_invariant {I : List Int → Prop}
    (hstep : ∀ ids bucket, I ids → I (q.fillBucket parts bounds range ids bucket)) :
    ∀ (fuel distance : Nat) (ids : List Int), I ids → I (q.collectFrom parts bounds range fuel distance ids)
  | 0, _, _, h => h
  | fuel + 1, distance, ids, h => by
    rw [collectFrom]
    split
    · exact collectFrom_invariant hstep fuel (distance + 1) _ (foldlRecOn _ _ h (fun _ hi b _ => hstep _ b hi))
    · exact h

/-- **What a pass takes.** -/
theorem taken_collect (bounds : IdBounds) (hnodup : ids.Nodup) (hlen : ids.length ≤ q.count) :
    Taken q parts bounds ids (q.collect parts bounds ids) := by
  have h₀ : Taken q parts bounds ids ids := ⟨prefix_refl _, hnodup, hlen, fun n hn => Or.inl hn⟩
  unfold collect
  split
  · exact h₀
  · rename_i range hrange
    exact collectFrom_invariant (fun ids bucket h => h.fillBucket hrange) _ _ _ h₀

/-! ## What a pass that falls short has taken -/

theorem prefix_fillBucket : ids <+: q.fillBucket parts bounds range ids bucket := by
  unfold fillBucket
  split
  · exact prefix_refl _
  · exact prefix_append _ _

theorem prefix_foldl_fillBucket (buckets : List Int) (ids : List Int) :
    ids <+: buckets.foldl (q.fillBucket parts bounds range) ids :=
  foldlRecOn (motive := fun l => ids <+: l) buckets _ (prefix_refl _) (fun _ h _ _ => h.trans prefix_fillBucket)

theorem prefix_collectFrom (fuel distance : Nat) (ids : List Int) :
    ids <+: q.collectFrom parts bounds range fuel distance ids :=
  collectFrom_invariant (I := fun l => ids <+: l) (fun _ _ h => h.trans prefix_fillBucket) fuel distance ids
    (prefix_refl _)

def TakenOrFull (q : SlotRequest) (n : Int) (ids : List Int) : Prop := n ∈ ids ∨ q.count ≤ ids.length

theorem TakenOrFull.longer {ids' : List Int} (h : TakenOrFull q n ids) (hp : ids <+: ids') : TakenOrFull q n ids' := by
  rcases h with h | h
  · exact Or.inl (hp.subset h)
  · exact Or.inr (Nat.le_trans h hp.length_le)

theorem fillBucket_takes (hn : q.OpenSlot parts bounds n) (hin : range.first ≤ bucket ∧ bucket ≤ range.last)
    (hb : bucket ≤ n ∧ n ≤ bucket + 15) : TakenOrFull q n (q.fillBucket parts bounds range ids bucket) := by
  by_cases hfull : q.count ≤ ids.length
  · exact (show TakenOrFull q n ids from Or.inr hfull).longer prefix_fillBucket
  · by_cases hmem : n ∈ ids
    · exact (show TakenOrFull q n ids from Or.inl hmem).longer prefix_fillBucket
    · have hav : n ∈ q.candidates parts bounds ids bucket := candidates_perm.symm.subset
        (mem_available.2 ⟨⟨hb.1, hb.2, hn.admitted⟩, hn.notExisting, hmem, hn.notStored⟩)
      unfold fillBucket
      rw [if_neg (by omega)]
      by_cases hall : (q.candidates parts bounds ids bucket).length ≤ q.count - ids.length
      · rw [take_of_length_le hall]
        exact Or.inl (mem_append_right _ hav)
      · right
        rw [length_append, length_take]
        omega

theorem foldl_fillBucket_takes (hn : q.OpenSlot parts bounds n) (hin : range.first ≤ bucket ∧ bucket ≤ range.last)
    (hb : bucket ≤ n ∧ n ≤ bucket + 15) : ∀ (buckets : List Int) (ids : List Int), bucket ∈ buckets →
      TakenOrFull q n (buckets.foldl (q.fillBucket parts bounds range) ids)
  | b :: buckets, ids, hmem => by
    rw [foldl_cons]
    rcases mem_cons.1 hmem with rfl | hmem
    · exact (fillBucket_takes hn hin hb).longer (prefix_foldl_fillBucket _ _)
    · exact foldl_fillBucket_takes hn hin hb buckets _ hmem

theorem collectFrom_takes (hn : q.OpenSlot parts bounds n) (hin : range.first ≤ bucket ∧ bucket ≤ range.last)
    (hb : bucket ≤ n ∧ n ≤ bucket + 15) : ∀ (fuel distance steps : Nat) (ids : List Int), steps < fuel →
      bucket ∈ q.bucketsAt (distance + steps) →
      TakenOrFull q n (q.collectFrom parts bounds range fuel distance ids)
  | fuel + 1, distance, steps, ids, hlt, hmem => by
    rw [collectFrom]
    split
    · cases steps with
      | zero => exact (foldl_fillBucket_takes hn hin hb _ _ hmem).longer (prefix_collectFrom _ _ _)
      | succ steps =>
        exact collectFrom_takes hn hin hb fuel (distance + 1) steps _ (by omega)
          (by rw [show distance + 1 + steps = distance + (steps + 1) by omega]; exact hmem)
    · rename_i hfull
      exact Or.inr (by omega)

theorem mem_bucketsAt {distance : Nat} : bucket ∈ q.bucketsAt distance ↔
    bucket = q.preferredBucket + distance * timestampMessageIdSlots ∨
      bucket = q.preferredBucket - distance * timestampMessageIdSlots := by
  unfold bucketsAt
  split
  · rename_i h
    simp [h]
  · split
    · simp
    · simp [or_comm]

theorem bucket_tried (q : SlotRequest)
    (hin : range.first ≤ messageIdBucketStart n ∧ messageIdBucketStart n ≤ range.last) :
    ∃ distance, distance < (q.maxDistance range).toNat + 1 ∧ messageIdBucketStart n ∈ q.bucketsAt distance := by
  have hmax : |messageIdBucketStart n - q.preferredBucket| ≤ max |q.preferredBucket - range.first|
      |range.last - q.preferredBucket| := by
    rcases abs_cases (messageIdBucketStart n - q.preferredBucket) with h | h <;>
      rcases abs_cases (q.preferredBucket - range.first) with h' | h' <;>
      rcases abs_cases (range.last - q.preferredBucket) with h'' | h'' <;> omega
  refine ⟨(|messageIdBucketStart n - q.preferredBucket| / timestampMessageIdSlots).toNat, ?_, ?_⟩
  · unfold maxDistance timestampMessageIdSlots
    omega
  · rw [mem_bucketsAt]
    simp only [preferredBucket, messageIdBucketStart, timestampMessageIdSlots]
    rcases abs_cases (n / 16 * 16 - q.preferredId / 16 * 16) with h | h
    · left
      omega
    · right
      omega

theorem OpenSlot.inRange (hn : q.OpenSlot parts bounds n) : ∃ range, slottedMessageIdBucketRange bounds = some range ∧
    range.first ≤ messageIdBucketStart n ∧ messageIdBucketStart n ≤ range.last := by
  obtain ⟨h1, h2, ⟨h3, h4⟩, -, -⟩ := hn
  have hlower : bounds.lowerExclusive.getD 0 + 1 ≤ n := by
    cases hl : bounds.lowerExclusive with
    | none => simp only [timestampMessageIdSlots] at h1; simp; omega
    | some lower => have := h3 lower (by rw [hl]; rfl); simp; omega
  have hupper : n ≤ bounds.upperExclusive.getD (telegramMessageIdMax + 1) - 1 := by
    cases hu : bounds.upperExclusive with
    | none => simp; omega
    | some upper => have := h4 upper (by rw [hu]; rfl); simp; omega
  have hfirst : max timestampMessageIdSlots (messageIdBucketStart (bounds.lowerExclusive.getD 0 + 1))
      ≤ messageIdBucketStart n := by
    simp only [messageIdBucketStart, timestampMessageIdSlots] at *
    omega
  have hlast : messageIdBucketStart n ≤ min (messageIdBucketStart telegramMessageIdMax)
      (messageIdBucketStart (bounds.upperExclusive.getD (telegramMessageIdMax + 1) - 1)) := by
    simp only [messageIdBucketStart, timestampMessageIdSlots] at *
    omega
  exact ⟨⟨_, _⟩, if_pos (Int.le_trans hfirst hlast), hfirst, hlast⟩

/-- **A pass that falls short has taken every open slot between its bounds.** -/
theorem collect_complete (hshort : (q.collect parts bounds ids).length < q.count) (hn : q.OpenSlot parts bounds n) :
    n ∈ q.collect parts bounds ids := by
  obtain ⟨range, hrange, hin⟩ := hn.inRange
  obtain ⟨distance, hlt, hmem⟩ := bucket_tried q hin
  have hb : messageIdBucketStart n ≤ n ∧ n ≤ messageIdBucketStart n + 15 := by
    simp only [messageIdBucketStart, timestampMessageIdSlots]
    omega
  unfold collect at hshort ⊢
  simp only [hrange] at hshort ⊢
  refine (collectFrom_takes hn hin hb _ 0 distance ids hlt (by rw [Nat.zero_add]; exact hmem)).resolve_right ?_
  omega

/-! ## An allocation -/

theorem OpenSlot.unbounded (hn : q.OpenSlot parts bounds n) : q.OpenSlot parts {} n :=
  { hn with admitted := by simp [IdBounds.Admits] }

structure Allocated (q : SlotRequest) (parts : List TlMessagePartRow) (ids : List Int) : Prop where
  nodup : ids.Nodup
  length : ids.length = q.count
  openSlots : ∀ n ∈ ids, q.OpenSlot parts {} n
  admitted : ¬q.NeedsRelaxedPass parts → ∀ n ∈ ids, q.bounds.Admits n

theorem taken_strict (q : SlotRequest) (parts : List TlMessagePartRow) : Taken q parts q.bounds [] (q.collect parts q.bounds []) :=
  taken_collect q.bounds nodup_nil (Nat.zero_le _)

theorem collected_openSlots (hn : n ∈ q.collected parts) : q.OpenSlot parts {} n := by
  have hstrict : ∀ m ∈ q.collect parts q.bounds [], q.OpenSlot parts {} m := fun m hm =>
    (((taken_strict q parts).openSlots m hm).resolve_left (by simp)).unbounded
  unfold collected at hn
  split at hn
  · have htaken : Taken q parts {} _ _ := taken_collect {} (taken_strict q parts).nodup (taken_strict q parts).length
    exact (htaken.openSlots n hn).elim (hstrict n) id
  · exact hstrict n hn

theorem nodup_collected : (q.collected parts).Nodup ∧ (q.collected parts).length ≤ q.count := by
  unfold collected
  split
  · have htaken : Taken q parts {} _ _ := taken_collect {} (taken_strict q parts).nodup (taken_strict q parts).length
    exact ⟨htaken.nodup, htaken.length⟩
  · exact ⟨(taken_strict q parts).nodup, (taken_strict q parts).length⟩

/-- **What an allocation hands out.** -/
theorem allocated (h : q.allocateSlottedMessageIds parts = .ok ids) : Allocated q parts ids := by
  unfold allocateSlottedMessageIds at h
  split at h
  · cases h
  · rename_i hfull
    cases h
    have hperm := perm_insertionSort (· ≤ ·) (q.collected parts)
    refine ⟨hperm.nodup_iff.2 nodup_collected.1, ?_, fun n hn => collected_openSlots (hperm.subset hn),
      fun hstrict n hn => ?_⟩
    · rw [hperm.length_eq]
      exact Nat.le_antisymm nodup_collected.2 (by omega)
    · have hn' := hperm.subset hn
      rw [collected, if_neg hstrict] at hn'
      exact (((taken_strict q parts).openSlots n hn').resolve_left (by simp)).admitted

end SlotRequest

end Crossgram
