import Mathlib.Data.Rat.Defs
import Mathlib.Tactic.IntervalCases
import Crossgram.Lib.Runs
/-!
# ServerMessageIds — the server's message ids and sequence numbers (packages/mtproto/src/session/message-id.ts)

An id is the clock's, unless that is not above the last id seen: then it is the next one that is 1 modulo 4.  The
comparison is that of `Long`, which is unsigned only when its left side is; the clock's id is signed.
-/
namespace Crossgram
namespace ServerMessageIds

open List

/-! ## `Long` and numbers -/

structure Long where
  bits : BitVec 64
  unsigned : Bool

namespace Long

def ZERO : Long := ⟨0, false⟩

def isNegative (x : Long) : Bool := !x.unsigned && x.bits.msb

def eq (x other : Long) : Bool :=
  if x.unsigned ≠ other.unsigned ∧ x.bits.msb = true ∧ other.bits.msb = true then false else decide (x.bits = other.bits)

def add (x other : Long) : Long := ⟨x.bits + other.bits, x.unsigned⟩

def sub (x other : Long) : Long := ⟨x.bits - other.bits, x.unsigned⟩

def compare (x other : Long) : Int :=
  if x.eq other then 0
  else if x.isNegative ∧ ¬ other.isNegative then -1
  else if ¬ x.isNegative ∧ other.isNegative then 1
  else if ¬ x.unsigned then if (x.sub other).isNegative then -1 else 1
  else if x.bits.toNat < other.bits.toNat then -1 else 1

def greaterThan (x other : Long) : Bool := decide (0 < x.compare other)

def lessThanOrEqual (x other : Long) : Bool := decide (x.compare other ≤ 0)

end Long

/-- The number nearest to `n` that a double holds: 53 significant bits, ties to even. -/
def toDouble (n : Nat) : Nat :=
  let unit := 1 <<< (n.log2 - 52)
  let quotient := n / unit
  let remainder := n % unit
  if 2 * remainder < unit ∨ 2 * remainder = unit ∧ quotient % 2 = 0 then quotient * unit else (quotient + 1) * unit

/-! ## The generator -/

structure ServerMessageIdGenerator where
  timeOffset : Rat := 0
  lastMsgId : Long := Long.ZERO
  contentCount : Nat := 0

namespace ServerMessageIdGenerator

-- how floating point rounds the result of an operation
variable (round : Rat → Rat)

def updateTimeOffset (g : ServerMessageIdGenerator) (offset : Rat) : ServerMessageIdGenerator :=
  { g with timeOffset := offset }

def observeClientMsgId (g : ServerMessageIdGenerator) (msgId : Long) : ServerMessageIdGenerator :=
  if msgId.greaterThan g.lastMsgId then { g with lastMsgId := msgId } else g

/-- The id of a clock reading, `Date.now()` in milliseconds. -/
def clockId (g : ServerMessageIdGenerator) (dateNow : Rat) : Long :=
  let now := round (round (dateNow / 1000) + g.timeOffset)
  let secs := now.floor
  let frac := (round (round (now - secs) * 0x100000000)).floor
  let low := (BitVec.ofInt 32 frac &&& ~~~3#32) ||| 1#32
  ⟨BitVec.ofInt 32 secs ++ low, false⟩

def getMessageId (g : ServerMessageIdGenerator) (dateNow : Rat) : ServerMessageIdGenerator × Long :=
  let msgId := clockId round g dateNow
  if msgId.lessThanOrEqual g.lastMsgId then
    let remainder := g.lastMsgId.bits.toNat % 4
    let step := ((1 - (remainder : Int)) % 4).toNat
    let delta := if step = 0 then 4 else step
    let next := g.lastMsgId.add ⟨BitVec.ofNat 64 delta, false⟩
    ({ g with lastMsgId := next }, next)
  else ({ g with lastMsgId := msgId }, msgId)

def getSeqNo (g : ServerMessageIdGenerator) (isContentRelated : Bool) : ServerMessageIdGenerator × Nat :=
  if isContentRelated then
    ({ g with contentCount := toDouble (g.contentCount + 1) }, toDouble (toDouble (g.contentCount * 2) + 1))
  else (g, toDouble (g.contentCount * 2))

end ServerMessageIdGenerator

/-! ## Runs -/

inductive IdCall
  | observeClientMsgId (msgId : BitVec 64)
  | updateTimeOffset (offset : Rat)
  | getMessageId (dateNow : Rat)
  | getSeqNo (isContentRelated : Bool)

inductive IdEvent
  | observed (id : BitVec 64)
  | returned (id : BitVec 64)
  | seqNo (isContentRelated : Bool) (n : Nat)
deriving DecidableEq

namespace IdEvent

def id? : IdEvent → Option (BitVec 64)
  | observed id => some id
  | returned id => some id
  | seqNo _ _   => none

def seqNo? : IdEvent → Option Nat
  | seqNo _ n => some n
  | _         => none

end IdEvent

structure Session where
  generator : ServerMessageIdGenerator := {}
  events : List IdEvent := []

/-- Client ids are read from the wire as unsigned numbers. -/
def step (round : Rat → Rat) (s : Session) : IdCall → Option Session
  | .observeClientMsgId msgId =>
    some ⟨s.generator.observeClientMsgId ⟨msgId, true⟩, .observed msgId :: s.events⟩
  | .updateTimeOffset offset => some { s with generator := s.generator.updateTimeOffset offset }
  | .getMessageId dateNow =>
    let r := s.generator.getMessageId round dateNow
    some ⟨r.1, .returned r.2.bits :: s.events⟩
  | .getSeqNo isContentRelated =>
    let r := s.generator.getSeqNo isContentRelated
    some ⟨r.1, .seqNo isContentRelated r.2 :: s.events⟩

/-- **Server message ids are fresh**: 1 modulo 4 and above every id before; sequence numbers are odd exactly for
content-related messages, never decrease, and no odd one comes twice. -/
structure Fresh (events : List IdEvent) : Prop where
  parity : ∀ id, .returned id ∈ events → id.toNat % 4 = 1
  greater : events.Pairwise (fun later earlier => ∀ id i, later = .returned id → earlier.id? = some i →
    i.toNat < id.toNat)
  odd : ∀ content n, .seqNo content n ∈ events → (n % 2 = 1 ↔ content = true)
  ordered : events.Pairwise (fun later earlier => ∀ n m, later.seqNo? = some n → earlier.seqNo? = some m →
    m ≤ n ∧ (n % 2 = 1 → m ≠ n))

/-! ## The condition -/

/-- `Long` orders the clock's id and the last id as unsigned numbers: the last id is below 2^63; or it is held unsigned,
and the clock's id is negative or at most 2^63 below it; or both are negative. -/
def OrdersClock (last clock : Long) : Prop :=
  last.bits.toNat < 0x8000000000000000 ∨
  (last.unsigned = true ∧
    (0x8000000000000000 ≤ clock.bits.toNat ∨ last.bits.toNat ≤ clock.bits.toNat + 0x8000000000000000)) ∨
  (last.unsigned = false ∧ 0x8000000000000000 ≤ clock.bits.toNat)

instance (last clock : Long) : Decidable (OrdersClock last clock) := by unfold OrdersClock; infer_instance

/-- A call at which the ids stay in order: a client id below 2^63 met by a last id that is not negative; a clock that is
ordered against a last id that 64 bits can follow; fewer than 2^52 content-related messages. -/
def InOrder (round : Rat → Rat) (s : Session) : IdCall → Prop
  | .observeClientMsgId msgId => msgId.toNat < 0x8000000000000000 ∧ s.generator.lastMsgId.isNegative = false
  | .updateTimeOffset _ => True
  | .getMessageId dateNow => OrdersClock s.generator.lastMsgId (s.generator.clockId round dateNow) ∧
      s.generator.lastMsgId.bits.toNat < 0xfffffffffffffffd
  | .getSeqNo isContentRelated => isContentRelated = true → s.generator.contentCount < 0x10000000000000

/-! ## Comparisons -/

theorem msb_eq (x : BitVec 64) : x.msb = decide (0x8000000000000000 ≤ x.toNat) := BitVec.msb_eq_decide x

theorem sub_toNat (x y : BitVec 64) : (x - y).toNat = (0x10000000000000000 - y.toNat + x.toNat) % 0x10000000000000000 :=
  BitVec.toNat_sub x y

theorem isNegative_iff (x : Long) :
    x.isNegative = true ↔ x.unsigned = false ∧ 0x8000000000000000 ≤ x.bits.toNat := by
  unfold Long.isNegative
  rw [msb_eq, Bool.and_eq_true, Bool.not_eq_true', decide_eq_true_eq]

theorem bits_ne_of_eq_false {x other : Long} (h : x.eq other = false) (hother : other.bits.toNat < 0x8000000000000000 ∨
    x.unsigned = other.unsigned) : x.bits.toNat ≠ other.bits.toNat := by
  intro heq
  unfold Long.eq at h
  split at h
  · rename_i hmsb
    rw [msb_eq, msb_eq, decide_eq_true_eq, decide_eq_true_eq] at hmsb
    rcases hother with hlt | hsame
    · omega
    · exact hmsb.1 hsame
  · exact of_decide_eq_false h (BitVec.eq_of_toNat_eq heq)

/-- **The clock's id is above the last one** when the code takes it. -/
theorem lt_of_not_lessThanOrEqual {last clock : Long} (hsigned : clock.unsigned = false) (hok : OrdersClock last clock)
    (h : clock.lessThanOrEqual last = false) : last.bits.toNat < clock.bits.toNat := by
  have hpos : 0 < clock.compare last := by
    unfold Long.lessThanOrEqual at h
    have := of_decide_eq_false h
    omega
  have hclock := clock.bits.isLt
  have hlast := last.bits.isLt
  unfold Long.compare at hpos
  cases hneq : clock.eq last with
  | true =>
    rw [hneq, if_pos rfl] at hpos
    omega
  | false =>
    rw [hneq] at hpos
    have hcn := isNegative_iff clock
    have hln := isNegative_iff last
    have hdn := isNegative_iff (clock.sub last)
    have hdiff : (clock.sub last).bits.toNat =
        (0x10000000000000000 - last.bits.toNat + clock.bits.toNat) % 0x10000000000000000 := sub_toNat _ _
    have hdsigned : (clock.sub last).unsigned = false := hsigned
    have hne := bits_ne_of_eq_false hneq
    rw [hsigned] at hcn hne
    rw [hdsigned] at hdn
    unfold OrdersClock at hok
    split_ifs at hpos <;> grind

theorem bits_eq_of_eq {x other : Long} (h : x.eq other = true) : x.bits = other.bits := by
  unfold Long.eq at h
  split at h
  · cases h
  · exact of_decide_eq_true h

variable {g : ServerMessageIdGenerator}

/-- **What was observed last or is observed now**, whichever is the larger. -/
theorem observe_le {msgId : BitVec 64} (hlast : g.lastMsgId.isNegative = false) :
    g.lastMsgId.bits.toNat ≤ (g.observeClientMsgId ⟨msgId, true⟩).lastMsgId.bits.toNat ∧
    msgId.toNat ≤ (g.observeClientMsgId ⟨msgId, true⟩).lastMsgId.bits.toNat := by
  have hunsigned : (⟨msgId, true⟩ : Long).isNegative = false := rfl
  have hcompare : (⟨msgId, true⟩ : Long).compare g.lastMsgId =
      if (⟨msgId, true⟩ : Long).eq g.lastMsgId then 0 else if msgId.toNat < g.lastMsgId.bits.toNat then -1 else 1 := by
    unfold Long.compare
    rw [hunsigned, hlast]
    simp
  unfold ServerMessageIdGenerator.observeClientMsgId Long.greaterThan
  rw [hcompare]
  by_cases heq : (⟨msgId, true⟩ : Long).eq g.lastMsgId = true
  · have hbits : msgId = g.lastMsgId.bits := bits_eq_of_eq heq
    rw [if_pos heq, if_neg (by decide), hbits]
    exact ⟨Nat.le_refl _, Nat.le_refl _⟩
  · rw [if_neg heq]
    by_cases hlt : msgId.toNat < g.lastMsgId.bits.toNat
    · rw [if_pos hlt, if_neg (by decide)]
      exact ⟨Nat.le_refl _, Nat.le_of_lt hlt⟩
    · rw [if_neg hlt, if_pos (by decide)]
      exact ⟨Nat.le_of_not_lt hlt, Nat.le_refl _⟩

/-! ## The ids -/

theorem low_parity (x : BitVec 32) : ((x &&& ~~~3#32) ||| 1#32).toNat % 4 = 1 := by
  have hlow : (((x &&& ~~~3#32) ||| 1#32).setWidth 2).toNat = 1 := by
    rw [BitVec.setWidth_or, BitVec.setWidth_and]
    exact congrArg BitVec.toNat ((by decide : ∀ y : BitVec 2, (y &&& (~~~3#32).setWidth 2) ||| (1#32).setWidth 2 = 1#2) _)
  rwa [BitVec.toNat_setWidth] at hlow

theorem append_parity (high low : BitVec 32) : (high ++ low).toNat % 4 = low.toNat % 4 := by
  have hlow : ((high ++ low).setWidth 32).toNat = low.toNat := congrArg BitVec.toNat BitVec.setWidth_append_eq_right
  rw [BitVec.toNat_setWidth] at hlow
  omega

theorem clockId_parity (round : Rat → Rat) (g : ServerMessageIdGenerator) (dateNow : Rat) :
    (g.clockId round dateNow).bits.toNat % 4 = 1 := (append_parity _ _).trans (low_parity _)

theorem delta_cases (r : Nat) (hr : r < 4) :
    let step := ((1 - (r : Int)) % 4).toNat
    let delta := if step = 0 then 4 else step
    0 < delta ∧ delta ≤ 4 ∧ (r + delta) % 4 = 1 := by
  interval_cases r <;> decide

/-- **A new id is 1 modulo 4 and above the last one**, which it becomes. -/
theorem getMessageId_spec {round : Rat → Rat} {dateNow : Rat}
    (hok : OrdersClock g.lastMsgId (g.clockId round dateNow)) (hroom : g.lastMsgId.bits.toNat < 0xfffffffffffffffd) :
    (g.getMessageId round dateNow).1.lastMsgId = (g.getMessageId round dateNow).2 ∧
    (g.getMessageId round dateNow).2.bits.toNat % 4 = 1 ∧
    g.lastMsgId.bits.toNat < (g.getMessageId round dateNow).2.bits.toNat := by
  unfold ServerMessageIdGenerator.getMessageId
  dsimp only
  cases hle : (g.clockId round dateNow).lessThanOrEqual g.lastMsgId with
  | false =>
    rw [if_neg Bool.false_ne_true]
    exact ⟨rfl, clockId_parity round g dateNow, lt_of_not_lessThanOrEqual rfl hok hle⟩
  | true =>
    rw [if_pos rfl]
    have hdelta := delta_cases (g.lastMsgId.bits.toNat % 4) (Nat.mod_lt _ (by decide))
    dsimp only at hdelta
    generalize (if ((1 - ((g.lastMsgId.bits.toNat % 4 : Nat) : Int)) % 4).toNat = 0 then 4 else
      ((1 - ((g.lastMsgId.bits.toNat % 4 : Nat) : Int)) % 4).toNat) = delta at hdelta ⊢
    obtain ⟨hpos, hmax, hmod⟩ := hdelta
    have hnext : (g.lastMsgId.add ⟨BitVec.ofNat 64 delta, false⟩).bits.toNat = g.lastMsgId.bits.toNat + delta := by
      unfold Long.add
      dsimp only
      rw [BitVec.toNat_add, BitVec.toNat_ofNat]
      omega
    refine ⟨rfl, ?_, ?_⟩
    · dsimp only
      rw [hnext]
      omega
    · dsimp only
      rw [hnext]
      omega

theorem toDouble_of_le {n : Nat} (h : n ≤ 0x20000000000000) : toDouble n = n := by
  by_cases htop : n = 0x20000000000000
  · subst htop
    decide +kernel
  · have hlog : n.log2 - 52 = 0 := by
      by_cases hn : n = 0
      · subst hn
        decide
      · have hlt : n.log2 < 53 := (Nat.log2_lt hn).2 (by omega)
        omega
    unfold toDouble
    rw [hlog]
    simp [Nat.mod_one]

theorem getSeqNo_eq {content : Bool} (hcount : g.contentCount ≤ 0x10000000000000)
    (hok : content = true → g.contentCount < 0x10000000000000) :
    g.getSeqNo content =
      if content then ({ g with contentCount := g.contentCount + 1 }, g.contentCount * 2 + 1)
      else (g, g.contentCount * 2) := by
  unfold ServerMessageIdGenerator.getSeqNo
  have hdouble : toDouble (g.contentCount * 2) = g.contentCount * 2 := toDouble_of_le (by omega)
  cases content with
  | false => rw [if_neg Bool.false_ne_true, if_neg Bool.false_ne_true, hdouble]
  | true =>
    have hlt := hok rfl
    have hodd : toDouble (g.contentCount * 2 + 1) = g.contentCount * 2 + 1 := toDouble_of_le (by omega)
    have hnext : toDouble (g.contentCount + 1) = g.contentCount + 1 := toDouble_of_le (by omega)
    rw [if_pos rfl, if_pos rfl, hdouble, hodd, hnext]

/-! ## Every run -/

/-- What holds after every call: the last id is not below any id so far, the count of content-related messages accounts
for the sequence numbers. -/
structure Inv (s : Session) : Prop where
  fresh : Fresh s.events
  ids : ∀ e ∈ s.events, ∀ i, e.id? = some i → i.toNat ≤ s.generator.lastMsgId.bits.toNat
  seqNos : ∀ e ∈ s.events, ∀ n, e.seqNo? = some n → n ≤ s.generator.contentCount * 2
  count : s.generator.contentCount ≤ 0x10000000000000

variable {events : List IdEvent}

theorem Fresh.observed (h : Fresh events) (id : BitVec 64) : Fresh (.observed id :: events) where
  parity i hi := h.parity i (by simpa using hi)
  greater := .cons (fun _ _ i j hi _ => by cases hi) h.greater
  odd content n hn := h.odd content n (by simpa using hn)
  ordered := .cons (fun _ _ n m hn _ => by cases hn) h.ordered

theorem Fresh.returned (h : Fresh events) {id : BitVec 64} (hparity : id.toNat % 4 = 1)
    (hgreater : ∀ e ∈ events, ∀ i, e.id? = some i → i.toNat < id.toNat) : Fresh (.returned id :: events) where
  parity i hi := by
    rcases mem_cons.1 hi with heq | hi
    · cases heq
      exact hparity
    · exact h.parity i hi
  greater := .cons (fun e he i j hi hj => by cases hi; exact hgreater e he j hj) h.greater
  odd content n hn := h.odd content n (by simpa using hn)
  ordered := .cons (fun _ _ n m hn _ => by cases hn) h.ordered

theorem Fresh.seqNo (h : Fresh events) {content : Bool} {n : Nat}
    (hodd : n % 2 = 1 ↔ content = true)
    (hordered : ∀ e ∈ events, ∀ m, e.seqNo? = some m → m ≤ n ∧ (n % 2 = 1 → m ≠ n)) :
    Fresh (.seqNo content n :: events) where
  parity i hi := h.parity i (by simpa using hi)
  greater := .cons (fun _ _ i j hi _ => by cases hi) h.greater
  odd c m hm := by
    rcases mem_cons.1 hm with heq | hm
    · cases heq
      exact hodd
    · exact h.odd c m hm
  ordered := .cons (fun e he k m hk hm => by cases hk; exact hordered e he m hm) h.ordered

/-- **Every call in order keeps the ids fresh.** -/
theorem Inv.step {round : Rat → Rat} {s s' : Session} {call : IdCall} (h : Inv s) (hok : InOrder round s call)
    (hstep : step round s call = some s') : Inv s' := by
  cases call with
  | observeClientMsgId msgId =>
    cases hstep
    obtain ⟨hbefore, hnow⟩ : s.generator.lastMsgId.bits.toNat ≤
        (s.generator.observeClientMsgId ⟨msgId, true⟩).lastMsgId.bits.toNat ∧
        msgId.toNat ≤ (s.generator.observeClientMsgId ⟨msgId, true⟩).lastMsgId.bits.toNat := observe_le hok.2
    have hsame : (s.generator.observeClientMsgId ⟨msgId, true⟩).contentCount = s.generator.contentCount := by
      unfold ServerMessageIdGenerator.observeClientMsgId
      split <;> rfl
    refine ⟨h.fresh.observed msgId, fun e he i hi => ?_, fun e he n hn => ?_, ?_⟩
    · rcases mem_cons.1 he with rfl | he
      · cases hi
        exact hnow
      · exact Nat.le_trans (h.ids e he i hi) hbefore
    · rcases mem_cons.1 he with rfl | he
      · cases hn
      · exact Nat.le_trans (h.seqNos e he n hn) (Nat.le_of_eq (by rw [hsame]))
    · exact Nat.le_trans (Nat.le_of_eq hsame) h.count
  | updateTimeOffset offset =>
    cases hstep
    exact ⟨h.fresh, h.ids, h.seqNos, h.count⟩
  | getMessageId dateNow =>
    cases hstep
    obtain ⟨hlast, hparity, hgreater⟩ := getMessageId_spec hok.1 hok.2
    have hsame : (s.generator.getMessageId round dateNow).1.contentCount = s.generator.contentCount := by
      unfold ServerMessageIdGenerator.getMessageId
      dsimp only
      split <;> rfl
    have hids : ∀ e ∈ s.events, ∀ i, e.id? = some i →
        i.toNat < (s.generator.getMessageId round dateNow).2.bits.toNat :=
      fun e he i hi => Nat.lt_of_le_of_lt (h.ids e he i hi) hgreater
    refine ⟨h.fresh.returned hparity hids, fun e he i hi => ?_, fun e he n hn => ?_, ?_⟩
    · dsimp only
      rw [hlast]
      rcases mem_cons.1 he with rfl | he
      · cases hi
        exact Nat.le_refl _
      · exact Nat.le_of_lt (hids e he i hi)
    · rcases mem_cons.1 he with rfl | he
      · cases hn
      · exact Nat.le_trans (h.seqNos e he n hn) (Nat.le_of_eq (by rw [hsame]))
    · exact Nat.le_trans (Nat.le_of_eq hsame) h.count
  | getSeqNo content =>
    cases hstep
    rw [getSeqNo_eq h.count hok]
    cases content with
    | false =>
      rw [if_neg Bool.false_ne_true]
      refine ⟨h.fresh.seqNo ⟨fun hodd => by omega, fun hc => by cases hc⟩ (fun e he m hm => ?_), fun e he i hi => ?_,
        fun e he n hn => ?_, h.count⟩
      · exact ⟨h.seqNos e he m hm, fun hodd => by omega⟩
      · rcases mem_cons.1 he with rfl | he
        · cases hi
        · exact h.ids e he i hi
      · rcases mem_cons.1 he with rfl | he
        · cases hn
          exact Nat.le_refl _
        · exact h.seqNos e he n hn
    | true =>
      have hcount := hok rfl
      rw [if_pos rfl]
      refine ⟨h.fresh.seqNo ⟨fun _ => rfl, fun _ => by omega⟩ (fun e he m hm => ?_), fun e he i hi => ?_,
        fun e he n hn => ?_, hcount⟩
      · have := h.seqNos e he m hm
        exact ⟨by omega, fun _ => by omega⟩
      · rcases mem_cons.1 he with rfl | he
        · cases hi
        · exact h.ids e he i hi
      · dsimp only
        rcases mem_cons.1 he with rfl | he
        · cases hn
          omega
        · have := h.seqNos e he n hn
          omega

/-- **Server message ids are fresh in every run whose calls are in order**, however floating point rounds. -/
theorem server_message_ids_fresh (round : Rat → Rat) {s : Session}
    (h : Runs.Reachable (step round) (InOrder round) {} s) : Fresh s.events := by
  have hinv : Inv s := h.invariant
    ⟨⟨(fun _ hi => by cases hi), .nil, (fun _ _ hn => by cases hn), .nil⟩, (fun _ he => by cases he),
      (fun _ he => by cases he), by decide⟩
    (fun _ _ _ _ hI hok hstep => hI.step hok hstep)
  exact hinv.fresh

instance (round : Rat → Rat) (s : Session) : ∀ call, Decidable (InOrder round s call)
  | .observeClientMsgId msgId =>
    inferInstanceAs (Decidable (msgId.toNat < 0x8000000000000000 ∧ s.generator.lastMsgId.isNegative = false))
  | .updateTimeOffset _ => isTrue trivial
  | .getMessageId dateNow =>
    inferInstanceAs (Decidable (OrdersClock s.generator.lastMsgId (s.generator.clockId round dateNow) ∧
      s.generator.lastMsgId.bits.toNat < 0xfffffffffffffffd))
  | .getSeqNo isContentRelated =>
    inferInstanceAs (Decidable (isContentRelated = true → s.generator.contentCount < 0x10000000000000))

theorem server_message_ids_fresh_frozen_clock :
    ∃ s, Runs.Reachable (step id) (InOrder id) {} s ∧
      s.events = [.seqNo false 2, .seqNo true 1, .returned 1005, .returned 1001, .observed 1000] ∧ Fresh s.events := by
  have hrun : (Runs.run (fun s call => if decide (InOrder id s call) = true then step id s call else none) {}
      [.observeClientMsgId 1000, .getMessageId 0, .getMessageId 0, .getSeqNo true, .getSeqNo false]).map Session.events =
        some [.seqNo false 2, .seqNo true 1, .returned 1005, .returned 1001, .observed 1000] := by
    decide +kernel
  obtain ⟨s, hs, hevents⟩ := Option.map_eq_some_iff.1 hrun
  have hreach : Runs.Reachable (step id) (InOrder id) {} s :=
    Runs.reachable_of_tested_run (fun _ _ htest => of_decide_eq_true htest) .init hs
  exact ⟨s, hreach, hevents, server_message_ids_fresh id hreach⟩

/-- A client id just below 2^63 and a clock at the epoch: the third id is 1 again. -/
theorem id_starts_over :
    ∃ s, Runs.run (step id) {}
      [.observeClientMsgId 0x7fffffffffffffff, .getMessageId 0, .getMessageId 0, .getMessageId 0] = some s ∧
      s.events = [.returned 1, .returned 0x8000000000000005, .returned 0x8000000000000001, .observed 0x7fffffffffffffff] ∧
      ¬ Fresh s.events := by
  have hrun : (Runs.run (step id) {} [.observeClientMsgId 0x7fffffffffffffff, .getMessageId 0, .getMessageId 0,
      .getMessageId 0]).map Session.events =
        some [.returned 1, .returned 0x8000000000000005, .returned 0x8000000000000001, .observed 0x7fffffffffffffff] := by
    decide +kernel
  obtain ⟨s, hs, hevents⟩ := Option.map_eq_some_iff.1 hrun
  refine ⟨s, hs, hevents, fun hfresh => ?_⟩
  have hgreater := hfresh.greater
  rw [hevents] at hgreater
  have hlt := rel_of_pairwise_cons hgreater mem_cons_self 1 0x8000000000000005 rfl rfl
  exact absurd hlt (by decide)

end ServerMessageIds
end Crossgram
