import Mathlib.Data.List.Nodup
import Mathlib.Tactic.SplitIfs
import Crossgram.Lib.Runs
/-!
# RpcSlots — RPC slots and read pressure of a session (packages/mtproto/src/session/server-session.ts)

A slot that is released goes to the waiter in front, unless the connection has closed or the session is gone.  Frames and
waiters press on one switch of the connection, each with its own flag.
-/
namespace Crossgram
namespace RpcSlots

open List

def MAX_ACTIVE_RPCS_PER_CONNECTION : Nat := 16
def MAX_PENDING_RPCS_PER_CONNECTION : Nat := 64
def RPC_READ_PAUSE_THRESHOLD : Nat := 32
def RPC_READ_RESUME_THRESHOLD : Nat := 16
def FRAME_READ_PAUSE_COUNT : Nat := 32
def FRAME_READ_RESUME_COUNT : Nat := 16
def FRAME_READ_PAUSE_BYTES : Int := 4 * 1024 * 1024
def FRAME_READ_RESUME_BYTES : Int := 2 * 1024 * 1024
def MAX_QUEUED_FRAMES : Nat := 128
def MAX_QUEUED_FRAME_BYTES : Int := 16 * 1024 * 1024

/-- The session, the switch of its connection, and what became of slots and waiters. -/
structure ServerSession where
  frameQueue : List (List UInt8) := []
  queuedFrameBytes : Int := 0
  drainingFrames : Bool := false
  frameReadPaused : Bool := false
  handshakeIngress : Bool := false
  activeRpcCount : Nat := 0
  rpcWaiters : List Nat := []
  rpcReadPaused : Bool := false
  disposed : Bool := false
  /-- `_connection._closed` -/
  closed : Bool := false
  /-- `_connection._readPaused` -/
  readPaused : Bool := false
  holders : List Nat := []
  waited : List Nat := []
  resolved : List (Nat × Option Nat) := []
  nextId : Nat := 0

namespace ServerSession

/-! ## The connection -/

def pauseReading (s : ServerSession) : ServerSession :=
  if s.closed || s.readPaused then s else { s with readPaused := true }

def resumeReading (s : ServerSession) : ServerSession :=
  if s.closed || !s.readPaused then s else { s with readPaused := false }

/-- `close`, and what the socket's own `close` event does. -/
def close (s : ServerSession) : ServerSession := if s.closed then s else { s with closed := true, readPaused := false }

def finishPendingClose (s : ServerSession) : ServerSession := { s with closed := true }

/-! ## Frames -/

def updateFrameReadPressure (s : ServerSession) : ServerSession :=
  if !s.frameReadPaused &&
      (decide (s.frameQueue.length ≥ FRAME_READ_PAUSE_COUNT) || decide (s.queuedFrameBytes ≥ FRAME_READ_PAUSE_BYTES)) then
    pauseReading { s with frameReadPaused := true }
  else if s.frameReadPaused && decide (s.frameQueue.length ≤ FRAME_READ_RESUME_COUNT) &&
      decide (s.queuedFrameBytes ≤ FRAME_READ_RESUME_BYTES) then
    let s := { s with frameReadPaused := false }
    if s.rpcReadPaused then s else resumeReading s
  else s

/-- The loop of `_drainRawFrames` up to its next frame, or its end: the queue is empty then, or frames are handled no
more, so it is not started again. -/
def drainRawFrames (s : ServerSession) : ServerSession :=
  if !s.disposed && !s.closed then
    match s.frameQueue with
    | data :: rest =>
      updateFrameReadPressure
        { s with frameQueue := rest, queuedFrameBytes := s.queuedFrameBytes - data.length, drainingFrames := true }
    | []           => updateFrameReadPressure { s with drainingFrames := false }
  else updateFrameReadPressure { s with drainingFrames := false }

def enqueueRawFrame (s : ServerSession) (data : List UInt8) : ServerSession :=
  if s.disposed || s.closed then s
  else if s.handshakeIngress then s
  else if decide (s.frameQueue.length ≥ MAX_QUEUED_FRAMES) ||
      decide (s.queuedFrameBytes + data.length > MAX_QUEUED_FRAME_BYTES) then s.close
  else
    let s := updateFrameReadPressure
      { s with frameQueue := s.frameQueue ++ [data], queuedFrameBytes := s.queuedFrameBytes + data.length }
    if s.drainingFrames then s else drainRawFrames s

/-! ## Slots -/

def rpcSlotRelease (s : ServerSession) : ServerSession × Nat :=
  ({ s with holders := s.holders ++ [s.nextId], nextId := s.nextId + 1 }, s.nextId)

def acquireRpcSlot (s : ServerSession) : ServerSession :=
  if s.disposed || s.closed then s
  else if s.activeRpcCount < MAX_ACTIVE_RPCS_PER_CONNECTION then
    (rpcSlotRelease { s with activeRpcCount := s.activeRpcCount + 1 }).1
  else if s.rpcWaiters.length ≥ MAX_PENDING_RPCS_PER_CONNECTION then s
  else
    let s := if !s.rpcReadPaused && decide (s.rpcWaiters.length ≥ RPC_READ_PAUSE_THRESHOLD) then
      pauseReading { s with rpcReadPaused := true } else s
    { s with rpcWaiters := s.rpcWaiters ++ [s.nextId], waited := s.waited ++ [s.nextId], nextId := s.nextId + 1 }

def resumeAfterRelease (s : ServerSession) : ServerSession :=
  if s.rpcReadPaused && decide (s.rpcWaiters.length ≤ RPC_READ_RESUME_THRESHOLD) then
    let s := { s with rpcReadPaused := false }
    if s.frameReadPaused then s else resumeReading s
  else s

def release (s : ServerSession) (handle : Nat) : ServerSession :=
  if handle ∈ s.holders then
    let s := { s with holders := s.holders.erase handle }
    match s.rpcWaiters with
    | next :: rest =>
      let s := { s with rpcWaiters := rest }
      if !s.disposed && !s.closed then
        let (s, granted) := rpcSlotRelease s
        resumeAfterRelease { s with resolved := s.resolved ++ [(next, some granted)] }
      else
        resumeAfterRelease
          { s with activeRpcCount := s.activeRpcCount - 1, resolved := s.resolved ++ [(next, none)] }
    | [] => resumeAfterRelease { s with activeRpcCount := s.activeRpcCount - 1 }
  else s

def releasePendingRpcWaiters (s : ServerSession) : ServerSession :=
  { s with
    resolved := s.resolved ++ s.rpcWaiters.map (fun waiter => (waiter, none))
    rpcWaiters := []
    activeRpcCount := 0
    rpcReadPaused := false }

def dispose (s : ServerSession) : ServerSession :=
  releasePendingRpcWaiters { s with disposed := true, frameQueue := [], queuedFrameBytes := 0 }

end ServerSession

inductive SessionAction
  | frame (data : List UInt8)
  | frameHandled
  | handshake (active : Bool)
  | acquire
  | release (handle : Nat)
  | close
  | finishPendingClose
  | dispose

open RpcSlots.ServerSession in
def step (s : ServerSession) : SessionAction → Option ServerSession
  | .frame data          => some (enqueueRawFrame s data)
  | .frameHandled        => if s.drainingFrames then some (drainRawFrames s) else none
  | .handshake active    => some { s with handshakeIngress := active }
  | .acquire             => some (acquireRpcSlot s)
  | .release handle      => if handle < s.nextId then some (release s handle) else none
  | .close               => some (close s)
  | .finishPendingClose  => some (finishPendingClose s)
  | .dispose             => if s.disposed then none else some (dispose s)

/-- **Slots and read pressure are consistent.** -/
structure Consistent (s : ServerSession) : Prop where
  count : s.disposed = false → s.activeRpcCount = s.holders.length
  bound : s.disposed = false → s.activeRpcCount ≤ MAX_ACTIVE_RPCS_PER_CONNECTION
  waiting : s.rpcWaiters.length ≤ MAX_PENDING_RPCS_PER_CONNECTION
  full : s.disposed = false → s.closed = false → s.rpcWaiters ≠ [] → s.activeRpcCount = MAX_ACTIVE_RPCS_PER_CONNECTION
  inTurn : s.waited = s.resolved.map Prod.fst ++ s.rpcWaiters
  once : s.waited.Nodup
  allResolved : s.disposed = true → s.rpcWaiters = []
  reading : s.disposed = false → s.closed = false → s.readPaused = (s.frameReadPaused || s.rpcReadPaused)

/-! ## One step -/

structure Inv (s : ServerSession) : Prop extends Consistent s where
  fresh : ∀ i ∈ s.waited, i < s.nextId

structure SameSlots (s s' : ServerSession) : Prop where
  activeRpcCount : s'.activeRpcCount = s.activeRpcCount
  rpcWaiters : s'.rpcWaiters = s.rpcWaiters
  disposed : s'.disposed = s.disposed
  holders : s'.holders = s.holders
  waited : s'.waited = s.waited
  resolved : s'.resolved = s.resolved
  nextId : s'.nextId = s.nextId

theorem SameSlots.refl (s : ServerSession) : SameSlots s s := ⟨rfl, rfl, rfl, rfl, rfl, rfl, rfl⟩

theorem SameSlots.trans {s s' s'' : ServerSession} (h : SameSlots s s') (h' : SameSlots s' s'') : SameSlots s s'' :=
  ⟨h'.1.trans h.1, h'.2.trans h.2, h'.3.trans h.3, h'.4.trans h.4, h'.5.trans h.5, h'.6.trans h.6, h'.7.trans h.7⟩

theorem SameSlots.flags {s t : ServerSession} (frameReadPaused rpcReadPaused : Bool)
    (h : SameSlots { s with frameReadPaused, rpcReadPaused } t) : SameSlots s t :=
  ⟨h.1, h.2, h.3, h.4, h.5, h.6, h.7⟩

def Reading (s : ServerSession) : Prop := s.closed = false → s.readPaused = (s.frameReadPaused || s.rpcReadPaused)

variable {s s' : ServerSession}

/-- **Frames leave the slots alone**: the connection may close. -/
theorem Inv.of_sameSlots (h : Inv s) (hsame : SameSlots s s')
    (hclosed : s'.closed = false → s.closed = false) (hreading : s'.disposed = false → Reading s') : Inv s' where
  count hd := by rw [hsame.activeRpcCount, hsame.holders]; exact h.count (hsame.disposed ▸ hd)
  bound hd := by rw [hsame.activeRpcCount]; exact h.bound (hsame.disposed ▸ hd)
  waiting := by rw [hsame.rpcWaiters]; exact h.waiting
  full hd hc hw := by
    rw [hsame.rpcWaiters] at hw
    rw [hsame.activeRpcCount]
    exact h.full (hsame.disposed ▸ hd) (hclosed hc) hw
  inTurn := by rw [hsame.waited, hsame.resolved, hsame.rpcWaiters]; exact h.inTurn
  once := by rw [hsame.waited]; exact h.once
  allResolved hd := by rw [hsame.rpcWaiters]; exact h.allResolved (hsame.disposed ▸ hd)
  reading := hreading
  fresh := by rw [hsame.waited, hsame.nextId]; exact h.fresh

open RpcSlots.ServerSession

theorem sameSlots_pauseReading (s : ServerSession) : SameSlots s (pauseReading s) := by
  unfold pauseReading
  split <;> exact ⟨rfl, rfl, rfl, rfl, rfl, rfl, rfl⟩

theorem sameSlots_resumeReading (s : ServerSession) : SameSlots s (resumeReading s) := by
  unfold resumeReading
  split <;> exact ⟨rfl, rfl, rfl, rfl, rfl, rfl, rfl⟩

theorem closed_pauseReading (s : ServerSession) : (pauseReading s).closed = s.closed := by
  unfold pauseReading
  split <;> rfl

theorem closed_resumeReading (s : ServerSession) : (resumeReading s).closed = s.closed := by
  unfold resumeReading
  split <;> rfl

theorem flags_pauseReading (s : ServerSession) :
    (pauseReading s).frameReadPaused = s.frameReadPaused ∧ (pauseReading s).rpcReadPaused = s.rpcReadPaused := by
  unfold pauseReading
  split <;> exact ⟨rfl, rfl⟩

theorem flags_resumeReading (s : ServerSession) :
    (resumeReading s).frameReadPaused = s.frameReadPaused ∧ (resumeReading s).rpcReadPaused = s.rpcReadPaused := by
  unfold resumeReading
  split <;> exact ⟨rfl, rfl⟩

variable {s : ServerSession}

theorem readPaused_pauseReading (h : s.closed = false) : (pauseReading s).readPaused = true := by
  unfold pauseReading
  rw [h, Bool.false_or]
  split
  · assumption
  · rfl

theorem readPaused_resumeReading (h : s.closed = false) : (resumeReading s).readPaused = false := by
  unfold resumeReading
  rw [h, Bool.false_or]
  split
  · rename_i hp
    simpa using hp
  · rfl

theorem reading_pauseReading (h : (s.frameReadPaused || s.rpcReadPaused) = true) :
    Reading (pauseReading s) := by
  intro hc
  rw [closed_pauseReading] at hc
  rw [readPaused_pauseReading hc, (flags_pauseReading s).1, (flags_pauseReading s).2, h]

theorem reading_resumeReading (h : (s.frameReadPaused || s.rpcReadPaused) = false) :
    Reading (resumeReading s) := by
  intro hc
  rw [closed_resumeReading] at hc
  rw [readPaused_resumeReading hc, (flags_resumeReading s).1, (flags_resumeReading s).2, h]

structure FrameStep (s s' : ServerSession) : Prop where
  slots : SameSlots s s'
  closed : s'.closed = false → s.closed = false
  reading : Reading s → Reading s'

theorem FrameStep.trans {s s' s'' : ServerSession} (h : FrameStep s s') (h' : FrameStep s' s'') : FrameStep s s'' :=
  ⟨h.slots.trans h'.slots, fun hc => h.closed (h'.closed hc), fun hr => h'.reading (h.reading hr)⟩

theorem frameStep_update (s : ServerSession) : FrameStep s (updateFrameReadPressure s) := by
  unfold updateFrameReadPressure
  split
  · have hsame : SameSlots s (pauseReading { s with frameReadPaused := true }) :=
      (sameSlots_pauseReading { s with frameReadPaused := true }).flags true s.rpcReadPaused
    refine ⟨hsame, fun hc => ?_, fun _ => reading_pauseReading rfl⟩
    rwa [closed_pauseReading] at hc
  · split
    · dsimp only
      split
      · rename_i hresume hrpc
        have hrpc : s.rpcReadPaused = true := hrpc
        have hframe : s.frameReadPaused = true := by
          rw [Bool.and_eq_true, Bool.and_eq_true] at hresume
          exact hresume.1.1
        refine ⟨⟨rfl, rfl, rfl, rfl, rfl, rfl, rfl⟩, id, fun hr hc => ?_⟩
        have := hr hc
        rw [hframe, Bool.true_or] at this
        exact this.trans hrpc.symm
      · rename_i hrpc
        have hsame : SameSlots s (resumeReading { s with frameReadPaused := false }) :=
          (sameSlots_resumeReading { s with frameReadPaused := false }).flags false s.rpcReadPaused
        refine ⟨hsame, fun hc => ?_, fun _ => reading_resumeReading ?_⟩
        · rwa [closed_resumeReading] at hc
        · exact Bool.eq_false_iff.2 hrpc
    · exact ⟨.refl s, id, id⟩

theorem frameStep_queue (s : ServerSession) (frameQueue : List (List UInt8)) (queuedFrameBytes : Int)
    (drainingFrames : Bool) : FrameStep s { s with frameQueue, queuedFrameBytes, drainingFrames } :=
  ⟨⟨rfl, rfl, rfl, rfl, rfl, rfl, rfl⟩, id, id⟩

theorem frameStep_drain (s : ServerSession) : FrameStep s (drainRawFrames s) := by
  unfold drainRawFrames
  split
  · split
    · exact (frameStep_queue s _ _ _).trans (frameStep_update _)
    · exact (frameStep_queue s _ _ _).trans (frameStep_update _)
  · exact (frameStep_queue s _ _ _).trans (frameStep_update _)

theorem frameStep_close (s : ServerSession) : FrameStep s (close s) := by
  unfold ServerSession.close
  split
  · exact ⟨.refl s, id, id⟩
  · exact ⟨⟨rfl, rfl, rfl, rfl, rfl, rfl, rfl⟩, (fun hc => by cases hc), (fun _ hc => by cases hc)⟩

theorem frameStep_enqueue (s : ServerSession) (data : List UInt8) : FrameStep s (enqueueRawFrame s data) := by
  unfold enqueueRawFrame
  split
  · exact ⟨.refl s, id, id⟩
  · split
    · exact ⟨.refl s, id, id⟩
    · split
      · exact frameStep_close s
      · have hqueued := (frameStep_queue s (s.frameQueue ++ [data]) (s.queuedFrameBytes + data.length)
          s.drainingFrames).trans (frameStep_update _)
        dsimp only
        split
        · exact hqueued
        · exact hqueued.trans (frameStep_drain _)

theorem Inv.frameStep (h : Inv s) (hstep : FrameStep s s') : Inv s' :=
  h.of_sameSlots hstep.slots hstep.closed (fun hd => hstep.reading (h.reading (hstep.slots.disposed ▸ hd)))

/-! ## Slots -/

theorem Inv.resumeAfterRelease (h : Inv s) : Inv (resumeAfterRelease s) := by
  unfold ServerSession.resumeAfterRelease
  split
  · rename_i hresume
    have hrpc : s.rpcReadPaused = true := by
      rw [Bool.and_eq_true] at hresume
      exact hresume.1
    dsimp only
    split
    · rename_i hframe
      have hframe : s.frameReadPaused = true := hframe
      refine h.of_sameSlots ⟨rfl, rfl, rfl, rfl, rfl, rfl, rfl⟩ id (fun hd hc => ?_)
      have := h.reading hd hc
      rw [hframe, Bool.true_or] at this ⊢
      exact this
    · rename_i hframe
      have hsame : SameSlots s (resumeReading { s with rpcReadPaused := false }) :=
        (sameSlots_resumeReading { s with rpcReadPaused := false }).flags s.frameReadPaused false
      refine h.of_sameSlots hsame (fun hc => ?_) (fun _ => reading_resumeReading ?_)
      · rwa [closed_resumeReading] at hc
      · rw [Bool.or_false]
        exact Bool.eq_false_iff.2 hframe
  · exact h

theorem Inv.acquire (h : Inv s) : Inv (acquireRpcSlot s) := by
  unfold acquireRpcSlot
  split
  · exact h
  · rename_i hlive
    obtain ⟨hdisposed, hopen⟩ : s.disposed = false ∧ s.closed = false := by
      rw [Bool.or_eq_true, not_or] at hlive
      exact ⟨Bool.eq_false_iff.2 hlive.1, Bool.eq_false_iff.2 hlive.2⟩
    split
    · rename_i hroom
      refine ⟨⟨fun _ => ?_, fun _ => hroom, h.waiting, fun _ _ hw => ?_, h.inTurn, h.once, h.allResolved, h.reading⟩,
        fun i hi => Nat.lt_succ_of_lt (h.fresh i hi)⟩
      · change s.activeRpcCount + 1 = (s.holders ++ [s.nextId]).length
        rw [length_append, h.count hdisposed]
        rfl
      · have := h.full hdisposed hopen hw
        omega
    · rename_i hfull
      split
      · exact h
      · rename_i hroom
        have hactive : s.activeRpcCount = MAX_ACTIVE_RPCS_PER_CONNECTION := by
          have := h.bound hdisposed
          omega
        -- pressing the switch first
        have hpressed : Inv (if (!s.rpcReadPaused && decide (s.rpcWaiters.length ≥ RPC_READ_PAUSE_THRESHOLD)) = true then
            pauseReading { s with rpcReadPaused := true } else s) ∧
            SameSlots s (if (!s.rpcReadPaused && decide (s.rpcWaiters.length ≥ RPC_READ_PAUSE_THRESHOLD)) = true then
              pauseReading { s with rpcReadPaused := true } else s) := by
          split
          · have hsame : SameSlots s (pauseReading { s with rpcReadPaused := true }) :=
              (sameSlots_pauseReading { s with rpcReadPaused := true }).flags s.frameReadPaused true
            refine ⟨h.of_sameSlots hsame (fun hc => ?_) (fun _ => reading_pauseReading (Bool.or_true _)), hsame⟩
            rwa [closed_pauseReading] at hc
          · exact ⟨h, .refl s⟩
        revert hpressed
        generalize (if (!s.rpcReadPaused && decide (s.rpcWaiters.length ≥ RPC_READ_PAUSE_THRESHOLD)) = true then
          pauseReading { s with rpcReadPaused := true } else s) = t
        rintro ⟨ht, hsame⟩
        refine ⟨⟨ht.count, ht.bound, ?_, fun _ _ _ => ?_, ?_, ?_, fun hd => ?_, ht.reading⟩, fun i hi => ?_⟩
        · change (t.rpcWaiters ++ [t.nextId]).length ≤ _
          rw [length_append, hsame.rpcWaiters, length_singleton]
          omega
        · exact hsame.activeRpcCount.trans hactive
        · change t.waited ++ [t.nextId] = t.resolved.map Prod.fst ++ (t.rpcWaiters ++ [t.nextId])
          rw [ht.inTurn, append_assoc]
        · refine nodup_append.2 ⟨ht.once, nodup_singleton _, fun a ha b hb => ?_⟩
          rw [mem_singleton.1 hb]
          exact Nat.ne_of_lt (ht.fresh a ha)
        · have : t.disposed = true := hd
          rw [hsame.disposed, hdisposed] at this
          cases this
        · rcases mem_append.1 hi with hi | hi
          · exact Nat.lt_succ_of_lt (ht.fresh i hi)
          · rw [mem_singleton.1 hi]
            exact Nat.lt_succ_self _

theorem Inv.release (h : Inv s) (handle : Nat) : Inv (release s handle) := by
  unfold ServerSession.release
  split
  · rename_i hheld
    have hlength : (s.holders.erase handle).length + 1 = s.holders.length := by
      rw [length_erase_of_mem hheld]
      have := length_pos_of_mem hheld
      omega
    dsimp only
    cases hwaiters : s.rpcWaiters with
    | nil =>
      refine Inv.resumeAfterRelease ⟨⟨fun hd => ?_, fun hd => ?_, ?_, fun _ _ hw => ?_, ?_, h.once, fun _ => rfl,
        h.reading⟩, h.fresh⟩
      · have := h.count hd
        change s.activeRpcCount - 1 = (s.holders.erase handle).length
        omega
      · have := h.bound hd
        change s.activeRpcCount - 1 ≤ _
        omega
      · exact Nat.zero_le _
      · exact absurd rfl hw
      · rw [← hwaiters]
        exact h.inTurn
    | cons next rest =>
      have hwaiting := h.waiting
      have hinTurn := h.inTurn
      rw [hwaiters] at hwaiting hinTurn
      have hlen : rest.length ≤ MAX_PENDING_RPCS_PER_CONNECTION := by
        rw [length_cons] at hwaiting
        omega
      have hturn : ∀ given, s.waited = (s.resolved ++ [(next, given)]).map Prod.fst ++ rest := fun given => by
        rw [hinTurn, map_append, append_assoc]
        rfl
      have hnotDisposed : s.disposed = false := by
        cases hd : s.disposed with
        | false => rfl
        | true =>
          have := h.allResolved hd
          rw [hwaiters] at this
          cases this
      dsimp only
      split
      · rename_i hlive
        have hopen : s.closed = false := by
          rw [Bool.and_eq_true, Bool.not_eq_true', Bool.not_eq_true'] at hlive
          exact hlive.2
        have hactive : s.activeRpcCount = MAX_ACTIVE_RPCS_PER_CONNECTION :=
          h.full hnotDisposed hopen (by rw [hwaiters]; exact cons_ne_nil _ _)
        refine Inv.resumeAfterRelease ⟨⟨fun hd => ?_, h.bound, hlen, fun _ _ _ => hactive, hturn _, h.once, fun hd => ?_,
          h.reading⟩, fun i hi => Nat.lt_succ_of_lt (h.fresh i hi)⟩
        · have := h.count hnotDisposed
          change s.activeRpcCount = (s.holders.erase handle ++ [s.nextId]).length
          rw [length_append, length_singleton]
          omega
        · exact absurd (hd.symm.trans hnotDisposed) (by decide)
      · rename_i hover
        have hclosed : s.closed = true := by
          rw [hnotDisposed] at hover
          simpa using hover
        refine Inv.resumeAfterRelease ⟨⟨fun hd => ?_, fun hd => ?_, hlen, fun _ hc => ?_, hturn _, h.once, fun hd => ?_,
          h.reading⟩, h.fresh⟩
        · have := h.count hnotDisposed
          change s.activeRpcCount - 1 = (s.holders.erase handle).length
          omega
        · have := h.bound hnotDisposed
          change s.activeRpcCount - 1 ≤ _
          omega
        · exact absurd (hc.symm.trans hclosed) (by decide)
        · exact absurd (hd.symm.trans hnotDisposed) (by decide)
  · exact h

theorem Inv.dispose (h : Inv s) : Inv (dispose s) := by
  refine ⟨⟨(fun hd => by cases hd), (fun hd => by cases hd), Nat.zero_le _, (fun hd => by cases hd), ?_, h.once,
    fun _ => rfl, (fun hd => by cases hd)⟩, h.fresh⟩
  change s.waited = (s.resolved ++ s.rpcWaiters.map (fun waiter => (waiter, none))).map Prod.fst ++ []
  have hsame : (s.rpcWaiters.map (fun waiter => (waiter, (none : Option Nat)))).map Prod.fst = s.rpcWaiters := by
    rw [map_map]
    exact map_id _
  rw [map_append, hsame, append_nil, h.inTurn]

theorem Inv.step {a : SessionAction} (h : Inv s) (hstep : step s a = some s') : Inv s' := by
  cases a with
  | frame data =>
    cases hstep
    exact h.frameStep (frameStep_enqueue s data)
  | frameHandled =>
    dsimp only [RpcSlots.step] at hstep
    split at hstep
    · cases hstep
      exact h.frameStep (frameStep_drain s)
    · cases hstep
  | handshake active =>
    cases hstep
    exact h.frameStep ⟨⟨rfl, rfl, rfl, rfl, rfl, rfl, rfl⟩, id, id⟩
  | acquire =>
    cases hstep
    exact h.acquire
  | release handle =>
    dsimp only [RpcSlots.step] at hstep
    split at hstep
    · cases hstep
      exact h.release handle
    · cases hstep
  | close =>
    cases hstep
    exact h.frameStep (frameStep_close s)
  | finishPendingClose =>
    cases hstep
    exact h.frameStep ⟨⟨rfl, rfl, rfl, rfl, rfl, rfl, rfl⟩, (fun hc => by cases hc), (fun _ hc => by cases hc)⟩
  | dispose =>
    dsimp only [RpcSlots.step] at hstep
    split at hstep
    · cases hstep
    · cases hstep
      exact h.dispose

theorem inv_start : Inv ({} : ServerSession) :=
  ⟨⟨fun _ => rfl, fun _ => Nat.zero_le _, Nat.zero_le _, (fun _ _ hw => absurd rfl hw), rfl, .nil, fun _ => rfl,
    fun _ _ => rfl⟩, (fun _ hi => by cases hi)⟩

end RpcSlots
end Crossgram
