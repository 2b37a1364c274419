import Mathlib.Data.List.Nodup
import Crossgram.Lib.Runs
import Crossgram.SendQueue
/-!
# SendQueueSettles — every awaited send is settled once

An awaited send is among `completionSends` or its completion has been called, never both (`Core.once`).  What a closed
connection still waits for was handed to the socket, and its write callback is due (`Shut`, `Heard`).
-/
namespace Crossgram

open List

namespace TransportEffect

def settles (send : Nat) : TransportEffect → Bool
  | .settle send' _ => send' = send
  | _ => false

def frame : TransportEffect → Option (Nat × List UInt8)
  | .write send frame => some (send, frame)
  | .finish send frame => some (send, frame)
  | .settle _ _ => none

end TransportEffect

namespace ServerConnection

variable {κ : Type} {c c' : ServerConnection κ} {send : Nat} {outcome : TransportSendCompletion}

/-! ## What settling leaves as it was -/

def stopped (c : ServerConnection κ) : Bool := c.closed || c.closing

structure Same (c c' : ServerConnection κ) : Prop where
  requests : c'.requests = c.requests
  abandoned : c'.abandoned = c.abandoned
  submitted : c'.submitted = c.submitted
  encoding : c'.encoding = c.encoding
  codec : c'.codec = c.codec
  callbacks : c'.callbacks = c.callbacks
  first : c'.first = c.first
  accepted : c'.accepted = c.accepted
  encoded : c'.encoded = c.encoded
  stopped : c.stopped = true → c'.stopped = true

theorem Same.refl (c : ServerConnection κ) : Same c c := ⟨rfl, rfl, rfl, rfl, rfl, rfl, rfl, rfl, rfl, id⟩

theorem Same.trans {c'' : ServerConnection κ} (h : Same c c') (h' : Same c' c'') : Same c c'' :=
  ⟨h'.requests.trans h.requests, h'.abandoned.trans h.abandoned, h'.submitted.trans h.submitted,
    h'.encoding.trans h.encoding, h'.codec.trans h.codec, h'.callbacks.trans h.callbacks, h'.first.trans h.first,
    h'.accepted.trans h.accepted, h'.encoded.trans h.encoded,
    fun hs => h'.stopped (h.stopped hs)⟩

theorem Same.quiet {pendingSends completionSends : List Nat} {closed closing : Bool}
    {pendingCloseFrame : Option (Nat × List UInt8)} {effects : List TransportEffect}
    (h : c.stopped = true → (closed || closing) = true) :
    Same c { c with
      pendingSends := pendingSends
      completionSends := completionSends
      closed := closed
      closing := closing
      pendingCloseFrame := pendingCloseFrame
      effects := effects } := ⟨rfl, rfl, rfl, rfl, rfl, rfl, rfl, rfl, rfl, h⟩

theorem same_finishPendingClose (c : ServerConnection κ) : Same c c.finishPendingClose := by
  unfold finishPendingClose
  split
  · exact .refl c
  · split
    · exact .refl c
    · exact .quiet (fun _ => rfl)

theorem same_settlePendingSend (c : ServerConnection κ) (send : Nat) (outcome : TransportSendCompletion) :
    Same c (c.settlePendingSend send outcome) := by
  unfold settlePendingSend
  split
  · exact (Same.quiet id).trans (same_finishPendingClose _)
  · exact .refl c

theorem same_settlePendingSends (c : ServerConnection κ) (outcome : TransportSendCompletion) :
    Same c (c.settlePendingSends outcome) :=
  foldlRecOn (motive := Same c) _ _ (Same.quiet id) (fun _ hs send _ => hs.trans (same_settlePendingSend _ send outcome))

theorem same_onClose (c : ServerConnection κ) : Same c c.onClose :=
  (Same.quiet (fun _ => rfl)).trans (same_settlePendingSends _ _)

theorem same_close (c : ServerConnection κ) : Same c c.close := by
  unfold close
  split
  · exact .refl c
  · exact same_onClose c

theorem completionSends_finishPendingClose (c : ServerConnection κ) :
    c.finishPendingClose.completionSends = c.completionSends := by
  unfold finishPendingClose
  split
  · rfl
  · split <;> rfl

theorem completionSends_settlePendingSend (c : ServerConnection κ) (send : Nat) (outcome : TransportSendCompletion) :
    (c.settlePendingSend send outcome).completionSends = c.completionSends.erase send := by
  unfold settlePendingSend
  split
  · exact completionSends_finishPendingClose _
  · rename_i hnot
    exact (erase_of_not_mem hnot).symm

/-! ## The books of the completions -/

/-- Before the closing frame goes out every earlier awaited send is settled. -/
def Finished (awaited : Nat → Bool) (effects : List TransportEffect) : Prop :=
  ∀ before send frame later, effects = before ++ .finish send frame :: later →
    ∀ earlier, earlier < send → awaited earlier = true → ∃ outcome, .settle earlier outcome ∈ before

theorem Finished.append {awaited : Nat → Bool} {effects : List TransportEffect} (h : Finished awaited effects)
    {effect : TransportEffect} (hlast : ∀ send frame, effect = .finish send frame →
      ∀ earlier, earlier < send → awaited earlier = true → ∃ outcome, .settle earlier outcome ∈ effects) :
    Finished awaited (effects ++ [effect]) := by
  intro before send frame later heq
  rcases eq_nil_or_concat later with rfl | ⟨rest, last, rfl⟩
  · obtain ⟨rfl, heffect⟩ := append_inj' heq rfl
    exact hlast send frame (singleton_inj.1 heffect)
  · rw [concat_eq_append, ← cons_append, ← append_assoc] at heq
    exact h before send frame rest (append_inj' heq rfl).1

structure Core (c : ServerConnection κ) : Prop where
  once : ∀ send, c.effects.countP (TransportEffect.settles send) + c.completionSends.count send =
    if c.isAwaited send then 1 else 0
  finished : Finished c.isAwaited c.effects
  submitted : ∀ send ∈ c.submitted, send < c.requests.length
  pending : ∀ send ∈ c.pendingSends, send < c.requests.length
  encoding : ∀ e, c.encoding = some e → e.send < c.requests.length
  closeFrame : ∀ f, c.pendingCloseFrame = some f → f.1 < c.requests.length
  finish : ∀ send frame, .finish send frame ∈ c.effects → send < c.requests.length

theorem Core.nodup (h : Core c) : c.completionSends.Nodup := by
  refine nodup_iff_count_le_one.2 (fun send => ?_)
  have := h.once send
  split at this <;> omega

theorem Core.settled (h : Core c) (hnot : send ∉ c.completionSends) (ha : c.isAwaited send = true) :
    ∃ outcome, .settle send outcome ∈ c.effects := by
  have hcount := h.once send
  rw [count_eq_zero.2 hnot, if_pos ha, Nat.add_zero] at hcount
  obtain ⟨effect, he, hs⟩ := countP_pos_iff.1 (hcount ▸ Nat.one_pos)
  cases effect with
  | settle send' outcome =>
    rw [TransportEffect.settles, decide_eq_true_eq] at hs
    exact ⟨outcome, hs ▸ he⟩
  | _ => cases hs

theorem Core.finishPendingClose (h : Core c) : Core c.finishPendingClose := by
  unfold ServerConnection.finishPendingClose
  split
  · exact h
  · rename_i send frame hframe
    split
    · exact h
    · rename_i hopen
      have hnone : c.completionSends = [] := by
        rw [Bool.or_eq_true, not_or, Bool.not_eq_true', Bool.not_eq_false, List.isEmpty_iff] at hopen
        exact hopen.2
      refine ⟨fun send' => ?_, h.finished.append (fun send' frame' heq earlier _ ha => ?_), h.submitted, nofun, h.encoding,
        nofun, fun send' frame' hmem => ?_⟩
      · rw [countP_append, countP_singleton]
        exact h.once send'
      · exact h.settled (hnone ▸ not_mem_nil) ha
      · rcases mem_append.1 hmem with hmem | hmem
        · exact h.finish send' frame' hmem
        · cases mem_singleton.1 hmem
          exact h.closeFrame _ hframe

theorem Core.settlePendingSend (h : Core c) : Core (c.settlePendingSend send outcome) := by
  unfold ServerConnection.settlePendingSend
  split
  · rename_i hmem
    refine Core.finishPendingClose ⟨fun send' => ?_, h.finished.append (fun _ _ heq => nomatch heq), h.submitted, h.pending,
      h.encoding, h.closeFrame, fun send' frame' hmem => ?_⟩
    · have := h.once send'
      have hpos := count_pos_iff.2 hmem
      rw [countP_append, countP_singleton, count_erase]
      simp only [TransportEffect.settles, decide_eq_true_eq, beq_iff_eq]
      show _ = if c.isAwaited send' = true then 1 else 0
      by_cases heq : send = send'
      · subst heq
        rw [if_pos rfl]
        omega
      · rw [if_neg heq]
        exact this
    · rcases mem_append.1 hmem with hmem | hmem
      · exact h.finish send' frame' hmem
      · cases mem_singleton.1 hmem
  · exact h

theorem Core.settlePendingSends (h : Core c) : Core (c.settlePendingSends outcome) :=
  foldlRecOn _ _ ⟨h.once, h.finished, h.submitted, nofun, h.encoding, h.closeFrame, h.finish⟩
    (fun _ hs _ _ => hs.settlePendingSend)

theorem Core.onClose (h : Core c) : Core c.onClose :=
  Core.settlePendingSends ⟨h.once, h.finished, h.submitted, h.pending, h.encoding, h.closeFrame, h.finish⟩

/-! ## What a closed connection waits for -/

/-- Of a send that was handed to the socket the write callback is due. -/
def Heard (c : ServerConnection κ) : Prop := ∀ send ∈ c.completionSends, send ∈ c.submitted → send ∈ c.callbacks

def Shut (c : ServerConnection κ) : Prop := c.closed = true → ∀ send ∈ c.completionSends, send ∈ c.submitted

structure Settled (c : ServerConnection κ) : Prop where
  core : Core c
  heard : Heard c
  shut : Shut c

theorem Same.heard (h : Same c c') (hsub : ∀ send ∈ c'.completionSends, send ∈ c.completionSends) (hc : Heard c) :
    Heard c' := by
  intro send hmem hs
  rw [h.submitted] at hs
  rw [h.callbacks]
  exact hc send (hsub send hmem) hs

theorem closed_finishPendingClose (c : ServerConnection κ) (h : c.finishPendingClose.closed = true) :
    c.closed = true ∨ c.completionSends = [] := by
  unfold finishPendingClose at h
  split at h
  · exact .inl h
  · split at h
    · exact .inl h
    · rename_i hopen
      rw [Bool.or_eq_true, not_or, Bool.not_eq_true', Bool.not_eq_false, List.isEmpty_iff] at hopen
      exact .inr hopen.2

theorem Settled.finishPendingClose (h : Settled c) : Settled c.finishPendingClose := by
  have hsame := same_finishPendingClose c
  refine ⟨h.core.finishPendingClose, hsame.heard (fun send hm => ?_) h.heard, fun hclosed send hm => ?_⟩
  · rwa [completionSends_finishPendingClose] at hm
  · rw [completionSends_finishPendingClose] at hm
    rw [hsame.submitted]
    rcases closed_finishPendingClose c hclosed with hc | hnil
    · exact h.shut hc send hm
    · rw [hnil] at hm
      cases hm

theorem shut_settlePendingSend (h : Shut c) : Shut (c.settlePendingSend send outcome) := by
  intro hclosed send' hmem
  rw [(same_settlePendingSend c send outcome).submitted]
  have hmem' := hmem
  rw [completionSends_settlePendingSend] at hmem'
  unfold settlePendingSend at hclosed hmem
  split at hclosed
  · rename_i hs
    rw [if_pos hs, completionSends_finishPendingClose] at hmem
    rcases closed_finishPendingClose _ hclosed with hc | hnil
    · exact h hc send' (mem_of_mem_erase hmem')
    · rw [hnil] at hmem
      cases hmem
  · exact h hclosed send' (mem_of_mem_erase hmem')

theorem heard_settlePendingSend (hcore : Core c) (h : ∀ send' ∈ c.completionSends, send' ≠ send → send' ∈ c.submitted →
    send' ∈ c.callbacks) : Heard (c.settlePendingSend send outcome) := by
  have hsame := same_settlePendingSend c send outcome
  intro send' hmem hs
  rw [completionSends_settlePendingSend, hcore.nodup.mem_erase_iff] at hmem
  rw [hsame.submitted] at hs
  rw [hsame.callbacks]
  exact h send' hmem.2 hmem.1 hs

theorem Settled.settlePendingSend (h : Settled c) : Settled (c.settlePendingSend send outcome) :=
  ⟨h.core.settlePendingSend, heard_settlePendingSend h.core (fun send' hm _ => h.heard send' hm),
    shut_settlePendingSend h.shut⟩

theorem mem_foldl_settle (outcome : TransportSendCompletion) : ∀ (sends : List Nat) {c : ServerConnection κ}, Core c →
    ∀ send ∈ (sends.foldl (fun c send => c.settlePendingSend send outcome) c).completionSends,
      send ∈ c.completionSends ∧ send ∉ sends
  | [],             _, _, _,    hm => ⟨hm, not_mem_nil⟩
  | first :: sends, c, h, send, hm => by
    have hfirst : Core (c.settlePendingSend first outcome) := h.settlePendingSend
    obtain ⟨hmem, hnot⟩ := mem_foldl_settle outcome sends hfirst send hm
    rw [completionSends_settlePendingSend, h.nodup.mem_erase_iff] at hmem
    exact ⟨hmem.2, fun hc => (mem_cons.1 hc).elim hmem.1 hnot⟩

theorem mem_settlePendingSends (h : Core c) (hm : send ∈ (c.settlePendingSends outcome).completionSends) :
    send ∈ c.completionSends ∧ send ∈ c.submitted := by
  have hcore : Core { c with pendingSends := [] } :=
    ⟨h.once, h.finished, h.submitted, nofun, h.encoding, h.closeFrame, h.finish⟩
  obtain ⟨hmem, hnot⟩ := mem_foldl_settle outcome _ hcore send hm
  refine ⟨hmem, ?_⟩
  by_contra hsub
  exact hnot (mem_filter.2 ⟨hmem, decide_eq_true hsub⟩)

theorem Settled.onClose (hcore : Core c) (hheard : Heard c) : Settled c.onClose := by
  have hcore' : Core { c with closed := true, closing := true } :=
    ⟨hcore.once, hcore.finished, hcore.submitted, hcore.pending, hcore.encoding, hcore.closeFrame, hcore.finish⟩
  refine ⟨hcore.onClose, (same_onClose c).heard (fun send hm => (mem_settlePendingSends hcore' hm).1) hheard,
    fun _ send hm => ?_⟩
  rw [(same_onClose c).submitted]
  exact (mem_settlePendingSends hcore' hm).2

theorem Settled.close (h : Settled c) : Settled c.close := by
  unfold ServerConnection.close
  split
  · exact h
  · exact Settled.onClose h.core h.heard

/-! ## Encoding -/

theorem requests_writeFrame (c : ServerConnection κ) (e : Encoding) (result : WriteResult) :
    (c.writeFrame e result).requests = c.requests := by
  unfold writeFrame
  split
  · exact (same_settlePendingSend _ _ _).requests
  · split
    · rfl
    · split
      · exact (same_finishPendingClose _).requests
      · cases result with
        | queues => rfl
        | throws => exact ((same_settlePendingSend _ _ _).trans (same_close _)).requests

theorem requests_fail (c : ServerConnection κ) (e : Encoding) : (c.fail e).requests = c.requests :=
  ((same_settlePendingSend _ _ _).trans (same_close _)).requests

theorem Settled.fail (h : Settled c) (e : Encoding) : Settled (c.fail e) := h.settlePendingSend.close

theorem Settled.writeFrame (h : Settled c) {e : Encoding} (he : e.send < c.requests.length) (result : WriteResult) :
    Settled (c.writeFrame e result) := by
  unfold ServerConnection.writeFrame
  split
  · exact h.settlePendingSend
  · rename_i hopen
    split
    · exact h
    · split
      · refine Settled.finishPendingClose ⟨⟨h.core.once, h.core.finished, h.core.submitted, h.core.pending, h.core.encoding,
          fun f hf => ?_, h.core.finish⟩, h.heard, h.shut⟩
        rw [← Option.some.inj hf]
        exact he
      · have hcore : Core { c with
            submitted := c.submitted ++ [e.send]
            effects := c.effects ++ [TransportEffect.write e.send e.frame] } := by
          refine ⟨fun send => ?_, h.core.finished.append (fun _ _ heq => nomatch heq), fun send hm => ?_, h.core.pending,
            h.core.encoding, h.core.closeFrame, fun send frame hm => ?_⟩
          · rw [countP_append, countP_singleton]
            exact h.core.once send
          · rcases mem_append.1 hm with hm | hm
            · exact h.core.submitted send hm
            · exact mem_singleton.1 hm ▸ he
          · rcases mem_append.1 hm with hm | hm
            · exact h.core.finish send frame hm
            · cases mem_singleton.1 hm
        cases result with
        | queues =>
          refine ⟨⟨hcore.once, hcore.finished, hcore.submitted, hcore.pending, hcore.encoding, hcore.closeFrame,
            hcore.finish⟩, fun send hm hs => ?_, fun hclosed => absurd hclosed hopen⟩
          rcases mem_append.1 hs with hs | hs
          · exact mem_append_left _ (h.heard send hm hs)
          · exact mem_append_right _ hs
        | throws =>
          refine Settled.close ⟨hcore.settlePendingSend, heard_settlePendingSend hcore (fun send' hm hne hs => ?_),
            shut_settlePendingSend (fun hclosed => absurd hclosed hopen)⟩
          rcases mem_append.1 hs with hs | hs
          · exact h.heard send' hm hs
          · exact absurd (mem_singleton.1 hs) hne

theorem Settled.setEncoding (h : Settled c) {encoding : Option Encoding}
    (he : ∀ e, encoding = some e → e.send < c.requests.length) : Settled { c with encoding := encoding } :=
  ⟨⟨h.core.once, h.core.finished, h.core.submitted, h.core.pending, he, h.core.closeFrame, h.core.finish⟩, h.heard, h.shut⟩

variable {encode : κ → List UInt8 → List UInt8 × κ}

theorem Settled.drain : ∀ (queue : List Nat) (results : List EncodeResult) {c : ServerConnection κ}, Settled c →
    (∀ send ∈ queue, send < c.requests.length) → Settled (drain encode queue results c)
  | [],            _,       _, h, _  => h
  | send :: queue, results, c, h, hq => by
    have hrest : ∀ send ∈ queue, send < c.requests.length := fun s hs => hq s (mem_cons_of_mem _ hs)
    rw [ServerConnection.drain]
    split
    · exact h
    · split
      · exact Settled.drain queue results ⟨⟨h.core.once, h.core.finished, h.core.submitted, hrest, h.core.encoding,
          h.core.closeFrame, h.core.finish⟩, h.heard, h.shut⟩ hrest
      · split
        · exact h
        · rename_i codec _
          have hsend := hq send mem_cons_self
          have hstarted : Settled (c.startEncoding encode codec send queue).1 := by
            refine ⟨⟨h.core.once, h.core.finished, h.core.submitted, hrest, fun e he => ?_, h.core.closeFrame,
              h.core.finish⟩, h.heard, h.shut⟩
            rw [← Option.some.inj he]
            exact hsend
          simp only
          split
          · exact hstarted
          · rename_i result _
            refine Settled.drain queue _ ((hstarted.writeFrame hsend result).setEncoding nofun) (fun s hs => ?_)
            show s < ((c.startEncoding encode codec send queue).1.writeFrame _ result).requests.length
            rw [requests_writeFrame]
            exact hrest s hs
          · refine Settled.drain queue _ ((hstarted.fail _).setEncoding nofun) (fun s hs => ?_)
            show s < ((c.startEncoding encode codec send queue).1.fail _).requests.length
            rw [requests_fail]
            exact hrest s hs

/-! ## Calls -/

variable {r : SendRequest}

theorem isAwaited_append (hs : send < c.requests.length) (c' : ServerConnection κ)
    (h : c'.requests = c.requests ++ [r]) : c'.isAwaited send = c.isAwaited send := by
  unfold isAwaited
  rw [h, getElem?_append_left hs]

theorem isAwaited_new (c' : ServerConnection κ) (h : c'.requests = c.requests ++ [r]) (send : Nat) :
    c'.isAwaited send = if send = c.requests.length then r.awaited else c.isAwaited send := by
  unfold isAwaited
  rw [h]
  by_cases hs : send = c.requests.length
  · rw [if_pos hs, hs, getElem?_concat_length]
    rfl
  · rw [if_neg hs]
    rcases Nat.lt_or_gt_of_ne hs with hs | hs
    · rw [getElem?_append_left hs]
    · rw [getElem?_eq_none (by rw [length_append, length_singleton]; omega),
        getElem?_eq_none (by omega)]

theorem Core.free (h : Core c) : c.effects.countP (TransportEffect.settles c.requests.length) = 0 ∧
    c.completionSends.count c.requests.length = 0 := by
  have hnone : c.isAwaited c.requests.length = false := by
    unfold isAwaited
    rw [getElem?_eq_none (Nat.le_refl _)]
    rfl
  have := h.once c.requests.length
  rw [hnone, if_neg Bool.false_ne_true] at this
  omega

theorem Core.once_of_append (h : Core c) (hr : c'.requests = c.requests ++ [r])
    (hsum : ∀ send, c'.effects.countP (TransportEffect.settles send) + c'.completionSends.count send =
      c.effects.countP (TransportEffect.settles send) + c.completionSends.count send +
        if c.requests.length = send ∧ r.awaited = true then 1 else 0) (send : Nat) :
    c'.effects.countP (TransportEffect.settles send) + c'.completionSends.count send =
      if c'.isAwaited send then 1 else 0 := by
  have hfree := h.free
  rw [hsum, isAwaited_new c' hr]
  by_cases hs : send = c.requests.length
  · rw [if_pos hs, hs, hfree.1, hfree.2]
    simp
  · rw [if_neg hs, if_neg (fun hc => hs hc.1.symm), Nat.add_zero]
    exact h.once send

theorem Core.finished_of_append (h : Core c) (c' : ServerConnection κ)
    (hr : c'.requests = c.requests ++ [r]) : Finished c'.isAwaited c.effects := by
  intro before send frame later heq earlier hlt ha
  have hsend : send < c.requests.length := h.finish send frame (heq ▸ mem_append_right _ mem_cons_self)
  rw [isAwaited_append (by omega) c' hr] at ha
  exact h.finished before send frame later heq earlier hlt ha

theorem Settled.reject (h : Settled c) (r : SendRequest) (outcome : TransportSendCompletion) :
    Settled (c.reject r outcome) := by
  have hr : (c.reject r outcome).requests = c.requests ++ [r] := rfl
  have hlt : ∀ {send : Nat}, send < c.requests.length → send < (c.reject r outcome).requests.length := fun hs => by
    rw [hr, length_append]
    exact Nat.lt_add_right _ hs
  refine ⟨⟨h.core.once_of_append hr (fun send => ?_), ?_, fun s hs => hlt (h.core.submitted s hs),
    fun s hs => hlt (h.core.pending s hs), fun e he => hlt (h.core.encoding e he),
    fun f hf => hlt (h.core.closeFrame f hf), fun s f hm => hlt ?_⟩, h.heard, h.shut⟩
  · unfold ServerConnection.reject
    cases r.awaited with
    | false => simp
    | true =>
      simp only [if_true, and_true]
      rw [countP_append, countP_singleton]
      simp only [TransportEffect.settles, decide_eq_true_eq]
      omega
  · have hfinished := h.core.finished_of_append _ hr
    show Finished _ (if r.awaited = true then _ else _)
    split
    · exact hfinished.append (fun _ _ heq => nomatch heq)
    · exact hfinished
  · change _ ∈ (if r.awaited = true then c.effects ++ _ else c.effects) at hm
    split at hm
    · rcases mem_append.1 hm with hm | hm
      · exact h.core.finish s f hm
      · cases mem_singleton.1 hm
    · exact h.core.finish s f hm

theorem Settled.accept (h : Settled c) (hclosed : c.closed = false) (r : SendRequest) : Settled (c.accept r) := by
  have hr : (c.accept r).requests = c.requests ++ [r] := rfl
  have hlt : ∀ {send : Nat}, send < c.requests.length → send < (c.accept r).requests.length := fun hs => by
    rw [hr, length_append]
    exact Nat.lt_add_right _ hs
  refine ⟨⟨h.core.once_of_append hr (fun send => ?_), h.core.finished_of_append _ hr,
    fun s hs => hlt (h.core.submitted s hs), fun s hs => ?_, fun e he => hlt (h.core.encoding e he),
    fun f hf => hlt (h.core.closeFrame f hf), fun s f hm => hlt (h.core.finish s f hm)⟩, fun s hm hs => ?_,
    fun hc => absurd (hclosed.symm.trans hc) Bool.false_ne_true⟩
  · unfold ServerConnection.accept
    cases r.awaited with
    | false => simp
    | true =>
      simp only [if_true, and_true]
      rw [count_append, count_singleton]
      simp only [beq_iff_eq]
      omega
  · rcases mem_append.1 hs with hs | hs
    · exact hlt (h.core.pending s hs)
    · rw [mem_singleton.1 hs, hr, length_append]
      exact Nat.lt_succ_self _
  · have hmem : s ∈ c.completionSends ∨ s = c.requests.length := by
      change s ∈ (if r.awaited = true then c.completionSends ++ [c.requests.length] else c.completionSends) at hm
      split at hm
      · exact (mem_append.1 hm).imp_right mem_singleton.1
      · exact .inl hm
    rcases hmem with hm | hnew
    · exact h.heard s hm hs
    · have := h.core.submitted s hs
      omega

theorem Settled.drainSendQueue (h : Settled c) (results : List EncodeResult) :
    Settled (c.drainSendQueue encode results) := Settled.drain _ results h h.core.pending

theorem Settled.sent (h : Settled c) (r : SendRequest) (results : List EncodeResult) : Settled (c.send encode r results) := by
  unfold ServerConnection.send
  split
  · exact h.reject r .closed
  · rename_i hopen
    rw [Bool.or_eq_true, not_or, Bool.not_eq_true] at hopen
    split
    · split
      · exact (h.reject r .abandoned).close
      · exact h.reject r .abandoned
    · exact (h.accept hopen.1 r).drainSendQueue results

theorem Settled.timeOut (h : Settled c) (send : Nat) : Settled (c.timeOut send) := by
  have habandoned : Settled { c with abandoned := c.abandoned ++ [send] } :=
    ⟨⟨h.core.once, h.core.finished, h.core.submitted, h.core.pending, h.core.encoding, h.core.closeFrame, h.core.finish⟩,
      h.heard, h.shut⟩
  unfold ServerConnection.timeOut
  simp only
  split
  · exact habandoned.settlePendingSend.close
  · exact habandoned.settlePendingSend

theorem settled_step {event : TransportEvent κ} (h : Settled c) (hs : step encode c event = some c') : Settled c' := by
  cases event with
  | detect codec =>
    rw [step] at hs
    split at hs
    · cases hs
    · cases hs
      exact ⟨⟨h.core.once, h.core.finished, h.core.submitted, h.core.pending, h.core.encoding, h.core.closeFrame,
        h.core.finish⟩, h.heard, h.shut⟩
  | send data results =>
    cases hs
    exact h.sent _ results
  | sendAndWait data results =>
    cases hs
    exact h.sent _ results
  | sendAndClose data results =>
    cases hs
    exact h.sent _ results
  | encodeResolves result =>
    rw [step] at hs
    split at hs
    · rename_i e he
      split at hs
      · cases hs
      · cases hs
        have hlt := h.core.encoding e he
        refine (h.writeFrame hlt result).setEncoding (fun e' he' => ?_)
        rw [requests_writeFrame, ← Option.some.inj he']
        exact hlt
    · cases hs
  | encodeRejects =>
    rw [step] at hs
    split at hs
    · rename_i e he
      split at hs
      · cases hs
      · cases hs
        have hlt := h.core.encoding e he
        refine (h.fail e).setEncoding (fun e' he' => ?_)
        rw [requests_fail, ← Option.some.inj he']
        exact hlt
    · cases hs
  | encodeCompletes results =>
    rw [step] at hs
    split at hs
    · split at hs
      · cases hs
        have hidle : Settled { c with encoding := none } := h.setEncoding (fun _ he => nomatch he)
        exact hidle.drainSendQueue results
      · cases hs
    · cases hs
  | writeCallback send failed =>
    rw [step] at hs
    split at hs
    · cases hs
      have hcore : Core { c with callbacks := c.callbacks.erase send } :=
        ⟨h.core.once, h.core.finished, h.core.submitted, h.core.pending, h.core.encoding, h.core.closeFrame, h.core.finish⟩
      refine ⟨hcore.settlePendingSend, heard_settlePendingSend hcore (fun s hm hne hsub => ?_), shut_settlePendingSend h.shut⟩
      exact (mem_erase_of_ne hne).2 (h.heard s hm hsub)
    · cases hs
  | timeout send =>
    rw [step] at hs
    split at hs
    · cases hs
      exact h.timeOut send
    · cases hs
  | close =>
    cases hs
    exact h.close
  | socketClosed =>
    cases hs
    exact Settled.onClose h.core h.heard

theorem settled_empty : Settled (empty : ServerConnection κ) where
  core :=
    ⟨fun _ => rfl, fun _ _ _ _ heq => absurd heq.symm (append_ne_nil_of_right_ne_nil _ (cons_ne_nil _ _)),
      nofun, nofun, nofun, nofun, nofun⟩
  heard := nofun
  shut := nofun

/-- **Every awaited send is settled** once the connection has closed and every write callback has run. -/
theorem Settled.settled_of_closed (h : Settled c) (hclosed : c.closed = true) (hcallbacks : c.callbacks = []) (send : Nat) :
    c.effects.countP (TransportEffect.settles send) = if c.isAwaited send then 1 else 0 := by
  have hnone : c.completionSends = [] := eq_nil_iff_forall_not_mem.2 (fun s hs => by
    have := h.heard s hs (h.shut hclosed s hs)
    rw [hcallbacks] at this
    cases this)
  have := h.core.once send
  rwa [hnone, count_nil, Nat.add_zero] at this

end ServerConnection

end Crossgram
