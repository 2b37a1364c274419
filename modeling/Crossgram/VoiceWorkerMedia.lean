import Crossgram.Lib.Ownership
import Crossgram.Lib.Runs
import Crossgram.VoiceWorker
import Mathlib.Logic.Relation
/-!
# VoiceWorkerMedia — native media is owned once (packages/voice-worker/src/worker.rs)

What the worker holds of the backend, and what it has asked of it, is its `Ledger`.  Every request is a row of `Move`s, and
every move keeps `Ledger.Inv`: the calls to the backend are a lawful trace of what the ledger holds.
-/
namespace Crossgram
namespace Voice

open List
open Ownership (Event Lawful)
open VoiceIpc (FixedBytes Response PCM_FRAME_BYTES DH_PUBLIC_BYTES)

inductive Thing
  | handle (place : Nat)
  | pcm (place : Nat)
deriving DecidableEq

def Thing.place : Thing → Nat
  | .handle place => place
  | .pcm place    => place

namespace BackendCall

def events : BackendCall → List (Event Thing)
  | .start _ none             => []
  | .start _ (some n)         => [.acquire none (.handle n)]
  | .pollEvent _ _            => []
  | .forwardSignal n _        => [.use (.handle n)]
  | .attachPcm n none         => [.use (.handle n)]
  | .attachPcm n (some m)     => [.use (.handle n), .acquire (some (.handle n)) (.pcm m)]
  | .sendPcm m _              => [.use (.pcm m)]
  | .receivePcm m             => [.use (.pcm m)]
  | .closePcm m               => [.release (.pcm m)]
  | .stop n                   => [.release (.handle n)]

def Uses (handle : Nat) (calls : List BackendCall) : BackendCall → Prop
  | .forwardSignal n _ => n = handle
  | .attachPcm n _     => n = handle
  | .sendPcm m _       => .attachPcm handle (some m) ∈ calls
  | .receivePcm m      => .attachPcm handle (some m) ∈ calls
  | _                  => False

/-- A call of `forward_signal`, `attach_pcm`, `send_pcm` or `receive_pcm`. -/
def UsesMedia : BackendCall → Prop
  | .forwardSignal _ _ | .attachPcm _ _ | .sendPcm _ _ | .receivePcm _ => True
  | _ => False

def IsNativeError : BackendCall → Prop
  | .pollEvent _ event => VoiceWorker.eventOf event = some .nativeError
  | _ => False

end BackendCall

/-! ## The ledger -/

structure Ledger where
  active : Bool
  handle : Option Nat
  pcm : Option Nat
  calls : List BackendCall

namespace Ledger

def trace (l : Ledger) : List (Event Thing) := l.calls.flatMap BackendCall.events

def held (l : Ledger) : List (Option Thing × Thing) :=
  (l.pcm.map (fun m => (l.handle.map Thing.handle, Thing.pcm m))).toList ++ (l.handle.map (fun n => (none, Thing.handle n))).toList

def call (l : Ledger) (c : BackendCall) : Ledger := { l with calls := l.calls ++ [c] }

def torn (l : Ledger) : Ledger where
  active := false
  handle := none
  pcm := none
  calls := l.calls ++ ((l.pcm.map BackendCall.closePcm).toList ++ (l.handle.map BackendCall.stop).toList)

structure Inv (l : Ledger) : Prop where
  handle : l.handle.isSome = l.active
  pcm : l.pcm.isSome = true → l.active = true
  fresh : ∀ e ∈ l.trace, e.thing.place < l.calls.length
  lawful : Lawful l.trace l.held

end Ledger

inductive Move : Ledger → Ledger → Prop
  | poll (l waiting event) : Move l (l.call (.pollEvent waiting event))
  | startFails (l config) : Move l (l.call (.start config none))
  | start (l config) : l.active = false → Move l
      { l.call (.start config (some l.calls.length)) with active := true, handle := some l.calls.length }
  | forward (l n signal) : l.handle = some n → Move l (l.call (.forwardSignal n signal))
  | attachFails (l n) : l.handle = some n → Move l (l.call (.attachPcm n none))
  | attach (l n) : l.handle = some n → l.pcm = none → Move l
      { l.call (.attachPcm n (some l.calls.length)) with pcm := some l.calls.length }
  | send (l m frame) : l.pcm = some m → Move l (l.call (.sendPcm m frame))
  | receive (l m) : l.pcm = some m → Move l (l.call (.receivePcm m))
  | teardown (l) : Move l l.torn

abbrev Moves : Ledger → Ledger → Prop := Relation.ReflTransGen Move

namespace Ledger

variable {l l' : Ledger}

theorem trace_append (l : Ledger) (calls : List BackendCall) :
    ({ l with calls := l.calls ++ calls } : Ledger).trace = l.trace ++ calls.flatMap BackendCall.events :=
  flatMap_append

variable {c : BackendCall}

theorem Inv.fresh_call (h : Inv l) (hc : ∀ e ∈ c.events, e.thing.place < l.calls.length + 1) :
    ∀ e ∈ (l.call c).trace, e.thing.place < (l.call c).calls.length := by
  intro e he
  unfold call at he ⊢
  rw [trace_append] at he
  rw [length_append, length_singleton]
  rcases mem_append.1 he with he | he
  · exact Nat.lt_succ_of_lt (h.fresh e he)
  · rw [flatMap_singleton] at he
    exact hc e he

theorem trace_call (l : Ledger) (c : BackendCall) : (l.call c).trace = l.trace ++ c.events := by
  unfold call
  rw [trace_append, flatMap_singleton]

theorem Inv.held_lt (h : Inv l) {up : Option Thing} {thing : Thing} (hmem : (up, thing) ∈ l.held) :
    thing.place < l.calls.length :=
  h.fresh _ ((h.lawful.facts.held_iff up thing).1 hmem).1

theorem mem_held_handle {n : Nat} (h : l.handle = some n) : (none, Thing.handle n) ∈ l.held := by
  unfold held
  rw [h]
  exact mem_append_right _ (mem_singleton_self _)

theorem mem_held_pcm {m : Nat} (h : l.pcm = some m) : (l.handle.map Thing.handle, Thing.pcm m) ∈ l.held := by
  unfold held
  rw [h]
  exact mem_append_left _ (mem_singleton_self _)

theorem Inv.uses (h : Inv l) {up : Option Thing} {thing : Thing} (hevents : c.events = [.use thing])
    (hmem : (up, thing) ∈ l.held) : Inv (l.call c) := by
  refine ⟨h.handle, h.pcm, h.fresh_call (fun e he => ?_), ?_⟩
  · rw [hevents] at he
    rw [mem_singleton.1 he]
    exact Nat.lt_succ_of_lt (h.held_lt hmem)
  · rw [trace_call, hevents]
    exact h.lawful.use ⟨up, hmem⟩

theorem Inv.silent (h : Inv l) (hevents : c.events = []) : Inv (l.call c) := by
  refine ⟨h.handle, h.pcm, h.fresh_call (fun e he => ?_), ?_⟩
  · rw [hevents] at he
    cases he
  · rw [trace_call, hevents, append_nil]
    exact h.lawful

theorem Inv.attach (h : Inv l) {n : Nat} (hn : l.handle = some n) (hp : l.pcm = none) :
    Inv { l.call (.attachPcm n (some l.calls.length)) with pcm := some l.calls.length } := by
  have hmem := mem_held_handle hn
  have hactive : l.active = true := by rw [← h.handle, hn, Option.isSome_some]
  refine ⟨h.handle, fun _ => hactive, h.fresh_call (fun e he => ?_), ?_⟩
  · rcases mem_cons.1 he with rfl | he
    · exact Nat.lt_succ_of_lt (h.held_lt hmem)
    · rw [mem_singleton.1 he]
      exact Nat.lt_succ_self _
  · have hheld : l.held = [(none, Thing.handle n)] := by
      unfold held
      rw [hn, hp]
      rfl
    have huse := h.lawful.use ⟨none, hmem⟩
    have hacquire : Lawful (l.trace ++ [.use (.handle n)] ++ [.acquire (some (.handle n)) (.pcm l.calls.length)])
        ((some (.handle n), .pcm l.calls.length) :: l.held) :=
      huse.acquire (fun e he heq => ?_) (fun o ho => ⟨none, by cases ho; exact hmem⟩)
    · have htrace : ({ l.call (.attachPcm n (some l.calls.length)) with pcm := some l.calls.length } : Ledger).trace =
          l.trace ++ [.use (.handle n)] ++ [.acquire (some (.handle n)) (.pcm l.calls.length)] := by
        refine (trace_call l _).trans ?_
        rw [append_assoc]
        rfl
      rw [htrace]
      rw [hheld] at hacquire
      unfold held call
      dsimp only
      rw [hn]
      exact hacquire
    · rcases mem_append.1 he with he | he
      · have hlt := h.fresh e he
        rw [heq] at hlt
        exact Nat.lt_irrefl _ hlt
      · rw [mem_singleton.1 he] at heq
        cases heq

theorem Inv.start (h : Inv l) {config : MediaStartConfig} (hactive : l.active = false) :
    Inv { l.call (.start config (some l.calls.length)) with active := true, handle := some l.calls.length } := by
  have hhandle : l.handle = none := by
    rw [← Option.isNone_iff_eq_none, ← Option.isSome_eq_false_iff, h.handle, hactive]
  have hpcm : l.pcm = none := by
    rw [← Option.isNone_iff_eq_none, ← Option.isSome_eq_false_iff]
    exact Bool.eq_false_iff.2 (fun hs => by rw [h.pcm hs] at hactive; cases hactive)
  refine ⟨rfl, fun _ => rfl, h.fresh_call (fun e he => ?_), ?_⟩
  · rw [mem_singleton.1 he]
    exact Nat.lt_succ_self _
  · have hheld : l.held = [] := by
      unfold held
      rw [hhandle, hpcm]
      rfl
    have hacquire : Lawful (l.trace ++ [.acquire none (.handle l.calls.length)])
        ((none, .handle l.calls.length) :: l.held) :=
      h.lawful.acquire (fun e he heq => ?_) (fun _ ho => by cases ho)
    · have htrace : ({ l.call (.start config (some l.calls.length)) with
          active := true, handle := some l.calls.length } : Ledger).trace =
          l.trace ++ [.acquire none (.handle l.calls.length)] := trace_call l _
      rw [htrace]
      rw [hheld] at hacquire
      unfold held call
      dsimp only
      rw [hpcm]
      exact hacquire
    · have hlt := h.fresh e he
      rw [heq] at hlt
      exact Nat.lt_irrefl _ hlt

theorem trace_torn (l : Ledger) : l.torn.trace =
    l.trace ++ ((l.pcm.map BackendCall.closePcm).toList.flatMap BackendCall.events ++
      (l.handle.map BackendCall.stop).toList.flatMap BackendCall.events) := by
  unfold torn trace
  rw [flatMap_append, flatMap_append]

/-- **A teardown gives everything back**, the endpoint before its handle. -/
theorem Inv.torn (h : Inv l) : Inv l.torn := by
  refine ⟨rfl, (fun hs => by cases hs), fun e he => ?_, ?_⟩
  · rw [trace_torn] at he
    unfold Ledger.torn
    dsimp only
    rw [length_append]
    rcases mem_append.1 he with he | he
    · exact Nat.lt_of_lt_of_le (h.fresh e he) (Nat.le_add_right _ _)
    · rcases mem_append.1 he with he | he
      · cases hp : l.pcm with
        | none => rw [hp] at he; cases he
        | some m =>
          rw [hp] at he
          rw [mem_singleton.1 he]
          exact Nat.lt_of_lt_of_le (h.held_lt (mem_held_pcm hp)) (Nat.le_add_right _ _)
      · cases hn : l.handle with
        | none => rw [hn] at he; cases he
        | some n =>
          rw [hn] at he
          rw [mem_singleton.1 he]
          exact Nat.lt_of_lt_of_le (h.held_lt (mem_held_handle hn)) (Nat.le_add_right _ _)
  · have hheld : l.torn.held = [] := rfl
    have hlawful := h.lawful
    rw [trace_torn, hheld]
    unfold Ledger.held at hlawful
    cases hn : l.handle with
    | none =>
      cases hp : l.pcm with
      | none =>
        rw [hn, hp] at hlawful
        rw [show l.trace ++ (_ ++ _) = l.trace from append_nil _]
        exact hlawful
      | some m =>
        have hactive := h.pcm (by rw [hp]; rfl)
        rw [← h.handle, hn] at hactive
        cases hactive
    | some n =>
      have hstop : ∀ {trace : List (Event Thing)}, Lawful trace [(none, Thing.handle n)] →
          Lawful (trace ++ [.release (.handle n)]) [] := by
        intro trace hl
        refine hl.release ⟨none, mem_singleton_self _⟩ (fun x hx => ?_) (fun x => ?_)
        · rw [mem_singleton.1 hx]
          exact fun hc => by cases hc
        · rw [mem_singleton]
          constructor
          · intro hx
            cases hx
          · rintro ⟨rfl, hne⟩
            exact absurd rfl hne
      cases hp : l.pcm with
      | none =>
        rw [hn, hp] at hlawful
        exact hstop hlawful
      | some m =>
        rw [hn, hp] at hlawful
        have hclose : Lawful (l.trace ++ [.release (.pcm m)]) [(none, Thing.handle n)] := by
          refine hlawful.release ⟨_, mem_cons_self⟩ (fun x hx => ?_) (fun x => ?_)
          · rcases mem_cons.1 hx with rfl | hx
            · exact fun hc => by cases hc
            · rw [mem_singleton.1 hx]
              exact fun hc => by cases hc
          · constructor
            · intro hx
              rw [mem_singleton.1 hx]
              exact ⟨mem_cons_of_mem _ (mem_singleton_self _), fun hc => by cases hc⟩
            · rintro ⟨hx, hne⟩
              rcases mem_cons.1 hx with rfl | hx
              · exact absurd rfl hne
              · exact hx
        have hboth := hstop hclose
        rw [append_assoc] at hboth
        exact hboth

/-- **Every move keeps the ledger right.** -/
theorem Inv.move (h : Inv l) (hm : Move l l') : Inv l' := by
  cases hm with
  | poll waiting event => exact h.silent rfl
  | startFails config => exact h.silent rfl
  | start config hactive => exact h.start hactive
  | forward n signal hn => exact h.uses rfl (mem_held_handle hn)
  | attachFails n hn => exact h.uses rfl (mem_held_handle hn)
  | attach n hn hp => exact h.attach hn hp
  | send m frame hp => exact h.uses rfl (mem_held_pcm hp)
  | receive m hp => exact h.uses rfl (mem_held_pcm hp)
  | teardown => exact h.torn

theorem Inv.moves (h : Inv l) (hm : Moves l l') : Inv l' := by
  induction hm with
  | refl => exact h
  | tail _ hstep ih => exact ih.move hstep

end Ledger

end Voice
end Crossgram
