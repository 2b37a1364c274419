import Crossgram.VoiceIpcPayload
/-!
# TgcallsSession — the owner of a native call session (packages/voice-worker/src/tgcalls_backend.rs)

The library calls back into a context until its `join` has returned.  A session releases the context or leaks it; its log,
the latest first, has every native call on its handle and what became of the context.  The calls' outcomes are inputs, and
so are the signals that come in while a call runs; `join` returns once no callback is under way, so that a callback
is one step.
-/
namespace Crossgram
namespace Tgcalls

open List

def OUTBOUND_SIGNAL_QUEUE_CAPACITY : Nat := 16
def NATIVE_STATUS_OK : UInt32 := 0
def NATIVE_STATUS_INPUT_FULL : UInt32 := 3
def NATIVE_STATUS_OUTPUT_EMPTY : UInt32 := 4

inductive NativeFunction
  | start | receiveSignaling | pushCapture20ms | popPlayout20ms | stop | join | destroy

inductive Outcome
  | status (code : UInt32)
  | panicked

/-- What a method returns; a panic goes on. -/
inductive Result
  | ok | mediaError | panicked
deriving DecidableEq

inductive Event (H : Type)
  | called (f : NativeFunction) (handle : Option H) (outcome : Outcome)
  | released
  | leaked

structure Call where
  signals : List (List UInt8)
  outcome : Outcome

/-- A `destroy` that succeeds clears the slot; of one that does not, either may be so. -/
structure DestroyCall extends Call where
  cleared : Bool
  cleared_of_ok : outcome = .status NATIVE_STATUS_OK → cleared = true

/-! ## The context -/

structure NativeCallbackContext where
  accepting : Bool
  queue : List (List UInt8)

def NativeCallbackContext.new : NativeCallbackContext := ⟨true, []⟩

def NativeCallbackContext.outboundSignaling (context : NativeCallbackContext) (payload : List UInt8) :
    NativeCallbackContext :=
  if payload.length = 0 ∨ payload.length > VoiceIpc.MAX_SIGNAL_BYTES then context
  else if context.accepting = false then context
  else if context.queue.length < OUTBOUND_SIGNAL_QUEUE_CAPACITY then { context with queue := context.queue ++ [payload] }
  else context

def NativeCallbackContext.disableAndClear (_ : NativeCallbackContext) : NativeCallbackContext := ⟨false, []⟩

/-! ## The session -/

structure NativeTgcallsSession (H : Type) where
  handle : Option H
  /-- Whether the session holds the context. -/
  callbacks : Bool
  context : NativeCallbackContext
  log : List (Event H)

def accepted : NativeFunction → List UInt32
  | .pushCapture20ms => [NATIVE_STATUS_OK, NATIVE_STATUS_INPUT_FULL]
  | .popPlayout20ms  => [NATIVE_STATUS_OK, NATIVE_STATUS_OUTPUT_EMPTY]
  | _                => [NATIVE_STATUS_OK]

def nativeStatusResult (f : NativeFunction) : Outcome → Result
  | .status code => if code ∈ accepted f then .ok else .mediaError
  | .panicked    => .panicked

namespace NativeTgcallsSession

variable {H : Type}

def native (s : NativeTgcallsSession H) (f : NativeFunction) (call : Call) : NativeTgcallsSession H :=
  { s with
    context := call.signals.foldl NativeCallbackContext.outboundSignaling s.context
    log := .called f s.handle call.outcome :: s.log }

def withHandle (s : NativeTgcallsSession H) (f : NativeFunction) (call : Call) : Result × NativeTgcallsSession H :=
  match s.handle with
  | none   => (.mediaError, s)
  | some _ => (nativeStatusResult f call.outcome, s.native f call)

/-- `callbacks = None` -/
def release (s : NativeTgcallsSession H) : NativeTgcallsSession H :=
  if s.callbacks then { s with callbacks := false, log := .released :: s.log } else s

def leakCallbacks (s : NativeTgcallsSession H) : NativeTgcallsSession H :=
  if s.callbacks then { s with callbacks := false, log := .leaked :: s.log } else s

def disable (s : NativeTgcallsSession H) : NativeTgcallsSession H :=
  if s.callbacks then { s with context := s.context.disableAndClear } else s

def destroy (s : NativeTgcallsSession H) (call : DestroyCall) : NativeTgcallsSession H :=
  { s.native .destroy call.toCall with handle := if call.cleared then none else s.handle }

def joinTerminal (s : NativeTgcallsSession H) (join : Call) (destroyCall : DestroyCall) : Result × NativeTgcallsSession H :=
  match s.handle with
  | none   => (.ok, s)
  | some _ =>
    let joined := nativeStatusResult .join join.outcome
    if joined = .ok then
      let s := (s.native .join join).disable.destroy destroyCall
      let destroyed := nativeStatusResult .destroy destroyCall.outcome
      (destroyed, if destroyed = .ok then s.release else s)
    else (joined, s.native .join join)

def shutdown (s : NativeTgcallsSession H) (stop join : Call) (destroyCall : DestroyCall) : Result × NativeTgcallsSession H :=
  let stopped := s.withHandle .stop stop
  let joined := stopped.2.joinTerminal join destroyCall
  (if stopped.1 = .ok ∧ joined.1 = .ok then .ok else .mediaError, joined.2)

def drop (s : NativeTgcallsSession H) (stop join : Call) (destroyCall : DestroyCall) : NativeTgcallsSession H :=
  let joined := (s.withHandle .stop stop).2.joinTerminal join destroyCall
  let s := joined.2
  let s := if joined.1 ≠ .ok ∧ s.handle.isSome ∧ s.callbacks ∧ s.context.accepting then s.leakCallbacks else s
  { s.release with handle := none }

/-- The native `create` fills the slot or not; without a session, the log of what was done instead. -/
def create (valid : Bool) (call : Call) (handle : Option H) (destroyCall : DestroyCall) :
    Except (List (Event H)) (NativeTgcallsSession H) :=
  if valid = false then .error []
  else match call.outcome, handle with
    | .panicked, _ => .error [.leaked]
    | .status code, some handle =>
      if code = NATIVE_STATUS_OK then
        .ok {
          handle := some handle
          callbacks := true
          context := call.signals.foldl NativeCallbackContext.outboundSignaling .new
          log := [] }
      else .error [.leaked, .called .destroy (some handle) destroyCall.outcome]
    | .status _, none => .error [.leaked, .called .destroy none destroyCall.outcome]

def tryRecv (s : NativeTgcallsSession H) : Option (List UInt8) × NativeTgcallsSession H :=
  (s.context.queue.head?, { s with context := { s.context with queue := s.context.queue.tail } })

inductive Step
  /-- `start`, `stop`, a signal or a PCM frame -/
  | use (f : NativeFunction) (other : f ≠ .join ∧ f ≠ .destroy) (call : Call)
  | join (call : Call) (destroyCall : DestroyCall)
  | shutdown (stop join : Call) (destroyCall : DestroyCall)
  | signal (payload : List UInt8)
  | tryRecv

def step (s : NativeTgcallsSession H) : Step → NativeTgcallsSession H
  | .use f _ call                   => (s.withHandle f call).2
  | .join call destroyCall          => (s.joinTerminal call destroyCall).2
  | .shutdown stop join destroyCall => (s.shutdown stop join destroyCall).2
  | .signal payload                 => { s with context := s.context.outboundSignaling payload }
  | .tryRecv                        => s.tryRecv.2

end NativeTgcallsSession

/-! ## What a log must be -/

variable {H : Type}

def Joined (log : List (Event H)) : Prop := ∃ handle, .called .join (some handle) (.status NATIVE_STATUS_OK) ∈ log

def Destroyed (log : List (Event H)) : Prop := ∃ handle, .called .destroy handle (.status NATIVE_STATUS_OK) ∈ log

/-- What may be done after these events. -/
def Allowed (before : List (Event H)) : Event H → Prop
  | .called .destroy _ _ => Joined before ∧ ¬ Destroyed before
  | .called _ _ _        => ¬ Destroyed before
  | .released            => Joined before
  | .leaked              => ¬ Joined before

def Lawful : List (Event H) → Prop
  | []          => True
  | e :: before => Allowed before e ∧ Lawful before

/-- What a session that was dropped leaves: the context is released if some `join` succeeded, and leaked if none did. -/
structure Outlived (s : NativeTgcallsSession H) : Prop where
  lawful : Lawful s.log
  quiet : Joined s.log → s.context = .disableAndClear s.context
  released_iff : .released ∈ s.log ↔ Joined s.log
  leaked_iff : .leaked ∈ s.log ↔ ¬ Joined s.log

/-! ## The invariant -/

theorem accepting_signals (signals : List (List UInt8)) (context : NativeCallbackContext) :
    (signals.foldl NativeCallbackContext.outboundSignaling context).accepting = context.accepting ∧
      (context.accepting = false → signals.foldl NativeCallbackContext.outboundSignaling context = context) := by
  induction signals generalizing context with
  | nil => exact ⟨rfl, fun _ => rfl⟩
  | cons payload signals ih =>
    have hone : (context.outboundSignaling payload).accepting = context.accepting ∧
        (context.accepting = false → context.outboundSignaling payload = context) := by
      unfold NativeCallbackContext.outboundSignaling
      grind
    rw [foldl_cons]
    refine ⟨(ih _).1.trans hone.1, fun h => ?_⟩
    rw [hone.2 h]
    exact (ih context).2 h

namespace NativeTgcallsSession

structure Inv (s : NativeTgcallsSession H) : Prop where
  lawful : Lawful s.log
  accepting : s.context.accepting = false ↔ Joined s.log
  quiet : s.context.accepting = false → s.context.queue = []
  held : s.callbacks = true ↔ .released ∉ s.log
  unleaked : .leaked ∉ s.log
  given : s.callbacks = false → s.handle = none
  destroyed : Destroyed s.log → s.handle = none
  joined : s.handle = none → Joined s.log

variable {s : NativeTgcallsSession H} {f : NativeFunction} {call join stop : Call} {destroyCall : DestroyCall} {handle : H}

theorem Inv.undestroyed (h : Inv s) (hhandle : s.handle = some handle) : ¬ Destroyed s.log :=
  fun hd => Option.some_ne_none handle (hhandle.symm.trans (h.destroyed hd))

theorem Inv.holds (h : Inv s) (hhandle : s.handle = some handle) : s.callbacks = true := by
  by_contra hc
  exact Option.some_ne_none handle (hhandle.symm.trans (h.given (Bool.eq_false_iff.2 hc)))

theorem Inv.disabled (h : Inv s) (hjoined : Joined s.log) : s.context = .disableAndClear s.context := by
  have hoff := h.accepting.2 hjoined
  unfold NativeCallbackContext.disableAndClear
  rw [← hoff, ← h.quiet hoff]

/-- A call that is no `destroy`, and no `join` that succeeds. -/
theorem Inv.native (h : Inv s) (hhandle : s.handle = some handle) (hf : f ≠ .destroy)
    (hjoin : f = .join → call.outcome ≠ .status NATIVE_STATUS_OK) : Inv (s.native f call) := by
  have hcontext := accepting_signals call.signals s.context
  have hjoined : Joined (s.native f call).log ↔ Joined s.log := by
    unfold Joined NativeTgcallsSession.native
    grind
  have hdestroyed : Destroyed (s.native f call).log ↔ Destroyed s.log := by
    unfold Destroyed NativeTgcallsSession.native
    grind
  have hnone := h.undestroyed hhandle
  refine ⟨⟨?_, h.lawful⟩, ?_, ?_, ?_, ?_, h.given, fun hd => h.destroyed (hdestroyed.1 hd), fun hn => hjoined.2 (h.joined hn)⟩
  · cases f with
    | destroy => exact absurd rfl hf
    | _ => exact hnone
  · rw [hjoined, ← h.accepting]
    exact Eq.congr_left hcontext.1
  · intro hoff
    have hbefore := hcontext.1.symm.trans hoff
    exact (congrArg NativeCallbackContext.queue (hcontext.2 hbefore)).trans (h.quiet hbefore)
  · exact h.held.trans (by simp [NativeTgcallsSession.native])
  · simp [NativeTgcallsSession.native, h.unleaked]

/-- A `join` that succeeds: the context is disabled before anything else. -/
theorem Inv.disable (h : Inv s) (hhandle : s.handle = some handle) (hjoin : join.outcome = .status NATIVE_STATUS_OK) :
    Inv (s.native .join join).disable ∧ Joined (s.native .join join).disable.log := by
  have hnone := h.undestroyed hhandle
  have hlog : (s.native .join join).disable = { s with
      context := ⟨false, []⟩, log := .called .join (some handle) (.status NATIVE_STATUS_OK) :: s.log } := by
    unfold NativeTgcallsSession.disable NativeTgcallsSession.native
    rw [if_pos (h.holds hhandle), hhandle, hjoin]
    rfl
  have hjoined : Joined (.called .join (some handle) (.status NATIVE_STATUS_OK) :: s.log) := ⟨handle, mem_cons_self⟩
  rw [hlog]
  refine ⟨⟨⟨hnone, h.lawful⟩, ⟨fun _ => hjoined, fun _ => rfl⟩, fun _ => rfl, ?_, ?_, h.given, ?_, fun _ => hjoined⟩, hjoined⟩
  · simp [h.held]
  · simp [h.unleaked]
  · rintro ⟨handle', hmem⟩
    exact absurd ⟨handle', by simpa using hmem⟩ hnone

theorem Inv.destroy (h : Inv s) (hhandle : s.handle = some handle) (hjoined : Joined s.log) :
    Inv (s.destroy destroyCall) ∧ Joined (s.destroy destroyCall).log := by
  have hnone := h.undestroyed hhandle
  have hoff := h.accepting.2 hjoined
  have hafter : Joined (s.destroy destroyCall).log := hjoined.imp (fun _ hmem => mem_cons_of_mem _ hmem)
  have hcontext : (s.destroy destroyCall).context = s.context := (accepting_signals destroyCall.signals s.context).2 hoff
  refine ⟨⟨⟨⟨hjoined, hnone⟩, h.lawful⟩, ?_, ?_, ?_, ?_, ?_, ?_, fun _ => hafter⟩, hafter⟩
  · rw [hcontext]
    exact ⟨fun _ => hafter, fun _ => hoff⟩
  · rw [hcontext]
    exact h.quiet
  · exact h.held.trans (by simp [NativeTgcallsSession.destroy, NativeTgcallsSession.native])
  · simp [NativeTgcallsSession.destroy, NativeTgcallsSession.native, h.unleaked]
  · intro hc
    rw [h.given hc] at hhandle
    cases hhandle
  · rintro ⟨handle', hmem⟩
    rcases mem_cons.1 hmem with heq | hmem
    · injection heq with _ _ houtcome
      exact if_pos (destroyCall.cleared_of_ok houtcome.symm)
    · exact absurd ⟨handle', hmem⟩ hnone

theorem Inv.release (h : Inv s) (hhandle : s.handle = none) : Inv s.release := by
  have hjoined := h.joined hhandle
  unfold NativeTgcallsSession.release
  split
  · have hafter : Joined (.released :: s.log) := hjoined.imp (fun _ hmem => mem_cons_of_mem _ hmem)
    refine ⟨⟨hjoined, h.lawful⟩, ⟨fun _ => hafter, fun _ => h.accepting.2 hjoined⟩, h.quiet, ?_, ?_, fun _ => hhandle,
      fun _ => hhandle, fun _ => hafter⟩
    · simp
    · simp [h.unleaked]
  · exact h

theorem nativeStatusResult_eq_ok {f : NativeFunction} {outcome : Outcome} (hf : f = .join ∨ f = .destroy) :
    nativeStatusResult f outcome = .ok ↔ outcome = .status NATIVE_STATUS_OK := by
  rcases hf with rfl | rfl
  all_goals
    cases outcome with
    | panicked => simp [nativeStatusResult]
    | status code => simp [nativeStatusResult, accepted]

theorem Inv.withHandle (h : Inv s) (hf : f ≠ .destroy) (hjoin : f ≠ .join) : Inv (s.withHandle f call).2 := by
  unfold NativeTgcallsSession.withHandle
  split
  · exact h
  · rename_i handle hhandle
    exact h.native hhandle hf (fun h => absurd h hjoin)

/-- **A `joinTerminal` keeps the invariant**, and has joined once it succeeds. -/
theorem Inv.joinTerminal (h : Inv s) : Inv (s.joinTerminal join destroyCall).2 ∧
    ((s.joinTerminal join destroyCall).1 = .ok → Joined (s.joinTerminal join destroyCall).2.log) := by
  unfold NativeTgcallsSession.joinTerminal
  split
  · rename_i hhandle
    exact ⟨h, fun _ => h.joined hhandle⟩
  rename_i handle hhandle
  dsimp only
  split
  · rename_i hok
    obtain ⟨hdisabled, hjoined⟩ := h.disable hhandle ((nativeStatusResult_eq_ok (.inl rfl)).1 hok)
    have hkept : (s.native .join join).disable.handle = some handle := by
      unfold NativeTgcallsSession.disable
      split
      · exact hhandle
      · exact hhandle
    obtain ⟨hinv, hafter⟩ := @Inv.destroy _ _ destroyCall _ hdisabled hkept hjoined
    split
    · rename_i hdestroyed
      have hreleased := hinv.release
        (if_pos (destroyCall.cleared_of_ok ((nativeStatusResult_eq_ok (.inr rfl)).1 hdestroyed)))
      refine ⟨hreleased, fun _ => ?_⟩
      rw [← hreleased.accepting]
      have hoff := hinv.accepting.2 hafter
      unfold NativeTgcallsSession.release
      split
      · exact hoff
      · exact hoff
    · exact ⟨hinv, fun _ => hafter⟩
  · rename_i hfailed
    exact ⟨h.native hhandle (by simp) (fun _ hok => hfailed ((nativeStatusResult_eq_ok (.inl rfl)).2 hok)),
      fun hok => absurd hok hfailed⟩

theorem Inv.step (h : Inv s) (e : Step) : Inv (s.step e) := by
  cases e with
  | join call destroyCall => exact h.joinTerminal.1
  | shutdown stop join destroyCall => exact (h.withHandle (by simp) (by simp)).joinTerminal.1
  | signal payload =>
    have hcontext := accepting_signals [payload] s.context
    refine { h with accepting := (Eq.congr_left hcontext.1).trans h.accepting, quiet := fun hoff => ?_ }
    have hbefore := hcontext.1.symm.trans hoff
    exact (congrArg NativeCallbackContext.queue (hcontext.2 hbefore)).trans (h.quiet hbefore)
  | tryRecv =>
    refine { h with quiet := fun hoff => ?_ }
    exact congrArg List.tail (h.quiet hoff)
  | use f other call => exact h.withHandle other.2 other.1

theorem inv_create {valid : Bool} {slot : Option H} (h : create valid call slot destroyCall = .ok s) : Inv s := by
  unfold create at h
  split at h
  · cases h
  split at h
  · cases h
  · split at h
    · cases h
      have hcontext := (accepting_signals call.signals .new).1
      refine ⟨trivial, ?_, ?_, ?_, not_mem_nil, ?_, ?_, ?_⟩
      all_goals simp_all [Joined, Destroyed, NativeCallbackContext.new]
    · cases h
  · cases h

/-- **The context goes as the joins went**, when a session is dropped. -/
theorem Inv.drop (h : Inv s) : Outlived (s.drop stop join destroyCall) := by
  obtain ⟨hinv, hok⟩ := (h.withHandle (by simp) (by simp) : Inv (s.withHandle .stop stop).2).joinTerminal
  unfold NativeTgcallsSession.drop
  dsimp only
  generalize (s.withHandle .stop stop).2.joinTerminal join destroyCall = t at hinv hok
  by_cases hjoined : Joined t.2.log
  · rw [if_neg (by simp [hinv.accepting.2 hjoined])]
    unfold NativeTgcallsSession.release
    split
    · have hafter : Joined (.released :: t.2.log) := hjoined.imp (fun _ hmem => mem_cons_of_mem _ hmem)
      exact ⟨⟨hjoined, hinv.lawful⟩, fun _ => hinv.disabled hjoined, by simp [hafter], by simp [hafter, hinv.unleaked]⟩
    · rename_i hc
      exact ⟨hinv.lawful, fun _ => hinv.disabled hjoined, by simp [hjoined, not_not.1 (mt hinv.held.2 hc)],
        by simp [hjoined, hinv.unleaked]⟩
  · obtain ⟨handle, hhandle⟩ := Option.ne_none_iff_exists'.1 (fun hn => hjoined (hinv.joined hn))
    have hcallbacks := hinv.holds hhandle
    have hon : t.2.context.accepting = true := by
      by_contra hoff
      exact hjoined (hinv.accepting.1 (Bool.eq_false_iff.2 hoff))
    have hafter : ¬ Joined (.leaked :: t.2.log) := fun ⟨handle, hmem⟩ => hjoined ⟨handle, by simpa using hmem⟩
    rw [if_pos ⟨fun h => hjoined (hok h), Option.isSome_of_eq_some hhandle, hcallbacks, hon⟩]
    unfold NativeTgcallsSession.leakCallbacks NativeTgcallsSession.release
    rw [if_pos hcallbacks, if_neg (by simp)]
    exact ⟨⟨hjoined, hinv.lawful⟩, fun h => absurd h hafter, by simp [hafter, hinv.held.1 hcallbacks], by simp [hafter]⟩

end NativeTgcallsSession
end Tgcalls
end Crossgram
