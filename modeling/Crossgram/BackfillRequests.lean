import Crossgram.HistoryBackfill
import Crossgram.Lib.Maps
import Crossgram.Lib.Runs
import Mathlib.Logic.Function.Basic
/-!
# BackfillRequests — the requests the backfill worker sends (packages/history-backfill/src/worker.ts)

Here a tick is taken apart at its awaits: calls of `tick` overlap, sessions come and go between them, and clients are
active while a tick waits.  `sent` is the record of the upstream requests, which no code reads.  The counter of a session
starts anew when its state is created or its day changes, so the daily cap holds as long as it never starts anew on a day
that has requests of the session, and a request goes out on the day its tick began.
-/
namespace Crossgram

open Function HistoryBackfillWorker

/-- Where a tick stands: at the next session of its loop, in front of `_refreshConversations`, of `_nextWork`, of `_run`
up to the request, or waiting for the answer. -/
inductive TickStage
  | turns (rest : List (String × Nat))
  | refresh (id : String) (cursor : Nat) (rest : List (String × Nat))
  | choose (id : String) (cursor : Nat) (rest : List (String × Nat))
  | plan (id : String) (work : Work)
  | answer (id : String) (work : Work) (query : IMHistoryQuery) (now : Int)

/-- A call of `_tick`, with the clock it read at its start. -/
structure BackfillTick where
  now : Int
  stage : TickStage

namespace BackfillTick

def preparing (t : BackfillTick) : Option String :=
  match t.stage with
  | .refresh id _ _ => some id
  | .choose id _ _  => some id
  | .plan id _      => some id
  | _               => none

def waiting (t : BackfillTick) : Bool :=
  match t.stage with
  | .answer _ _ _ _ => true
  | _               => false

end BackfillTick

/-- An upstream request: the clock when its tick began and when it was sent, and what `lastActivityAt` would answer then. -/
structure SentRequest where
  request : BackfillRequest
  tickStartedAt : Int
  sentAt : Int
  lastActivity : Option Int

structure BackfillTicks where
  worker : HistoryBackfillWorker
  busy : Bool
  ticks : Nat → Option BackfillTick
  lastActivityAt : String → Option Int
  sent : List SentRequest

/-- `host` is what the worker is answered at that step; the activity is that of the state.  `sentAt` is the clock when the
request goes out, `now` the one `_run` reads. -/
inductive TickEvent
  | tick (i : Nat) (sessions : List String) (now : Int)
  | turn (i : Nat) (host : BackfillHost)
  | refresh (i : Nat) (host : BackfillHost)
  | choose (i : Nat) (host : BackfillHost)
  | plan (i : Nat) (host : BackfillHost) (now sentAt : Int)
  | answer (i : Nat) (outcome : Except String HistoryBackfillPage)
  | throw (i : Nat)
  | resetConversation (session conversationId : String)
  | enable (enabled : Bool)
  | active (id : String) (lastActivityAt : Option Int)

def SessionState.setConversation (st : SessionState) (conversationId : String) (state : ConversationState) :
    SessionState :=
  { st with conversations := Maps.set st.conversations conversationId state }

namespace BackfillTicks

def start (enabled : Bool) (lastActivityAt : String → Option Int) : BackfillTicks :=
  { worker := { enabled := enabled, sessions := [], cursor := 0 }, busy := false, ticks := fun _ => none
    lastActivityAt := lastActivityAt, sent := [] }

def goOn (s : BackfillTicks) (i : Nat) (now : Int) (stage : TickStage) : BackfillTicks :=
  { s with ticks := Function.update s.ticks i (some ⟨now, stage⟩) }

/-- `finally`: the tick is over. -/
def finish (s : BackfillTicks) (i : Nat) : BackfillTicks :=
  { s with busy := false, ticks := Function.update s.ticks i none }

def turnsOf (cursor : Nat) (sessions : List String) : List (String × Nat) :=
  (List.range sessions.length).filterMap (fun offset =>
    (sessions[(cursor + offset) % sessions.length]?).map (fun id => (id, (cursor + offset + 1) % sessions.length)))

/-- `_run` when the answer is there. -/
def answered (options : BackfillOptions) (now : Int) (work : Work) (query : IMHistoryQuery)
    (outcome : Except String HistoryBackfillPage) (state : ConversationState) : ConversationState :=
  match outcome with
  | .error _ => fail now state
  | .ok page => succeed options now work query page state

variable (options : BackfillOptions)

/-- `_run` up to the request, which is counted and sent. -/
def planned (s : BackfillTicks) (i : Nat) (t : BackfillTick) (id : String) (work : Work) (host : BackfillHost)
    (now sentAt : Int) : BackfillTicks :=
  match Maps.get s.worker.sessions id with
  | none    => s.finish i
  | some st =>
    match Maps.get st.conversations (workConversation work) with
    | none       => s.finish i
    | some state =>
      match plan options now (host.oldestStoredMessage id (workConversation work)) work state with
      | (state, none)       =>
        { s with worker := s.worker.setSession id (st.setConversation (workConversation work) state) }.finish i
      | (state, some query) =>
        let st := st.setConversation (workConversation work) { state with requests := state.requests + 1 }
        { s with
          worker := s.worker.setSession id { st with requestsToday := st.requestsToday + 1 }
          ticks := Function.update s.ticks i (some ⟨t.now, .answer id work query now⟩)
          sent := s.sent ++ [{ request := ⟨id, workConversation work, query⟩, tickStartedAt := t.now, sentAt := sentAt
                               lastActivity := s.lastActivityAt id }] }

def step (s : BackfillTicks) : TickEvent → Option BackfillTicks
  | .tick i sessions now =>
    match s.ticks i with
    | some _ => none
    | none   =>
      -- a call while another is under way answers `false`
      if s.busy then some s
      else some { s with
        worker := s.worker.forgetInactive sessions
        busy := true
        ticks := Function.update s.ticks i (some ⟨now, .turns (turnsOf s.worker.cursor sessions)⟩) }
  | .turn i host =>
    match s.ticks i with
    | some ⟨_, .turns []⟩                   => some (s.finish i)
    | some ⟨now, .turns ((id, cursor) :: rest)⟩ =>
      let st := s.worker.session id now
      let s' := { s with worker := s.worker.setSession id st }
      if s.worker.mayWork options { host with lastActivityAt := s.lastActivityAt } now id st then
        some (s'.goOn i now (.refresh id cursor rest))
      else some (s'.goOn i now (.turns rest))
    | _ => none
  | .refresh i host =>
    match s.ticks i with
    | some ⟨now, .refresh id cursor rest⟩ =>
      (Maps.get s.worker.sessions id).map (fun st =>
        { s with worker := s.worker.setSession id (refreshConversations options host now id st) }.goOn i now
          (.choose id cursor rest))
    | _ => none
  | .choose i host =>
    match s.ticks i with
    | some ⟨now, .choose id cursor rest⟩ =>
      (Maps.get s.worker.sessions id).map (fun st =>
        match nextWork options host now id st with
        | (st, none)      => { s with worker := s.worker.setSession id st }.goOn i now (.turns rest)
        | (st, some work) =>
          { s with worker := { s.worker.setSession id st with cursor := cursor } }.goOn i now (.plan id work))
    | _ => none
  | .plan i host now sentAt =>
    match s.ticks i with
    | some ⟨started, .plan id work⟩ => some (s.planned options i ⟨started, .plan id work⟩ id work host now sentAt)
    | _ => none
  | .answer i outcome =>
    match s.ticks i with
    | some ⟨_, .answer id work query now⟩ =>
      match Maps.get s.worker.sessions id with
      | none    => some (s.finish i)
      | some st =>
        match Maps.get st.conversations (workConversation work) with
        | none       => some (s.finish i)
        | some state =>
          some ({ s with worker := s.worker.setSession id (st.setConversation (workConversation work)
            (answered options now work query outcome state)) }.finish i)
    | _ => none
  | .throw i => (s.ticks i).bind (fun t => if t.preparing.isSome then some (s.finish i) else none)
  | .resetConversation session conversationId =>
    some { s with worker := s.worker.resetConversation session conversationId }
  | .enable enabled => some { s with worker := { s.worker with enabled := enabled } }
  | .active id lastActivityAt => some { s with lastActivityAt := Function.update s.lastActivityAt id lastActivityAt }

/-! ## The condition on a step -/

def sentOn (s : BackfillTicks) (id : String) (day : Int) : Nat :=
  (s.sent.filter (fun r => r.request.platformSessionId = id ∧ r.sentAt / dayMs = day)).length

/-- The counter of a session starts anew only on a day that has no request of it, a request goes out on the day its tick
began, and nobody becomes active in a session whose request is being prepared. -/
def Counted (s : BackfillTicks) : TickEvent → Prop
  | .turn i _      => ∀ now id cursor rest, s.ticks i = some ⟨now, .turns ((id, cursor) :: rest)⟩ →
      (∀ st, Maps.get s.worker.sessions id = some st → st.dayKey ≠ now / dayMs) → s.sentOn id (now / dayMs) = 0
  | .plan i _ _ sentAt => ∀ t, s.ticks i = some t → sentAt / dayMs = t.now / dayMs
  | .active id last => ∀ i t, s.ticks i = some t → t.preparing = some id →
      ∀ lastActivity ∈ last, options.idleAfterMs ≤ t.now - lastActivity
  | _              => True

/-! ## Every run -/

structure Ready (options : BackfillOptions) (s : BackfillTicks) (id : String) (now : Int) : Prop where
  counter : ∃ st, Maps.get s.worker.sessions id = some st ∧ st.requestsToday < options.dailyRequestCap ∧
    st.dayKey = now / dayMs
  idle : ∀ lastActivity ∈ s.lastActivityAt id, options.idleAfterMs ≤ now - lastActivity

structure Inv (options : BackfillOptions) (s : BackfillTicks) : Prop where
  alone : ∀ i t, s.ticks i = some t → s.busy = true ∧ ∀ j t', s.ticks j = some t' → j = i
  counted : ∀ id st, Maps.get s.worker.sessions id = some st → s.sentOn id st.dayKey ≤ st.requestsToday
  within : ∀ id day, s.sentOn id day ≤ options.dailyRequestCap
  ready : ∀ i t id, s.ticks i = some t → t.preparing = some id → Ready options s id t.now
  idle : ∀ r ∈ s.sent, ∀ lastActivity ∈ r.lastActivity, options.idleAfterMs ≤ r.tickStartedAt - lastActivity

variable {options} {s s' : BackfillTicks}

theorem inv_start (options : BackfillOptions) (enabled : Bool) (lastActivityAt : String → Option Int) :
    Inv options (start enabled lastActivityAt) where
  alone := fun _ _ h => by cases h
  counted := fun _ _ h => by cases h
  within := fun _ _ => Nat.zero_le _
  ready := fun _ _ _ h => by cases h
  idle := fun _ h => absurd h List.not_mem_nil

variable {id : String}

theorem Inv.setSession (h : Inv options s) {st st' : SessionState}
    (hget : Maps.get s.worker.sessions id = some st) (hcount : st'.requestsToday = st.requestsToday)
    (hday : st'.dayKey = st.dayKey) : Inv options { s with worker := s.worker.setSession id st' } := by
  have hsessions : ∀ id', Maps.get (s.worker.setSession id st').sessions id' =
      if id' = id then some st' else Maps.get s.worker.sessions id' := fun id' => Maps.get_set _ _ _ _
  refine ⟨h.alone, fun id' st₁ hst₁ => ?_, h.within, fun i t id' hi hp => ?_, h.idle⟩
  · simp only [hsessions] at hst₁
    by_cases hid : id' = id
    · rw [if_pos hid] at hst₁
      cases hst₁
      rw [hid, hday, hcount]
      exact h.counted id st hget
    · rw [if_neg hid] at hst₁
      exact h.counted id' st₁ hst₁
  · obtain ⟨⟨st₁, hst₁, hlt, hkey⟩, hidle⟩ := h.ready i t id' hi hp
    refine ⟨?_, hidle⟩
    simp only [hsessions]
    by_cases hid : id' = id
    · rw [if_pos hid]
      rw [hid, hget] at hst₁
      cases hst₁
      exact ⟨st', rfl, hcount ▸ hlt, hday.trans hkey⟩
    · rw [if_neg hid]
      exact ⟨st₁, hst₁, hlt, hkey⟩

theorem Inv.congr (h : Inv options s) {w : HistoryBackfillWorker} (hw : w.sessions = s.worker.sessions) :
    Inv options { s with worker := w } := by
  refine ⟨h.alone, fun id st hst => h.counted id st (hw ▸ hst), h.within, fun i t id hi hp => ?_, h.idle⟩
  obtain ⟨⟨st, hst, hlt, hkey⟩, hidle⟩ := h.ready i t id hi hp
  exact ⟨⟨st, hw ▸ hst, hlt, hkey⟩, hidle⟩

variable {i : Nat} {t : BackfillTick}

theorem Inv.goOn (h : Inv options s) (hi : s.ticks i = some t) {stage : TickStage}
    (hready : ∀ id, (BackfillTick.mk t.now stage).preparing = some id → Ready options s id t.now) :
    Inv options (s.goOn i t.now stage) := by
  obtain ⟨hbusy, honly⟩ := h.alone i t hi
  have hticks : ∀ j t', (s.goOn i t.now stage).ticks j = some t' → j = i ∧ t' = ⟨t.now, stage⟩ := by
    intro j t' hj
    by_cases hji : j = i
    · subst hji
      exact ⟨rfl, (Option.some.inj ((update_self j _ _).symm.trans hj)).symm⟩
    · exact absurd (honly j t' ((update_of_ne hji _ _).symm.trans hj)) hji
  refine ⟨fun j t' hj => ⟨hbusy, fun k t'' hk => ?_⟩, h.counted, h.within, fun j t' id hj hp => ?_, h.idle⟩
  · rw [(hticks j t' hj).1, (hticks k t'' hk).1]
  · obtain ⟨-, rfl⟩ := hticks j t' hj
    exact ⟨(hready id hp).counter, (hready id hp).idle⟩

theorem Inv.finish (h : Inv options s) (hi : s.ticks i = some t) :
    Inv options (s.finish i) := by
  have hticks : ∀ j t', (s.finish i).ticks j ≠ some t' := by
    intro j t' hj
    by_cases hji : j = i
    · have hj : Function.update s.ticks i none j = some t' := hj
      rw [hji, update_self] at hj
      cases hj
    · exact hji ((h.alone i t hi).2 j t' ((update_of_ne hji _ _).symm.trans hj))
  exact ⟨fun j t' hj => absurd hj (hticks j t'), h.counted, h.within, fun j t' id hj => absurd hj (hticks j t'), h.idle⟩

/-! ### What leaves the counter alone -/

theorem refreshConversations_counter (options : BackfillOptions) (host : BackfillHost) (now : Int) (id : String)
    (st : SessionState) : (refreshConversations options host now id st).requestsToday = st.requestsToday ∧
      (refreshConversations options host now id st).dayKey = st.dayKey := by
  unfold refreshConversations
  split
  · exact ⟨rfl, rfl⟩
  · exact List.foldlRecOn (motive := fun (st' : SessionState) => st'.requestsToday = st.requestsToday ∧
      st'.dayKey = st.dayKey) _ _ ⟨rfl, rfl⟩ (fun _ h _ _ => h)

theorem firstGap_counter (options : BackfillOptions) (host : BackfillHost) (id : String) :
    ∀ (ids : List String) (st : SessionState),
    (firstGap options host id ids st).1.requestsToday = st.requestsToday ∧
      (firstGap options host id ids st).1.dayKey = st.dayKey
  | [], st => ⟨rfl, rfl⟩
  | c :: ids, st => by
    rw [firstGap]
    split
    · exact firstGap_counter options host id ids st
    · split
      · simp only
        split
        · exact ⟨rfl, rfl⟩
        · exact firstGap_counter options host id ids _
      · exact firstGap_counter options host id ids st

theorem nextWork_counter (options : BackfillOptions) (host : BackfillHost) (now : Int) (id : String)
    (st : SessionState) : (nextWork options host now id st).1.requestsToday = st.requestsToday ∧
      (nextWork options host now id st).1.dayKey = st.dayKey := by
  unfold nextWork
  simp only
  generalize List.filter _ st.order = ready
  have hgap := firstGap_counter options host id ready st
  split
  · rename_i heq
    rw [heq] at hgap
    exact hgap
  · rename_i heq
    rw [heq] at hgap
    exact hgap

/-! ### The steps that count -/

/-- **The checks of one session**: its counter is of the tick's day, and it goes on only when it is ready. -/
theorem Inv.turn (h : Inv options s) {now : Int} {cursor : Nat} {rest : List (String × Nat)}
    (hi : s.ticks i = some ⟨now, .turns ((id, cursor) :: rest)⟩)
    (hnew : (∀ st, Maps.get s.worker.sessions id = some st → st.dayKey ≠ now / dayMs) → s.sentOn id (now / dayMs) = 0) :
    Inv options { s with worker := s.worker.setSession id (s.worker.session id now) } ∧
      (s.worker.session id now).dayKey = now / dayMs := by
  have hstate : (s.worker.session id now).dayKey = now / dayMs ∧
      s.sentOn id (now / dayMs) ≤ (s.worker.session id now).requestsToday := by
    unfold HistoryBackfillWorker.session
    simp only
    cases hget : Maps.get s.worker.sessions id with
    | none =>
      refine ⟨rfl, ?_⟩
      rw [hnew (fun st hst => by rw [hget] at hst; cases hst)]
    | some st =>
      simp only
      by_cases hday : st.dayKey ≠ now / dayMs
      · rw [if_pos hday]
        refine ⟨rfl, ?_⟩
        rw [hnew (fun st' hst' => by rw [hget] at hst'; cases hst'; exact hday)]
      · rw [if_neg hday]
        have hday := not_not.1 hday
        refine ⟨hday, ?_⟩
        rw [← hday]
        exact h.counted id st hget
  obtain ⟨hday, hcount⟩ := hstate
  refine ⟨⟨h.alone, fun id' st hst => ?_, h.within, fun j t id' hj hp => ?_, h.idle⟩, hday⟩
  · have hst : (if id' = id then some (s.worker.session id now) else Maps.get s.worker.sessions id') = some st :=
      (Maps.get_set _ _ _ _).symm.trans hst
    by_cases hid : id' = id
    · rw [if_pos hid] at hst
      cases hst
      rw [hid, hday]
      exact hcount
    · rw [if_neg hid] at hst
      exact h.counted id' st hst
  · have hji := (h.alone i _ hi).2 j t hj
    rw [hji, hi] at hj
    cases hj
    cases hp

/-- **The request**: it is counted, on the day of the counter. -/
theorem Inv.planned (h : Inv options s) {work : Work}
    (hi : s.ticks i = some t) (hp : t.preparing = some id) {host : BackfillHost} {now sentAt : Int}
    (hsentAt : sentAt / dayMs = t.now / dayMs) : Inv options (s.planned options i t id work host now sentAt) := by
  obtain ⟨⟨st, hget, hlt, hkey⟩, hidle⟩ := h.ready i t id hi hp
  unfold BackfillTicks.planned
  rw [hget]
  simp only
  split
  · exact h.finish hi
  · split
    · rename_i state _
      have hinv := h.setSession hget (show (st.setConversation (workConversation work) state).requestsToday =
        st.requestsToday from rfl) rfl
      exact hinv.finish hi
    · rename_i state query _
      obtain ⟨hbusy, honly⟩ := h.alone i t hi
      have hcounted := h.counted id st hget
      have hticks : ∀ j t', Function.update s.ticks i (some ⟨t.now, .answer id work query now⟩) j = some t' →
          j = i ∧ t' = ⟨t.now, .answer id work query now⟩ := by
        intro j t' hj
        by_cases hji : j = i
        · rw [hji, update_self] at hj
          exact ⟨hji, (Option.some.inj hj).symm⟩
        · exact absurd (honly j t' ((update_of_ne hji _ _).symm.trans hj)) hji
      -- one more request of this session, on the day of its counter
      have hsent : ∀ id' day, (((s.sent ++ [(⟨⟨id, workConversation work, query⟩, t.now, sentAt,
          s.lastActivityAt id⟩ : SentRequest)]).filter (fun r : SentRequest =>
          r.request.platformSessionId = id' ∧ r.sentAt / dayMs = day)).length) =
          s.sentOn id' day + (if id = id' ∧ st.dayKey = day then 1 else 0) := by
        intro id' day
        rw [List.filter_append, List.length_append, hkey, ← hsentAt]
        by_cases hone : id = id' ∧ sentAt / dayMs = day
        · simp [sentOn, hone]
        · simp [sentOn, hone]
      refine ⟨fun j t' hj => ⟨hbusy, fun k t'' hk => ?_⟩, fun id' st' hst' => ?_, fun id' day => ?_,
        fun j t' id' hj hp' => ?_, fun r hr => ?_⟩
      · rw [(hticks j t' hj).1, (hticks k t'' hk).1]
      · refine (Nat.le_of_eq (hsent id' st'.dayKey)).trans ?_
        have hst' := (Maps.get_set _ _ _ _).symm.trans hst'
        by_cases hid : id' = id
        · rw [if_pos hid] at hst'
          cases hst'
          rw [hid, if_pos ⟨rfl, rfl⟩]
          exact Nat.succ_le_succ hcounted
        · rw [if_neg hid] at hst'
          rw [if_neg (fun hc => hid hc.1.symm)]
          exact h.counted id' st' hst'
      · refine (Nat.le_of_eq (hsent id' day)).trans ?_
        split
        · rename_i hone
          rw [← hone.1, ← hone.2]
          omega
        · exact h.within id' day
      · obtain ⟨-, rfl⟩ := hticks j t' hj
        cases hp'
      · rcases List.mem_append.1 hr with hr | hr
        · exact h.idle r hr
        · rw [List.mem_singleton.1 hr]
          exact hidle

/-- **One step.** -/
theorem inv_step {e : TickEvent} (h : Inv options s) (hcounted : s.Counted options e) (hstep : step options s e = some s') :
    Inv options s' := by
  cases e with
  | tick i sessions now =>
    simp only [step] at hstep
    split at hstep
    · cases hstep
    · split at hstep
      · cases hstep
        exact h
      · rename_i hi hbusy
        cases hstep
        have hnone : ∀ j t, s.ticks j ≠ some t := fun j t hj => hbusy (h.alone j t hj).1
        have hticks : ∀ j t', Function.update s.ticks i (some ⟨now, .turns (turnsOf s.worker.cursor sessions)⟩) j =
            some t' → j = i ∧ t' = ⟨now, .turns (turnsOf s.worker.cursor sessions)⟩ := by
          intro j t' hj
          by_cases hji : j = i
          · rw [hji, update_self] at hj
            exact ⟨hji, (Option.some.inj hj).symm⟩
          · exact absurd ((update_of_ne hji _ _).symm.trans hj) (hnone j t')
        refine ⟨fun j t hj => ⟨rfl, fun k t' hk => ?_⟩, fun id st hst => ?_, h.within, fun j t id hj hp => ?_, h.idle⟩
        · rw [(hticks j t hj).1, (hticks k t' hk).1]
        · refine h.counted id st ?_
          have hst := (Maps.get_filter_keys (fun key => decide (key ∈ sessions)) id s.worker.sessions).symm.trans hst
          split at hst
          · exact hst
          · cases hst
        · obtain ⟨-, rfl⟩ := hticks j t hj
          cases hp
  | turn i host =>
    simp only [step] at hstep
    split at hstep
    · rename_i hi
      cases hstep
      exact h.finish hi
    · rename_i now id cursor rest hi
      obtain ⟨hinv, hday⟩ := h.turn hi (hcounted now id cursor rest hi)
      split at hstep
      · rename_i hmay
        cases hstep
        refine hinv.goOn (t := ⟨now, .turns ((id, cursor) :: rest)⟩) hi (fun id' hid => ?_)
        obtain rfl : id = id' := Option.some.inj hid
        simp only [mayWork, Bool.and_eq_true, decide_eq_true_eq, Bool.not_eq_true'] at hmay
        refine ⟨⟨_, ?_, hmay.1.2, hday⟩, fun lastActivity hlast => ?_⟩
        · exact (Maps.get_set _ _ _ _).trans (if_pos rfl)
        · have hidle := hmay.2
          rw [show s.lastActivityAt id = some lastActivity from hlast, Option.any_some, decide_eq_false_iff_not] at hidle
          show options.idleAfterMs ≤ now - lastActivity
          omega
      · cases hstep
        exact hinv.goOn (t := ⟨now, .turns ((id, cursor) :: rest)⟩) hi (fun id' hid => by cases hid)
    · cases hstep
  | refresh i host =>
    simp only [step] at hstep
    split at hstep
    · rename_i now id cursor rest hi
      obtain ⟨st, hst, rfl⟩ := Option.map_eq_some_iff.1 hstep
      obtain ⟨hcount, hday⟩ := refreshConversations_counter options host now id st
      have hinv := h.setSession hst hcount hday
      refine hinv.goOn (t := ⟨now, .refresh id cursor rest⟩) hi (fun id' hid => ?_)
      exact hinv.ready i _ id' hi hid
    · cases hstep
  | choose i host =>
    simp only [step] at hstep
    split at hstep
    · rename_i now id cursor rest hi
      obtain ⟨st, hst, rfl⟩ := Option.map_eq_some_iff.1 hstep
      have hcounter := nextWork_counter options host now id st
      split
      · rename_i st' heq
        rw [heq] at hcounter
        exact (h.setSession hst hcounter.1 hcounter.2).goOn (t := ⟨now, .choose id cursor rest⟩) hi
          (fun id' hid => by cases hid)
      · rename_i st' work heq
        rw [heq] at hcounter
        have hinv := (h.setSession hst hcounter.1 hcounter.2).congr
          (w := { s.worker.setSession id st' with cursor := cursor }) rfl
        refine hinv.goOn (t := ⟨now, .choose id cursor rest⟩) hi (fun id' hid => ?_)
        exact hinv.ready i _ id' hi hid
    · cases hstep
  | plan i host now sentAt =>
    simp only [step] at hstep
    split at hstep
    · rename_i started id work hi
      cases hstep
      exact h.planned hi rfl (hcounted _ hi)
    · cases hstep
  | answer i outcome =>
    simp only [step] at hstep
    split at hstep
    · rename_i started id work query now hi
      split at hstep
      · cases hstep
        exact h.finish hi
      · rename_i st hst
        split at hstep
        · cases hstep
          exact h.finish hi
        · rename_i state _
          cases hstep
          have hinv := h.setSession hst (show (st.setConversation (workConversation work)
            (answered options now work query outcome state)).requestsToday = st.requestsToday from rfl) rfl
          exact hinv.finish hi
    · cases hstep
  | throw i =>
    obtain ⟨t, hi, hstep⟩ := Option.bind_eq_some_iff.1 hstep
    split at hstep
    · cases hstep
      exact h.finish hi
    · cases hstep
  | resetConversation session conversationId =>
    cases hstep
    unfold HistoryBackfillWorker.resetConversation
    split
    · exact h
    · rename_i st hst
      split
      · exact h
      · exact h.setSession hst rfl rfl
  | enable enabled =>
    cases hstep
    exact h.congr rfl
  | active id lastActivityAt =>
    cases hstep
    refine ⟨h.alone, h.counted, h.within, fun i t id' hi hp => ?_, h.idle⟩
    obtain ⟨hcounter, hidle⟩ := h.ready i t id' hi hp
    refine ⟨hcounter, ?_⟩
    by_cases hid : id' = id
    · subst hid
      simp only [update_self]
      exact hcounted i t hi hp
    · simp only [update_of_ne hid]
      exact hidle

/-- **The daily cap holds** in a run whose steps meet the condition: of one session at most `dailyRequestCap` requests go
out on one day, and none unless the session had been idle when the tick began; and one request at most is in flight. -/
theorem daily_request_cap {enabled : Bool} {lastActivityAt : String → Option Int}
    (h : Runs.Reachable (step options) (Counted options) (start enabled lastActivityAt) s) :
    (∀ id day, (s.sent.filter (fun r => r.request.platformSessionId = id ∧ r.sentAt / dayMs = day)).length ≤
      options.dailyRequestCap) ∧
    (∀ i j t t', s.ticks i = some t → s.ticks j = some t' → t.waiting = true → t'.waiting = true → i = j) ∧
    ∀ r ∈ s.sent, ∀ lastActivity ∈ r.lastActivity, options.idleAfterMs ≤ r.tickStartedAt - lastActivity := by
  have hinv : Inv options s := h.invariant (inv_start options enabled lastActivityAt)
    (fun _ _ _ _ hinv hcounted hstep => inv_step hinv hcounted hstep)
  exact ⟨hinv.within, fun i j t t' hi hj _ _ => (hinv.alone j t' hj).2 i t hi, hinv.idle⟩

def countedTest (s : BackfillTicks) : TickEvent → Bool
  | .turn i _          =>
    match s.ticks i with
    | some ⟨now, .turns ((id, _) :: _)⟩ =>
      ((Maps.get s.worker.sessions id).any (fun st => decide (st.dayKey = now / dayMs))) ||
        decide (s.sentOn id (now / dayMs) = 0)
    | _ => true
  | .plan i _ _ sentAt => (s.ticks i).all (fun t => decide (sentAt / dayMs = t.now / dayMs))
  | .active _ _        => false
  | _                  => true

theorem counted_of_test (s : BackfillTicks) (e : TickEvent) (h : countedTest s e = true) : s.Counted options e := by
  cases e with
  | turn i host =>
    intro now id cursor rest hi hnew
    simp only [countedTest, hi, Bool.or_eq_true, decide_eq_true_eq] at h
    rcases h with h | h
    · obtain ⟨st, hst, hday⟩ := (Option.any_eq_true _ _).1 h
      exact absurd (of_decide_eq_true hday) (hnew st hst)
    · exact h
  | plan i host now sentAt =>
    intro t hi
    simp only [countedTest, hi, Option.all_some, decide_eq_true_eq] at h
    exact h
  | active id lastActivityAt => cases h
  | _ => trivial

/-! ## Two runs -/

def offlineHost : BackfillHost :=
  { sessions := ["qq"]
    lastActivityAt := fun _ => none
    supportsHistory := fun _ => true
    supportsSequenceHistory := fun _ => false
    listConversations := fun _ => [⟨"friend", .direct, false, none⟩]
    nativeSequences := fun _ _ => []
    oldestStoredMessage := fun _ _ => some ⟨"m", 0⟩
    backfill := fun _ _ _ => .error "offline" }

def cappedOptions : BackfillOptions := ⟨60000, 50, 1, 0, 600000, 5000⟩

def requestTick (i : Nat) (now : Int) : List TickEvent :=
  [.tick i ["qq"] now, .turn i offlineHost, .refresh i offlineHost, .choose i offlineHost, .plan i offlineHost now now,
    .answer i (.error "offline")]

/-- A run of `Counted` steps, from the start. -/
def countedRun (events : List TickEvent) : Option BackfillTicks :=
  Runs.run (fun s e => if countedTest s e then step cappedOptions s e else none) (start true (fun _ => none)) events

/-- **Two days, one request on each.** -/
theorem daily_request_cap_two_days : ∃ s, countedRun (requestTick 0 0 ++ requestTick 1 dayMs) = some s ∧
    s.sent.length = 2 ∧
    (s.sent.filter (fun r => r.request.platformSessionId = "qq" ∧ r.sentAt / dayMs = 0)).length ≤ 1 ∧
    (s.sent.filter (fun r => r.request.platformSessionId = "qq" ∧ r.sentAt / dayMs = 1)).length ≤ 1 := by
  have hsent : (countedRun (requestTick 0 0 ++ requestTick 1 dayMs)).map (fun s => s.sent.length) = some 2 := by
    decide +kernel
  obtain ⟨s, hrun, hlength⟩ := Option.map_eq_some_iff.1 hsent
  have hcap := daily_request_cap (Runs.reachable_of_tested_run counted_of_test .init hrun)
  exact ⟨s, hrun, hlength, hcap.1 "qq" 0, hcap.1 "qq" 1⟩

/-- **A forgotten session counts anew**: a tick without the session between two ticks with it, all on one day, and its
account gets a second request where one is allowed. -/
theorem forgotten_session_sends_again :
    ¬ ∀ s, Runs.Reachable (step cappedOptions) (fun _ _ => True) (start true (fun _ => none)) s → ∀ id day,
      (s.sent.filter (fun r => r.request.platformSessionId = id ∧ r.sentAt / dayMs = day)).length ≤
        cappedOptions.dailyRequestCap := by
  intro hall
  have hsent : (Runs.run (step cappedOptions) (start true (fun _ => none))
      (requestTick 0 0 ++ [.tick 1 [] 1000, .turn 1 offlineHost] ++ requestTick 2 2000)).map (fun s =>
        (s.sent.filter (fun r => r.request.platformSessionId = "qq" ∧ r.sentAt / dayMs = 0)).length) = some 2 := by
    decide +kernel
  obtain ⟨s, hrun, hlength⟩ := Option.map_eq_some_iff.1 hsent
  have hcap := hall s (Runs.reachable_of_run (fun _ _ _ => trivial) .init hrun) "qq" 0
  rw [hlength] at hcap
  exact absurd hcap (by decide)

end BackfillTicks
end Crossgram
