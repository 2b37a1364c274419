import Crossgram.SendQueueSettles
/-!
# SendQueueOrder — the frames on the wire

The encoder is stateful, so the wire is right only when what is written is what was encoded, in order and without a gap.
While the connection is open, the encoded frames are the written ones and at most one more, the frame that is being
encoded or the closing frame that waits (`Opened.due`); an abandoned send has closed it.
-/
namespace Crossgram

open List

namespace ServerConnection

variable {κ : Type} (encode : κ → List UInt8 → List UInt8 × κ)

/-! ## The cipher stream -/

def stream : κ → List (List UInt8) → List (List UInt8)
  | _,     []         => []
  | codec, data :: ds => (encode codec data).1 :: stream (encode codec data).2 ds

def codecAfter (codec : κ) (ds : List (List UInt8)) : κ := ds.foldl (fun codec data => (encode codec data).2) codec

theorem stream_append : ∀ (codec : κ) (ds ds' : List (List UInt8)),
    stream encode codec (ds ++ ds') = stream encode codec ds ++ stream encode (codecAfter encode codec ds) ds'
  | _,     [],         _   => rfl
  | codec, data :: ds, ds' => by
    rw [cons_append, stream, stream, stream_append _ ds ds', cons_append]
    rfl

variable {codec : κ}

theorem stream_prefix {ds ds' : List (List UInt8)} (h : ds <+: ds') :
    stream encode codec ds <+: stream encode codec ds' := by
  obtain ⟨rest, rfl⟩ := h
  rw [stream_append]
  exact prefix_append _ _

/-! ## What is kept -/

variable {encode} {c c' : ServerConnection κ} {send : Nat} {outcome : TransportSendCompletion}

def frames (c : ServerConnection κ) : List (Nat × List UInt8) := c.effects.filterMap TransportEffect.frame

def due (c : ServerConnection κ) : List (Nat × List UInt8) :=
  match c.pendingCloseFrame with
  | some f => [f]
  | none   => match c.encoding with
    | some e => if e.answered then [] else [(e.send, e.frame)]
    | none   => []

structure Base (encode : κ → List UInt8 → List UInt8 × κ) (c : ServerConnection κ) : Prop where
  codec : c.codec = c.first.map (fun codec => codecAfter encode codec (c.encoded.map (fun f => c.dataOf f.1)))
  undetected : c.first = none → c.accepted = []
  encodings : ∀ codec, c.first = some codec →
    c.encoded.map Prod.snd = stream encode codec (c.encoded.map (fun f => c.dataOf f.1))
  known : ∀ send ∈ c.accepted, send < c.requests.length
  sorted : c.accepted.Pairwise (fun earlier later => earlier < later)
  last : ∀ send ∈ c.accepted, ∀ earlier < send, c.closesAfterWrite earlier = false
  stops : ∀ send, c.closesAfterWrite send = true → c.stopped = true
  begun : c.encoded.map Prod.fst <+: c.accepted
  written : c.frames <+: c.encoded

structure Opened (c : ServerConnection κ) : Prop where
  queue : c.encoded.map Prod.fst ++ c.pendingSends = c.accepted
  due : c.frames ++ c.due = c.encoded
  live : c.abandoned = []
  waiting : ∀ send ∈ c.completionSends, send ∈ c.accepted
  closeFrame : ∀ f, c.pendingCloseFrame = some f →
    c.closesAfterWrite f.1 = true ∧ ∀ e, c.encoding = some e → e.answered = true

def Due (c : ServerConnection κ) : Prop :=
  c.closed = false → ∀ f, c.pendingCloseFrame = some f → c.frames ++ [f] = c.encoded

theorem Opened.closing_due (h : Opened c) {f : Nat × List UInt8} (hf : c.pendingCloseFrame = some f) :
    c.frames ++ [f] = c.encoded := by
  have := h.due
  unfold ServerConnection.due at this
  rwa [hf] at this

theorem due_of_opened (h : c.closed = false → Opened c) : Due c := fun hopen _ hf => (h hopen).closing_due hf

theorem Opened.queue_nil (h : Opened c) (hb : Base encode c) {f : Nat × List UInt8} (hf : c.pendingCloseFrame = some f) :
    c.pendingSends = [] := by
  have haccepted := h.queue
  rw [← h.closing_due hf, map_append, append_assoc] at haccepted
  have hsorted := hb.sorted
  rw [← haccepted, pairwise_append] at hsorted
  refine eq_nil_iff_forall_not_mem.2 (fun send hs => ?_)
  have hmem : send ∈ c.accepted := h.queue ▸ mem_append_right _ hs
  have := hb.last send hmem f.1 (rel_of_pairwise_cons hsorted.2.1 hs)
  rw [(h.closeFrame f hf).1] at this
  cases this

theorem frames_settle (c : ServerConnection κ) {completionSends : List Nat} :
    frames { c with
      completionSends := completionSends
      effects := c.effects ++ [.settle send outcome] } = c.frames := by
  unfold frames
  rw [filterMap_append]
  exact append_nil _

theorem Base.of_fields (h : Base encode c) (hrequests : c'.requests = c.requests) (hcodec : c'.codec = c.codec)
    (hfirst : c'.first = c.first) (haccepted : c'.accepted = c.accepted) (hencoded : c'.encoded = c.encoded)
    (hstopped : c.stopped = true → c'.stopped = true) (hframes : c'.frames <+: c.encoded) : Base encode c' := by
  have hdata : ∀ s, c'.dataOf s = c.dataOf s := fun s => by
    unfold dataOf
    rw [hrequests]
  have hcloses : ∀ s, c'.closesAfterWrite s = c.closesAfterWrite s := fun s => by
    unfold closesAfterWrite
    rw [hrequests]
  refine ⟨?_, ?_, ?_, ?_, ?_, ?_, ?_, ?_, ?_⟩
  · simp only [hcodec, hfirst, hencoded, hdata]
    exact h.codec
  · rw [hfirst, haccepted]
    exact h.undetected
  · simp only [hfirst, hencoded, hdata]
    exact h.encodings
  · rw [haccepted, hrequests]
    exact h.known
  · rw [haccepted]
    exact h.sorted
  · simp only [haccepted, hcloses]
    exact h.last
  · simp only [hcloses]
    exact fun s hc => hstopped (h.stops s hc)
  · rw [hencoded, haccepted]
    exact h.begun
  · rw [hencoded]
    exact hframes

theorem Base.congr (h : Base encode c) (hsame : Same c c') (hframes : c'.frames <+: c.encoded) : Base encode c' :=
  h.of_fields hsame.requests hsame.codec hsame.first hsame.accepted hsame.encoded hsame.stopped hframes

/-! ## Settling and closing -/

theorem Base.finishPendingClose (h : Base encode c) (hd : Due c) : Base encode c.finishPendingClose := by
  refine h.congr (same_finishPendingClose c) ?_
  unfold ServerConnection.finishPendingClose
  split
  · exact h.written
  · rename_i send frame hf
    split
    · exact h.written
    · rename_i hopen
      rw [Bool.or_eq_true, not_or, Bool.not_eq_true] at hopen
      show (c.effects ++ [TransportEffect.finish send frame]).filterMap TransportEffect.frame <+: c.encoded
      rw [filterMap_append]
      show c.frames ++ [(send, frame)] <+: c.encoded
      exact ⟨[], (append_nil _).trans (hd hopen.1 _ hf)⟩

theorem Base.settlePendingSend (h : Base encode c) (hd : Due c) : Base encode (c.settlePendingSend send outcome) := by
  unfold ServerConnection.settlePendingSend
  split
  · refine Base.finishPendingClose (h.congr (.quiet id) ?_) (fun hopen f hf => ?_)
    · rw [frames_settle]
      exact h.written
    · rw [frames_settle]
      exact hd hopen f hf
  · exact h

theorem closed_settlePendingSend (h : c.closed = true) : (c.settlePendingSend send outcome).closed = true := by
  unfold settlePendingSend
  split
  · unfold finishPendingClose
    split
    · exact h
    · split
      · exact h
      · rfl
  · exact h

theorem Base.foldl_settle (outcome : TransportSendCompletion) (sends : List Nat) (h : Base encode c)
    (hc : c.closed = true) : Base encode (sends.foldl (fun c send => c.settlePendingSend send outcome) c) ∧
      (sends.foldl (fun c send => c.settlePendingSend send outcome) c).closed = true :=
  foldlRecOn (motive := fun c => Base encode c ∧ c.closed = true) sends _ ⟨h, hc⟩ (fun _ hs _ _ =>
    ⟨hs.1.settlePendingSend (fun hopen => absurd (hs.2.symm.trans hopen) Bool.noConfusion), closed_settlePendingSend hs.2⟩)

theorem Base.onClose (h : Base encode c) : Base encode c.onClose ∧ c.onClose.closed = true := by
  have hclosed : Base encode { c with closed := true, closing := true, pendingSends := [] } :=
    h.congr (.quiet (fun _ => rfl)) h.written
  exact Base.foldl_settle .closed _ hclosed rfl

theorem Base.close (h : Base encode c) : Base encode c.close ∧ c.close.closed = true := by
  unfold ServerConnection.close
  split
  · rename_i hc
    exact ⟨h, hc⟩
  · exact h.onClose

theorem open_settlePendingSend (h : (c.settlePendingSend send outcome).closed = false) :
    c.closed = false ∧ (c.settlePendingSend send outcome).pendingSends = c.pendingSends ∧
      (c.settlePendingSend send outcome).pendingCloseFrame = c.pendingCloseFrame ∧
      (c.settlePendingSend send outcome).frames = c.frames := by
  unfold settlePendingSend at h ⊢
  split
  · rename_i hs
    rw [if_pos hs] at h
    unfold finishPendingClose at h ⊢
    split
    · rename_i hf
      rw [hf] at h
      exact ⟨h, rfl, rfl, frames_settle c⟩
    · rename_i send frame hf
      rw [hf] at h
      simp only at h
      split
      · rename_i hc
        rw [if_pos hc] at h
        exact ⟨h, rfl, rfl, frames_settle c⟩
      · rename_i hc
        rw [if_neg hc] at h
        cases h
  · rename_i hs
    rw [if_neg hs] at h
    exact ⟨h, rfl, rfl, rfl⟩

theorem opened_settlePendingSend (h : c.closed = false → Opened c) (hc : (c.settlePendingSend send outcome).closed = false) :
    Opened (c.settlePendingSend send outcome) := by
  obtain ⟨hopen, hpending, hframe, hframes⟩ := open_settlePendingSend hc
  have hsame := same_settlePendingSend c send outcome
  have ho := h hopen
  refine ⟨?_, ?_, ?_, fun s hs => ?_, ?_⟩
  · rw [hsame.encoded, hsame.accepted, hpending]
    exact ho.queue
  · unfold due
    rw [hsame.encoded, hsame.encoding, hframe, hframes]
    exact ho.due
  · rw [hsame.abandoned]
    exact ho.live
  · rw [completionSends_settlePendingSend] at hs
    rw [hsame.accepted]
    exact ho.waiting s (mem_of_mem_erase hs)
  · unfold closesAfterWrite
    rw [hsame.encoding, hsame.requests, hframe]
    exact ho.closeFrame

/-! ## Encoding -/

theorem finishPendingClose_of_open (h : c.finishPendingClose.closed = false) : c.finishPendingClose = c := by
  unfold finishPendingClose at h ⊢
  split
  · rfl
  · rename_i send frame hf
    rw [hf] at h
    simp only at h
    split
    · rfl
    · rename_i hc
      rw [if_neg hc] at h
      cases h

variable {e : Encoding}

theorem Opened.encoding_due (h : Opened c) (he : c.encoding = some e) (hanswered : e.answered = false) :
    c.pendingCloseFrame = none ∧ c.frames ++ [(e.send, e.frame)] = c.encoded := by
  have hnone : c.pendingCloseFrame = none := by
    cases hf : c.pendingCloseFrame with
    | none => rfl
    | some f =>
      have := (h.closeFrame f hf).2 e he
      rw [hanswered] at this
      cases this
  have hdue := h.due
  unfold ServerConnection.due at hdue
  rw [hnone, he] at hdue
  simp only [hanswered, Bool.false_eq_true, if_false] at hdue
  exact ⟨hnone, hdue⟩

theorem Base.fail (h : Base encode c) (ho : c.closed = false → Opened c) (e : Encoding) :
    Base encode (c.fail e) ∧ (c.fail e).closed = true :=
  (h.settlePendingSend (due_of_opened ho)).close

/-- What `write` leaves once its continuation has answered. -/
structure Written (encode : κ → List UInt8 → List UInt8 × κ) (c c' : ServerConnection κ) : Prop where
  base : Base encode c'
  opened : c'.closed = false → ∀ encoding : Option Encoding, (∀ e, encoding = some e → e.answered = true) →
    Opened { c' with encoding := encoding } ∧ c'.pendingSends = c.pendingSends

theorem written_of_closed (h : Base encode c' ∧ c'.closed = true) : Written encode c c' :=
  ⟨h.1, fun hopen => absurd (h.2.symm.trans hopen) Bool.noConfusion⟩

theorem written_writeFrame (h : Base encode c) (ho : c.closed = false → Opened c)
    (he : c.encoding = some e) (hanswered : e.answered = false) (result : WriteResult) :
    Written encode c (c.writeFrame e result) := by
  unfold writeFrame
  split
  · rename_i hclosed
    exact written_of_closed ⟨h.settlePendingSend (due_of_opened ho), closed_settlePendingSend hclosed⟩
  · rename_i hopen
    rw [Bool.not_eq_true] at hopen
    have hopened := ho hopen
    obtain ⟨hnone, hdue⟩ := hopened.encoding_due he hanswered
    split
    · rename_i hmem
      rw [hopened.live] at hmem
      cases hmem
    · split
      · rename_i hcloses
        have hbase : Base encode { c with pendingCloseFrame := some (e.send, e.frame) } := h.congr (.quiet id) h.written
        refine ⟨hbase.finishPendingClose (fun _ f hf => ?_), fun hstill encoding henc => ?_⟩
        · rw [← Option.some.inj hf]
          exact hdue
        · rw [finishPendingClose_of_open hstill]
          refine ⟨⟨hopened.queue, hdue, hopened.live, hopened.waiting, fun f hf => ?_⟩, rfl⟩
          rw [← Option.some.inj hf]
          exact ⟨hcloses, henc⟩
      · have hframes : (c.effects ++ [TransportEffect.write e.send e.frame]).filterMap TransportEffect.frame = c.encoded := by
          rw [filterMap_append]
          exact hdue
        have hbase : Base encode { c with
            submitted := c.submitted ++ [e.send]
            effects := c.effects ++ [TransportEffect.write e.send e.frame] } := by
          refine h.of_fields rfl rfl rfl rfl rfl id ?_
          show (c.effects ++ [TransportEffect.write e.send e.frame]).filterMap TransportEffect.frame <+: c.encoded
          exact ⟨[], (append_nil _).trans hframes⟩
        cases result with
        | queues =>
          refine ⟨hbase.of_fields rfl rfl rfl rfl rfl id hbase.written, fun _ encoding henc => ⟨⟨hopened.queue, ?_,
            hopened.live, hopened.waiting, fun f hf => ?_⟩, rfl⟩⟩
          · unfold due
            simp only [hnone]
            cases encoding with
            | none => exact (append_nil _).trans hframes
            | some e' =>
              simp only [henc e' rfl, if_true]
              exact (append_nil _).trans hframes
          · exact absurd (hnone.symm.trans hf) nofun
        | throws =>
          refine written_of_closed (hbase.settlePendingSend (fun _ f hf => ?_)).close
          exact absurd (hnone.symm.trans hf) nofun

structure Draining (encode : κ → List UInt8 → List UInt8 × κ) (c : ServerConnection κ) (queue : List Nat) : Prop where
  base : Base encode c
  opened : c.closed = false → Opened c ∧ c.pendingSends = queue

structure Ordered (encode : κ → List UInt8 → List UInt8 × κ) (c : ServerConnection κ) : Prop where
  base : Base encode c
  opened : c.closed = false → Opened c
  idle : c.closed = false → c.encoding = none → c.pendingSends = []

theorem draining_startEncoding {queue : List Nat} (h : Draining encode c (send :: queue)) (hopen : c.closed = false)
    (hidle : c.encoding = none) (hcodec : c.codec = some codec) :
    Draining encode (c.startEncoding encode codec send queue).1 queue := by
  obtain ⟨hopened, hpending⟩ := h.opened hopen
  have hnone : c.pendingCloseFrame = none := by
    cases hf : c.pendingCloseFrame with
    | none => rfl
    | some f =>
      have := hopened.queue_nil h.base hf
      rw [hpending] at this
      cases this
  have hframes : c.frames = c.encoded := by
    have := hopened.due
    unfold ServerConnection.due at this
    rwa [hnone, hidle, append_nil] at this
  have hqueue : (c.encoded ++ [(send, (encode codec (c.dataOf send)).1)]).map Prod.fst ++ queue = c.accepted := by
    rw [map_append, append_assoc, ← hopened.queue, hpending]
    rfl
  obtain ⟨first, hfirst, hafter⟩ := Option.map_eq_some_iff.1 (h.base.codec.symm.trans hcodec)
  refine ⟨⟨?_, h.base.undetected, fun codec' hfirst' => ?_, h.base.known, h.base.sorted, h.base.last, h.base.stops, ?_, ?_⟩,
    fun _ => ⟨⟨hqueue, ?_, hopened.live, hopened.waiting, fun f hf => absurd (hnone.symm.trans hf) nofun⟩, rfl⟩⟩
  · show some (encode codec (c.dataOf send)).2 =
      c.first.map (fun codec' => codecAfter encode codec'
        ((c.encoded ++ [(send, (encode codec (c.dataOf send)).1)]).map (fun f => c.dataOf f.1)))
    rw [hfirst, Option.map_some, map_append, codecAfter, foldl_append]
    exact congrArg (fun k => some (encode k (c.dataOf send)).2) hafter.symm
  · show (c.encoded ++ [(send, (encode codec (c.dataOf send)).1)]).map Prod.snd =
      stream encode codec' ((c.encoded ++ [(send, (encode codec (c.dataOf send)).1)]).map (fun f => c.dataOf f.1))
    have hsame : codec' = first := Option.some.inj (hfirst'.symm.trans hfirst)
    rw [map_append, map_append, stream_append, ← h.base.encodings codec' hfirst', hsame, hafter]
    rfl
  · exact ⟨queue, hqueue⟩
  · exact h.base.written.trans (prefix_append _ _)
  · show c.frames ++ due (c.startEncoding encode codec send queue).1 = c.encoded ++ [(send, (encode codec (c.dataOf send)).1)]
    unfold due startEncoding
    simp only [hnone, hframes]
    rfl

theorem ordered_drain : ∀ (queue : List Nat) (results : List EncodeResult) {c : ServerConnection κ},
    Draining encode c queue → Ordered encode (drain encode queue results c)
  | [],            _,       _, h => ⟨h.base, fun hopen => (h.opened hopen).1, fun hopen _ => (h.opened hopen).2⟩
  | send :: queue, results, c, h => by
    rw [ServerConnection.drain]
    split
    · rename_i hstop
      refine ⟨h.base, fun hopen => (h.opened hopen).1, fun hopen hidle => ?_⟩
      rw [hidle, hopen] at hstop
      cases hstop
    · rename_i hgo
      rw [Bool.or_eq_true, not_or, Bool.not_eq_true, Option.isSome_eq_false_iff, Option.isNone_iff_eq_none,
        Bool.not_eq_true] at hgo
      obtain ⟨hidle, hopen⟩ := hgo
      obtain ⟨hopened, hpending⟩ := h.opened hopen
      split
      · rename_i hmem
        rw [hopened.live] at hmem
        cases hmem
      · split
        · rename_i hcodec
          -- without a codec nothing was accepted
          have hfirst : c.first = none := Option.map_eq_none_iff.1 (h.base.codec.symm.trans hcodec)
          have haccepted := h.base.undetected hfirst
          rw [← hopened.queue, hpending] at haccepted
          exact absurd haccepted (append_ne_nil_of_right_ne_nil _ (cons_ne_nil _ _))
        · rename_i codec hcodec
          have hstarted := draining_startEncoding h hopen hidle hcodec
          have ho := fun hopen => (hstarted.opened hopen).1
          simp only
          split
          · exact ⟨hstarted.base, ho, fun _ hnone => absurd hnone (Option.some_ne_none _)⟩
          · rename_i result _
            have hwritten := written_writeFrame hstarted.base ho rfl rfl result
            refine ordered_drain queue _ ⟨hwritten.base.of_fields rfl rfl rfl rfl rfl id hwritten.base.written,
              fun hstill => ?_⟩
            obtain ⟨hopened', hsame⟩ := hwritten.opened hstill none (fun _ he => absurd he.symm (Option.some_ne_none _))
            exact ⟨hopened', hsame⟩
          · have hfailed := hstarted.base.fail ho { send := send, frame := (encode codec (c.dataOf send)).1, answered := false }
            exact ordered_drain queue _ ⟨hfailed.1.of_fields rfl rfl rfl rfl rfl id hfailed.1.written,
              fun hstill => absurd (hfailed.2.symm.trans hstill) Bool.noConfusion⟩

/-! ## Calls and events -/

structure Appends (c c' : ServerConnection κ) (r : SendRequest) : Prop where
  requests : c'.requests = c.requests ++ [r]
  codec : c'.codec = c.codec
  first : c'.first = c.first
  encoded : c'.encoded = c.encoded
  frames : c'.frames = c.frames

variable {r : SendRequest} {s : Nat}

theorem Appends.get (h : Appends c c' r) (hs : s < c.requests.length) :
    c'.requests[s]? = c.requests[s]? := by
  rw [h.requests, getElem?_append_left hs]

theorem Appends.dataOf (h : Appends c c' r) (hs : s < c.requests.length) :
    c'.dataOf s = c.dataOf s := by
  unfold ServerConnection.dataOf
  rw [h.get hs]

theorem Appends.closesAfterWrite (h : Appends c c' r) (hs : s < c.requests.length) :
    c'.closesAfterWrite s = c.closesAfterWrite s := by
  unfold ServerConnection.closesAfterWrite
  rw [h.get hs]

theorem Base.data_append (h : Base encode c) (ha : Appends c c' r) :
    c'.encoded.map (fun f => c'.dataOf f.1) = c.encoded.map (fun f => c.dataOf f.1) := by
  rw [ha.encoded]
  refine map_congr_left (fun f hf => ha.dataOf ?_)
  exact h.known f.1 (h.begun.subset (mem_map_of_mem hf))

theorem Base.append (h : Base encode c) (ha : Appends c c' r)
    (hundetected : c'.first = none → c'.accepted = []) (hknown : ∀ s ∈ c'.accepted, s < c'.requests.length)
    (hsorted : c'.accepted.Pairwise (fun earlier later => earlier < later))
    (hlast : ∀ s ∈ c'.accepted, ∀ earlier < s, c'.closesAfterWrite earlier = false)
    (hstops : ∀ s, c'.closesAfterWrite s = true → c'.stopped = true)
    (haccepted : c.accepted <+: c'.accepted) : Base encode c' := by
  refine ⟨?_, hundetected, ?_, hknown, hsorted, hlast, hstops, ?_, ?_⟩
  · rw [ha.codec, ha.first, h.data_append ha]
    exact h.codec
  · rw [ha.first, h.data_append ha, ha.encoded]
    exact h.encodings
  · rw [ha.encoded]
    exact h.begun.trans haccepted
  · rw [ha.encoded, ha.frames]
    exact h.written

theorem Appends.closesAfterWrite_new (h : Appends c c' r) (hc : c'.closesAfterWrite s = true) :
    c.closesAfterWrite s = true ∨ r.closeAfterWrite = true := by
  rcases Nat.lt_trichotomy s c.requests.length with hs | hs | hs
  · rw [h.closesAfterWrite hs] at hc
    exact .inl hc
  · unfold ServerConnection.closesAfterWrite at hc
    rw [h.requests, hs, getElem?_concat_length] at hc
    exact .inr hc
  · unfold ServerConnection.closesAfterWrite at hc
    rw [h.requests, getElem?_eq_none (by rw [length_append, length_singleton]; omega)] at hc
    cases hc

theorem Base.turnedAway (h : Base encode c) (ha : Appends c c' r) (haccepted : c'.accepted = c.accepted)
    (hstops : c.stopped = true ∨ r.closeAfterWrite = true → c'.stopped = true) : Base encode c' := by
  have hlt : ∀ s ∈ c'.accepted, s < c'.requests.length := fun s hs => by
    rw [haccepted] at hs
    rw [ha.requests, length_append]
    exact Nat.lt_add_right _ (h.known s hs)
  refine h.append ha (fun hnone => ?_) hlt ?_ (fun s hs earlier hlt' => ?_) (fun s hc => hstops ?_) ?_
  · rw [haccepted]
    exact h.undetected (ha.first ▸ hnone)
  · rw [haccepted]
    exact h.sorted
  · rw [haccepted] at hs
    have := h.known s hs
    rw [ha.closesAfterWrite (by omega)]
    exact h.last s hs earlier hlt'
  · exact (ha.closesAfterWrite_new hc).imp_left (h.stops s)
  · exact ⟨[], (append_nil _).trans haccepted.symm⟩

theorem frames_reject (c : ServerConnection κ) (r : SendRequest) (outcome : TransportSendCompletion) :
    (c.reject r outcome).frames = c.frames := by
  unfold reject
  cases r.awaited with
  | false => rfl
  | true => exact (filterMap_append).trans (append_nil _)

theorem appends_reject (c : ServerConnection κ) (r : SendRequest) (outcome : TransportSendCompletion) :
    Appends c (c.reject r outcome) r :=
  ⟨rfl, rfl, rfl, rfl, frames_reject c r outcome⟩

theorem Base.reject (h : Base encode c) (r : SendRequest) (outcome : TransportSendCompletion)
    (hstops : r.closeAfterWrite = true → c.stopped = true) : Base encode (c.reject r outcome) :=
  h.turnedAway (appends_reject c r outcome) rfl (fun hs => hs.elim id hstops)

theorem Opened.reject (h : Opened c) (hb : Base encode c) (r : SendRequest) (outcome : TransportSendCompletion) :
    Opened (c.reject r outcome) := by
  refine ⟨h.queue, ?_, h.live, h.waiting, fun f hf => ?_⟩
  · rw [frames_reject]
    exact h.due
  · obtain ⟨hcloses, hanswered⟩ := h.closeFrame f hf
    refine ⟨?_, hanswered⟩
    have hmem : f ∈ c.encoded := h.closing_due hf ▸ mem_append_right _ mem_cons_self
    rw [(appends_reject c r outcome).closesAfterWrite (hb.known _ (hb.begun.subset (mem_map_of_mem hmem)))]
    exact hcloses

theorem Base.accept (h : Base encode c) (hgo : c.stopped = false) (hcodec : c.codec = some codec)
    (r : SendRequest) : Base encode (c.accept r) := by
  have ha : Appends c (c.accept r) r := ⟨rfl, rfl, rfl, rfl, rfl⟩
  have hold : ∀ s < c.requests.length, (c.accept r).closesAfterWrite s = false := fun s hs => by
    rw [ha.closesAfterWrite hs, ← Bool.not_eq_true]
    exact fun hc => absurd (hgo.symm.trans (h.stops s hc)) Bool.noConfusion
  have hlt : ∀ s ∈ c.accepted ++ [c.requests.length], s < c.requests.length + 1 := fun s hs => by
    rcases mem_append.1 hs with hs | hs
    · exact Nat.lt_succ_of_lt (h.known s hs)
    · rw [mem_singleton.1 hs]
      exact Nat.lt_succ_self _
  refine h.append ha (fun hnone => ?_) (fun s hs => ?_) ?_ (fun s hs earlier hlt' => hold earlier ?_) (fun s hc => ?_)
    (prefix_append _ _)
  · have hnone' : c.first = none := hnone
    have := h.codec
    rw [hcodec, hnone'] at this
    cases this
  · rw [ha.requests, length_append]
    exact hlt s hs
  · exact pairwise_append.2 ⟨h.sorted, pairwise_singleton _ _,
      fun s hs new hnew => mem_singleton.1 hnew ▸ h.known s hs⟩
  · have := hlt s hs
    omega
  · rcases ha.closesAfterWrite_new hc with hc | hc
    · exact absurd (hgo.symm.trans (h.stops s hc)) Bool.noConfusion
    · show (c.closed || (c.closing || r.closeAfterWrite)) = true
      rw [hc, Bool.or_true, Bool.or_true]

theorem Opened.no_closeFrame (h : Opened c) (hb : Base encode c) (hgo : c.stopped = false) :
    c.pendingCloseFrame = none := by
  cases hf : c.pendingCloseFrame with
  | none => rfl
  | some f =>
    exact absurd (hgo.symm.trans (hb.stops f.1 (h.closeFrame f hf).1)) Bool.noConfusion

theorem Opened.accept (h : Opened c) (hb : Base encode c) (hgo : c.stopped = false) (r : SendRequest) :
    Opened (c.accept r) := by
  have hnone := h.no_closeFrame hb hgo
  refine ⟨?_, h.due, h.live, fun s hs => ?_, fun f hf => ?_⟩
  · show c.encoded.map Prod.fst ++ (c.pendingSends ++ [c.requests.length]) = c.accepted ++ [c.requests.length]
    rw [← append_assoc, h.queue]
  · show s ∈ c.accepted ++ [c.requests.length]
    change s ∈ (if r.awaited = true then c.completionSends ++ [c.requests.length] else c.completionSends) at hs
    split at hs
    · rcases mem_append.1 hs with hs | hs
      · exact mem_append_left _ (h.waiting s hs)
      · exact mem_append_right _ hs
    · exact mem_append_left _ (h.waiting s hs)
  · exact absurd (hnone.symm.trans hf) nofun

theorem Ordered.of_closed (h : Base encode c ∧ c.closed = true) : Ordered encode c where
  base := h.1
  opened hopen := absurd (h.2.symm.trans hopen) Bool.noConfusion
  idle hopen := absurd (h.2.symm.trans hopen) Bool.noConfusion

theorem Ordered.reject (h : Ordered encode c) (r : SendRequest) (outcome : TransportSendCompletion)
    (hstops : r.closeAfterWrite = true → c.stopped = true) : Ordered encode (c.reject r outcome) :=
  ⟨h.base.reject r outcome hstops, fun hopen => (h.opened hopen).reject h.base r outcome, h.idle⟩

theorem Ordered.sent (h : Ordered encode c) (r : SendRequest) (results : List EncodeResult) :
    Ordered encode (c.send encode r results) := by
  unfold ServerConnection.send
  split
  · rename_i hstopped
    exact h.reject r .closed (fun _ => hstopped)
  · rename_i hgo
    rw [Bool.not_eq_true] at hgo
    split
    · split
      · -- the connection closes with the call
        have hopen : (c.reject r .abandoned).closed = false := (Bool.or_eq_false_iff.1 hgo).1
        unfold close
        rw [if_neg (Bool.not_eq_true _ ▸ hopen)]
        have ha := appends_reject c r .abandoned
        have hclosed : Base encode { c.reject r .abandoned with closed := true, closing := true, pendingSends := [] } :=
          h.base.turnedAway ⟨ha.requests, ha.codec, ha.first, ha.encoded, ha.frames⟩ rfl (fun _ => rfl)
        exact .of_closed (Base.foldl_settle .closed _ hclosed rfl)
      · rename_i hcloses
        exact h.reject r .abandoned (fun hc => absurd hc hcloses)
    · rename_i codec hcodec
      refine ordered_drain _ results ⟨h.base.accept hgo hcodec r, fun hopen => ⟨?_, rfl⟩⟩
      exact (h.opened hopen).accept h.base hgo r

theorem Ordered.timeOut (h : Ordered encode c) (hs : send ∈ c.completionSends) : Ordered encode (c.timeOut send) := by
  have hbase : Base encode { c with abandoned := c.abandoned ++ [send] } := h.base.of_fields rfl rfl rfl rfl rfl id h.base.written
  have hdue : Due { c with abandoned := c.abandoned ++ [send] } := fun hopen f hf => (h.opened hopen).closing_due hf
  have hsame := same_settlePendingSend { c with abandoned := c.abandoned ++ [send] } send .timeout
  unfold ServerConnection.timeOut
  simp only
  split
  · exact .of_closed (hbase.settlePendingSend hdue).close
  · rename_i hidle
    rw [hsame.encoded, hsame.encoding, not_or] at hidle
    refine .of_closed ⟨hbase.settlePendingSend hdue, ?_⟩
    rw [← Bool.not_eq_false]
    intro hopen
    have hopened := h.opened (open_settlePendingSend hopen).1
    have hnone : c.encoding = none := Option.not_isSome_iff_eq_none.1 hidle.2
    have haccepted := hopened.waiting send hs
    rw [← hopened.queue, h.idle (open_settlePendingSend hopen).1 hnone, append_nil] at haccepted
    exact hidle.1 haccepted

theorem Ordered.answered (h : Written encode c c') : Ordered encode { c' with encoding := some { e with answered := true } } where
  base := h.base.of_fields rfl rfl rfl rfl rfl id h.base.written
  opened hopen := (h.opened hopen _ (fun _ he => Option.some.inj he ▸ rfl)).1
  idle _ hnone := nomatch hnone

theorem Ordered.settlePendingSend (h : Ordered encode c) : Ordered encode (c.settlePendingSend send outcome) where
  base := h.base.settlePendingSend (due_of_opened h.opened)
  opened := opened_settlePendingSend h.opened
  idle hopen hnone := by
    obtain ⟨hopen', hpending, _⟩ := open_settlePendingSend hopen
    rw [(same_settlePendingSend c send outcome).encoding] at hnone
    rw [hpending]
    exact h.idle hopen' hnone

theorem ordered_step {event : TransportEvent κ} (h : Ordered encode c) (hs : step encode c event = some c') :
    Ordered encode c' := by
  cases event with
  | detect codec =>
    rw [step] at hs
    split at hs
    · cases hs
    · rename_i hcodec
      cases hs
      rw [Bool.not_eq_true, Option.isSome_eq_false_iff, Option.isNone_iff_eq_none] at hcodec
      have hfirst : c.first = none := Option.map_eq_none_iff.1 (h.base.codec.symm.trans hcodec)
      have haccepted := h.base.undetected hfirst
      have hencoded : c.encoded = [] := by
        have := h.base.begun
        rw [haccepted] at this
        exact map_eq_nil_iff.1 (prefix_nil.1 this)
      refine ⟨⟨?_, fun hnone => absurd hnone (Option.some_ne_none _), fun codec' _ => ?_, h.base.known, h.base.sorted, h.base.last,
        h.base.stops, h.base.begun, h.base.written⟩, fun hopen => ?_, h.idle⟩
      · simp only [hencoded]
        rfl
      · simp only [hencoded]
        rfl
      · obtain ⟨hqueue, hdue, hlive, hwaiting, hframe⟩ := h.opened hopen
        exact ⟨hqueue, hdue, hlive, hwaiting, hframe⟩
  | send data results =>
    cases hs
    exact h.sent _ results
  | sendAndWait data results =>
    cases hs
    exact h.sent _ results
  | sendAndClose data results =>
    cases hs
    exact h.sent _ results
  | encodeResolves result =>
    rw [step] at hs
    split at hs
    · rename_i e he
      split at hs
      · cases hs
      · rename_i hanswered
        cases hs
        rw [Bool.not_eq_true] at hanswered
        exact .answered (written_writeFrame h.base h.opened he hanswered result)
    · cases hs
  | encodeRejects =>
    rw [step] at hs
    split at hs
    · rename_i e _
      split at hs
      · cases hs
      · cases hs
        exact .answered (c := c) (written_of_closed (h.base.fail h.opened e))
    · cases hs
  | encodeCompletes results =>
    rw [step] at hs
    split at hs
    · rename_i e he
      split at hs
      · rename_i hanswered
        cases hs
        refine ordered_drain _ results ⟨h.base.of_fields rfl rfl rfl rfl rfl id h.base.written, fun hopen => ⟨?_, rfl⟩⟩
        obtain ⟨hqueue, hdue, hlive, hwaiting, hframe⟩ := h.opened hopen
        refine ⟨hqueue, ?_, hlive, hwaiting, fun f hf => ⟨(hframe f hf).1, fun _ he => absurd he.symm (Option.some_ne_none _)⟩⟩
        unfold ServerConnection.due at hdue ⊢
        rw [he] at hdue
        simp only [hanswered, if_true] at hdue
        exact hdue
      · cases hs
    · cases hs
  | writeCallback send failed =>
    rw [step] at hs
    split at hs
    · cases hs
      have hrest : Ordered encode { c with callbacks := c.callbacks.erase send } := by
        refine ⟨h.base.of_fields rfl rfl rfl rfl rfl id h.base.written, fun hopen => ?_, h.idle⟩
        obtain ⟨hqueue, hdue, hlive, hwaiting, hframe⟩ := h.opened hopen
        exact ⟨hqueue, hdue, hlive, hwaiting, hframe⟩
      exact hrest.settlePendingSend
    · cases hs
  | timeout send =>
    rw [step] at hs
    split at hs
    · rename_i hmem
      cases hs
      exact h.timeOut hmem
    · cases hs
  | close =>
    cases hs
    exact .of_closed h.base.close
  | socketClosed =>
    cases hs
    exact .of_closed h.base.onClose

theorem ordered_empty : Ordered encode (empty : ServerConnection κ) where
  base := ⟨rfl, fun _ => rfl, fun _ _ => rfl, nofun, .nil, nofun, fun _ hc => (nomatch hc), prefix_rfl, prefix_rfl⟩
  opened _ := ⟨rfl, rfl, rfl, nofun, nofun⟩
  idle _ _ := rfl

/-! ## Every run -/

structure Kept (c c' : ServerConnection κ) : Prop where
  accepted : c'.accepted = c.accepted
  stopped : c.stopped = true → c'.stopped = true

theorem Kept.trans {c'' : ServerConnection κ} (h : Kept c c') (h' : Kept c' c'') : Kept c c'' :=
  ⟨h'.accepted.trans h.accepted, fun hs => h'.stopped (h.stopped hs)⟩

theorem Same.kept (h : Same c c') : Kept c c' := ⟨h.accepted, h.stopped⟩

theorem kept_writeFrame (c : ServerConnection κ) (e : Encoding) (result : WriteResult) : Kept c (c.writeFrame e result) := by
  unfold writeFrame
  split
  · exact (same_settlePendingSend _ _ _).kept
  · split
    · exact ⟨rfl, id⟩
    · split
      · exact ((Same.quiet id).trans (same_finishPendingClose _)).kept
      · cases result with
        | queues => exact ⟨rfl, id⟩
        | throws =>
          have hsame := (same_settlePendingSend { c with
            submitted := c.submitted ++ [e.send]
            effects := c.effects ++ [TransportEffect.write e.send e.frame] } e.send .writeFailed).trans (same_close _)
          exact ⟨hsame.accepted, hsame.stopped⟩

theorem kept_drain : ∀ (queue : List Nat) (results : List EncodeResult) (c : ServerConnection κ),
    Kept c (drain encode queue results c)
  | [],            _,       _ => ⟨rfl, id⟩
  | send :: queue, results, c => by
    rw [ServerConnection.drain]
    split
    · exact ⟨rfl, id⟩
    · split
      · have hrest : Kept { c with pendingSends := queue } (drain encode queue results { c with pendingSends := queue }) :=
          kept_drain queue results _
        exact ⟨hrest.accepted, hrest.stopped⟩
      · split
        · exact ⟨rfl, id⟩
        · rename_i codec _
          have hstarted : Kept c (c.startEncoding encode codec send queue).1 := ⟨rfl, id⟩
          simp only
          split
          · exact hstarted
          · rename_i result _
            have hwritten := hstarted.trans (kept_writeFrame _ (c.startEncoding encode codec send queue).2 result)
            have hidle : Kept c { (c.startEncoding encode codec send queue).1.writeFrame
              (c.startEncoding encode codec send queue).2 result with encoding := none } := ⟨hwritten.accepted, hwritten.stopped⟩
            exact hidle.trans (kept_drain queue _ _)
          · have hfailed := hstarted.trans ((same_settlePendingSend _ (c.startEncoding encode codec send queue).2.send
              .encodeFailed).trans (same_close _)).kept
            have hidle : Kept c { (c.startEncoding encode codec send queue).1.fail
              (c.startEncoding encode codec send queue).2 with encoding := none } := ⟨hfailed.accepted, hfailed.stopped⟩
            exact hidle.trans (kept_drain queue _ _)

theorem kept_sent (h : c.stopped = true) (r : SendRequest) (results : List EncodeResult) :
    Kept c (c.send encode r results) := by
  have hturned : c.send encode r results = c.reject r .closed := if_pos h
  rw [hturned]
  exact ⟨rfl, id⟩

theorem kept_step {event : TransportEvent κ} (h : c.stopped = true) (hs : step encode c event = some c') : Kept c c' := by
  cases event with
  | detect codec =>
    rw [step] at hs
    split at hs
    · cases hs
    · cases hs
      exact ⟨rfl, id⟩
  | send data results =>
    cases hs
    exact kept_sent h _ results
  | sendAndWait data results =>
    cases hs
    exact kept_sent h _ results
  | sendAndClose data results =>
    cases hs
    exact kept_sent h _ results
  | encodeResolves result =>
    rw [step] at hs
    split at hs
    · split at hs
      · cases hs
      · rename_i e _ _
        cases hs
        exact ⟨(kept_writeFrame c e result).accepted, (kept_writeFrame c e result).stopped⟩
    · cases hs
  | encodeRejects =>
    rw [step] at hs
    split at hs
    · split at hs
      · cases hs
      · rename_i e _ _
        cases hs
        have hsame := (same_settlePendingSend c e.send .encodeFailed).trans (same_close _)
        exact ⟨hsame.accepted, hsame.stopped⟩
    · cases hs
  | encodeCompletes results =>
    rw [step] at hs
    split at hs
    · split at hs
      · cases hs
        have hdrained : Kept { c with encoding := none } (drainSendQueue { c with encoding := none } encode results) :=
          kept_drain _ results _
        exact ⟨hdrained.accepted, hdrained.stopped⟩
      · cases hs
    · cases hs
  | writeCallback send failed =>
    rw [step] at hs
    split at hs
    · cases hs
      have hsame := same_settlePendingSend { c with callbacks := c.callbacks.erase send } send
        (if failed = true then .writeFailed else .written)
      exact ⟨hsame.accepted, hsame.stopped⟩
    · cases hs
  | timeout send =>
    rw [step] at hs
    split at hs
    · cases hs
      have hsame := same_settlePendingSend { c with abandoned := c.abandoned ++ [send] } send .timeout
      unfold ServerConnection.timeOut
      simp only
      split
      · exact ⟨(hsame.trans (same_close _)).accepted, (hsame.trans (same_close _)).stopped⟩
      · exact ⟨hsame.accepted, hsame.stopped⟩
    · cases hs
  | close =>
    cases hs
    exact (same_close c).kept
  | socketClosed =>
    cases hs
    exact (same_onClose c).kept

def kept (c : ServerConnection κ) : List Nat :=
  c.accepted.filter (fun send => send ∉ c.abandoned ∨ send ∈ c.encoded.map Prod.fst)

theorem encoded_prefix_kept (h : Base encode c) : c.encoded.map Prod.fst <+: c.kept := by
  have hall : (c.encoded.map Prod.fst).filter (fun send => send ∉ c.abandoned ∨ send ∈ c.encoded.map Prod.fst) =
      c.encoded.map Prod.fst := filter_eq_self.2 (fun _ hs => decide_eq_true (.inr hs))
  rw [← hall]
  exact h.begun.filter _

theorem frames_prefix_stream (h : Base encode c) (hfirst : c.first = some codec) :
    c.frames.map Prod.snd <+: stream encode codec (c.kept.map c.dataOf) := by
  have hstream : c.encoded.map Prod.snd = stream encode codec ((c.encoded.map Prod.fst).map c.dataOf) := by
    rw [map_map]
    exact h.encodings codec hfirst
  refine (h.written.map Prod.snd).trans ?_
  rw [hstream]
  exact stream_prefix encode ((encoded_prefix_kept h).map c.dataOf)

def numberFrames (n : Nat) (data : List UInt8) : List UInt8 × Nat := (UInt8.ofNat n :: data, n + 1)

def awaitedThenClosed : List (TransportEvent Nat) :=
  [.detect 0, .sendAndWait [7] [.promises], .sendAndClose [8] [], .encodeResolves .queues, .encodeCompletes [],
    .writeCallback 0 false]

end ServerConnection

end Crossgram
