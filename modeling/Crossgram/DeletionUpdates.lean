import Crossgram.MessageDeletions
import Crossgram.UpdateChannel
/-!
# DeletionUpdates — which deletions reach every device

A row that a payload had brought and that becomes deleted is accounted for (`Reaches`) while its delete event is being
published or the request that deleted it is under way, once a written payload names its ids, and once pts of its channel
were taken for it: no delivery ever covers those (`Unused`), so no page leads past them.  In a direct chat nothing checks
for gaps, and a request's deletion there reaches nobody.
-/
namespace Crossgram

open Function List Programs Ledger Intervals

/-! ## The store's deletions -/

theorem stays_rule : StoreRule (fun t _ t' => Placed (placings t.parts) → Placed (placings t'.parts) ∧
    ∀ m ∈ t.messages.rows, ∃ m' ∈ t'.messages.rows, m'.id = m.id ∧ m'.deleted = m.deleted) where
  refl := fun hplaced => ⟨hplaced, fun m hm => ⟨m, hm, rfl, rfl⟩⟩
  trans := fun h h' hplaced => by
    obtain ⟨hplaced₁, hstays⟩ := h hplaced
    obtain ⟨hplaced₂, hstays'⟩ := h' hplaced₁
    refine ⟨hplaced₂, fun m hm => ?_⟩
    obtain ⟨m₁, hm₁, hid₁, hdel₁⟩ := hstays m hm
    obtain ⟨m₂, hm₂, hid₂, hdel₂⟩ := hstays' m₁ hm₁
    exact ⟨m₂, hm₂, hid₂.trans hid₁, hdel₂.trans hdel₁⟩
  settled := fun h hplaced => by
    refine ⟨(Ingesting.settle_rule passes_rule h hplaced).placed hplaced, fun m hm => ?_⟩
    obtain ⟨m', hm', hid, -, hdel⟩ := (Ingesting.settle_rewrites hplaced h).stays m hm
    exact ⟨m', hm', hid, hdel⟩

theorem mem_newlyDeleted {t t' : MessageTables} {id : Nat} (h : id ∈ newlyDeleted t t') :
    ∃ m ∈ t.messages.rows, m.id = id ∧ m.deleted = false ∧ ∃ m' ∈ t'.messages.rows, m'.id = m.id ∧ m'.deleted = true := by
  obtain ⟨m, hm, rfl⟩ := mem_map.1 h
  simp only [mem_filter, decide_eq_true_eq, any_eq_true] at hm
  obtain ⟨hm, hlive, m', hm', hid, hdel⟩ := hm
  exact ⟨m, hm, rfl, hlive, m', hm', hid, hdel⟩

theorem newlyDeleted_of_stays {t t' : MessageTables}
    (h : ∀ m ∈ t.messages.rows, ∃ m' ∈ t'.messages.rows, m'.id = m.id ∧ m'.deleted = m.deleted) :
    newlyDeleted t t' = [] := by
  rw [eq_nil_iff_forall_not_mem]
  intro id hid
  obtain ⟨m, hm, -, hlive, m', hm', hid', hdel⟩ := mem_newlyDeleted hid
  obtain ⟨m'', hm'', hid'', hdel''⟩ := h m hm
  have : m'' = m' := Table.eq_of_id hm'' hm' (hid''.trans hid'.symm)
  rw [this, hdel, hlive] at hdel''
  cases hdel''

variable {conversation : IMConversation} {db : Database} {ids : List String}

theorem mem_rows_deleteMessages {session : PlatformSession} {m' : IMMessageRow}
    (h : m' ∈ (deleteMessages db session conversation ids).tables.messages.rows) :
    ∃ m ∈ db.tables.messages.rows, m' =
      if m.id ∈ deletionTargets db session conversation ids then { m with deleted := true } else m := by
  have htables := upsertConversation_tables db session conversation none
  unfold deleteMessages at h
  unfold deletionTargets
  generalize upsertConversation db session conversation none = r at *
  obtain ⟨m, hm, heq⟩ := mem_map.1 h
  rw [htables] at hm
  refine ⟨m, hm, ?_⟩
  rw [← heq]
  simp only [decide_eq_true_eq]

/-- **A deletion reports every row it deletes**, with all its ids. -/
theorem deleteResult_covers {session : PlatformSession} {id : Nat}
    (h : id ∈ newlyDeleted db.tables (MessageStore.deleteMessages db session conversation ids).1.tables) :
    let result := (MessageStore.deleteMessages db session conversation ids).2
    id ∈ result.messageIds ∧ result.changed = true ∧ ∀ n ∈ tlMessageIdsOf db.tables id, n ∈ result.tlMessageIds := by
  obtain ⟨m, hm, rfl, hlive, m', hm', hid, hdel⟩ := mem_newlyDeleted h
  have htarget : m.id ∈ deletionTargets db session conversation ids := by
    obtain ⟨m₀, hm₀, rfl⟩ := mem_rows_deleteMessages hm'
    by_contra hnot
    have hsame : m₀.id = m.id := by
      split at hid <;> exact hid
    have hrow : m₀ = m := Table.eq_of_id hm₀ hm hsame
    rw [hrow, if_neg hnot, hlive] at hdel
    cases hdel
  have hfound : m ∈ (deletionTargets db session conversation ids).filterMap db.tables.messageById :=
    mem_filterMap.2 ⟨m.id, htarget, Table.first_id_of_mem hm⟩
  have hkept : m ∈ ((deletionTargets db session conversation ids).filterMap db.tables.messageById).filter
      (fun message => message.deleted = false) := mem_filter.2 ⟨hfound, decide_eq_true hlive⟩
  refine ⟨mem_map.2 ⟨m, hkept, rfl⟩, ?_, fun n hn => mem_flatMap.2 ⟨m, hfound, hn⟩⟩
  simp only [MessageStore.deleteMessages, deleteResult, Bool.not_eq_true', isEmpty_eq_false_iff]
  exact ne_nil_of_mem hkept

variable {T D : Type} {S : DeletionSetup T}

theorem brings_nil (channelId : Option Nat) (payload : RawUpdates T) : S.brings channelId [] payload = false := by
  have hnamed : ∀ message, DeletionSetup.brings.named S channelId [] message = false := by
    intro message
    simp [DeletionSetup.brings.named]
  unfold DeletionSetup.brings
  rw [any_eq_false]
  intro u _
  split <;> simp [hnamed]

variable {d : Deletion}

theorem mem_lost {w : DeletionWorld T D} (h : d ∈ w.lost S conversation ids) :
    let result := (MessageStore.deleteMessages w.db S.session conversation ids).2
    d.channelId = S.shownIn conversation ∧ d.messageId ∈ result.messageIds ∧ result.changed = true ∧
      (∀ n ∈ d.tlMessageIds, n ∈ result.tlMessageIds) ∧ (d.published = true → d.tlMessageIds ≠ []) := by
  obtain ⟨id, hid, rfl⟩ := mem_map.1 h
  obtain ⟨hmem, hchanged, hids⟩ := deleteResult_covers hid
  refine ⟨rfl, hmem, hchanged, hids, fun hpub hnil => ?_⟩
  simp only at hpub hnil
  rw [hnil] at hpub
  simp [brings_nil] at hpub

/-! ## Payloads that name a deletion -/

theorem names_mono {channelId : Option Nat} {ids ids' : List Int} {payload : RawUpdates T} (hsub : ∀ n ∈ ids, n ∈ ids')
    (h : payload.names channelId ids' = true) : payload.names channelId ids = true := by
  unfold RawUpdates.names at h ⊢
  obtain ⟨u, hu, hnames⟩ := any_eq_true.1 h
  refine any_eq_true.2 ⟨u, hu, ?_⟩
  split at hnames
  · simp only [all_eq_true] at hnames ⊢
    exact fun n hn => hnames n (hsub n hn)
  · simp only [decide_eq_true_eq, all_eq_true, Bool.decide_and, Bool.and_eq_true] at hnames ⊢
    exact ⟨hnames.1, fun n hn => hnames.2 n (hsub n hn)⟩
  · cases hnames

theorem payload_names (db : Database) (p : DeletePublication T) (delivery : NewUpdateDelivery (RawUpdates T)) (chat : T) :
    (p.payload S db delivery chat).names (S.shownIn p.conversation) p.result.tlMessageIds = true := by
  unfold DeletePublication.payload RawUpdates.names
  cases S.shownIn p.conversation <;> simp

/-! ## Pts no delivery has -/

structure Unused (L : Ledger (RawUpdates T)) (i : String × UpdateScope × (Int × Nat)) : Prop where
  reserved : i ∈ L.reserved
  counts : 0 < i.2.2.2
  created : ∀ e ∈ L.created, intervalOf e.1 ≠ i
  writing : ∀ d, L.writing = some d → intervalOf d.toReservation ≠ i

variable {L L' : Ledger (RawUpdates T)} {i : String × UpdateScope × (Int × Nat)}

/-- **Pts no delivery has stay that way**: what is reserved later lies past them. -/
theorem Unused.moved (h : Unused L i) (hL : L.WellFormed) (hm : Moves L L') : Unused L' i := by
  have hbelow := hL.below i h.reserved
  have hpast : ∀ r : Reservation, L.tables.counter r.platformSessionId r.scope ≤ r.pts - r.ptsCount →
      intervalOf r ≠ i := by
    intro r hr heq
    have hcounts := h.counts
    rw [← heq] at hbelow hcounts
    simp only [intervalOf] at hbelow hcounts
    omega
  refine ⟨hm.2.reserved i h.reserved, h.counts, fun e he => ?_, fun d hd => ?_⟩
  · rcases hm.2.newCreated e he with hold | ⟨-, ⟨d, hd, heq⟩ | hlater⟩
    · exact h.created e hold
    · rw [heq]
      exact h.writing d hd
    · exact hpast e.1 hlater
  · rcases hm.2.newWriting d hd with hold | hlater
    · exact h.writing d hold
    · exact hpast d.toReservation hlater

theorem unused_of_advance (hL : L.WellFormed) {s : String} {n : Nat} {date : Int}
    {c : Option Nat} (hn : n ≠ 0) (hmax : n ≤ maxSafeInteger)
    (h : L.write (.other (.advancePts s n date c)) = some L') :
    Unused L' (s, scopeOf c, (L.tables.counter s (scopeOf c) + n, n)) := by
  have htaken : L.tables.taken (.advancePts s n date c) = some (s, scopeOf c, n) := by
    simp only [UpdateTables.taken]
    rw [if_neg (by omega)]
  simp only [write, UpdateOp.isPrepare, Bool.or_false] at h
  split at h
  · cases h
  · rename_i hfree
    cases h
    have hfree : L.writing = none := by simpa using hfree
    refine ⟨mem_append_right _ ?_, Nat.pos_of_ne_zero hn, fun e he heq => ?_, fun d hd => ?_⟩
    · simp [reservedBy, htaken]
    · have hbelow := hL.below _ (hL.reserved_of_created he)
      rw [heq] at hbelow
      simp only at hbelow
      omega
    · simp only [afterWrite, hfree] at hd
      cases hd

variable {L : Ledger (RawUpdates T)}

theorem apart_of_unused (hL : L.WellFormed)
    (h : Unused L i) {d : UpdateDelivery (RawUpdates T)} (hd : L.Genuine d) (hs : d.platformSessionId = i.1)
    (hc : d.scope = i.2.1) : d.pts ≤ i.2.2.1 - i.2.2.2 ∨ i.2.2.1 ≤ d.pts - d.ptsCount := by
  have hres := hL.reserved_of_created hd.1
  rcases Windows.rel_or_rel_of_mem hL.ordered hres h.reserved (h.created _ hd.1) with hbefore | hbefore
  · exact Or.inl (hbefore hs hc)
  · exact Or.inr (hbefore hs.symm hc.symm)

/-- **No tiling of deliveries leads past pts that no delivery has.** -/
theorem tiles_stay_before (hL : L.WellFormed)
    (h : Unused L i) {returned : List (UpdateDelivery (RawUpdates T))}
    (hscope : ∀ d ∈ returned, d.platformSessionId = i.1 ∧ d.scope = i.2.1) (hgenuine : ∀ d ∈ returned, L.Genuine d)
    {p q : Int} (htiles : Tiles p (counted returned) q) (hp : p < i.2.2.1) : q < i.2.2.1 := by
  by_contra hq
  obtain ⟨tile, htile, hlo, hhi⟩ := htiles.exists_mem i.2.2.1 hp (by omega)
  obtain ⟨d, hd, rfl⟩ := mem_map.1 htile
  have hd := (mem_filter.1 hd).1
  have hcounts := h.counts
  simp only at hlo hhi
  rcases apart_of_unused hL h (hgenuine d hd) (hscope d hd).1 (hscope d hd).2 with hap | hap <;> omega

def ChannelDifference.movesTo : ChannelDifference (RawUpdates T) T D → Option Int
  | .empty _ pts _            => some pts
  | .difference _ _ pts _ _   => some pts
  | _                         => none

/-- A device before `pts` is not led past it.  One that asks after it was taken is reset exactly when the rows it reads do
not follow one another from its own pts, or there are none, or it is too far behind. -/
def KeptBehind (w : UpdateWorld (RawUpdates T) T D) (s : String) (channelId : Nat) (pts : Int) : Prop :=
  ∀ f ∈ w.finished, ∀ request answer, f.request = .channelDifference s request → request.channel = some channelId →
    f.response = .channelDifference answer → request.pts < pts →
    (LeadsOn s channelId request f.history → ∀ q ∈ answer.movesTo, q < pts) ∧
    ∀ latest ∈ f.history.filterMap latestRead, pts ≤ latest → ∀ read ∈ rowsRead (some channelId) f.history,
      ((∃ reset, answer = .tooLong reset) ↔
        gapCursor request.pts read.2.2 = none ∨ read.2.2 = [] ∨ CHANNEL_DIFFERENCE_MAX_PENDING < latest - request.pts)

theorem resetReason_of_behind {p latest : Int} (hbehind : p < latest) (ds : List (UpdateDelivery (RawUpdates T))) :
    _channelResetReason p latest ds ≠ none ↔
      gapCursor p ds = none ∨ ds = [] ∨ CHANNEL_DIFFERENCE_MAX_PENDING < latest - p := by
  unfold _channelResetReason
  rw [if_neg (by omega), if_neg (by omega)]
  by_cases hgap : gapCursor p ds = none
  · simp [hgap]
  · by_cases hnil : ds = []
    · simp [hnil, gapCursor]
    · by_cases hfar : CHANNEL_DIFFERENCE_MAX_PENDING < latest - p <;> simp [hgap, hnil, hfar]

theorem answers_cases {codec : TlCodec (RawUpdates T) T} {request : GetChannelDifferenceRequest}
    {buildTooLong : Nat → Int → Option D} (hbuild : ∀ channelId pts, (buildTooLong channelId pts).isSome)
    {c : ChannelCall (RawUpdates T)} {answer : ChannelDifference (RawUpdates T) T D}
    (h : c.Answers codec request buildTooLong answer) :
    ((∃ reset, answer = .tooLong reset) ↔ _channelResetReason request.pts c.latest c.deliveries ≠ none) ∧
    ∀ q ∈ answer.movesTo, _channelResetReason request.pts c.latest c.deliveries = none ∧
      (q = request.pts ∨ ∃ last, (c.page request).getLast? = some last ∧ q = last.pts) := by
  cases h with
  | tooLong reset hreason => exact ⟨⟨fun _ => hreason, fun _ => ⟨reset, rfl⟩⟩, fun q hq => by cases hq⟩
  | empty timeout hno hempty =>
    have hno := unreset_of_built hbuild hno
    refine ⟨⟨fun ⟨_, hreset⟩ => (by cases hreset), fun hreason => absurd hno hreason⟩, fun q hq => ⟨hno, Or.inl ?_⟩⟩
    obtain rfl : c.latest = q := Option.some.inj hq
    rw [hempty] at hno
    exact unreset_of_empty hno
  | pending timeout hno hlast =>
    have hno := unreset_of_built hbuild hno
    refine ⟨⟨fun ⟨_, hreset⟩ => (by cases hreset), fun hreason => absurd hno hreason⟩, fun q hq => ⟨hno, Or.inl ?_⟩⟩
    exact (Option.some.inj hq).symm
  | difference final timeout last hno hlast =>
    have hno := unreset_of_built hbuild hno
    refine ⟨⟨fun ⟨_, hreset⟩ => (by cases hreset), fun hreason => absurd hno hreason⟩, fun q hq => ⟨hno, Or.inr ?_⟩⟩
    exact ⟨last, hlast, (Option.some.inj hq).symm⟩

/-- **Pts that no delivery has keep every device behind.** -/
theorem keptBehind_of_unused (codec : TlCodec (RawUpdates T) T) (buildTooLong : Nat → Int → Option D)
    (hbuild : ∀ channelId pts, (buildTooLong channelId pts).isSome) {t : UpdateTables (RawUpdates T)}
    (ht : t.deliveries.rows = []) {w : UpdateWorld (RawUpdates T) T D}
    (h : Runs.Reachable (updateSystem codec buildTooLong).step (fun _ _ => True) (System.idle (Ledger.start t)) w)
    {s : String} {channelId n : Nat} {pts : Int} (hgap : Unused w.shared (s, .channel channelId, (pts, n))) :
    KeptBehind w s channelId pts := by
  intro f hf request answer hrequest hchannel hresponse hbehind
  have hstart : Moves (Ledger.start t) (Ledger.start t) := ⟨wellFormed_start t ht, .refl _⟩
  obtain ⟨hstay, hsaw⟩ := saw_of_reachable interference_moves codec buildTooLong hstart
    (fun w o L _ hw ho => write_moves hw.1 ho) h
  have hsaw := hsaw f hf
  rw [hrequest] at hsaw
  obtain ⟨answer', hanswer, ⟨hnone, -⟩ | ⟨c, hc⟩⟩ := hsaw
  · rw [hchannel] at hnone
    cases hnone
  rw [hresponse] at hanswer
  cases hanswer
  have hc' := hc.channel
  rw [hchannel] at hc'
  obtain rfl : channelId = c.channelId := Option.some.inj hc'
  have hread := hc.rows.reads.rowsRead_eq
  obtain ⟨hreset, hmoves⟩ := answers_cases hbuild hc.answers
  refine ⟨fun hleads q hq => ?_, fun latest hl hle read hr => ?_⟩
  · obtain ⟨hno, hstays | ⟨last, hlast, rfl⟩⟩ := hmoves q hq
    · rw [hstays]
      exact hbehind
    · have hpage := hleads c.latest (by rw [hc.latest]; exact mem_singleton_self _) _ (by rw [hread]; rfl)
      have hskip := (leavesNoGap_iff hstay.1 hc.rows.kept.2 hno hlast).2 hpage
      exact tiles_stay_before hstay.1 hgap hskip.inScope (fun d hd => hc.rows.kept.2 d (mem_pageOf hd).1) hskip.tiles
        hbehind
  · rw [hc.latest, mem_singleton] at hl
    rw [hread, Option.mem_some_iff] at hr
    subst hl hr
    rw [hreset]
    exact resetReason_of_behind (by omega) _

/-! ## What accounts for a deletion -/

def Deletion.Announced (d : Deletion) (L : Ledger (RawUpdates T)) : Prop :=
  ∃ x ∈ L.written, x.2.names d.channelId d.tlMessageIds = true

structure DeletePublication.Carries (S : DeletionSetup T) (p : DeletePublication T) (d : Deletion) : Prop where
  channel : S.shownIn p.conversation = d.channelId
  ids : ∀ n ∈ d.tlMessageIds, n ∈ p.result.tlMessageIds
  unmarked : p.stage ≠ .mark
  changed : p.stage = .lookUp → p.result.changed = true

structure DeleteRequest.Carries (S : DeletionSetup T) (r : DeleteRequest) (d : Deletion) : Prop where
  deleted : d.messageId ∈ r.deletedIds
  searched : r.looking = false
  channel : S.reservedChannel r.call = d.channelId
  inChannel : d.channelId.isSome
  ids : ∀ n ∈ d.tlMessageIds, n ∈ r.affected

structure DeletionGap.Covers (g : DeletionGap) (d : Deletion) : Prop where
  channel : g.channelId = d.channelId
  inChannel : d.channelId.isSome
  ids : ∀ n ∈ d.tlMessageIds, n ∈ g.tlMessageIds

namespace DeletionWorld

def Accounted (S : DeletionSetup T) (w : DeletionWorld T D) (d : Deletion) : Prop :=
  d.Announced w.log.shared ∨ (∃ k p, w.publications k = some p ∧ p.Carries S d) ∨
    (∃ i r, w.requests i = some r ∧ r.Carries S d) ∨ ∃ g ∈ w.gaps, g.Covers d

theorem Accounted.moved {w w' : DeletionWorld T D} {d : Deletion} (h : Accounted S w d)
    (hwritten : ∀ x ∈ w.log.shared.written, x ∈ w'.log.shared.written)
    (hpublications : ∀ k p, w.publications k = some p → p.Carries S d → Accounted S w' d)
    (hrequests : ∀ i r, w.requests i = some r → r.Carries S d → Accounted S w' d)
    (hgaps : ∀ g ∈ w.gaps, g ∈ w'.gaps) : Accounted S w' d := by
  rcases h with ⟨x, hx, hnames⟩ | ⟨k, p, hk, hp⟩ | ⟨i, r, hi, hr⟩ | ⟨g, hg, hcovers⟩
  · exact Or.inl ⟨x, hwritten x hx, hnames⟩
  · exact hpublications k p hk hp
  · exact hrequests i r hi hr
  · exact Or.inr (Or.inr (Or.inr ⟨g, hgaps g hg, hcovers⟩))

end DeletionWorld

/-! ## One step of a publication -/

def DeletePublication.Repeats (S : DeletionSetup T) (p : DeletePublication T) (L : Ledger (RawUpdates T)) : Prop :=
  ∀ row, L.tables.deliveries.get (p.eventKey S) = some row → row.published = true →
    ∃ payload, row.payload = some payload ∧ payload.names (S.shownIn p.conversation) p.result.tlMessageIds = true

def DeletePublication.Goes (S : DeletionSetup T) (p : DeletePublication T) (L : Ledger (RawUpdates T)) : Prop :=
  match p.stage with
  | .lookUp | .prepare => p.Repeats S L
  | .store _           => (L.tables.deliveries.get (p.eventKey S)).isSome
  | _                  => True

variable {p : DeletePublication T}

theorem publishDelete_writes {io : DeletePublishReads T} {next : Option (DeletePublication T)}
    (h : _publishDelete S db L p io = some (L', next)) : L' = L ∨ ∃ o, L.write o = some L' := by
  unfold _publishDelete at h
  split at h
  · split at h
    · split at h <;> (cases h; exact Or.inl rfl)
    · cases h
      exact Or.inl rfl
  · obtain ⟨L₁, hwrite, heq⟩ := Option.map_eq_some_iff.1 h
    cases heq
    exact Or.inr ⟨_, hwrite⟩
  · split at h
    · cases h
    · cases h
      exact Or.inl rfl
  · obtain ⟨L₁, hwrite, heq⟩ := Option.map_eq_some_iff.1 h
    cases heq
    exact Or.inr ⟨_, hwrite⟩
  · split at h
    · obtain ⟨L₁, hwrite, heq⟩ := Option.map_eq_some_iff.1 h
      cases heq
      exact Or.inr ⟨_, hwrite⟩
    · cases h
      exact Or.inl rfl

theorem Deletion.announced_of_row (hL : L.WellFormed)
    (hc : p.Carries S d) {row : UpdateDelivery (RawUpdates T)}
    (hrow : L.tables.deliveries.get (p.eventKey S) = some row) (hpub : row.published = true) (hrep : p.Repeats S L) :
    d.Announced L := by
  obtain ⟨payload, hpayload, hnames⟩ := hrep row hrow hpub
  refine ⟨_, hL.rowWritten row (UpdateLog.mem_of_get hrow).1 payload hpayload, ?_⟩
  rw [← hc.channel]
  exact names_mono hc.ids hnames

theorem found_carries (hc : p.Carries S d)
    {row : UpdateDelivery (RawUpdates T)} (hann : row.published = true → d.Announced L) :
    d.Announced L ∨ ∃ p', p.found row = some p' ∧ p'.Carries S d := by
  unfold DeletePublication.found
  by_cases hpub : row.published = true
  · exact Or.inl (hann hpub)
  · rw [if_neg hpub]
    exact Or.inr ⟨_, rfl, hc.channel, hc.ids, by simp, by simp⟩

theorem claimed_row {k s : String} {n : Nat} {date now : Int} {c : Option Nat}
    (h : L.write (.begin k s n date c now) = some L') (hfree : L'.writing = none) :
    ∃ row row', L.tables.deliveries.get k = some row ∧ L'.tables.deliveries.get k = some row' ∧
      row'.published = row.published ∧ L'.written = L.written := by
  simp only [write] at h
  split at h
  · cases h
  · cases hk : L.tables.deliveries.get k with
    | none =>
      simp only [UpdateTables.beginPrepare, hk, Option.some.injEq] at h
      rw [← h] at hfree
      cases hfree
    | some row =>
      simp only [UpdateTables.beginPrepare, hk, Option.some.injEq] at h
      obtain ⟨hmem, hkey⟩ := UpdateLog.mem_of_get hk
      have hmem' : ({ row with claimedAt := some now } : UpdateDelivery (RawUpdates T)) ∈
          (L.tables.deliveries.claim k now).rows :=
        (UpdateLog.mem_claim _).2 ⟨row, hmem, by rw [if_pos hkey]⟩
      refine ⟨row, { row with claimedAt := some now }, rfl, ?_, rfl, by rw [← h]⟩
      rw [← h]
      have hget := UpdateLog.get_of_mem hmem'
      rw [show ({ row with claimedAt := some now } : UpdateDelivery (RawUpdates T)).eventKey = k from hkey] at hget
      exact hget

/-- **A step of a publication keeps carrying the deletion, or announces it.** -/
theorem publishDelete_carries (hL : L.WellFormed)
    {io : DeletePublishReads T} {next : Option (DeletePublication T)}
    (h : _publishDelete S db L p io = some (L', next)) (hc : p.Carries S d) (hne : d.tlMessageIds ≠ [])
    (hgoes : p.Goes S L) : d.Announced L' ∨ ∃ p', next = some p' ∧ p'.Carries S d := by
  have hids : p.result.tlMessageIds ≠ [] := fun hnil => by
    obtain ⟨n, hn⟩ := exists_mem_of_ne_nil _ hne
    have := hc.ids n hn
    rw [hnil] at this
    cases this
  obtain ⟨eventId, conversation, timestamp, result, stage⟩ := p
  cases stage with
  | lookUp =>
    simp only [_publishDelete] at h
    split at h
    · have hchanged := hc.changed rfl
      simp only at hchanged hids
      rw [if_neg (by simp [hchanged, hids])] at h
      cases h
      exact Or.inr ⟨_, rfl, hc.channel, hc.ids, by simp, by simp⟩
    · rename_i row hrow
      cases h
      simp only at hids
      rw [if_neg hids]
      exact found_carries hc (fun hpub => Deletion.announced_of_row hL hc hrow hpub hgoes)
  | prepare =>
    obtain ⟨L₁, hwrite, heq⟩ := Option.map_eq_some_iff.1 h
    cases heq
    cases hwriting : L'.writing with
    | some delivery => exact Or.inr ⟨_, rfl, hc.channel, hc.ids, by simp, by simp⟩
    | none =>
      obtain ⟨row, row', hrow, hrow', hpub, hwritten⟩ := claimed_row hwrite hwriting
      simp only [hrow', Option.bind_some]
      refine found_carries hc (fun hpub' => ?_)
      obtain ⟨x, hx, hnames⟩ := Deletion.announced_of_row hL hc hrow (hpub ▸ hpub') hgoes
      exact ⟨x, hwritten ▸ hx, hnames⟩
  | prepared delivery =>
    simp only [_publishDelete] at h
    split at h
    · cases h
    · cases h
      exact Or.inr ⟨_, rfl, hc.channel, hc.ids, by simp, by simp⟩
  | store delivery =>
    obtain ⟨L₁, hwrite, heq⟩ := Option.map_eq_some_iff.1 h
    cases heq
    obtain ⟨row, hrow⟩ := Option.isSome_iff_exists.1 hgoes
    simp only [write, UpdateOp.isPrepare, Bool.or_false] at hwrite
    split at hwrite
    · cases hwrite
    · cases hwrite
      refine Or.inl ⟨_, mem_append_right _ (mem_map.2 ⟨row, by rw [hrow]; simp, rfl⟩), ?_⟩
      rw [← hc.channel]
      exact names_mono hc.ids (payload_names db _ delivery io.chat)
  | mark => exact absurd rfl hc.unmarked

/-! ## The condition on a step -/

namespace DeletionWorld

variable (S)

/-- The rows `deleteMessages` deletes that a payload had brought are shown in the channel the request takes its pts in. -/
def InReservedChannel (w : DeletionWorld T D) (r : DeleteRequest) (conversation : IMConversation) (ids : List String) :
    Prop :=
  ∀ d ∈ w.lost S conversation ids, d.published = true →
    d.channelId.isSome ∧ S.reservedChannel r.call = d.channelId

def HasLostNone (w : DeletionWorld T D) (r : DeleteRequest) : Prop :=
  ∀ d ∈ w.deletions, d.published = true → d.messageId ∉ r.deletedIds

/-- No step of a publication ends it early, no request deletes what was published in a direct chat or outside the channel
it takes its pts in, and none that deleted something published fails before it takes them. -/
def Heard (w : DeletionWorld T D) : DeletionAction T → Prop
  | .publish k _                     => ∀ p, w.publications k = some p → p.Goes S w.log.shared
  | .delete i conversation notices   => ∀ r, w.requests i = some r →
      w.InReservedChannel S r conversation (r.targetsIn conversation.id notices)
  | .replace i replacedMessageId     => ∀ r conversation, w.requests i = some r → r.call = .editMessage conversation →
      w.InReservedChannel S r conversation [replacedMessageId]
  | .reserve i projected _           => ∀ r, w.requests i = some r →
      r.ptsCount projected ≤ maxSafeInteger ∨ w.HasLostNone r
  | .fail i                          => ∀ r, w.requests i = some r → w.HasLostNone r
  | _                                => True

variable {S}

/-! ## Every run -/

structure Inv (codec : TlCodec (RawUpdates T) T) (buildTooLong : Nat → Int → Option D)
    (t : UpdateTables (RawUpdates T)) (S : DeletionSetup T) (w : DeletionWorld T D) : Prop where
  log : Runs.Reachable (updateSystem codec buildTooLong).step (fun _ _ => True) (System.idle (Ledger.start t)) w.log
  placed : Placed (placings w.db.tables.parts)
  looking : ∀ i r, w.requests i = some r → r.looking = true → r.deletedIds = []
  named : ∀ d ∈ w.deletions, d.published = true → d.tlMessageIds ≠ []
  accounted : ∀ d ∈ w.deletions, d.published = true → Accounted S w d
  gaps : ∀ g ∈ w.gaps, Unused w.log.shared (S.session.platformSessionId, scopeOf g.channelId, (g.pts, g.ptsCount))

variable {codec : TlCodec (RawUpdates T) T} {buildTooLong : Nat → Int → Option D} {t : UpdateTables (RawUpdates T)}

theorem wellFormed_of_reachable (ht : t.deliveries.rows = []) {w : UpdateWorld (RawUpdates T) T D}
    (h : Runs.Reachable (updateSystem codec buildTooLong).step (fun _ _ => True) (System.idle (Ledger.start t)) w) :
    w.shared.WellFormed := by
  have hstart : Moves (Ledger.start t) (Ledger.start t) := ⟨wellFormed_start t ht, .refl _⟩
  exact (saw_of_reachable interference_moves codec buildTooLong hstart
    (fun w o L _ hw ho => write_moves hw.1 ho) h).1.1

theorem log_moves {w w' : UpdateWorld (RawUpdates T) T D} {a : UpdateAction (RawUpdates T)} (hL : w.shared.WellFormed)
    (h : (updateSystem codec buildTooLong).step w a = some w') : Moves w.shared w'.shared := by
  rcases System.step_cases h with ⟨o, s, rfl, hs, rfl⟩ | ⟨i, q, rfl, -, rfl⟩ |
    ⟨i, x, q, e, next, hist, s, ans, rfl, -, hs, rfl⟩ | ⟨i, q, r, hist, rfl, -, rfl⟩
  · exact write_moves hL hs
  · exact ⟨hL, .refl _⟩
  · exact exec_moves hL hs
  · exact ⟨hL, .refl _⟩

theorem reachable_write {w : UpdateWorld (RawUpdates T) T D} {L : Ledger (RawUpdates T)}
    (h : Runs.Reachable (updateSystem codec buildTooLong).step (fun _ _ => True) (System.idle (Ledger.start t)) w)
    (hwrite : L = w.shared ∨ ∃ o, w.shared.write o = some L) :
    Runs.Reachable (updateSystem codec buildTooLong).step (fun _ _ => True) (System.idle (Ledger.start t))
      { w with shared := L } := by
  rcases hwrite with rfl | ⟨o, ho⟩
  · exact h
  · refine .tail (a := .write o) h trivial ?_
    simp only [System.step, updateSystem, ho, Option.map_some]

theorem moves_of_write {L L' : Ledger (RawUpdates T)} (hL : L.WellFormed) (h : L' = L ∨ ∃ o, L.write o = some L') :
    Moves L L' := by
  rcases h with rfl | ⟨o, ho⟩
  · exact ⟨hL, .refl _⟩
  · exact write_moves hL ho

variable {w w' : DeletionWorld T D} {d : Deletion}

theorem accounted_of_publication {k : Nat} {p : DeletePublication T} (hk : w.publications k = some p)
    (hp : p.Carries S d) : Accounted S w d := Or.inr (Or.inl ⟨k, p, hk, hp⟩)

variable {r : DeleteRequest} {i : Nat}

theorem accounted_of_request (hi : w.requests i = some r)
    (hr : r.Carries S d) : Accounted S w d := Or.inr (Or.inr (Or.inl ⟨i, r, hi, hr⟩))

theorem Accounted.of_request (h : Accounted S w d) (i : Nat)
    (hlog : w'.log = w.log) (hpublications : w'.publications = w.publications)
    (hothers : ∀ j, j ≠ i → w'.requests j = w.requests j) (hgaps : ∀ g ∈ w.gaps, g ∈ w'.gaps)
    (hsame : ∀ r, w.requests i = some r → r.Carries S d → Accounted S w' d) : Accounted S w' d := by
  refine h.moved (fun x hx => by rw [hlog]; exact hx)
    (fun k p hk hp => accounted_of_publication (by rw [hpublications]; exact hk) hp) (fun j r hj hr => ?_) hgaps
  by_cases hji : j = i
  · exact hsame r (hji ▸ hj) hr
  · exact accounted_of_request ((hothers j hji).trans hj) hr

theorem deleteMessages_parts (db : Database) (session : PlatformSession) (conversation : IMConversation)
    (ids : List String) :
    (MessageStore.deleteMessages db session conversation ids).1.tables.parts = db.tables.parts := by
  show (upsertConversation db session conversation none).1.tables.parts = _
  rw [upsertConversation_tables]

/-! ### One lemma for each kind of step -/

theorem Inv.logged (hinv : Inv codec buildTooLong t S w) (ht : t.deliveries.rows = [])
    {a : UpdateAction (RawUpdates T)} {log : UpdateWorld (RawUpdates T) T D}
    (h : (updateSystem codec buildTooLong).step w.log a = some log) :
    Inv codec buildTooLong t S { w with log := log } := by
  have hL := wellFormed_of_reachable ht hinv.log
  have hmoves := log_moves hL h
  refine { hinv with log := hinv.log.tail trivial h, accounted := fun d hd hpub => ?_, gaps := fun g hg => ?_ }
  · exact (hinv.accounted d hd hpub).moved hmoves.2.written (fun k p hk hp => accounted_of_publication hk hp)
      (fun i r hi hr => accounted_of_request hi hr) (fun g hg => hg)
  · exact (hinv.gaps g hg).moved hL hmoves

theorem Inv.stored (hinv : Inv codec buildTooLong t S w) {reader : MessageReader} {op : StoreOperation} {db : Database}
    {results : List IngestResult} (hop : ∀ session conversation ids, op ≠ .deleteMessages session conversation ids)
    (h : MessageStore.apply reader w.db op = .ok (db, results)) :
    Inv codec buildTooLong t S { w with db := db, deletions := w.deletions ++ w.recorded S none db.tables } := by
  obtain ⟨hplaced, hstays⟩ := apply_store_rule stays_rule hop h hinv.placed
  have hnone : w.recorded S none db.tables = [] := by
    unfold recorded
    rw [newlyDeleted_of_stays hstays]
    rfl
  rw [hnone, append_nil]
  exact ⟨hinv.log, hplaced, hinv.looking, hinv.named, hinv.accounted, hinv.gaps⟩

/-- **A delete event**: its publication carries what it deletes. -/
theorem Inv.eventDeleted (hinv : Inv codec buildTooLong t S w) {k : Nat} (hk : w.publications k = none)
    (eventId : String) (conversation : IMConversation) (ids : List String) (timestamp : Int) :
    let deleted := MessageStore.deleteMessages w.db S.session conversation ids
    let p : DeletePublication T := { eventId := eventId, conversation := conversation, timestamp := timestamp
                                     result := deleted.2, stage := .lookUp }
    Inv codec buildTooLong t S { w with
      db := deleted.1, publications := Function.update w.publications k (some p)
      deletions := w.deletions ++ w.lost S conversation ids } := by
  intro deleted p
  refine ⟨hinv.log, ?_, hinv.looking, fun d hd hpub => ?_, fun d hd hpub => ?_, hinv.gaps⟩
  · show Placed (placings deleted.1.tables.parts)
    rw [deleteMessages_parts]
    exact hinv.placed
  · rcases mem_append.1 hd with hd | hd
    · exact hinv.named d hd hpub
    · exact (mem_lost hd).2.2.2.2 hpub
  · rcases mem_append.1 hd with hd | hd
    · refine (hinv.accounted d hd hpub).moved (fun x hx => hx) (fun j q hj hq => ?_)
        (fun i r hi hr => accounted_of_request hi hr) (fun g hg => hg)
      have hjk : j ≠ k := fun hjk => by
        rw [hjk, hk] at hj
        cases hj
      exact accounted_of_publication (k := j) ((update_of_ne hjk _ _).trans hj) hq
    · obtain ⟨hchannel, -, hchanged, hids, -⟩ := mem_lost hd
      exact accounted_of_publication (k := k) (update_self k _ _)
        { channel := hchannel.symm, ids := hids, unmarked := (fun h => by cases h), changed := fun _ => hchanged }

/-- **A step of a publication**: what it carried it carries on, or has announced. -/
theorem Inv.published (hinv : Inv codec buildTooLong t S w) (ht : t.deliveries.rows = []) {k : Nat}
    {p : DeletePublication T} {io : DeletePublishReads T} {L : Ledger (RawUpdates T)}
    {next : Option (DeletePublication T)} (hk : w.publications k = some p) (hgoes : p.Goes S w.log.shared)
    (h : _publishDelete S w.db w.log.shared p io = some (L, next)) :
    Inv codec buildTooLong t S { w with
      log := { w.log with shared := L }, publications := Function.update w.publications k next } := by
  have hL := wellFormed_of_reachable ht hinv.log
  have hwrites := publishDelete_writes h
  have hmoves := moves_of_write hL hwrites
  refine ⟨reachable_write hinv.log hwrites, hinv.placed, hinv.looking, hinv.named, fun d hd hpub => ?_,
    fun g hg => (hinv.gaps g hg).moved hL hmoves⟩
  refine (hinv.accounted d hd hpub).moved hmoves.2.written (fun j q hj hq => ?_)
    (fun i r hi hr => accounted_of_request hi hr) (fun g hg => hg)
  by_cases hjk : j = k
  · subst hjk
    rw [hk] at hj
    cases hj
    rcases publishDelete_carries hL h hq (hinv.named d hd hpub) hgoes with hann | ⟨p', rfl, hp'⟩
    · exact Or.inl hann
    · exact accounted_of_publication (k := j) (update_self j _ _) hp'
  · exact accounted_of_publication (k := j) ((update_of_ne hjk _ _).trans hj) hq

theorem Inv.closed (hinv : Inv codec buildTooLong t S w)
    (hfree : ∀ r, w.requests i = some r → ∀ d ∈ w.deletions, d.published = true → ¬r.Carries S d) :
    Inv codec buildTooLong t S (w.closed i) := by
  refine ⟨hinv.log, hinv.placed, fun j r hj => ?_, hinv.named, fun d hd hpub => ?_, hinv.gaps⟩
  · have hji : j ≠ i := fun hji => by
      rw [hji] at hj
      simp [DeletionWorld.closed] at hj
    exact hinv.looking j r ((update_of_ne hji _ _).symm.trans hj)
  · exact (hinv.accounted d hd hpub).of_request i rfl rfl (fun j hj => update_of_ne hj _ _) (fun g hg => hg)
      (fun r hr hc => absurd hc (hfree r hr d hd hpub))

theorem Inv.requested (hinv : Inv codec buildTooLong t S w) {r' : DeleteRequest}
    (hlooking : r'.looking = true → r'.deletedIds = [])
    (hcarries : ∀ r, w.requests i = some r → ∀ d ∈ w.deletions, d.published = true → r.Carries S d → r'.Carries S d) :
    Inv codec buildTooLong t S { w with requests := Function.update w.requests i (some r') } := by
  refine ⟨hinv.log, hinv.placed, fun j r hj => ?_, hinv.named, fun d hd hpub => ?_, hinv.gaps⟩
  · by_cases hji : j = i
    · subst hji
      have hj : some r' = some r := (update_self j _ _).symm.trans hj
      cases hj
      exact hlooking
    · exact hinv.looking j r ((update_of_ne hji _ _).symm.trans hj)
  · exact (hinv.accounted d hd hpub).of_request i rfl rfl (fun j hj => update_of_ne hj _ _) (fun g hg => hg)
      (fun r hr hc => accounted_of_request (i := i) (update_self i _ _) (hcarries r hr d hd hpub hc))

/-- **A request's deletion**: the request carries what it deletes in the channel it takes its pts in. -/
theorem Inv.requestDeleted (hinv : Inv codec buildTooLong t S w)
    (hr : w.requests i = some r) {conversation : IMConversation} {ids : List String}
    (hin : w.InReservedChannel S r conversation ids) :
    Inv codec buildTooLong t S (w.deletedFor S i r conversation ids) := by
  refine ⟨hinv.log, ?_, fun j r' hj hlooking => ?_, fun d hd hpub => ?_, fun d hd hpub => ?_, hinv.gaps⟩
  · show Placed (placings (MessageStore.deleteMessages w.db S.session conversation ids).1.tables.parts)
    rw [deleteMessages_parts]
    exact hinv.placed
  · by_cases hji : j = i
    · subst hji
      have hj := Option.some.inj ((update_self j _ _).symm.trans hj)
      rw [← hj] at hlooking
      cases hlooking
    · exact hinv.looking j r' ((update_of_ne hji _ _).symm.trans hj) hlooking
  · rcases mem_append.1 hd with hd | hd
    · exact hinv.named d hd hpub
    · exact (mem_lost hd).2.2.2.2 hpub
  · rcases mem_append.1 hd with hd | hd
    · refine (hinv.accounted d hd hpub).of_request i rfl rfl (fun j hj => update_of_ne hj _ _) (fun g hg => hg)
        (fun r' hr' hc => ?_)
      rw [hr] at hr'
      cases hr'
      exact accounted_of_request (i := i) (update_self i _ _)
        { deleted := mem_append_left _ hc.deleted, searched := rfl, channel := hc.channel
          inChannel := hc.inChannel, ids := fun n hn => mem_append_left _ (hc.ids n hn) }
    · obtain ⟨-, hmem, -, hids, -⟩ := mem_lost hd
      obtain ⟨hsome, hchannel⟩ := hin d hd hpub
      exact accounted_of_request (i := i) (update_self i _ _)
        { deleted := mem_append_right _ hmem, searched := rfl, channel := hchannel, inChannel := hsome
          ids := fun n hn => mem_append_right _ (hids n hn) }

theorem ptsCount_pos (hc : r.Carries S d) (hne : d.tlMessageIds ≠ [])
    (projected : Nat) : r.ptsCount projected ≠ 0 := by
  obtain ⟨n, hn⟩ := exists_mem_of_ne_nil _ hne
  have hmem := hc.ids n hn
  unfold DeleteRequest.ptsCount
  split
  · exact Nat.ne_of_gt (length_pos_of_mem (Maps.mem_distinct.2 hmem))
  · have := length_pos_of_mem hmem
    omega

/-- **`_reservePts`**: the pts taken stand for what the request carried. -/
theorem Inv.reserved (hinv : Inv codec buildTooLong t S w) (ht : t.deliveries.rows = [])
    (hr : w.requests i = some r) {projected : Nat} {date : Int}
    (hok : r.ptsCount projected ≤ maxSafeInteger ∨ w.HasLostNone r)
    (h : w.reserved S i r projected date = some w') : Inv codec buildTooLong t S w' := by
  unfold DeletionWorld.reserved at h
  simp only at h
  split at h
  · rename_i hrange
    cases h
    refine hinv.closed (fun r' hr' d hd hpub hc => ?_)
    rw [hr] at hr'
    cases hr'
    rcases hok with hle | hnone
    · exact ptsCount_pos hc (hinv.named d hd hpub) projected (hrange.resolve_right (by omega))
    · exact hnone d hd hpub hc.deleted
  · rename_i hrange
    obtain ⟨L, hwrite, rfl⟩ := Option.map_eq_some_iff.1 h
    have hL := wellFormed_of_reachable ht hinv.log
    have hmoves := write_moves hL hwrite
    refine ⟨reachable_write hinv.log (Or.inr ⟨_, hwrite⟩), hinv.placed, fun j r' hj => ?_, hinv.named,
      fun d hd hpub => ?_, fun g hg => ?_⟩
    · have hji : j ≠ i := fun hji => by
        rw [hji] at hj
        simp [DeletionWorld.closed] at hj
      exact hinv.looking j r' ((update_of_ne hji _ _).symm.trans hj)
    · refine (hinv.accounted d hd hpub).moved hmoves.2.written (fun k p hk hp => accounted_of_publication hk hp)
        (fun j r' hj hc => ?_) (fun g hg => mem_append_left _ hg)
      by_cases hji : j = i
      · rw [hji, hr] at hj
        cases hj
        exact Or.inr (Or.inr (Or.inr ⟨w.gapOf S r projected, mem_append_right _ (mem_singleton_self _),
          { channel := hc.channel, inChannel := hc.inChannel, ids := hc.ids }⟩))
      · exact accounted_of_request (i := j) ((update_of_ne hji _ _).trans hj) hc
    · rcases mem_append.1 hg with hg | hg
      · exact (hinv.gaps g hg).moved hL hmoves
      · rw [mem_singleton.1 hg]
        exact unused_of_advance hL (fun hzero => hrange (Or.inl hzero)) (by omega) hwrite

/-! ### The run -/

theorem inv_start (t : UpdateTables (RawUpdates T)) : Inv codec buildTooLong t S (start Database.empty t) where
  log := .init
  placed := Placed.nil
  looking := fun _ _ h => by cases h
  named := fun _ h => absurd h not_mem_nil
  accounted := fun _ h => absurd h not_mem_nil
  gaps := fun _ h => absurd h not_mem_nil

theorem inv_step (ht : t.deliveries.rows = []) {a : DeletionAction T} (hinv : Inv codec buildTooLong t S w)
    (hheard : w.Heard S a) (h : step S codec buildTooLong w a = some w') : Inv codec buildTooLong t S w' := by
  cases a with
  | log a =>
    obtain ⟨log, hlog, rfl⟩ := Option.map_eq_some_iff.1 h
    exact hinv.logged ht hlog
  | store reader op =>
    simp only [step] at h
    split at h
    · cases h
    · rename_i hop
      split at h
      · cases h
        exact hinv
      · rename_i db results happ
        cases h
        exact hinv.stored hop happ
  | deleteEvent k eventId conversation ids timestamp =>
    simp only [step] at h
    split at h
    · cases h
    · rename_i hk
      cases h
      exact hinv.eventDeleted hk eventId conversation ids timestamp
  | publish k io =>
    obtain ⟨p, hk, h⟩ := Option.bind_eq_some_iff.1 h
    obtain ⟨⟨L, next⟩, hpub, rfl⟩ := Option.map_eq_some_iff.1 h
    exact hinv.published ht hk (hheard p hk) hpub
  | request i call =>
    simp only [step] at h
    split at h
    · cases h
    · rename_i hi
      cases h
      refine hinv.requested (fun _ => rfl) (fun r hr => ?_)
      rw [hi] at hr
      cases hr
  | find i tlMessageId =>
    obtain ⟨r, hi, h⟩ := Option.bind_eq_some_iff.1 h
    split at h
    · rename_i hlooking
      have hnone := hinv.looking i r hi hlooking
      split at h
      · cases h
        refine hinv.closed (fun r' hr' d _ _ hc => ?_)
        rw [hi] at hr'
        cases hr'
        have := hc.deleted
        rw [hnone] at this
        cases this
      · cases h
        refine hinv.requested (fun _ => hnone) (fun r' hr' d _ _ hc => ?_)
        rw [hi] at hr'
        cases hr'
        have := hc.deleted
        rw [hnone] at this
        cases this
    · cases h
  | delete i conversation notices =>
    obtain ⟨r, hi, h⟩ := Option.bind_eq_some_iff.1 h
    split at h
    · cases h
    · cases h
      exact hinv.requestDeleted hi (hheard r hi)
  | noticesPublished i ids =>
    obtain ⟨r, hi, h⟩ := Option.bind_eq_some_iff.1 h
    split at h
    · cases h
      refine hinv.requested (fun hc => by cases hc) (fun r' hr' d _ _ hc => ?_)
      rw [hi] at hr'
      cases hr'
      exact { deleted := hc.deleted, searched := rfl, channel := hc.channel, inChannel := hc.inChannel
              ids := fun n hn => mem_append_left _ (hc.ids n hn) }
    · cases h
  | replace i replacedMessageId =>
    obtain ⟨r, hi, h⟩ := Option.bind_eq_some_iff.1 h
    split at h
    · cases h
    · rename_i conversation hcall
      split at h
      · cases h
      · cases h
        exact hinv.requestDeleted hi (hheard r conversation hi hcall)
  | reserve i projected date =>
    obtain ⟨r, hi, h⟩ := Option.bind_eq_some_iff.1 h
    exact hinv.reserved ht hi (hheard r hi) h
  | fail i =>
    obtain ⟨r, hi, rfl⟩ := Option.map_eq_some_iff.1 h
    refine hinv.closed (fun r' hr' d hd hpub hc => ?_)
    exact hheard r' hr' d hd hpub hc.deleted

end DeletionWorld

def plainDeletions : DeletionSetup (Option Nat × Int) where
  session := plainSession
  contentOf := fun _ => { parts := [] }
  stableId := fun id => id.length
  shown := some
  onLocalEvent := true

def plainDeletionStep : DeletionWorld (Option Nat × Int) (Nat × Int) → DeletionAction (Option Nat × Int) →
    Option (DeletionWorld (Option Nat × Int) (Nat × Int)) :=
  DeletionWorld.step plainDeletions ⟨id, fun _ => ""⟩ (fun channelId pts => some (channelId, pts))

def noUpdates : UpdateTables (RawUpdates (Option Nat × Int)) := .ofCounters (fun _ => none) (fun _ _ => none) 1

def directFriend : IMConversation := { id := "friend", kind := .direct }

def friendWrites : List (DeletionAction (Option Nat × Int)) :=
  [.store plainReader (.ingest plainSession directFriend
      { id := "hello", conversationId := "friend", senderId := "friend",
        content := { parts := [.text "hello" []], rest := .null }, timestamp := 1700000000 } .live),
    .log (.write (.begin "hello" "session" 1 1700000000 none 1700000000)), .log (.write (.create (fun _ => true))),
    .log (.write (.other (.setPayload "hello" ⟨[.updateNewMessage (none, 1073741824) 2 1], [], [], 1700000000, 1⟩)))]

def groupWrites : List (DeletionAction (Option Nat × Int)) :=
  [.store plainReader (.ingest plainSession plainGroup (plainMessage "welcome" [.text "welcome" []]) .live),
    .log (.write (.begin "welcome" "session" 1 1700000000 (some 5) 1700000000)),
    .log (.write (.create (fun _ => true))),
    .log (.write (.other (.setPayload "welcome" ⟨[.updateNewChannelMessage (some 5, 1073741824) 3 1], [], [], 1700000000,
      2⟩)))]

def plainDeleteReads : DeletePublishReads (Option Nat × Int) := { now := 1700000001, chat := (none, 0), delivered := true }

def twoDeletions : List (DeletionAction (Option Nat × Int)) :=
  friendWrites ++ groupWrites ++
    [.deleteEvent 0 "recall" directFriend ["hello"] 1700000001, .publish 0 plainDeleteReads, .publish 0 plainDeleteReads,
      .log (.write (.create (fun _ => true))), .publish 0 plainDeleteReads, .publish 0 plainDeleteReads,
      .publish 0 plainDeleteReads, .request 0 (.deleteMessages (some plainGroup)), .find 0 1073741824,
      .delete 0 plainGroup false, .reserve 0 0 1700000001]

/-- A test for `Heard`: no delivery is there under the event's key before the event's own, and requests delete in their
channel and do not fail. -/
def heardNow (w : DeletionWorld (Option Nat × Int) (Nat × Int)) : DeletionAction (Option Nat × Int) → Bool
  | .publish k _                   => (w.publications k).all (fun p =>
      let row := w.log.shared.tables.deliveries.get (p.eventKey plainDeletions)
      match p.stage with
      | .lookUp | .prepare => row.isNone
      | .store _           => row.isSome
      | _                  => true)
  | .delete i conversation notices => (w.requests i).all (fun r =>
      (w.lost plainDeletions conversation (r.targetsIn conversation.id notices)).all (fun d =>
        d.channelId.isSome ∧ plainDeletions.reservedChannel r.call = d.channelId))
  | .reserve i projected _         => (w.requests i).all (fun r => r.ptsCount projected ≤ maxSafeInteger)
  | .replace _ _                   => false
  | .fail _                        => false
  | _                              => true

theorem heard_of_now (w : DeletionWorld (Option Nat × Int) (Nat × Int)) (a : DeletionAction (Option Nat × Int))
    (h : heardNow w a = true) : w.Heard plainDeletions a := by
  cases a with
  | publish k io =>
    intro p hp
    simp only [heardNow, hp, Option.all_some] at h
    obtain ⟨eventId, conversation, timestamp, result, stage⟩ := p
    cases stage with
    | lookUp =>
      intro row hrow
      simp [hrow] at h
    | prepare =>
      intro row hrow
      simp [hrow] at h
    | prepared delivery => trivial
    | store delivery => exact h
    | mark => trivial
  | delete i conversation notices =>
    intro r hr d hd _
    simp only [heardNow, hr, Option.all_some, all_eq_true, decide_eq_true_eq] at h
    exact h d hd
  | reserve i projected date =>
    intro r hr
    simp only [heardNow, hr, Option.all_some, decide_eq_true_eq] at h
    exact Or.inl h
  | replace i id => cases h
  | fail i => cases h
  | _ => trivial

def deletedByRequest : List (DeletionAction (Option Nat × Int)) :=
  friendWrites ++ [.request 0 (.deleteMessages none), .find 0 1073741824, .delete 0 directFriend false,
    .reserve 0 0 1700000001, .deleteEvent 0 "echo" directFriend ["hello"] 1700000001, .publish 0 plainDeleteReads]

def DeletionAction.ofFirst {T : Type} : DeletionAction T → Bool
  | .deleteEvent k _ _ _ _ => k = 0
  | .publish k _           => k = 0
  | .request i _           => i = 0
  | .find i _              => i = 0
  | .delete i _ _          => i = 0
  | .noticesPublished i _  => i = 0
  | .replace i _           => i = 0
  | .reserve i _ _         => i = 0
  | .fail i                => i = 0
  | _                      => true

theorem elsewhere_step {T D : Type} {S : DeletionSetup T} {codec : TlCodec (RawUpdates T) T}
    {buildTooLong : Nat → Int → Option D} {w w' : DeletionWorld T D} {a : DeletionAction T} (hfirst : a.ofFirst = true)
    (h : DeletionWorld.step S codec buildTooLong w a = some w') {k : Nat} (hk : k ≠ 0) :
    w'.publications k = w.publications k ∧ w'.requests k = w.requests k := by
  have hother : ∀ {α : Type} {i : Nat} (f : Nat → Option α) (x : Option α), decide (i = 0) = true →
      Function.update f i x k = f k := fun f x hi =>
    update_of_ne (fun hki => hk (hki.trans (of_decide_eq_true hi))) x f
  cases a with
  | log a =>
    obtain ⟨log, -, rfl⟩ := Option.map_eq_some_iff.1 h
    exact ⟨rfl, rfl⟩
  | store reader op =>
    simp only [DeletionWorld.step] at h
    split at h
    · cases h
    · split at h <;> (cases h; exact ⟨rfl, rfl⟩)
  | deleteEvent j eventId conversation ids timestamp =>
    simp only [DeletionWorld.step] at h
    split at h
    · cases h
    · cases h
      exact ⟨hother _ _ hfirst, rfl⟩
  | publish j io =>
    obtain ⟨p, -, h⟩ := Option.bind_eq_some_iff.1 h
    obtain ⟨next, -, rfl⟩ := Option.map_eq_some_iff.1 h
    exact ⟨hother _ _ hfirst, rfl⟩
  | request i call =>
    simp only [DeletionWorld.step] at h
    split at h
    · cases h
    · cases h
      exact ⟨rfl, hother _ _ hfirst⟩
  | find i tlMessageId =>
    obtain ⟨r, -, h⟩ := Option.bind_eq_some_iff.1 h
    split at h
    · split at h <;> (cases h; exact ⟨rfl, hother _ _ hfirst⟩)
    · cases h
  | delete i conversation notices =>
    obtain ⟨r, -, h⟩ := Option.bind_eq_some_iff.1 h
    split at h
    · cases h
    · cases h
      exact ⟨rfl, hother _ _ hfirst⟩
  | noticesPublished i ids =>
    obtain ⟨r, -, h⟩ := Option.bind_eq_some_iff.1 h
    split at h
    · cases h
      exact ⟨rfl, hother _ _ hfirst⟩
    · cases h
  | replace i replacedMessageId =>
    obtain ⟨r, -, h⟩ := Option.bind_eq_some_iff.1 h
    split at h
    · cases h
    · split at h
      · cases h
      · cases h
        exact ⟨rfl, hother _ _ hfirst⟩
  | reserve i projected date =>
    obtain ⟨r, -, h⟩ := Option.bind_eq_some_iff.1 h
    unfold DeletionWorld.reserved at h
    simp only at h
    split at h
    · cases h
      exact ⟨rfl, hother _ _ hfirst⟩
    · obtain ⟨L, -, rfl⟩ := Option.map_eq_some_iff.1 h
      exact ⟨rfl, hother _ _ hfirst⟩
  | fail i =>
    obtain ⟨r, -, rfl⟩ := Option.map_eq_some_iff.1 h
    exact ⟨rfl, hother _ _ hfirst⟩

end Crossgram
