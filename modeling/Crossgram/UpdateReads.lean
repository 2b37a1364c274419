import Crossgram.UpdateSystem
/-!
# UpdateReads — what a reader has seen

The specs of the readers' programs under interference.  `Settled` says what `_withoutAbandonedDeliveries` makes of the
rows of a window: complete rows stay, of the others each is gone, read again, or replaced by a younger row under its key.
`SawDifference` is what a finished `getDifference` has read, in order, and how its response follows from it.
-/
namespace Crossgram

open List Programs

structure Interference {J : Type} (rely : Ledger J → Ledger J → Prop) : Prop where
  isRely : IsRely rely
  moves : ∀ {L L'}, rely L L' → Ledger.Moves L L'
  called : ∀ {e : UpdateRead} {ms : Int} {L L' : Ledger J} {a : e.Answer J}, rely L L →
    Ledger.exec e ms L = some (L', a) → rely L L'

namespace Ledger

variable {J : Type} {L L' : Ledger J}

def Genuine (L : Ledger J) (d : UpdateDelivery J) : Prop :=
  (d.toReservation, d.messageId) ∈ L.created ∧ ∀ p, d.payload = some p → (d.messageId, p) ∈ L.written

variable {d : UpdateDelivery J}

theorem WellFormed.genuine (hL : L.WellFormed) (hd : d ∈ L.tables.deliveries.rows) :
    L.Genuine d := ⟨hL.rowsCreated _ (entry_mem hd), hL.rowWritten d hd⟩

theorem Genuine.grow (h : L.Genuine d) (hg : Grows L L') : L'.Genuine d :=
  ⟨hg.created _ h.1, fun p hp => hg.written _ (h.2 p hp)⟩

theorem WellFormed.created_eq (hL : L.WellFormed) {e e' : Reservation × Nat} (he : e ∈ L.created) (he' : e' ∈ L.created)
    (hid : e.2 = e'.2) : e = e' := by
  by_contra hne
  rcases Windows.rel_or_rel_of_mem hL.idsIncrease he he' hne with h | h <;> omega

theorem gone_of_key (hL' : L'.WellFormed) (hg : Grows L L') (hL : L.WellFormed)
    (hd : d ∈ L.tables.deliveries.rows)
    (hkey : ∀ e ∈ L'.tables.deliveries.rows, e.eventKey = d.eventKey → e.messageId ≠ d.messageId) :
    L'.Gone d.messageId := by
  refine ⟨lt_of_lt_of_le (L.tables.deliveries.idsFresh d hd) hg.nextMessageId, fun e he hid => ?_⟩
  obtain ⟨x, hx, rfl⟩ := mem_map.1 he
  have := hL'.created_eq (hL'.rowsCreated _ (entry_mem hx)) (hg.created _ (hL.rowsCreated _ (entry_mem hd))) hid
  exact hkey x hx (congrArg (fun r => r.1.eventKey) this) hid

theorem younger_of_key (hL' : L'.WellFormed) (hg : Grows L L') (hL : L.WellFormed) {d e : UpdateDelivery J}
    (hd : d ∈ L.tables.deliveries.rows) (he : e ∈ L'.tables.deliveries.rows) (hkey : e.eventKey = d.eventKey) :
    (e.toReservation = d.toReservation ∧ e.messageId = d.messageId) ∨
    (e.messageId ≠ d.messageId ∧ L.tables.deliveries.nextMessageId ≤ e.messageId) := by
  have hecr := hL'.rowsCreated _ (entry_mem he)
  by_cases hid : e.messageId = d.messageId
  · have := hL'.created_eq hecr (hg.created _ (hL.rowsCreated _ (entry_mem hd))) hid
    exact Or.inl ⟨congrArg Prod.fst this, hid⟩
  · refine Or.inr ⟨hid, ?_⟩
    rcases hg.newCreated _ hecr with hold | ⟨hnew, -⟩
    · -- a row of the earlier ledger under the same key, so the same row
      by_contra hlt
      have hrow : ∃ x ∈ L.entries, x.2 = e.messageId := by
        by_contra hno
        push Not at hno
        exact (hg.gone e.messageId ⟨by omega, hno⟩).2 _ (entry_mem he) rfl
      obtain ⟨x, hx, hxid⟩ := hrow
      obtain ⟨y, hy, rfl⟩ := mem_map.1 hx
      have hye := hL.created_eq (hL.rowsCreated _ (entry_mem hy)) hold hxid
      have hyk : y.eventKey = d.eventKey := (congrArg (fun r => r.1.eventKey) hye).trans hkey
      have h1 := UpdateLog.get_of_mem hy
      rw [hyk, UpdateLog.get_of_mem hd] at h1
      cases h1
      exact hid hxid.symm
    · exact hnew

/-! What each call answers, and what it leaves. -/

variable {ms : Int} {s : String}

theorem exec_getUpdateState {a : UpdateStateRow}
    (h : exec (.getUpdateState s) ms L = some (L', a)) :
    L'.tables = L.tables ∧ a = L.tables.getUpdateState s (ms / 1000) ∧
      (L.tables.updateState s = none → (s, ms / 1000) ∈ L'.clockDates) := by
  have h := Option.some.inj h
  obtain rfl : _ = L' := congrArg Prod.fst h
  exact ⟨rfl, (congrArg Prod.snd h).symm, fun hnone => by simp [hnone]⟩

theorem exec_getUpdateDeliveriesAfter {p : Int} {n : Nat} {c : Option Nat}
    {a : List (UpdateDelivery J)} (h : exec (.getUpdateDeliveriesAfter s p n c) ms L = some (L', a)) :
    L' = L ∧ a = L.tables.getUpdateDeliveriesAfter s p n c := by
  have h := Option.some.inj h
  exact ⟨(congrArg Prod.fst h).symm, (congrArg Prod.snd h).symm⟩

theorem exec_getUpdateDelivery {k : String} {a : Option (UpdateDelivery J)}
    (h : exec (.getUpdateDelivery k) ms L = some (L', a)) : L' = L ∧ a = L.tables.deliveries.get k := by
  have h := Option.some.inj h
  exact ⟨(congrArg Prod.fst h).symm, (congrArg Prod.snd h).symm⟩

theorem exec_getChangedChannelScopes {date ms : Int} {a : List ChannelScopeUpdate}
    (h : exec (.getChangedChannelScopes s date) ms L = some (L', a)) :
    L' = L ∧ a = L.tables.deliveries.getChangedChannelScopes s date := by
  have h := Option.some.inj h
  exact ⟨(congrArg Prod.fst h).symm, (congrArg Prod.snd h).symm⟩

theorem exec_discard_true {k : String}
    (h : exec (.discardAbandonedUpdateDelivery k) ms L = some (L', true)) :
    ∀ e ∈ L'.tables.deliveries.rows, e.eventKey ≠ k := by
  simp only [exec] at h
  split at h
  · cases h
  · have h := Option.some.inj h
    obtain rfl : _ = L' := congrArg Prod.fst h
    have htrue : (L.tables._discardUpdateDelivery k true (ms / 1000)).2 = true := congrArg Prod.snd h
    intro e he
    simp only [UpdateTables._discardUpdateDelivery] at htrue he
    split at htrue
    · rename_i hcan
      rw [if_pos hcan] at he
      exact ((UpdateLog.mem_remove _).1 he).2
    · cases htrue

theorem exec_keeps {e : UpdateRead} {L L' : Ledger J} {a : e.Answer J} (h : exec e ms L = some (L', a)) :
    L'.created = L.created ∧ L'.writing = L.writing ∧ L'.written = L.written := by
  cases e with
  | discardAbandonedUpdateDelivery k =>
    simp only [exec] at h
    split at h
    · cases h
    · cases h
      exact ⟨rfl, rfl, rfl⟩
  | markUpdatePublished k =>
    simp only [exec] at h
    split at h
    · cases h
    · cases h
      exact ⟨rfl, rfl, rfl⟩
  | _ =>
    simp only [exec, Option.some.injEq] at h
    cases h
    exact ⟨rfl, rfl, rfl⟩

end Ledger

open Ledger

variable {J T D : Type}

/-- What becomes of the rows of a window, read in `L₀`, by the time the ledger is `L`. -/
inductive Settled (L₀ L : Ledger J) : List (UpdateDelivery J) → List (UpdateDelivery J) → Prop
  | nil : Settled L₀ L [] []
  | kept {d : UpdateDelivery J} {ds ks} : d.payload.isSome → Settled L₀ L ds ks → Settled L₀ L (d :: ds) (d :: ks)
  | gone {d : UpdateDelivery J} {ds ks} : L.Gone d.messageId → Settled L₀ L ds ks → Settled L₀ L (d :: ds) ks
  | reread {d e : UpdateDelivery J} {ds ks} : e.toReservation = d.toReservation → e.messageId = d.messageId →
      Settled L₀ L ds ks → Settled L₀ L (d :: ds) (e :: ks)
  | replaced {d e : UpdateDelivery J} {ds ks} : L.Gone d.messageId →
      L₀.tables.deliveries.nextMessageId ≤ e.messageId → Settled L₀ L ds ks → Settled L₀ L (d :: ds) (e :: ks)

variable {ds ks : List (UpdateDelivery J)} {L₀ L L' : Ledger J}

theorem Settled.grow (hg : Grows L L') (h : Settled L₀ L ds ks) : Settled L₀ L' ds ks := by
  induction h with
  | nil => exact .nil
  | kept hp _ ih => exact .kept hp ih
  | gone hd _ ih => exact .gone (hg.gone _ hd) ih
  | reread hr hid _ ih => exact .reread hr hid ih
  | replaced hd hid _ ih => exact .replaced (hg.gone _ hd) hid ih

variable {L₀ L : Ledger J}

theorem Settled.mem (h : Settled L₀ L ds ks) {x : UpdateDelivery J} (hx : x ∈ ds) :
    L.Gone x.messageId ∨ ∃ k ∈ ks, k.toReservation = x.toReservation ∧ k.messageId = x.messageId := by
  have later : ∀ {k : UpdateDelivery J} {ks : List (UpdateDelivery J)}, (L.Gone x.messageId ∨
      ∃ k ∈ ks, k.toReservation = x.toReservation ∧ k.messageId = x.messageId) → L.Gone x.messageId ∨
      ∃ k' ∈ k :: ks, k'.toReservation = x.toReservation ∧ k'.messageId = x.messageId := fun h =>
    h.imp id (fun ⟨k, hk, hid⟩ => ⟨k, mem_cons_of_mem _ hk, hid⟩)
  induction h with
  | nil => cases hx
  | kept hp _ ih =>
    rcases mem_cons.1 hx with rfl | hx
    · exact Or.inr ⟨x, mem_cons_self, rfl, rfl⟩
    · exact later (ih hx)
  | gone hd _ ih =>
    rcases mem_cons.1 hx with rfl | hx
    · exact Or.inl hd
    · exact ih hx
  | reread hr hid _ ih =>
    rcases mem_cons.1 hx with rfl | hx
    · exact Or.inr ⟨_, mem_cons_self, hr, hid⟩
    · exact later (ih hx)
  | replaced hd hid _ ih =>
    rcases mem_cons.1 hx with rfl | hx
    · exact Or.inl hd
    · exact later (ih hx)

theorem Settled.origin (h : Settled L₀ L ds ks) {k : UpdateDelivery J} (hk : k ∈ ks) :
    (∃ d ∈ ds, k.toReservation = d.toReservation ∧ k.messageId = d.messageId) ∨
      L₀.tables.deliveries.nextMessageId ≤ k.messageId := by
  have later : ∀ {d : UpdateDelivery J} {ds : List (UpdateDelivery J)}, ((∃ d ∈ ds, k.toReservation = d.toReservation ∧
      k.messageId = d.messageId) ∨ L₀.tables.deliveries.nextMessageId ≤ k.messageId) →
      (∃ d' ∈ d :: ds, k.toReservation = d'.toReservation ∧ k.messageId = d'.messageId) ∨
      L₀.tables.deliveries.nextMessageId ≤ k.messageId := fun h =>
    h.imp (fun ⟨d, hd, hid⟩ => ⟨d, mem_cons_of_mem _ hd, hid⟩) id
  induction h with
  | nil => cases hk
  | kept hp _ ih =>
    rcases mem_cons.1 hk with rfl | hk
    · exact Or.inl ⟨k, mem_cons_self, rfl, rfl⟩
    · exact later (ih hk)
  | gone hd _ ih => exact later (ih hk)
  | reread hr hid _ ih =>
    rcases mem_cons.1 hk with rfl | hk
    · exact Or.inl ⟨_, mem_cons_self, hr, hid⟩
    · exact later (ih hk)
  | replaced hd hid _ ih =>
    rcases mem_cons.1 hk with rfl | hk
    · exact Or.inr hid
    · exact later (ih hk)

theorem Settled.split {k₁ k₂ : List (UpdateDelivery J)} : ∀ {ds : List (UpdateDelivery J)},
    Settled L₀ L ds (k₁ ++ k₂) → ∃ ds₁ ds₂, ds = ds₁ ++ ds₂ ∧ Settled L₀ L ds₁ k₁ ∧ Settled L₀ L ds₂ k₂ := by
  intro ds h
  generalize hks : k₁ ++ k₂ = ks at h
  induction h generalizing k₁ with
  | nil =>
    obtain ⟨rfl, rfl⟩ := append_eq_nil_iff.1 hks
    exact ⟨[], [], rfl, .nil, .nil⟩
  | gone hd _ ih =>
    obtain ⟨ds₁, ds₂, rfl, h₁, h₂⟩ := ih hks
    exact ⟨_ :: ds₁, ds₂, rfl, .gone hd h₁, h₂⟩
  | kept hp htail ih =>
    rcases append_eq_cons_iff.1 hks with ⟨rfl, rfl⟩ | ⟨k₁, rfl, hrest⟩
    · exact ⟨[], _, rfl, .nil, .kept hp htail⟩
    · obtain ⟨ds₁, ds₂, rfl, h₁, h₂⟩ := ih hrest.symm
      exact ⟨_ :: ds₁, ds₂, rfl, .kept hp h₁, h₂⟩
  | reread hr hid htail ih =>
    rcases append_eq_cons_iff.1 hks with ⟨rfl, rfl⟩ | ⟨k₁, rfl, hrest⟩
    · exact ⟨[], _, rfl, .nil, .reread hr hid htail⟩
    · obtain ⟨ds₁, ds₂, rfl, h₁, h₂⟩ := ih hrest.symm
      exact ⟨_ :: ds₁, ds₂, rfl, .reread hr hid h₁, h₂⟩
  | replaced hd hid htail ih =>
    rcases append_eq_cons_iff.1 hks with ⟨rfl, rfl⟩ | ⟨k₁, rfl, hrest⟩
    · exact ⟨[], _, rfl, .nil, .replaced hd hid htail⟩
    · obtain ⟨ds₁, ds₂, rfl, h₁, h₂⟩ := ih hrest.symm
      exact ⟨_ :: ds₁, ds₂, rfl, .replaced hd hid h₁, h₂⟩

theorem settled_of_complete (L₀ L : Ledger J) : ∀ {ds : List (UpdateDelivery J)},
    ds.any (fun d => d.payload.isNone) = false → Settled L₀ L ds ds
  | [],      _ => .nil
  | d :: ds, h => by
    simp only [any_cons, Bool.or_eq_false_iff, Option.isNone_eq_false_iff] at h
    exact .kept h.1 (settled_of_complete L₀ L h.2)

def Kept (L₀ L : Ledger J) (ds ks : List (UpdateDelivery J)) : Prop := Settled L₀ L ds ks ∧ ∀ e ∈ ks, L.Genuine e

theorem Kept.grow (hg : Grows L L') (h : Kept L₀ L ds ks) :
    Kept L₀ L' ds ks := ⟨h.1.grow hg, fun e he => (h.2 e he).grow hg⟩

/-- What `_withoutAbandonedDeliveries` keeps of the rows of a window, by the answers of the calls after it. -/
def settle : List (UpdateDelivery J) → Calls J → List (UpdateDelivery J)
  | [],      _     => []
  | d :: ds, calls =>
    match d.payload, calls with
    | some _, calls => d :: settle ds calls
    | none,   ⟨.discardAbandonedUpdateDelivery _, _, true⟩ :: calls => settle ds calls
    | none,   ⟨.discardAbandonedUpdateDelivery _, _, false⟩ :: ⟨.getUpdateDelivery _, _, row⟩ :: calls =>
      row.toList ++ settle ds calls
    | none,   _ => []

theorem settle_of_complete : ∀ {ds : List (UpdateDelivery J)}, ds.any (fun d => d.payload.isNone) = false →
    ∀ calls, settle ds calls = ds
  | [],      _, _ => rfl
  | d :: ds, h, calls => by
    simp only [any_cons, Bool.or_eq_false_iff, Option.isNone_eq_false_iff] at h
    obtain ⟨p, hp⟩ := Option.isSome_iff_exists.1 h.1
    simp [settle, hp, settle_of_complete h.2 calls]

/-- The calls after `h` settle the rows `ds` to `ks`, whatever is called next. -/
def Settles (h h' : Calls J) (ds ks : List (UpdateDelivery J)) : Prop :=
  ∃ added, h' = h ++ added ∧ ∀ more, settle ds (added ++ more) = ks

variable {rely : Ledger J → Ledger J → Prop} {L L' : Ledger J}

theorem Interference.wellFormed (hI : Interference rely) (h : rely L L') : L'.WellFormed :=
  (hI.moves h).1

theorem Interference.grows (hI : Interference rely) (h : rely L L') : Grows L L' := (hI.moves h).2

theorem Interference.afterCall (hI : Interference rely) {L L₁ L₂ : Ledger J} {e : UpdateRead} {ms : Int} {a : e.Answer J}
    (h : rely L L₁) (he : Ledger.exec e ms L₁ = some (L₂, a)) : rely L L₂ :=
  hI.isRely.trans h (hI.called (hI.isRely.stay h) he)

theorem Interference.safe_moved (hI : Interference rely) {α : Type} (p : Reading J α) (h : Calls J) (L : Ledger J) :
    Safe exec rely (fun _ _ L' => rely L L') p h L := by
  have hcalls : ∀ e ms L L' a, rely L L → exec e ms L = some (L', a) → rely L L' :=
    fun _ _ _ _ _ hs he => hI.called hs he
  exact Programs.safe_moved hI.isRely hcalls p h L

/-! ## The calls of a program -/

def settling : UpdateRead → Prop
  | .getUpdateDelivery _              => True
  | .discardAbandonedUpdateDelivery _ => True
  | .now                              => True
  | _                                 => False

def building : UpdateRead → Prop
  | .getUpdateDeliveriesAfter _ _ _ (some _)  => True
  | .getChannelUpdateDeliveriesSince _ _ _    => True
  | .markUpdatePublished _                    => True
  | _                                         => False

theorem only_keepUnabandoned : ∀ ds : List (UpdateDelivery J), (keepUnabandoned ds).Only settling
  | []      => trivial
  | d :: ds => by
    simp only [keepUnabandoned]
    split
    · refine Prog.Only.bind (fun _ => ?_) (only_keepUnabandoned ds)
      trivial
    · refine ⟨trivial, fun discarded => ?_⟩
      cases discarded with
      | true => exact only_keepUnabandoned ds
      | false =>
        refine ⟨trivial, fun settled => ?_⟩
        change Prog.Only settling ((keepUnabandoned ds).bind _)
        refine Prog.Only.bind (fun _ => ?_) (only_keepUnabandoned ds)
        trivial

theorem only_withoutAbandoned (ds : List (UpdateDelivery J)) : (_withoutAbandonedDeliveries ds).Only settling := by
  unfold _withoutAbandonedDeliveries
  split
  · exact only_keepUnabandoned ds
  · exact trivial

theorem only_pollPendingDelivery (k : String) (deadline : Int) : ∀ n : Nat,
    (pollPendingDelivery (J := J) k deadline n).Only settling
  | 0     => trivial
  | n + 1 => by
    refine ⟨trivial, fun (now : Int) => ?_⟩
    change Prog.Only settling (if now < deadline then _ else _)
    split
    · refine ⟨trivial, fun current => ?_⟩
      cases current with
      | none => exact trivial
      | some d =>
        change Prog.Only settling (if d.payload.isSome then _ else _)
        split
        · exact trivial
        · exact only_pollPendingDelivery k deadline n
    · exact trivial

theorem only_awaitPendingDelivery (d : UpdateDelivery J) : (_awaitPendingDelivery d).Only settling :=
  ⟨trivial, fun _ => only_pollPendingDelivery _ _ _⟩

theorem only_markPublished : ∀ ds : List (UpdateDelivery J), (markPublished ds).Only building
  | []      => trivial
  | _ :: ds => ⟨trivial, fun _ => only_markPublished ds⟩

theorem only_mirrorNewest (codec : TlCodec J T) (s : String) (mirrored : List UpdateScope) :
    ∀ (scopes : List ChannelScopeUpdate) (content : DifferenceContent T),
    (mirrorNewest codec s mirrored scopes content).Only building
  | [],              _ => trivial
  | scope :: scopes, content => by
    simp only [mirrorNewest]
    split
    · exact only_mirrorNewest codec s mirrored scopes content
    · split
      · exact only_mirrorNewest codec s mirrored scopes content
      · exact ⟨trivial, fun _ => only_mirrorNewest codec s mirrored scopes _⟩

variable {L₀ : Ledger J}

/-- **What `_withoutAbandonedDeliveries` makes of the rows of a window.** -/
theorem safe_keepUnabandoned (hI : Interference rely) (hL₀ : L₀.WellFormed) :
    ∀ (ds : List (UpdateDelivery J)) (h : Calls J) (L : Ledger J), (∀ d ∈ ds, d ∈ L₀.tables.deliveries.rows) →
    rely L₀ L →
    Safe exec rely (fun h' ks L' => rely L₀ L' ∧ Kept L₀ L' ds ks ∧ Settles h h' ds ks) (keepUnabandoned ds) h L
  | [], h, L, _, hL => fun L' hL' =>
    ⟨hI.isRely.trans hL hL', ⟨.nil, fun e he => absurd he not_mem_nil⟩,
      [], (append_nil h).symm, fun _ => rfl⟩
  | d :: ds, h, L, hrows, hL => by
    have hd : d ∈ L₀.tables.deliveries.rows := hrows d mem_cons_self
    have hds : ∀ x ∈ ds, x ∈ L₀.tables.deliveries.rows := fun x hx => hrows x (mem_cons_of_mem _ hx)
    -- the deliveries after `d`, behind what the calls `front` keep of `d`
    have rest : ∀ (front : Calls J) (kept : List (UpdateDelivery J)) (L : Ledger J), rely L₀ L →
        (∀ calls, settle (d :: ds) (front ++ calls) = kept ++ settle ds calls) →
        (∀ L' ks, rely L L' → Kept L₀ L' ds ks → Kept L₀ L' (d :: ds) (kept ++ ks)) →
        Safe exec rely (fun h' ks L' => rely L₀ L' ∧ Kept L₀ L' (d :: ds) ks ∧ Settles h h' (d :: ds) ks)
          ((keepUnabandoned ds).bind (fun ks => .done (kept ++ ks))) (h ++ front) L := by
      intro front kept L hL hsettle hfront
      refine Safe.bind hI.isRely (Safe.mono ?_ (Safe.and (safe_keepUnabandoned hI hL₀ ds (h ++ front) L hds hL)
        (hI.safe_moved (keepUnabandoned ds) (h ++ front) L)))
      rintro h' ks L' ⟨⟨hL', hks, added, rfl, hadded⟩, hLL'⟩ L'' hmove
      refine ⟨hI.isRely.trans hL' hmove, hfront L'' ks (hI.isRely.trans hLL' hmove) (hks.grow (hI.grows hmove)),
        front ++ added, append_assoc _ _ _, fun more => ?_⟩
      rw [append_assoc, hsettle, hadded]
    simp only [keepUnabandoned]
    split
    · rename_i p hp
      have hstep := rest [] [d] L hL (fun calls => by simp [settle, hp]) (fun L' ks hL' hks =>
        ⟨.kept (by simp [hp]) hks.1, fun e he => by
          rcases mem_cons.1 he with rfl | he
          · exact (hL₀.genuine hd).grow (hI.grows (hI.isRely.trans hL hL'))
          · exact hks.2 e he⟩)
      rw [append_nil] at hstep
      exact hstep
    · rename_i hp
      intro L₁ hL₁ ms L₂ discarded hdis
      have hL₂ : rely L₀ L₂ := hI.afterCall (hI.isRely.trans hL hL₁) hdis
      cases discarded with
      | true =>
        have hgone : L₂.Gone d.messageId := gone_of_key (hI.wellFormed hL₂) (hI.grows hL₂) hL₀ hd
          (fun e he hkey _ => exec_discard_true hdis e he hkey)
        refine Safe.mono ?_ (Safe.and (safe_keepUnabandoned hI hL₀ ds _ L₂ hds hL₂) (hI.safe_moved _ _ L₂))
        rintro h' ks L' ⟨⟨hL', hks, added, rfl, hadded⟩, hmove⟩
        refine ⟨hL', ⟨.gone ((hI.grows hmove).gone _ hgone) hks.1, hks.2⟩,
          ⟨.discardAbandonedUpdateDelivery d.eventKey, L₁, true⟩ :: added, by simp, fun more => ?_⟩
        simp [settle, hp, hadded]
      | false =>
        intro L₃ hL₃ ms' L₄ settled hget
        obtain ⟨rfl, rfl⟩ := exec_getUpdateDelivery hget
        have hL₄ : rely L₀ L₄ := hI.isRely.trans hL₂ hL₃
        have hwf := hI.wellFormed hL₄
        have hstep := rest [⟨.discardAbandonedUpdateDelivery d.eventKey, L₁, false⟩,
          ⟨.getUpdateDelivery d.eventKey, L₄, L₄.tables.deliveries.get d.eventKey⟩]
          (L₄.tables.deliveries.get d.eventKey).toList L₄ hL₄ (fun calls => by simp [settle, hp]) ?_
        · rw [append_cons] at hstep
          exact hstep
        intro L' ks hL' hks
        have hg := hI.grows hL'
        cases hk : L₄.tables.deliveries.get d.eventKey with
        | none =>
          have hgone : L₄.Gone d.messageId := gone_of_key hwf (hI.grows hL₄) hL₀ hd
            (fun e he hkey _ => UpdateLog.get_eq_none.1 hk e he hkey)
          exact ⟨.gone (hg.gone _ hgone) hks.1, hks.2⟩
        | some e =>
          obtain ⟨hmem, hkey⟩ := UpdateLog.mem_of_get hk
          have hgenuine : ∀ x ∈ e :: ks, L'.Genuine x := fun x hx => by
            rcases mem_cons.1 hx with rfl | hx
            · exact (hwf.genuine hmem).grow hg
            · exact hks.2 x hx
          rcases younger_of_key hwf (hI.grows hL₄) hL₀ hd hmem hkey with ⟨hres, hid⟩ | ⟨hid, hyoung⟩
          · exact ⟨.reread hres hid hks.1, hgenuine⟩
          · have hgone : L₄.Gone d.messageId := gone_of_key hwf (hI.grows hL₄) hL₀ hd (fun x hx hxk hxid => by
              have := UpdateLog.get_of_mem hx
              rw [hxk, hk] at this
              cases this
              exact hid hxid)
            exact ⟨.replaced (hg.gone _ hgone) hyoung hks.1, hgenuine⟩

variable {L : Ledger J} {h : Calls J}

theorem safe_withoutAbandoned (hI : Interference rely) (hL₀ : L₀.WellFormed)
    {ds : List (UpdateDelivery J)} (hrows : ∀ d ∈ ds, d ∈ L₀.tables.deliveries.rows) (hL : rely L₀ L) :
    Safe exec rely (fun h' ks L' => rely L₀ L' ∧ Kept L₀ L' ds ks ∧ Settles h h' ds ks)
      (_withoutAbandonedDeliveries ds) h L := by
  unfold _withoutAbandonedDeliveries
  split
  · exact safe_keepUnabandoned hI hL₀ ds h L hrows hL
  · rename_i hall
    have hall : ds.any (fun d => d.payload.isNone) = false := by simpa using hall
    refine fun L' hL' => ⟨hI.isRely.trans hL hL', ⟨settled_of_complete L₀ L' hall, fun e he => ?_⟩,
      [], (append_nil h).symm, settle_of_complete hall⟩
    exact (hL₀.genuine (hrows e he)).grow (hI.grows (hI.isRely.trans hL hL'))

/-! ## Observations -/

/-- The rows a call read in the account (`none`) or in a channel, with the ledger it read them from. -/
def windowRead (c : Option Nat) (r : Performed (Ledger J) UpdateRead (UpdateRead.Answer J)) :
    Option (Ledger J × List (UpdateDelivery J)) :=
  match r with
  | ⟨.getUpdateDeliveriesAfter _ _ _ c', L, window⟩ => if c' = c then some (L, window) else none
  | _                                              => none

def rowsRead (c : Option Nat) : Calls J → Option (Ledger J × List (UpdateDelivery J) × List (UpdateDelivery J))
  | []         => none
  | r :: calls =>
    match rowsRead c calls with
    | some read => some read
    | none      => (windowRead c r).map (fun read => (read.1, read.2, settle read.2 calls))

def stateRead (r : Performed (Ledger J) UpdateRead (UpdateRead.Answer J)) : Option (Ledger J × UpdateStateRow) :=
  match r with
  | ⟨.getUpdateState _, L, state⟩ => some (L, state)
  | _                             => none

def scopesRead (r : Performed (Ledger J) UpdateRead (UpdateRead.Answer J)) :
    Option (Ledger J × List ChannelScopeUpdate) :=
  match r with
  | ⟨.getChangedChannelScopes _ _, L, scopes⟩ => some (L, scopes)
  | _                                         => none

theorem settling_unobserved (c : Option Nat) (r : Performed (Ledger J) UpdateRead (UpdateRead.Answer J))
    (h : settling r.effect) : windowRead c r = none ∧ stateRead r = none ∧ scopesRead r = none := by
  obtain ⟨e, L, a⟩ := r
  cases e <;> first | exact ⟨rfl, rfl, rfl⟩ | exact h.elim

theorem building_unobserved (r : Performed (Ledger J) UpdateRead (UpdateRead.Answer J)) (h : building r.effect) :
    windowRead none r = none ∧ stateRead r = none ∧ scopesRead r = none := by
  obtain ⟨e, L, a⟩ := r
  cases e with
  | getUpdateDeliveriesAfter s p n c =>
    cases c with
    | none => exact h.elim
    | some c => exact ⟨rfl, rfl, rfl⟩
  | _ => first | exact ⟨rfl, rfl, rfl⟩ | exact h.elim

def Reads (c : Option Nat) (h : Calls J) (L : Ledger J) (window ks : List (UpdateDelivery J)) : Prop :=
  ∃ h₀ r calls, h = h₀ ++ r :: calls ∧ windowRead c r = some (L, window) ∧ (∀ x ∈ calls, windowRead c x = none) ∧
    ∀ more, settle window (calls ++ more) = ks

variable {c : Option Nat}

theorem rowsRead_eq_none : ∀ {calls : Calls J}, (∀ x ∈ calls, windowRead c x = none) →
    rowsRead c calls = none
  | [],         _ => rfl
  | r :: calls, h => by
    rw [rowsRead, rowsRead_eq_none (fun x hx => h x (mem_cons_of_mem _ hx)), h r mem_cons_self]
    rfl

theorem Reads.rowsRead_eq {window ks : List (UpdateDelivery J)}
    (hr : Reads c h L window ks) : rowsRead c h = some (L, window, ks) := by
  obtain ⟨h₀, r, calls, rfl, hwindow, hcalls, hsettle⟩ := hr
  have hsettled : settle window calls = ks := by
    rw [← hsettle [], append_nil]
  induction h₀ with
  | nil => simp [rowsRead, rowsRead_eq_none hcalls, hwindow, hsettled]
  | cons x h₀ ih => rw [cons_append, rowsRead, ih]

theorem Reads.extends {h h' : Calls J} {window ks : List (UpdateDelivery J)}
    (hr : Reads c h L window ks) {ok : UpdateRead → Prop} (hext : Extends ok h h')
    (hok : ∀ x : Performed (Ledger J) UpdateRead (UpdateRead.Answer J), ok x.effect → windowRead c x = none) :
    Reads c h' L window ks := by
  obtain ⟨h₀, r, calls, rfl, hwindow, hcalls, hsettle⟩ := hr
  obtain ⟨added, rfl, hadded⟩ := hext
  refine ⟨h₀, r, calls ++ added, by simp, hwindow, fun x hx => ?_, fun more => ?_⟩
  · rcases mem_append.1 hx with hx | hx
    · exact hcalls x hx
    · exact hok x (hadded x hx)
  · rw [append_assoc]
    exact hsettle _

structure Seen (h : Calls J) (states : List (Ledger J × UpdateStateRow))
    (scopes : List (Ledger J × List ChannelScopeUpdate)) : Prop where
  states : h.filterMap stateRead = states
  scopes : h.filterMap scopesRead = scopes

section Observed

variable {states : List (Ledger J × UpdateStateRow)} {scopes : List (Ledger J × List ChannelScopeUpdate)}
  {h h' : Calls J}

theorem Seen.settle (hs : Seen h states scopes) (hext : Extends settling h h') : Seen h' states scopes :=
  ⟨(hext.filterMap_eq (fun r hr => (settling_unobserved none r hr).2.1)).trans hs.states,
    (hext.filterMap_eq (fun r hr => (settling_unobserved none r hr).2.2)).trans hs.scopes⟩

theorem Seen.build (hs : Seen h states scopes) (hext : Extends building h h') : Seen h' states scopes :=
  ⟨(hext.filterMap_eq (fun r hr => (building_unobserved r hr).2.1)).trans hs.states,
    (hext.filterMap_eq (fun r hr => (building_unobserved r hr).2.2)).trans hs.scopes⟩

theorem Seen.window (hs : Seen h states scopes) (s : String) (p : Int) (n : Nat) (c : Option Nat) (L : Ledger J)
    (window : List (UpdateDelivery J)) :
    Seen (h ++ [⟨.getUpdateDeliveriesAfter s p n c, L, window⟩]) states scopes :=
  ⟨by rw [filterMap_append, hs.states]; simp [stateRead],
    by rw [filterMap_append, hs.scopes]; simp [scopesRead]⟩

theorem Seen.scope (hs : Seen h states scopes) (s : String) (date : Int) (L : Ledger J)
    (read : List ChannelScopeUpdate) :
    Seen (h ++ [⟨.getChangedChannelScopes s date, L, read⟩]) states (scopes ++ [(L, read)]) :=
  ⟨by rw [filterMap_append, hs.states]; simp [stateRead],
    by rw [filterMap_append, hs.scopes]; simp [scopesRead]⟩

end Observed

/-! ## The deliveries a reader keeps -/

/-- A window of a scope's rows was read in `L₀` and settled to `ks` by `L`. -/
structure ReadRows (rely : Ledger J → Ledger J → Prop) (s : String) (p : Int) (c : Option Nat) (h : Calls J)
    (L₀ L : Ledger J) (window ks : List (UpdateDelivery J)) : Prop where
  moved : rely L₀ L
  read : window = L₀.tables.getUpdateDeliveriesAfter s p 101 c
  kept : Kept L₀ L window ks
  reads : Reads c h L₀ window ks

theorem ReadRows.grow (hI : Interference rely) {s : String} {p : Int}
    {window ks : List (UpdateDelivery J)} (hr : ReadRows rely s p c h L₀ L window ks) (hmove : rely L L') :
    ReadRows rely s p c h L₀ L' window ks :=
  ⟨hI.isRely.trans hr.moved hmove, hr.read, hr.kept.grow (hI.grows hmove), hr.reads⟩

/-- **Reading a window and settling it.** -/
theorem safe_readUnabandoned (hI : Interference rely) (s : String) (p : Int) (c : Option Nat) :
    Safe exec rely (fun h' ks L' => ∃ L₀ window, rely L L₀ ∧ ReadRows rely s p c h' L₀ L' window ks ∧
        Extends settling (h ++ [⟨.getUpdateDeliveriesAfter s p 101 c, L₀, window⟩]) h')
      (readUnabandoned s p 101 c) h L := by
  intro L₁ hL₁ ms L₂ window hread
  obtain ⟨rfl, rfl⟩ := exec_getUpdateDeliveriesAfter hread
  refine Safe.mono ?_ (Safe.and (safe_withoutAbandoned hI (hI.wellFormed hL₁)
    (fun d hd => (UpdateLog.mem_getAfter _ hd).1) (hI.isRely.stay hL₁)) (safe_extends (only_withoutAbandoned _)))
  rintro h' ks L' ⟨⟨hmove, hkept, added, rfl, hadded⟩, hext⟩
  refine ⟨L₂, _, hL₁, ⟨hmove, rfl, hkept, ?_⟩, hext⟩
  obtain ⟨added', happ, hok⟩ := hext
  obtain rfl := append_cancel_left happ
  refine ⟨h, ⟨.getUpdateDeliveriesAfter s p 101 c, L₂, L₂.tables.getUpdateDeliveriesAfter s p 101 c⟩, added, by simp,
    by simp [windowRead], fun x hx => (settling_unobserved c x (hok x hx)).1, hadded⟩

/-- **The deliveries `getDifference` goes on with** are the settled rows of the last window it read. -/
theorem safe_readDeliveries (hI : Interference rely) (s : String) (request : GetDifferenceRequest)
    {states scopes} (hs : Seen h states scopes) :
    Safe exec rely (fun h' ks L' => ∃ L₀ window, rely L L₀ ∧ ReadRows rely s request.pts none h' L₀ L' window ks ∧
        Seen h' states scopes)
      (readDeliveries s request) h L := by
  refine Safe.bind hI.isRely (Safe.mono ?_ (safe_readUnabandoned hI s request.pts none))
  rintro h₁ ks L₁ ⟨L₀, window, hL₀, hread, hext⟩
  have hs₁ := (hs.window s request.pts 101 none L₀ window).settle hext
  cases ks with
  | nil => exact fun L' hL' => ⟨L₀, window, hL₀, hread.grow hI hL', hs₁⟩
  | cons head rest =>
    simp only
    split
    · exact fun L' hL' => ⟨L₀, window, hL₀, hread.grow hI hL', hs₁⟩
    · -- the head is waited for, and the window read again
      refine Safe.bind hI.isRely (Safe.mono ?_ (Safe.and (hI.safe_moved (_awaitPendingDelivery head) h₁ L₁)
        (safe_extends (only_awaitPendingDelivery head))))
      rintro h₂ _ L₂ ⟨hL₂, hext₂⟩
      have hs₂ := hs₁.settle hext₂
      refine Safe.mono ?_ (safe_readUnabandoned hI s request.pts none)
      rintro h₃ ks L₃ ⟨L₀', window', hL₀', hread', hext₃⟩
      have hLL := hI.isRely.trans (hI.isRely.trans (hI.isRely.trans hL₀ hread.moved) hL₂) hL₀'
      exact ⟨L₀', window', hLL, hread', (hs₂.window s request.pts 101 none L₀' window').settle hext₃⟩

/-! ## The content of a response -/

def DifferenceContent.Brings (content : DifferenceContent T) (u : TlUpdate T) : Prop :=
  match u.newMessage with
  | some message => message ∈ content.newMessages
  | none         => u ∈ content.otherUpdates

/-- Nothing `content` brings is lost in `content'`. -/
def DifferenceContent.Within (content content' : DifferenceContent T) : Prop :=
  (∀ m ∈ content.newMessages, m ∈ content'.newMessages) ∧ ∀ u ∈ content.otherUpdates, u ∈ content'.otherUpdates

theorem DifferenceContent.Brings.within {content content' : DifferenceContent T} {u : TlUpdate T}
    (h : content.Brings u) (hw : content.Within content') : content'.Brings u := by
  unfold DifferenceContent.Brings at *
  split
  · rename_i m hm
    rw [hm] at h
    exact hw.1 m h
  · rename_i hm
    rw [hm] at h
    exact hw.2 u h

theorem DifferenceContent.Within.trans {a b c : DifferenceContent T} (h : a.Within b) (h' : b.Within c) : a.Within c :=
  ⟨fun m hm => h'.1 m (h.1 m hm), fun u hu => h'.2 u (h.2 u hu)⟩

theorem within_addDelivery (codec : TlCodec J T) (content : DifferenceContent T) (json : J) :
    content.Within (addDelivery codec content json) :=
  ⟨fun _ hm => mem_append_left _ hm, fun _ hu => mem_append_left _ hu⟩

theorem within_mergeChannelPayload (codec : TlCodec J T) (content : DifferenceContent T) (json : J) :
    content.Within (mergeChannelPayload codec content json) :=
  ⟨fun _ hm => mem_append_left _ hm, fun _ hu => hu⟩

theorem brings_addDelivery (codec : TlCodec J T) (content : DifferenceContent T) (json : J) {u : TlUpdate T}
    (hu : u ∈ (codec.updateFromJson json).updates) : (addDelivery codec content json).Brings u := by
  unfold DifferenceContent.Brings
  split
  · rename_i m hm
    exact mem_append_right _ (mem_filterMap.2 ⟨u, hu, hm⟩)
  · rename_i hm
    exact mem_append_right _ (mem_filter.2 ⟨hu, by simp [hm]⟩)

theorem within_foldl {add : DifferenceContent T → J → DifferenceContent T}
    (hadd : ∀ (content : DifferenceContent T) (json : J), content.Within (add content json)) : ∀ (jsons : List J) (content : DifferenceContent T),
    content.Within (jsons.foldl add content)
  | [],            _ => ⟨fun _ h => h, fun _ h => h⟩
  | json :: jsons, content => (hadd content json).trans (within_foldl hadd jsons _)

theorem brings_foldl_addDelivery (codec : TlCodec J T) : ∀ (jsons : List J) (content : DifferenceContent T),
    ∀ json ∈ jsons, ∀ u ∈ (codec.updateFromJson json).updates, (jsons.foldl (addDelivery codec) content).Brings u
  | [],            _,       json, hjson, _, _ => by cases hjson
  | x :: jsons, content, json, hjson, u, hu => by
    rcases mem_cons.1 hjson with rfl | hjson
    · exact (brings_addDelivery codec content json hu).within (within_foldl (within_addDelivery codec) jsons _)
    · exact brings_foldl_addDelivery codec jsons _ json hjson u hu

theorem safe_mirrorNewest (hI : Interference rely) (codec : TlCodec J T) (s : String) (mirrored : List UpdateScope) :
    ∀ (scopes : List ChannelScopeUpdate) (content : DifferenceContent T) (h : Calls J) (L : Ledger J),
    Safe exec rely (fun _ content' _ => content.Within content') (mirrorNewest codec s mirrored scopes content) h L
  | [],              content, h, L => fun _ _ => ⟨fun _ h => h, fun _ h => h⟩
  | scope :: scopes, content, h, L => by
    simp only [mirrorNewest]
    split
    · exact safe_mirrorNewest hI codec s mirrored scopes content h L
    · split
      · exact safe_mirrorNewest hI codec s mirrored scopes content h L
      · intro L₁ _ ms L₂ newest _
        refine Safe.mono (fun _ _ _ hw => ?_) (safe_mirrorNewest hI codec s mirrored scopes _ _ L₂)
        exact (within_foldl (within_mergeChannelPayload codec) _ content).trans hw

/-! ## getDifference -/

/-- What a call of `getDifference` has read: the state, a window and its settled rows, the changed scopes. -/
structure DifferenceCall (J : Type) where
  atState : Ledger J
  clock : Int
  state : UpdateStateRow
  atWindow : Ledger J
  window : List (UpdateDelivery J)
  deliveries : List (UpdateDelivery J)
  atScopes : Ledger J
  scopes : List ChannelScopeUpdate

def GetDifferenceRequest.limit (request : GetDifferenceRequest) : Int :=
  (request.ptsLimit <|> request.ptsTotalLimit).getD 100

def DifferenceCall.page (c : DifferenceCall J) (request : GetDifferenceRequest) : List (UpdateDelivery J) :=
  pageOf request.limit c.deliveries

def DifferenceCall.Answers (codec : TlCodec J T) (request : GetDifferenceRequest) (c : DifferenceCall J)
    (response : Difference T) : Prop :=
  (c.deliveries = [] ∧ c.scopes = [] ∧ request.pts = c.state.pts ∧
    response = .differenceEmpty c.state.date c.state.seq) ∨
  ∃ content, response = differenceOf request c.state c.deliveries (c.page request) content ∧
    (∀ json ∈ payloads (c.page request), ∀ u ∈ (codec.updateFromJson json).updates, content.Brings u) ∧
    ∀ u ∈ tooLongUpdates c.scopes, u ∈ content.otherUpdates

/-- **What a finished `getDifference` has seen**, in the order it read it, and how it answered. -/
structure SawDifference (rely : Ledger J → Ledger J → Prop) (codec : TlCodec J T) (s : String)
    (request : GetDifferenceRequest) (h : Calls J) (response : Difference T) (L : Ledger J) (c : DifferenceCall J) :
    Prop where
  state : c.state = c.atState.tables.getUpdateState s c.clock
  stateMoved : rely c.atState c.atWindow
  clocked : c.atState.tables.updateState s = none → (s, c.clock) ∈ c.atWindow.clockDates
  rows : ReadRows rely s request.pts none h c.atWindow c.atScopes c.window c.deliveries
  scopes : c.scopes = c.atScopes.tables.deliveries.getChangedChannelScopes s request.date
  scopesMoved : rely c.atScopes L
  seen : Seen h [(c.atState, c.state)] [(c.atScopes, c.scopes)]
  answers : c.Answers codec request response

theorem SawDifference.grow (hI : Interference rely) {codec : TlCodec J T} {s : String} {request : GetDifferenceRequest}
    {response : Difference T} {c : DifferenceCall J}
    (hsaw : SawDifference rely codec s request h response L c) (hmove : rely L L') :
    SawDifference rely codec s request h response L' c :=
  { hsaw with scopesMoved := hI.isRely.trans hsaw.scopesMoved hmove }

theorem safe_assembleDifference (hI : Interference rely) (codec : TlCodec J T) (s : String)
    (request : GetDifferenceRequest) (state : UpdateStateRow) (deliveries : List (UpdateDelivery J))
    (scopes : List ChannelScopeUpdate) :
    Safe exec rely (fun h' response L' => rely L L' ∧ Extends building h h' ∧
        ∃ content, response = differenceOf request state deliveries (pageOf request.limit deliveries) content ∧
          (∀ json ∈ payloads (pageOf request.limit deliveries), ∀ u ∈ (codec.updateFromJson json).updates,
            content.Brings u) ∧ ∀ u ∈ tooLongUpdates scopes, u ∈ content.otherUpdates)
      (assembleDifference codec s request state deliveries scopes) h L := by
  have honly : (assembleDifference codec s request state deliveries scopes).Only building := by
    refine ⟨trivial, fun since => ?_⟩
    change Prog.Only building ((mirrorNewest codec s _ scopes _).bind _)
    refine Prog.Only.bind (fun content => ?_) (only_mirrorNewest codec s _ scopes _)
    change Prog.Only building ((markPublished _).bind _)
    refine Prog.Only.bind (fun _ => ?_) (only_markPublished _)
    trivial
  refine Safe.mono (fun h' response L' hp => ⟨hp.1, hp.2.1, hp.2.2⟩)
    (Safe.and (hI.safe_moved _ h L) (Safe.and (safe_extends honly) ?_))
  refine Safe.perform_bind (fun L₁ _ ms L₂ since _ => ?_)
  refine Safe.bind hI.isRely (Safe.mono ?_ (safe_mirrorNewest hI codec s _ scopes _ _ L₂))
  rintro h₃ content L₃ hwithin
  refine Safe.bind hI.isRely (Safe.mono ?_ (hI.safe_moved (markPublished _) h₃ L₃))
  rintro h₄ _ L₄ _ L₅ _
  refine ⟨_, rfl, fun json hjson u hu => ?_, fun u hu => mem_append_right _ hu⟩
  have hown := brings_foldl_addDelivery codec (payloads (pageOf request.limit deliveries)) emptyContent json hjson u hu
  have hmirrored := (within_foldl (within_mergeChannelPayload codec) _ _).trans hwithin
  exact (hown.within hmirrored).within ⟨fun m hm => hm, fun u hu => mem_append_left _ hu⟩

/-- **The spec of `getDifference` under interference.** -/
theorem safe_getDifference (hI : Interference rely) (codec : TlCodec J T) (s : String) (request : GetDifferenceRequest)
    :
    Safe exec rely (fun h response L' => ∃ c, SawDifference rely codec s request h response L' c)
      (getDifference codec s request) [] L := by
  refine Safe.perform_bind (fun L₁ hL₁ ms L₂ state hst => ?_)
  obtain ⟨htables, rfl, hclock⟩ := exec_getUpdateState hst
  have hstep : rely L₁ L₂ := hI.called (hI.isRely.stay hL₁) hst
  have hs₀ : Seen [⟨.getUpdateState s, L₁, L₁.tables.getUpdateState s (ms / 1000)⟩]
      [(L₁, L₁.tables.getUpdateState s (ms / 1000))] [] := ⟨rfl, rfl⟩
  refine Safe.bind hI.isRely (Safe.mono ?_ (safe_readDeliveries hI s request hs₀))
  rintro h₃ ks L₃ ⟨L₀, window, hL₀, hrows, hs₃⟩
  refine Safe.perform_bind (fun L₄ hL₄ ms' L₅ scopes hscopes => ?_)
  obtain ⟨rfl, rfl⟩ := exec_getChangedChannelScopes hscopes
  have hs₄ := hs₃.scope s request.date L₅ (L₅.tables.deliveries.getChangedChannelScopes s request.date)
  have hrows₄ := hrows.grow hI hL₄
  have hclocked : L₁.tables.updateState s = none → (s, ms / 1000) ∈ L₀.clockDates := fun hnone =>
    (hI.grows hL₀).clockDates _ (hclock hnone)
  have hext₄ : Extends (fun e => ∃ s date, e = .getChangedChannelScopes s date) h₃ (h₃ ++
      [⟨.getChangedChannelScopes s request.date, L₅,
        L₅.tables.deliveries.getChangedChannelScopes s request.date⟩]) :=
    ⟨_, rfl, fun r hr => by rw [mem_singleton.1 hr]; exact ⟨_, _, rfl⟩⟩
  have hreads₄ := hrows₄.reads.extends hext₄ (fun r ⟨s, date, he⟩ => by
    obtain ⟨e, L, a⟩ := r
    obtain rfl : e = .getChangedChannelScopes s date := he
    rfl)
  split
  · rename_i hempty
    simp only [Bool.and_eq_true, List.isEmpty_iff, beq_iff_eq] at hempty
    intro L₆ hL₆
    exact ⟨⟨L₁, ms / 1000, _, L₀, window, ks, L₅, _⟩, rfl, hI.isRely.trans hstep hL₀, hclocked,
      { hrows₄ with reads := hreads₄ }, rfl, hL₆, hs₄, Or.inl ⟨hempty.1.1, hempty.1.2, hempty.2, rfl⟩⟩
  · refine Safe.mono ?_ (safe_assembleDifference hI codec s request _ ks _)
    rintro h₆ response L₆ ⟨hL₆, hext, hcontent⟩
    exact ⟨⟨L₁, ms / 1000, _, L₀, window, ks, L₅, _⟩, rfl, hI.isRely.trans hstep hL₀, hclocked,
      { hrows₄ with reads := hreads₄.extends hext (fun x hx => (building_unobserved x hx).1) }, rfl, hL₆,
      hs₄.build hext, Or.inr hcontent⟩

/-! ## getChannelDifference -/

def latestRead (r : Performed (Ledger J) UpdateRead (UpdateRead.Answer J)) : Option Int :=
  match r with
  | ⟨.getChannelUpdateStateRow _ _, _, row⟩ => row.map ChannelUpdateStateRow.pts
  | ⟨.getUpdateState _, _, state⟩           => some state.pts
  | _                                       => none

theorem settling_not_latest (r : Performed (Ledger J) UpdateRead (UpdateRead.Answer J)) (h : settling r.effect) :
    latestRead r = none := by
  obtain ⟨e, L, a⟩ := r
  cases e <;> first | rfl | exact h.elim

def marking : UpdateRead → Prop
  | .markUpdatePublished _ => True
  | _                      => False

theorem marking_unobserved (c : Option Nat) (r : Performed (Ledger J) UpdateRead (UpdateRead.Answer J))
    (h : marking r.effect) : windowRead c r = none ∧ latestRead r = none := by
  obtain ⟨e, L, a⟩ := r
  cases e <;> first | exact ⟨rfl, rfl⟩ | exact h.elim

theorem only_markPublished_marking : ∀ ds : List (UpdateDelivery J), (markPublished ds).Only marking
  | []      => trivial
  | _ :: ds => ⟨trivial, fun _ => only_markPublished_marking ds⟩

/-- What a call of `getChannelDifference` has read: the channel's pts, and a window with its settled rows. -/
structure ChannelCall (J : Type) where
  channelId : Nat
  latest : Int
  atWindow : Ledger J
  window : List (UpdateDelivery J)
  deliveries : List (UpdateDelivery J)

def ChannelCall.page (c : ChannelCall J) (request : GetChannelDifferenceRequest) : List (UpdateDelivery J) :=
  pageOf request.limit c.deliveries

/-- How a response follows from what was read, `buildTooLong` given. -/
inductive ChannelCall.Answers (codec : TlCodec J T) (request : GetChannelDifferenceRequest)
    (buildTooLong : Nat → Int → Option D) (c : ChannelCall J) : ChannelDifference J T D → Prop
  | tooLong (reset : D) : _channelResetReason request.pts c.latest c.deliveries ≠ none →
      Answers codec request buildTooLong c (.tooLong reset)
  | empty (timeout : Nat) :
      _channelResetReason request.pts c.latest c.deliveries = none ∨ buildTooLong c.channelId c.latest = none →
      c.deliveries = [] → Answers codec request buildTooLong c (.empty true c.latest timeout)
  | pending (timeout : Nat) :
      _channelResetReason request.pts c.latest c.deliveries = none ∨ buildTooLong c.channelId c.latest = none →
      (c.page request).getLast? = none → Answers codec request buildTooLong c (.empty true request.pts timeout)
  | difference (final : Bool) (timeout : Nat) (last : UpdateDelivery J) :
      _channelResetReason request.pts c.latest c.deliveries = none ∨ buildTooLong c.channelId c.latest = none →
      (c.page request).getLast? = some last →
      Answers codec request buildTooLong c (.difference final timeout last.pts
        ((payloads (c.page request)).foldl (addChannelDelivery codec) emptyContent) (c.page request))

/-- **What a finished `getChannelDifference` on a channel has seen**, and how it answered. -/
structure SawChannelDifference (rely : Ledger J → Ledger J → Prop) (codec : TlCodec J T) (s : String)
    (request : GetChannelDifferenceRequest) (buildTooLong : Nat → Int → Option D) (h : Calls J)
    (response : ChannelDifference J T D) (L : Ledger J) (c : ChannelCall J) : Prop where
  channel : request.channel = some c.channelId
  latest : h.filterMap latestRead = [c.latest]
  rows : ReadRows rely s request.pts (some c.channelId) h c.atWindow L c.window c.deliveries
  answers : c.Answers codec request buildTooLong response

theorem safe_getChannelUpdateState (s : String) (channelId : Nat) :
    Safe exec rely (fun h (row : ChannelUpdateStateRow) _ => h.filterMap latestRead = [row.pts])
      (getChannelUpdateState s channelId) [] L := by
  refine Safe.perform_bind (fun L₁ _ ms L₂ row hrow => ?_)
  cases row with
  | some row => exact fun _ _ => rfl
  | none => exact fun L₃ _ ms' L₄ state _ L₅ _ => rfl

theorem safe_channelPage (hI : Interference rely) (codec : TlCodec J T) (s : String)
    (request : GetChannelDifferenceRequest) (buildTooLong : Nat → Int → Option D) {c : ChannelCall J}
    (hreset : _channelResetReason request.pts c.latest c.deliveries = none ∨
      buildTooLong c.channelId c.latest = none) (hchannel : request.channel = some c.channelId)
    (hlatest : h.filterMap latestRead = [c.latest])
    (hrows : ReadRows rely s request.pts (some c.channelId) h c.atWindow L c.window c.deliveries) :
    Safe exec rely (fun h' response L' => SawChannelDifference rely codec s request buildTooLong h' response L' c)
      (channelPage (D := D) codec request c.latest c.deliveries) h L := by
  unfold channelPage
  split
  · rename_i hempty
    exact fun L' hL' => ⟨hchannel, hlatest, hrows.grow hI hL', .empty _ hreset (by simpa using hempty)⟩
  · simp only
    split
    · rename_i hlast
      exact fun L' hL' => ⟨hchannel, hlatest, hrows.grow hI hL', .pending _ hreset hlast⟩
    · rename_i last hlast
      refine Safe.bind hI.isRely (Safe.mono ?_ (Safe.and (hI.safe_moved (markPublished _) h L)
        (safe_extends (only_markPublished_marking _))))
      rintro h' _ L' ⟨hmove, hext⟩ L'' hmove'
      have hgrown := (hrows.grow hI hmove).grow hI hmove'
      exact ⟨hchannel, (hext.filterMap_eq (fun r hr => (marking_unobserved none r hr).2)).trans hlatest,
        { hgrown with reads := hgrown.reads.extends hext (fun r hr => (marking_unobserved _ r hr).1) },
        .difference _ _ last hreset hlast⟩

/-- **The spec of `getChannelDifference` under interference.** -/
theorem safe_getChannelDifference (hI : Interference rely) (codec : TlCodec J T) (s : String)
    (request : GetChannelDifferenceRequest) (buildTooLong : Nat → Int → Option D) :
    Safe exec rely (fun h response L' => (request.channel = none ∧ response = .channelInvalid) ∨
        ∃ c, SawChannelDifference rely codec s request buildTooLong h response L' c)
      (getChannelDifference codec s request buildTooLong) [] L := by
  unfold getChannelDifference
  split
  · rename_i hchannel
    exact fun _ _ => Or.inl ⟨hchannel, rfl⟩
  · rename_i channelId hchannel
    refine Safe.bind hI.isRely (Safe.mono ?_ (safe_getChannelUpdateState s channelId))
    rintro h₁ state L₁ hlatest
    refine Safe.bind hI.isRely (Safe.mono ?_ (safe_readUnabandoned hI s request.pts (some channelId)))
    rintro h₂ ks L₂ ⟨L₀, window, hL₀, hrows, hext⟩
    have hlatest₂ : h₂.filterMap latestRead = [state.pts] := by
      refine (hext.filterMap_eq settling_not_latest).trans ?_
      rw [filterMap_append, hlatest]
      simp [latestRead]
    split
    · rename_i reason reset hreason _
      exact fun L₃ hL₃ => Or.inr ⟨⟨channelId, state.pts, L₀, window, ks⟩, hchannel, hlatest₂, hrows.grow hI hL₃,
        .tooLong _ (fun hnone => by rw [hreason] at hnone; cases hnone)⟩
    · rename_i hno
      refine Safe.mono (fun h response L hsaw => Or.inr ⟨⟨channelId, state.pts, L₀, window, ks⟩, hsaw⟩)
        (safe_channelPage hI codec s request buildTooLong ?_ hchannel hlatest₂ hrows)
      by_contra hboth
      simp only [not_or, ← ne_eq, Option.ne_none_iff_exists'] at hboth
      obtain ⟨⟨reason, hreason⟩, reset, hreset⟩ := hboth
      exact hno reason reset hreason hreset

/-! ## Every reader -/

def Saw (rely : Ledger J → Ledger J → Prop) (codec : TlCodec J T) (buildTooLong : Nat → Int → Option D) :
    ReadRequest → Calls J → ReadResponse J T D → Ledger J → Prop
  | .difference s request, h, response, L =>
    ∃ answer c, response = .difference answer ∧ SawDifference rely codec s request h answer L c
  | .channelDifference s request, h, response, L =>
    ∃ answer, response = .channelDifference answer ∧ ((request.channel = none ∧ answer = .channelInvalid) ∨
      ∃ c, SawChannelDifference rely codec s request buildTooLong h answer L c)

theorem safe_program (hI : Interference rely) (codec : TlCodec J T) (buildTooLong : Nat → Int → Option D)
    (q : ReadRequest) (L : Ledger J) :
    Safe exec rely (Saw rely codec buildTooLong q) ((updateSystem codec buildTooLong).program q) [] L := by
  cases q with
  | difference s request =>
    refine Safe.bind hI.isRely (Safe.mono ?_ (safe_getDifference hI codec s request))
    rintro h answer L₁ ⟨c, hsaw⟩ L₂ hL₂
    exact ⟨answer, c, rfl, hsaw.grow hI hL₂⟩
  | channelDifference s request =>
    refine Safe.bind hI.isRely (Safe.mono ?_ (safe_getChannelDifference hI codec s request buildTooLong))
    rintro h answer L₁ hsaw L₂ hL₂
    exact ⟨answer, rfl, hsaw.imp id (fun ⟨c, hc⟩ => ⟨c, { hc with rows := hc.rows.grow hI hL₂ }⟩)⟩

/-- **Every finished request has seen what its program reads**, in every run whose writes stay within the rely. -/
theorem saw_of_reachable (hI : Interference rely) (codec : TlCodec J T) (buildTooLong : Nat → Int → Option D)
    {ok : UpdateWorld J T D → UpdateAction J → Prop} (hinit : rely L₀ L₀)
    (hwrite : ∀ (w : UpdateWorld J T D) o L, ok w (.write o) → rely w.shared w.shared → w.shared.write o = some L →
      rely w.shared L)
    {w : UpdateWorld J T D} (h : Runs.Reachable (updateSystem codec buildTooLong).step ok (System.idle L₀) w) :
    rely w.shared w.shared ∧ ∀ f ∈ w.finished, Saw rely codec buildTooLong f.request f.history f.response w.shared := by
  have hall : System.AllSafe (updateSystem codec buildTooLong) rely (Saw rely codec buildTooLong) w :=
    System.safe_of_reachable hI.isRely hinit hwrite (fun w i x e s a _ hstay he => hI.called hstay he)
      (fun q L _ => safe_program hI codec buildTooLong q L) h
  exact ⟨hall.stays, fun f hf => hall.finished f hf _ hall.stays⟩

end Crossgram
