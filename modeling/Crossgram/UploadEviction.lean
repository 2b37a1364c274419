import Crossgram.PreparedUploads
/-!
# UploadEviction — preparations that are replaced, removed or swept

A preparation goes on with the parts it has when it is taken out of the map: it is not staged any more, and its sink
does not complete, as long as these parts cannot fill it up.
-/
namespace Crossgram
namespace PreparedUploads

open Maps List

variable {ε : Type}

namespace PreparedUpload

def held (u : PreparedUpload ε) : Nat := u.receivedBytes + bytesOf u.parts + bytesOf u.queue

/-- **What the upload has cannot complete it**: too few bytes, or nothing that is still to be handled. -/
def Short (u : PreparedUpload ε) : Prop :=
  u.held < u.hashes.size ∨ u.queue = [] ∧ u.work = .idle ∧ u.finalized = false

structure Sound (u : PreparedUpload ε) : Prop where
  complete : .complete ∈ u.sink → u.finalized = true
  finalized : u.finalized = true → u.hashes.size ≤ u.receivedBytes
  completing : u.work = .completing → .complete ∈ u.sink

structure Advances (u u' : PreparedUpload ε) : Prop where
  hashes : u'.hashes = u.hashes
  held : u'.held ≤ u.held
  sink : ∀ c ∈ u.sink, c ∈ u'.sink
  sound : u.Sound → u'.Sound

theorem Advances.trans {u u' u'' : PreparedUpload ε} (h : Advances u u') (h' : Advances u' u'') : Advances u u'' :=
  ⟨h'.hashes.trans h.hashes, Nat.le_trans h'.held h.held, fun c hc => h'.sink c (h.sink c hc),
    fun hs => h'.sound (h.sound hs)⟩

theorem Sound.not_short {u : PreparedUpload ε} (h : u.Sound) (hcomplete : .complete ∈ u.sink) : ¬ u.Short := by
  have hfinal := h.complete hcomplete
  rintro (hheld | ⟨_, _, hopen⟩)
  · have := h.finalized hfinal
    unfold PreparedUpload.held at hheld
    omega
  · rw [hfinal] at hopen
    cases hopen

theorem advances_fail (o : Outside ε) (u : PreparedUpload ε) (error : UploadError ε) : Advances u (u.fail o error) := by
  unfold fail
  split
  · exact ⟨rfl, Nat.le_refl _, fun _ h => h, fun h => ⟨h.complete, h.finalized, fun hw => by cases hw⟩⟩
  · refine ⟨rfl, Nat.le_refl _, fun _ h => mem_append_left _ h, fun h => ⟨fun hc => ?_, h.finalized, ?_⟩⟩
    · rcases mem_append.1 hc with hc | hc
      · exact h.complete hc
      · rw [mem_singleton] at hc
        cases hc
    · intro hw
      cases hw

theorem advances_drainPrepared (o : Outside ε) (u : PreparedUpload ε) : Advances u (u.drainPrepared o) := by
  unfold drainPrepared
  split
  · exact ⟨rfl, Nat.le_refl _, fun _ h => h, fun h => ⟨h.complete, h.finalized, fun hw => by cases hw⟩⟩
  · rename_i chunk hget
    split
    · exact advances_fail o u _
    · have hbytes := bytesOf_delete hget
      have htaken : Advances u { u with
          parts := Maps.delete u.parts u.nextPart
          nextPart := u.nextPart + 1
          bufferedBytes := u.bufferedBytes - chunk.length
          receivedBytes := u.receivedBytes + chunk.length } := by
        refine ⟨rfl, ?_, fun _ h => h, fun h => ⟨h.complete, fun hf => ?_, h.completing⟩⟩
        · unfold held
          dsimp only
          omega
        · exact Nat.le_trans (h.finalized hf) (Nat.le_add_right _ _)
      dsimp only
      split
      · exact htaken.trans (advances_fail o _ _)
      · rename_i hopen
        refine htaken.trans ⟨rfl, Nat.le_refl _, fun _ h => mem_append_left _ h, fun h => ⟨fun hc => ?_, h.finalized, ?_⟩⟩
        · rcases mem_append.1 hc with hc | hc
          · exact h.complete hc
          · rw [mem_singleton] at hc
            cases hc
        · intro hw
          cases hw

theorem advances_handlePart (o : Outside ε) {u : PreparedUpload ε} {part : Nat} {bytes : List UInt8}
    {queue : List (Nat × List UInt8)} (hqueue : u.queue = (part, bytes) :: queue) :
    Advances u ({ u with queue }.handlePart o part bytes) := by
  have hheld : bytesOf u.queue = bytes.length + bytesOf queue := by
    rw [hqueue]
    rfl
  have hturn : Advances u { u with queue } := by
    refine ⟨rfl, ?_, fun _ h => h, fun h => ⟨h.complete, h.finalized, h.completing⟩⟩
    unfold held
    dsimp only
    omega
  unfold handlePart
  split
  · exact hturn.trans (advances_fail o _ _)
  · split
    · exact hturn
    · split
      · split
        · exact hturn.trans (advances_fail o _ _)
        · exact hturn
      · rename_i hnew
        split
        · exact hturn.trans (advances_fail o _ _)
        · refine Advances.trans ?_ (advances_drainPrepared o _)
          refine ⟨rfl, ?_, fun _ h => h, fun h => ⟨h.complete, h.finalized, h.completing⟩⟩
          have hset := bytesOf_set hnew bytes
          unfold held
          dsimp only at hset ⊢
          omega

theorem advances_start {o : Outside ε} {u u' : PreparedUpload ε} (h : u.start o = some u') :
    Advances u u' ∧ u.work = .idle ∧ u.queue ≠ [] := by
  unfold start at h
  split at h
  · rename_i part bytes queue hwork hqueue
    refine ⟨?_, hwork, by simp [hqueue]⟩
    split at h
    · cases h
      refine Advances.trans ?_ (advances_fail o _ _)
      refine ⟨rfl, ?_, fun _ h => h, fun h => ⟨h.complete, h.finalized, h.completing⟩⟩
      unfold held
      dsimp only
      rw [hqueue, bytesOf]
      omega
    · cases h
      exact advances_handlePart o hqueue
  · cases h

theorem advances_written (o : Outside ε) (u : PreparedUpload ε) (failure : Option ε) :
    Advances u (u.written o failure) := by
  unfold written
  split
  · exact advances_fail o u _
  · split
    · exact advances_drainPrepared o u
    · rename_i hsize
      have hsize : u.receivedBytes = u.hashes.size := not_not.1 hsize
      have hfinal : Advances u { u with finalized := true } :=
        ⟨rfl, Nat.le_refl _, fun _ h => h, fun h => ⟨fun _ => rfl, fun _ => Nat.le_of_eq hsize.symm, h.completing⟩⟩
      split
      · exact hfinal.trans (advances_fail o _ _)
      · refine hfinal.trans ⟨rfl, Nat.le_refl _, fun _ h => mem_append_left _ h, fun h => ⟨fun _ => rfl, h.finalized, ?_⟩⟩
        intro _
        exact mem_append_right _ mem_cons_self

theorem advances_aborted (u : PreparedUpload ε) (error : UploadError ε) (failure : Option ε) :
    Advances u (u.aborted error failure) := by
  unfold aborted
  split <;> exact ⟨rfl, Nat.le_refl _, fun _ h => h, fun h => ⟨h.complete, h.finalized, fun hw => by cases hw⟩⟩

theorem Advances.short {u u' : PreparedUpload ε} (h : Advances u u') (hshort : u.Short)
    (hbusy : ¬ (u.queue = [] ∧ u.work = .idle)) : u'.Short := by
  rcases hshort with hheld | ⟨hqueue, hwork, _⟩
  · left
    rw [h.hashes]
    exact Nat.lt_of_le_of_lt h.held hheld
  · exact absurd ⟨hqueue, hwork⟩ hbusy

end PreparedUpload

open PreparedUploads.UploadManager PreparedUpload

/-! ## The condition -/

def evicts (s : UploadManager ε) : UploadAction ε → List Nat
  | .prepare _ _      => s.prepared.toList
  | .replaced _ none  => s.prepared.toList
  | .cleared _ true   => s.prepared.toList
  | .remove           => s.prepared.toList
  | .sweepEntry id true => id :: s.prepared.toList
  | _                 => []

/-- **What the parts cannot complete is evicted**, and as long as it stands in the map no part is saved that could. -/
def EvictsShort (s : UploadManager ε) (a : UploadAction ε) : Prop :=
  (∀ id ∈ evicts s a, ∀ u, s.upload id = some u → u.Short) ∧
    ∀ part bytes, a = .savePart part bytes → ∀ id ∈ s.evicted, s.prepared = some id →
      ∀ u, s.upload id = some u → u.held + bytes.length < u.hashes.size

/-! ## The invariant -/

structure Inv (s : UploadManager ε) : Prop where
  sound : ∀ id u, s.upload id = some u → u.Sound
  current : ∀ id, s.prepared = some id → ∃ u, s.upload id = some u
  sweeping : ∀ id ∈ s.sweeping, ∃ u, s.upload id = some u
  staged : ∀ id, s.staged = some id →
    Maps.get s.preparations id = some .ready ∨ ∃ u, s.upload id = some u ∧ .complete ∈ u.sink
  evicted : ∀ id ∈ s.evicted, ∃ u, s.upload id = some u ∧ u.Short

variable {s : UploadManager ε} {id : Nat}

theorem Inv.put_streaming (h : Inv s) {u u' : PreparedUpload ε}
    (hu : s.upload id = some u) (hsound : u.Sound → u'.Sound) (hsink : ∀ c ∈ u.sink, c ∈ u'.sink)
    (hshort : id ∈ s.evicted → u'.Short) : Inv (s.put id (.streaming u')) where
  sound id' v hv := by
    rw [upload_put_streaming] at hv
    split at hv
    · cases hv
      exact hsound (h.sound id u hu)
    · exact h.sound id' v hv
  current id' hid' := by
    rw [upload_put_streaming]
    split
    · exact ⟨u', rfl⟩
    · exact h.current id' hid'
  sweeping id' hid' := by
    rw [upload_put_streaming]
    split
    · exact ⟨u', rfl⟩
    · exact h.sweeping id' hid'
  staged id' hid' := by
    by_cases heq : id' = id
    · right
      rw [upload_put_streaming, if_pos heq]
      rcases h.staged id' hid' with hready | ⟨v, hv, hcomplete⟩
      · rw [heq, get_of_upload hu] at hready
        cases hready
      · rw [heq, hu] at hv
        cases hv
        exact ⟨u', rfl, hsink _ hcomplete⟩
    · rw [upload_put_streaming, if_neg heq]
      unfold put
      dsimp only
      rw [get_set, if_neg heq]
      exact h.staged id' hid'
  evicted id' hid' := by
    rw [upload_put_streaming]
    split
    · rename_i heq
      exact ⟨u', rfl, hshort (heq ▸ hid')⟩
    · exact h.evicted id' hid'

theorem Inv.put_other (h : Inv s) {p : Preparation ε} (hno : s.upload id = none)
    (hready : Maps.get s.preparations id ≠ some .ready) (hsound : ∀ u, p = .streaming u → u.Sound) :
    Inv (s.put id p) := by
  have hother : ∀ id', id' ≠ id → (s.put id p).upload id' = s.upload id' := by
    intro id' hne
    unfold upload put
    dsimp only
    rw [get_set, if_neg hne]
  have hkept : ∀ id' u, s.upload id' = some u → (s.put id p).upload id' = some u := by
    intro id' u hu
    rw [hother, hu]
    rintro rfl
    rw [hno] at hu
    cases hu
  refine ⟨fun id' v hv => ?_, fun id' hid' => ?_, fun id' hid' => ?_, fun id' hid' => ?_, fun id' hid' => ?_⟩
  · by_cases heq : id' = id
    · subst heq
      have hget := get_of_upload hv
      unfold put at hget
      dsimp only at hget
      rw [get_set, if_pos rfl, Option.some.injEq] at hget
      exact hsound v hget
    · rw [hother id' heq] at hv
      exact h.sound id' v hv
  · obtain ⟨u, hu⟩ := h.current id' hid'
    exact ⟨u, hkept id' u hu⟩
  · obtain ⟨u, hu⟩ := h.sweeping id' hid'
    exact ⟨u, hkept id' u hu⟩
  · rcases h.staged id' hid' with hr | ⟨u, hu, hcomplete⟩
    · left
      have hne : id' ≠ id := by
        rintro rfl
        exact hready hr
      unfold put
      dsimp only
      rw [get_set, if_neg hne]
      exact hr
    · exact .inr ⟨u, hkept id' u hu, hcomplete⟩
  · obtain ⟨u, hu, hshort⟩ := h.evicted id' hid'
    exact ⟨u, hkept id' u hu, hshort⟩

theorem Inv.evict (h : Inv s) {ids : List Nat}
    (hshort : ∀ id ∈ ids, ∃ u, s.upload id = some u ∧ u.Short) : Inv (s.evict ids) :=
  ⟨h.sound, h.current, h.sweeping, h.staged, fun id hid => by
    rcases mem_append.1 hid with hid | hid
    · exact h.evicted id hid
    · exact hshort id hid⟩

theorem Inv.take (h : Inv s) {prepared staged : Option Nat}
    (hprepared : ∀ id, prepared = some id → s.prepared = some id) (hstaged : ∀ id, staged = some id → s.staged = some id) :
    Inv { s with prepared, staged } :=
  ⟨h.sound, fun id hid => h.current id (hprepared id hid), h.sweeping, fun id hid => h.staged id (hstaged id hid),
    h.evicted⟩

theorem Inv.short (h : Inv s) {u : PreparedUpload ε} (hu : s.upload id = some u) (hid : id ∈ s.evicted) :
    u.Short := by
  obtain ⟨v, hv, hshort⟩ := h.evicted id hid
  rw [hu] at hv
  cases hv
  exact hshort

theorem upload_eq_none (h : ∀ u, Maps.get s.preparations id ≠ some (.streaming u)) : s.upload id = none := by
  rw [Option.eq_none_iff_forall_ne_some]
  exact fun u hu => h u (get_of_upload hu)

theorem Inv.abortSink (h : Inv s) (id : Nat) (message : String) : Inv (s.abortSink id message) := by
  unfold UploadManager.abortSink
  split
  · rename_i u hu
    refine h.put_streaming hu (fun hs => ⟨fun hc => ?_, hs.finalized, fun hw => ?_⟩)
      (fun c hc => mem_append_left _ hc) (fun hid => (h.short hu hid : u.Short))
    · rcases mem_append.1 hc with hc | hc
      · exact hs.complete hc
      · rw [mem_singleton] at hc
        cases hc
    · exact mem_append_left _ (hs.completing hw)
  · exact h

theorem Inv.settle (h : Inv s) {u u' : PreparedUpload ε} (hu : s.upload id = some u)
    (hadvances : Advances u u') (hbusy : ¬ (u.queue = [] ∧ u.work = .idle)) : Inv (s.settle id u') := by
  have hput : Inv (s.put id (.streaming u')) :=
    h.put_streaming hu hadvances.sound hadvances.sink (fun hid => hadvances.short (h.short hu hid) hbusy)
  refine hput.take (fun id' hid' => ?_) (fun _ hid' => hid')
  split at hid'
  · cases hid'
  · exact hid'

theorem Inv.step {o : Outside ε} {s s' : UploadManager ε} {a : UploadAction ε} (h : Inv s) (hok : EvictsShort s a)
    (hstep : step o s a = some s') : Inv s' := by
  have hcurrent : (∀ id ∈ s.prepared.toList, id ∈ evicts s a) →
      ∀ id ∈ s.prepared.toList, ∃ u, s.upload id = some u ∧ u.Short := by
    intro hevicts id hid
    obtain ⟨u, hu⟩ := h.current id (Option.mem_toList.1 hid)
    exact ⟨u, hu, hok.1 id (hevicts id hid) u hu⟩
  cases a with
  | savePart part bytes =>
    dsimp only [PreparedUploads.step] at hstep
    cases hstep
    unfold UploadManager.savePart
    split
    · exact h
    · rename_i id hprepared
      split
      · rename_i u hu
        refine h.put_streaming hu (fun hs => ⟨hs.complete, hs.finalized, hs.completing⟩) (fun _ hc => hc) (fun hid => .inl ?_)
        have hbytes := hok.2 part bytes rfl id hid hprepared u hu
        unfold held at hbytes ⊢
        dsimp only
        rw [bytesOf_append]
        simp only [bytesOf]
        omega
      · exact h
  | start id =>
    dsimp only [PreparedUploads.step] at hstep
    obtain ⟨u, hu, hstep⟩ := Option.bind_eq_some_iff.1 hstep
    obtain ⟨u', hu', rfl⟩ := Option.map_eq_some_iff.1 hstep
    obtain ⟨hadvances, _, hqueue⟩ := advances_start hu'
    exact h.settle hu hadvances (fun hidle => hqueue hidle.1)
  | written id failure =>
    dsimp only [PreparedUploads.step] at hstep
    obtain ⟨u, hu, hstep⟩ := Option.bind_eq_some_iff.1 hstep
    split at hstep
    · rename_i hwork
      cases hstep
      refine h.settle hu (advances_written o u failure) (fun hidle => ?_)
      rw [hidle.2] at hwork
      cases hwork
    · cases hstep
  | completed id failure =>
    dsimp only [PreparedUploads.step] at hstep
    obtain ⟨u, hu, hstep⟩ := Option.bind_eq_some_iff.1 hstep
    split at hstep
    · rename_i hwork
      have hwork : u.work = .completing := by
        cases hw : u.work with
        | completing => rfl
        | _ => rw [hw] at hwork; cases hwork
      have hcomplete := (h.sound id u hu).completing hwork
      cases failure with
      | some reason =>
        cases hstep
        refine h.settle hu (advances_fail o u _) (fun hidle => ?_)
        rw [hwork] at hidle
        cases hidle.2
      | none        =>
        cases hstep
        have hnotShort := (h.sound id u hu).not_short hcomplete
        have hput : Inv (s.put id (.streaming { u with work := .idle })) :=
          h.put_streaming hu (fun hs => ⟨hs.complete, hs.finalized, fun hw => by cases hw⟩) (fun _ hc => hc)
            (fun hid => absurd (h.short hu hid) hnotShort)
        refine ⟨hput.sound, fun id' hid' => ?_, hput.sweeping, fun id' hid' => ?_, hput.evicted⟩
        · dsimp only [UploadManager.completed] at hid'
          split at hid'
          · cases hid'
          · exact hput.current id' hid'
        · cases hid'
          have hself : (s.put id (.streaming { u with work := .idle })).upload id = some { u with work := .idle } := by
            rw [upload_put_streaming, if_pos rfl]
          exact .inr ⟨_, hself, hcomplete⟩
    · cases hstep
  | aborted id failure =>
    dsimp only [PreparedUploads.step] at hstep
    obtain ⟨u, hu, hstep⟩ := Option.bind_eq_some_iff.1 hstep
    split at hstep
    · rename_i error hwork
      cases hstep
      refine h.settle hu (advances_aborted u error failure) (fun hidle => ?_)
      rw [hwork] at hidle
      cases hidle.2
    · cases hstep
  | prepare id preparation =>
    dsimp only [PreparedUploads.step] at hstep
    split at hstep
    · cases hstep
    · rename_i hnew
      cases hstep
      have hno : Maps.get s.preparations id = none :=
        get_eq_none.2 (fun e he hid => hnew (has_iff.2 ⟨e, he, hid⟩))
      have hnone : s.upload id = none := upload_eq_none (fun _ h => by rw [hno] at h; cases h)
      unfold UploadManager.prepare
      split
      · rename_i hprepared
        unfold clear
        rw [hprepared]
        have hput : Inv (s.put id (.clearing preparation)) :=
          h.put_other hnone (by rw [hno]; simp) (fun _ hp => by cases hp)
        exact (hput.evict (fun _ hid => by cases hid)).take (fun _ h => by cases h) (fun _ h => by cases h)
      · rename_i previous hprepared
        have hevict : Inv (s.evict [previous]) := by
          have hold := hcurrent (fun _ hid => hid)
          rw [hprepared] at hold
          exact h.evict hold
        have habort := hevict.abortSink previous "upload preparation replaced"
        have hkept : Maps.get ((s.evict [previous]).abortSink previous "upload preparation replaced").preparations id =
            none := by
          unfold UploadManager.abortSink
          split
          · rename_i u hu
            unfold put
            dsimp only
            rw [get_set, if_neg]
            · exact hno
            · rintro rfl
              have hget : Maps.get s.preparations id = some (.streaming u) := get_of_upload hu
              rw [hno] at hget
              cases hget
          · exact hno
        exact habort.put_other (upload_eq_none (fun _ h => by rw [hkept] at h; cases h)) (by rw [hkept]; simp)
          (fun _ hp => by cases hp)
  | replaced id failure =>
    dsimp only [PreparedUploads.step] at hstep
    split at hstep
    · rename_i preparation hget
      have hnone : s.upload id = none := upload_eq_none (fun _ h => by rw [hget] at h; cases h)
      cases failure with
      | some reason =>
        cases hstep
        exact h.put_other hnone (by rw [hget]; simp) (fun _ hp => by cases hp)
      | none        =>
        cases hstep
        have hevict : Inv (s.evict s.prepared.toList) := h.evict (hcurrent (fun _ hid => hid))
        have hready : Maps.get (s.evict s.prepared.toList).preparations id ≠ some .ready := by
          show Maps.get s.preparations id ≠ _
          rw [hget]
          simp
        have hput : Inv ((s.evict s.prepared.toList).put id (.clearing preparation)) :=
          hevict.put_other hnone hready (fun _ hp => by cases hp)
        exact hput.take (fun _ h => by cases h) (fun _ h => by cases h)
    · cases hstep
  | cleared id removed =>
    dsimp only [PreparedUploads.step] at hstep
    split at hstep
    · rename_i preparation hget
      have hnone : s.upload id = none := upload_eq_none (fun _ h => by rw [hget] at h; cases h)
      have hready : Maps.get s.preparations id ≠ some .ready := by
        rw [hget]
        simp
      cases removed with
      | false =>
        cases hstep
        exact h.put_other hnone hready (fun _ hp => by cases hp)
      | true  =>
        cases hstep
        unfold UploadManager.prepareCleared
        split
        · have hput : Inv (s.put id .ready) := h.put_other hnone hready (fun _ hp => by cases hp)
          refine ⟨hput.sound, hput.current, hput.sweeping, fun id' hid' => ?_, hput.evicted⟩
          cases hid'
          left
          unfold put
          dsimp only
          rw [get_set, if_pos rfl]
        · split
          · exact h.put_other hnone hready (fun _ hp => by cases hp)
          · have hevict : Inv (s.evict s.prepared.toList) := h.evict (hcurrent (fun _ hid => hid))
            have hput : Inv ((s.evict s.prepared.toList).put id (.streaming { hashes := preparation.hashes })) := by
              refine hevict.put_other hnone hready (fun u hu => ?_)
              cases hu
              refine ⟨fun h => ?_, fun h => ?_, fun h => ?_⟩ <;> cases h
            have hself : ((s.evict s.prepared.toList).put id (.streaming { hashes := preparation.hashes })).upload id =
                some { hashes := preparation.hashes } := by
              rw [upload_put_streaming, if_pos rfl]
            refine ⟨hput.sound, fun id' hid' => ?_, hput.sweeping, hput.staged, hput.evicted⟩
            cases hid'
            exact ⟨_, hself⟩
    · cases hstep
  | remove =>
    dsimp only [PreparedUploads.step] at hstep
    cases hstep
    unfold UploadManager.remove
    have hempty : Inv { s with staged := none } := h.take (fun _ hid => hid) (fun _ h => by cases h)
    dsimp only
    split
    · exact hempty
    · rename_i id hprepared
      have hevict : Inv (({ s with staged := none } : UploadManager ε).evict [id]) := by
        have hold := hcurrent (fun _ hid => hid)
        rw [hprepared] at hold
        exact hempty.evict hold
      exact (hevict.abortSink id "upload removed").take (fun _ h => by cases h) (fun _ hid => hid)
  | sweep old =>
    dsimp only [PreparedUploads.step] at hstep
    cases hstep
    refine ⟨h.sound, h.current, fun id hid => ?_, fun id hid => h.staged id ?_, h.evicted⟩
    · rcases mem_append.1 hid with hid | hid
      · exact h.sweeping id hid
      · exact h.current id (Option.mem_toList.1 hid)
    · cases old with
      | false => exact hid
      | true  => cases hid
  | sweepEntry id old =>
    dsimp only [PreparedUploads.step] at hstep
    split at hstep
    · rename_i hswept
      cases hstep
      have herase : Inv { s with sweeping := s.sweeping.erase id } :=
        ⟨h.sound, h.current, fun id' hid' => h.sweeping id' (mem_of_mem_erase hid'), h.staged, h.evicted⟩
      cases old with
      | false => exact herase
      | true  =>
        have hevict : Inv (({ s with sweeping := s.sweeping.erase id } : UploadManager ε).evict (id :: s.prepared.toList)) := by
          refine herase.evict (fun id' hid' => ?_)
          rcases mem_cons.1 hid' with rfl | hid'
          · obtain ⟨u, hu⟩ := h.sweeping id' hswept
            exact ⟨u, hu, hok.1 id' mem_cons_self u hu⟩
          · exact hcurrent (fun _ hid => mem_cons_of_mem _ hid) id' hid'
        exact (hevict.abortSink id "upload abandoned").take (fun _ h => by cases h) (fun _ hid => hid)
    · cases hstep

/-- **What was replaced, removed or swept is not staged and does not complete**, once it is evicted short. -/
theorem evicted_not_staged (o : Outside ε) {s : UploadManager ε}
    (hreach : Runs.Reachable (step o) EvictsShort {} s) {id : Nat} (hid : id ∈ s.evicted) :
    s.staged ≠ some id ∧ ∃ u, s.upload id = some u ∧ .complete ∉ u.sink := by
  have hinit : Inv ({} : UploadManager ε) := by
    refine ⟨fun _ _ h => ?_, fun _ h => ?_, fun _ h => ?_, fun _ h => ?_, fun _ h => ?_⟩ <;> cases h
  have hinv : Inv s := hreach.invariant hinit (fun _ _ _ _ h hok hs => h.step hok hs)
  obtain ⟨u, hu, hshort⟩ := hinv.evicted id hid
  have hcomplete : .complete ∉ u.sink := fun hc => (hinv.sound id u hu).not_short hc hshort
  refine ⟨fun hstaged => ?_, u, hu, hcomplete⟩
  rcases hinv.staged id hstaged with hready | ⟨v, hv, hc⟩
  · rw [get_of_upload hu] at hready
    cases hready
  · rw [hu] at hv
    cases hv
    exact hcomplete hc

theorem evicted_not_staged_removed : ∃ s : UploadManager Unit, s.evicted = [0] ∧ s.staged ≠ some 0 ∧
    ∃ u, s.upload 0 = some u ∧ .complete ∉ u.sink := by
  have hquiet : (({ hashes := emptyHashes 1 } : PreparedUpload Unit)).Short := .inr ⟨rfl, rfl, rfl⟩
  let s₂ : UploadManager Unit :=
    { prepared := some 0, preparations := [(0, .streaming { hashes := emptyHashes 1 })] }
  have hprepare : Runs.Reachable (step plainOutside) EvictsShort {} s₂ := by
    refine .tail (.tail .init (a := .prepare 0 { hashes := emptyHashes 1 }) ⟨nofun, nofun⟩ rfl) (a := .cleared 0 true)
      ⟨nofun, nofun⟩ rfl
  have hremove : Runs.Reachable (step plainOutside) EvictsShort {} s₂.remove := by
    refine .tail hprepare (a := .remove) ⟨fun id hid u hu => ?_, nofun⟩ rfl
    have hid : id = 0 := by simpa [evicts, s₂] using hid
    subst hid
    cases hu
    exact hquiet
  exact ⟨s₂.remove, rfl, evicted_not_staged plainOutside hremove mem_cons_self⟩

/-- An upload is removed while its last part is being written: it is staged all the same, and its sink was aborted and
has completed. -/
theorem removed_upload_staged :
    (Runs.run (step plainOutside) {}
        [.prepare 0 { hashes := emptyHashes 1 }, .cleared 0 true, .savePart 0 [7], .start 0, .remove, .written 0 none,
          .completed 0 none]).map (fun s => (s.evicted, s.staged, (s.upload 0).map PreparedUpload.sink)) =
      some ([0], some 0, some [.write [7], .abort (.error "upload removed"), .complete]) := by
  decide

end PreparedUploads
end Crossgram
