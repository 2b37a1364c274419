import Crossgram.HighwayBlocks
import Crossgram.Lib.Runs
/-!
# HighwayUploads — a Highway upload is exact

Every step of an upload keeps the invariant, so in every run the blocks tile the written bytes, and `complete` resolves
only when all of them were acknowledged.
-/
namespace Crossgram
namespace HighwayUpload

open Option List

variable {codecs : HighwayCodecs} {plan : QQHighwayUploadPlan} {s s' : HighwayUpload} {inFlight : List HighwayTask}
  {settled : List (Nat × Option String)}

/-! ### What the tasks do meanwhile -/

theorem Reported.push {progress : List Nat} {uploaded length : Nat} (h : Reported progress uploaded) (hpos : 0 < length) :
    Reported (progress ++ [uploaded + length]) (uploaded + length) := by
  refine ⟨pairwise_append.2 ⟨h.increasing, pairwise_singleton _ _, fun m hm n hn => ?_⟩, fun n hn => ?_,
    .inr (getLast?_concat)⟩
  · have hle := h.bounded m hm
    rw [mem_singleton.1 hn]
    omega
  · rcases mem_append.1 hn with hn | hn
    · have hle := h.bounded n hn
      omega
    · rw [mem_singleton.1 hn]

theorem report_eq (s : HighwayUpload) {length : Nat} (hpos : 0 < length) : s.report length =
    { s with
      writer := { s.writer with uploaded := s.writer.uploaded + length }
      progress := s.progress ++ [s.writer.uploaded + length] } := by
  unfold HighwayUpload.report
  simp only
  rw [if_neg (by omega)]

theorem callTasks_shrink {inFlight' : List HighwayTask} {call : Option HighwayCall}
    (hsub : (inFlight'.map (fun task => task.block)).Sublist (inFlight.map (fun task => task.block)))
    (h : CallTasks inFlight call) : CallTasks inFlight' call := by
  have hlength := hsub.length_le
  rw [length_map, length_map] at hlength
  have hlt : inFlight.length < highwayMaxInFlightBlocks → inFlight'.length < highwayMaxInFlightBlocks := by omega
  match call with
  | some (.first task next) =>
    obtain ⟨rfl, htask⟩ := h
    exact ⟨length_eq_zero_iff.1 (by rw [length_nil] at hlength; omega), htask⟩
  | some (.racing blocks next) => exact ⟨hsub.trans h.1, h.2⟩
  | some (.draining blocks) =>
    refine ⟨hlt h.1, fun task ht => ?_⟩
    obtain ⟨t, ht', hb⟩ := mem_map.1 (hsub.subset (mem_map_of_mem ht))
    rw [← hb]
    exact h.2 t ht'
  | none => exact hlt h
  | some (.flushed next) => exact hlt h
  | some .completing => exact hlt h

theorem awaited_keep {inFlight' : List HighwayTask} {settled' : List (Nat × Option String)} {call : Option HighwayCall}
    (hkeep : ∀ block, block ∈ inFlight.map (fun task => task.block) ∨ block ∈ settled.map (fun result => result.1) →
      block ∈ inFlight'.map (fun task => task.block) ∨ block ∈ settled'.map (fun result => result.1))
    (h : Awaited inFlight settled call) : Awaited inFlight' settled' call := by
  match call with
  | some (.racing blocks next) => exact ⟨h.1, fun block hb => hkeep block (h.2 block hb)⟩
  | some (.draining blocks) => exact fun block hb => hkeep block (h block hb)
  | none => trivial
  | some (.first task next) => trivial
  | some (.flushed next) => trivial
  | some .completing => trivial

variable {task : HighwayTask}

/-- **A task is over**, having reported its progress or thrown. -/
theorem Inv.settle (h : Inv codecs plan s) (ht : task ∈ s.writer.inFlight) {error : Option String}
    (hreporting : error = none → task.reporting = true) : Inv codecs plan (s.settle task.block error) := by
  have hsub : ((s.writer.inFlight.filter (fun t => t.block ≠ task.block)).map (fun t => t.block)).Sublist
      (s.writer.inFlight.map (fun t => t.block)) := filter_sublist.map _
  refine ⟨h.size, h.fits, h.tiled, h.counts, h.bytes, h.copied, h.under, h.finish,
    h.tasks.settle (h.tasks.known task ht) error, callTasks_shrink hsub h.stage,
    awaited_keep (fun block hb => ?_) h.awaited, fun hr hfailure => ?_, h.reported, h.acks, fun hc => ?_⟩
  · rcases hb with hb | hb
    · obtain ⟨t, ht', rfl⟩ := mem_map.1 hb
      by_cases hbt : t.block = task.block
      · refine .inr (mem_map.2 ⟨(task.block, error), mem_append_right _ mem_cons_self, hbt.symm⟩)
      · exact .inl (mem_map_of_mem (mem_filter.2 ⟨ht', decide_eq_true hbt⟩))
    · obtain ⟨result, hresult, rfl⟩ := mem_map.1 hb
      exact .inr (mem_map_of_mem (mem_append_left _ hresult))
  · have hfailure : s.writer.failure.or error = none := hfailure
    obtain ⟨hnone, herror⟩ : s.writer.failure = none ∧ error = none := by
      cases hf : s.writer.failure with
      | none =>
        rw [hf] at hfailure
        exact ⟨rfl, hfailure⟩
      | some e =>
        rw [hf] at hfailure
        cases hfailure
    have hdone : ∀ t ∈ s.writer.inFlight, t.block = task.block → t.reporting = true := by
      intro t ht' hb
      rw [h.tasks.unique ht' ht hb]
      exact hreporting herror
    obtain ⟨hsum, hall⟩ := h.accounted hr hnone
    refine ⟨?_, fun k hk => ?_⟩
    · show s.writer.uploaded + posting (s.writer.inFlight.filter (fun t => t.block ≠ task.block)) +
        firstPosting s.call = s.writer.scheduled
      rw [posting_filter hdone]
      exact hsum
    · rcases hall k hk with hack | ⟨t, ht', hb, hposts⟩ | hfirst
      · exact .inl hack
      · refine .inr (.inl ⟨t, mem_filter.2 ⟨ht', decide_eq_true ?_⟩, hb, hposts⟩)
        intro hbt
        rw [hdone t ht' hbt] at hposts
        cases hposts
      · exact .inr (.inr hfirst)
  · have hdrained := (h.complete hc).drained
    rw [hdrained] at ht
    cases ht

/-- **A block is acknowledged.** -/
theorem Inv.postedTask (h : Inv codecs plan s) (ht : task ∈ s.writer.inFlight)
    (hposts : task.reporting = false) {result : Except String HighwayAck}
    (hresult : ∀ ack, result = .ok ack → ack.server ∈ plan.servers ∧ Acknowledges codecs ack) :
    Inv codecs plan (s.postedTask task result) := by
  unfold HighwayUpload.postedTask
  cases result with
  | error error => exact h.settle ht (fun hc => by cases hc)
  | ok ack =>
    simp only
    rw [report_eq _ (h.tasks.positive task ht)]
    have hsub : ((setReporting s.writer.inFlight task.block).map (fun t => t.block)).Sublist
        (s.writer.inFlight.map (fun t => t.block)) := by
      rw [setReporting_blocks]
    refine ⟨h.size, h.fits, h.tiled, h.counts, h.bytes, h.copied, h.under, h.finish, h.tasks.report task.block,
      callTasks_shrink hsub h.stage, awaited_keep (fun block hb => ?_) h.awaited, fun hr hfailure => ?_,
      h.reported.push (h.tasks.positive task ht),
      fun k ack' hmem => ?_, fun hc => ?_⟩
    · rw [setReporting_blocks]
      exact hb
    · obtain ⟨hsum, hall⟩ := h.accounted hr hfailure
      refine ⟨?_, fun k hk => ?_⟩
      · show s.writer.uploaded + task.length + posting (setReporting s.writer.inFlight task.block) +
          firstPosting s.call = s.writer.scheduled
        have hposting := posting_setReporting ht hposts h.tasks.nodup
        omega
      · rcases hall k hk with ⟨ack', hack⟩ | ⟨t, ht', hb, hposts'⟩ | hfirst
        · exact .inl ⟨ack', mem_append_left _ hack⟩
        · by_cases hbt : t.block = task.block
          · refine .inl ⟨ack, mem_append_right _ ?_⟩
            rw [← hb, hbt]
            exact mem_cons_self
          · refine .inr (.inl ⟨t, mem_map.2 ⟨t, ht', if_neg hbt⟩, hb, hposts'⟩)
        · exact .inr (.inr hfirst)
    · rcases mem_append.1 hmem with hmem | hmem
      · exact h.acks k ack' hmem
      · cases mem_singleton.1 hmem
        exact hresult ack rfl
    · have hdrained := (h.complete hc).drained
      rw [hdrained] at ht
      cases ht

variable {next : HighwayNext}

/-- **The first block is acknowledged.** -/
theorem Inv.postedFirst (h : Inv codecs plan s)
    (hcall : s.call = some (.first task next)) (hposts : task.reporting = false) {ack : HighwayAck}
    (hack : ack.server ∈ plan.servers ∧ Acknowledges codecs ack) :
    Inv codecs plan { s.report task.length with
      call := some (.first { task with reporting := true } next)
      acknowledged := s.acknowledged ++ [(task.block, ack)] } := by
  have hstage := h.stage
  rw [hcall] at hstage
  obtain ⟨hnone, hzero, hpos⟩ := hstage
  have hunder := h.under (by rw [hcall]; exact some_ne_none _)
  have hbytes := h.bytes (.inl (by rw [hcall]; exact some_ne_none _))
  rw [report_eq s hpos]
  refine ⟨h.size, h.fits, h.tiled, h.counts, fun _ => ?_, h.copied, fun _ => hunder, fun hf => h.finish ?_, h.tasks,
    ⟨hnone, hzero, hpos⟩, trivial, fun hr hfailure => ?_, h.reported.push hpos, fun k ack' hmem => ?_, fun hc => ?_⟩
  · rw [hcall] at hbytes
    exact hbytes
  · rw [hcall]
    cases next <;> exact hf
  · obtain ⟨hsum, hall⟩ := h.accounted hr hfailure
    rw [hcall] at hsum hall
    refine ⟨?_, fun k hk => ?_⟩
    · have hfirst : firstPosting (some (.first task next)) = task.length := by
        simp only [firstPosting, hposts, Bool.false_eq_true, if_false]
      show s.writer.uploaded + task.length + posting s.writer.inFlight + 0 = s.writer.scheduled
      rw [hfirst] at hsum
      omega
    · rcases hall k hk with ⟨ack', hack'⟩ | htask | ⟨t, next', heq, hb, -⟩
      · exact .inl ⟨ack', mem_append_left _ hack'⟩
      · exact .inr (.inl htask)
      · cases heq
        exact .inl ⟨ack, mem_append_right _ (hb ▸ mem_cons_self)⟩
  · rcases mem_append.1 hmem with hmem | hmem
    · exact h.acks k ack' hmem
    · cases mem_singleton.1 hmem
      exact hack
  · exact absurd (hunder.2.1.symm.trans hc) Bool.false_ne_true

theorem Inv.reportedFirst (h : Inv codecs plan s)
    (hcall : s.call = some (.first task next)) (hreporting : task.reporting = true) :
    Inv codecs plan { s with call := some (.flushed next) } := by
  have hstage := h.stage
  rw [hcall] at hstage
  obtain ⟨hnone, -, -⟩ := hstage
  have hunder := h.under (by rw [hcall]; exact some_ne_none _)
  have hbytes := h.bytes (.inl (by rw [hcall]; exact some_ne_none _))
  have hroom : s.writer.inFlight.length < highwayMaxInFlightBlocks := by
    rw [hnone]
    decide
  have hready : Ready codecs plan s next.rest := by
    refine h.ready ⟨hunder.1, hunder.2.1⟩ ?_ hroom ?_ (fun k hposts => ?_)
    · rw [hcall] at hbytes
      exact hbytes
    · rw [hcall]
      simp only [firstPosting, hreporting, if_true]
    · obtain ⟨t, next', heq, -, hr⟩ := hposts
      rw [hcall] at heq
      cases heq
      rw [hreporting] at hr
      cases hr
  refine ⟨h.size, h.fits, h.tiled, h.counts, fun _ => hready.bytes, h.copied, fun _ => hunder, fun hf => h.finish ?_,
    h.tasks, hroom, trivial, hready.account rfl, h.reported, h.acks, fun hc => ?_⟩
  · rw [hcall]
    cases next <;> exact hf
  · exact absurd (hunder.2.1.symm.trans hc) Bool.false_ne_true

/-! ### The calls -/

theorem Inv.refuse (h : Inv codecs plan s) (hcall : s.call = none) (error : String) :
    Inv codecs plan { s with rejected := some error } := by
  have hstage := h.stage
  rw [hcall] at hstage
  have hrejected : s.reject (.write []) error = { s with rejected := some error } := by
    unfold HighwayUpload.reject
    simp only
    rw [← hcall]
  rw [← hrejected]
  exact (h.remains hstage).reject _ _

theorem Inv.idle (h : Inv codecs plan s) (hcall : s.call = none) (hrejected : s.rejected = none)
    (hclosed : s.writer.closed = false) : Ready codecs plan s [] := by
  have hstage := h.stage
  have hbytes := h.bytes (.inr ⟨hrejected, hclosed⟩)
  rw [hcall] at hstage hbytes
  have hundone : s.completed = false := by
    cases hc : s.completed with
    | false => rfl
    | true => exact absurd (hclosed.symm.trans (h.complete hc).closed) Bool.false_ne_true
  refine h.ready ⟨hrejected, hundone⟩ hbytes hstage (by rw [hcall]; rfl) (fun k hposts => ?_)
  obtain ⟨t, next, heq, -⟩ := hposts
  rw [hcall] at heq
  cases heq

theorem Inv.write (h : Inv codecs plan s) (hblock : 0 < plan.blockSize) (hrejected : s.rejected = none)
    {chunk : List UInt8} (hstep : step codecs plan s (.write chunk) = some s') : Inv codecs plan s' := by
  simp only [step] at hstep
  split at hstep
  · cases hstep
  · rename_i hcall
    split at hstep
    · cases hstep
      exact h.refuse hcall _
    · rename_i hclosed
      have hidle := h.idle hcall hrejected (Bool.not_eq_true _ ▸ hclosed)
      split at hstep
      · cases hstep
        exact h.refuse hcall _
      · split at hstep
        · cases hstep
          exact h
        · split at hstep
          · cases hstep
            have hremains := hidle.remains
            have hover : Remains codecs plan { s with
                writer := { s.writer with received := s.writer.received + chunk.length } } :=
              ⟨hremains.size, hremains.fits, hremains.tiled, hremains.copied, hremains.tasks, hremains.room,
                hremains.reported, hremains.acks, fun hc => absurd (hidle.undone.2.symm.trans hc) Bool.false_ne_true⟩
            have hinv := hover.reject (.write []) s!"upload exceeded declared size {plan.fileSize}"
            unfold HighwayUpload.reject at hinv
            simp only at hinv
            rw [← hcall] at hinv
            exact hinv
          · cases hstep
            refine Ready.copy hblock ⟨hidle.size, hidle.fits, hidle.tiled, ?_, ?_, hidle.undone, hidle.tasks, hidle.room,
              hidle.accounted, hidle.reported, hidle.acks⟩
            · obtain ⟨hindex, hscheduled, hreceived⟩ := hidle.counts
              refine ⟨hindex, hscheduled, ?_⟩
              show s.writer.received + chunk.length = (s.written ++ chunk).length
              rw [length_append, hreceived]
            · have hbytes := hidle.bytes
              rw [append_nil] at hbytes
              show encodedBytes s.encoded ++ s.writer.buffered ++ chunk = s.written ++ chunk
              rw [hbytes]

theorem Inv.completeCall (h : Inv codecs plan s) (hblock : 0 < plan.blockSize) (hrejected : s.rejected = none)
    (hstep : step codecs plan s .complete = some s') : Inv codecs plan s' := by
  simp only [step] at hstep
  split at hstep
  · cases hstep
  · rename_i hcall
    split at hstep
    · cases hstep
      exact h.refuse hcall _
    · rename_i hclosed
      have hidle := h.idle hcall hrejected (Bool.not_eq_true _ ▸ hclosed)
      split at hstep
      · cases hstep
        exact h.refuse hcall _
      · split at hstep
        · cases hstep
          exact h.refuse hcall _
        · rename_i hreceived
          have hreceived := not_not.1 hreceived
          split at hstep
          · rename_i hempty
            cases hstep
            exact Ready.goOn .complete hblock hidle (fun _ => ⟨isEmpty_iff.1 hempty, hreceived⟩)
          · rename_i hempty
            cases hstep
            refine Ready.flush .complete hblock hidle ?_ (fun _ => hreceived)
            exact length_pos_iff.2 (fun hnil => hempty (by rw [hnil]; rfl))

/-- **A race that is over** leaves room for another task. -/
theorem Inv.raced (h : Inv codecs plan s) {blocks : List Nat}
    (hcall : s.call = some (.racing blocks next)) {result : Nat × Option String} (hresult : result ∈ s.settled)
    (hin : result.1 ∈ blocks) : Ready codecs plan s next.rest := by
  have hstage := h.stage
  rw [hcall] at hstage
  obtain ⟨hsub, hlength⟩ := hstage
  have hunder := h.under (by rw [hcall]; exact some_ne_none _)
  have hbytes := h.bytes (.inl (by rw [hcall]; exact some_ne_none _))
  rw [hcall] at hbytes
  refine h.ready ⟨hunder.1, hunder.2.1⟩ hbytes ?_ (by rw [hcall]; rfl) (fun k hposts => ?_)
  · have hle := hsub.length_le
    rw [length_map] at hle
    have hne : s.writer.inFlight.length ≠ blocks.length := by
      intro heq
      have hall : s.writer.inFlight.map (fun task => task.block) = blocks :=
        hsub.eq_of_length (by rw [length_map]; exact heq)
      rw [← hall] at hin
      obtain ⟨task, ht, hb⟩ := mem_map.1 hin
      exact h.tasks.fresh task ht result hresult hb.symm
    omega
  · obtain ⟨t, next', heq, -⟩ := hposts
    rw [hcall] at heq
    cases heq

/-- **`complete` resolves**: all is flushed, and every task is over without a failure. -/
theorem Inv.drained (h : Inv codecs plan s) {blocks : List Nat} (hcall : s.call = some (.draining blocks))
    (hfailure : s.writer.failure = none) (hall : ∀ block ∈ blocks, block ∈ s.settled.map (fun result => result.1)) :
    Inv codecs plan { s with writer := { s.writer with closed := true }, call := none, completed := true } := by
  have hstage := h.stage
  have hfinish := h.finish (by rw [hcall]; rfl)
  obtain ⟨hrejected, -, hbuffered⟩ := h.under (by rw [hcall]; exact some_ne_none _)
  have hbytes := h.bytes (.inl (by rw [hcall]; exact some_ne_none _))
  obtain ⟨hsum, hacks⟩ := h.accounted hrejected hfailure
  obtain ⟨-, hscheduled, hreceived⟩ := h.counts hrejected
  rw [hcall] at hstage hbytes hsum hacks
  rw [hbuffered, append_nil] at hbytes
  have hwritten : encodedBytes s.encoded = s.written := (append_nil _).symm.trans hbytes
  have hnone : s.writer.inFlight = [] := by
    cases hf : s.writer.inFlight with
    | nil => rfl
    | cons task rest =>
      have ht : task ∈ s.writer.inFlight := by rw [hf]; exact mem_cons_self
      obtain ⟨result, hresult, hb⟩ := mem_map.1 (hall task.block (hstage.2 task ht))
      exact absurd hb (h.tasks.fresh task ht result hresult)
  have hacked : ∀ k < s.encoded.length, ∃ ack, (k, ack) ∈ s.acknowledged := by
    intro k hk
    rcases hacks k hk with hack | ⟨t, ht, -⟩ | ⟨t, next, heq, -⟩
    · exact hack
    · rw [hnone] at ht
      cases ht
    · cases heq
  have huploaded : s.writer.uploaded = plan.fileSize := by
    rw [hnone] at hsum
    have hsum : s.writer.uploaded + 0 + 0 = s.writer.scheduled := hsum
    rw [hwritten] at hscheduled
    omega
  have hsize : s.written.length = plan.fileSize := by omega
  refine ⟨h.size, h.fits, h.tiled, h.counts, fun hb => ?_, h.copied, fun hc => absurd rfl hc, fun hf => (by cases hf),
    h.tasks, hstage.1, trivial, fun _ _ => ⟨hsum, fun k hk => .inl (hacked k hk)⟩, h.reported, h.acks,
    fun _ => ⟨rfl, rfl, hnone, hwritten, hsize, hacked, huploaded⟩⟩
  rcases hb with hb | hb
  · exact absurd rfl hb
  · cases hb.2

theorem Inv.orFail (h : Remains codecs plan s) {error : Option String} {go : HighwayUpload}
    (hgo : s.writer.failure = none → error = none → Inv codecs plan go) : Inv codecs plan (s.orFail error next go) := by
  unfold HighwayUpload.orFail
  split
  · exact h.reject _ _
  · rename_i hnone
    cases error with
    | none => exact hgo hnone rfl
    | some e => cases hnone

theorem Inv.resume (h : Inv codecs plan s) (hblock : 0 < plan.blockSize)
    (hstep : step codecs plan s .resume = some s') : Inv codecs plan s' := by
  simp only [step] at hstep
  split at hstep
  · rename_i next hcall
    cases hstep
    have hstage := h.stage
    have hunder := h.under (by rw [hcall]; exact some_ne_none _)
    have hbytes := h.bytes (.inl (by rw [hcall]; exact some_ne_none _))
    rw [hcall] at hstage hbytes
    have hready : Ready codecs plan s next.rest := by
      refine h.ready ⟨hunder.1, hunder.2.1⟩ hbytes hstage (by rw [hcall]; rfl) (fun k hposts => ?_)
      obtain ⟨t, next', heq, -⟩ := hposts
      rw [hcall] at heq
      cases heq
    refine Ready.goOn next hblock hready (fun hnext => ⟨hunder.2.2, h.finish ?_⟩)
    rw [hcall, hnext]
    rfl
  · rename_i blocks next hcall
    obtain ⟨result, hfind, rfl⟩ := map_eq_some_iff.1 hstep
    have hin := find?_some hfind
    have hready := h.raced hcall (mem_of_find?_eq_some hfind) (of_decide_eq_true hin)
    refine Inv.orFail hready.remains (fun _ _ => Ready.goOn next hblock hready (fun hnext => ⟨?_, h.finish ?_⟩))
    · exact (h.under (by rw [hcall]; exact some_ne_none _)).2.2
    · rw [hcall, hnext]
      rfl
  · rename_i hcall
    cases hstep
    have hstage := h.stage
    have hunder := h.under (by rw [hcall]; exact some_ne_none _)
    have hbytes := h.bytes (.inl (by rw [hcall]; exact some_ne_none _))
    have hacc := h.accounted
    have hfinish := h.finish (by rw [hcall]; rfl)
    unfold Accounted at hacc
    rw [hcall] at hstage hbytes hacc
    refine ⟨h.size, h.fits, h.tiled, h.counts, fun _ => hbytes, h.copied, fun _ => hunder, fun _ => hfinish, h.tasks,
      ⟨hstage, fun task ht => mem_map_of_mem ht⟩, fun block hb => .inl hb, fun hr hfailure => ?_, h.reported, h.acks, fun hc => ?_⟩
    · obtain ⟨hsum, hall⟩ := hacc hr hfailure
      refine ⟨hsum, fun k hk => ?_⟩
      rcases hall k hk with hack | htask | ⟨t, next, heq, -⟩
      · exact .inl hack
      · exact .inr (.inl htask)
      · cases heq
    · exact absurd (hunder.2.1.symm.trans hc) Bool.false_ne_true
  · rename_i blocks hcall
    split at hstep
    · rename_i hover
      cases hstep
      have hstage := h.stage
      rw [hcall] at hstage
      refine Inv.orFail (h.remains hstage.1) (fun hfailure hthrown => ?_)
      refine h.drained hcall hfailure ?_
      rcases hover with hover | hover
      · -- a task that threw has left a failure
        obtain ⟨result, hfind⟩ := isSome_iff_exists.1 hover
        have hsome := find?_some hfind
        rw [hfind] at hthrown
        have hthrown : result.2 = none := hthrown
        rw [hthrown] at hsome
        simp at hsome
      · exact hover
    · cases hstep
  · cases hstep

theorem inv_start (hblock : 0 < plan.blockSize) (hfile : 0 < plan.fileSize) : Inv codecs plan (start plan) := by
  refine ⟨?_, Nat.zero_le _, fun k frame hk => (by cases hk), fun _ => ⟨rfl, rfl, rfl⟩, fun _ => rfl, prefix_refl _,
    fun hc => absurd rfl hc, fun hf => (by cases hf), ?_, ?_, trivial,
    fun _ _ => ⟨rfl, fun k hk => absurd hk (Nat.not_lt_zero k)⟩,
    ⟨List.Pairwise.nil, fun n hn => absurd hn not_mem_nil, .inl rfl⟩,
    fun k ack hk => absurd hk not_mem_nil, fun hc => (by cases hc)⟩
  · have hselection : 0 < highwaySelectionBlockBytes := by decide
    show 0 < min plan.fileSize (min plan.blockSize highwaySelectionBlockBytes)
    omega
  · exact ⟨nodup_nil, fun task ht => absurd ht not_mem_nil, fun result hr => absurd hr not_mem_nil,
      fun task ht => absurd ht not_mem_nil, fun task ht => absurd ht not_mem_nil,
      fun result hr => absurd hr not_mem_nil⟩
  · show ([] : List HighwayTask).length < highwayMaxInFlightBlocks
    decide

/-- **One step.** -/
theorem inv_step {e : HighwayEvent} (hblock : 0 < plan.blockSize) (h : Inv codecs plan s) (hturn : s.InTurn e)
    (hstep : step codecs plan s e = some s') : Inv codecs plan s' := by
  cases e with
  | write chunk => exact h.write hblock hturn hstep
  | complete => exact h.completeCall hblock hturn hstep
  | abort reason =>
    cases hstep
    refine ⟨h.size, Nat.zero_le _, h.tiled, h.counts, fun hb => ?_, h.copied, fun hc => ?_, h.finish, h.tasks, h.stage,
      h.awaited, h.accounted, h.reported, h.acks, fun hc => ?_⟩
    · rcases hb with hb | hb
      · have hbytes := h.bytes (.inl hb)
        rw [(h.under hb).2.2] at hbytes
        exact hbytes
      · cases hb.2
    · obtain ⟨hrejected, hundone, -⟩ := h.under hc
      exact ⟨hrejected, hundone, rfl⟩
    · obtain ⟨-, hidle, hdrained, hbytes, hsize, hacks, huploaded⟩ := h.complete hc
      exact ⟨rfl, hidle, hdrained, hbytes, hsize, hacks, huploaded⟩
  | signal reason =>
    cases hstep
    refine ⟨h.size, h.fits, h.tiled, h.counts, h.bytes, h.copied, h.under, h.finish, h.tasks, h.stage, h.awaited,
      h.accounted, h.reported, h.acks, fun hc => ?_⟩
    obtain ⟨hclosed, hidle, hdrained, hbytes, hsize, hacks, huploaded⟩ := h.complete hc
    exact ⟨hclosed, hidle, hdrained, hbytes, hsize, hacks, huploaded⟩
  | posted block preferred preferredAnswer answers =>
    simp only [step] at hstep
    split at hstep
    · rename_i task next hcall
      split at hstep
      · rename_i hposts
        obtain ⟨rfl, hposts⟩ := hposts
        split at hstep
        · cases hstep
          have hstage := h.stage
          rw [hcall] at hstage
          refine (h.remains ?_).reject _ _
          rw [hstage.1]
          decide
        · rename_i ack hresult
          cases hstep
          exact h.postedFirst hcall hposts (postHighwayBlock_ok hresult)
      · cases hstep
    · obtain ⟨task, hfind, rfl⟩ := map_eq_some_iff.1 hstep
      have hsome := find?_some hfind
      have hposts := of_decide_eq_true hsome
      exact h.postedTask (mem_of_find?_eq_some hfind) hposts.2 (fun ack hresult => postHighwayBlock_ok hresult)
  | reported block error =>
    simp only [step] at hstep
    split at hstep
    · rename_i task next hcall
      split at hstep
      · rename_i hreporting
        split at hstep
        · cases hstep
          have hstage := h.stage
          rw [hcall] at hstage
          refine (h.remains ?_).reject _ _
          rw [hstage.1]
          decide
        · cases hstep
          exact h.reportedFirst hcall hreporting.2
      · cases hstep
    · obtain ⟨task, hfind, rfl⟩ := map_eq_some_iff.1 hstep
      have hsome := find?_some hfind
      have hreporting := of_decide_eq_true hsome
      rw [← hreporting.1]
      exact h.settle (mem_of_find?_eq_some hfind) (fun _ => hreporting.2)
  | resume => exact h.resume hblock hstep

/-! ### What every run keeps -/

def uploadsInFlight (s : HighwayUpload) : Nat :=
  s.writer.inFlight.length + (match s.call with
    | some (.first _ _) => 1
    | _                 => 0)

theorem Inv.uploadsInFlight_le (h : Inv codecs plan s) : s.uploadsInFlight ≤ highwayMaxInFlightBlocks := by
  have hstage := h.stage
  unfold uploadsInFlight
  match hcall : s.call with
  | some (.first task next) =>
    rw [hcall] at hstage
    simp only
    rw [hstage.1]
    decide
  | some (.racing blocks next) =>
    rw [hcall] at hstage
    have hle := hstage.1.length_le
    rw [length_map] at hle
    exact hle.trans hstage.2
  | some (.draining blocks) =>
    rw [hcall] at hstage
    exact Nat.le_of_lt hstage.1
  | none =>
    rw [hcall] at hstage
    exact Nat.le_of_lt hstage
  | some (.flushed next) =>
    rw [hcall] at hstage
    exact Nat.le_of_lt hstage
  | some .completing =>
    rw [hcall] at hstage
    exact Nat.le_of_lt hstage

def ownStep : HighwayEvent → Bool
  | .posted _ _ _ _ => true
  | .reported _ _   => true
  | .resume         => true
  | _               => false

theorem task_moves (ht : task ∈ s.writer.inFlight) (hfirst : ∀ task next, s.call ≠ some (.first task next)) :
    ∃ e, ownStep e = true ∧ (step codecs plan s e).isSome = true := by
  cases hr : task.reporting with
  | false =>
    refine ⟨.posted task.block none (.throws "") (fun _ => .throws ""), rfl, ?_⟩
    simp only [step]
    rw [isSome_map, find?_isSome]
    exact ⟨task, ht, decide_eq_true ⟨rfl, hr⟩⟩
  | true =>
    refine ⟨.reported task.block none, rfl, ?_⟩
    simp only [step]
    rw [isSome_map, find?_isSome]
    exact ⟨task, ht, decide_eq_true ⟨rfl, hr⟩⟩

/-- **A call goes on**, or waits for a post or a report that is under way. -/
theorem Inv.moves (h : Inv codecs plan s) (hcall : s.call ≠ none) :
    ∃ e, ownStep e = true ∧ (step codecs plan s e).isSome = true := by
  have hawaited := h.awaited
  match hs : s.call with
  | none => exact absurd hs hcall
  | some (.first task next) =>
    cases hr : task.reporting with
    | false =>
      refine ⟨.posted task.block none (.throws "") (fun _ => .throws ""), rfl, ?_⟩
      simp only [step, hs, hr, and_self, if_true]
      split <;> rfl
    | true =>
      refine ⟨.reported task.block none, rfl, ?_⟩
      simp only [step, hs, hr, and_self, if_true, isSome_some]
  | some (.flushed next) =>
    refine ⟨.resume, rfl, ?_⟩
    simp only [step, hs, isSome_some]
  | some .completing =>
    refine ⟨.resume, rfl, ?_⟩
    simp only [step, hs, isSome_some]
  | some (.racing blocks next) =>
    rw [hs] at hawaited
    obtain ⟨block, hb⟩ := exists_mem_of_ne_nil blocks hawaited.1
    rcases hawaited.2 block hb with hin | hin
    · obtain ⟨task, ht, -⟩ := mem_map.1 hin
      exact task_moves ht (fun t n heq => by rw [hs] at heq; cases heq)
    · obtain ⟨result, hresult, rfl⟩ := mem_map.1 hin
      refine ⟨.resume, rfl, ?_⟩
      simp only [step, hs]
      rw [isSome_map, find?_isSome]
      exact ⟨result, hresult, decide_eq_true hb⟩
  | some (.draining blocks) =>
    rw [hs] at hawaited
    by_cases hall : ∀ block ∈ blocks, block ∈ s.settled.map (fun result => result.1)
    · refine ⟨.resume, rfl, ?_⟩
      simp only [step, hs]
      rw [if_pos (.inr hall)]
      rfl
    · obtain ⟨block, hb⟩ := not_forall.1 hall
      obtain ⟨hb, hnot⟩ := Classical.not_imp.1 hb
      obtain ⟨task, ht, -⟩ := mem_map.1 ((hawaited block hb).resolve_right hnot)
      exact task_moves ht (fun t n heq => by rw [hs] at heq; cases heq)

def varint : Nat → Nat → List UInt8
  | 0,        n => [UInt8.ofNat n]
  | fuel + 1, n => if n < 128 then [UInt8.ofNat n] else UInt8.ofNat (n % 128 + 128) :: varint fuel (n / 128)

def numberField (field n : Nat) : List UInt8 := if n = 0 then [] else varint 10 (8 * field) ++ varint 10 n

def bytesField (field : Nat) (bytes : List UInt8) : List UInt8 :=
  varint 10 (8 * field + 2) ++ varint 10 bytes.length ++ bytes

def twoBlockCodecs : HighwayCodecs :=
  { toBinary := fun head => .ok (
      bytesField 1 (numberField 1 head.base.version ++ bytesField 2 head.base.selfUin.toUTF8.data.toList ++
        bytesField 3 head.base.command.toUTF8.data.toList ++ numberField 4 head.base.sequence ++
        numberField 6 head.base.appId ++ numberField 7 head.base.dataFlag ++ numberField 8 head.base.commandId) ++
      bytesField 2 (numberField 2 head.segment.fileSize ++ numberField 3 head.segment.offset ++
        numberField 4 head.segment.length ++ bytesField 6 head.segment.ticket ++ bytesField 8 head.segment.chunkMd5 ++
        bytesField 9 head.segment.fileMd5) ++
      bytesField 3 head.extendInfo ++ numberField 4 head.field4 ++
      bytesField 5 (numberField 1 head.loginSig.field1 ++ numberField 3 head.loginSig.appId))
    fromBinary := fun bytes => if bytes = [] then .ok ⟨none, 0⟩ else .error "premature EOF"
    md5 := fun bytes =>
      if bytes = [1, 2] then [12, 185, 136, 208, 66, 167, 242, 141, 213, 254, 43, 85, 179, 245, 172, 122]
      else [134, 102, 104, 53, 6, 170, 205, 144, 11, 189, 90, 116, 172, 78, 223, 104]
    base64url := fun text => if text = "AQ" then [1] else [2] }

def twoBlockPlan : QQHighwayUploadPlan :=
  { servers := [⟨"upload.example", 80⟩], ticket := "AQ", extendInfo := "Ag", selfUin := "10001", commandId := 71
    sequenceStart := 7, blockSize := 2, fileSize := 3, fileMd5 := "5289df737df57326fcdd22597afb1fac" }

def acknowledgement : PostAnswer := .response true 200 "" [0x28, 0, 0, 0, 0, 0, 0, 0, 0, 0x29]

def twoBlocks : List HighwayEvent :=
  [.write [1, 2, 3], .posted 0 none acknowledgement (fun _ => acknowledgement), .reported 0 none, .resume, .complete,
    .posted 1 (some "upload.example:80") acknowledgement (fun _ => acknowledgement), .resume, .reported 1 none, .resume,
    .resume]

/-- `InTurn` as a test. -/
def inTurnTest (s : HighwayUpload) : HighwayEvent → Bool
  | .write _  => s.rejected.isNone
  | .complete => s.rejected.isNone
  | _         => true

theorem inTurn_of_test (s : HighwayUpload) (e : HighwayEvent) (h : inTurnTest s e = true) : s.InTurn e := by
  cases e with
  | write chunk => exact isNone_iff_eq_none.1 h
  | complete => exact isNone_iff_eq_none.1 h
  | _ => trivial

def turnRun (events : List HighwayEvent) : Option HighwayUpload :=
  Runs.run (fun s e => if inTurnTest s e then step twoBlockCodecs twoBlockPlan s e else none) (start twoBlockPlan) events

end HighwayUpload
end Crossgram
