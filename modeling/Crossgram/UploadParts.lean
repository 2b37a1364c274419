import Mathlib.Data.List.Perm.Basic
import Mathlib.Data.List.Nodup
import Crossgram.PreparedUploads
/-!
# UploadParts — a file through its parts, whatever their order

The parts of a file are saved in any order and any number of times.  What a preparation holds is then made of the file
and of the parts that had their turn: its sink gets the file from its beginning, and completes behind its last part.
-/
namespace Crossgram
namespace PreparedUploads

open Maps List

variable {ε : Type}

/-- The parts of the file that `handled` has beyond part `next`. -/
def waiting (ps : List (List UInt8)) (handled : List Nat) (next : Nat) : List Nat :=
  (List.range ps.length).filter (fun part => decide (next < part) && decide (part ∈ handled))

def partBytes (ps : List (List UInt8)) (parts : List Nat) : List (Nat × List UInt8) :=
  parts.map (fun part => (part, (ps[part]?).getD []))

/-- **No more is ever needed out of order than may be held**: of the parts that were saved, those beyond a part that
was not. -/
def WithinWindow (ps : List (List UInt8)) (saved : List Nat) : Prop :=
  ∀ handled, handled <+: saved → ∀ next, (∀ part < next, part ∈ handled) → next ∉ handled →
    (waiting ps handled next).length ≤ MAX_PREPARED_OUT_OF_ORDER_PARTS ∧
      bytesOf (partBytes ps (waiting ps handled next)) ≤ MAX_PREPARED_OUT_OF_ORDER_BYTES

/-! ## Lists of parts -/

theorem bytesOf_perm {l l' : List (Nat × List UInt8)} (h : l.Perm l') : bytesOf l = bytesOf l' := by
  induction h with
  | nil              => rfl
  | cons e _ ih      => rw [bytesOf, bytesOf, ih]
  | swap e e' l      =>
    rw [bytesOf, bytesOf, bytesOf, bytesOf]
    omega
  | trans _ _ ih ih' => exact ih.trans ih'

variable {m : List (Nat × List UInt8)}

theorem bytesOf_delete_distinct (hkeys : (m.map Prod.fst).Nodup) {part : Nat}
    {bytes : List UInt8} (hget : Maps.get m part = some bytes) :
    bytesOf (Maps.delete m part) + bytes.length = bytesOf m := by
  unfold Maps.delete
  induction m with
  | nil          => cases hget
  | cons e m ih =>
    rw [map_cons, nodup_cons] at hkeys
    rw [get_cons] at hget
    rw [filter_cons]
    by_cases hpart : e.1 = part
    · rw [if_pos hpart] at hget
      cases hget
      have hothers : ∀ e' ∈ m, decide (e'.1 ≠ part) = true := by
        intro e' he'
        rw [decide_eq_true_eq]
        rintro rfl
        exact hkeys.1 (hpart ▸ mem_map_of_mem he')
      rw [if_neg (by simpa using hpart), filter_eq_self.2 hothers, bytesOf, Nat.add_comm]
    · rw [if_neg hpart] at hget
      have := ih hkeys.2 hget
      rw [if_pos (by simpa using hpart), bytesOf, bytesOf]
      omega

theorem get_of_mem_distinct (hkeys : (m.map Prod.fst).Nodup) {e : Nat × List UInt8}
    (he : e ∈ m) : Maps.get m e.1 = some e.2 := by
  induction m with
  | nil           => cases he
  | cons e' m ih =>
    rw [map_cons, nodup_cons] at hkeys
    rw [get_cons]
    rcases mem_cons.1 he with rfl | he
    · rw [if_pos rfl]
    · rw [if_neg (fun hkey : e'.1 = e.1 => hkeys.1 (hkey ▸ mem_map_of_mem he))]
      exact ih hkeys.2 he

theorem set_of_new {part : Nat} (hnew : Maps.get m part = none) (bytes : List UInt8) :
    Maps.set m part bytes = m ++ [(part, bytes)] := by
  rw [Maps.set, if_neg]
  rw [has_iff]
  rintro ⟨e, he, hkey⟩
  exact get_eq_none.1 hnew e he hkey

theorem take_append_chunk (limit : Nat) (digested chunk : List UInt8) :
    (digested ++ chunk).take limit = digested.take limit ++ chunk.take
      (if (digested.take limit).length < limit then min (limit - (digested.take limit).length) chunk.length else 0) := by
  rw [take_append]
  congr 1
  rw [length_take]
  split
  · rename_i hlt
    have hle : digested.length < limit := by omega
    rw [Nat.min_eq_right (Nat.le_of_lt hle)]
    by_cases hchunk : limit - digested.length ≤ chunk.length
    · rw [Nat.min_eq_left hchunk]
    · rw [Nat.min_eq_right (by omega), take_of_length_le (by omega), take_length]
  · rename_i hge
    rw [show limit - digested.length = 0 by omega]

/-! ## What an upload holds -/

namespace PreparedUpload

/-- **An upload as the handled parts of a file make it**; its `nextPart` may be among them. -/
structure Assembled (ps : List (List UInt8)) (handled : List Nat) (u : PreparedUpload ε) : Prop where
  next_le : u.nextPart ≤ ps.length
  received : u.receivedBytes = (ps.take u.nextPart).flatten.length
  digested : u.digested = (ps.take u.nextPart).flatten
  file10M : u.file10M = u.digested.take FILE_10M_BYTES
  file10MBytes : u.file10MBytes = u.file10M.length
  before : ∀ part < u.nextPart, part ∈ handled
  parts : ∀ part, Maps.get u.parts part = if part ∈ handled ∧ u.nextPart ≤ part then ps[part]? else none
  distinct : (u.parts.map Prod.fst).Nodup
  buffered : u.bufferedBytes = bytesOf u.parts
  queued : ∀ e ∈ u.queue, ps[e.1]? = some e.2

def take (u : PreparedUpload ε) (chunk : List UInt8) : PreparedUpload ε :=
  { u with
    parts := Maps.delete u.parts u.nextPart
    nextPart := u.nextPart + 1
    bufferedBytes := u.bufferedBytes - chunk.length
    receivedBytes := u.receivedBytes + chunk.length
    digested := u.digested ++ chunk
    file10M := u.file10M ++ chunk.take
      (if u.file10MBytes < FILE_10M_BYTES then min (FILE_10M_BYTES - u.file10MBytes) chunk.length else 0)
    file10MBytes := u.file10MBytes +
      (if u.file10MBytes < FILE_10M_BYTES then min (FILE_10M_BYTES - u.file10MBytes) chunk.length else 0)
    sink := u.sink ++ [.write chunk]
    work := .writing }

variable {ps : List (List UInt8)} {handled : List Nat} {u : PreparedUpload ε}

theorem Assembled.take (h : u.Assembled ps handled) {chunk : List UInt8} (hnext : u.nextPart ∈ handled)
    (hchunk : ps[u.nextPart]? = some chunk) : (u.take chunk).Assembled ps handled := by
  have htake : ps.take (u.nextPart + 1) = ps.take u.nextPart ++ [chunk] := by
    rw [take_add_one, hchunk]
    rfl
  have hflatten : (ps.take (u.nextPart + 1)).flatten = (ps.take u.nextPart).flatten ++ chunk := by
    rw [htake, flatten_append, flatten_singleton]
  have hget : Maps.get u.parts u.nextPart = some chunk := by
    rw [h.parts, if_pos ⟨hnext, Nat.le_refl _⟩, hchunk]
  have hbound : u.nextPart < ps.length := (List.getElem?_eq_some_iff.1 hchunk).1
  refine ⟨hbound, ?_, ?_, ?_, ?_, ?_, ?_, ?_, ?_, h.queued⟩
  · show u.receivedBytes + chunk.length = _
    rw [show (u.take chunk).nextPart = u.nextPart + 1 from rfl, hflatten, List.length_append, h.received]
  · show u.digested ++ chunk = _
    rw [show (u.take chunk).nextPart = u.nextPart + 1 from rfl, hflatten, h.digested]
  · show u.file10M ++ _ = (u.digested ++ chunk).take FILE_10M_BYTES
    rw [take_append_chunk, h.file10MBytes, h.file10M]
  · show u.file10MBytes + _ = (u.file10M ++ chunk.take _).length
    rw [List.length_append, ← h.file10MBytes, length_take]
    split
    · rw [Nat.min_assoc, Nat.min_self]
    · rw [Nat.zero_min]
  · intro part hpart
    rcases Nat.lt_succ_iff_lt_or_eq.1 hpart with hlt | rfl
    · exact h.before part hlt
    · exact hnext
  · intro part
    show Maps.get (Maps.delete u.parts u.nextPart) part = if part ∈ handled ∧ u.nextPart + 1 ≤ part then _ else _
    rw [get_delete, h.parts]
    by_cases hpart : part = u.nextPart
    · rw [if_pos hpart, if_neg (by omega)]
    · rw [if_neg hpart]
      by_cases hin : part ∈ handled ∧ u.nextPart ≤ part
      · rw [if_pos hin, if_pos ⟨hin.1, by omega⟩]
      · rw [if_neg hin, if_neg (fun hlate => hin ⟨hlate.1, by omega⟩)]
  · exact h.distinct.sublist (filter_sublist.map _)
  · show u.bufferedBytes - chunk.length = bytesOf (Maps.delete u.parts u.nextPart)
    have := bytesOf_delete_distinct h.distinct hget
    rw [h.buffered]
    omega

/-- **The drain goes on exactly if the next part has had its turn**; it does not run past the file. -/
theorem Assembled.drain (o : Outside ε) (h : u.Assembled ps handled) (hsize : u.hashes.size = ps.flatten.length)
    (hopen : u.finalized = false) (hnext : u.nextPart < ps.length) :
    (u.nextPart ∉ handled ∧ u.drainPrepared o = { u with work := .idle }) ∨
      ∃ chunk, u.nextPart ∈ handled ∧ ps[u.nextPart]? = some chunk ∧ u.drainPrepared o = u.take chunk := by
  by_cases hin : u.nextPart ∈ handled
  · right
    obtain ⟨chunk, hchunk⟩ : ∃ chunk, ps[u.nextPart]? = some chunk := ⟨_, getElem?_eq_getElem hnext⟩
    refine ⟨chunk, hin, hchunk, ?_⟩
    have hget : Maps.get u.parts u.nextPart = some chunk := by
      rw [h.parts, if_pos ⟨hin, Nat.le_refl _⟩, hchunk]
    have hroom : ¬ u.receivedBytes + chunk.length > u.hashes.size := by
      have htake : ps.take (u.nextPart + 1) = ps.take u.nextPart ++ [chunk] := by
        rw [take_add_one, hchunk]
        rfl
      have hall : ps.flatten = (ps.take (u.nextPart + 1)).flatten ++ (ps.drop (u.nextPart + 1)).flatten := by
        rw [← flatten_append, take_append_drop]
      rw [hsize, hall, htake, flatten_append, flatten_singleton, List.length_append, List.length_append,
        ← h.received]
      omega
    unfold drainPrepared
    rw [hget]
    dsimp only
    rw [if_neg hroom, if_neg (by simp [hopen])]
    rfl
  · left
    refine ⟨hin, ?_⟩
    have hget : Maps.get u.parts u.nextPart = none := by
      rw [h.parts, if_neg (fun hc => hin hc.1)]
    unfold drainPrepared
    rw [hget]

theorem Assembled.held_perm (h : u.Assembled ps handled) (hnext : u.nextPart ∉ handled) :
    u.parts.Perm (partBytes ps (waiting ps handled u.nextPart)) := by
  have hkeys : (u.parts.map Prod.fst).Perm (waiting ps handled u.nextPart) := by
    rw [waiting, perm_ext_iff_of_nodup h.distinct (nodup_range.filter _)]
    intro part
    rw [mem_filter, mem_range, Bool.and_eq_true, decide_eq_true_eq, decide_eq_true_eq]
    constructor
    · intro hmem
      obtain ⟨e, he, rfl⟩ := mem_map.1 hmem
      have hget := get_of_mem_distinct h.distinct he
      rw [h.parts] at hget
      split at hget
      · rename_i hin
        refine ⟨(List.getElem?_eq_some_iff.1 hget).1, Nat.lt_of_le_of_ne hin.2 ?_, hin.1⟩
        intro heq
        exact hnext (heq ▸ hin.1)
      · cases hget
    · rintro ⟨hbound, hlt, hin⟩
      have hget : Maps.get u.parts part = some ps[part] := by
        rw [h.parts, if_pos ⟨hin, Nat.le_of_lt hlt⟩, getElem?_eq_getElem hbound]
      exact mem_map_of_mem (mem_of_get hget)
  have hentries : u.parts = partBytes ps (u.parts.map Prod.fst) := by
    rw [partBytes, map_map]
    refine (map_id' _).symm.trans (map_congr_left (fun e he => ?_))
    have hget := get_of_mem_distinct h.distinct he
    rw [h.parts] at hget
    split at hget
    · dsimp only [Function.comp_apply]
      rw [hget]
      rfl
    · cases hget
  exact (List.Perm.of_eq hentries).trans (hkeys.map _)

theorem Assembled.of_queue (h : u.Assembled ps handled) {queue : List (Nat × List UInt8)}
    (hqueue : ∀ e ∈ queue, ps[e.1]? = some e.2) : ({ u with queue } : PreparedUpload ε).Assembled ps handled :=
  ⟨h.next_le, h.received, h.digested, h.file10M, h.file10MBytes, h.before, h.parts, h.distinct, h.buffered, hqueue⟩

variable {part : Nat}

theorem Assembled.known (h : u.Assembled ps handled) (hknown : part < u.nextPart ∨ part ∈ handled) :
    u.Assembled ps (handled ++ [part]) := by
  refine ⟨h.next_le, h.received, h.digested, h.file10M, h.file10MBytes, fun k hk => mem_append_left _ (h.before k hk),
    fun k => ?_, h.distinct, h.buffered, h.queued⟩
  have hiff : (k ∈ handled ++ [part] ∧ u.nextPart ≤ k) ↔ (k ∈ handled ∧ u.nextPart ≤ k) := by
    rw [mem_append, mem_singleton]
    constructor
    · rintro ⟨hin | rfl, hle⟩
      · exact ⟨hin, hle⟩
      · rcases hknown with hlt | hin
        · omega
        · exact ⟨hin, hle⟩
    · rintro ⟨hin, hle⟩
      exact ⟨.inl hin, hle⟩
  rw [h.parts]
  simp only [hiff]

theorem Assembled.store (h : u.Assembled ps handled) {bytes : List UInt8} (hle : u.nextPart ≤ part)
    (hbytes : ps[part]? = some bytes) (hnew : Maps.get u.parts part = none) :
    ({ u with parts := Maps.set u.parts part bytes, bufferedBytes := u.bufferedBytes + bytes.length } :
      PreparedUpload ε).Assembled ps (handled ++ [part]) := by
  refine ⟨h.next_le, h.received, h.digested, h.file10M, h.file10MBytes, fun k hk => mem_append_left _ (h.before k hk),
    fun k => ?_, ?_, ?_, h.queued⟩
  · show Maps.get (Maps.set u.parts part bytes) k = _
    rw [get_set, h.parts]
    by_cases hk : k = part
    · rw [if_pos hk, if_pos ⟨by rw [hk]; simp, by rw [hk]; exact hle⟩, hk, hbytes]
    · rw [if_neg hk]
      simp only [mem_append, mem_singleton, hk, or_false]
  · show ((Maps.set u.parts part bytes).map Prod.fst).Nodup
    rw [set_of_new hnew, map_append, nodup_append]
    refine ⟨h.distinct, by simp, fun k hk k' hk' heq => ?_⟩
    obtain ⟨e, he, rfl⟩ := mem_map.1 hk
    have hpart : k' = part := by simpa using hk'
    exact get_eq_none.1 hnew e he (heq.trans hpart)
  · show u.bufferedBytes + bytes.length = bytesOf (Maps.set u.parts part bytes)
    rw [bytesOf_set hnew, h.buffered]

/-- **There is room for a new part** as long as the file's order keeps within the window. -/
theorem Assembled.room (h : u.Assembled ps handled) (hnext : u.nextPart ∉ handled) {bytes : List UInt8}
    (hle : u.nextPart ≤ part) (hbytes : ps[part]? = some bytes) (hnew : Maps.get u.parts part = none)
    {saved : List Nat} (hwindow : WithinWindow ps saved) (hsaved : handled ++ [part] <+: saved) :
    ¬ (part ≠ u.nextPart ∧ (u.parts.length ≥ MAX_PREPARED_OUT_OF_ORDER_PARTS ∨
      u.bufferedBytes + bytes.length > MAX_PREPARED_OUT_OF_ORDER_BYTES)) := by
  rintro ⟨hne, hfull⟩
  have hstored := h.store hle hbytes hnew
  have hstill : u.nextPart ∉ handled ++ [part] := by
    rw [mem_append, mem_singleton, not_or]
    exact ⟨hnext, fun heq => hne heq.symm⟩
  have hperm := hstored.held_perm hstill
  dsimp only at hperm
  obtain ⟨hcount, htotal⟩ := hwindow _ hsaved u.nextPart hstored.before hstill
  have hlength : u.parts.length + 1 = (waiting ps (handled ++ [part]) u.nextPart).length := by
    have := hperm.length_eq
    rwa [set_of_new hnew, List.length_append, partBytes, length_map] at this
  have hbytes : bytesOf u.parts + bytes.length = bytesOf (partBytes ps (waiting ps (handled ++ [part]) u.nextPart)) := by
    rw [← bytesOf_perm hperm, bytesOf_set hnew]
  rw [h.buffered] at hfull
  omega

end PreparedUpload

open PreparedUploads.UploadManager PreparedUpload

/-! ## What the claim of the parts is about -/

def Matches (o : Outside ε) (hashes : IMMediaUploadHashes) (file : List UInt8) : Prop :=
  o.md5 file = toLowerCase hashes.md5 ∧ o.sha1 file = toLowerCase hashes.sha1 ∧
    o.md5 (file.take FILE_10M_BYTES) = toLowerCase hashes.file10MMd5

theorem mismatch_eq_none_iff (o : Outside ε) (u : PreparedUpload ε) :
    u.mismatch o = none ↔ o.md5 u.digested = toLowerCase u.hashes.md5 ∧ o.sha1 u.digested = toLowerCase u.hashes.sha1 ∧
      o.md5 u.file10M = toLowerCase u.hashes.file10MMd5 := by
  unfold mismatch
  split_ifs with hmd5 hsha1 hfile <;> simp_all

def EndsInBytes (ps : List (List UInt8)) : Prop := ps.length = 1 ∨ ∃ last, ps.getLast? = some last ∧ last ≠ []

def UploadAction.saved : UploadAction ε → Option Nat
  | .savePart part _ => some part
  | _                => none

def UploadAction.failure : UploadAction ε → Option ε
  | .written _ failure   => failure
  | .completed _ failure => failure
  | _                    => none

/-- Parts of the file are saved and handled, nothing else; a sink rejects with values that are true. -/
def OfFile (o : Outside ε) (ps : List (List UInt8)) : UploadAction ε → Prop
  | .savePart part bytes  => ps[part]? = some bytes
  | .start _              => True
  | .written _ failure    => ∀ reason, failure = some reason → o.truthy reason = true
  | .completed _ failure  => ∀ reason, failure = some reason → o.truthy reason = true
  | .aborted _ _          => True
  | _                     => False

/-- The manager behind `prepare`. -/
def preparedManager (hashes : IMMediaUploadHashes) : UploadManager ε :=
  { prepared := some 0, preparations := [(0, .streaming { hashes })] }

/-! ## The invariant -/

def writes (ps : List (List UInt8)) (n : Nat) : List (SinkCall ε) := (ps.take n).map .write

inductive Stage (o : Outside ε) (ps : List (List UInt8)) (handled : List Nat) (s : UploadManager ε)
    (u : PreparedUpload ε) : Prop
  | waiting (hcurrent : s.prepared = some 0) (hstaged : s.staged = none) (hopen : u.finalized = false)
    (hwork : u.work = .idle) (hsink : u.sink = writes ps u.nextPart) (hnext : u.nextPart ∉ handled)
    (hbound : u.nextPart < ps.length)
  | writing (hcurrent : s.prepared = some 0) (hstaged : s.staged = none) (hopen : u.finalized = false)
    (hwork : u.work = .writing) (hsink : u.sink = writes ps u.nextPart) (hpos : 0 < u.nextPart)
  | completing (hcurrent : s.prepared = some 0) (hstaged : s.staged = none) (hwork : u.work = .completing)
    (hsink : u.sink = writes ps ps.length ++ [.complete]) (hnext : u.nextPart = ps.length)
    (hmatches : Matches o u.hashes ps.flatten)
  | completed (hcurrent : s.prepared = none) (hstaged : s.staged = some 0) (hwork : u.work = .idle)
    (hsink : u.sink = writes ps ps.length ++ [.complete]) (hnext : u.nextPart = ps.length)
    (hmatches : Matches o u.hashes ps.flatten)

structure Going (o : Outside ε) (ps : List (List UInt8)) (handled : List Nat) (s : UploadManager ε)
    (u : PreparedUpload ε) : Prop where
  assembled : u.Assembled ps handled
  failed : u.failed = none
  tail : u.tail = none
  stage : Stage o ps handled s u

def BeforeAbort (o : Outside ε) (ps : List (List UInt8)) (hashes : IMMediaUploadHashes) (calls : List (SinkCall ε)) : Prop :=
  (∃ n, calls = writes ps n) ∨ calls = writes ps ps.length ++ [.complete] ∧ Matches o hashes ps.flatten

structure Failed (o : Outside ε) (ps : List (List UInt8)) (s : UploadManager ε) (u : PreparedUpload ε) : Prop where
  current : s.prepared = none
  staged : s.staged = none
  failed : ∃ error, u.failed = some error ∧ truthy o error = true
  work : u.work = .idle ∧ u.tail ≠ none ∨ ∃ error, u.work = .aborting error
  sink : ∃ calls reason, u.sink = calls ++ [.abort reason] ∧ BeforeAbort o ps u.hashes calls

def Cause (o : Outside ε) (ps : List (List UInt8)) (history : List (UploadAction ε)) (u : PreparedUpload ε) : Prop :=
  (∃ a ∈ history, a.failure ≠ none) ∨
    ¬ Matches o u.hashes ps.flatten ∧ ∃ message, u.sink = writes ps ps.length ++ [.abort (.error message)]

/-- **The state of an upload behind some steps.** -/
structure UploadState (o : Outside ε) (hashes : IMMediaUploadHashes) (ps : List (List UInt8)) (history : List (UploadAction ε))
    (s : UploadManager ε) (u : PreparedUpload ε) : Prop where
  preparations : s.preparations = [(0, .streaming u)]
  hashes : u.hashes = hashes
  state : (∃ handled, Going o ps handled s u ∧ (∀ a ∈ history, a.failure = none) ∧
      (s.prepared = some 0 → history.filterMap UploadAction.saved = handled ++ u.queue.map Prod.fst)) ∨
    Failed o ps s u ∧ Cause o ps history u

/-! ## A step -/

section

variable {o : Outside ε} {hashes : IMMediaUploadHashes} {ps : List (List UInt8)} {handled : List Nat}
  {history : List (UploadAction ε)} {s : UploadManager ε} {u : PreparedUpload ε}

theorem preparations_put (hp : s.preparations = [(0, .streaming u)]) (p : Preparation ε) :
    (s.put 0 p).preparations = [(0, p)] := by
  unfold put
  rw [hp]
  rfl

variable {u' : PreparedUpload ε}

theorem upload_iff (hp : s.preparations = [(0, .streaming u)]) {id : Nat} :
    s.upload id = some u' ↔ id = 0 ∧ u' = u := by
  unfold upload
  rw [hp, get_cons, get_nil]
  by_cases hid : (0 : Nat) = id
  · rw [if_pos hid]
    simp [hid.symm, eq_comm]
  · rw [if_neg hid]
    simp [Ne.symm hid]

theorem fail_of_none (hfailed : u.failed = none) (error : UploadError ε) :
    u.fail o error = { u with
      failed := some error, sink := u.sink ++ [.abort error], work := .aborting error } := by
  unfold fail
  rw [hfailed]
  rfl

theorem settle_prepared (hfine : u'.isAborting = false) : (s.settle 0 u').prepared = s.prepared := by
  unfold UploadManager.settle
  dsimp only
  rw [if_neg]
  rintro ⟨habort, _⟩
  rw [hfine] at habort
  cases habort

theorem failed_settle (error : UploadError ε) (hfailed : u.failed = none) (htruthy : truthy o error = true)
    (hcurrent : s.prepared = some 0) (hstaged : s.staged = none) (hbefore : BeforeAbort o ps u.hashes u.sink) :
    Failed o ps (s.settle 0 (u.fail o error)) (u.fail o error) := by
  rw [fail_of_none hfailed]
  refine ⟨?_, hstaged, ⟨error, rfl, htruthy⟩, .inr ⟨error, rfl⟩, ⟨u.sink, error, rfl, hbefore⟩⟩
  unfold UploadManager.settle
  dsimp only
  rw [if_pos ⟨rfl, hcurrent⟩]

/-- **The drain of an upload in the map**: it waits for its next part or writes it. -/
theorem Going.drain (h : u.Assembled ps handled) (hsize : u.hashes.size = ps.flatten.length)
    (hopen : u.finalized = false) (hbound : u.nextPart < ps.length) (hfailed : u.failed = none) (htail : u.tail = none)
    (hsink : u.sink = writes ps u.nextPart) (hcurrent : s.prepared = some 0) (hstaged : s.staged = none) :
    Going o ps handled (s.settle 0 (u.drainPrepared o)) (u.drainPrepared o) ∧
      (u.drainPrepared o).queue = u.queue ∧ (u.drainPrepared o).hashes = u.hashes := by
  rcases h.drain o hsize hopen hbound with ⟨hnext, hdrain⟩ | ⟨chunk, hnext, hchunk, hdrain⟩
  · rw [hdrain]
    refine ⟨⟨?_, hfailed, htail, ?_⟩, rfl, rfl⟩
    · exact ⟨h.next_le, h.received, h.digested, h.file10M, h.file10MBytes, h.before, h.parts, h.distinct, h.buffered,
        h.queued⟩
    · exact .waiting ((settle_prepared rfl).trans hcurrent) hstaged hopen rfl hsink hnext hbound
  · rw [hdrain]
    refine ⟨⟨h.take hnext hchunk, hfailed, htail, ?_⟩, rfl, rfl⟩
    refine .writing ((settle_prepared rfl).trans hcurrent) hstaged hopen rfl ?_ (Nat.succ_pos _)
    show u.sink ++ [.write chunk] = writes ps (u.nextPart + 1)
    rw [hsink, writes, writes, take_add_one, hchunk, map_append]
    rfl

variable {part : Nat} {bytes : List UInt8}

/-- **A part has its turn** while the upload waits for its next part. -/
theorem Going.handle {queue : List (Nat × List UInt8)} {saved : List Nat}
    (h : u.Assembled ps handled) (hsize : u.hashes.size = ps.flatten.length) (hqueue : u.queue = (part, bytes) :: queue)
    (hopen : u.finalized = false) (hbound : u.nextPart < ps.length) (hwork : u.work = .idle) (hfailed : u.failed = none)
    (htail : u.tail = none) (hsink : u.sink = writes ps u.nextPart) (hcurrent : s.prepared = some 0)
    (hstaged : s.staged = none) (hnext : u.nextPart ∉ handled) (hwindow : WithinWindow ps saved)
    (hsaved : handled ++ [part] <+: saved)
    (hturn : ({ u with queue } : PreparedUpload ε).handlePart o part bytes = u') :
    Going o ps (handled ++ [part]) (s.settle 0 u') u' ∧ u'.queue = queue ∧ u'.hashes = u.hashes := by
  have hbytes : ps[part]? = some bytes := h.queued (part, bytes) (by rw [hqueue]; exact mem_cons_self)
  have hrest : ({ u with queue } : PreparedUpload ε).Assembled ps handled := by
    refine h.of_queue (fun e he => h.queued e ?_)
    rw [hqueue]
    exact mem_cons_of_mem _ he
  have hsame : (part < u.nextPart ∨ part ∈ handled) →
      Going o ps (handled ++ [part]) (s.settle 0 { u with queue }) { u with queue } := by
    intro hknown
    have hnotBusy : ({ u with queue } : PreparedUpload ε).isAborting = false := by
      unfold isAborting
      dsimp only
      rw [hwork]
    refine ⟨hrest.known hknown, hfailed, htail, ?_⟩
    refine .waiting ((settle_prepared hnotBusy).trans hcurrent) hstaged hopen hwork hsink ?_ hbound
    rw [mem_append, mem_singleton, not_or]
    refine ⟨hnext, fun heq => ?_⟩
    rcases hknown with hlt | hin
    · exact absurd hlt (by rw [← heq]; exact Nat.lt_irrefl _)
    · exact hnext (heq ▸ hin)
  have hnone : u.failed.filter (truthy o) = none := by
    rw [hfailed]
    rfl
  unfold handlePart at hturn
  dsimp only at hturn
  rw [hnone] at hturn
  dsimp only at hturn
  by_cases hlt : part < u.nextPart
  · rw [if_pos hlt] at hturn
    subst hturn
    exact ⟨hsame (.inl hlt), rfl, rfl⟩
  · have hle : u.nextPart ≤ part := Nat.not_lt.1 hlt
    rw [if_neg hlt] at hturn
    cases hget : Maps.get u.parts part with
    | some duplicate =>
      have hheld := hget
      rw [h.parts] at hheld
      split at hheld
      · rename_i hin
        have heq : duplicate = bytes := Option.some.inj (hheld.symm.trans hbytes)
        rw [hget] at hturn
        dsimp only at hturn
        rw [if_neg (fun hne => hne heq)] at hturn
        subst hturn
        exact ⟨hsame (.inr hin.1), rfl, rfl⟩
      · cases hheld
    | none           =>
      have hroom := h.room hnext hle hbytes hget hwindow hsaved
      rw [hget] at hturn
      dsimp only at hturn
      rw [if_neg hroom] at hturn
      subst hturn
      exact Going.drain (hrest.store hle hbytes hget) hsize hopen hbound hfailed htail hsink hcurrent hstaged

theorem Assembled.all_written (h : u.Assembled ps handled) (hends : EndsInBytes ps) (hpos : 0 < u.nextPart)
    (hreceived : u.receivedBytes = ps.flatten.length) : u.nextPart = ps.length := by
  by_contra hne
  have hlt : u.nextPart < ps.length := Nat.lt_of_le_of_ne h.next_le hne
  rcases hends with hone | ⟨last, hlast, hbytes⟩
  · omega
  · obtain ⟨front, rfl⟩ : ∃ front, ps = front ++ [last] := by
      obtain ⟨hne', heq⟩ := getLast?_eq_some_iff.1 hlast
      exact ⟨_, heq⟩
    have hfront : u.nextPart ≤ front.length := by
      rw [List.length_append, length_singleton] at hlt
      omega
    have hlength : (front ++ [last]).flatten.length = front.flatten.length + last.length := by
      rw [flatten_append, flatten_singleton, List.length_append]
    have htaken : ((front ++ [last]).take u.nextPart).flatten.length ≤ front.flatten.length := by
      rw [take_append_of_le_length hfront]
      have hsplit : front.flatten = (front.take u.nextPart).flatten ++ (front.drop u.nextPart).flatten := by
        rw [← flatten_append, take_append_drop]
      rw [hsplit, List.length_append]
      exact Nat.le_add_right _ _
    have hlastLength : 0 < last.length := length_pos_iff.2 hbytes
    rw [h.received, hlength] at hreceived
    omega

/-- **A write has come back.** -/
theorem Going.written (h : u.Assembled ps handled) (hends : EndsInBytes ps) (hsize : u.hashes.size = ps.flatten.length)
    (hopen : u.finalized = false) (hpos : 0 < u.nextPart) (hfailed : u.failed = none) (htail : u.tail = none)
    (hsink : u.sink = writes ps u.nextPart) (hcurrent : s.prepared = some 0) (hstaged : s.staged = none) :
    let u' := u.written o none
    u'.queue = u.queue ∧ u'.hashes = u.hashes ∧ (Going o ps handled (s.settle 0 u') u' ∨
      Failed o ps (s.settle 0 u') u' ∧ ¬ Matches o u.hashes ps.flatten ∧
        ∃ message, u'.sink = writes ps ps.length ++ [.abort (.error message)]) := by
  intro u'
  have hturn : u.written o none = u' := rfl
  unfold PreparedUpload.written at hturn
  dsimp only at hturn
  by_cases hmore : u.receivedBytes ≠ u.hashes.size
  · rw [if_pos hmore] at hturn
    have hnext : u.nextPart < ps.length := by
      refine Nat.lt_of_le_of_ne h.next_le (fun hall => hmore ?_)
      rw [h.received, hall, take_length, hsize]
    rw [← hturn]
    obtain ⟨hgoing, hqueue, hhashes⟩ := Going.drain h hsize hopen hnext hfailed htail hsink hcurrent hstaged
    exact ⟨hqueue, hhashes, .inl hgoing⟩
  · rw [if_neg hmore] at hturn
    have hall : u.nextPart = ps.length := Assembled.all_written h hends hpos (by rw [← hsize]; exact not_not.1 hmore)
    have hdigested : u.digested = ps.flatten := by rw [h.digested, hall, take_length]
    have hmismatch := mismatch_eq_none_iff o u
    rw [h.file10M, hdigested] at hmismatch
    cases hverdict : u.mismatch o with
    | some name =>
      rw [hverdict] at hturn hmismatch
      dsimp only at hturn
      have hno : ¬ Matches o u.hashes ps.flatten := fun hm => by cases hmismatch.2 hm
      have hfail : Failed o ps (s.settle 0 u') u' := by
        rw [← hturn]
        exact failed_settle _ hfailed rfl hcurrent hstaged (.inl ⟨u.nextPart, hsink⟩)
      have hfailed' : ({ u with finalized := true } : PreparedUpload ε).failed = none := hfailed
      refine ⟨?_, ?_, .inr ⟨hfail, hno, s!"prepared upload {name} mismatch", ?_⟩⟩
      · rw [← hturn, fail_of_none hfailed']
      · rw [← hturn, fail_of_none hfailed']
      · rw [← hturn, fail_of_none hfailed']
        show u.sink ++ _ = _
        rw [hsink, hall]
    | none      =>
      rw [hverdict] at hturn hmismatch
      dsimp only at hturn
      have hmatches : Matches o u.hashes ps.flatten := hmismatch.1 rfl
      rw [← hturn]
      refine ⟨rfl, rfl, .inl ⟨?_, hfailed, htail, ?_⟩⟩
      · exact ⟨h.next_le, h.received, h.digested, h.file10M, h.file10MBytes, h.before, h.parts, h.distinct, h.buffered,
          h.queued⟩
      · refine .completing ((settle_prepared rfl).trans hcurrent) hstaged rfl ?_ hall hmatches
        show u.sink ++ _ = _
        rw [hsink, hall]

theorem Stage.of_queue (h : Stage o ps handled s u) (queue : List (Nat × List UInt8)) {s' : UploadManager ε}
    (hprepared : s'.prepared = s.prepared) (hstaged : s'.staged = s.staged) : Stage o ps handled s' { u with queue } := by
  cases h with
  | waiting hc hst hopen hwork hsink hnext hbound =>
    exact .waiting (hprepared.trans hc) (hstaged.trans hst) hopen hwork hsink hnext hbound
  | writing hc hst hopen hwork hsink hpos =>
    exact .writing (hprepared.trans hc) (hstaged.trans hst) hopen hwork hsink hpos
  | completing hc hst hwork hsink hnext hmatches =>
    exact .completing (hprepared.trans hc) (hstaged.trans hst) hwork hsink hnext hmatches
  | completed hc hst hwork hsink hnext hmatches =>
    exact .completed (hprepared.trans hc) (hstaged.trans hst) hwork hsink hnext hmatches

theorem Cause.snoc (h : Cause o ps history u) (hhashes : u'.hashes = u.hashes)
    (hsink : u'.sink = u.sink) (a : UploadAction ε) : Cause o ps (history ++ [a]) u' := by
  rcases h with ⟨b, hb, hfails⟩ | ⟨hno, hcalls⟩
  · exact .inl ⟨b, mem_append_left _ hb, hfails⟩
  · exact .inr ⟨by rw [hhashes]; exact hno, by rw [hsink]; exact hcalls⟩

variable {a : UploadAction ε}

theorem fine_snoc (h : ∀ a ∈ history, a.failure = none) (ha : a.failure = none) :
    ∀ b ∈ history ++ [a], b.failure = none := by
  intro b hb
  rcases mem_append.1 hb with hb | hb
  · exact h b hb
  · rw [mem_singleton.1 hb]
    exact ha

theorem saved_snoc (ha : a.saved = none) :
    (history ++ [a]).filterMap UploadAction.saved = history.filterMap UploadAction.saved := by
  rw [filterMap_append, filterMap_cons, ha]
  exact append_nil _

theorem UploadState.savePart (h : UploadState o hashes ps history s u)
    (hbytes : ps[part]? = some bytes) :
    ∃ u', UploadState o hashes ps (history ++ [.savePart part bytes]) (s.savePart part bytes) u' := by
  unfold UploadManager.savePart
  cases hprepared : s.prepared with
  | none    =>
    refine ⟨u, h.preparations, h.hashes, ?_⟩
    dsimp only
    rcases h.state with ⟨handled, hgoing, hfine, _⟩ | ⟨hfailed, hcause⟩
    · refine .inl ⟨handled, hgoing, fine_snoc hfine rfl, fun hc => ?_⟩
      rw [hprepared] at hc
      cases hc
    · exact .inr ⟨hfailed, hcause.snoc rfl rfl _⟩
  | some id =>
    rcases h.state with ⟨handled, hgoing, hfine, hsaved⟩ | ⟨hfailed, _⟩
    · have hid : id = 0 := by
        cases hgoing.stage with
        | waiting hc _ _ _ _ _ _  => rw [hprepared] at hc; exact Option.some.inj hc
        | writing hc _ _ _ _ _    => rw [hprepared] at hc; exact Option.some.inj hc
        | completing hc _ _ _ _ _ => rw [hprepared] at hc; exact Option.some.inj hc
        | completed hc _ _ _ _ _  => rw [hprepared] at hc; cases hc
      subst hid
      dsimp only
      rw [(upload_iff h.preparations).2 ⟨rfl, rfl⟩]
      refine ⟨{ u with queue := u.queue ++ [(part, bytes)] }, preparations_put h.preparations _, h.hashes,
        .inl ⟨handled, ⟨?_, hgoing.failed, hgoing.tail, hgoing.stage.of_queue _ rfl rfl⟩, fine_snoc hfine rfl, fun _ => ?_⟩⟩
      · refine hgoing.assembled.of_queue (fun e he => ?_)
        rcases mem_append.1 he with he | he
        · exact hgoing.assembled.queued e he
        · rw [mem_singleton.1 he]
          exact hbytes
      · rw [filterMap_append, hsaved hprepared, map_append, append_assoc]
        rfl
    · rw [hfailed.current] at hprepared
      cases hprepared

theorem UploadState.start (hsize : hashes.size = ps.flatten.length) (h : UploadState o hashes ps history s u)
    (hwindow : WithinWindow ps (history.filterMap UploadAction.saved))
    (hstart : u.start o = some u') (a : UploadAction ε) (ha : a.failure = none) (hnone : a.saved = none) :
    UploadState o hashes ps (history ++ [a]) (s.settle 0 u') u' := by
  have hput : (s.settle 0 u').preparations = [(0, .streaming u')] := preparations_put h.preparations _
  have hsizeU : u.hashes.size = ps.flatten.length := by rw [h.hashes, hsize]
  unfold PreparedUpload.start at hstart
  split at hstart
  · rename_i part bytes queue hwork hqueue
    rcases h.state with ⟨handled, hgoing, hfine, hsaved⟩ | ⟨hfailed, hcause⟩
    · have hturn : ({ u with queue } : PreparedUpload ε).handlePart o part bytes = u' := by
        split at hstart
        · rename_i error htail
          rw [hgoing.tail] at htail
          cases htail
        · exact Option.some.inj hstart
      cases hgoing.stage with
      | waiting hc hst hopen _ hsink hnext hbound =>
        have hsaved := hsaved hc
        rw [hqueue, map_cons] at hsaved
        have hfront : handled ++ [part] <+: history.filterMap UploadAction.saved := by
          rw [hsaved]
          exact ⟨queue.map Prod.fst, by rw [append_assoc]; rfl⟩
        obtain ⟨hgoing', hqueue', hhashes⟩ := Going.handle hgoing.assembled hsizeU hqueue hopen hbound hwork hgoing.failed
          hgoing.tail hsink hc hst hnext hwindow hfront hturn
        refine ⟨hput, hhashes.trans h.hashes, .inl ⟨handled ++ [part], hgoing', fine_snoc hfine ha, fun _ => ?_⟩⟩
        rw [saved_snoc hnone, hsaved, hqueue', append_assoc]
        rfl
      | writing _ _ _ hw _ _    => rw [hwork] at hw; cases hw
      | completing _ _ hw _ _ _ => rw [hwork] at hw; cases hw
      | completed hc hst _ hsink hnext hmatches =>
        have hbytes : ps[part]? = some bytes :=
          hgoing.assembled.queued (part, bytes) (by rw [hqueue]; exact mem_cons_self)
        have hlt : part < u.nextPart := by
          rw [hnext]
          exact (List.getElem?_eq_some_iff.1 hbytes).1
        have hfilter : u.failed.filter (truthy o) = none := by
          rw [hgoing.failed]
          rfl
        unfold handlePart at hturn
        dsimp only at hturn
        rw [hfilter] at hturn
        dsimp only at hturn
        rw [if_pos hlt] at hturn
        have hnotBusy : u'.isAborting = false := by
          rw [← hturn]
          unfold isAborting
          dsimp only
          rw [hwork]
        have hprepared := settle_prepared (s := s) hnotBusy
        refine ⟨hput, by rw [← hturn]; exact h.hashes, .inl ⟨handled, ?_, fine_snoc hfine ha, fun hc' => ?_⟩⟩
        · subst hturn
          refine ⟨hgoing.assembled.of_queue (fun e he => hgoing.assembled.queued e ?_), hgoing.failed, hgoing.tail,
            hgoing.stage.of_queue queue hprepared rfl⟩
          rw [hqueue]
          exact mem_cons_of_mem _ he
        · rw [hprepared, hc] at hc'
          cases hc'
    · rcases hfailed.work with ⟨_, htail⟩ | ⟨error, hw⟩
      · obtain ⟨first, hfirst, htruthy⟩ := hfailed.failed
        obtain ⟨error, hturn⟩ : ∃ error, ({ u with queue } : PreparedUpload ε).fail o error = u' := by
          split at hstart
          · exact ⟨_, Option.some.inj hstart⟩
          · rename_i hno
            exact absurd hno htail
        have hany : u.failed.any (truthy o) = true := by
          rw [hfirst]
          exact htruthy
        unfold fail at hturn
        dsimp only at hturn
        rw [if_pos hany] at hturn
        subst hturn
        refine ⟨hput, h.hashes, .inr ⟨⟨?_, hfailed.staged, ⟨first, hfirst, htruthy⟩, .inl ⟨rfl, fun h => (by cases h)⟩, hfailed.sink⟩,
          hcause.snoc rfl rfl a⟩⟩
        rw [settle_prepared rfl]
        exact hfailed.current
      · rw [hwork] at hw
        cases hw
  · cases hstart

theorem UploadState.written (hends : EndsInBytes ps) (hsize : hashes.size = ps.flatten.length)
    (h : UploadState o hashes ps history s u) (hwork : u.work = .writing) (id : Nat) {failure : Option ε}
    (htruthy : ∀ reason, failure = some reason → o.truthy reason = true) :
    UploadState o hashes ps (history ++ [.written id failure]) (s.settle 0 (u.written o failure)) (u.written o failure) := by
  have hput : (s.settle 0 (u.written o failure)).preparations = [(0, .streaming (u.written o failure))] :=
    preparations_put h.preparations _
  rcases h.state with ⟨handled, hgoing, hfine, hsaved⟩ | ⟨hfailed, _⟩
  · cases hgoing.stage with
    | writing hc hst hopen _ hsink hpos =>
      cases failure with
      | none        =>
        obtain ⟨hqueue, hhashes, hgoing' | ⟨hfail, hno, hcalls⟩⟩ := Going.written hgoing.assembled hends
          (by rw [h.hashes, hsize]) hopen hpos hgoing.failed hgoing.tail hsink hc hst
        · refine ⟨hput, hhashes.trans h.hashes, .inl ⟨handled, hgoing', fine_snoc hfine rfl, fun _ => ?_⟩⟩
          rw [saved_snoc rfl, hsaved hc, hqueue]
        · exact ⟨hput, hhashes.trans h.hashes, .inr ⟨hfail, .inr ⟨by rw [hhashes]; exact hno, hcalls⟩⟩⟩
      | some reason =>
        have hfail := failed_settle (o := o) (.rejected reason) hgoing.failed (htruthy reason rfl) hc hst
          (.inl ⟨u.nextPart, hsink⟩)
        refine ⟨hput, ?_, .inr ⟨hfail, .inl ⟨_, mem_append_right _ mem_cons_self, fun h => by cases h⟩⟩⟩
        show (u.fail o (.rejected reason)).hashes = hashes
        rw [fail_of_none hgoing.failed]
        exact h.hashes
    | waiting _ _ _ hw _ _ _    => rw [hwork] at hw; cases hw
    | completing _ _ hw _ _ _   => rw [hwork] at hw; cases hw
    | completed _ _ hw _ _ _    => rw [hwork] at hw; cases hw
  · rcases hfailed.work with ⟨hw, _⟩ | ⟨_, hw⟩
    · rw [hwork] at hw
      cases hw
    · rw [hwork] at hw
      cases hw

theorem UploadState.completing (h : UploadState o hashes ps history s u) (hwork : u.work = .completing) :
    ∃ handled, Going o ps handled s u ∧ (∀ a ∈ history, a.failure = none) ∧ s.prepared = some 0 ∧ s.staged = none ∧
      u.sink = writes ps ps.length ++ [.complete] ∧ u.nextPart = ps.length ∧ Matches o u.hashes ps.flatten := by
  rcases h.state with ⟨handled, hgoing, hfine, _⟩ | ⟨hfailed, _⟩
  · cases hgoing.stage with
    | completing hc hst _ hsink hnext hmatches => exact ⟨handled, hgoing, hfine, hc, hst, hsink, hnext, hmatches⟩
    | waiting _ _ _ hw _ _ _    => rw [hwork] at hw; cases hw
    | writing _ _ _ hw _ _      => rw [hwork] at hw; cases hw
    | completed _ _ hw _ _ _    => rw [hwork] at hw; cases hw
  · rcases hfailed.work with ⟨hw, _⟩ | ⟨_, hw⟩
    · rw [hwork] at hw
      cases hw
    · rw [hwork] at hw
      cases hw

theorem UploadState.completed (h : UploadState o hashes ps history s u) (hwork : u.work = .completing) (id : Nat) :
    UploadState o hashes ps (history ++ [.completed id none]) (s.completed 0 u) { u with work := .idle } := by
  obtain ⟨handled, hgoing, hfine, hc, _, hsink, hnext, hmatches⟩ := h.completing hwork
  have ha := hgoing.assembled
  have hnone : (s.completed 0 u).prepared = none := by
    unfold UploadManager.completed
    dsimp only
    rw [if_pos hc]
  refine ⟨preparations_put h.preparations _, h.hashes, .inl ⟨handled, ⟨?_, hgoing.failed, hgoing.tail, ?_⟩,
    fine_snoc hfine rfl, fun hcurrent => ?_⟩⟩
  · exact ⟨ha.next_le, ha.received, ha.digested, ha.file10M, ha.file10MBytes, ha.before, ha.parts, ha.distinct,
      ha.buffered, ha.queued⟩
  · exact .completed hnone rfl rfl hsink hnext hmatches
  · rw [hnone] at hcurrent
    cases hcurrent

theorem UploadState.rejected (h : UploadState o hashes ps history s u) (hwork : u.work = .completing) (id : Nat)
    {reason : ε} (htruthy : o.truthy reason = true) :
    UploadState o hashes ps (history ++ [.completed id (some reason)]) (s.settle 0 (u.fail o (.rejected reason)))
      (u.fail o (.rejected reason)) := by
  obtain ⟨handled, hgoing, _, hc, hst, hsink, _, hmatches⟩ := h.completing hwork
  have hfail := failed_settle (o := o) (.rejected reason) hgoing.failed htruthy hc hst (.inr ⟨hsink, hmatches⟩)
  refine ⟨preparations_put h.preparations _, ?_, .inr ⟨hfail, .inl ⟨_, mem_append_right _ mem_cons_self, fun h => by cases h⟩⟩⟩
  rw [fail_of_none hgoing.failed]
  exact h.hashes

theorem UploadState.aborted (h : UploadState o hashes ps history s u) {error : UploadError ε}
    (hwork : u.work = .aborting error) (id : Nat) (failure : Option ε) :
    UploadState o hashes ps (history ++ [.aborted id failure]) (s.settle 0 (u.aborted error failure))
      (u.aborted error failure) := by
  rcases h.state with ⟨handled, hgoing, _, _⟩ | ⟨hfailed, hcause⟩
  · cases hgoing.stage with
    | waiting _ _ _ hw _ _ _  => rw [hwork] at hw; cases hw
    | writing _ _ _ hw _ _    => rw [hwork] at hw; cases hw
    | completing _ _ hw _ _ _ => rw [hwork] at hw; cases hw
    | completed _ _ hw _ _ _  => rw [hwork] at hw; cases hw
  · have hprepared : ∀ u' : PreparedUpload ε, u'.isAborting = false → (s.settle 0 u').prepared = none :=
      fun u' hu' => (settle_prepared hu').trans hfailed.current
    refine ⟨preparations_put h.preparations _, ?_, .inr ⟨⟨?_, hfailed.staged, ?_, .inl ?_, ?_⟩, ?_⟩⟩
    · cases failure <;> exact h.hashes
    · cases failure with
      | none        => exact hprepared _ rfl
      | some reason => exact hprepared _ rfl
    · cases failure <;> exact hfailed.failed
    · cases failure with
      | none        => exact ⟨rfl, fun h => by cases h⟩
      | some reason => exact ⟨rfl, fun h => by cases h⟩
    · cases failure <;> exact hfailed.sink
    · cases failure with
      | none        => exact hcause.snoc rfl rfl _
      | some reason => exact hcause.snoc rfl rfl _

/-- **A step of a file's parts.** -/
theorem UploadState.step (hends : EndsInBytes ps) (hsize : hashes.size = ps.flatten.length)
    (h : UploadState o hashes ps history s u) (hfile : OfFile o ps a)
    (hwindow : WithinWindow ps (history.filterMap UploadAction.saved)) {s' : UploadManager ε}
    (hstep : step o s a = some s') : ∃ u', UploadState o hashes ps (history ++ [a]) s' u' := by
  cases a with
  | savePart part bytes  =>
    dsimp only [PreparedUploads.step] at hstep
    cases hstep
    exact h.savePart hfile
  | start id             =>
    dsimp only [PreparedUploads.step] at hstep
    obtain ⟨v, hv, hstep⟩ := Option.bind_eq_some_iff.1 hstep
    obtain ⟨rfl, rfl⟩ := (upload_iff h.preparations).1 hv
    obtain ⟨u', hu', rfl⟩ := Option.map_eq_some_iff.1 hstep
    exact ⟨u', h.start hsize hwindow hu' _ rfl rfl⟩
  | written id failure   =>
    dsimp only [PreparedUploads.step] at hstep
    obtain ⟨v, hv, hstep⟩ := Option.bind_eq_some_iff.1 hstep
    obtain ⟨rfl, rfl⟩ := (upload_iff h.preparations).1 hv
    cases hwork : v.work with
    | writing    =>
      rw [hwork] at hstep
      cases hstep
      exact ⟨_, h.written hends hsize hwork _ hfile⟩
    | idle       => rw [hwork] at hstep; cases hstep
    | completing => rw [hwork] at hstep; cases hstep
    | aborting _ => rw [hwork] at hstep; cases hstep
  | completed id failure =>
    dsimp only [PreparedUploads.step] at hstep
    obtain ⟨v, hv, hstep⟩ := Option.bind_eq_some_iff.1 hstep
    obtain ⟨rfl, rfl⟩ := (upload_iff h.preparations).1 hv
    cases hwork : v.work with
    | completing =>
      rw [hwork] at hstep
      cases failure with
      | none        =>
        cases hstep
        exact ⟨_, h.completed hwork _⟩
      | some reason =>
        cases hstep
        exact ⟨_, h.rejected hwork _ (hfile reason rfl)⟩
    | idle       => rw [hwork] at hstep; cases hstep
    | writing    => rw [hwork] at hstep; cases hstep
    | aborting _ => rw [hwork] at hstep; cases hstep
  | aborted id failure   =>
    dsimp only [PreparedUploads.step] at hstep
    obtain ⟨v, hv, hstep⟩ := Option.bind_eq_some_iff.1 hstep
    obtain ⟨rfl, rfl⟩ := (upload_iff h.preparations).1 hv
    split at hstep
    · rename_i error hwork
      cases hstep
      exact ⟨_, h.aborted hwork _ failure⟩
    · cases hstep
  | prepare _ _          => cases hfile
  | replaced _ _         => cases hfile
  | cleared _ _          => cases hfile
  | remove               => cases hfile
  | sweep _              => cases hfile
  | sweepEntry _ _       => cases hfile

/-- **A run of a file's parts.** -/
theorem UploadState.run (hends : EndsInBytes ps) (hsize : hashes.size = ps.flatten.length) :
    ∀ (as : List (UploadAction ε)) {history : List (UploadAction ε)} {s s' : UploadManager ε} {u : PreparedUpload ε},
      UploadState o hashes ps history s u → (∀ a ∈ as, OfFile o ps a) →
      WithinWindow ps ((history ++ as).filterMap UploadAction.saved) → Runs.run (PreparedUploads.step o) s as = some s' →
      ∃ u', UploadState o hashes ps (history ++ as) s' u'
  | [],      history, s, s', u, h, _, _, hrun => by
    cases hrun
    exact ⟨u, by rw [append_nil]; exact h⟩
  | a :: as, history, s, s', u, h, hfile, hwindow, hrun => by
    rw [Runs.run, Option.bind_eq_some_iff] at hrun
    obtain ⟨s₁, hs₁, hrun⟩ := hrun
    have hfirst : WithinWindow ps (history.filterMap UploadAction.saved) := by
      intro handled hfront
      refine hwindow handled (hfront.trans ?_)
      rw [filterMap_append]
      exact prefix_append _ _
    obtain ⟨u₁, h₁⟩ := h.step hends hsize (hfile a mem_cons_self) hfirst hs₁
    have happend : history ++ a :: as = (history ++ [a]) ++ as := by rw [append_assoc]; rfl
    rw [happend] at hwindow ⊢
    exact UploadState.run hends hsize as h₁ (fun b hb => hfile b (mem_cons_of_mem _ hb)) hwindow hrun

/-! ## The work that is left -/

/-- A bound on the steps that the parts at hand still take. -/
def load (u : PreparedUpload ε) : Nat :=
  8 * u.queue.length + 4 * u.parts.length + match u.work with
    | .idle       => 0
    | .writing    => 2
    | .completing => 1
    | .aborting _ => 1

theorem length_delete_lt {m : List (Nat × List UInt8)}
    (hget : Maps.get m part = some bytes) : (Maps.delete m part).length < m.length := by
  unfold Maps.delete
  rw [length_filter_lt_length_iff_exists]
  exact ⟨(part, bytes), mem_of_get hget, by simp⟩

theorem load_fail_le (o : Outside ε) (u : PreparedUpload ε) (error : UploadError ε) :
    load (u.fail o error) ≤ 8 * u.queue.length + 4 * u.parts.length + 1 := by
  unfold fail
  split
  · exact Nat.le_succ _
  · exact Nat.le_refl _

theorem load_drain_le (o : Outside ε) (u : PreparedUpload ε) :
    load (u.drainPrepared o) ≤ 8 * u.queue.length + 4 * u.parts.length + 1 := by
  unfold drainPrepared
  split
  · exact Nat.le_succ _
  · rename_i chunk hget
    have hlt := length_delete_lt hget
    split
    · exact load_fail_le o u _
    · dsimp only
      split
      · refine Nat.le_trans (load_fail_le o _ _) ?_
        dsimp only
        omega
      · unfold load
        dsimp only
        omega

theorem load_start_lt (hstart : u.start o = some u') : load u' < load u := by
  unfold PreparedUpload.start at hstart
  split at hstart
  · rename_i part bytes queue hwork hqueue
    have hload : load u = 8 * (queue.length + 1) + 4 * u.parts.length := by
      unfold load
      rw [hqueue, hwork]
      rfl
    have hfail : ∀ error, load (({ u with queue } : PreparedUpload ε).fail o error) < load u := by
      intro error
      have := load_fail_le o { u with queue } error
      dsimp only at this
      omega
    split at hstart
    · cases hstart
      exact hfail _
    · cases hstart
      have hsame : load ({ u with queue } : PreparedUpload ε) < load u := by
        rw [hload]
        unfold load
        dsimp only
        rw [hwork]
        dsimp only
        omega
      unfold handlePart
      split
      · exact hfail _
      · split
        · exact hsame
        · split
          · split
            · exact hfail _
            · exact hsame
          · rename_i hnew
            split
            · exact hfail _
            · refine Nat.lt_of_le_of_lt (load_drain_le o _) ?_
              have hset := congrArg List.length (set_of_new hnew bytes)
              rw [List.length_append, length_singleton] at hset
              dsimp only at hset ⊢
              omega
  · cases hstart

theorem load_written_lt (hwork : u.work = .writing) (failure : Option ε) : load (u.written o failure) < load u := by
  have hload : load u = 8 * u.queue.length + 4 * u.parts.length + 2 := by
    unfold load
    rw [hwork]
  unfold PreparedUpload.written
  split
  · have := load_fail_le o u (.rejected ‹_›)
    omega
  · split
    · have := load_drain_le o u
      omega
    · split
      · refine Nat.lt_of_le_of_lt (load_fail_le o _ _) ?_
        dsimp only
        omega
      · unfold load at hload ⊢
        dsimp only
        omega

/-- **The parts at hand are done with** after finitely many answers of the sink. -/
theorem quiet_reachable (o : Outside ε) : ∀ (n : Nat) {s : UploadManager ε} {u : PreparedUpload ε},
    s.preparations = [(0, .streaming u)] → load u < n → ∃ (as : List (UploadAction ε)) (s' : UploadManager ε)
      (u' : PreparedUpload ε), (∀ a ∈ as, (∀ ps, OfFile o ps a) ∧ a.saved = none ∧ a.failure = none) ∧
        Runs.run (PreparedUploads.step o) s as = some s' ∧ s'.upload 0 = some u' ∧ u'.queue = [] ∧ u'.work = .idle
  | 0,     _, _, _,  hload => absurd hload (Nat.not_lt_zero _)
  | n + 1, s, u, hp, hload => by
    have hupload : s.upload 0 = some u := (upload_iff hp).2 ⟨rfl, rfl⟩
    have hnext : ∀ (a : UploadAction ε) (s₁ : UploadManager ε) (u₁ : PreparedUpload ε),
        ((∀ ps, OfFile o ps a) ∧ a.saved = none ∧ a.failure = none) → PreparedUploads.step o s a = some s₁ →
        s₁.preparations = [(0, .streaming u₁)] → load u₁ < load u →
        ∃ (as : List (UploadAction ε)) (s' : UploadManager ε) (u' : PreparedUpload ε),
          (∀ a ∈ as, (∀ ps, OfFile o ps a) ∧ a.saved = none ∧ a.failure = none) ∧
            Runs.run (PreparedUploads.step o) s as = some s' ∧ s'.upload 0 = some u' ∧ u'.queue = [] ∧ u'.work = .idle := by
      intro a s₁ u₁ ha hs₁ hp₁ hlt
      obtain ⟨as, s', u', has, hrun, hquiet⟩ := quiet_reachable o n hp₁ (by omega)
      refine ⟨a :: as, s', u', fun b hb => ?_, ?_, hquiet⟩
      · rcases mem_cons.1 hb with rfl | hb
        · exact ha
        · exact has b hb
      · rw [Runs.run, hs₁]
        exact hrun
    cases hwork : u.work with
    | idle           =>
      cases hstart : u.start o with
      | some u₁ =>
        refine hnext (.start 0) (s.settle 0 u₁) u₁ ⟨fun _ => trivial, rfl, rfl⟩ ?_ (preparations_put hp _)
          (load_start_lt hstart)
        dsimp only [PreparedUploads.step]
        rw [hupload, Option.bind_some, hstart]
        rfl
      | none    =>
        refine ⟨[], s, u, fun _ h => (by cases h), rfl, hupload, ?_, hwork⟩
        cases hqueue : u.queue with
        | nil           => rfl
        | cons e queue  =>
          unfold PreparedUpload.start at hstart
          rw [hwork, hqueue] at hstart
          dsimp only at hstart
          split at hstart <;> cases hstart
    | writing        =>
      refine hnext (.written 0 none) (s.settle 0 (u.written o none)) (u.written o none) ⟨fun _ _ h => (by cases h), rfl, rfl⟩ ?_
        (preparations_put hp _) (load_written_lt hwork none)
      dsimp only [PreparedUploads.step]
      rw [hupload, Option.bind_some, hwork]
      rfl
    | completing     =>
      refine hnext (.completed 0 none) (s.completed 0 u) { u with work := .idle } ⟨fun _ _ h => (by cases h), rfl, rfl⟩ ?_
        (preparations_put hp _) ?_
      · dsimp only [PreparedUploads.step]
        rw [hupload, Option.bind_some, hwork]
        rfl
      · unfold load
        rw [hwork]
        exact Nat.lt_succ_self _
    | aborting error =>
      refine hnext (.aborted 0 none) (s.settle 0 (u.aborted error none)) (u.aborted error none)
        ⟨fun _ => trivial, rfl, rfl⟩ ?_ (preparations_put hp _) ?_
      · dsimp only [PreparedUploads.step]
        rw [hupload, Option.bind_some, hwork]
      · unfold load
        rw [hwork]
        exact Nat.lt_succ_self _

/-! ## A file -/

def SinkCall.chunk : SinkCall ε → Option (List UInt8)
  | .write chunk => some chunk
  | _            => none

def SinkCall.isComplete : SinkCall ε → Bool
  | .complete => true
  | _         => false

def SinkCall.isAbort : SinkCall ε → Bool
  | .abort _ => true
  | _        => false

/-- **Order-independent and exact**: what the sink of a file's preparation has got behind some steps. -/
structure Exact (o : Outside ε) (hashes : IMMediaUploadHashes) (ps : List (List UInt8)) (as : List (UploadAction ε))
    (s : UploadManager ε) (u : PreparedUpload ε) : Prop where
  inOrder : ∃ n, u.sink.filterMap SinkCall.chunk = ps.take n
  completeOnce : u.sink.countP SinkCall.isComplete ≤ 1
  verified : .complete ∈ u.sink → Matches o hashes ps.flatten ∧ u.sink.filterMap SinkCall.chunk = ps
  aborted : ∀ reason, .abort reason ∈ u.sink → s.staged = none ∧
    ∃ calls, u.sink = calls ++ [.abort reason] ∧ calls.countP SinkCall.isAbort = 0
  failed : (∃ a ∈ as, a.failure ≠ none) → ∃ reason, .abort reason ∈ u.sink
  succeeded : (∀ a ∈ as, a.failure = none) → (∀ part < ps.length, part ∈ as.filterMap UploadAction.saved) →
    u.queue = [] → u.work = .idle → Matches o hashes ps.flatten →
      u.sink = writes ps ps.length ++ [.complete] ∧ s.staged = some 0
  mismatched : (∀ a ∈ as, a.failure = none) → (∀ part < ps.length, part ∈ as.filterMap UploadAction.saved) →
    u.queue = [] → u.work = .idle → ¬ Matches o hashes ps.flatten →
      ∃ message, u.sink = writes ps ps.length ++ [.abort (.error message)]

theorem chunks_writes (n : Nat) : (writes ps n : List (SinkCall ε)).filterMap SinkCall.chunk = ps.take n := by
  unfold writes
  rw [filterMap_map]
  exact filterMap_some

theorem mem_writes {n : Nat} {c : SinkCall ε} (h : c ∈ writes ps n) : ∃ chunk, c = .write chunk := by
  obtain ⟨chunk, _, rfl⟩ := mem_map.1 h
  exact ⟨chunk, rfl⟩

theorem complete_not_mem_writes (n : Nat) : (.complete : SinkCall ε) ∉ writes ps n := by
  intro h
  obtain ⟨_, hc⟩ := mem_writes h
  cases hc

theorem isComplete_writes (n : Nat) : (writes ps n : List (SinkCall ε)).countP SinkCall.isComplete = 0 := by
  rw [countP_eq_zero]
  intro c hc
  obtain ⟨_, rfl⟩ := mem_writes hc
  exact Bool.false_ne_true

theorem isAbort_writes (n : Nat) : (writes ps n : List (SinkCall ε)).countP SinkCall.isAbort = 0 := by
  rw [countP_eq_zero]
  intro c hc
  obtain ⟨_, rfl⟩ := mem_writes hc
  exact Bool.false_ne_true

theorem Stage.sink (h : Stage o ps handled s u) : (∃ n, u.sink = writes ps n) ∨
    u.sink = writes ps ps.length ++ [.complete] ∧ Matches o u.hashes ps.flatten := by
  cases h with
  | waiting _ _ _ _ hsink _ _         => exact .inl ⟨_, hsink⟩
  | writing _ _ _ _ hsink _           => exact .inl ⟨_, hsink⟩
  | completing _ _ _ hsink _ hmatches => exact .inr ⟨hsink, hmatches⟩
  | completed _ _ _ hsink _ hmatches  => exact .inr ⟨hsink, hmatches⟩

theorem BeforeAbort.facts {calls : List (SinkCall ε)} (h : BeforeAbort o ps hashes calls) :
    (∃ n, calls.filterMap SinkCall.chunk = ps.take n) ∧ calls.countP SinkCall.isComplete ≤ 1 ∧
      calls.countP SinkCall.isAbort = 0 ∧
      (.complete ∈ calls → Matches o hashes ps.flatten ∧ calls.filterMap SinkCall.chunk = ps) := by
  rcases h with ⟨n, rfl⟩ | ⟨rfl, hmatches⟩
  · exact ⟨⟨n, chunks_writes n⟩, by rw [isComplete_writes]; exact Nat.zero_le 1, isAbort_writes n,
      fun hc => absurd hc (complete_not_mem_writes n)⟩
  · have hchunks : (writes ps ps.length ++ [.complete] : List (SinkCall ε)).filterMap SinkCall.chunk = ps := by
      rw [filterMap_append, chunks_writes, take_length]
      exact append_nil ps
    refine ⟨⟨ps.length, by rw [hchunks, take_length]⟩, ?_, ?_, fun _ => ⟨hmatches, hchunks⟩⟩
    · rw [countP_append, isComplete_writes]
      exact Nat.le_refl 1
    · rw [countP_append, isAbort_writes]
      rfl

theorem UploadState.exact {as : List (UploadAction ε)} (h : UploadState o hashes ps as s u) : Exact o hashes ps as s u := by
  rcases h.state with ⟨handled, hgoing, hfine, hsaved⟩ | ⟨hfailed, hcause⟩
  · have hbefore : BeforeAbort o ps hashes u.sink := h.hashes ▸ hgoing.stage.sink
    obtain ⟨horder, honce, hnoAbort, hverified⟩ := hbefore.facts
    have habort : ∀ reason, .abort reason ∉ u.sink := by
      intro reason hmem
      exact absurd rfl (countP_eq_zero.1 hnoAbort _ hmem)
    refine ⟨horder, honce, hverified, fun reason hmem => absurd hmem (habort reason), ?_, ?_, ?_⟩
    · rintro ⟨a, ha, hfails⟩
      exact absurd (hfine a ha) hfails
    · intro _ hall hqueue hwork _
      cases hgoing.stage with
      | waiting hc _ _ _ _ hnext hbound =>
        have hin := hall u.nextPart hbound
        rw [hsaved hc, hqueue, map_nil, append_nil] at hin
        exact absurd hin hnext
      | writing _ _ _ hw _ _            => rw [hwork] at hw; cases hw
      | completing _ _ hw _ _ _         => rw [hwork] at hw; cases hw
      | completed _ hst _ hsink _ _     => exact ⟨hsink, hst⟩
    · intro _ hall hqueue hwork hno
      cases hgoing.stage with
      | waiting hc _ _ _ _ hnext hbound =>
        have hin := hall u.nextPart hbound
        rw [hsaved hc, hqueue, map_nil, append_nil] at hin
        exact absurd hin hnext
      | writing _ _ _ hw _ _            => rw [hwork] at hw; cases hw
      | completing _ _ hw _ _ _         => rw [hwork] at hw; cases hw
      | completed _ _ _ _ _ hmatches    => exact absurd (h.hashes ▸ hmatches) hno
  · obtain ⟨calls, reason, hsink, hbefore⟩ := hfailed.sink
    obtain ⟨⟨n, hchunks⟩, honce, hnoAbort, hverified⟩ := hbefore.facts
    have hchunks' : u.sink.filterMap SinkCall.chunk = calls.filterMap SinkCall.chunk := by
      rw [hsink, filterMap_append]
      exact append_nil _
    have hmismatch : (∀ a ∈ as, a.failure = none) →
        ¬ Matches o hashes ps.flatten ∧ ∃ message, u.sink = writes ps ps.length ++ [.abort (.error message)] := by
      intro hfine
      rcases hcause with ⟨a, ha, hfails⟩ | ⟨hno, hcalls⟩
      · exact absurd (hfine a ha) hfails
      · exact ⟨h.hashes ▸ hno, hcalls⟩
    refine ⟨⟨n, hchunks'.trans hchunks⟩, ?_, fun hc => ?_, fun reason' hmem => ⟨hfailed.staged, calls, ?_, hnoAbort⟩,
      fun _ => ⟨reason, by rw [hsink]; simp⟩, fun hfine _ _ _ hm => absurd hm (hmismatch hfine).1,
      fun hfine _ _ _ _ => (hmismatch hfine).2⟩
    · rw [hsink, countP_append]
      exact honce
    · rw [hsink] at hc
      rcases mem_append.1 hc with hc | hc
      · rw [hchunks', ← h.hashes]
        exact hverified hc
      · rw [mem_singleton] at hc
        cases hc
    · rw [hsink] at hmem ⊢
      rcases mem_append.1 hmem with hmem | hmem
      · exact absurd rfl (countP_eq_zero.1 hnoAbort _ hmem)
      · rw [mem_singleton] at hmem
        rw [hmem]

/-- **A file reaches its sink**, whatever the order in which its parts are saved and handled, if it ends in bytes and the
sink rejects with true values; and the parts that were saved are done with once the sink has answered. -/
theorem file_reaches_sink (o : Outside ε) (hashes : IMMediaUploadHashes) (ps : List (List UInt8))
    (hsize : hashes.size = ps.flatten.length) (hends : EndsInBytes ps) (as : List (UploadAction ε)) (s : UploadManager ε)
    (hrun : Runs.run (PreparedUploads.step o) (preparedManager hashes) as = some s) (hfile : ∀ a ∈ as, OfFile o ps a)
    (hwindow : WithinWindow ps (as.filterMap UploadAction.saved)) :
    (∃ u, s.upload 0 = some u ∧ Exact o hashes ps as s u) ∧
      ∃ (bs : List (UploadAction ε)) (s' : UploadManager ε) (u' : PreparedUpload ε),
        (∀ b ∈ bs, OfFile o ps b ∧ b.saved = none ∧ b.failure = none) ∧
          Runs.run (PreparedUploads.step o) s bs = some s' ∧ s'.upload 0 = some u' ∧ u'.queue = [] ∧ u'.work = .idle := by
  have hpos : 0 < ps.length := by
    rcases hends with hone | ⟨last, hlast, _⟩
    · omega
    · cases ps with
      | nil       => cases hlast
      | cons p ps => exact Nat.succ_pos _
  have hinit : UploadState o hashes ps [] (preparedManager hashes) { hashes } := by
    refine ⟨rfl, rfl, .inl ⟨[], ⟨?_, rfl, rfl, .waiting rfl rfl rfl rfl rfl (by simp) hpos⟩, fun _ h => (by cases h), fun _ => rfl⟩⟩
    exact ⟨Nat.zero_le _, rfl, rfl, rfl, rfl, fun _ h => absurd h (Nat.not_lt_zero _), fun part => by simp,
      nodup_nil, rfl, fun _ h => by cases h⟩
  obtain ⟨u, hu⟩ := UploadState.run hends hsize as hinit hfile hwindow hrun
  refine ⟨⟨u, (upload_iff hu.preparations).2 ⟨rfl, rfl⟩, hu.exact⟩, ?_⟩
  obtain ⟨bs, s', u', hbs, hquiet⟩ := quiet_reachable o (load u + 1) hu.preparations (Nat.lt_succ_self _)
  exact ⟨bs, s', u', fun b hb => ⟨(hbs b hb).1 ps, (hbs b hb).2⟩, hquiet⟩

end

theorem file_reaches_sink_reversed : ∃ (s : UploadManager Unit) (u : PreparedUpload Unit), s.upload 0 = some u ∧
    Exact plainOutside (emptyHashes 2) [[1], [2]] [.savePart 1 [2], .savePart 0 [1], .start 0, .start 0, .written 0 none,
      .written 0 none, .completed 0 none] s u := by
  obtain ⟨s, hrun⟩ : ∃ s, Runs.run (step plainOutside) (preparedManager (emptyHashes 2)) [.savePart 1 [2],
      .savePart 0 [1], .start 0, .start 0, .written 0 none, .written 0 none, .completed 0 none] = some s := ⟨_, rfl⟩
  have hfew : ∀ p : Nat → Bool, ((List.range 2).filter p).length ≤ MAX_PREPARED_OUT_OF_ORDER_PARTS ∧
      bytesOf (partBytes [[1], [2]] ((List.range 2).filter p)) ≤ MAX_PREPARED_OUT_OF_ORDER_BYTES := by
    intro p
    rw [show List.range 2 = [0, 1] from rfl, filter_cons, filter_cons, filter_nil]
    cases p 0 <;> cases p 1 <;> decide
  have hfile : ∀ a ∈ ([.savePart 1 [2], .savePart 0 [1], .start 0, .start 0, .written 0 none, .written 0 none,
      .completed 0 none] : List (UploadAction Unit)), OfFile plainOutside [[1], [2]] a := by
    intro a ha
    simp only [mem_cons, not_mem_nil, or_false] at ha
    rcases ha with rfl | rfl | rfl | rfl | rfl | rfl | rfl <;> first | rfl | trivial | exact nofun
  exact ⟨s, (file_reaches_sink plainOutside (emptyHashes 2) [[1], [2]] rfl (.inr ⟨[2], rfl, nofun⟩) _ s hrun hfile
    (fun _ _ _ _ _ => hfew _)).1⟩

/-- A file whose last part is empty, its parts saved at once: the sink has completed, and is aborted all the same. -/
theorem empty_last_part_aborts :
    (∀ a ∈ ([.savePart 0 [1], .savePart 1 []] : List (UploadAction Unit)), OfFile plainOutside [[1], []] a) ∧
      (emptyHashes 1).size = [[1], []].flatten.length ∧
      (Runs.run (step plainOutside) (preparedManager (emptyHashes 1)) [.savePart 0 [1], .savePart 1 [], .start 0,
        .written 0 none, .completed 0 none, .start 0]).map (fun s => (s.staged, (s.upload 0).map PreparedUpload.sink)) =
          some (some 0, some [.write [1], .complete, .abort (.error "Digest already called")]) := by
  refine ⟨fun a ha => ?_, rfl, by decide⟩
  simp only [mem_cons, not_mem_nil, or_false] at ha
  rcases ha with rfl | rfl <;> rfl

end PreparedUploads
end Crossgram
