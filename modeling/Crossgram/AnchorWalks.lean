import Crossgram.HistoryBackfill
import Crossgram.Lib.Backwards
/-!
# AnchorWalks — a conversation read backwards from an anchor (packages/history-backfill/src/worker.ts, packages/bridge/src/platform-manager.ts)

The conversation upstream does not change and answers every request.  A walk is one `_run` for the conversation after
another, until it is floored.  The next anchor is the oldest message of the page, by second and then by id, where it is of
an earlier second than the anchor; a page without such a message leaves the anchor where it is.
-/
namespace Crossgram
namespace AnchorWalk

open HistoryBackfillWorker

/-- `localeCompare`, a consistent comparison. -/
structure Collation where
  compare : String → String → Int
  total : ∀ a b, compare a b ≤ 0 ∨ compare b a ≤ 0
  trans : ∀ a b c, compare a b ≤ 0 → compare b c ≤ 0 → compare a c ≤ 0

structure UpstreamConversation where
  messages : List StoredMessageAnchor
  distinct : (messages.map StoredMessageAnchor.id).Nodup

def UpstreamConversation.newestBefore (u : UpstreamConversation) (anchor : StoredMessageAnchor) (limit : Int) :
    List StoredMessageAnchor :=
  Backwards.pageBefore StoredMessageAnchor.id u.messages anchor.id limit.toNat

def UpstreamConversation.preceding (u : UpstreamConversation) (anchor : StoredMessageAnchor) : List StoredMessageAnchor :=
  Backwards.preceding StoredMessageAnchor.id u.messages anchor.id

/-- The comparison of `backfillHistory` does not put `right` first. -/
def Collation.le (c : Collation) (left right : StoredMessageAnchor) : Bool :=
  left.timestamp < right.timestamp || (left.timestamp = right.timestamp && c.compare left.id right.id ≤ 0)

def Collation.oldest (c : Collation) (page : List StoredMessageAnchor) : Option StoredMessageAnchor :=
  (page.mergeSort c.le).head?

/-- `backfillHistory`: what is not stored is created. -/
def backfillHistory (c : Collation) (stored : List String) (page : List StoredMessageAnchor) : HistoryBackfillPage :=
  { fetched := page.length
    inserted := (page.filter (fun message => decide (message.id ∉ stored))).length
    oldest := c.oldest page
    minSequence := none }

theorem Collation.oldest_eq_none {c : Collation} {page : List StoredMessageAnchor} : c.oldest page = none ↔ page = [] := by
  unfold Collation.oldest
  rw [List.head?_eq_none_iff, ← List.length_eq_zero_iff, List.length_mergeSort, List.length_eq_zero_iff]

/-- **Sorted by number, and by name where numbers agree.** -/
theorem Collation.pairwise_sorted {α : Type} (c : Collation) (key : α → Int) (name : α → String) (l : List α) :
    (l.mergeSort (fun left right => key left < key right ||
      (key left = key right && c.compare (name left) (name right) ≤ 0))).Pairwise (fun x y => key x ≤ key y) := by
  refine (List.pairwise_mergeSort (fun x y z => ?_) (fun x y => ?_) l).imp (fun hle => ?_)
  · simp only [Bool.or_eq_true, Bool.and_eq_true, decide_eq_true_eq]
    have := c.trans (name x) (name y) (name z)
    omega
  · simp only [Bool.or_eq_true, Bool.and_eq_true, decide_eq_true_eq]
    have := c.total (name x) (name y)
    omega
  · simp only [Bool.or_eq_true, Bool.and_eq_true, decide_eq_true_eq] at hle
    omega

variable {o : StoredMessageAnchor}

/-- **The oldest message of a page** is in it, and no other is of an earlier second. -/
theorem Collation.oldest_spec {c : Collation} {page : List StoredMessageAnchor}
    (h : c.oldest page = some o) : o ∈ page ∧ ∀ m ∈ page, o.timestamp ≤ m.timestamp := by
  have hsorted : (page.mergeSort c.le).Pairwise (fun x y => x.timestamp ≤ y.timestamp) :=
    c.pairwise_sorted StoredMessageAnchor.timestamp StoredMessageAnchor.id page
  unfold Collation.oldest at h
  obtain ⟨rest, hrest⟩ := List.head?_eq_some_iff.1 h
  rw [hrest] at hsorted
  refine ⟨List.mem_mergeSort.1 (by rw [hrest]; exact List.mem_cons_self), fun m hm => ?_⟩
  have hm : m ∈ page.mergeSort c.le := List.mem_mergeSort.2 hm
  rw [hrest] at hm
  rcases List.mem_cons.1 hm with rfl | hm
  · exact Int.le_refl _
  · exact List.rel_of_pairwise_cons hsorted hm

/-! ## The walk -/

structure WalkState where
  conversation : ConversationState
  stored : List String

variable (options : BackfillOptions) (h : BackfillHost) (u : UpstreamConversation) (c : Collation)
variable (session id : String) (now : Nat → Int)

def serving (stored : List String) : BackfillHost :=
  { h with
    backfill := fun session id query => match query with
      | .before anchor limit      => .ok (backfillHistory c stored (u.newestBefore anchor limit))
      | .beforeSequence seq limit => h.backfill session id (.beforeSequence seq limit) }

/-- One `_run`, at `now`; the page is stored. -/
def step (now : Int) (w : WalkState) : WalkState :=
  if w.conversation.floorReached then w
  else
    let (conversation, query) := runState options (serving h u c w.stored) now session (.floor id) w.conversation
    { conversation := conversation
      stored := match query with
        | some (.before anchor limit) => w.stored ++ (u.newestBefore anchor limit).map StoredMessageAnchor.id
        | _                           => w.stored }

def walk (w : WalkState) : Nat → WalkState
  | 0     => w
  | n + 1 => step options h u c session id (now n) (walk w n)

def anchor (w : WalkState) : Option StoredMessageAnchor := w.conversation.oldest.or (h.oldestStoredMessage session id)

/-- **The walk always advances**: a run floors the conversation or leaves an anchor that precedes the one before, and the walk
ends with everything stored that precedes the first one. -/
structure Advances (w : WalkState) (first : StoredMessageAnchor) : Prop where
  advances : ∀ n previous, (walk options h u c session id now w n).conversation.floorReached = false →
    anchor h session id (walk options h u c session id now w n) = some previous →
    (walk options h u c session id now w (n + 1)).conversation.floorReached = true ∨
      ∃ next ∈ u.preceding previous, anchor h session id (walk options h u c session id now w (n + 1)) = some next
  ends : ∃ n, (walk options h u c session id now w n).conversation.floorReached = true ∧
    ∀ message ∈ u.preceding first, message.id ∈ (walk options h u c session id now w n).stored

/-! ## The pages upstream -/

def page (a : StoredMessageAnchor) : List StoredMessageAnchor := u.newestBefore a options.pageSize

def anchorAt (first : StoredMessageAnchor) : Nat → Option StoredMessageAnchor
  | 0     => some first
  | n + 1 => (anchorAt first n).bind (fun a => c.oldest (page options u a))

/-- The first `n` pages. -/
def pagesBefore (first : StoredMessageAnchor) : Nat → List StoredMessageAnchor
  | 0     => []
  | n + 1 => pagesBefore first n ++ ((anchorAt options u c first n).elim [] (page options u))

def Aged (n : Nat) (a : StoredMessageAnchor) : Prop :=
  beyondAge options a.timestamp (now n) = true ∨ (n ≠ 0 ∧ beyondAge options a.timestamp (now (n - 1)) = true)

/-- Each page on the way that is not empty has a message of an earlier second than its anchor, and the age limit ends nothing
before everything has been read. -/
structure Unhindered (first : StoredMessageAnchor) : Prop where
  earlier : ∀ n a, anchorAt options u c first n = some a →
    (∀ k ≤ n, ∀ b, anchorAt options u c first k = some b → ¬Aged options now k b) →
    page options u a = [] ∨ ∃ message ∈ page options u a, message.timestamp < a.timestamp
  young : ∀ n a, anchorAt options u c first n = some a →
    (∀ k < n, ∀ b, anchorAt options u c first k = some b → ¬Aged options now k b) → Aged options now n a →
    ∀ message ∈ u.preceding first, message ∈ pagesBefore options u c first n

variable {options h u c session id now}
variable {w : WalkState} {a first : StoredMessageAnchor}

/-! ## One run -/

variable {at' : Int}

theorem step_floored (hfloored : w.conversation.floorReached = true) :
    step options h u c session id at' w = w :=
  if_pos hfloored

theorem plan_eq {oldestStored : Option StoredMessageAnchor} (hmode : w.conversation.mode = .anchor)
    (hanchor : w.conversation.oldest.or oldestStored = some a) :
    plan options at' oldestStored (.floor id) w.conversation =
      if beyondAge options a.timestamp at' then (ConversationState.floor { w.conversation with oldest := some a } .age, none)
      else ({ w.conversation with oldest := some a }, some (.before a options.pageSize)) := by
  have hplan : plan options at' oldestStored (.floor id) w.conversation =
      planAnchor options at' oldestStored w.conversation := by
    unfold plan
    dsimp only
    rw [hmode]
  rw [hplan]
  unfold planAnchor
  rw [hanchor]

def asking (w : WalkState) (a : StoredMessageAnchor) : ConversationState :=
  { w.conversation with oldest := some a, requests := w.conversation.requests + 1 }

theorem runState_eq (hmode : w.conversation.mode = .anchor) (hanchor : anchor h session id w = some a) :
    runState options (serving h u c w.stored) at' session (.floor id) w.conversation =
      if beyondAge options a.timestamp at' then (ConversationState.floor { w.conversation with oldest := some a } .age, none)
      else (succeed options at' (.floor id) (.before a options.pageSize) (backfillHistory c w.stored (page options u a))
        (asking w a), some (.before a options.pageSize)) := by
  have hplan : plan options at' (h.oldestStoredMessage session id) (.floor id) w.conversation = _ := plan_eq hmode hanchor
  unfold runState
  dsimp only
  have hstored : (serving h u c w.stored).oldestStoredMessage session (workConversation (.floor id)) =
      h.oldestStoredMessage session id := rfl
  rw [hstored, hplan]
  by_cases haged : beyondAge options a.timestamp at' = true
  · rw [if_pos haged, if_pos haged]
  · rw [if_neg haged, if_neg haged]
    rfl

theorem step_aged (hmode : w.conversation.mode = .anchor) (hopen : w.conversation.floorReached = false)
    (hanchor : anchor h session id w = some a) (haged : beyondAge options a.timestamp at' = true) :
    (step options h u c session id at' w).conversation.floorReached = true ∧
      (step options h u c session id at' w).stored = w.stored := by
  unfold step
  rw [if_neg (by rw [hopen]; exact Bool.false_ne_true), runState_eq hmode hanchor, if_pos haged]
  exact ⟨rfl, rfl⟩

def leftAnchor (a o : StoredMessageAnchor) : StoredMessageAnchor := if o.timestamp < a.timestamp then o else a

theorem succeed_empty (hempty : page options u a = []) :
    (succeed options at' (.floor id) (.before a options.pageSize) (backfillHistory c w.stored (page options u a))
      (asking w a)).floorReached = true := by
  unfold succeed cover
  rw [hempty]
  rfl

theorem succeed_page (hmode : w.conversation.mode = .anchor)
    (hopen : w.conversation.floorReached = false) (ho : c.oldest (page options u a) = some o) :
    (succeed options at' (.floor id) (.before a options.pageSize) (backfillHistory c w.stored (page options u a))
        (asking w a)).mode = .anchor ∧
      (succeed options at' (.floor id) (.before a options.pageSize) (backfillHistory c w.stored (page options u a))
        (asking w a)).oldest = some (leftAnchor a o) ∧
      (succeed options at' (.floor id) (.before a options.pageSize) (backfillHistory c w.stored (page options u a))
        (asking w a)).floorReached = beyondAge options (leftAnchor a o).timestamp at' := by
  have hpage : (backfillHistory c w.stored (page options u a)).oldest = some o := ho
  have hfetched : (backfillHistory c w.stored (page options u a)).fetched ≠ 0 := by
    intro hzero
    have hempty : page options u a = [] := List.length_eq_zero_iff.1 hzero
    rw [Collation.oldest_eq_none.2 hempty] at ho
    cases ho
  have hid : o.id ≠ a.id :=
    Backwards.key_ne_of_mem_preceding (Backwards.mem_preceding_of_mem_page (Collation.oldest_spec ho).1)
  generalize backfillHistory c w.stored (page options u a) = p at hpage hfetched ⊢
  have hcount : (count p (asking w a)).oldest = some (leftAnchor a o) := by
    unfold count asking leftAnchor
    dsimp only
    rw [hpage]
    by_cases hearlier : o.timestamp < a.timestamp
    · rw [if_pos hearlier, Option.filter_some_pos (by rw [Option.all_some, decide_eq_true hearlier])]
      rfl
    · rw [if_neg hearlier, Option.filter_some_neg (by rw [Option.all_some, decide_eq_false hearlier])]
      rfl
  have hcover : cover (.floor id) (.before a options.pageSize) p (count p (asking w a)) = count p (asking w a) := by
    unfold cover
    dsimp only
    rw [if_neg]
    rw [hpage, Option.all_some, decide_eq_true_eq]
    rintro (hzero | hsame)
    · exact hfetched hzero
    · exact hid hsame
  have hcountOpen : (count p (asking w a)).floorReached = false := hopen
  have hcountMode : (count p (asking w a)).mode = .anchor := hmode
  unfold succeed
  dsimp only
  rw [hcover, hcount, Option.any_some]
  by_cases haged : beyondAge options (leftAnchor a o).timestamp at' = true
  · rw [if_pos ⟨hcountOpen, haged⟩, haged]
    exact ⟨hcountMode, hcount, rfl⟩
  · rw [if_neg (fun hboth => haged hboth.2), hcount, hcountOpen, hcountMode, Bool.eq_false_of_not_eq_true haged]
    exact ⟨rfl, rfl, rfl⟩

/-- **A run that asks**: the page is stored; an empty one floors the conversation, another one leaves its oldest message or the
anchor. -/
theorem step_asks (hmode : w.conversation.mode = .anchor) (hopen : w.conversation.floorReached = false)
    (hanchor : anchor h session id w = some a) (hyoung : beyondAge options a.timestamp at' = false) :
    (step options h u c session id at' w).stored = w.stored ++ (page options u a).map StoredMessageAnchor.id ∧
      (page options u a = [] → (step options h u c session id at' w).conversation.floorReached = true) ∧
      ∀ o, c.oldest (page options u a) = some o →
        (step options h u c session id at' w).conversation.mode = .anchor ∧
        (step options h u c session id at' w).conversation.oldest = some (leftAnchor a o) ∧
        (step options h u c session id at' w).conversation.floorReached =
          beyondAge options (leftAnchor a o).timestamp at' := by
  unfold step
  rw [if_neg (by rw [hopen]; exact Bool.false_ne_true), runState_eq hmode hanchor,
    if_neg (by rw [hyoung]; exact Bool.false_ne_true)]
  dsimp only
  refine ⟨rfl, fun hempty => ?_, fun o ho => ?_⟩
  · exact succeed_empty hempty
  · exact succeed_page hmode hopen ho

/-! ## The anchors on the way -/

theorem page_mem_preceding (ho : c.oldest (page options u a) = some o) : o ∈ u.preceding a :=
  Backwards.mem_preceding_of_mem_page (Collation.oldest_spec ho).1

variable {n : Nat}

theorem anchorAt_isSome_of_le (hn : anchorAt options u c first n = some a) :
    ∀ {k}, k ≤ n → ∃ b, anchorAt options u c first k = some b := by
  induction n generalizing a with
  | zero =>
    intro k hk
    rw [Nat.le_zero.1 hk]
    exact ⟨a, hn⟩
  | succ n ih =>
    intro k hk
    rcases Nat.lt_or_eq_of_le hk with hk | rfl
    · unfold anchorAt at hn
      obtain ⟨b, hb, -⟩ := Option.bind_eq_some_iff.1 hn
      exact ih hb (Nat.le_of_lt_succ hk)
    · exact ⟨a, hn⟩

theorem anchorAt_succ (hn : anchorAt options u c first (n + 1) = some a) :
    ∃ b, anchorAt options u c first n = some b ∧ c.oldest (page options u b) = some a :=
  Option.bind_eq_some_iff.1 hn

/-- **What precedes the first anchor** is on the pages before an anchor on the way, or precedes it. -/
theorem read_or_preceding : ∀ (n : Nat) {a : StoredMessageAnchor}, anchorAt options u c first n = some a →
    (∀ m ∈ u.preceding first, m ∈ pagesBefore options u c first n ∨ m ∈ u.preceding a) ∧
      (∀ m ∈ u.preceding a, m ∈ u.preceding first) ∧ ∀ m ∈ pagesBefore options u c first n, m ∈ u.preceding first
  | 0, a, hn => by
    cases hn
    exact ⟨fun m hm => .inr hm, fun m hm => hm, fun m hm => (by cases hm)⟩
  | n + 1, a, hn => by
    obtain ⟨b, hb, hoa⟩ := anchorAt_succ hn
    obtain ⟨hcovered, hback, hpages⟩ := read_or_preceding n hb
    have hread : pagesBefore options u c first (n + 1) = pagesBefore options u c first n ++ page options u b := by
      rw [pagesBefore, hb]
      rfl
    rw [hread]
    refine ⟨fun m hm => ?_, fun m hm => hback m (Backwards.preceding_subset u.distinct (page_mem_preceding hoa) hm),
      fun m hm => ?_⟩
    · rcases hcovered m hm with hm | hm
      · exact .inl (List.mem_append_left _ hm)
      · rcases Backwards.mem_page_or_preceding u.distinct (Collation.oldest_spec hoa).1 hm with hm | hm
        · exact .inl (List.mem_append_right _ hm)
        · exact .inr hm
    · rcases List.mem_append.1 hm with hm | hm
      · exact hpages m hm
      · exact hback m (Backwards.mem_preceding_of_mem_page hm)

/-! ## The run -/

/-- Nothing has stopped the walk before its `n`th run. -/
def Free (options : BackfillOptions) (u : UpstreamConversation) (c : Collation) (now : Nat → Int) (first : StoredMessageAnchor)
    (n : Nat) : Prop :=
  ∀ k < n, ∀ b, anchorAt options u c first k = some b →
    ¬Aged options now k b ∧ ∃ m ∈ page options u b, m.timestamp < b.timestamp

/-- **The walk is at the anchor the pages lead to**, with these pages stored. -/
theorem walk_at (hmode : w.conversation.mode = .anchor) (hopen : w.conversation.floorReached = false)
    (hfirst : anchor h session id w = some first) : ∀ (n : Nat) {a : StoredMessageAnchor},
    anchorAt options u c first n = some a → Free options u c now first n →
    (walk options h u c session id now w n).conversation.mode = .anchor ∧
      anchor h session id (walk options h u c session id now w n) = some a ∧
      (walk options h u c session id now w n).stored =
        w.stored ++ (pagesBefore options u c first n).map StoredMessageAnchor.id ∧
      ((walk options h u c session id now w n).conversation.floorReached = true ↔
        n ≠ 0 ∧ beyondAge options a.timestamp (now (n - 1)) = true)
  | 0, a, hn, _ => by
    cases hn
    refine ⟨hmode, hfirst, (List.append_nil _).symm, ?_⟩
    show w.conversation.floorReached = true ↔ _
    rw [hopen]
    exact ⟨fun h => (by cases h), fun h => absurd rfl h.1⟩
  | n + 1, a, hn, hfree => by
    obtain ⟨b, hb, hoa⟩ := anchorAt_succ hn
    obtain ⟨hmodeN, hanchorN, hstoredN, hfloorN⟩ :=
      walk_at hmode hopen hfirst n hb (fun k hk => hfree k (Nat.lt_succ_of_lt hk))
    obtain ⟨hyoung, m, hm, hearlier⟩ := hfree n (Nat.lt_succ_self n) b hb
    unfold Aged at hyoung
    rw [not_or] at hyoung
    have hopenN : (walk options h u c session id now w n).conversation.floorReached = false := by
      rw [← Bool.not_eq_true, hfloorN]
      exact hyoung.2
    obtain ⟨hstored, -, hpage⟩ := step_asks (u := u) (c := c) hmodeN hopenN hanchorN
      (Bool.eq_false_of_not_eq_true hyoung.1)
    obtain ⟨hmode', holdest, hfloor⟩ := hpage a hoa
    have hleft : leftAnchor b a = a := if_pos (Int.lt_of_le_of_lt ((Collation.oldest_spec hoa).2 m hm) hearlier)
    rw [hleft] at holdest hfloor
    refine ⟨hmode', ?_, ?_, ?_⟩
    · unfold anchor
      show (step _ _ _ _ _ _ _ _).conversation.oldest.or _ = _
      rw [holdest]
      rfl
    · show (step _ _ _ _ _ _ _ _).stored = _
      rw [hstored, hstoredN, pagesBefore, hb, List.append_assoc, List.map_append]
      rfl
    · show (step _ _ _ _ _ _ _ _).conversation.floorReached = true ↔ _
      rw [hfloor, Nat.add_sub_cancel]
      exact ⟨fun haged => ⟨Nat.succ_ne_zero n, haged⟩, fun haged => haged.2⟩

theorem walk_floored (hfloored : (walk options h u c session id now w n).conversation.floorReached = true) :
    ∀ m, n ≤ m → walk options h u c session id now w m = walk options h u c session id now w n := by
  intro m hm
  induction m, hm using Nat.le_induction with
  | base => rfl
  | succ m hm ih =>
    show step options h u c session id (now m) (walk options h u c session id now w m) = _
    rw [ih]
    exact step_floored hfloored

/-- **The walk ends**: at an anchor beyond the age limit or with an empty page. -/
theorem exists_stop (now : Nat → Int) : ∀ (length n : Nat) {a : StoredMessageAnchor}, (u.preceding a).length = length →
    anchorAt options u c first n = some a → (∀ k < n, ∀ b, anchorAt options u c first k = some b → ¬Aged options now k b) →
    ∃ N b, anchorAt options u c first N = some b ∧
      (∀ k < N, ∀ b, anchorAt options u c first k = some b → ¬Aged options now k b) ∧
      (Aged options now N b ∨ page options u b = []) := by
  intro length
  induction length using Nat.strongRecOn with
  | ind length ih =>
    intro n a hlength hn hyoung
    by_cases haged : Aged options now n a
    · exact ⟨n, a, hn, hyoung, .inl haged⟩
    cases ho : c.oldest (page options u a) with
    | none => exact ⟨n, a, hn, hyoung, .inr (Collation.oldest_eq_none.1 ho)⟩
    | some o =>
      have hlt : (u.preceding o).length < length := by
        rw [← hlength]
        exact Backwards.length_preceding_lt u.distinct (page_mem_preceding ho)
      have hnext : anchorAt options u c first (n + 1) = some o := by
        rw [anchorAt, hn]
        exact ho
      refine ih _ hlt (n + 1) rfl hnext (fun k hk b hb => ?_)
      rcases Nat.lt_or_eq_of_le (Nat.le_of_lt_succ hk) with hk | rfl
      · exact hyoung k hk b hb
      · rw [hn] at hb
        cases hb
        exact haged

theorem page_ne_nil (hn : anchorAt options u c first n = some a) {k : Nat} (hk : k < n) {b : StoredMessageAnchor}
    (hb : anchorAt options u c first k = some b) : page options u b ≠ [] := by
  intro hempty
  obtain ⟨b', hb'⟩ := anchorAt_isSome_of_le hn hk
  obtain ⟨b'', hb'', ho⟩ := anchorAt_succ hb'
  rw [hb] at hb''
  cases hb''
  rw [Collation.oldest_eq_none.2 hempty] at ho
  cases ho

theorem free_of_earlier (hearlier : ∀ n a, anchorAt options u c first n = some a →
      (∀ k ≤ n, ∀ b, anchorAt options u c first k = some b → ¬Aged options now k b) →
      page options u a = [] ∨ ∃ message ∈ page options u a, message.timestamp < a.timestamp)
    (hn : anchorAt options u c first n = some a)
    (hyoung : ∀ k < n, ∀ b, anchorAt options u c first k = some b → ¬Aged options now k b) :
    Free options u c now first n := fun k hk b hb =>
  ⟨hyoung k hk b hb, (hearlier k b hb (fun j hj => hyoung j (Nat.lt_of_le_of_lt hj hk))).resolve_left (page_ne_nil hn hk hb)⟩

theorem free_of_unhindered (hun : Unhindered options u c now first) (hn : anchorAt options u c first n = some a)
    (hyoung : ∀ k < n, ∀ b, anchorAt options u c first k = some b → ¬Aged options now k b) :
    Free options u c now first n :=
  free_of_earlier hun.earlier hn hyoung

theorem floored_at_stop (hsize : 1 ≤ options.pageSize) (hmode : w.conversation.mode = .anchor)
    (hopen : w.conversation.floorReached = false) (hfirst : anchor h session id w = some first)
    (hun : Unhindered options u c now first) (hn : anchorAt options u c first n = some a)
    (hyoung : ∀ k < n, ∀ b, anchorAt options u c first k = some b → ¬Aged options now k b)
    (hstop : Aged options now n a ∨ page options u a = []) :
    (walk options h u c session id now w (n + 1)).conversation.floorReached = true ∧
      (∀ m ∈ u.preceding first, m ∈ pagesBefore options u c first n) ∧
      ∀ message ∈ u.preceding first, message.id ∈ (walk options h u c session id now w (n + 1)).stored := by
  obtain ⟨hmodeN, hanchorN, hstoredN, hfloorN⟩ := walk_at hmode hopen hfirst n hn (free_of_unhindered hun hn hyoung)
  have hread : ∀ m ∈ u.preceding first, m ∈ pagesBefore options u c first n := by
    rcases hstop with haged | hempty
    · exact hun.young n a hn hyoung haged
    · intro m hm
      have hnil : u.preceding a = [] := (Backwards.page_eq_nil_iff (by omega)).1 hempty
      rcases (read_or_preceding n hn).1 m hm with hm | hm
      · exact hm
      · rw [hnil] at hm
        cases hm
  have hmem : ∀ message ∈ u.preceding first, message.id ∈ (walk options h u c session id now w n).stored := by
    intro message hmessage
    rw [hstoredN]
    exact List.mem_append_right _ (List.mem_map_of_mem (hread message hmessage))
  by_cases hfloored : (walk options h u c session id now w n).conversation.floorReached = true
  · rw [walk_floored hfloored (n + 1) (Nat.le_succ n)]
    exact ⟨hfloored, hread, hmem⟩
  have hopenN := Bool.eq_false_of_not_eq_true hfloored
  show (step _ _ _ _ _ _ _ _).conversation.floorReached = true ∧ _ ∧ ∀ message ∈ _, _ ∈ (step _ _ _ _ _ _ _ _).stored
  by_cases haged : beyondAge options a.timestamp (now n) = true
  · obtain ⟨hfloor, hstored⟩ := step_aged (u := u) (c := c) hmodeN hopenN hanchorN haged
    refine ⟨hfloor, hread, fun message hmessage => ?_⟩
    rw [hstored]
    exact hmem message hmessage
  · obtain ⟨hstored, hfloor, -⟩ := step_asks (u := u) (c := c) hmodeN hopenN hanchorN (Bool.eq_false_of_not_eq_true haged)
    refine ⟨hfloor ?_, hread, fun message hmessage => ?_⟩
    · rcases hstop with (hold | hold) | hempty
      · exact absurd hold haged
      · exact absurd (hfloorN.2 hold) hfloored
      · exact hempty
    · rw [hstored]
      exact List.mem_append_left _ (hmem message hmessage)

theorem advances_of_unhindered (hsize : 1 ≤ options.pageSize) (hmode : w.conversation.mode = .anchor)
    (hopen : w.conversation.floorReached = false) (hfirst : anchor h session id w = some first)
    (hun : Unhindered options u c now first) : Advances options h u c session id now w first := by
  obtain ⟨N, b, hN, hyoung, hstop⟩ := @exists_stop options u c first now _ 0 first rfl rfl
    (fun k hk => absurd hk (Nat.not_lt_zero k))
  obtain ⟨hfloored, -, hstored⟩ := floored_at_stop hsize hmode hopen hfirst hun hN hyoung hstop
  refine ⟨fun n previous hopenN hprevious => ?_, N + 1, hfloored, hstored⟩
  by_cases hn : n < N
  · obtain ⟨a, ha⟩ := anchorAt_isSome_of_le hN (Nat.le_of_lt hn)
    obtain ⟨a', ha'⟩ := anchorAt_isSome_of_le hN hn
    obtain ⟨a'', ha'', ho⟩ := anchorAt_succ ha'
    rw [ha] at ha''
    cases ha''
    have hfree := free_of_unhindered hun hN hyoung
    obtain ⟨-, hanchorN, -⟩ := walk_at hmode hopen hfirst n ha (fun k hk => hfree k (Nat.lt_trans hk hn))
    obtain ⟨-, hanchorN', -⟩ := walk_at hmode hopen hfirst (n + 1) ha' (fun k hk => hfree k (Nat.lt_of_lt_of_le hk hn))
    rw [hanchorN] at hprevious
    cases hprevious
    exact .inr ⟨a', page_mem_preceding ho, hanchorN'⟩
  · left
    by_cases hN' : n = N
    · rw [hN']
      exact hfloored
    · rw [walk_floored hfloored n (by omega), hfloored] at hopenN
      cases hopenN

theorem unhindered_of_advances (hmode : w.conversation.mode = .anchor) (hopen : w.conversation.floorReached = false)
    (hfirst : anchor h session id w = some first)
    (hstored : ∀ message ∈ u.preceding first, message.id ∉ w.stored) (hadv : Advances options h u c session id now w first) :
    Unhindered options u c now first := by
  have hearlier : ∀ n a, anchorAt options u c first n = some a →
      (∀ k ≤ n, ∀ b, anchorAt options u c first k = some b → ¬Aged options now k b) →
      page options u a = [] ∨ ∃ message ∈ page options u a, message.timestamp < a.timestamp := by
    intro n
    induction n using Nat.strongRecOn with
    | ind n ih =>
      intro a hn hyoung
      have hfree : Free options u c now first n := fun k hk b hb =>
        ⟨hyoung k (Nat.le_of_lt hk) b hb,
          (ih k hk b hb (fun j hj => hyoung j (Nat.le_trans hj (Nat.le_of_lt hk)))).resolve_left (page_ne_nil hn hk hb)⟩
      obtain ⟨hmodeN, hanchorN, -, hfloorN⟩ := walk_at hmode hopen hfirst n hn hfree
      have hyoungN := hyoung n (Nat.le_refl n) a hn
      unfold Aged at hyoungN
      rw [not_or] at hyoungN
      have hopenN : (walk options h u c session id now w n).conversation.floorReached = false := by
        rw [← Bool.not_eq_true, hfloorN]
        exact hyoungN.2
      obtain ⟨-, -, hpage⟩ := step_asks (u := u) (c := c) hmodeN hopenN hanchorN (Bool.eq_false_of_not_eq_true hyoungN.1)
      cases ho : c.oldest (page options u a) with
      | none => exact .inl (Collation.oldest_eq_none.1 ho)
      | some o =>
        right
        by_cases hless : o.timestamp < a.timestamp
        · exact ⟨o, (Collation.oldest_spec ho).1, hless⟩
        -- the anchor stays, and the conversation is not floored
        obtain ⟨-, holdest, hfloor⟩ := hpage o ho
        rw [show leftAnchor a o = a from if_neg hless] at holdest hfloor
        rcases hadv.advances n a hopenN hanchorN with hfloored | ⟨next, hnext, hanchor⟩
        · have hstep : (walk options h u c session id now w (n + 1)).conversation.floorReached =
              beyondAge options a.timestamp (now n) := hfloor
          rw [hstep] at hfloored
          exact absurd hfloored hyoungN.1
        · have hsame : anchor h session id (walk options h u c session id now w (n + 1)) = some a := by
            unfold anchor
            show (step _ _ _ _ _ _ _ _).conversation.oldest.or _ = _
            rw [holdest]
            rfl
          rw [hsame] at hanchor
          cases hanchor
          exact absurd rfl (Backwards.key_ne_of_mem_preceding hnext)
  refine ⟨hearlier, fun n a hn hyoung haged message hmessage => ?_⟩
  have hfree := free_of_earlier hearlier hn hyoung
  obtain ⟨hmodeN, hanchorN, hstoredN, hfloorN⟩ := walk_at hmode hopen hfirst n hn hfree
  obtain ⟨M, hfloored, hall⟩ := hadv.ends
  have hnM : n ≤ M := by
    by_contra hlt
    obtain ⟨b, hb⟩ := anchorAt_isSome_of_le hn (Nat.le_of_not_le hlt)
    obtain ⟨-, -, -, hfloorM⟩ := walk_at hmode hopen hfirst M hb (fun k hk => hfree k (by omega))
    exact hyoung M (by omega) b hb (.inr (hfloorM.1 hfloored))
  -- the walk has stopped there without another page
  have hlast : (walk options h u c session id now w M).stored = (walk options h u c session id now w n).stored := by
    by_cases hfloor : (walk options h u c session id now w n).conversation.floorReached = true
    · rw [walk_floored hfloor M hnM]
    · have hnow : beyondAge options a.timestamp (now n) = true :=
        haged.resolve_right (fun hold => hfloor (hfloorN.2 hold))
      obtain ⟨hfloor', hstored'⟩ := step_aged (u := u) (c := c) hmodeN (Bool.eq_false_of_not_eq_true hfloor) hanchorN hnow
      have hne : n ≠ M := by
        rintro rfl
        exact hfloor hfloored
      rw [walk_floored (n := n + 1) hfloor' M (by omega)]
      exact hstored'
  have hmem := hall message hmessage
  rw [hlast, hstoredN, List.mem_append] at hmem
  rcases hmem with hmem | hmem
  · exact absurd hmem (hstored message hmessage)
  obtain ⟨m, hm, hid⟩ := List.mem_map.1 hmem
  have hmessages : m ∈ u.messages := Backwards.mem_of_mem_preceding ((read_or_preceding n hn).2.2 m hm)
  rw [← List.inj_on_of_nodup_map u.distinct hmessages (Backwards.mem_of_mem_preceding hmessage) hid]
  exact hm

/-- **The walk always advances if and only if nothing hinders it.** -/
theorem advances_iff (options : BackfillOptions) (h : BackfillHost) (u : UpstreamConversation) (c : Collation)
    (session id : String) (now : Nat → Int) (w : WalkState) (first : StoredMessageAnchor) (hsize : 1 ≤ options.pageSize)
    (hmode : w.conversation.mode = .anchor) (hopen : w.conversation.floorReached = false)
    (hfirst : anchor h session id w = some first)
    (hstored : ∀ message ∈ u.preceding first, message.id ∉ w.stored) :
    Advances options h u c session id now w first ↔ Unhindered options u c now first :=
  ⟨unhindered_of_advances hmode hopen hfirst hstored, advances_of_unhindered hsize hmode hopen hfirst⟩

/-! ## Two messages -/

def storedFrom (oldest : StoredMessageAnchor) : BackfillHost :=
  { sessions := []
    lastActivityAt := fun _ => none
    supportsHistory := fun _ => true
    supportsSequenceHistory := fun _ => false
    listConversations := fun _ => []
    nativeSequences := fun _ _ => []
    oldestStoredMessage := fun _ _ => some oldest
    backfill := fun _ _ _ => .error "" }

def unlimited : BackfillOptions :=
  { idleAfterMs := 60000, pageSize := 50, dailyRequestCap := 1000, maxAgeDays := 0, conversationRefreshMs := 0,
    bootstrapBatch := 1 }

def twoMessages (second : Int) : UpstreamConversation := ⟨[⟨"m1", second⟩, ⟨"m2", 7⟩], (by decide : ["m1", "m2"].Nodup)⟩

def oneCollation : Collation := ⟨fun _ _ => 0, fun _ _ => .inl (Int.le_refl 0), fun _ _ _ _ h => h⟩

theorem page_m2 (second : Int) : page unlimited (twoMessages second) ⟨"m2", 7⟩ = [⟨"m1", second⟩] := rfl

theorem not_aged_unlimited (now : Nat → Int) (n : Nat) (a : StoredMessageAnchor) : ¬Aged unlimited now n a := by
  have hyoung : ∀ now : Int, ¬beyondAge unlimited a.timestamp now = true := by
    intro now haged
    unfold beyondAge at haged
    rw [decide_eq_true_eq] at haged
    exact absurd haged.1 (by decide)
  rintro (haged | ⟨-, haged⟩)
  · exact hyoung _ haged
  · exact hyoung _ haged

theorem advances_twoMessages :
    Advances unlimited (storedFrom ⟨"m2", 7⟩) (twoMessages 6) oneCollation "session" "room" (fun _ => 0)
      ⟨ConversationState.init .anchor, ["m2"]⟩ ⟨"m2", 7⟩ := by
  refine (advances_iff _ _ _ _ _ _ _ _ _ (by decide) rfl rfl rfl (by decide)).2 ?_
  have hone : anchorAt unlimited (twoMessages 6) oneCollation ⟨"m2", 7⟩ 1 = some ⟨"m1", 6⟩ := by
    show oneCollation.oldest (page unlimited (twoMessages 6) ⟨"m2", 7⟩) = _
    rw [page_m2]
    unfold Collation.oldest
    rw [List.mergeSort_singleton]
    rfl
  have hnone : ∀ n, anchorAt unlimited (twoMessages 6) oneCollation ⟨"m2", 7⟩ (n + 2) = none := by
    intro n
    induction n with
    | zero =>
      rw [anchorAt, hone]
      exact Collation.oldest_eq_none.2 rfl
    | succ n ih =>
      rw [anchorAt, ih]
      rfl
  refine ⟨fun n a hn _ => ?_, fun n a _ _ haged => absurd haged (not_aged_unlimited _ n a)⟩
  rcases n with _ | _ | n
  · cases hn
    exact .inr ⟨⟨"m1", 6⟩, List.mem_singleton.2 rfl, by decide⟩
  · rw [hone] at hn
    cases hn
    exact .inl rfl
  · rw [hnone n] at hn
    cases hn

/-- Two messages of one second: the anchor stays where it is. -/
theorem advances_oneSecond :
    ¬∀ (options : BackfillOptions) (h : BackfillHost) (u : UpstreamConversation) (c : Collation) (session id : String)
      (now : Nat → Int) (w : WalkState) (first : StoredMessageAnchor), 1 ≤ options.pageSize →
      w.conversation.mode = .anchor → w.conversation.floorReached = false → anchor h session id w = some first →
      (∀ message ∈ u.preceding first, message.id ∉ w.stored) → Advances options h u c session id now w first := by
  intro hall
  have hadv := hall unlimited (storedFrom ⟨"m2", 7⟩) (twoMessages 7) oneCollation "session" "room" (fun _ => 0)
    ⟨ConversationState.init .anchor, ["m2"]⟩ ⟨"m2", 7⟩ (by decide) rfl rfl rfl (by decide)
  have hun := unhindered_of_advances rfl rfl rfl (by decide) hadv
  have hpage := hun.earlier 0 ⟨"m2", 7⟩ rfl (fun k _ b _ => not_aged_unlimited _ k b)
  rw [page_m2] at hpage
  rcases hpage with hempty | ⟨message, hmessage, hearlier⟩
  · cases hempty
  · rw [List.mem_singleton.1 hmessage] at hearlier
    exact absurd hearlier (by decide)

end AnchorWalk
end Crossgram
