/-
The in-memory transactional backend.

Committed data is one ordered map.  A write transaction stages its changes in a
private view of the data at its snapshot and keeps the net effect of its changes:
the latest write of every key, and the ranges it cleared.  A commit applies that
net effect to the latest data.  The conflict evidence of past commits is a queue
of revisions that is pruned from the front, its last dropped number kept as a
floor.

* `State`, `pruneHistory`, `WriteTxn`, `commitWith` — the backend as the adapter
  runs it, with its limits;
* `WriteTxn.pending` — the net effect of a transaction on one key
  (`pending_applyPoint`);
* `lookup_publish` — a commit gives every key its pending value.
-/
import Ktann.Lib.OrderedMap
import Ktann.Storage.KeySpace

open List (any_cons)

namespace Memory

open KeySpace (KeyRange)

/-- The contents of a keyspace. -/
abbrev Store := OrderedMap Bytes fun _ => Bytes

/-- Whether a half-open range holds a key. -/
def contains (range : KeyRange) (key : Bytes) : Bool :=
  decide (range.start ≤ key) && decide (key < range.stop)

def covers (ranges : List KeyRange) (key : Bytes) : Bool := ranges.any (contains · key)

/-- The limits of a backend.  The optional ones exist in its test configuration
only. -/
structure Config where
  maxKeyBytes : ℕ
  maxValueBytes : ℕ
  maxMutations : ℕ
  maxMutationBytes : ℕ
  maxHistoryKeys : ℕ
  maxHistoryBytes : ℕ
  transactionalClearRange : Bool
  maxVersions : Option ℕ
  maxBatchSize : Option ℕ
  maxReadSet : Option ℕ
  maxMutationBuffer : Option ℕ
  maxDbKeys : Option ℕ
  maxDbBytes : Option ℕ
  maxScanItems : Option ℕ
  maxScanBytes : Option ℕ

def exceeds (limit : Option ℕ) (count : ℕ) : Bool := limit.any (decide <| · < count)

def limitExceeded : Error := Error.new .limitExceeded

/-! ### Committed state -/

/-- Conflict evidence for one committed revision. -/
structure Revision where
  number : ℕ
  keys : List Bytes
  cleared : List KeyRange

/-- Committed data and the conflict evidence kept for live writers. -/
structure State where
  data : Store
  revision : ℕ
  writers : List ℕ
  modified : OrderedMap Bytes fun _ => ℕ
  history : List Revision
  historyKeys : ℕ
  historyBytes : ℕ
  conflictFloor : ℕ

def State.new : State := ⟨.empty, 0, [], .empty, [], 0, 0, 0⟩

/-- The snapshot of the oldest live writer. -/
def State.oldest (s : State) : ℕ := (s.writers.min?).getD s.revision

variable (config : Config) (s : State)

/-- Whether the history is over one of its budgets. -/
def State.full : Bool :=
  decide (config.maxHistoryKeys < s.historyKeys) || decide (config.maxHistoryBytes < s.historyBytes)
    || decide (config.maxHistoryKeys < s.history.length)
    || exceeds config.maxVersions s.history.length

/-- Forget that a key was last modified by the revision that leaves the
history. -/
def forget (number : ℕ) (modified : OrderedMap Bytes fun _ => ℕ) (key : Bytes) :
    OrderedMap Bytes fun _ => ℕ :=
  if modified.lookup key = some number then modified.erase key else modified

def State.evict (front : Revision) (rest : List Revision) : State :=
  { s with
    history := rest
    conflictFloor := front.number
    historyKeys := s.historyKeys - front.keys.length - 2 * front.cleared.length
    historyBytes := s.historyBytes - (front.keys.map List.length).sum -
      (front.cleared.map fun r => r.start.length + r.stop.length).sum
    modified := front.keys.foldl (forget front.number) s.modified }

/-- The pruning loop over the revisions that remain. -/
def pruneFrom (config : Config) (oldest : ℕ) : List Revision → State → State
  | [], s => s
  | front :: rest, s =>
    if front.number ≤ oldest ∨ s.full config = true then
      pruneFrom config oldest rest (s.evict front rest)
    else s

/-- Drops obsolete or over-budget conflict history. -/
def State.pruneHistory : State := pruneFrom config s.oldest s.history s

/-- A writer's snapshot is no longer live. -/
def State.releaseWriter (revision : ℕ) : State :=
  { s with writers := s.writers.erase revision }.pruneHistory config

/-! ### Reads -/

structure ScanLimits where
  itemLimit : ℕ
  byteLimit : ℕ

/-- One page of a scan, and where the next one starts. -/
structure ScanPage where
  items : List (Bytes × Bytes)
  nextStart : Option Bytes

def validateKey (key : Bytes) : Except Error Unit :=
  if config.maxKeyBytes < key.length then .error limitExceeded else .ok ()

variable (data : Store)

def lookupKey (key : Bytes) : Except Error (Option Bytes) := do
  validateKey config key
  .ok (data.lookup key)

def checkBatch (size : ℕ) : Except Error Unit :=
  if exceeds config.maxBatchSize size then .error limitExceeded else .ok ()

def lookupBatch (keys : List Bytes) : Except Error (List (Option Bytes)) := do
  checkBatch config keys.length
  keys.mapM (lookupKey config data)

/-- The smallest key above a key, within the key limit. -/
def scanSuccessor (key : Bytes) (maxKeyBytes : ℕ) : Bytes :=
  if key.length < maxKeyBytes then key ++ [0] else KeySpace.successor key

/-- A page that ends before its range does, and continues after its last key. -/
def ScanPage.continued (items : List (Bytes × Bytes)) (maxKeyBytes : ℕ) : Except Error ScanPage :=
  match items.getLast? with
  | some last => .ok ⟨items, some (scanSuccessor last.1 maxKeyBytes)⟩
  | none => .error (.new .backend)

/-- The scan loop over the entries of the range that remain. -/
def pageFrom (config : Config) (limits : ScanLimits) :
    List (Bytes × Bytes) → List (Bytes × Bytes) → ℕ → Except Error ScanPage
  | [], items, _ => .ok ⟨items, none⟩
  | (key, value) :: rest, items, bytes =>
    if items ≠ [] ∧ (items.length = limits.itemLimit ∨
        limits.byteLimit - bytes < key.length + value.length) then
      ScanPage.continued items config.maxKeyBytes
    else pageFrom config limits rest (items ++ [(key, value)]) (bytes + (key.length + value.length))

def validateScan (limits : ScanLimits) : Except Error Unit :=
  if limits.itemLimit = 0 ∨ limits.byteLimit = 0 then .error .invalidArgument else .ok ()

/-- The configured ceilings of one page. -/
def scanLimits (limits : ScanLimits) : ScanLimits :=
  ⟨(config.maxScanItems.map (min limits.itemLimit)).getD limits.itemLimit,
    (config.maxScanBytes.map (min limits.byteLimit)).getD limits.byteLimit⟩

def entriesIn (range : KeyRange) : List (Bytes × Bytes) :=
  (data.scan (contains range)).map fun e => (e.1, e.2)

def scanPage (range : KeyRange) (limits : ScanLimits) : Except Error ScanPage := do
  validateScan limits
  if range.stop ≤ range.start then .ok ⟨[], none⟩
  else do
    validateKey config range.start
    validateKey config range.stop
    pageFrom config (scanLimits config limits) (entriesIn data range) [] 0

def batchScan (ranges : List KeyRange) (limits : ScanLimits) : Except Error (List ScanPage) := do
  checkBatch config ranges.length
  validateScan limits
  ranges.mapM (scanPage config data · limits)

/-! ### Write transactions -/

/-- An optimistic write transaction. -/
structure WriteTxn where
  revision : ℕ
  view : Store
  reserved : Finset Bytes
  writes : OrderedMap Bytes fun _ => Option Bytes
  clears : List KeyRange
  mutationCount : ℕ
  mutationBytes : ℕ

/-- One point mutation of a batch.  The batch type is open to kinds the adapter
does not know. -/
inductive Mutation
  | put (key value : Bytes)
  | delete (key : Bytes)
  | unknown

/-- The opening of a write transaction registers its snapshot. -/
def beginWrite : State × WriteTxn :=
  ({ s with writers := s.revision :: s.writers }, ⟨s.revision, s.data, ∅, .empty, [], 0, 0⟩)

/-- Writes or deletes one key of a map. -/
def setKey (key : Bytes) (value : Option Bytes) : Store :=
  match value with
  | some value => data.put key value
  | none => data.erase key

variable (txn : WriteTxn) (key : Bytes) (value : Option Bytes)

/-- Keeps the private view and the commit delta in step. -/
def WriteTxn.applyPoint : WriteTxn :=
  { txn with view := setKey txn.view key value, writes := txn.writes.put key value }

def WriteTxn.checkBuffer (added : ℕ) : Except Error Unit :=
  if exceeds config.maxMutationBuffer (txn.writes.entries.length + txn.clears.length + added) then
    .error limitExceeded
  else .ok ()

def valueBytes : ℕ := (value.map List.length).getD 0

namespace WriteTxn

/-- Validates admission before staging, so a rejected mutation changes nothing. -/
def stage : Except Error WriteTxn := do
  validateKey config key
  txn.checkBuffer config (if txn.writes.lookup key = none then 1 else 0)
  if config.maxValueBytes < valueBytes value ∨ txn.mutationCount = config.maxMutations ∨
      config.maxMutationBytes - txn.mutationBytes < key.length + valueBytes value then
    .error limitExceeded
  else
    .ok ({ txn with
      mutationCount := txn.mutationCount + 1
      mutationBytes := txn.mutationBytes + (key.length + valueBytes value) }.applyPoint key value)

/-- Adds keys to the conflict set. -/
def protect (keys : List Bytes) : Except Error WriteTxn :=
  if exceeds config.maxReadSet (txn.reserved ∪ keys.toFinset).card then .error limitExceeded
  else .ok { txn with reserved := txn.reserved ∪ keys.toFinset }

def getForUpdate : Except Error (Option Bytes × WriteTxn) := do
  let value ← lookupKey config txn.view key
  let txn ← txn.protect config [key]
  .ok (value, txn)

def batchGetForUpdate (keys : List Bytes) :
    Except Error (List (Option Bytes) × WriteTxn) := do
  let values ← lookupBatch config txn.view keys
  let txn ← txn.protect config keys
  .ok (values, txn)

/-- The reading half of an insertion: whether the key exists, now protected. -/
def reserve (key value : Bytes) : Except Error (Bool × WriteTxn) := do
  if config.maxValueBytes < value.length then .error limitExceeded
  else do
    let previous ← lookupKey config txn.view key
    let txn ← txn.protect config [key]
    .ok (previous.isSome, txn)

/-- A unique insertion: whether it inserted, or its error, and the transaction
after it.  A failed insertion may keep its key protected. -/
def insert (key value : Bytes) : Except Error Bool × WriteTxn :=
  match txn.reserve config key value with
  | .error e => (.error e, txn)
  | .ok (true, txn) => (.ok false, txn)
  | .ok (false, txn) =>
    match txn.stage config key (some value) with
    | .error e => (.error e, txn)
    | .ok txn => (.ok true, txn)

end WriteTxn

def Mutation.point : Mutation → Except Error (Bytes × Option Bytes)
  | put key value => .ok (key, some value)
  | delete key => .ok (key, none)
  | unknown => .error (.new .unsupported)

/-- The validation loop of a batch: the points, and the bytes charged so far. -/
def validateBatch (config : Config) :
    List Mutation → ℕ → Except Error (List (Bytes × Option Bytes) × ℕ)
  | [], bytes => .ok ([], bytes)
  | mutation :: rest, bytes => do
    let (key, value) ← mutation.point
    validateKey config key
    if config.maxValueBytes < valueBytes value ∨
        config.maxMutationBytes - bytes < key.length + valueBytes value then
      .error limitExceeded
    else do
      let (points, bytes) ← validateBatch config rest (bytes + (key.length + valueBytes value))
      .ok ((key, value) :: points, bytes)

/-- Validates and counts the whole batch before changing the private view. -/
def WriteTxn.batchMutate (mutations : List Mutation) : Except Error WriteTxn := do
  checkBatch config mutations.length
  if config.maxMutations - txn.mutationCount < mutations.length then .error limitExceeded
  else do
    let (points, bytes) ← validateBatch config mutations txn.mutationBytes
    txn.checkBuffer config ((points.map Prod.fst).filter (txn.writes.lookup · = none)).toFinset.card
    .ok (points.foldl (fun txn point => txn.applyPoint point.1 point.2)
      { txn with
        mutationCount := txn.mutationCount + mutations.length
        mutationBytes := bytes })

/-- The merging loop over the ranges that remain.  `inserted` holds once the
merged range has been written out. -/
def mergeFrom (start stop : Bytes) (inserted : Bool) : List KeyRange → List KeyRange
  | [] => if inserted then [] else [⟨start, stop⟩]
  | range :: rest =>
    if range.stop < start then range :: mergeFrom start stop inserted rest
    else if stop < range.start then
      (if inserted then [] else [⟨start, stop⟩]) ++ range :: mergeFrom start stop true rest
    else mergeFrom (min start range.start) (max stop range.stop) inserted rest

/-- Coalesces a range with the overlapping or touching ones of an ordered
inventory. -/
def mergeClearRange (ranges : List KeyRange) (added : KeyRange) : List KeyRange :=
  mergeFrom added.start added.stop false ranges

def WriteTxn.stageClear (range : KeyRange) : Except Error WriteTxn :=
  if range.stop ≤ range.start then .ok txn
  else do
    validateKey config range.start
    validateKey config range.stop
    let clears := mergeClearRange txn.clears range
    let writes := txn.writes.clear (contains range)
    let bytes := range.start.length + range.stop.length
    if exceeds config.maxMutationBuffer (writes.entries.length + clears.length) ∨
        txn.mutationCount = config.maxMutations ∨
        config.maxMutationBytes - txn.mutationBytes < bytes then
      .error limitExceeded
    else
      .ok { txn with
        mutationCount := txn.mutationCount + 1
        mutationBytes := txn.mutationBytes + bytes
        writes := writes
        view := txn.view.clear (contains range)
        clears := clears }

def WriteTxn.clearRange (range : KeyRange) : Except Error WriteTxn :=
  if config.transactionalClearRange then txn.stageClear config range
  else .error (.new .unsupported)

/-! ### Commit -/

inductive CommitFault
  | normal
  | abort
  | unknownApplied
  | unknownNotApplied
  deriving DecidableEq

/-- Whether a protected key may have changed after the snapshot. -/
def State.conflict (txn : WriteTxn) : Bool :=
  decide (txn.reserved ≠ ∅) &&
    (decide (txn.revision < s.conflictFloor) ||
      decide (∃ key ∈ txn.reserved,
        (s.modified.lookup key).any (decide <| txn.revision < ·) = true) ||
      s.history.any fun r => decide (txn.revision < r.number) &&
        decide (∃ key ∈ txn.reserved, covers r.cleared key = true))

/-- The latest data with the clears and then the writes of a transaction. -/
def publish (txn : WriteTxn) : Store :=
  txn.writes.entries.foldl (fun data e => setKey data e.1 e.2)
    (txn.clears.foldl (fun data range => data.clear (contains range)) data)

def dbBytes : ℕ := (data.entries.map fun e => e.1.length + e.2.length).sum

def State.committed (txn : WriteTxn) (data : Store) : State :=
  let keys := txn.writes.entries.map Sigma.fst
  { s with
    data := data
    revision := s.revision + 1
    modified := keys.foldl (fun modified key => modified.put key (s.revision + 1)) s.modified
    history := s.history ++ [⟨s.revision + 1, keys, txn.clears⟩]
    historyKeys := s.historyKeys + keys.length + 2 * txn.clears.length
    historyBytes := s.historyBytes + (keys.map List.length).sum +
      (txn.clears.map fun r => r.start.length + r.stop.length).sum }

/-- Checks conflicts and publishes the buffered write set under one lock.  The
claim of the commit may have been lost to a cancellation. -/
def commitWith (txn : WriteTxn) (claimed : Bool) (fault : CommitFault) :
    Except Error Unit × State :=
  if claimed = false then (.error (.new .cancelled), s)
  else if fault = .abort then (.error (.new .retryableAbort), s)
  else if fault = .unknownNotApplied then (.error (.new .commitOutcomeUnknown), s)
  else if s.conflict txn then (.error (.new .retryableAbort), s)
  else if u64Bound ≤ s.revision + 1 then (.error limitExceeded, s)
  else
    let data := publish s.data txn
    if exceeds config.maxDbKeys data.entries.length ∨ exceeds config.maxDbBytes (dbBytes data) then
      (.error limitExceeded, s)
    else
      let s := (s.committed txn data).pruneHistory config
      if fault = .unknownApplied then (.error (.new .commitOutcomeUnknown), s) else (.ok (), s)

/-! ### The net effect of a transaction -/

/-- What a transaction is about to do to one key: nothing, a write, or a
removal. -/
def WriteTxn.pending : Option (Option Bytes) :=
  match txn.writes.lookup key with
  | some value => some value
  | none => if covers txn.clears key then some none else none

lemma lookup_setKey (key key' : Bytes) (value : Option Bytes) :
    (setKey data key value).lookup key' = if key' = key then value else data.lookup key' := by
  cases value with
  | none =>
    rw [setKey, lookup_erase]
    split_ifs <;> rfl
  | some value =>
    split_ifs with h
    · subst h
      exact lookup_put_self data key' value
    · exact lookup_put_ne data value h

lemma pending_applyPoint (key key' : Bytes) (value : Option Bytes) :
    (txn.applyPoint key value).pending key' =
      if key' = key then some value else txn.pending key' := by
  rw [WriteTxn.pending, WriteTxn.applyPoint]
  dsimp only
  by_cases h : key' = key
  · subst h
    rw [lookup_put_self, if_pos rfl]
  · rw [lookup_put_ne _ _ h, if_neg h]
    rfl

lemma lookup_foldl_setKey (l : List (Sigma fun _ : Bytes => Option Bytes)) (hl : l.NodupKeys)
    (data : Store) (key : Bytes) : (l.foldl (fun data e => setKey data e.1 e.2) data).lookup key =
      (l.dlookup key).getD (data.lookup key) := by
  induction l generalizing data with
  | nil => rfl
  | cons e l ih =>
    obtain ⟨key', value⟩ := e
    rw [List.nodupKeys_cons] at hl
    rw [foldl_cons, ih hl.2, lookup_setKey]
    by_cases h : key = key'
    · subst h
      rw [if_pos rfl, List.dlookup_cons_eq, List.dlookup_eq_none.mpr hl.1]
      rfl
    · rw [if_neg h, dlookup_cons_ne l ⟨key', value⟩ h]

lemma lookup_foldl_clear (ranges : List KeyRange) (data : Store) (key : Bytes) :
    (ranges.foldl (fun data range => data.clear (contains range)) data).lookup key =
      if covers ranges key then none else data.lookup key := by
  induction ranges generalizing data with
  | nil => rfl
  | cons range _ ih =>
    rw [foldl_cons, ih, lookup_clear, covers, covers, any_cons]
    by_cases h : contains range key = true <;> simp [h]

lemma lookup_publish (txn : WriteTxn) (key : Bytes) :
    (publish data txn).lookup key = (txn.pending key).getD (data.lookup key) := by
  rw [publish, lookup_foldl_setKey _ txn.writes.nodupKeys, lookup_foldl_clear, WriteTxn.pending]
  have hlookup : List.dlookup key txn.writes.entries = txn.writes.lookup key := by
    rw [OrderedMap.lookup]
    congr
  rw [hlookup]
  cases txn.writes.lookup key with
  | some => rfl
  | none =>
    by_cases h : covers txn.clears key = true <;> simp [h]

/-! ### Merging ranges -/

/-- An inventory of nonempty ranges with gaps between them, in order. -/
def Ordered (ranges : List KeyRange) : Prop :=
  (∀ range ∈ ranges, range.start < range.stop) ∧ ranges.Pairwise fun a b => a.stop < b.start

lemma Ordered.tail {range : KeyRange} {rest : List KeyRange} (h : Ordered (range :: rest)) :
    Ordered rest :=
  ⟨fun r hr => h.1 r (mem_cons_of_mem _ hr), (pairwise_cons.mp h.2).2⟩

lemma Ordered.lt_start {range : KeyRange} {rest : List KeyRange} (h : Ordered (range :: rest))
    {bound : Bytes} (hbound : bound < range.start) : ∀ r ∈ range :: rest, bound < r.start := by
  intro r hr
  rcases mem_cons.mp hr with rfl | hr
  · exact hbound
  · exact (hbound.trans (h.1 range mem_cons_self)).trans ((pairwise_cons.mp h.2).1 r hr)

variable {start stop : Bytes} {ranges : List KeyRange}

lemma mergeFrom_inserted (h : ∀ range ∈ ranges, stop < range.start) :
    mergeFrom start stop true ranges = ranges := by
  induction ranges with
  | nil => rfl
  | cons range _ ih =>
    have hrest := ih fun r hr => h r (mem_cons_of_mem _ hr)
    rw [mergeFrom, if_pos (h range mem_cons_self), hrest, if_pos rfl]
    split_ifs <;> rfl

lemma contains_union {a b c d key : Bytes} (hab : ¬ d < a) (hcb : ¬ b < c) :
    contains ⟨min a c, max b d⟩ key = (contains ⟨c, d⟩ key || contains ⟨a, b⟩ key) := by
  simp only [contains, ← Bool.decide_and, ← Bool.decide_or, decide_eq_decide, min_le_iff,
    lt_max_iff]
  rw [not_lt] at hab hcb
  constructor
  · rintro ⟨hlo, hhi⟩
    rcases lt_or_ge key a with hka | hka
    · -- below the added range: inside the old one, which reaches up to it
      refine .inl ⟨hlo.resolve_left (not_le.mpr hka), hka.trans_le hab⟩
    · rcases lt_or_ge key b with hkb | hkb
      · exact .inr ⟨hka, hkb⟩
      · exact .inl ⟨hcb.trans hkb, hhi.resolve_left (not_lt.mpr hkb)⟩
  · rintro (⟨hlo, hhi⟩ | ⟨hlo, hhi⟩)
    · exact ⟨.inr hlo, .inr hhi⟩
    · exact ⟨.inl hlo, .inl hhi⟩

lemma covers_mergeFrom (h : Ordered ranges) (key : Bytes) :
    covers (mergeFrom start stop false ranges) key =
      (covers ranges key || contains ⟨start, stop⟩ key) := by
  induction ranges generalizing start stop with
  | nil => simp [mergeFrom, covers]
  | cons range _ ih =>
    rw [mergeFrom]
    by_cases h1 : range.stop < start
    · have hmerged := @ih start stop h.tail
      rw [if_pos h1]
      simp only [covers, any_cons] at hmerged ⊢
      rw [hmerged, Bool.or_assoc]
    · by_cases h2 : stop < range.start
      · have hall := fun r hr => h.lt_start h2 r (mem_cons_of_mem _ hr)
        rw [if_neg h1, if_pos h2, mergeFrom_inserted hall]
        simp only [covers, Bool.false_eq_true, if_false, List.singleton_append, any_cons]
        rw [Bool.or_comm]
      · have hmerged := @ih (min start range.start) (max stop range.stop) h.tail
        rw [contains_union h1 h2] at hmerged
        rw [if_neg h1, if_neg h2, hmerged]
        simp only [covers, any_cons]
        cases contains range key <;> simp

lemma mergeFrom_lt_start {bound : Bytes} (h : Ordered ranges)
    (hranges : ∀ r ∈ ranges, bound < r.start) (hstart : bound < start) :
    ∀ r ∈ mergeFrom start stop false ranges, bound < r.start := by
  induction ranges generalizing start stop with
  | nil =>
    intro r hr
    obtain rfl := mem_singleton.mp hr
    exact hstart
  | cons range _ ih =>
    have hrest := fun r hr => hranges r (mem_cons_of_mem _ hr)
    have hrange := hranges range mem_cons_self
    rw [mergeFrom]
    by_cases h1 : range.stop < start
    · rw [if_pos h1]
      intro r hr
      rcases mem_cons.mp hr with rfl | hr
      · exact hrange
      · exact ih h.tail hrest hstart r hr
    · by_cases h2 : stop < range.start
      · have hall := fun r hr => h.lt_start h2 r (mem_cons_of_mem _ hr)
        rw [if_neg h1, if_pos h2, mergeFrom_inserted hall]
        intro r hr
        rcases mem_cons.mp hr with rfl | hr
        · exact hstart
        · exact hranges r hr
      · rw [if_neg h1, if_neg h2]
        exact ih h.tail hrest (lt_min hstart hrange)

lemma ordered_mergeFrom (h : Ordered ranges) (hadded : start < stop) :
    Ordered (mergeFrom start stop false ranges) := by
  induction ranges generalizing start stop with
  | nil => exact ⟨by simpa [mergeFrom] using hadded, by simp [mergeFrom]⟩
  | cons range _ ih =>
    have hrange := h.1 range mem_cons_self
    rw [mergeFrom]
    by_cases h1 : range.stop < start
    · obtain ⟨hne, hpairs⟩ := ih h.tail hadded
      rw [if_pos h1]
      refine ⟨fun r hr => ?_, pairwise_cons.mpr ⟨?_, hpairs⟩⟩
      · rcases mem_cons.mp hr with rfl | hr
        · exact hrange
        · exact hne r hr
      · exact mergeFrom_lt_start h.tail (pairwise_cons.mp h.2).1 h1
    · by_cases h2 : stop < range.start
      · have hall := h.lt_start h2
        rw [if_neg h1, if_pos h2, mergeFrom_inserted fun r hr => hall r (mem_cons_of_mem _ hr)]
        refine ⟨fun r hr => ?_, pairwise_cons.mpr ⟨hall, h.2⟩⟩
        rcases mem_cons.mp hr with rfl | hr
        · exact hadded
        · exact h.1 r hr
      · rw [if_neg h1, if_neg h2]
        exact ih h.tail (lt_of_le_of_lt (min_le_left _ _) (hadded.trans_le (le_max_left _ _)))

end Memory
