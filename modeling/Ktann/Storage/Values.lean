/-
The persistent values of one Logical Index.

Records and their Locations, the two kinds of partition entries, and the
authority values of a partition: its Header, which readers traverse by, and its
State, which names the partners of a split.  Fixed-width counters are naturals
below their width, and the constructors check what the source's constructors
check, so a Header of level zero or a split into one target twice cannot be
built.

* `PartitionHeader.addedEntry`, `removedEntry`, `touchedEntry` — the three ways
  an entry change moves the exact count and the cache epoch;
* `addedEntry_ok`, `removedEntry_ok`, `touchedEntry_ok` — what each returns.
-/
import Ktann.Storage.Synopsis

/-- An opaque Record ID. -/
abbrev RecordId := Bytes

/-- The greatest length of a record ID, in bytes. -/
def maxRecordIdBytes : ℕ := 256

abbrev TreeKey := Bytes

abbrev PartitionKey := ℕ

def rootPartition : PartitionKey := 1

/-- The exclusive bound of a `u32`. -/
def u32Bound : ℕ := 4294967296

/-- The exclusive bound of a `u64`. -/
def u64Bound : ℕ := 18446744073709551616

/-! ### Records and entries -/

structure VectorRecord where
  recordId : RecordId
  vector : VectorData
  fields : List Value
  deriving DecidableEq

/-- The authoritative position of one record. -/
structure RecordLocation where
  treeKey : TreeKey
  leaf : PartitionKey

/-- A leaf-partition entry: the filter projection and the quantized vector. -/
structure LeafEntry where
  recordId : RecordId
  fields : List Value
  rabitq7 : Bytes
  deriving DecidableEq

/-- An internal-partition entry and its routing projection. -/
structure ChildEntry where
  child : PartitionKey
  centroid : VectorData
  deriving DecidableEq

/-! ### Partition authority -/

/-- The directory and Partition Key allocator of one tree. -/
structure TreeManifest where
  partitionKeyHighWater : PartitionKey
  root_le : rootPartition ≤ partitionKeyHighWater
  highWater_lt : partitionKeyHighWater < u64Bound
  deriving DecidableEq

/-- The state discriminator a Header repeats for traversal. -/
inductive PartitionState
  | ready
  | splitting
  | receivingSplit
  | drainingSplit
  | merging
  deriving DecidableEq

/-- Whether a leaf in this state accepts foreground writes and move-ins. -/
def PartitionState.acceptsWrites : PartitionState → Bool
  | ready | splitting | receivingSplit => true
  | drainingSplit | merging => false

/-- The two targets of one split. -/
structure SplitPair where
  left : PartitionKey
  right : PartitionKey
  ne : left ≠ right
  deriving DecidableEq

/-- `target` is one of the two. -/
def SplitPair.Names (pair : SplitPair) (target : PartitionKey) : Prop :=
  target = pair.left ∨ target = pair.right

instance (pair : SplitPair) (target : PartitionKey) : Decidable (pair.Names target) :=
  inferInstanceAs (Decidable (_ ∨ _))

@[simp] lemma SplitPair.names_left (pair : SplitPair) : pair.Names pair.left := Or.inl rfl

@[simp] lemma SplitPair.names_right (pair : SplitPair) : pair.Names pair.right := Or.inr rfl

/-- The durable topology state of one partition.  The last argument is the time
the state began. -/
inductive PartitionTransition
  | ready (startedAt : ℕ)
  | splitting (targets : SplitPair) (startedAt : ℕ)
  | receivingSplit (source : PartitionKey) (startedAt : ℕ)
  | drainingSplit (targets : SplitPair) (startedAt : ℕ)
  | merging (startedAt : ℕ)
  deriving DecidableEq

namespace PartitionTransition

/-- The Header discriminator of a state. -/
def state : PartitionTransition → PartitionState
  | ready _ => .ready
  | splitting _ _ => .splitting
  | receivingSplit _ _ => .receivingSplit
  | drainingSplit _ _ => .drainingSplit
  | merging _ => .merging

@[simp] lemma state_ready (n : ℕ) : (ready n).state = .ready := rfl
@[simp] lemma state_splitting (ts : SplitPair) (n : ℕ) :
    (splitting ts n).state = .splitting := rfl
@[simp] lemma state_receivingSplit (p n : ℕ) : (receivingSplit p n).state = .receivingSplit := rfl
@[simp] lemma state_drainingSplit (ts : SplitPair) (n : ℕ) :
    (drainingSplit ts n).state = .drainingSplit := rfl
@[simp] lemma state_merging (n : ℕ) : (merging n).state = .merging := rfl

end PartitionTransition

/-- The small mutable metadata of one partition. -/
structure PartitionHeader where
  level : ℕ
  entryCount : ℕ
  cacheEpoch : ℕ
  state : PartitionState
  level_pos : 0 < level
  level_lt : level < u32Bound
  entryCount_lt : entryCount < u32Bound
  cacheEpoch_lt : cacheEpoch < u64Bound

namespace PartitionHeader

@[ext] lemma ext {h h' : PartitionHeader} (hl : h.level = h'.level)
    (hn : h.entryCount = h'.entryCount) (he : h.cacheEpoch = h'.cacheEpoch)
    (hs : h.state = h'.state) : h = h' := by
  cases h
  cases h'
  simp_all

instance : DecidableEq PartitionHeader := fun h h' =>
  decidable_of_iff (h.level = h'.level ∧ h.entryCount = h'.entryCount ∧
    h.cacheEpoch = h'.cacheEpoch ∧ h.state = h'.state)
    ⟨fun heq => ext heq.1 heq.2.1 heq.2.2.1 heq.2.2.2, fun heq => heq ▸ ⟨rfl, rfl, rfl, rfl⟩⟩

/-- The Header of a partition that holds nothing yet. -/
def fresh (level : ℕ) (state : PartitionState) (hpos : 0 < level) (hlt : level < u32Bound) :
    PartitionHeader :=
  ⟨level, 0, 0, state, hpos, hlt, by decide, by decide⟩

def newRoot : PartitionHeader := fresh 1 .ready (by decide) (by decide)

section

variable (l : ℕ) (st : PartitionState) (hpos : 0 < l) (hlt : l < u32Bound)

@[simp] lemma fresh_level : (fresh l st hpos hlt).level = l := rfl
@[simp] lemma fresh_entryCount : (fresh l st hpos hlt).entryCount = 0 := rfl
@[simp] lemma fresh_state : (fresh l st hpos hlt).state = st := rfl

end

@[simp] lemma newRoot_level : newRoot.level = 1 := rfl
@[simp] lemma newRoot_entryCount : newRoot.entryCount = 0 := rfl
@[simp] lemma newRoot_state : newRoot.state = .ready := rfl

/-- The Header with only its state discriminator replaced. -/
def withState (h : PartitionHeader) (state : PartitionState) : PartitionHeader :=
  { h with state := state }

section

variable (h : PartitionHeader) (st : PartitionState)

@[simp] lemma withState_level : (h.withState st).level = h.level := rfl
@[simp] lemma withState_entryCount : (h.withState st).entryCount = h.entryCount := rfl
@[simp] lemma withState_cacheEpoch : (h.withState st).cacheEpoch = h.cacheEpoch := rfl
@[simp] lemma withState_state : (h.withState st).state = st := rfl

end

/-- Rebuilds a Header with another count and the next cache epoch; a counter
that leaves its width is corruption. -/
def adjust (h : PartitionHeader) (entryCount : ℕ) : Except Error PartitionHeader :=
  if hc : entryCount < u32Bound then
    if he : h.cacheEpoch + 1 < u64Bound then
      .ok ⟨h.level, entryCount, h.cacheEpoch + 1, h.state, h.level_pos, h.level_lt, hc, he⟩
    else .error .corrupt
  else .error .corrupt

/-- The count increased by one. -/
def addedEntry (h : PartitionHeader) : Except Error PartitionHeader := h.adjust (h.entryCount + 1)

/-- The count decreased by one; a zero count is corruption. -/
def removedEntry (h : PartitionHeader) : Except Error PartitionHeader :=
  if h.entryCount = 0 then .error .corrupt else h.adjust (h.entryCount - 1)

/-- The count unchanged. -/
def touchedEntry (h : PartitionHeader) : Except Error PartitionHeader := h.adjust h.entryCount

/-- `h'` is `h` after one entry change: the next epoch, another count. -/
structure Adjusted (h h' : PartitionHeader) : Prop where
  level : h'.level = h.level
  state : h'.state = h.state
  cacheEpoch : h'.cacheEpoch = h.cacheEpoch + 1

variable {h h' : PartitionHeader}

lemma adjust_ok {n : ℕ} (hok : h.adjust n = .ok h') : h.Adjusted h' ∧ h'.entryCount = n := by
  rw [adjust] at hok
  split_ifs at hok
  cases hok
  exact ⟨⟨rfl, rfl, rfl⟩, rfl⟩

lemma addedEntry_ok (hok : h.addedEntry = .ok h') :
    h.Adjusted h' ∧ h'.entryCount = h.entryCount + 1 :=
  adjust_ok hok

lemma removedEntry_ok (hok : h.removedEntry = .ok h') :
    h.Adjusted h' ∧ h.entryCount = h'.entryCount + 1 := by
  rw [removedEntry] at hok
  split_ifs at hok with h0
  obtain ⟨hadj, hn⟩ := adjust_ok hok
  exact ⟨hadj, by omega⟩

lemma touchedEntry_ok (hok : h.touchedEntry = .ok h') :
    h.Adjusted h' ∧ h'.entryCount = h.entryCount :=
  adjust_ok hok

/-- The root one level up after its split completed. -/
def promoted (h : PartitionHeader) : Except Error PartitionHeader :=
  if hl : h.level + 1 < u32Bound then
    .ok ⟨h.level + 1, h.entryCount, h.cacheEpoch, .ready, Nat.succ_pos _, hl, h.entryCount_lt,
      h.cacheEpoch_lt⟩
  else .error .corrupt

lemma promoted_ok (hok : h.promoted = .ok h') :
    h'.level = h.level + 1 ∧ h'.entryCount = h.entryCount ∧ h'.cacheEpoch = h.cacheEpoch ∧
      h'.state = .ready := by
  rw [promoted] at hok
  split_ifs at hok
  cases hok
  exact ⟨rfl, rfl, rfl, rfl⟩

end PartitionHeader

/-! ### Graph records -/

structure GraphDescriptor where
  nodes : ℕ
  epoch : ℕ
  bytes : ℕ
  binding : Bytes
  sha256 : Bytes
  deriving DecidableEq

/-- The persisted length of a full graph chunk. -/
def graphChunkBytes : ℕ := 99995

def GraphDescriptor.chunks (d : GraphDescriptor) : ℕ :=
  (d.bytes + (graphChunkBytes - 1)) / graphChunkBytes

export PartitionHeader (addedEntry_ok removedEntry_ok touchedEntry_ok)
