/-
Split and merge state transitions and centroid updates.

Each operation is one transaction: it reads the authority of its source for
update, recognises progress another worker already committed, and otherwise
moves the topology by one step.
-/
import Ktann.Storage.Topology.Discovery

open TxnM WriteTxn

def splitTargets : ℕ := 2

/-! ### Splits -/

/-- The outcome of `beginSplit`. -/
inductive SplitStart
  | started (targets : SplitPair)
  | alreadySplitting (targets : SplitPair)
  | notEligible
  deriving DecidableEq

/-- The outcome of `exposeSplitTargets`. -/
inductive SplitExposure
  | exposed
  | alreadyExposed
  | sourceAdvanced
  | parentNotAccepting
  deriving DecidableEq

/-- The outcome of `finalizeSplit`. -/
inductive SplitCompletion
  | completed (parent : Option PartitionKey)
  | notDrained
  | notDraining
  deriving DecidableEq

/-- How a drained source's keys are removed: one range clear, or point deletes of
the four metadata keys. -/
inductive SourceRemoval
  | transactionalClear
  | pointDeletes
  deriving DecidableEq

variable (ix : Index)

/-- Starts the split of one `Ready` partition above the split threshold. -/
def beginSplit (t : TreeKey) (source : PartitionKey) (startedAt : ℕ) : WriteTxn SplitStart := do
  match ← authorityPair t source with
  | none => pure .notEligible
  | some (_, .splitting targets _) => pure (.alreadySplitting targets)
  | some (header, .ready _) =>
    if header.entryCount ≤ ix.maxEntries header.level then pure .notEligible
    else do
      let reservation ← reservePartitionKeys t splitTargets
      ensure (reservation.count = splitTargets) (Error.new .idExhausted)
      -- The State codec rejects one key named twice.
      if h : reservation.next ≠ reservation.last then
        put (.state t source) (.splitting ⟨reservation.next, reservation.last, h⟩ startedAt)
        put (.header t source) (header.withState .splitting)
        pure (.started ⟨reservation.next, reservation.last, h⟩)
      else fail .invalidArgument
  | some _ => pure .notEligible

/-- Whether a parent takes the Child Entries of new split targets. -/
def acceptsChildren (parent : PartitionHeader) : Bool :=
  parent.state.acceptsWrites &&
    !(ix.localGraph &&
      (parent.state = .receivingSplit || ix.maxInternalPartitionEntries < parent.entryCount))

/-- The parent of a non-root source, locked with its Header; `none` when it
cannot take new children now. -/
def acceptingParent (t : TreeKey) (source : PartitionKey) (level : ℕ)
    (parent : Option PartitionKey) : WriteTxn (Option (PartitionKey × PartitionHeader)) := do
  let parent ← lockIncomingEdge t source level parent
  let header ← requireHeader t parent
  let expected ← ofExcept (parentLevel level)
  ensure (header.level = expected) .corrupt
  if acceptsChildren ix header then pure (some (parent, header)) else pure none

/-- Creates one split target, with its Child Entry in `parent` if it has one. -/
def createTarget (t : TreeKey) (source : PartitionKey) (header : PartitionHeader)
    (target : PartitionKey) (centroid : VectorData) (startedAt : ℕ) (parent : Option PartitionKey) :
    WriteTxn Unit := do
  insertUnique (.header t target)
    (PartitionHeader.fresh header.level .receivingSplit header.level_pos header.level_lt)
  insertUnique (.state t target) (.receivingSplit source startedAt)
  insertUnique (.centroid t target) centroid
  if header.level = 1 then insertUnique (.synopsis t target) (PartitionSynopsis.empty ix)
  match parent with
  | some parent => insertUnique (.childEntry t parent target) ⟨target, centroid⟩
  | none => pure ()

/-- Creates both targets of a `Splitting` source and turns it to
`DrainingSplit`. -/
def exposeInto (t : TreeKey) (source : PartitionKey) (header : PartitionHeader)
    (targets : SplitPair) (leftCentroid rightCentroid : VectorData) (startedAt : ℕ)
    (parent : Option (PartitionKey × PartitionHeader)) : WriteTxn SplitExposure := do
  createTarget ix t source header targets.left leftCentroid startedAt (parent.map Prod.fst)
  createTarget ix t source header targets.right rightCentroid startedAt (parent.map Prod.fst)
  match parent with
  | some (parent, parentHeader) => do
    let once ← ofExcept parentHeader.addedEntry
    let twice ← ofExcept once.addedEntry
    put (.header t parent) twice
  | none => pure ()
  put (.state t source) (.drainingSplit targets startedAt)
  put (.header t source) (header.withState .drainingSplit)
  pure .exposed

/-- Publishes both split targets of one source; `parent` is a parent the caller
proved. -/
def exposeSplitTargets (t : TreeKey) (source left : PartitionKey) (leftCentroid : VectorData)
    (right : PartitionKey) (rightCentroid : VectorData) (startedAt : ℕ)
    (parent : Option PartitionKey) : WriteTxn SplitExposure := do
  match ← authorityPair t source with
  | none => pure .sourceAdvanced
  | some (header, .splitting targets _) => do
    ensure (left = targets.left ∧ right = targets.right) .invalidArgument
    if source = rootPartition then
      exposeInto ix t source header targets leftCentroid rightCentroid startedAt none
    else do
      match ← acceptingParent ix t source header.level parent with
      | none => pure .parentNotAccepting
      | some parent =>
        exposeInto ix t source header targets leftCentroid rightCentroid startedAt (some parent)
  | some (_, .drainingSplit targets _) => do
    ensure (left = targets.left ∧ right = targets.right) .invalidArgument
    pure .alreadyExposed
  | some _ => pure .sourceAdvanced

variable (t : TreeKey) (source : PartitionKey)

/-- Removes a drained non-root source's incoming Child Entry and takes it off the
parent's count. -/
def removeIncomingEdge (level : ℕ) (parent : Option PartitionKey) : WriteTxn PartitionKey := do
  let parent ← lockIncomingEdge t source level parent
  let header ← requireHeader t parent
  let expected ← ofExcept (parentLevel level)
  ensure (header.level = expected) .corrupt
  delete (.childEntry t parent source)
  let removed ← ofExcept header.removedEntry
  put (.header t parent) removed
  pure parent

def removeSourcePrefix : SourceRemoval → WriteTxn Unit
  | .transactionalClear => clearRange (LogicalKey.partitionRange t source)
  | .pointDeletes => do
    delete (.synopsis t source)
    delete (.centroid t source)
    delete (.state t source)
    delete (.header t source)

/-- Turns one target of a drained split to `Ready`. -/
def promoteTarget (level : ℕ) (target : PartitionKey) (startedAt : ℕ)
    (state : Option PartitionTransition) (header : Option PartitionHeader) : WriteTxn Unit := do
  let state ← orFail .corrupt state
  match state with
  | .receivingSplit s _ => do
    ensure (s = source) .corrupt
    let header ← orFail .corrupt header
    ensure (header.state = state.state) .corrupt
    ensure (header.level = level) .corrupt
    put (.state t target) (.ready startedAt)
    put (.header t target) (header.withState .ready)
  | _ => fail .corrupt

/-- Turns a drained root into an internal root over its two targets. -/
def promoteRoot (header : PartitionHeader) (targets : SplitPair) (startedAt : ℕ) :
    WriteTxn Unit := do
  let centroids ← read fun S : Store =>
    .ok (S.centroid t targets.left, S.centroid t targets.right)
  let left ← orFail .corrupt centroids.1
  insertUnique (.childEntry t rootPartition targets.left) ⟨targets.left, left⟩
  let once ← ofExcept header.addedEntry
  let right ← orFail .corrupt centroids.2
  insertUnique (.childEntry t rootPartition targets.right) ⟨targets.right, right⟩
  let twice ← ofExcept once.addedEntry
  delete (.synopsis t rootPartition)
  let promoted ← ofExcept twice.promoted
  put (.header t rootPartition) promoted
  put (.state t rootPartition) (.ready startedAt)

def finalizeSplit (startedAt : ℕ) (removal : SourceRemoval) (parent : Option PartitionKey) :
    WriteTxn SplitCompletion := do
  match ← authorityPair t source with
  | none => pure (.completed none)
  | some (header, .drainingSplit targets _) =>
    if header.entryCount ≠ 0 then pure .notDrained
    else do
      let leftState ← getState t targets.left
      let leftHeader ← getHeader t targets.left
      let rightState ← getState t targets.right
      let rightHeader ← getHeader t targets.right
      promoteTarget t source header.level targets.left startedAt leftState leftHeader
      promoteTarget t source header.level targets.right startedAt rightState rightHeader
      if source = rootPartition then
        promoteRoot t header targets startedAt
        pure (.completed none)
      else do
        let parent ← removeIncomingEdge t source header.level parent
        removeSourcePrefix t source removal
        pure (.completed (some parent))
  | some _ => pure .notDraining

/-! ### Merges -/

/-- The outcome of `beginMerge`. -/
inductive MergeStart
  | started
  | alreadyMerging
  | notEligible
  | noReadyTarget
  deriving DecidableEq

/-- The outcome of `finalizeMerge`. -/
inductive MergeCompletion
  | completed
  | notDrained
  | notMerging
  deriving DecidableEq

/-- Starts the merge of one `Ready` non-root partition below the minimum.  The
target check reads the snapshot only. -/
def beginMerge (t : TreeKey) (source : PartitionKey) (startedAt : ℕ) : WriteTxn MergeStart := do
  match ← authorityPair t source with
  | none => pure .notEligible
  | some (_, .merging _) => pure .alreadyMerging
  | some (header, .ready _) =>
    if source = rootPartition then pure .notEligible
    else if ix.minPartitionEntries header.level ≤ header.entryCount then pure .notEligible
    else do
      let candidates ← read fun S => sameLevelCandidates S t header.level
      match candidates.filter fun c => c.partition = source with
      | [own] => do
        let _ ← requireChildEntry t own.parent source
        if candidates.any fun c => c.isLegalMergeTarget source then
          put (.state t source) (.merging startedAt)
          put (.header t source) (header.withState .merging)
          pure .started
        else pure .noReadyTarget
      | _ => fail .corrupt
  | some _ => pure .notEligible

def finalizeMerge (removal : SourceRemoval) (parent : Option PartitionKey) :
    WriteTxn MergeCompletion := do
  match ← authorityPair t source with
  | none => pure .completed
  | some (header, .merging _) =>
    if source = rootPartition then fail .corrupt
    else if header.entryCount ≠ 0 then pure .notDrained
    else do
      let _ ← removeIncomingEdge t source header.level parent
      removeSourcePrefix t source removal
      pure .completed
  | some _ => pure .notMerging

/-! ### Centroids -/

/-- Replaces one non-root centroid and its projection in the parent. -/
def updateCentroid (p parent : PartitionKey) (centroid : VectorData) : WriteTxn Unit := do
  ensure (p ≠ rootPartition ∧ p ≠ parent) .corrupt
  let childHeader ← requireHeader t p
  let parentHeader ← requireHeader t parent
  let old ← requireCentroid t p
  let edge ← requireChildEntry t parent p
  ensure (childHeader.state = .ready ∧ parentHeader.state = .ready ∧
    childHeader.level + 1 = parentHeader.level ∧ edge.child = p ∧ edge.centroid = old)
    .corrupt
  if centroid = old then pure ()
  else do
    let touched ← ofExcept parentHeader.touchedEntry
    put (.centroid t p) centroid
    put (.childEntry t parent p) ⟨p, centroid⟩
    put (.header t parent) touched
