/-
Bounded drain batches of splits and merges, and refinement moves.

Draining stores no cursor.  A short read of one committed store fixes the
source's smallest entries; a write transaction then re-reads exactly those
candidates for update and moves the ones that are still there.

* `nextDrainBatch` — the batch a read fixes;
* `splitDrainAttempt` — moves to the nearer split target, with the last entries
  a target needs reserved for it;
* `mergeDrainAttempt` — moves to the nearest `Ready` partition of the level;
* `refineBatch` — planned moves between `Ready` leaves.
-/
import Ktann.Maintenance.Routing
import Ktann.Storage.Topology.Relocation

open TxnM WriteTxn

/-! ### Drain batches -/

/-- The number of Child Entries one drain batch moves. -/
def drainBatchInternal : ℕ := 128

/-- One batch fixed by a read: Record IDs of a leaf, or children. -/
inductive DrainBatch
  | leaf (ids : List RecordId)
  | child (children : List PartitionKey)
  deriving DecidableEq

def DrainBatch.isEmpty : DrainBatch → Bool
  | leaf ids => ids.isEmpty
  | child children => children.isEmpty

/-- The source's smallest entries, one page of them. -/
def readDrainBatch (S : Store) (t : TreeKey) (source : PartitionKey) (level limit : ℕ) :
    DrainBatch :=
  if level = 1 then .leaf (((S.leafEntries t source).take limit).map LeafEntry.recordId)
  else .child (((S.childEntries t source).take (min limit drainBatchInternal)).map ChildEntry.child)

variable (ix : Index)

/-- The size of a leaf batch: the split threshold, the page and the source bound
it. -/
def leafDrainBatchLimit (header : PartitionHeader) (page : ℕ) : ℕ :=
  min (min ix.maxLeafPartitionEntries page) header.entryCount

/-- Fixes one batch; `none` when the source has no entry.  `page` is what the
backend's budget and the page size admit. -/
def nextDrainBatch (S : Store) (t : TreeKey) (source : PartitionKey) (header : PartitionHeader)
    (page : ℕ) : Except Error (Option DrainBatch) :=
  if header.entryCount = 0 then .ok none
  else
    let limit := if header.level = 1 then leafDrainBatchLimit ix header page else page
    let batch := readDrainBatch S t source header.level limit
    if batch.isEmpty then .error .corrupt else .ok (some batch)

/-- The outcome of one drain attempt. -/
inductive DrainStep
  | drained (moved remaining : ℕ)
  | sourceAdvanced
  deriving DecidableEq

/-- What is left of a source after a batch. -/
def drainedStep (header : PartitionHeader) (moved : ℕ) : Except Error DrainStep :=
  if moved ≤ header.entryCount then .ok (.drained moved (header.entryCount - moved))
  else .error .corrupt

/-- The routing vector of a drained record; its stored vector was accepted once. -/
def drainRouting (drain : LeafDrainEntry) : Except Error VectorData :=
  match ix.preprocess drain.record.vector with
  | .ok routing => .ok routing
  | .error _ => .error .corrupt

/-! ### Splits -/

/-- Exact remaining counts that keep both split targets viable. -/
structure SplitBalance where
  sourceRemaining : ℕ
  leftNeeded : ℕ
  rightNeeded : ℕ
  deriving DecidableEq

namespace SplitBalance

/-- The reservation for a source and its two targets. -/
def new (source left right minimum : ℕ) : SplitBalance := ⟨source, minimum - left, minimum - right⟩

/-- Chooses the target of the next entry: the nearer one, unless the other one
needs every entry that is left. -/
def choose (balance : SplitBalance) (left : PartitionKey) (leftDistance : ℤ) (right : PartitionKey)
    (rightDistance : ℤ) : Except Error (PartitionKey × SplitBalance) :=
  if balance.sourceRemaining = 0 then .error .corrupt
  else
    let remaining := balance.sourceRemaining - 1
    let attainable := balance.leftNeeded + balance.rightNeeded ≤ remaining + 1
    let target :=
      if attainable ∧ remaining < balance.leftNeeded then left
      else if attainable ∧ remaining < balance.rightNeeded then right
      else nearerOfTwo left leftDistance right rightDistance
    if target = left then .ok (target, ⟨remaining, balance.leftNeeded - 1, balance.rightNeeded⟩)
    else .ok (target, ⟨remaining, balance.leftNeeded, balance.rightNeeded - 1⟩)

end SplitBalance

def nearerTarget (routing : VectorData) (targets : SplitPair)
    (leftCentroid rightCentroid : VectorData) (balance : SplitBalance) :
    Except Error (PartitionKey × SplitBalance) :=
  balance.choose targets.left (ix.routingDistance routing leftCentroid) targets.right
    (ix.routingDistance routing rightCentroid)

/-- Chooses a target for each entry of a batch, in order. -/
def chooseTargets {α : Type} (ix : Index) (targets : SplitPair)
    (leftCentroid rightCentroid : VectorData) (routing : α → Except Error VectorData) :
    SplitBalance → List α → Except Error (List (α × PartitionKey))
  | _, [] => .ok []
  | balance, entry :: rest => do
    let vector ← routing entry
    let (target, balance) ← nearerTarget ix vector targets leftCentroid rightCentroid balance
    let moves ← chooseTargets ix targets leftCentroid rightCentroid routing balance rest
    .ok ((entry, target) :: moves)

variable (t : TreeKey) (source : PartitionKey)

/-- Re-reads and moves one split batch; returns how many entries moved. -/
def drainToTargets (targets : SplitPair) (leftCentroid rightCentroid : VectorData)
    (balance : SplitBalance) :
    DrainBatch → WriteTxn ℕ
  | .leaf ids => do
    let candidates ← readLeafDrainCandidates t (ids.map fun id => (source, id))
    let moves ← ofExcept (chooseTargets ix targets leftCentroid rightCentroid (drainRouting ix)
      balance (candidates.filterMap id))
    relocateLeafEntries ix t moves .split
  | .child children => do
    let candidates ← readChildDrainCandidates t source children
    let moves ← ofExcept (chooseTargets ix targets leftCentroid rightCentroid
      (fun entry => .ok entry.centroid) balance (candidates.filterMap id))
    relocateChildEntries ix t source moves .split

/-- One split drain attempt, for a batch that was read under `targets`. -/
def splitDrainAttempt (targets : SplitPair) (batch : DrainBatch) : WriteTxn DrainStep := do
  let header ← getHeader t source
  let state ← getState t source
  match header, state with
  | none, none => pure .sourceAdvanced
  | some header, some (.drainingSplit pair _) => do
    ensure (pair.left = targets.left ∧ pair.right = targets.right) .corrupt
    ensure (header.state = .drainingSplit) .corrupt
    let left ← requireHeader t targets.left
    let right ← requireHeader t targets.right
    let centroids ← read fun S : Store =>
      .ok (S.centroid t targets.left, S.centroid t targets.right)
    let leftCentroid ← orFail .corrupt centroids.1
    let rightCentroid ← orFail .corrupt centroids.2
    let balance := SplitBalance.new header.entryCount left.entryCount right.entryCount
      (ix.minPartitionEntries header.level)
    let moved ← drainToTargets ix t source targets leftCentroid rightCentroid balance batch
    ofExcept (drainedStep header moved)
  | some _, some _ => pure .sourceAdvanced
  | _, _ => fail .corrupt

/-- The batch a split drain reads, with the targets its source names; `none` when
there is nothing to drain.  A graph index drains only leaves here. -/
def splitDrainPlan (S : Store) (t : TreeKey) (source : PartitionKey) (page : ℕ) :
    Except Error (Option (SplitPair × DrainBatch)) := do
  match ← readAuthorityPair S t source with
  | some (header, .drainingSplit targets _) =>
    if ix.localGraph = true ∧ 1 < header.level then .error .invalidArgument
    else do
      let batch ← nextDrainBatch ix S t source header page
      .ok (batch.map fun batch => (targets, batch))
  | _ => .ok none

/-! ### Merges -/

/-- The nearest `Ready` candidate of one routing vector; the plan has one. -/
def nearestTarget (candidates : List LevelCandidate) (routing : VectorData) :
    Except Error PartitionKey :=
  match nearestReadyCandidate ix routing source candidates with
  | some (_, candidate) => .ok candidate.partition
  | none => .error (.new .backend)

/-- Whether every chosen target is still a `Ready` partition of the level; the
answer stands, for the Headers are read for update. -/
def revalidateTargets (t : TreeKey) (level : ℕ) : List PartitionKey → WriteTxn Bool
  | [] => pure true
  | target :: rest => do
    match ← getHeader t target with
    | none => pure false
    | some header => do
      ensure (header.level = level) .corrupt
      if header.state = .ready then revalidateTargets t level rest else pure false

/-- Re-reads and moves one merge batch; `none` when a target left `Ready`. -/
def drainToReady (level : ℕ) (candidates : List LevelCandidate) : DrainBatch → WriteTxn (Option ℕ)
  | .leaf ids => do
    let entries ← readLeafDrainCandidates t (ids.map fun id => (source, id))
    let moves ← ofExcept ((entries.filterMap id).mapM fun entry => do
      .ok (entry, ← nearestTarget ix source candidates (← drainRouting ix entry)))
    if (← revalidateTargets t level (distinctPartitions (moves.map Prod.snd))) = true then do
      let moved ← relocateLeafEntries ix t moves .merge
      pure (some moved)
    else pure none
  | .child children => do
    let entries ← readChildDrainCandidates t source children
    let moves ← ofExcept ((entries.filterMap id).mapM fun entry => do
      .ok (entry, ← nearestTarget ix source candidates entry.centroid))
    if (← revalidateTargets t level (distinctPartitions (moves.map Prod.snd))) = true then do
      let moved ← relocateChildEntries ix t source moves .merge
      pure (some moved)
    else pure none

/-- One merge drain attempt; `none` asks for a new target selection. -/
def mergeDrainAttempt (candidates : List LevelCandidate) (batch : DrainBatch) :
    WriteTxn (Option DrainStep) := do
  let header ← getHeader t source
  let state ← getState t source
  match header, state with
  | none, none => pure (some .sourceAdvanced)
  | some header, some (.merging _) => do
    ensure (header.state = .merging) .corrupt
    match ← drainToReady ix t source header.level candidates batch with
    | some moved => do
      let step ← ofExcept (drainedStep header moved)
      pure (some step)
    | none => pure none
  | _, _ => fail .corrupt

/-- The batch and the candidates a merge drain reads; `none` when there is
nothing to drain or no target to drain into. -/
def mergeDrainPlan (S : Store) (t : TreeKey) (source : PartitionKey) (page : ℕ) :
    Except Error (Option (List LevelCandidate × DrainBatch)) := do
  match ← readAuthorityPair S t source with
  | some (header, .merging _) =>
    if ix.localGraph = true ∧ 1 < header.level then .error .invalidArgument
    else do
      match ← nextDrainBatch ix S t source header page with
      | none => .ok none
      | some batch => do
        let candidates ← sameLevelCandidates S t header.level
        .ok (if candidates.any fun c => c.isLegalMergeTarget source then some (candidates, batch)
          else none)
  | _ => .ok none

/-! ### Refinement -/

structure RefineMove where
  source : PartitionKey
  target : PartitionKey
  id : RecordId
  deriving DecidableEq

/-- One batch of refinement moves.  A refinement round moves each record at most
once. -/
structure RefineBatch where
  moves : List RefineMove
  distinct : (moves.map RefineMove.id).Nodup

/-- Moves one batch of refinement moves; every entry must still be there. -/
def refineBatch (batch : RefineBatch) : WriteTxn Unit := do
  let entries ← readLeafDrainCandidates t (batch.moves.map fun m => (m.source, m.id))
  let moves ← ofExcept ((entries.zip batch.moves).mapM fun (entry, m) =>
    match entry with
    | some entry => Except.ok (entry, m.target)
    | none => .error .corrupt)
  let _ ← relocateLeafEntries ix t moves .refine
