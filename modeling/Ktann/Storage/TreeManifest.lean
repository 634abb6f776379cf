/-
Tree Manifest creation and Partition Key allocation.

Creation installs one Tree Manifest and its searchable empty root in the same
transaction.  A reservation advances the high-water mark under an
update-protected read, so ranges of different reservations are disjoint.
-/
import Ktann.Storage.Operations

open TxnM WriteTxn

/-- The outcome of lazily creating one tree. -/
inductive TreeCreation
  | created
  | alreadyExists
  deriving DecidableEq

/-- A new tree's Tree Manifest: only the root is allocated. -/
def TreeManifest.initial : TreeManifest := ⟨rootPartition, le_rfl, by decide⟩

def createTree (ix : Index) (t : TreeKey) (startedAt : ℕ) : WriteTxn TreeCreation := do
  let inserted ← insert (.treeManifest t) TreeManifest.initial
  if inserted = true then
    put (.header t rootPartition) PartitionHeader.newRoot
    put (.synopsis t rootPartition) (PartitionSynopsis.empty ix)
    put (.state t rootPartition) (.ready startedAt)
    pure .created
  else pure .alreadyExists

/-- One reserved range of Partition Keys, both ends included. -/
structure PartitionKeyReservation where
  next : PartitionKey
  last : PartitionKey
  deriving DecidableEq

def PartitionKeyReservation.count (r : PartitionKeyReservation) : ℕ := r.last - r.next + 1

/-- Reserves the next `count` Partition Keys of one tree; near exhaustion the
range is shorter. -/
def reservePartitionKeys (t : TreeKey) (count : ℕ) : WriteTxn PartitionKeyReservation := do
  ensure (count ≠ 0) .invalidArgument
  let stored ← getTreeManifest t
  let manifest ← orFail .invalidArgument stored
  if manifest.partitionKeyHighWater + 1 = u64Bound then fail (Error.new .idExhausted)
  else
    let last := min (manifest.partitionKeyHighWater + count) (u64Bound - 1)
    if h : rootPartition ≤ last ∧ last < u64Bound then
      put (.treeManifest t) ⟨last, h.1, h.2⟩
      pure ⟨manifest.partitionKeyHighWater + 1, last⟩
    else fail .corrupt
