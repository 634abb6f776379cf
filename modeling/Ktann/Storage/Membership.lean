/-
Atomic mutations of exact record membership.

Each mutation updates the Vector Record, Record Location, Opaque Payload, Leaf
Entry, exact Header count, cache epoch and Synopsis.  A batch queues its
record-group writes and gathers Header and Synopsis changes per leaf, so that it
reads and writes each authority once; nothing it queued is visible to its own
reads until the queue is applied.
-/
import Ktann.Storage.TreeManifest

open TxnM WriteTxn

inductive DeleteReport
  | deleted (location : RecordLocation) (header : PartitionHeader)
  | notFound

/-- The Headers a replacement left: the source's when the leaf changed, and the
target's. -/
structure ReplacementHeaders where
  source : Option PartitionHeader
  target : PartitionHeader

/-! ### The sinks of one batch -/

/-- Per-leaf Header and Synopsis state of one batch.  A Synopsis is kept with
whether it differs from the stored one. -/
structure LeafAccumulator where
  headers : OrderedMap RecordLocation fun _ => PartitionHeader
  synopses : OrderedMap RecordLocation fun _ => PartitionSynopsis × Bool

namespace LeafAccumulator

/-- Nothing gathered yet. -/
def new : LeafAccumulator := ⟨OrderedMap.empty, OrderedMap.empty⟩

/-- A leaf's current Header: the gathered one, or the stored one read for
update. -/
def header (leaves : LeafAccumulator) (location : RecordLocation) :
    WriteTxn (PartitionHeader × LeafAccumulator) :=
  match leaves.headers.lookup location with
  | some header => pure (header, leaves)
  | none => do
    let header ← requireHeader location.treeKey location.leaf
    pure (header, { leaves with headers := leaves.headers.put location header })

variable (leaves : LeafAccumulator)

/-- Keeps one item's adjusted Header. -/
def adjustHeader (location : RecordLocation) (header : PartitionHeader) : LeafAccumulator :=
  { leaves with headers := leaves.headers.put location header }

/-- A leaf's current Synopsis, and whether it already changed. -/
def synopsis (location : RecordLocation) : WriteTxn (PartitionSynopsis × Bool) :=
  match leaves.synopses.lookup location with
  | some expansion => pure expansion
  | none => do
    let stored ← requireSynopsis location.treeKey location.leaf
    pure (stored, false)

def expandSynopsis (ix : Index) (leaves : LeafAccumulator) (target : RecordLocation)
    (projection : List Value) : WriteTxn LeafAccumulator := do
  let expansion ← leaves.synopsis target
  let expanded ← ofExcept (expansion.1.expand ix projection)
  pure { leaves with
    synopses := leaves.synopses.put target (expanded.1, expansion.2 || expanded.2) }

/-- The writes of every gathered Header and every changed Synopsis. -/
def flush : List (Write ValueOf) :=
  (leaves.headers.entries.map fun e => .put (.header e.1.treeKey e.1.leaf) e.2) ++
    leaves.synopses.entries.filterMap fun e =>
      if e.2.2 then some (.put (.synopsis e.1.treeKey e.1.leaf) e.2.1) else none

end LeafAccumulator

/-- The queued record-group writes and the gathered leaf state of one batch. -/
structure WriteSinks where
  deferred : List (Write ValueOf)
  leaves : LeafAccumulator

variable (sinks : WriteSinks)

def WriteSinks.queue (w : Write ValueOf) : WriteSinks :=
  { sinks with deferred := sinks.deferred ++ [w] }

/-! ### One mutation -/

/-- A Header that names a write-accepting leaf. -/
def expectWriteTarget (header : PartitionHeader) : Except Error PartitionHeader :=
  if header.level = 1 ∧ header.state.acceptsWrites = true then .ok header
  else .error .corrupt

/-- Queues the payload write of an insert, whose key must be absent. -/
def queueNewPayload (id : RecordId) : Option Bytes → WriteTxn WriteSinks
  | none => pure sinks
  | some payload => do
    expectAbsent (.payload id)
    pure (sinks.queue (.put (.payload id) payload))

/-- Inserts one new record's complete membership at `target`. -/
def insertRecordWithHeader (ix : Index) (sinks : WriteSinks) (record : VectorRecord)
    (payload : Option Bytes) (target : RecordLocation) (entry : LeafEntry) :
    WriteTxn (PartitionHeader × WriteSinks) := do
  ensure (record.recordId = entry.recordId) .invalidArgument
  let stored ← getRecord record.recordId
  ensure (stored = none) (Error.new .recordAlreadyExists)
  let sinks := sinks.queue (.put (.record record.recordId) record)
  expectAbsent (.location record.recordId)
  let sinks := sinks.queue (.put (.location record.recordId) target)
  let sinks ← queueNewPayload sinks record.recordId payload
  let (header, leaves) ← sinks.leaves.header target
  let adjusted ← ofExcept (do (← expectWriteTarget header).addedEntry)
  let leaves := leaves.adjustHeader target adjusted
  let leaves ← leaves.expandSynopsis ix target entry.fields
  expectAbsent (.leafEntry target.treeKey target.leaf record.recordId)
  pure (adjusted, { sinks with leaves := leaves }.queue
    (.put (.leafEntry target.treeKey target.leaf record.recordId) entry))

def queueReplacement (record : VectorRecord) (payload : Option Bytes)
    (expected target : RecordLocation) : WriteSinks :=
  let sinks := sinks.queue (.put (.record record.recordId) record)
  let sinks :=
    if target = expected then sinks else sinks.queue (.put (.location record.recordId) target)
  match payload with
  | some payload => sinks.queue (.put (.payload record.recordId) payload)
  | none => sinks.queue (.delete (.payload record.recordId))

def replaceInLeaf (ix : Index) (sinks : WriteSinks) (target : RecordLocation) (id : RecordId)
    (entry : LeafEntry) : WriteTxn (ReplacementHeaders × WriteSinks) := do
  let _ ← requireLeafEntry target.treeKey target.leaf id
  let sinks := sinks.queue (.put (.leafEntry target.treeKey target.leaf id) entry)
  let (header, leaves) ← sinks.leaves.header target
  let adjusted ← ofExcept (do (← expectWriteTarget header).touchedEntry)
  let leaves := leaves.adjustHeader target adjusted
  let leaves ← leaves.expandSynopsis ix target entry.fields
  pure (⟨none, adjusted⟩, { sinks with leaves := leaves })

/-- Moves the Leaf Entry of a replacement to another leaf.  The source follows the
stored Location, so it may be in any state. -/
def replaceAcrossLeaves (ix : Index) (sinks : WriteSinks) (expected target : RecordLocation)
    (id : RecordId) (entry : LeafEntry) : WriteTxn (ReplacementHeaders × WriteSinks) := do
  let _ ← requireLeafEntry expected.treeKey expected.leaf id
  let sinks := sinks.queue (.delete (.leafEntry expected.treeKey expected.leaf id))
  expectAbsent (.leafEntry target.treeKey target.leaf id)
  let sinks := sinks.queue (.put (.leafEntry target.treeKey target.leaf id) entry)
  let (source, leaves) ← sinks.leaves.header expected
  let removed ← ofExcept source.removedEntry
  let leaves := leaves.adjustHeader expected removed
  let (header, leaves) ← leaves.header target
  let adjusted ← ofExcept (do (← expectWriteTarget header).addedEntry)
  let leaves := leaves.adjustHeader target adjusted
  let leaves ← leaves.expandSynopsis ix target entry.fields
  pure (⟨some removed, adjusted⟩, { sinks with leaves := leaves })

/-- Replaces one existing record's complete membership.  The caller has read its
Record and Location for update and found `expected`. -/
def replaceRecordWithHeaders (ix : Index) (sinks : WriteSinks) (record : VectorRecord)
    (payload : Option Bytes) (expected target : RecordLocation) (entry : LeafEntry) :
    WriteTxn (ReplacementHeaders × WriteSinks) := do
  ensure (record.recordId = entry.recordId) .invalidArgument
  let sinks := queueReplacement sinks record payload expected target
  if expected = target then replaceInLeaf ix sinks target record.recordId entry
  else replaceAcrossLeaves ix sinks expected target record.recordId entry

/-- The Location a delete follows: the one a prefetch read for update, or the
stored one. -/
def deleteLocation (id : RecordId) : Option RecordLocation → WriteTxn RecordLocation
  | some location => pure location
  | none => requireLocation id

/-- Deletes one record's complete membership, if it exists. -/
def deleteRecordWithHeader (id : RecordId) (prefetched : Option RecordLocation) :
    WriteTxn (DeleteReport × WriteSinks) := do
  match ← getRecord id with
  | none => pure (.notFound, sinks)
  | some _ => do
    let location ← deleteLocation id prefetched
    let _ ← requireLeafEntry location.treeKey location.leaf id
    let sinks := (((sinks.queue (.delete (.record id))).queue (.delete (.location id))).queue
      (.delete (.leafEntry location.treeKey location.leaf id))).queue (.delete (.payload id))
    let (header, leaves) ← sinks.leaves.header location
    let removed ← ofExcept header.removedEntry
    pure (.deleted location removed, { sinks with leaves := leaves.adjustHeader location removed })

/-! ### Reads of a whole batch -/

/-- One Record and Location, present together or absent together. -/
def classifyLocationPair :
    Option VectorRecord → Option RecordLocation → Except Error (Option RecordLocation)
  | none, none => .ok none
  | some _, some location => .ok (some location)
  | _, _ => .error .corrupt

/-- The Locations of several IDs, read for update with their Records; an error
carries its position, counted from `position`. -/
def readLocationsForUpdate : List (ℕ × RecordId) → WriteTxn (List (Option RecordLocation))
  | [] => pure []
  | (position, id) :: rest => do
    let location ← mapError (fun e => e.atPosition position) do
      let record ← getRecord id
      let location ← getLocation id
      ofExcept (classifyLocationPair record location)
    let locations ← readLocationsForUpdate rest
    pure (location :: locations)

/-- One item's membership read set. -/
inductive MembershipPrefetch
  | insert (id : RecordId) (payload : Bool) (target : RecordLocation)
  | replace (id : RecordId) (expected target : RecordLocation)
  | delete (id : RecordId)

/-- The first wave of keys an item reads. -/
def MembershipPrefetch.keys : MembershipPrefetch → List LogicalKey
  | insert id payload target =>
    [.record id, .location id] ++ (if payload then [.payload id] else []) ++
      [.leafEntry target.treeKey target.leaf id, .synopsis target.treeKey target.leaf]
  | replace id expected target =>
    [.leafEntry target.treeKey target.leaf id, .synopsis target.treeKey target.leaf] ++
      if expected = target then []
      else [.leafEntry expected.treeKey expected.leaf id, .header expected.treeKey expected.leaf]
  | delete id => [.record id, .location id]

/-- Reads several keys for update and forgets the values. -/
def warmForUpdate : List LogicalKey → WriteTxn Unit
  | [] => pure ()
  | k :: ks => do
    let _ ← getForUpdate k
    warmForUpdate ks

/-- Warms the second wave of every delete: its Leaf Entry and leaf Header. -/
def prefetchDeletes : List MembershipPrefetch → WriteTxn (List (Option RecordLocation))
  | [] => pure []
  | .delete id :: rest => do
    let location ← getLocation id
    warmForUpdate (location.elim [] fun l =>
      [.leafEntry l.treeKey l.leaf id, .header l.treeKey l.leaf])
    let locations ← prefetchDeletes rest
    pure (location :: locations)
  | _ :: rest => prefetchDeletes rest

/-- Reads every item's membership read set for update, and returns the Locations
of the deletes, in order. -/
def prefetchMembershipForUpdate (items : List MembershipPrefetch) :
    WriteTxn (List (Option RecordLocation)) := do
  warmForUpdate (items.flatMap MembershipPrefetch.keys)
  prefetchDeletes items
