/-
Mutation batches.

One batch is prepared once and then applied as whole attempts.  An attempt
routes every insert and upsert, one grouped descent per distinct Tree Key, reads
the membership of every item for update, applies the items in input order into
shared sinks, and stages the sinks' writes at its end.

* `PreparedRecord.new`, `prepareAll` — the projection of the caller's records;
* `routeAll` — the routing of a batch, which may create trees;
* `applyAll` — one attempt.
-/
import Ktann.Maintenance.Routing
import Ktann.Storage.Membership
import Ktann.Storage.TreeKey

open TxnM WriteTxn

/-! ### The request -/

/-- A caller's record. -/
structure Record where
  id : RecordId
  vector : VectorData
  fields : List Value
  payload : Option Bytes
  deriving DecidableEq

/-- One item of a batch. -/
inductive Mutation
  | insert (record : Record)
  | upsert (record : Record)
  | delete (id : RecordId)
  deriving DecidableEq

/-- The record ID an item is about. -/
def Mutation.id : Mutation → RecordId
  | insert record | upsert record => record.id
  | delete id => id

/-- What one item did. -/
inductive MutationOutcome
  | inserted
  | upserted (replaced : Bool)
  | deleted (existed : Bool)
  deriving DecidableEq

variable (ix : Index)

/-- A validated item: an ID within the length limits, and fields that satisfy
the schema with negative zeros already replaced. -/
def Mutation.Valid (m : Mutation) : Prop :=
  (1 ≤ m.id.length ∧ m.id.length ≤ maxRecordIdBytes) ∧
    match m with
    | .insert record | .upsert record => SchemaValid ix.fields record.fields
    | .delete _ => True

/-- A batch as `validate_mutations` leaves it: valid items with distinct IDs. -/
structure ValidBatch (ix : Index) (mutations : List Mutation) : Prop where
  valid : ∀ m ∈ mutations, m.Valid ix
  distinct : (mutations.map Mutation.id).Nodup

/-! ### Preparation -/

/-- The snapshot-independent projection of one record. -/
structure PreparedRecord where
  treeKey : TreeKey
  routing : VectorData
  record : VectorRecord
  payload : Option Bytes
  entry : LeafEntry

/-- Derives one record's projection. -/
def PreparedRecord.new (record : Record) : Except Error PreparedRecord := do
  let values ← ix.treeKeyFields.mapM fun field =>
    match record.fields[field]? with
    | some value => Except.ok value
    | none => .error .invalidArgument
  let treeKey ← TreeKey.encode ix.treeKeyTypes values
  let routing ← ix.preprocess record.vector
  let rabitq7 ← ix.quantize routing
  .ok {
    treeKey
    routing
    record := ⟨record.id, record.vector, record.fields⟩
    payload := record.payload
    entry := ⟨record.id, record.fields, rabitq7⟩ }

/-- The projection of one item at its input position; a delete has none. -/
def prepareOne (position : ℕ) : Mutation → Except Error (Option PreparedRecord)
  | .insert record | .upsert record =>
    match PreparedRecord.new ix record with
    | .ok prepared => .ok (some prepared)
    | .error e => .error (e.atPosition position)
  | .delete _ => .ok none

/-- The projection of every item. -/
def prepareAll (mutations : List Mutation) : Except Error (List (Option PreparedRecord)) :=
  mutations.zipIdx.mapM fun (m, position) => prepareOne ix position m

/-! ### Routing a batch -/

/-- The items of one Tree Key, with their input positions. -/
structure RouteGroup where
  treeKey : TreeKey
  firstPosition : ℕ
  members : List (ℕ × PreparedRecord)

/-- Adds one item to its group, or opens a group at the end. -/
def joinGroup (position : ℕ) (prepared : PreparedRecord) : List RouteGroup → List RouteGroup
  | [] => [⟨prepared.treeKey, position, [(position, prepared)]⟩]
  | group :: rest =>
    if group.treeKey = prepared.treeKey then
      { group with members := group.members ++ [(position, prepared)] } :: rest
    else group :: joinGroup position prepared rest

/-- The groups of a batch, in first-appearance order. -/
def routeGroups (prepared : List (Option PreparedRecord)) : List RouteGroup :=
  prepared.zipIdx.foldl (fun groups (item, position) =>
    match item with
    | some item => joinGroup position item groups
    | none => groups) []

def assignTargets (group : RouteGroup) (routes : List Route)
    (targets : List (Option RecordLocation)) : List (Option RecordLocation) :=
  (group.members.zip routes).foldl (fun targets (member, route) =>
    targets.set member.1 (some ⟨member.2.treeKey, route.leaf⟩)) targets

/-- Routes group after group; `none` when a descent finds no `Ready` merge
target. -/
def routeGroupsFrom (ix : Index) (graphs : Option GraphReads) (startedAt writeBeamSize : ℕ) :
    List RouteGroup → List (Option RecordLocation) →
      WriteTxn (Option (List (Option RecordLocation)))
  | [], targets => pure (some targets)
  | group :: rest, targets => do
    let descent ← mapError (fun e => e.atPosition group.firstPosition)
      (routeLeavesForWrite ix group.treeKey graphs (group.members.map fun m => m.2.routing)
        startedAt writeBeamSize)
    match descent with
    | .routed routes =>
      routeGroupsFrom ix graphs startedAt writeBeamSize rest (assignTargets group routes targets)
    | .noReadyMergeTarget => pure none

/-- Routes every insert and upsert of a batch to its target leaf. -/
def routeAll (graphs : Option GraphReads) (prepared : List (Option PreparedRecord))
    (startedAt writeBeamSize : ℕ) : WriteTxn (Option (List (Option RecordLocation))) :=
  routeGroupsFrom ix graphs startedAt writeBeamSize (routeGroups prepared)
    (prepared.map fun _ => none)

/-! ### Reading and applying a batch -/

variable (mutations : List Mutation)

/-- The upserts of a batch, with their input positions. -/
def upsertIds : List (ℕ × RecordId) :=
  mutations.zipIdx.filterMap fun (m, position) =>
    match m with
    | .upsert record => some (position, record.id)
    | _ => none

/-- The stored Locations of the upserts, aligned to the input positions. -/
def readLocations : WriteTxn (List (Option RecordLocation)) := do
  let ids := upsertIds mutations
  let locations ← readLocationsForUpdate ids
  pure ((ids.zip locations).foldl (fun expected (id, location) => expected.set id.1 location)
    (mutations.map fun _ => none))

/-- One item's read set; an unrouted insert or upsert has none. -/
def prefetchItem (mutation : Mutation) (prepared : Option PreparedRecord)
    (target expected : Option RecordLocation) : Option MembershipPrefetch :=
  let payload := prepared.any fun p => p.payload.isSome
  match mutation with
  | .insert record => target.map fun target => .insert record.id payload target
  | .upsert record => target.map fun target =>
    match expected with
    | some expected => .replace record.id expected target
    | none => .insert record.id payload target
  | .delete id => some (.delete id)

/-- Hands the prefetched Locations to the deletes, in order. -/
def fillDeletes : List Mutation → List (Option RecordLocation) → List (Option RecordLocation) →
    List (Option RecordLocation)
  | .delete _ :: mutations, _ :: expected, location :: locations =>
    location :: fillDeletes mutations expected locations
  | _ :: mutations, location :: expected, locations =>
    location :: fillDeletes mutations expected locations
  | _, expected, _ => expected

/-- One item of an attempt: the mutation, what was prepared and routed for it,
and the Location read for it. -/
structure AttemptItem where
  mutation : Mutation
  prepared : Option PreparedRecord
  target : Option RecordLocation
  expected : Option RecordLocation

variable (prepared : List (Option PreparedRecord)) (targets expected : List (Option RecordLocation))

/-- Lines up the four lists of an attempt. -/
def attemptItems : List AttemptItem :=
  ((mutations.zip prepared).zip (targets.zip expected)).map fun ((m, p), t, e) => ⟨m, p, t, e⟩

/-- Reads every item's membership for update, and completes the expected
Locations with those of the deletes. -/
def prefetchMembership : WriteTxn (List (Option RecordLocation)) := do
  let items := (attemptItems mutations prepared targets expected).filterMap fun item =>
    prefetchItem item.mutation item.prepared item.target item.expected
  let locations ← prefetchMembershipForUpdate items
  pure (fillDeletes mutations expected locations)

def applyOne (sinks : WriteSinks) (item : AttemptItem) :
    WriteTxn (MutationOutcome × WriteSinks) := do
  match item.mutation, item.prepared, item.target with
  | .insert _, some prepared, some target => do
    let (_, sinks) ← insertRecordWithHeader ix sinks prepared.record prepared.payload target
      prepared.entry
    pure (.inserted, sinks)
  | .upsert _, some prepared, some target =>
    match item.expected with
    | none => do
      let (_, sinks) ← insertRecordWithHeader ix sinks prepared.record prepared.payload target
        prepared.entry
      pure (.upserted false, sinks)
    | some expected => do
      let (_, sinks) ← replaceRecordWithHeaders ix sinks prepared.record prepared.payload
        expected target prepared.entry
      pure (.upserted true, sinks)
  | .delete id, _, _ => do
    match ← deleteRecordWithHeader sinks id item.expected with
    | (.deleted _ _, sinks) => pure (.deleted true, sinks)
    | (.notFound, sinks) => pure (.deleted false, sinks)
  | _, _, _ => fail (Error.new .backend)

/-- Applies the items in input order, from a position on. -/
def applyItems (ix : Index) : ℕ → WriteSinks → List AttemptItem →
    WriteTxn (List MutationOutcome × WriteSinks)
  | _, sinks, [] => pure ([], sinks)
  | position, sinks, item :: rest => do
    let (outcome, sinks) ← mapError (fun e => e.atPosition position) (applyOne ix sinks item)
    let (outcomes, sinks) ← applyItems ix (position + 1) sinks rest
    pure (outcome :: outcomes, sinks)

/-- The outcome of one whole attempt. -/
inductive ApplyOutcome
  | applied (outcomes : List MutationOutcome)
  | noReadyMergeTarget
  deriving DecidableEq

/-- One whole attempt of a batch. -/
def applyAll (graphs : Option GraphReads) (mutations : List Mutation)
    (prepared : List (Option PreparedRecord)) (startedAt writeBeamSize : ℕ) :
    WriteTxn ApplyOutcome := do
  match ← routeAll ix graphs prepared startedAt writeBeamSize with
  | none => pure .noReadyMergeTarget
  | some targets => do
    let expected ← readLocations mutations
    let expected ← prefetchMembership mutations prepared targets expected
    let items := attemptItems mutations prepared targets expected
    let (outcomes, sinks) ← applyItems ix 0 ⟨[], LeafAccumulator.new⟩ items
    stageAll (sinks.deferred ++ sinks.leaves.flush)
    pure (.applied outcomes)
