/-
Graph bodies and centroids.

Only one graph is held.  Closing a partition restores its graph from the Child Entries,
the descriptor and the chunks of the snapshot; closing a tree compares the centroid of
every Child Entry with the one stored for its child.

* `restoreEnvelope`, `restoreBytes`, `restoreBody` — a restoration before, at and after
  its admission;
* `GraphLedger.observe` — one decoded body;
* `GraphLedger.closeBody`, `GraphLedger.closeTree` — the two boundaries.
-/
import Ktann.Verify.Context

namespace Verify

/-- The centroids of one partition, in any key order. -/
structure Projection where
  header : Bool
  actual : Option Bytes
  expected : Option (Bytes × PartitionKey)

/-- The graph of the partition that is being scanned.  Both lists grow by whole
capacities. -/
structure GraphBody where
  header : Option PartitionHeader
  children : List ChildEntry
  childCapacity : ℕ
  descriptor : Option GraphDescriptor
  chunks : List (ℕ × Bytes)
  chunkCapacity : ℕ
  charged : ℕ

structure GraphLedger where
  tree : Option TreeKey
  partition : Option PartitionKey
  body : GraphBody
  projections : OrderedMap PartitionKey fun _ => Projection
  treeBytes : ℕ

/-! ### Restoration -/

variable (a : Auditor) (children : List ChildEntry)

/-- The children are projections of a graph: in order, with valid coordinates. -/
def validCentroids : Bool :=
  decide (0 < children.length) && decide (children.length ≤ a.native.maxNodes) &&
  decide ((children.map ChildEntry.child).Pairwise (· < ·)) &&
  children.all fun e => a.native.validRouting e.centroid

/-- The checks before memory is admitted. -/
def restoreEnvelope (header : PartitionHeader) (descriptor : GraphDescriptor) : Bool :=
  validCentroids a children && LocalGraph.headerMatches header children.length &&
  decide (a.graph.m ≤ a.graph.efConstruction) && decide (descriptor.nodes = children.length) &&
  decide (descriptor.epoch = header.cacheEpoch) &&
  decide (a.native.headerBytes ≤ descriptor.bytes) &&
  (a.native.encodedBound children.length a.graph.m).any fun bound => descriptor.bytes ≤ bound

/-- The memory a restoration needs beside the decoder: the children and the assembled
body. -/
def restoreBytes (descriptor : GraphDescriptor) : ℕ :=
  (a.graph.dimension * 4 + a.sizes.childEntry + 64) * children.length + (descriptor.bytes + 1024)

def chunksMatch (length : ℕ) (chunks : List (ℕ × Bytes)) : Bool :=
  decide (chunks.map Prod.fst = List.range chunks.length) &&
  decide (chunks.map (fun c => c.2.length) =
    (List.range chunks.length).map fun n => min (length - n * graphChunkBytes) graphChunkBytes) &&
  decide ((chunks.map fun c => c.2.length).sum = length)

/-- The checks after memory is admitted. -/
def restoreBody (treeKey : TreeKey) (partition : PartitionKey) (children : List ChildEntry)
    (header : PartitionHeader) (descriptor : GraphDescriptor) (chunks : List (ℕ × Bytes)) :
    Except ErrorKind Unit :=
  let body := chunks.flatMap Prod.snd
  if descriptor.binding = a.graph.binding (a.graph.identity treeKey partition children) header ∧
      chunks.length ≤ descriptor.chunks ∧ chunksMatch descriptor.bytes chunks = true ∧
      a.graph.sha256 body = descriptor.sha256 then
    a.native.decode body children.length a.graph.m
  else .error .corruption

def restore (treeKey : TreeKey) (partition : PartitionKey) (header : PartitionHeader)
    (body : GraphBody) (descriptor : GraphDescriptor) : AuditM Unit := do
  let invalid := a.issue .invalidEncoding (some treeKey) (some partition) none
  let failed (kind : ErrorKind) : AuditM Unit :=
    if kind = .corruption then invalid
    else if kind = .limitExceeded then stop
    else .fail kind
  if restoreEnvelope a body.children header descriptor then do
    let bytes := restoreBytes a body.children descriptor
    requireMemory bytes
    if ← truncated then pure ()
    else
      match a.native.decodeBound body.children.length a.graph.m descriptor.bytes with
      | .error kind => failed kind
      | .ok decodeBound => do
        requireMemory (bytes + decodeBound)
        if ← truncated then pure ()
        else
          match restoreBody a treeKey partition body.children header descriptor body.chunks with
          | .ok _ => pure ()
          | .error kind => failed kind
  else invalid

/-! ### The ledger -/

namespace GraphLedger

def emptyBody : GraphBody := ⟨none, [], 0, none, [], 0, 0⟩

def new : GraphLedger := ⟨none, none, emptyBody, .empty, 0⟩

/-- The projection of a partition, which is inserted and charged on first sight; none
when that stopped the audit. -/
def projection (a : Auditor) (l : GraphLedger) (partition : PartitionKey) :
    AuditM (Option (GraphLedger × Projection)) :=
  match l.projections.lookup partition with
  | some p => pure (some (l, p))
  | none => do
    let bytes := 3 * a.sizes.projection + 64
    chargeMemory bytes
    if ← truncated then pure none
    else
      let p : Projection := ⟨false, none, none⟩
      pure (some ({ l with
        treeBytes := l.treeBytes + bytes
        projections := l.projections.put partition p }, p))

variable (l : GraphLedger)

def project (partition : PartitionKey) (f : Projection → Projection) : AuditM GraphLedger := do
  match ← projection a l partition with
  | none => pure l
  | some (l, p) => pure { l with projections := l.projections.put partition (f p) }

/-- Admits one more entry of a list: how far the list has to grow, and its payload.
None when that stopped the audit. -/
def reserveEntry (length capacity size payload : ℕ) : AuditM (Option (ℕ × ℕ)) := do
  let growth := if length = capacity then max capacity 4 else 0
  let bytes := 2 * growth * size + payload
  chargeMemory bytes
  if ← truncated then pure none
  else pure (some (capacity + growth, bytes))

/-- Checks the graph of the open partition. -/
def closeBody : AuditM GraphLedger := do
  let body := l.body
  let closed : GraphLedger := { l with body := emptyBody, partition := none }
  match l.partition, l.tree with
  | some partition, some treeKey =>
    if ← truncated then pure closed
    else do
      let stray := body.descriptor.isSome || !body.chunks.isEmpty
      let membership := a.issue .membership (some treeKey) (some partition) none
      match body.header with
      | some header =>
        if 1 < header.level then
          if header.entryCount = 0 then
            if stray || !body.children.isEmpty then membership
            else pure ()
          else
            match body.descriptor with
            | none => a.issue .reachability (some treeKey) (some partition) none
            | some descriptor => do
              let kernelBytes := a.sizes.kernel + treeKey.length
              chargeMemory kernelBytes
              if ← truncated then pure ()
              else do
                restore a treeKey partition header body descriptor
                releaseMemory kernelBytes
        else if stray then membership
        else pure ()
      | none => if stray then membership else pure ()
      releaseMemory body.charged
      pure closed
  | _, _ => pure closed

/-- Compares the centroids of a tree.  The root has no incoming one. -/
def closeTree : AuditM GraphLedger := do
  Audit.forEach (fun (entry : Sigma fun _ : PartitionKey => Projection) => do
    let p := entry.2
    if p.header && decide (entry.1 ≠ rootPartition) && p.actual.isNone then
      a.issue .reachability l.tree (some entry.1) none
    match p.expected with
    | some (expected, parent) =>
      if p.actual ≠ some expected then a.issue .membership l.tree (some parent) none
      else pure ()
    | none => pure ()) l.projections.entries
  releaseMemory l.treeBytes
  pure { l with projections := .empty, treeBytes := 0, tree := none }

/-- The body of a partition; that of another one is closed first. -/
def openBody (treeKey : TreeKey) (partition : PartitionKey) : AuditM GraphLedger := do
  if l.tree = some treeKey ∧ l.partition = some partition then pure l
  else do
    let l ← closeBody a l
    if l.tree = some treeKey then pure { l with partition := some partition }
    else do
      let l ← closeTree a l
      chargeMemory treeKey.length
      if ← truncated then pure l
      else
        pure { l with
          treeBytes := treeKey.length
          tree := some treeKey
          partition := some partition }

/-- Takes one decoded body of a partition. -/
def absorb (key : LogicalKey) (value : key.ValueOf) (partition : PartitionKey) :
    AuditM GraphLedger :=
  match key, value with
  | .header _ _, header =>
    project a { l with body := { l.body with header := some header } } partition
      fun p => { p with header := true }
  | .centroid _ _, centroid =>
    project a l partition fun p => { p with actual := some (a.centroidFingerprint centroid) }
  | .childEntry _ _ _, child => do
    let l ← project a l child.child fun p =>
      { p with expected := some (a.centroidFingerprint child.centroid, partition) }
    match ← reserveEntry l.body.children.length l.body.childCapacity a.sizes.childEntry
        (4 * child.centroid.length) with
    | none => pure l
    | some (capacity, bytes) =>
      pure { l with
        body := { l.body with
          children := l.body.children ++ [child]
          childCapacity := capacity
          charged := l.body.charged + bytes } }
  | .graphDescriptor _ _, descriptor =>
    pure { l with body := { l.body with descriptor := some descriptor } }
  | .graphChunk _ _ ordinal, chunk => do
    match ← reserveEntry l.body.chunks.length l.body.chunkCapacity a.sizes.graphChunk
        chunk.length with
    | none => pure l
    | some (capacity, bytes) =>
      pure { l with
        body := { l.body with
          chunks := l.body.chunks ++ [(ordinal, chunk)]
          chunkCapacity := capacity
          charged := l.body.charged + bytes } }
  | _, _ => pure l

def isGraphValue : LogicalKey → Bool
  | .graphDescriptor _ _ | .graphChunk _ _ _ => true
  | _ => false

/-- Takes one decoded object.  Without local graphs there are no graph values. -/
def observe (key : LogicalKey) (value : key.ValueOf) (owner : Option (TreeKey × PartitionKey)) :
    AuditM GraphLedger :=
  match owner with
  | none => pure l
  | some (treeKey, partition) =>
    if !a.index.localGraph then do
      if isGraphValue key then a.issue .membership (some treeKey) (some partition) none
      pure l
    else do
      let l ← openBody a l treeKey partition
      if ← truncated then pure l
      else absorb a l key value partition

def finish : AuditM Unit := do
  let l ← closeBody a l
  let _ ← closeTree a l
  pure ()

end GraphLedger

end Verify
