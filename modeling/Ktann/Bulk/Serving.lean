/-
Serving pairs from source records and a forest.

The build joins three sorted streams: source records with the leaves their IDs are
assigned to, and each partition with its one parent.  It then adds a Synopsis for every
leaf and, for a graph index, the routing graphs, and writes the pairs in key order.

* `readForest` — the frames of a forest file, tree by tree;
* `joinRecords`, `joinNodes` — the two joins;
* `synopses`, `observeAll` — what is derived from sorted pairs;
* `build` — the pairs of an artifact.
-/
import Ktann.Construction.Workspace
import Ktann.Maintenance.GraphTopology
import Ktann.Maintenance.Mutation

namespace Serving

/-- A key with its value. -/
abbrev Pair := Sigma ValueOf

/-! ### The forest -/

/-- One frame of a forest file. -/
structure ForestPartition where
  treeKey : TreeKey
  partition : PartitionPlan VectorData

variable (f : ForestPartition)

def ForestPartition.node : RecordLocation := ⟨f.treeKey, f.partition.key⟩

/-- The big-endian Partition Key an internal entry spells. -/
def childOf (entry : Bytes) : PartitionKey := entry.foldl (fun n b => 256 * n + b.val) 0

/-- One entry of a frame: a Record ID, or a Partition Key above the leaves. -/
def checkEntry (level : ℕ) (entry : Bytes) : Bool :=
  0 < entry.length && entry.length ≤ maxRecordIdBytes &&
    (level ≤ 1 || (entry.length = 8 && childOf entry ≠ 0))

variable (ix : Index)

/-- The bounds of one frame. -/
def decodePlan (plan : PartitionPlan VectorData) : Except Error Unit :=
  if plan.key = 0 ∨ u64Bound ≤ plan.key then .error .corrupt
  else if plan.level = 0 ∨ u32Bound ≤ plan.level ∨ plan.entries.length = 0 ∨
      ix.maxEntries plan.level < plan.entries.length then .error .corrupt
  else if plan.entries.all (checkEntry plan.level) = true ∧
    plan.entries.Pairwise (· < ·) then .ok ()
  else .error .corrupt

/-- A reader between two frames. -/
structure ForestReader where
  records : ℕ
  tree : Option TreeKey
  nextKey : PartitionKey
  level : ℕ
  rooted : Bool

namespace ForestReader

def start : ForestReader := ⟨0, none, 2, 0, false⟩

/-- Trees come in order, and a tree ends with its root. -/
def enter (r : ForestReader) (t : TreeKey) : Except Error ForestReader :=
  if r.tree = some t then .ok r
  else if (∃ previous ∈ r.tree, t ≤ previous) ∨ (r.tree ≠ none ∧ r.rooted = false) then
    .error .corrupt
  else .ok ⟨r.records, some t, 2, 0, false⟩

/-- Keys are consecutive but for the root's, and levels do not fall. -/
def place (r : ForestReader) (plan : PartitionPlan VectorData) : Except Error ForestReader :=
  if r.rooted = true ∨ plan.level < r.level then .error .corrupt
  else if plan.key = rootPartition then .ok { r with level := plan.level, rooted := true }
  else if plan.key ≠ r.nextKey ∨ plan.entries.length < ix.minPartitionEntries plan.level ∨
      u64Bound ≤ r.nextKey + 1 then .error .corrupt
  else .ok { r with level := plan.level, nextKey := r.nextKey + 1 }

/-- No more records than the source has. -/
def count (expected : ℕ) (r : ForestReader) (plan : PartitionPlan VectorData) :
    Except Error ForestReader :=
  if plan.level = 1 then
    if expected < r.records + plan.entries.length then .error .corrupt
    else .ok { r with records := r.records + plan.entries.length }
  else .ok r

def decode (expected : ℕ) (r : ForestReader) (f : ForestPartition) : Except Error ForestReader := do
  decodePlan ix f.partition
  let r ← r.enter f.treeKey
  let r ← r.place ix f.partition
  r.count expected f.partition

end ForestReader

def readForest (expected : ℕ) (forest : List ForestPartition) : Except Error Unit := do
  let r ← forest.foldlM (ForestReader.decode ix expected) .start
  if r.records ≠ expected ∨ (r.tree ≠ none ∧ r.rooted = false) then .error .corrupt else .ok ()

/-! ### Records and their leaves -/

/-- The leaf of every Record ID of a forest. -/
def assignments (forest : List ForestPartition) : List (RecordId × RecordLocation) :=
  forest.flatMap fun f =>
    if f.partition.level = 1 then f.partition.entries.map fun id => (id, f.node) else []

/-- A source record at its leaf. -/
structure Joined where
  record : Record
  node : RecordLocation
  entry : LeafEntry

def treeKeyOf (r : Record) : Except Error TreeKey := do
  let values ← ix.treeKeyFields.mapM fun field =>
    match r.fields[field]? with
    | some value => Except.ok value
    | none => .error .invalidArgument
  TreeKey.encode ix.treeKeyTypes values

def leafEntryOf (r : Record) : Except Error LeafEntry := do
  let routing ← ix.preprocess r.vector
  let rabitq7 ← ix.quantize routing
  .ok ⟨r.id, r.fields, rabitq7⟩

/-- Records and assignments, both in ID order, meet one to one.  Assignments are tagged
below partitions, so that what follows the last record is not one. -/
def joinRecords (ix : Index) (previous : Option RecordId) :
    List Record → List (RecordId × RecordLocation) → Except Error (List Joined)
  | [], [] => .ok []
  | [], _ :: _ => .error .corrupt
  | r :: records, assigned =>
    if previous = some r.id then .error (.new .recordAlreadyExists)
    else
      match assigned with
      | [] => .error .corrupt
      | (id, node) :: assigned =>
        if id ≠ r.id then .error .corrupt
        else do
          let treeKey ← treeKeyOf ix r
          if treeKey ≠ node.treeKey then .error .corrupt
          else do
            let entry ← leafEntryOf ix r
            let rest ← joinRecords ix (some r.id) records assigned
            .ok (⟨r, node, entry⟩ :: rest)

def Joined.recordPairs (j : Joined) : List Pair :=
  ⟨.record j.record.id, ⟨j.record.id, j.record.vector, j.record.fields⟩⟩ ::
    ⟨.location j.record.id, j.node⟩ ::
      (j.record.payload.map fun payload => (⟨.payload j.record.id, payload⟩ : Pair)).toList

def Joined.leafPair (j : Joined) : Pair :=
  ⟨.leafEntry j.node.treeKey j.node.leaf j.record.id, j.entry⟩

/-! ### Partitions and their parents -/

/-- What the forest says of one node: what it is, or which partition names it a child. -/
inductive NodeRow
  | partition (node : RecordLocation) (level count : ℕ) (centroid : VectorData)
  | parent (node : RecordLocation) (parent : PartitionKey) (level : ℕ)

namespace NodeRow

def node : NodeRow → RecordLocation
  | partition node _ _ _ | parent node _ _ => node

/-- A partition sorts before the references to it. -/
def isParent : NodeRow → Bool
  | partition _ _ _ _ => false
  | parent _ _ _ => true

def sortKey (row : NodeRow) : RecordLocation ×ₗ Bool := toLex (row.node, row.isParent)

end NodeRow

/-- The children an internal partition names. -/
def ForestPartition.parents : List NodeRow :=
  if f.partition.level = 1 then []
  else f.partition.entries.map fun e =>
    .parent ⟨f.treeKey, childOf e⟩ f.partition.key f.partition.level

def ForestPartition.rows : List NodeRow :=
  .partition f.node f.partition.level f.partition.entries.length f.partition.centroid :: f.parents

/-- A partition with its parent; the root has none. -/
structure Node where
  node : RecordLocation
  level : ℕ
  count : ℕ
  centroid : VectorData
  parent : Option PartitionKey

def sameNext (node : RecordLocation) (rows : List NodeRow) : Bool :=
  rows.head?.any fun row => row.node = node

/-- Every partition but a root has exactly one parent, one level up. -/
def joinNodes : List NodeRow → Except Error (List Node)
  | [] => .ok []
  | .parent _ _ _ :: _ => .error .corrupt
  | [.partition node level count centroid] =>
    if node.leaf = rootPartition then .ok [⟨node, level, count, centroid, none⟩]
    else .error .corrupt
  | .partition node level count centroid :: .partition node' level' count' centroid' :: rows =>
    if node.leaf ≠ rootPartition ∨ node' = node then .error .corrupt
    else do
      let nodes ← joinNodes (.partition node' level' count' centroid' :: rows)
      .ok (⟨node, level, count, centroid, none⟩ :: nodes)
  | .partition node level count centroid :: .parent child parent parentLevel :: rows =>
    if node.leaf = rootPartition ∨ child ≠ node ∨ level + 1 ≠ parentLevel ∨
        sameNext node rows = true then .error .corrupt
    else do
      let nodes ← joinNodes rows
      .ok (⟨node, level, count, centroid, some parent⟩ :: nodes)

def Node.header (n : Node) : Except Error PartitionHeader :=
  if h : 0 < n.level ∧ n.level < u32Bound ∧ n.count < u32Bound then
    .ok ⟨n.level, n.count, 1, .ready, h.1, h.2.1, h.2.2, by decide⟩
  else .error .invalidArgument

/-- The Child Entry and the Centroid of a partition below its root. -/
def Node.edgePairs (n : Node) : List Pair :=
  match n.parent with
  | none => []
  | some p => [⟨.childEntry n.node.treeKey p n.node.leaf, ⟨n.node.leaf, n.centroid⟩⟩,
      ⟨.centroid n.node.treeKey n.node.leaf, n.centroid⟩]

def Node.pairs (n : Node) : Except Error (List Pair) := do
  let header ← n.header
  .ok (n.edgePairs ++ [⟨.header n.node.treeKey n.node.leaf, header⟩,
    ⟨.state n.node.treeKey n.node.leaf, .ready 0⟩])

/-- The last partition of every tree. -/
def highWaters : Option RecordLocation → List Node → List RecordLocation
  | none, [] => []
  | some last, [] => [last]
  | none, n :: nodes => highWaters (some n.node) nodes
  | some last, n :: nodes =>
    if last.treeKey = n.node.treeKey then highWaters (some n.node) nodes
    else last :: highWaters (some n.node) nodes

def treePair (last : RecordLocation) : Except Error Pair :=
  if h : rootPartition ≤ last.leaf ∧ last.leaf < u64Bound then
    .ok ⟨.treeManifest last.treeKey, ⟨last.leaf, h.1, h.2⟩⟩
  else .error .invalidArgument

/-! ### Synopses and graphs -/

/-- Reduces the Leaf Entries of sorted pairs, leaf by leaf. -/
def synopses (ix : Index) : Option (RecordLocation × PartitionSynopsis) → List Pair →
    Except Error (List (RecordLocation × PartitionSynopsis))
  | open_, [] => .ok open_.toList
  | open_, ⟨.leafEntry t p _, e⟩ :: pairs =>
    match open_ with
    | none => do
      let (s, _) ← (PartitionSynopsis.empty ix).expand ix e.fields
      synopses ix (some (⟨t, p⟩, s)) pairs
    | some (leaf, s) =>
      if leaf = ⟨t, p⟩ then do
        let (s, _) ← s.expand ix e.fields
        synopses ix (some (leaf, s)) pairs
      else do
        let (next, _) ← (PartitionSynopsis.empty ix).expand ix e.fields
        let rest ← synopses ix (some (⟨t, p⟩, next)) pairs
        .ok ((leaf, s) :: rest)
  | open_, _ :: pairs => synopses ix open_ pairs

def synopsisPair (s : RecordLocation × PartitionSynopsis) : Pair :=
  ⟨.synopsis s.1.treeKey s.1.leaf, s.2⟩

/-- An internal body whose graph is built when it ends. -/
structure GraphBody where
  node : RecordLocation
  header : PartitionHeader
  children : List ChildEntry

abbrev BuildGraph := GraphBody → Except Error GraphRecords

variable (graph : BuildGraph)

def finishGraph : Option GraphBody → Except Error (List Pair)
  | none => .ok []
  | some body =>
    if body.children.length ≠ body.header.entryCount then .error .corrupt
    else do
      let records ← graph body
      .ok (⟨.graphDescriptor body.node.treeKey body.node.leaf, records.descriptor⟩ ::
        records.chunks.zipIdx.map fun chunk =>
          ⟨.graphChunk body.node.treeKey body.node.leaf chunk.2, chunk.1⟩)

def observeAll (graph : BuildGraph) : Option GraphBody → List Pair → Except Error (List Pair)
  | body, [] => finishGraph graph body
  | body, ⟨.header t p, h⟩ :: pairs => do
    let emitted ← finishGraph graph body
    let rest ← observeAll graph (if 1 < h.level then some ⟨⟨t, p⟩, h, []⟩ else none) pairs
    .ok (emitted ++ ⟨.header t p, h⟩ :: rest)
  | body, ⟨.treeManifest t, m⟩ :: pairs => do
    let emitted ← finishGraph graph body
    let rest ← observeAll graph none pairs
    .ok (emitted ++ ⟨.treeManifest t, m⟩ :: rest)
  | body, ⟨.childEntry t p c, e⟩ :: pairs =>
    match body with
    | none => .error .corrupt
    | some body =>
      if body.node ≠ ⟨t, p⟩ ∨ body.header.entryCount ≤ body.children.length then
        .error .corrupt
      else do
        let rest ← observeAll graph (some { body with children := body.children ++ [e] }) pairs
        .ok (⟨.childEntry t p c, e⟩ :: rest)
  | body, pair :: pairs => do
    let rest ← observeAll graph body pairs
    .ok (pair :: rest)

def withGraphs (pairs : List Pair) : Except Error (List Pair) :=
  if ix.localGraph then observeAll graph none pairs else .ok pairs

/-! ### The artifact -/

/-- A Synopsis goes before the first row above its key. -/
def mergeSynopses : List Pair → List Pair → List Pair
  | [], synopses => synopses
  | row :: rows, synopses =>
    synopses.takeWhile (fun s => s.1 < row.1) ++
      row :: mergeSynopses rows (synopses.dropWhile fun s => s.1 < row.1)

/-- Keys are written in strictly increasing order. -/
def writeEntries : Option LogicalKey → List Pair → Except Error Unit
  | _, [] => .ok ()
  | previous, pair :: pairs =>
    if ∃ k ∈ previous, pair.1 ≤ k then .error .corrupt else writeEntries (some pair.1) pairs

/-- The source: its records, and how many its manifest counts. -/
structure Input where
  records : List Record
  items : ℕ

def join (input : Input) (forest : List ForestPartition) :
    Except Error (List Joined × List Node) := do
  readForest ix input.items forest
  let joined ← joinRecords ix none (sortBy Record.id input.records)
    (sortBy Prod.fst (assignments forest))
  if joined.length ≠ input.items then .error .corrupt
  else do
    let nodes ← joinNodes (sortBy NodeRow.sortKey (forest.flatMap ForestPartition.rows))
    .ok (joined, nodes)

def treePairs (joined : List Joined) (nodes : List Node) : Except Error (List Pair) := do
  let partitions ← nodes.mapM Node.pairs
  let trees ← (highWaters none nodes).mapM treePair
  .ok (sortBy Sigma.fst (joined.map Joined.leafPair ++ (partitions.flatten ++ trees)))

/-- The pairs of a serving artifact. -/
def build (input : Input) (forest : List ForestPartition) : Except Error (List Pair) := do
  let (joined, nodes) ← join ix input forest
  let output ← treePairs joined nodes
  let summaries ← synopses ix none output
  let written ← withGraphs ix graph (mergeSynopses output (summaries.map synopsisPair))
  writeEntries none (joined.flatMap Joined.recordPairs ++ written)
  .ok (joined.flatMap Joined.recordPairs ++ written)

end Serving
