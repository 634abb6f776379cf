/-
Topology steps of a graph index.

An index with local graphs keeps, for every non-empty internal body, a persisted
routing graph.  A step that changes such a body is planned on a committed store:
the final bodies are computed there, their graphs are built outside any
transaction, and one write transaction then checks that nothing planned on has
changed, performs the ordinary topology step, and publishes the graphs.

* `BodyPlan`, `prepare` — a changed body and its publication;
* `graphPlan` — the step planned for a partition's state;
* `graphApply` — the transaction that commits a plan;
* `publishGraphCentroids` — the refinement of one parent's centroids.
-/
import Ktann.Maintenance.Drain
import Ktann.Storage.Topology.Transitions

open TxnM WriteTxn

/-! ### Planned bodies -/

/-- The stored chunks of one graph, in ordinal order. -/
def Store.graphBody (S : Store) (t : TreeKey) (p : PartitionKey) : List Bytes :=
  (S.scan (LogicalKey.graphChunkRange t p)).filterMap fun
    | ⟨.graphChunk _ _ _, chunk⟩ => some chunk
    | _ => none

/-- One changed body: what was read, and its final Header and children. -/
structure BodyPlan where
  treeKey : TreeKey
  partition : PartitionKey
  sourceHeader : Option PartitionHeader
  sourceDescriptor : Option GraphDescriptor
  sourceChunks : List Bytes
  sourceChildren : List ChildEntry
  header : Option PartitionHeader
  children : List ChildEntry

namespace BodyPlan

def graphNodes (header : Option PartitionHeader) : ℕ :=
  header.elim 0 fun h => if 1 < h.level then h.entryCount else 0

def read (ix : Index) (S : Store) (t : TreeKey) (p : PartitionKey) : Except Error BodyPlan :=
  let header := S.header t p
  let descriptor := S.graphDescriptor t p
  let children := S.childEntries t p
  if ix.maxInternalPartitionEntries + 2 < graphNodes header ∨
      (0 < graphNodes header) ≠ (descriptor.isSome = true) ∨
      children.length ≠ graphNodes header ∨
      S.graphChunks t p ≠ List.range (descriptor.elim 0 GraphDescriptor.chunks) then
    .error .corrupt
  else .ok ⟨t, p, header, descriptor, S.graphBody t p, children, header, children⟩

def add (body : BodyPlan) (child : PartitionKey) (centroid : VectorData) :
    Except Error BodyPlan := do
  if body.children.any fun e => e.child = child then .error .corrupt
  else
    let header ← body.header.elim (.error .corrupt) PartitionHeader.addedEntry
    .ok { body with
      header := some header
      children := body.children.orderedInsert (fun a b => a.child ≤ b.child) ⟨child, centroid⟩ }

def remove (body : BodyPlan) (child : PartitionKey) : Except Error BodyPlan := do
  if body.children.any fun e => e.child = child then
    let header ← body.header.elim (.error .corrupt) PartitionHeader.removedEntry
    .ok { body with
      header := some header
      children := body.children.filter fun e => e.child ≠ child }
  else .error .corrupt

end BodyPlan

/-! ### Publications -/

structure GraphRecords where
  descriptor : GraphDescriptor
  chunks : List Bytes

/-- The native graph builder: the records of a body's final Header and
children. -/
abbrev GraphBuilder := BodyPlan → PartitionHeader → Except Error GraphRecords

/-- What happens to the graph of a changed body. -/
inductive GraphPublication
  | preserve (header : PartitionHeader)
  | remove (header : Option PartitionHeader)
  | replace (header : PartitionHeader) (records : GraphRecords)

/-- The final Header a publication was prepared for. -/
def GraphPublication.header : GraphPublication → Option PartitionHeader
  | preserve header | replace header _ => some header
  | remove header => header

/-- One prepared publication, with the Header and descriptor it was read with. -/
structure PreparedGraphTransition where
  partition : PartitionKey
  sourceHeader : Option PartitionHeader
  sourceDescriptor : Option GraphDescriptor
  publication : GraphPublication

/-- Whether a body is read and left with the same level, epoch and children. -/
def BodyPlan.unchanged (body : BodyPlan) : Bool :=
  match body.sourceHeader, body.header with
  | some old, some new => old.level = new.level && old.cacheEpoch = new.cacheEpoch &&
      body.sourceChildren = body.children
  | _, _ => false

/-- A changed internal body must move its epoch forward. -/
def BodyPlan.advances (body : BodyPlan) : Bool :=
  match body.sourceHeader, body.header with
  | some old, some new => body.unchanged || (old.level ≤ 1 && new.level ≤ 1) ||
      old.cacheEpoch < new.cacheEpoch
  | _, _ => true

/-- What happens to the graph of a planned body: an unchanged body keeps it, a
non-empty body gets a new one, and any other loses it. -/
def BodyPlan.publication (build : GraphBuilder) (body : BodyPlan) : Except Error GraphPublication :=
  if body.unchanged then
    match body.header with
    | some header => .ok (.preserve header)
    | none => .error .corrupt
  else
    match body.header, body.children with
    | some header, _ :: _ => do
      let records ← build body header
      .ok (.replace header records)
    | header, _ => .ok (.remove header)

def prepare (build : GraphBuilder) (body : BodyPlan) : Except Error PreparedGraphTransition :=
  if BodyPlan.graphNodes body.header ≠ body.children.length ∨
      (body.children.any fun e => e.child = body.partition || e.child = rootPartition) = true ∨
      body.advances = false then .error .invalidArgument
  else do
    let publication ← body.publication build
    .ok ⟨body.partition, body.sourceHeader, body.sourceDescriptor, publication⟩

/-- Reads every planned Header and descriptor for update; `false` at the first
that changed. -/
def protectSources (t : TreeKey) : List PreparedGraphTransition → WriteTxn Bool
  | [] => pure true
  | graph :: rest => do
    let header ← getHeader t graph.partition
    let descriptor ← getGraphDescriptor t graph.partition
    if header = graph.sourceHeader ∧ descriptor = graph.sourceDescriptor then
      protectSources t rest
    else pure false

/-- Checks every final Header against the one its graph was prepared for. -/
def validateTargets (t : TreeKey) : List PreparedGraphTransition → WriteTxn Unit
  | [] => pure ()
  | graph :: rest => do
    let header ← getHeader t graph.partition
    ensure (header = graph.publication.header) (Error.new .retryableAbort)
    validateTargets t rest

/-- The writes of one publication: the descriptor, the chunks past its end, and
the chunks. -/
def publicationWrites (t : TreeKey) (graph : PreparedGraphTransition) : List (Write ValueOf) :=
  let old := graph.sourceDescriptor.elim 0 GraphDescriptor.chunks
  let drop (first : ℕ) := (List.range' first (old - first)).map fun n =>
    Write.delete (.graphChunk t graph.partition n)
  match graph.publication with
  | .preserve _ => []
  | .remove _ =>
    (if graph.sourceDescriptor.isSome then [.delete (.graphDescriptor t graph.partition)] else [])
      ++ drop 0
  | .replace _ records =>
    [.put (.graphDescriptor t graph.partition) records.descriptor] ++
      drop records.descriptor.chunks ++
      records.chunks.zipIdx.map fun (chunk, n) => .put (.graphChunk t graph.partition n) chunk

/-- Publishes prepared graphs after the topology step they belong to. -/
def publishBatch (t : TreeKey) (graphs : List PreparedGraphTransition) : WriteTxn Unit := do
  validateTargets t graphs
  stageAll (graphs.flatMap (publicationWrites t))

/-! ### Planning one step -/

/-- The ordinary topology step a plan performs.  A drain carries what it will leave
of its source, and the split target it does not move to. -/
inductive GraphEdit
  | expose (targets : SplitPair) (leftCentroid rightCentroid : VectorData)
  | drain (moves : List (ChildEntry × PartitionKey)) (movement : Movement) (remaining : ℕ)
    (otherTarget : Option (PartitionKey × PartitionHeader))
  | splitComplete
  | mergeComplete

/-- One planned step: the edit, the graphs of the bodies it changes, and the
parent with the walk that found it. -/
structure GraphPlan where
  edit : GraphEdit
  graphs : List PreparedGraphTransition
  parent : Option (PartitionKey × IncomingEdgeProof)

def planParent (S : Store) (t : TreeKey) (p : PartitionKey) (level : ℕ) :
    Except Error (Option (PartitionKey × IncomingEdgeProof)) :=
  if p = rootPartition then .ok none
  else do
    let proof ← IncomingEdgeProof.read S t level
    let edge ← proof.find S t p
    .ok (edge.map fun edge => (edge.1, proof))

variable (ix : Index)

/-- The body of a parent that gains the two targets of a split; `none` when it
cannot take them now. -/
def exposeBody (S : Store) (t : TreeKey) (p parent : PartitionKey) (targets : SplitPair)
    (leftCentroid rightCentroid : VectorData) : Except Error (Option BodyPlan) := do
  if (S.childEntry t parent p).isNone then .ok none
  else
    let body ← BodyPlan.read ix S t parent
    let header ← body.header.elim (.error .corrupt) Except.ok
    if (header.state = .ready ∨ header.state = .splitting) ∧
        header.entryCount ≤ ix.maxInternalPartitionEntries then do
      let body ← body.add targets.left leftCentroid
      let body ← body.add targets.right rightCentroid
      .ok (some body)
    else .ok none

variable (build : GraphBuilder)

/-- Plans an exposure.  The parent's body is read from a later store than the
parent was found in. -/
def planExpose (S later : Store) (t : TreeKey) (p : PartitionKey) (level : ℕ) (targets : SplitPair)
    (leftCentroid rightCentroid : VectorData) : Except Error (Option GraphPlan) := do
  let edit := .expose targets leftCentroid rightCentroid
  match ← planParent S t p level with
  | none => .ok (if p = rootPartition then some ⟨edit, [], none⟩ else none)
  | some parent => do
    match ← exposeBody ix later t p parent.1 targets leftCentroid rightCentroid with
    | none => .ok none
    | some body => do
      let graph ← prepare build body
      .ok (some ⟨edit, [graph], some parent⟩)

variable (S : Store) (t : TreeKey)

/-- A centroid that must exist. -/
def planCentroid (p : PartitionKey) : Except Error VectorData :=
  (S.centroid t p).elim (.error .corrupt) .ok

/-- The body of a drained root that becomes the parent of its targets. -/
def promotedBody (targets : SplitPair) : Except Error BodyPlan := do
  let body ← BodyPlan.read ix S t rootPartition
  let left ← planCentroid S t targets.left
  let body ← body.add targets.left left
  let right ← planCentroid S t targets.right
  let body ← body.add targets.right right
  let header ← body.header.elim (.error .corrupt) PartitionHeader.promoted
  .ok { body with header := some header }

/-- The bodies of a parent that loses a drained child, and of that child. -/
def removedBodies (p parent : PartitionKey) : Except Error (List BodyPlan) := do
  let body ← BodyPlan.read ix S t parent
  let body ← body.remove p
  let source ← BodyPlan.read ix S t p
  .ok [body, { source with header := none }]

def planComplete (p : PartitionKey) (level : ℕ) (edit : GraphEdit) (targets : Option SplitPair) :
    Except Error (Option GraphPlan) := do
  match ← planParent S t p level with
  | some parent => do
    let bodies ← removedBodies ix S t p parent.1
    let graphs ← bodies.mapM (prepare build)
    .ok (some ⟨edit, graphs, some parent⟩)
  | none =>
    match targets with
    | some targets =>
      if p = rootPartition then do
        let body ← promotedBody ix S t targets
        let graph ← prepare build body
        .ok (some ⟨edit, [graph], none⟩)
      else .ok none
    | none => .ok none

/-- The moves of a split drain to one receiver, the target of its first entry.  A
skipped entry uses up no reservation. -/
def splitDrainMoves (ix : Index) (targets : SplitPair) (leftCentroid rightCentroid : VectorData) :
    SplitBalance → Option PartitionKey → List ChildEntry →
      Except Error (List (ChildEntry × PartitionKey))
  | _, _, [] => .ok []
  | balance, receiver, entry :: rest => do
    let (target, trial) ← nearerTarget ix entry.centroid targets leftCentroid rightCentroid balance
    if ∀ r ∈ receiver, r = target then do
      let moves ← splitDrainMoves ix targets leftCentroid rightCentroid trial (some target) rest
      .ok ((entry, target) :: moves)
    else splitDrainMoves ix targets leftCentroid rightCentroid balance receiver rest

/-- The moves of a merge drain to one receiver with room for `room` more
entries. -/
def mergeDrainMoves (ix : Index) (source : PartitionKey) (candidates : List LevelCandidate)
    (ceiling : ℕ) : Option (PartitionKey × ℕ) → List ChildEntry → List (ChildEntry × PartitionKey)
  | _, [] => []
  | receiver, entry :: rest =>
    match nearestReadyCandidate ix entry.centroid source candidates with
    | none => []
    | some (_, candidate) =>
      let (target, count) := receiver.getD (candidate.partition, candidate.header.entryCount)
      if candidate.partition = target then
        if ceiling ≤ count then []
        else (entry, target) ::
          mergeDrainMoves ix source candidates ceiling (some (target, count + 1)) rest
      else mergeDrainMoves ix source candidates ceiling receiver rest

variable (source : PartitionKey)

def drainBodies (moves : List (ChildEntry × PartitionKey)) :
    Except Error (BodyPlan × BodyPlan) := do
  let receiver ← moves.head?.elim (.error .corrupt) fun m => BodyPlan.read ix S t m.2
  let receiver ← moves.foldlM (fun body m => body.add m.1.child m.1.centroid) receiver
  let body ← BodyPlan.read ix S t source
  let body ← moves.foldlM (fun body m => body.remove m.1.child) body
  .ok (body, receiver)

def planSplitDrain (header : PartitionHeader) (targets : SplitPair) :
    Except Error (Option GraphPlan) := do
  let left ← (S.header t targets.left).elim (.error .corrupt) .ok
  let right ← (S.header t targets.right).elim (.error .corrupt) .ok
  let leftCentroid ← planCentroid S t targets.left
  let rightCentroid ← planCentroid S t targets.right
  let balance := SplitBalance.new header.entryCount left.entryCount right.entryCount
    (ix.minPartitionEntries header.level)
  let body ← BodyPlan.read ix S t source
  let moves ← splitDrainMoves ix targets leftCentroid rightCentroid balance none
    (body.children.take drainBatchInternal)
  let (body, receiver) ← drainBodies ix S t source moves
  let remaining ← body.header.elim (.error .corrupt) fun h => Except.ok h.entryCount
  let graphs ← [body, receiver].mapM (prepare build)
  let other := if moves.head?.map Prod.snd = some targets.left then (targets.right, right)
    else (targets.left, left)
  .ok (some ⟨.drain moves .split remaining (some other), graphs, none⟩)

/-- Plans one drain of an internal merge source; `none` when no receiver has
room. -/
def planMergeDrain (header : PartitionHeader) : Except Error (Option GraphPlan) := do
  let ceiling := ix.maxInternalPartitionEntries + 2
  let candidates ← sameLevelCandidates S t header.level
  let candidates := candidates.filter fun c => c.header.entryCount < ceiling
  let body ← BodyPlan.read ix S t source
  let moves := mergeDrainMoves ix source candidates ceiling none
    (body.children.take drainBatchInternal)
  if moves = [] then .ok none
  else do
    let (body, receiver) ← drainBodies ix S t source moves
    let remaining ← body.header.elim (.error .corrupt) fun h => Except.ok h.entryCount
    let graphs ← [body, receiver].mapM (prepare build)
    .ok (some ⟨.drain moves .merge remaining none, graphs, none⟩)

/-- Plans the next step of one partition from its state; `none` when there is
none.  `later` is the store an exposure reads its parent's body from, and the two
centroids are the trained ones. -/
def graphPlan (S later : Store) (t : TreeKey) (p : PartitionKey)
    (leftCentroid rightCentroid : VectorData) : Except Error (Option GraphPlan) := do
  match ← readAuthorityPair S t p with
  | some (header, .splitting targets _) =>
    planExpose ix build S later t p header.level targets leftCentroid rightCentroid
  | some (header, .drainingSplit targets _) =>
    if header.entryCount = 0 then
      planComplete ix build S t p header.level .splitComplete (some targets)
    else planSplitDrain ix build S t p header targets
  | some (header, .merging _) =>
    if header.entryCount = 0 then planComplete ix build S t p header.level .mergeComplete none
    else planMergeDrain ix build S t p header
  | _ => .ok none

/-! ### Committing a plan -/

/-- Revalidates the remembered walk to the parent, if the plan has one. -/
def validateParent : Option (PartitionKey × IncomingEdgeProof) → WriteTxn Bool
  | none => pure true
  | some (_, proof) => proof.validate t

/-- Whether the other target of a planned split drain is unchanged. -/
def validateOther : GraphEdit → WriteTxn Bool
  | .drain _ _ _ (some (p, expected)) => do
    let header ← getHeader t p
    pure (decide (header = some expected))
  | _ => pure true

/-- What a committed graph step reports. -/
inductive GraphAdvance
  | exposed (targets : SplitPair)
  | drained (moved remaining : ℕ)
  | completed
  deriving DecidableEq

/-- Performs the topology step of a plan; `none` when it is not due any more. -/
def performEdit (now : ℕ) (removal : SourceRemoval) (parent : Option PartitionKey) :
    GraphEdit → WriteTxn (Option GraphAdvance)
  | .expose targets leftCentroid rightCentroid => do
    let outcome ← exposeSplitTargets ix t source targets.left leftCentroid targets.right
      rightCentroid now parent
    pure (if outcome = .exposed then some (.exposed targets) else none)
  | .drain moves movement remaining _ => do
    let moved ← relocateChildEntries ix t source moves movement
    pure (some (.drained moved remaining))
  | .splitComplete => do
    match ← finalizeSplit t source now removal parent with
    | .completed _ => pure (some .completed)
    | _ => pure none
  | .mergeComplete => do
    let outcome ← finalizeMerge t source removal parent
    pure (if outcome = .completed then some .completed else none)

/-- Commits one plan: everything it was planned on is read for update, and the
graphs are published with the step.  `none` asks for a new plan. -/
def graphApply (now : ℕ) (removal : SourceRemoval) (plan : GraphPlan) :
    WriteTxn (Option GraphAdvance) := do
  let found ← validateParent t plan.parent
  if found = true then do
    let fresh ← protectSources t plan.graphs
    if fresh = true then do
      let same ← validateOther t plan.edit
      if same = true then do
        match ← performEdit ix t source now removal (plan.parent.map Prod.fst) plan.edit with
        | some advance => do
          publishBatch t plan.graphs
          pure (some advance)
        | none => pure none
      else pure none
    else pure none
  else pure none

/-! ### Refining centroids -/

/-- Replaces several centroids of one parent's children. -/
def updateCentroids (t : TreeKey) (parent : PartitionKey) :
    List (PartitionKey × VectorData) → WriteTxn Unit
  | [] => pure ()
  | (p, centroid) :: rest => do
    updateCentroid t p parent centroid
    updateCentroids t parent rest

def BodyPlan.recenter (body : BodyPlan) (child : PartitionKey) (centroid : VectorData) :
    Except Error BodyPlan :=
  match body.header, body.children.find? fun e => e.child = child with
  | some header, some entry =>
    if entry.centroid = centroid then .ok body
    else do
      let touched ← header.touchedEntry
      .ok { body with
        header := some touched
        children := body.children.map fun e => if e.child = child then ⟨child, centroid⟩ else e }
  | _, _ => .error .corrupt

/-- Plans the refinement of several children's centroids: the parent's body with
the new ones, which must be `Ready`. -/
def planCentroids (parent : PartitionKey) (updates : List (PartitionKey × VectorData)) :
    Except Error PreparedGraphTransition := do
  let body ← BodyPlan.read ix S t parent
  let header ← body.header.elim (.error .corrupt) Except.ok
  if header.state = .ready then do
    let body ← updates.foldlM (fun body u => body.recenter u.1 u.2) body
    prepare build body
  else .error .invalidArgument

/-- Publishes refined centroids of one parent's children with the parent's
graph. -/
def publishGraphCentroids (parent : PartitionKey) (updates : List (PartitionKey × VectorData))
    (graphs : List PreparedGraphTransition) : WriteTxn Unit := do
  let fresh ← protectSources t graphs
  ensure (fresh = true) (Error.new .contentionExhausted)
  updateCentroids t parent updates
  publishBatch t graphs
