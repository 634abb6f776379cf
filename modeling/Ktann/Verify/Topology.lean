/-
Trees, partitions and Synopses.

The scan holds one partition and one tree at a time.  Closing a partition checks its
Header and State, its exact count and its Synopsis; closing a tree checks the
allocator, the one incoming Child Entry of every partition but the root and the targets
of a root split, the references of every State, and that the root reaches everything.

* `PartitionFacts`, `TreeWalk`, `TopologyLedger` — what is held;
* `TreeWalk.closePartition`, `TreeWalk.checkTree` — the two boundaries;
* `TopologyLedger.absorbHeader` and the others — one decoded body.
-/
import Ktann.Verify.Records

open Audit (forEach)

namespace Verify

/-! ### Partitions -/

/-- The bodies of the partition that is being scanned. -/
structure PartitionFacts where
  partition : PartitionKey
  header : Option PartitionHeader
  transition : Option PartitionTransition
  synopsis : Option PartitionSynopsis
  recomputed : PartitionSynopsis
  leafEntries : ℕ
  childEntries : ℕ
  charged : ℕ

/-- What a closed partition leaves for the checks of its tree. -/
structure PartitionSummary where
  level : Option ℕ
  transition : Option PartitionTransition

/-- The tree that is being scanned. -/
structure TreeWalk where
  treeKey : TreeKey
  manifest : Option TreeManifest
  partitions : OrderedMap PartitionKey fun _ => PartitionSummary
  edges : List (PartitionKey × PartitionKey)
  current : Option PartitionFacts
  charged : ℕ

/-- The Tree Manifests that no partition has claimed, and the open tree. -/
structure TopologyLedger where
  trees : OrderedMap TreeKey fun _ => TreeManifest
  walk : Option TreeWalk

variable (a : Auditor)

def Auditor.synopsisEstimate : ℕ :=
  a.sizes.synopsis + a.index.fields.length * a.sizes.fieldSynopsis +
    (a.index.bloomParameters.map fun parameters =>
      parameters.elim 0 fun p => (p.bitCount + 7) / 8 + 1).sum

def Auditor.treeManifestBytes (treeKey : TreeKey) : ℕ := treeKey.length + a.sizes.treeManifest

/-- Whether a stored extremum is on the given side of a recomputed one, or equal. -/
def coversExtremum (beyond : Ordering) (stored recomputed : Option Value) : Bool :=
  match recomputed with
  | none => true
  | some v => stored.any fun s => (typedOrder s v).any (· != beyond)

def coversField (stored recomputed : FieldSynopsis) : Bool :=
  (!recomputed.hasNull || stored.hasNull) &&
  coversExtremum .gt stored.minimum recomputed.minimum &&
  coversExtremum .lt stored.maximum recomputed.maximum &&
  (match stored.bloom, recomputed.bloom with
    | some stored, some recomputed => stored.length == recomputed.length &&
        (stored.zip recomputed).all fun (s, r) => !r || s
    | _, _ => true)

/-- Whether a stored Synopsis covers the one rebuilt from the Leaf Entries. -/
def conservative (ix : Index) (stored recomputed : PartitionSynopsis) : Bool :=
  stored.hasShapeFor ix && recomputed.hasShapeFor ix &&
    (stored.fields.zip recomputed.fields).all fun (s, r) => coversField s r

def splitTargets : PartitionTransition → Option SplitPair
  | .splitting targets _ | .drainingSplit targets _ => some targets
  | _ => none

namespace TreeWalk

def new (treeKey : TreeKey) (manifest : Option TreeManifest) : AuditM TreeWalk := do
  let charged := a.sizes.treeWalk + treeKey.length
  chargeMemory charged
  pure ⟨treeKey, manifest, .empty, [], none, charged⟩

/-- The Header and State are there and agree on the state. -/
def pairConsistent (facts : PartitionFacts) : Bool :=
  match facts.header, facts.transition with
  | some header, some transition => decide (transition.state = header.state)
  | _, _ => false

def checkBody (treeKey : TreeKey) (facts : PartitionFacts) (header : PartitionHeader) :
    AuditM Unit := do
  a.noteActionablePartition facts.partition header
  if header.level = 1 then do
    if facts.leafEntries ≠ header.entryCount then
      a.issue .countMismatch (some treeKey) (some facts.partition) none
    match facts.synopsis with
    | none => a.issue .reachability (some treeKey) (some facts.partition) none
    | some stored =>
      if !conservative a.index stored facts.recomputed then
        a.issue .synopsisNotConservative (some treeKey) (some facts.partition) none
  else do
    if facts.childEntries ≠ header.entryCount then
      a.issue .countMismatch (some treeKey) (some facts.partition) none
    if facts.synopsis.isSome then
      a.issue .reachability (some treeKey) (some facts.partition) none

variable (w : TreeWalk)

/-- Closes the open partition and keeps its summary. -/
def closePartition : AuditM TreeWalk :=
  match w.current with
  | none => pure w
  | some facts => do
    let w := { w with current := none }
    if !pairConsistent facts then
      a.issue .reachability (some w.treeKey) (some facts.partition) none
    match facts.header with
    | some header => checkBody a w.treeKey facts header
    | none => pure ()
    releaseMemory facts.charged
    let charged := 2 * a.sizes.summary
    chargeMemory charged
    if ← truncated then pure w
    else
      pure { w with
        charged := w.charged + charged
        partitions := w.partitions.put facts.partition
          ⟨facts.header.map PartitionHeader.level, facts.transition⟩ }

/-- Facts for a partition; those of another one are closed first. -/
def openPartition (partition : PartitionKey) : AuditM TreeWalk := do
  if w.current.any fun current => current.partition = partition then pure w
  else do
    let w ← closePartition a w
    let charged := a.sizes.partitionFacts + a.synopsisEstimate
    chargeMemory charged
    if ← truncated then pure w
    else
      pure { w with
        current := some ⟨partition, none, none, none, PartitionSynopsis.empty a.index, 0, 0,
          charged⟩ }

/-! ### Trees -/

def keys : List PartitionKey := w.partitions.entries.map Sigma.fst

def summary (p : PartitionKey) : Option PartitionSummary := w.partitions.lookup p

def targets (p : PartitionKey) : Option SplitPair :=
  ((w.summary p).bind PartitionSummary.transition).bind splitTargets

def levelSkew (parent child : PartitionKey) : Bool :=
  match (w.summary parent).bind PartitionSummary.level,
    (w.summary child).bind PartitionSummary.level with
  | some parentLevel, some childLevel => decide (parentLevel ≠ min (childLevel + 1) (u32Bound - 1))
  | _, _ => false

/-- Every edge: its target exists, its parent is one level above, and its child has no
other.  The result are the children so far. -/
def checkEdges (a : Auditor) (w : TreeWalk) :
    List (PartitionKey × PartitionKey) → List PartitionKey → AuditM (List PartitionKey)
  | [], incoming => pure incoming
  | (parent, child) :: rest, incoming => do
    if ← truncated then pure incoming
    else do
      if (w.summary child).isNone then
        a.issue .reachability (some w.treeKey) (some parent) none
      if w.levelSkew parent child then a.issue .membership (some w.treeKey) (some parent) none
      if incoming.contains child then a.issue .membership (some w.treeKey) (some child) none
      checkEdges a w rest (if incoming.contains child then incoming else child :: incoming)

/-- One target of a split: it is reserved, not the root, and names the source back at
its level.  A target that drains is published. -/
def checkTarget (highWater : PartitionKey) (partition : PartitionKey) (s : PartitionSummary)
    (draining : Bool) (target : PartitionKey) : AuditM Unit := do
  if highWater < target then a.issue .countMismatch (some w.treeKey) (some partition) none
  if target = rootPartition then a.issue .reachability (some w.treeKey) (some partition) none
  else
    match w.summary target with
    | some t => do
      let namesBack := match t.transition with
        | some (.receivingSplit source _) => decide (source = partition)
        | _ => false
      if !namesBack then a.issue .reachability (some w.treeKey) (some partition) none
      match t.level, s.level with
      | some targetLevel, some sourceLevel =>
        if targetLevel ≠ sourceLevel then
          a.issue .reachability (some w.treeKey) (some partition) none
      | _, _ => pure ()
    | none =>
      if draining then a.issue .reachability (some w.treeKey) (some partition) none else pure ()

def checkReferences (highWater : PartitionKey) (partition : PartitionKey) (s : PartitionSummary) :
    AuditM Unit :=
  match s.transition with
  | some (.receivingSplit source _) =>
    if (w.targets source).any fun pair => pair.Names partition then pure ()
    else a.issue .reachability (some w.treeKey) (some partition) none
  | some (.splitting pair _) =>
    forEach (checkTarget a w highWater partition s false) [pair.left, pair.right]
  | some (.drainingSplit pair _) =>
    forEach (checkTarget a w highWater partition s true) [pair.left, pair.right]
  | _ => pure ()

/-- Where a visit goes next: the children, and the targets that exist. -/
def next (p : PartitionKey) : List PartitionKey :=
  (w.edges.filter fun edge => edge.1 = p).map Prod.snd ++
    match w.targets p with
    | none => []
    | some pair => [pair.left, pair.right].filter fun target => (w.summary target).isSome

/-- Visits what is on the stack.  Every partition is expanded once. -/
def visit (next : PartitionKey → List PartitionKey) :
    ℕ → List PartitionKey → List PartitionKey → List PartitionKey
  | 0, _, visited | _, [], visited => visited
  | fuel + 1, p :: stack, visited =>
    if visited.contains p then visit next fuel stack visited
    else visit next fuel ((next p).reverse ++ stack) (p :: visited)

/-- What the root reaches.  A visit pushes every edge once and every target once. -/
def visited : List PartitionKey :=
  visit w.next (1 + w.edges.length + 2 * w.keys.length) [rootPartition] []

/-- The checks of a tree.  A limit ends them: every later loop stops at once. -/
def checkTree : AuditM Unit :=
  match w.manifest with
  | none =>
    forEach (fun p => a.issue .reachability (some w.treeKey) (some p) none) w.keys
  | some manifest => do
    let highWater := manifest.partitionKeyHighWater
    forEach (fun p =>
      if highWater < p then a.issue .countMismatch (some w.treeKey) (some p) none
      else pure ()) w.keys
    if (w.summary rootPartition).isNone then
      a.issue .reachability (some w.treeKey) (some rootPartition) none
    let incoming ← checkEdges a w w.edges []
    forEach (fun p =>
      let edgeless := decide (p = rootPartition) ||
        (w.targets rootPartition).any fun pair => pair.Names p
      if edgeless = incoming.contains p then
        a.issue .membership (some w.treeKey) (some p) none
      else pure ()) w.keys
    forEach (fun (entry : Sigma fun _ : PartitionKey => PartitionSummary) =>
      checkReferences a w highWater entry.1 entry.2) w.partitions.entries
    forEach (fun p =>
      if w.visited.contains p then pure ()
      else a.issue .reachability (some w.treeKey) (some p) none) w.keys

/-- Closes the last partition and checks the tree. -/
def finish (w : TreeWalk) : AuditM Unit := do
  let w ← closePartition a w
  let transients := (w.keys.length + w.edges.length) * a.sizes.edge
  chargeMemory transients
  if ← truncated then pure ()
  else checkTree a w
  releaseMemory (w.charged + transients)

end TreeWalk

/-! ### The ledger -/

namespace TopologyLedger

def new : TopologyLedger := ⟨.empty, none⟩

variable (l : TopologyLedger)

def closeWalk : AuditM TopologyLedger :=
  match l.walk with
  | none => pure l
  | some w => do
    w.finish a
    pure { l with walk := none }

/-- The walk of a tree; that of another one is closed first. -/
def walkOf (a : Auditor) (l : TopologyLedger) (treeKey : TreeKey) :
    AuditM (TopologyLedger × TreeWalk) :=
  match l.walk with
  | some w => if w.treeKey = treeKey then pure (l, w) else other
  | none => other
where
  other : AuditM (TopologyLedger × TreeWalk) := do
    let l ← closeWalk a l
    let manifest := l.trees.lookup treeKey
    if manifest.isSome then releaseMemory (a.treeManifestBytes treeKey)
    let w ← TreeWalk.new a treeKey manifest
    pure ({ l with trees := l.trees.erase treeKey }, w)

def openPartition (a : Auditor) (l : TopologyLedger) (treeKey : TreeKey)
    (partition : PartitionKey) : AuditM TopologyLedger := do
  let (l, w) ← walkOf a l treeKey
  let w ← w.openPartition a partition
  pure { l with walk := some w }

/-- Changes the facts of the open partition, if there is one. -/
def modify (f : PartitionFacts → PartitionFacts) : TopologyLedger :=
  { l with walk := l.walk.map fun w => { w with current := w.current.map f } }

def currentFacts : Option PartitionFacts := l.walk.bind TreeWalk.current

variable (treeKey : TreeKey)

def noteTreeManifest (manifest : TreeManifest) : AuditM TopologyLedger := do
  chargeMemory (a.treeManifestBytes treeKey)
  if ← truncated then pure l
  else pure { l with trees := l.trees.put treeKey manifest }

variable (partition : PartitionKey)

def absorbHeader (header : PartitionHeader) : AuditM TopologyLedger := do
  let l ← openPartition a l treeKey partition
  pure (l.modify fun facts => { facts with header := some header })

def absorbSynopsis (synopsis : PartitionSynopsis) : AuditM TopologyLedger := do
  let l ← openPartition a l treeKey partition
  chargeMemory a.synopsisEstimate
  if ← truncated then pure l
  else
    pure (l.modify fun facts =>
      { facts with charged := facts.charged + a.synopsisEstimate, synopsis := some synopsis })

def absorbState (transition : PartitionTransition) : AuditM TopologyLedger := do
  let l ← openPartition a l treeKey partition
  pure (l.modify fun facts => { facts with transition := some transition })

/-- A Centroid registers its partition and is checked elsewhere. -/
def absorbCentroid : AuditM TopologyLedger := openPartition a l treeKey partition

def countLeafEntry (id : RecordId) (entry : LeafEntry) (facts : PartitionFacts) :
    AuditM TopologyLedger := do
  let counted := fun facts : PartitionFacts => { facts with leafEntries := facts.leafEntries + 1 }
  if facts.header.any fun header => header.level ≠ 1 then do
    a.issue .membership (some treeKey) (some partition) (some id)
    pure (l.modify counted)
  else
    match facts.recomputed.expand a.index entry.fields with
    | .ok (recomputed, _) =>
      pure (l.modify fun facts => { counted facts with recomputed := recomputed })
    | .error _ => do
      a.issue .invalidEncoding (some treeKey) (some partition) (some id)
      pure (l.modify counted)

def absorbLeafEntry (records : RecordLedger) (treeKey : TreeKey) (partition : PartitionKey)
    (id : RecordId) (entry : LeafEntry) (rawValue : Bytes) :
    AuditM (TopologyLedger × RecordLedger) := do
  let l ← openPartition a l treeKey partition
  if ← truncated then pure (l, records)
  else do
    let l ← match l.currentFacts with
      | none => pure l
      | some facts => countLeafEntry a l treeKey partition id entry facts
    let records ← records.joinLeafEntry a treeKey partition id rawValue
    pure (l, records)

/-- Counts a Child Entry and keeps its edge, unless a leaf holds it or it is its own. -/
def absorbChildEntry (partition child : PartitionKey) : AuditM TopologyLedger := do
  let l ← openPartition a l treeKey partition
  if ← truncated then pure l
  else
    match l.currentFacts with
    | none => pure l
    | some facts => do
      let l := l.modify fun facts => { facts with childEntries := facts.childEntries + 1 }
      if (facts.header.any fun header => header.level = 1) || decide (child = partition) then do
        a.issue .membership (some treeKey) (some partition) none
        pure l
      else do
        chargeMemory a.sizes.edge
        if ← truncated then pure l
        else
          pure { l with
            walk := l.walk.map fun w =>
              { w with
                edges := w.edges ++ [(partition, child)]
                charged := w.charged + a.sizes.edge } }

/-- Closes the open tree and reports the Tree Manifests that no partition claimed. -/
def finish : AuditM Unit := do
  let l ← closeWalk a l
  forEach (fun (entry : Sigma fun _ : TreeKey => TreeManifest) => do
    a.issue .reachability (some entry.1) (some rootPartition) none
    releaseMemory (a.treeManifestBytes entry.1)) l.trees.entries

end TopologyLedger

end Verify
