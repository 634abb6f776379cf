/-
Bounded best-first traversal of a forest of partitions.

Partitions wait in a frontier ordered by routing distance.  A visit is charged,
checked against its Header, and may be pruned by its Synopsis; an internal body
exposes its children to the next depth, a leaf body is filtered exactly and offered
to the candidate pool.  Ordinary searches keep a beam for each tree and level;
filtered exact searches keep branches until each tree has enough leaves with matches,
and of those only as many as the budget can pay for.

* `Frontier` order and `Continuation` — what waits, and what is promoted next;
* `prepare`, `visitBody`, `visitGraph` — one visit;
* `nextBatch`, `visitBeam`, `traverse` — the traversal, which prefetches runs of
  visits;
* `traverseSingly` — the traversal that visits one partition at a time.
-/
import Ktann.Lib.Agreement
import Ktann.Search.PartitionCache
import Ktann.Search.Predicate
import Ktann.Verify.Context

namespace Traverse

open Agreement

/-! ### The frontier -/

/-- One queued partition.  A tree root has no expected level. -/
structure FrontierEntry (D : Type) where
  distance : D
  tree : ℕ
  partition : PartitionKey
  expectedLevel : Option ℕ

section
variable {D : Type}

def FrontierEntry.key (e : FrontierEntry D) : D ×ₗ ℕ ×ₗ PartitionKey :=
  toLex (e.distance, toLex (e.tree, e.partition))

open FrontierEntry (key)

def FrontierEntry.identity (e : FrontierEntry D) : ℕ × PartitionKey := (e.tree, e.partition)

/-- Queues by two ordinals, in order of them. -/
abbrev Groups (D : Type) := List ((ℕ ×ₗ ℕ) × List (FrontierEntry D))

/-- Changes the queue of a group, which is empty at first. -/
def Groups.update (group : ℕ ×ₗ ℕ) (f : List (FrontierEntry D) → List (FrontierEntry D)) :
    Groups D → Groups D
  | [] => [(group, f [])]
  | (g, queue) :: rest =>
    if group < g then (group, f []) :: (g, queue) :: rest
    else if group = g then (g, f queue) :: rest
    else (g, queue) :: Groups.update group f rest

/-- Pending branches by level and tree.  Without a visit limit every branch is
kept. -/
structure Continuation (D : Type) where
  effective : ℕ → ℕ
  leafBeam : ℕ
  visitLimit : Option ℕ
  pending : Groups D

namespace Continuation

variable (c : Continuation D)

def new (leafBeam : ℕ) (visitLimit : Option ℕ) : Continuation D :=
    ⟨fun _ => 0, leafBeam, visitLimit, []⟩

def recordEffectiveLeaf (tree : ℕ) : Continuation D :=
  { c with effective := update c.effective tree (c.effective tree + 1) }

def treeComplete (tree : ℕ) : Bool := decide (c.leafBeam ≤ c.effective tree)

def hasWork : Bool := c.pending.any fun group => !c.treeComplete (ofLex group.1).2

/-- How many entries of one tree are promoted at a level. -/
def width (level tree : ℕ) : ℕ :=
  if level = 1 then c.leafBeam - c.effective tree else beamWidth c.leafBeam level

/-- How many entries of a group are promoted with a level: none at other levels and
of complete trees. -/
def promoted (level : ℕ) (group : ℕ ×ₗ ℕ) : ℕ :=
  if (ofLex group).1 = level ∧ c.treeComplete (ofLex group).2 = false then
    c.width level (ofLex group).2
  else 0

/-- The deepest level with an unfinished tree. -/
def deepest : Option ℕ :=
  (c.pending.find? fun group => !c.treeComplete (ofLex group.1).2).map fun group =>
    (ofLex group.1).1

section
variable [LinearOrder D]

def insertLimited (limit : Option ℕ) (entry : FrontierEntry D) (queue : List (FrontierEntry D)) :
    List (FrontierEntry D) :=
  match limit with
  | some limit => insertBounded key limit entry queue
  | none => insertByKey key entry queue

/-- Retains the closest entries of a tree and level, as many as the visit limit. -/
def push (entry : FrontierEntry D) (level : ℕ) : Continuation D :=
  let group := toLex (level, entry.tree)
  { c with pending := Groups.update group (insertLimited c.visitLimit entry) c.pending }

/-- Promotes one deepest level across unfinished trees into the active frontier. -/
def select (active : List (FrontierEntry D)) : List (FrontierEntry D) × Continuation D :=
  match c.deepest with
  | none => (active, c)
  | some level =>
    (c.pending.foldl (fun active group =>
        mergeByKey key active (group.2.take (c.promoted level group.1))) active,
      { c with pending := (c.pending.map fun group =>
          (group.1, group.2.drop (c.promoted level group.1))).filter fun group =>
            !group.2.isEmpty })

end

end Continuation

/-- The work that is not active, and every partition referred to. -/
structure Branches (D : Type) where
  continuation : Option (Continuation D)
  nextFrontier : Groups D
  referenced : List (ℕ × PartitionKey)

namespace Branches

variable (b : Branches D)

/-- Checks unique incoming edges. -/
def reference (tree : ℕ) (partition : PartitionKey) : Except Error (Branches D) :=
  if (tree, partition) ∈ b.referenced then .error .corrupt
  else .ok { b with referenced := (tree, partition) :: b.referenced }

def retainsBranches : Bool := b.continuation.isSome

def recordEffectiveLeaf (tree : ℕ) : Branches D :=
  { b with continuation := b.continuation.map fun c => c.recordEffectiveLeaf tree }

section
variable [LinearOrder D]

def keepBeam (width : ℕ) (entry : FrontierEntry D) (heap : List (FrontierEntry D)) :
    List (FrontierEntry D) :=
  if heap.length < width then insertByKey key entry heap
  else insertBounded key heap.length entry heap

/-- Retains a child under the effective-leaf or the beam policy. -/
def mergeChild (leafBeam tree level : ℕ) (partition : PartitionKey) (distance : D) : Branches D :=
  let entry : FrontierEntry D := ⟨distance, tree, partition, some level⟩
  match b.continuation with
  | some c => { b with continuation := some (c.push entry level) }
  | none =>
    let keep := keepBeam (beamWidth leafBeam level) entry
    { b with nextFrontier := Groups.update (toLex (tree, level)) keep b.nextFrontier }

/-- Makes the next entries active, once none is. -/
def promote (active : List (FrontierEntry D)) : List (FrontierEntry D) × Branches D :=
  if active = [] then
    match b.continuation with
    | some c =>
      let (active, c) := c.select active
      (active, { b with continuation := some c })
    | none =>
      (b.nextFrontier.foldl (fun active group => mergeByKey key active group.2) active,
        { b with nextFrontier := [] })
  else (active, b)

end

/-- Whether work remains. -/
def hasPending (active : List (FrontierEntry D)) : Bool :=
  (b.continuation.any Continuation.hasWork) || !active.isEmpty || !b.nextFrontier.isEmpty

end Branches

end

/-! ### The state of a traversal -/

/-- What bodies change: the branches, the candidates, and the bodies consumed. -/
structure Explored (D Pool : Type) where
  branches : Branches D
  candidates : Pool
  visitedLeafEntries : ℕ
  bodies : List (ℕ × PartitionKey)

/-- The charged visits, in order, and the partitions to offer to maintenance. -/
structure PartitionReader where
  visits : List (ℕ × PartitionKey)
  maintenance : List (TreeKey × PartitionKey)

def PartitionReader.visitedPartitions (r : PartitionReader) : ℕ := r.visits.length

structure Traversal (D Pool : Type) where
  active : List (FrontierEntry D)
  explored : Explored D Pool
  partitions : PartitionReader

/-- What a traversal returns: with the counts, the visits and the effective leaves of
each tree. -/
structure TraversalOutcome (Pool : Type) where
  candidates : Pool
  maintenance : List (TreeKey × PartitionKey)
  visits : List (ℕ × PartitionKey)
  bodies : List (ℕ × PartitionKey)
  effective : ℕ → ℕ
  visitedLeafEntries : ℕ
  partitionBudgetExhausted : Bool

structure CandidatePool (Pool : Type) where
  new : Pool
  pushLeaf : Pool → List LeafEntry → RecordLocation → Option (List ℕ) → Except Error Pool
  validateMembership : Pool → Except Error Pool

/-- The inputs of a traversal.  Distances from the query are of any ordered type.
The search of a local graph returns nodes of its body, each once.  Working memory is
admitted by any rule on the visit and on what was explored before it. -/
structure VisitContext (D Pool : Type) where
  ix : Index
  snapshot : Store
  trees : List TreeKey
  predicate : Option CompiledPredicate
  exactRouting : Bool
  visitedPartitions : ℕ
  leafBeam : ℕ
  zero : D
  routingDistance : VectorData → Except Error D
  graphSearch : TreeKey → PartitionKey → List ChildEntry → ℕ → Except Error (List (ℕ × D))
  graphSearch_nodup : ∀ treeKey partition children beam hits,
    graphSearch treeKey partition children beam = .ok hits → (hits.map Prod.fst).Nodup
  pool : CandidatePool Pool
  admits : Option (FrontierEntry D) → Explored D Pool → (children beam extra : ℕ) → Bool

section
variable {D Pool : Type} [LinearOrder D] (ctx : VisitContext D Pool)

/-- Whether branches are retained until enough leaves match. -/
def VisitContext.filteredExact : Bool := ctx.predicate.isSome && ctx.exactRouting

/-- The same traversal under no limit on working memory. -/
def VisitContext.unlimited : VisitContext D Pool := { ctx with admits := fun _ _ _ _ _ => true }

def VisitContext.treeKey (tree : ℕ) : TreeKey := ctx.trees.getD tree []

/-! ### Metadata -/

variable (entry : FrontierEntry D)

/-- The Header of an entry, and the Synopsis of a known leaf under a predicate. -/
def readMetadata : Except Error (PartitionHeader × Option PartitionSynopsis) := do
  let header ← (ctx.snapshot.header (ctx.treeKey entry.tree) entry.partition).elim
    (.error .corrupt) .ok
  if ctx.predicate.isSome && entry.expectedLevel = some 1 then do
    let synopsis ← (ctx.snapshot.synopsis (ctx.treeKey entry.tree) entry.partition).elim
      (.error .corrupt) .ok
    .ok (header, some synopsis)
  else .ok (header, none)

/-- A funded visit whose body survived pruning, with the predicate still to check. -/
structure PreparedVisit (D : Type) where
  entry : FrontierEntry D
  header : PartitionHeader
  predicate : Option CompiledPredicate

variable (header : PartitionHeader)

def checkLevel : Except Error Unit :=
  match entry.expectedLevel with
  | some expected => if header.level = expected then .ok () else .error .corrupt
  | none => .ok ()

/-- Charges a visit, and offers what maintenance can advance. -/
def PartitionReader.charge (r : PartitionReader) (entry : FrontierEntry D)
    (header : PartitionHeader) : PartitionReader :=
  ⟨r.visits ++ [entry.identity],
    if Verify.isActionable ctx.ix.toIndexManifest entry.partition header then
      r.maintenance ++ [(ctx.treeKey entry.tree, entry.partition)]
    else r.maintenance⟩

variable (st : Traversal D Pool)

/-- Injects a root-split target into the frontier, bypassing the beam. -/
def Traversal.inject (tree : ℕ) (partition : PartitionKey) (level : ℕ) :
    Except Error (Traversal D Pool) := do
  let branches ← st.explored.branches.reference tree partition
  .ok { st with
    active := mergeByKey FrontierEntry.key st.active [⟨ctx.zero, tree, partition, some level⟩]
    explored := { st.explored with branches := branches } }

/-- The root-only intermediate topology rules. -/
def applyRootState : Except Error (Traversal D Pool) :=
  match header.state with
  | .ready | .splitting => .ok st
  | .drainingSplit =>
    match ctx.snapshot.state (ctx.treeKey entry.tree) entry.partition with
    | some (.drainingSplit targets _) => do
      let st ← st.inject ctx entry.tree targets.left header.level
      st.inject ctx entry.tree targets.right header.level
    | _ => .error .corrupt
  | .receivingSplit | .merging => .error .corrupt

/-- A root is entered by its state. -/
def enter : Except Error (Traversal D Pool) :=
  if entry.expectedLevel.isNone then applyRootState ctx entry header st else .ok st

/-- The predicate left to check in a leaf, unless its Synopsis rules it out. -/
def pruneLeaf (synopsis : Option PartitionSynopsis) : Except Error (Option (PreparedVisit D)) :=
  match ctx.predicate with
  | none => .ok (if header.entryCount = 0 then none else some ⟨entry, header, none⟩)
  | some predicate => do
    let synopsis ← (synopsis <|> ctx.snapshot.synopsis
      (ctx.treeKey entry.tree) entry.partition).elim
      (.error .corrupt) .ok
    match ← predicate.classify ctx.ix synopsis header.entryCount with
    | .noMatch => .ok none
    | .allMatch => .ok (if header.entryCount = 0 then none else some ⟨entry, header, none⟩)
    | .mayMatch => .ok (if header.entryCount = 0 then none else some
      ⟨entry, header, some predicate⟩)

def admitBody (synopsis : Option PartitionSynopsis) : Except Error (Option (PreparedVisit D)) :=
  if 1 < header.level then
    .ok (if header.entryCount = 0 ∧ ctx.ix.localGraph = true then none
      else some ⟨entry, header, none⟩)
  else pruneLeaf ctx entry header synopsis

/-- Charges a visit and checks its metadata, read now or in a batch before. -/
def prepare (prefetched : Option (PartitionHeader × Option PartitionSynopsis))
    (st : Traversal D Pool) : Except Error (Option (PreparedVisit D) × Traversal D Pool) := do
  let (header, synopsis) ← prefetched.elim (readMetadata ctx entry) .ok
  checkLevel entry header
  let st ← enter ctx entry header { st with partitions := st.partitions.charge ctx entry header }
  let visit ← admitBody ctx entry header synopsis
  .ok (visit, st)

/-! ### Bodies -/

/-- The admission of working memory; only searches that retain state are limited. -/
def checkRetained (limited : Bool) (entry : Option (FrontierEntry D)) (x : Explored D Pool)
    (children beam extra : ℕ) : Except Error Unit :=
  if limited && !ctx.admits entry x children beam extra then .error (.new .limitExceeded)
  else .ok ()

variable (visit : PreparedVisit D)

def readBody : Except Error (BodyEntries Unit) :=
  BodyScan.read Unit ctx.snapshot (ctx.treeKey visit.entry.tree) visit.entry.partition visit.header

/-- Exposes children, each by its one incoming edge. -/
def exposeChildren (tree level : ℕ) : List ChildEntry → Branches D → Except Error (Branches D)
  | [], b => .ok b
  | child :: rest, b => do
    let distance ← ctx.routingDistance child.centroid
    let b ← b.reference tree child.child
    exposeChildren tree level rest (b.mergeChild ctx.leafBeam tree level child.child distance)

def visitInternal (children : List ChildEntry) (x : Explored D Pool) :
    Except Error (Explored D Pool) := do
  checkRetained ctx x.branches.retainsBranches (some visit.entry) x children.length 0 0
  let branches ← exposeChildren ctx visit.entry.tree (visit.header.level - 1) children x.branches
  .ok { x with branches := branches }

/-- The positions of the entries that match, in a leaf with a predicate to check. -/
def eligibleEntries (predicate : Option CompiledPredicate) (entries : List LeafEntry) :
    Except Error (Option (List ℕ)) :=
  match predicate with
  | none => .ok none
  | some predicate => do
    let rows ← entries.mapM fun entry => predicate.matchesRow entry.fields
    .ok (some ((rows.zipIdx.filter fun row => row.1).map Prod.snd))

/-- Filters a leaf exactly and offers what is left to the pool. -/
def scanLeaf (entries : List LeafEntry) (x : Explored D Pool) : Except Error (Explored D Pool) := do
  let visited := x.visitedLeafEntries + entries.length
  if u64Bound ≤ visited then .error (.new .limitExceeded)
  else do
    let eligible ← eligibleEntries visit.predicate entries
    let counted := eligible.elim entries.length List.length
    -- a leaf with a match is effective whatever the pool keeps of it
    let branches := if counted = 0 then x.branches
      else x.branches.recordEffectiveLeaf visit.entry.tree
    let x := { x with branches := branches, visitedLeafEntries := visited }
    checkRetained ctx branches.retainsBranches (some visit.entry) x 0 0 counted
    let candidates ← ctx.pool.pushLeaf x.candidates entries
      ⟨ctx.treeKey visit.entry.tree, visit.entry.partition⟩ eligible
    .ok { x with candidates := candidates }

/-- Consumes a complete body. -/
def visitBody (body : BodyEntries Unit) (x : Explored D Pool) : Except Error (Explored D Pool) :=
  let x := { x with bodies := x.bodies ++ [visit.entry.identity] }
  if 1 < visit.header.level then
    match body with
    | .internal children => visitInternal ctx visit children x
    | _ => .error .corrupt
  else
    match body with
    | .leaf entries => scanLeaf ctx visit entries x
    | _ => .error .corrupt

/-- Checks every edge of a body, selected or not. -/
def referenceAll (tree : ℕ) : List ChildEntry → Branches D → Except Error (Branches D)
  | [], b => .ok b
  | child :: rest, b => do
    let b ← b.reference tree child.child
    referenceAll tree rest b

/-- Merges what a graph search found. -/
def mergeHits (tree level : ℕ) (hits : List (PartitionKey × D)) (b : Branches D) : Branches D :=
  hits.foldl (fun b hit => b.mergeChild ctx.leafBeam tree level hit.1 hit.2) b

/-- Routes through the graph of an internal body. -/
def visitGraph (x : Explored D Pool) : Except Error (Explored D Pool) := do
  let level := visit.header.level - 1
  let beam := if x.branches.retainsBranches then min visit.header.entryCount ctx.visitedPartitions
    else beamWidth ctx.leafBeam level
  checkRetained ctx true (some visit.entry) x visit.header.entryCount beam 0
  match ← readBody ctx visit with
  | .internal children => do
    let branches ← referenceAll visit.entry.tree children x.branches
    let hits ← ctx.graphSearch (ctx.treeKey visit.entry.tree) visit.entry.partition children beam
    let found := hits.filterMap fun hit => children[hit.1]?.map fun child => (child.child, hit.2)
    .ok { x with
      branches := mergeHits ctx visit.entry.tree level found branches
      bodies := x.bodies ++ [visit.entry.identity] }
  | _ => .error .corrupt

/-- What becomes of a prepared visit that is made on its own. -/
def consumeSingle (visit : Option (PreparedVisit D)) (x : Explored D Pool) :
    Except Error (Explored D Pool) :=
  match visit with
  | none => .ok x
  | some visit =>
    if 1 < visit.header.level && ctx.ix.localGraph then visitGraph ctx visit x
    else do
      let body ← readBody ctx visit
      visitBody ctx visit body x

/-- Makes a single visit. -/
def visitPartition : Except Error (Traversal D Pool) := do
  let (visit, st) ← prepare ctx entry none st
  let explored ← consumeSingle ctx visit st.explored
  .ok { st with explored := explored }

/-! ### Batches -/

/-- Roots and graph bodies are visited serially; other runs may be prefetched. -/
inductive VisitBatch (D : Type)
  | single (entry : FrontierEntry D)
  | prefetch (entries : List (FrontierEntry D))

def canPrefetch : Bool :=
  entry.expectedLevel.isSome && (!ctx.ix.localGraph || entry.expectedLevel == some 1)

/-- The budget that is left. -/
def remaining : ℕ := ctx.visitedPartitions - st.partitions.visitedPartitions

/-- Makes the next entries active if none is. -/
def Traversal.promote (st : Traversal D Pool) : Traversal D Pool :=
  let (active, branches) := st.explored.branches.promote st.active
  { st with active := active, explored := { st.explored with branches := branches } }

def nextBatch (metadataBatch : ℕ+) (st : Traversal D Pool) :
    Option (VisitBatch D) × Traversal D Pool :=
  if remaining ctx st = 0 then (none, st)
  else
    let st := st.promote
    match st.active with
    | [] => (none, st)
    | first :: rest =>
      if remaining ctx st = 1 ∨ rest = [] ∨ canPrefetch ctx first = false then
        (some (.single first), { st with active := rest })
      else
        let limit := min (metadataBatch : ℕ) (remaining ctx st)
        let entries := (st.active.take limit).takeWhile (canPrefetch ctx)
        let st := { st with active := st.active.drop entries.length }
        match entries with
        | [entry] => (some (.single entry), st)
        | entries => (some (.prefetch entries), st)

/-- Prepares every visit of a group before any of their bodies is read. -/
def prepareAll : List (FrontierEntry D × PartitionHeader × Option PartitionSynopsis) →
    Traversal D Pool → Except Error (List (PreparedVisit D) × Traversal D Pool)
  | [], st => .ok ([], st)
  | (entry, metadata) :: rest, st => do
    let (visit, st) ← prepare ctx entry (some metadata) st
    let (visits, st) ← prepareAll rest st
    .ok (visit.toList ++ visits, st)

/-- One group: its visits are prepared, its bodies read, and then consumed in order. -/
def visitGroup (group : List (FrontierEntry D × PartitionHeader × Option PartitionSynopsis))
    (st : Traversal D Pool) : Except Error (Traversal D Pool) := do
  let (visits, st) ← prepareAll ctx group st
  let bodies ← visits.mapM (readBody ctx)
  let explored ← (visits.zip bodies).foldlM
    (fun x pair => visitBody ctx pair.1 pair.2 x) st.explored
  .ok { st with explored := explored }

/-- Cuts a list into groups of a size, the last one shorter. -/
def chunks {α : Type} (size : ℕ+) : List α → List (List α)
  | [] => []
  | a :: rest => (a :: rest.take (size - 1)) :: chunks size (rest.drop (size - 1))
termination_by l => l.length
decreasing_by simp only [length_drop, length_cons]; omega

/-- Reads the metadata of a funded run at once, and visits it group by group. -/
def visitBeam (bodyBatch : ℕ+) (entries : List (FrontierEntry D)) (st : Traversal D Pool) :
    Except Error (Traversal D Pool) := do
  let metadata ← entries.mapM (readMetadata ctx)
  (chunks bodyBatch (entries.zip metadata)).foldlM (fun st group => visitGroup ctx group st) st

def visitBatch (bodyBatch : ℕ+) (batch : VisitBatch D) (st : Traversal D Pool) :
    Except Error (Traversal D Pool) :=
  match batch with
  | .single entry => visitPartition ctx entry st
  | .prefetch entries => visitBeam ctx bodyBatch entries st

/-! ### Whole traversals -/

/-- Advances funded work until none is left, for a number of batches. -/
def runBatches (metadataBatch bodyBatch : ℕ+) : ℕ → Traversal D Pool →
    Except Error (Traversal D Pool)
  | 0, st => .ok st
  | fuel + 1, st =>
    match nextBatch ctx metadataBatch st with
    | (none, st) => .ok st
    | (some batch, st) => do
      let st ← visitBatch ctx bodyBatch batch st
      runBatches metadataBatch bodyBatch fuel st

/-- One funded entry after the other. -/
def nextEntry : Option (FrontierEntry D) × Traversal D Pool :=
  if remaining ctx st = 0 then (none, st)
  else
    let st := st.promote
    match st.active with
    | [] => (none, st)
    | first :: rest => (some first, { st with active := rest })

def runSingly : ℕ → Traversal D Pool → Except Error (Traversal D Pool)
  | 0, st => .ok st
  | fuel + 1, st =>
    match nextEntry ctx st with
    | (none, st) => .ok st
    | (some entry, st) => do
      let st ← visitPartition ctx entry st
      runSingly fuel st

variable (visitLimit : Option ℕ)

/-- The roots of every tree, with branches retained for a filtered exact search. -/
def Traversal.seed : Traversal D Pool where
  active := (List.range ctx.trees.length).map fun tree => ⟨ctx.zero, tree, rootPartition, none⟩
  explored :=
    { branches :=
        { continuation := if ctx.filteredExact then some (.new ctx.leafBeam visitLimit) else none
          nextFrontier := []
          referenced := (List.range ctx.trees.length).map fun tree => (tree, rootPartition) }
      candidates := ctx.pool.new
      visitedLeafEntries := 0
      bodies := [] }
  partitions := ⟨[], []⟩

/-- The admission of the working memory of the roots. -/
def admitSeed : Except Error Unit :=
  checkRetained ctx ctx.filteredExact none (Traversal.seed ctx visitLimit).explored 0 0 0

/-- A depleted budget is exhaustion only when work remains. -/
def Traversal.finish : Except Error (TraversalOutcome Pool) := do
  let candidates ← ctx.pool.validateMembership st.explored.candidates
  .ok
    { candidates := candidates
      maintenance := st.partitions.maintenance
      visits := st.partitions.visits
      bodies := st.explored.bodies
      effective := (st.explored.branches.continuation.map Continuation.effective).getD fun _ => 0
      visitedLeafEntries := st.explored.visitedLeafEntries
      partitionBudgetExhausted :=
        decide (st.partitions.visitedPartitions = ctx.visitedPartitions) &&
          st.explored.branches.hasPending st.active }

def traverse (metadataBatch bodyBatch : ℕ+) (visitLimit : Option ℕ) :
    Except Error (TraversalOutcome Pool) := do
  admitSeed ctx visitLimit
  let st ← runBatches ctx metadataBatch bodyBatch ctx.visitedPartitions (.seed ctx visitLimit)
  st.finish ctx

/-- The traversal one frontier entry at a time. -/
def traverseSingly : Except Error (TraversalOutcome Pool) := do
  admitSeed ctx visitLimit
  let st ← runSingly ctx ctx.visitedPartitions (.seed ctx visitLimit)
  st.finish ctx

end

end Traverse
