/-
Foreground write routing.

One group of vectors descends a tree level by level.  Every visited partition is
resolved by its State: a write-accepting leaf ends the descent, a draining leaf
redirects to its targets, an internal partition or a draining split family is
scanned for the nearest children, and a merging partition is left for the
nearest `Ready` partition of its level.  Each vector keeps a beam of children per
level and ends at the nearest leaf its paths reached.

* `resolveHop` — the decision at one partition;
* `resolveWave`, `scanBodies`, `descendLoop` — one level, its child scan, and the
  descent;
* `routeLeavesForWrite` — the descent of a write, which creates a missing tree
  and reads what keeps the routes valid for update.
-/
import Ktann.Storage.Topology.Discovery

open TxnM WriteTxn

/-- The level-scaled beam width: it halves toward the root, and is never below
one. -/
def beamWidth (leafBeam level : ℕ) : ℕ := max (leafBeam >>> (level - 1)) 1

/-- The body size from which a graph index routes writes through its graph. -/
def writeHnswMinNodes : ℕ := 1024

/-! ### Routes -/

/-- The incoming reference a write route protects: the leaf's Child Entry at its
parent, or the State of the draining source that names the leaf. -/
inductive Incoming
  | parentEdge
  | sourceSlot (source : PartitionKey)
  deriving DecidableEq

/-- The observed route of one vector. -/
structure Route where
  leaf : PartitionKey
  leafHeader : PartitionHeader
  parent : Option PartitionKey
  incoming : Incoming
  deriving DecidableEq

inductive GroupedDescent
  | routed (routes : List Route)
  | noReadyMergeTarget
  deriving DecidableEq

/-- The canonical routing order: the nearer distance, then the smaller key. -/
def beats (distance : ℤ) (child : PartitionKey) (best : ℤ × PartitionKey) : Bool :=
  distance < best.1 || (distance = best.1 && child < best.2)

def nearerOfTwo (left : PartitionKey) (leftDistance : ℤ) (right : PartitionKey)
    (rightDistance : ℤ) : PartitionKey :=
  if beats rightDistance right (leftDistance, left) then right else left

def nearerCandidate (best : Option (ℤ × LevelCandidate)) (distance : ℤ)
    (candidate : LevelCandidate) : ℤ × LevelCandidate :=
  match best with
  | none => (distance, candidate)
  | some best =>
    if beats distance candidate.partition (best.1, best.2.partition) then (distance, candidate)
    else best

variable (ix : Index)

/-- The nearest legal merge target of one vector. -/
def nearestReadyCandidate (routing : VectorData) (source : PartitionKey)
    (candidates : List LevelCandidate) : Option (ℤ × LevelCandidate) :=
  (candidates.filter fun c => c.isLegalMergeTarget source).foldl
    (fun best c => some (nearerCandidate best (ix.routingDistance routing c.entry.centroid) c)) none

/-- A member of the group waiting at one partition, with the edge that led
there. -/
structure PendingBeamMember where
  member : ℕ
  parent : Option PartitionKey
  distance : ℤ
  deriving DecidableEq

variable (routes : List (Option (ℤ × Route)))

/-- Keeps the better of a member's route so far and a new one. -/
def considerWriteRoute (member : ℕ) (distance : ℤ) (route : Route) : List (Option (ℤ × Route)) :=
  routes.modify member fun best =>
    match best with
    | none => some (distance, route)
    | some best =>
      if beats distance route.leaf (best.1, best.2.leaf) then some (distance, route)
      else some best

/-! ### One hop -/

structure DrainTarget where
  partition : PartitionKey
  header : PartitionHeader
  centroid : VectorData
  deriving DecidableEq

/-- The decision at one visited partition. -/
inductive Hop
  | leaf (header : PartitionHeader)
  | drainRedirect (source : PartitionKey) (left right : DrainTarget)
  | children (bodies : List (PartitionKey × PartitionHeader)) (nextLevel : ℕ)
  | sideways (source : PartitionKey)
  | mergeReroute (level : ℕ) (candidates : List LevelCandidate)

variable (S : Store) (t : TreeKey) (p : PartitionKey)

/-- One redirect target: a receiving leaf with its centroid. -/
def readDrainTarget : Except Error DrainTarget :=
  match S.centroid t p, S.header t p with
  | some centroid, some header =>
    if header.level = 1 ∧ header.state = .receivingSplit then .ok ⟨p, header, centroid⟩
    else .error .corrupt
  | _, _ => .error .corrupt

def drainRedirect (S : Store) (t : TreeKey) (source : PartitionKey) (targets : SplitPair) :
    Except Error Hop := do
  let left ← readDrainTarget S t targets.left
  let right ← readDrainTarget S t targets.right
  .ok (.drainRedirect source left right)

def familyTarget (level : ℕ) (p : PartitionKey) : Except Error (PartitionKey × PartitionHeader) :=
  match S.header t p with
  | some header =>
    if header.level = level ∧ header.state = .receivingSplit then .ok (p, header)
    else .error .corrupt
  | none => .error .corrupt

def splitFamilyBodies (source : PartitionKey) (sourceHeader : PartitionHeader) (targets : SplitPair)
    (level : ℕ) : Except Error (List (PartitionKey × PartitionHeader)) :=
  if sourceHeader.level = level ∧ sourceHeader.state = .drainingSplit then do
    let left ← familyTarget S t level targets.left
    let right ← familyTarget S t level targets.right
    .ok [(source, sourceHeader), left, right]
  else .error .corrupt

variable (header : PartitionHeader)

/-- A level that fails to descend by one is corruption. -/
def checkLevel (expected : Option ℕ) : Except Error Unit :=
  if ∀ level ∈ expected, header.level = level then .ok () else .error .corrupt

/-- The root is never a split target and never merges. -/
def checkRootState (state : PartitionTransition) : Except Error Unit :=
  if p = rootPartition ∧ (state.state = .receivingSplit ∨ state.state = .merging) then
    .error .corrupt
  else .ok ()

def resolveHop (expected : Option ℕ) (header : PartitionHeader) (state : PartitionTransition) :
    Except Error Hop := do
  checkLevel header expected
  checkRootState p state
  if header.level = 1 ∧ header.state.acceptsWrites = true then .ok (.leaf header)
  else
    match state with
    | .ready _ | .splitting _ _ => .ok (.children [(p, header)] (header.level - 1))
    | .receivingSplit source _ => do
      let (sourceHeader, sourceState) ← readAuthority S t source
      match sourceState with
      | .splitting _ _ => .ok (.sideways source)
      | .drainingSplit targets _ => do
        let bodies ← splitFamilyBodies S t source sourceHeader targets header.level
        .ok (.children bodies (header.level - 1))
      | _ => .error .corrupt
    | .drainingSplit targets _ =>
      if header.level = 1 then drainRedirect S t p targets
      else do
        let bodies ← splitFamilyBodies S t p header targets header.level
        .ok (.children bodies (header.level - 1))
    | .merging _ => do
      let candidates ← sameLevelCandidates S t header.level
      .ok (.mergeReroute header.level candidates)

def nearerRedirectTarget (routing : VectorData) (left right : DrainTarget) : ℤ × DrainTarget :=
  let leftDistance := ix.routingDistance routing left.centroid
  let rightDistance := ix.routingDistance routing right.centroid
  if nearerOfTwo left.partition leftDistance right.partition rightDistance = left.partition then
    (leftDistance, left)
  else (rightDistance, right)

/-! ### One wave -/

/-- Members of the group waiting at partitions, in key order. -/
abbrev Waiting := OrderedMap PartitionKey fun _ => List PendingBeamMember

def Waiting.add (waiting : Waiting) (p : PartitionKey) (members : List PendingBeamMember) :
    Waiting :=
  waiting.put p ((waiting.lookup p).getD [] ++ members)

/-- The bodies a wave asks for, each with the Header it was resolved with and
the members that score it, one occurrence for each request. -/
abbrev WaveBodies := OrderedMap PartitionKey fun _ => PartitionHeader × List ℕ

/-- What resolving a wave has left and collected. -/
structure WaveState where
  waiting : Waiting
  routes : List (Option (ℤ × Route))
  childLevel : Option ℕ
  bodies : WaveBodies

def requestBody (members : List PendingBeamMember) (bodies : WaveBodies)
    (body : PartitionKey × PartitionHeader) : WaveBodies :=
  match bodies.lookup body.1 with
  | some (header, scored) => bodies.put body.1 (header, scored ++ members.map (·.member))
  | none => bodies.put body.1 (body.2, members.map (·.member))

/-- Sends one member of a merging partition to its nearest legal target; `none`
when the level has no `Ready` partition. -/
def rerouteMember (routings : List VectorData) (p : PartitionKey) (level : ℕ)
    (candidates : List LevelCandidate) (w : WaveState) (m : PendingBeamMember) : Option WaveState :=
  match nearestReadyCandidate ix (routings.getD m.member []) p candidates with
  | none => none
  | some (distance, candidate) =>
    if level = 1 then
      let route := ⟨candidate.partition, candidate.header, some candidate.parent, .parentEdge⟩
      some { w with routes := considerWriteRoute w.routes m.member distance route }
    else
      let member := ⟨m.member, some candidate.parent, distance⟩
      some { w with waiting := w.waiting.add candidate.partition [member] }

/-- One member arrives at a write-accepting leaf. -/
def arriveAt (routes : List (Option (ℤ × Route))) (m : PendingBeamMember) :
    List (Option (ℤ × Route)) :=
  considerWriteRoute routes m.member m.distance ⟨p, header, m.parent, .parentEdge⟩

def redirectMember (routings : List VectorData) (source : PartitionKey) (left right : DrainTarget)
    (routes : List (Option (ℤ × Route))) (m : PendingBeamMember) : List (Option (ℤ × Route)) :=
  let target := nearerRedirectTarget ix (routings.getD m.member []) left right
  considerWriteRoute routes m.member target.1
    ⟨target.2.partition, target.2.header, m.parent, .sourceSlot source⟩

def applyHop (routings : List VectorData) (p : PartitionKey) (members : List PendingBeamMember)
    (w : WaveState) : Hop → Except Error (Option WaveState)
  | .leaf header => .ok (some { w with routes := members.foldl (arriveAt p header) w.routes })
  | .drainRedirect source left right =>
    let redirect := redirectMember ix routings source left right
    .ok (some { w with routes := members.foldl redirect w.routes })
  | .children bodies nextLevel =>
    if ∀ level ∈ w.childLevel, level = nextLevel then
      .ok (some { w with
        childLevel := some nextLevel
        bodies := bodies.foldl (requestBody members) w.bodies })
    else .error .corrupt
  | .sideways source => .ok (some { w with waiting := w.waiting.add source members })
  | .mergeReroute level candidates =>
    .ok (members.foldlM (rerouteMember ix routings p level candidates) w)

/-- Resolves a wave, the smallest waiting partition first; `none` when a merging
partition has no `Ready` target.  A hop that sends members on sends them to a
`Ready` or `Splitting` partition, so `waveFuel` steps are enough. -/
def resolveWave (ix : Index) (S : Store) (t : TreeKey) (routings : List VectorData)
    (expected : Option ℕ) : ℕ → WaveState → Except Error (Option WaveState)
  | 0, _ => .error (.new .backend)
  | fuel + 1, w =>
    match w.waiting.entries with
    | [] => .ok (some w)
    | ⟨p, members⟩ :: _ => do
      let (header, state) ← readAuthority S t p
      let hop ← resolveHop S t p expected header state
      match ← applyHop ix routings p members { w with waiting := w.waiting.erase p } hop with
      | none => .ok none
      | some w => resolveWave ix S t routings expected fuel w

/-- One pop for each waiting partition, and one for each time its members may be
sent on. -/
def waveFuel (waiting : Waiting) : ℕ := (waiting.entries.map fun e => 2 + e.2.length).sum + 1

/-! ### The child scan of a wave -/

/-- One candidate of a member's beam. -/
structure WriteChildCandidate where
  distance : ℤ
  child : PartitionKey
  owner : PartitionKey
  deriving DecidableEq

/-- The order of a beam: distance, then child, then owner. -/
def WriteChildCandidate.le (a b : WriteChildCandidate) : Prop :=
  a.distance < b.distance ∨ (a.distance = b.distance ∧
    (a.child < b.child ∨ (a.child = b.child ∧ a.owner ≤ b.owner)))

instance : DecidableRel WriteChildCandidate.le := fun a b => by
  unfold WriteChildCandidate.le
  infer_instance

/-- Offers a candidate to a beam of the best `beam` candidates, best first. -/
def NearestChildren.consider (beam : ℕ) (best : List WriteChildCandidate)
    (candidate : WriteChildCandidate) : List WriteChildCandidate :=
  (best.orderedInsert WriteChildCandidate.le candidate).take beam

/-- The read of the stored graph of a body: its complete children, once the
graph has been validated against the snapshot. -/
abbrev GraphReads := Store → TreeKey → PartitionKey → PartitionHeader →
  Except Error (List ChildEntry)

def routesByGraph : Bool := ix.localGraph && writeHnswMinNodes ≤ header.entryCount

/-- An exact scan: the Header count is exact, so any other number of entries is
corruption. -/
def exactBody : Except Error (List ChildEntry) :=
  if (S.childEntries t p).length = header.entryCount then .ok (S.childEntries t p)
  else .error .corrupt

variable (graphs : Option GraphReads)

/-- The children of one body, and those a member considers: all of them, or the
hits of the graph search. -/
def readBody (p : PartitionKey) (header : PartitionHeader) (beam : ℕ) :
    Except Error (List ChildEntry × (VectorData → List ChildEntry)) := do
  match graphs.filter fun _ => routesByGraph ix header with
  | some reads =>
    let entries ← reads S t p header
    .ok (entries, fun routing =>
      (ix.graphSearch (entries.map ChildEntry.centroid) routing beam).filterMap (entries[·]?))
  | none =>
    let entries ← exactBody S t p header
    .ok (entries, fun _ => entries)

/-- The owner of every child reference seen during a descent. -/
abbrev Owners := OrderedMap PartitionKey fun _ => PartitionKey

/-- Notes one child reference; a child referenced by two bodies is corruption. -/
def noteOwner (body : PartitionKey) (owners : Owners) (entry : ChildEntry) : Except Error Owners :=
  if ∀ owner ∈ owners.lookup entry.child, owner = body then .ok (owners.put entry.child body)
  else .error .corrupt

variable (routings : List VectorData)

def scoreBody (beam : ℕ) (body : PartitionKey) (hits : VectorData → List ChildEntry)
    (nearest : List (List WriteChildCandidate)) (member : ℕ) : List (List WriteChildCandidate) :=
  let routing := routings.getD member []
  nearest.modify member fun best => (hits routing).foldl (fun best entry =>
    NearestChildren.consider beam best
      ⟨ix.routingDistance routing entry.centroid, entry.child, body⟩) best

/-- Scans one body of a wave for the members that asked for it. -/
def scanBody (beam : ℕ) (scan : Owners × List (List WriteChildCandidate))
    (body : (_ : PartitionKey) × (PartitionHeader × List ℕ)) :
    Except Error (Owners × List (List WriteChildCandidate)) := do
  let (entries, hits) ← readBody ix S t graphs body.1 body.2.1 beam
  let owners ← entries.foldlM (noteOwner body.1) scan.1
  .ok (owners, body.2.2.foldl (scoreBody ix routings beam body.1 hits) scan.2)

/-- Scans the bodies of a wave.  Each member keeps one beam over all of them. -/
def scanBodies (beam : ℕ) (owners : Owners) (bodies : WaveBodies) :
    Except Error (Owners × List (List WriteChildCandidate)) :=
  bodies.entries.foldlM (scanBody ix S t graphs routings beam) (owners, routings.map fun _ => [])

def nextWave (nearest : List (List WriteChildCandidate)) : Waiting :=
  nearest.zipIdx.foldl (fun waiting beam => beam.1.foldl (fun waiting c =>
    Waiting.add waiting c.child [⟨beam.2, some c.owner, c.distance⟩]) waiting) OrderedMap.empty

/-! ### The descent -/

def waveAuthorities (pending : Waiting) :
    Except Error (List (PartitionHeader × PartitionTransition)) :=
  pending.entries.mapM fun e => readAuthority S t e.1

/-- A leaf wave that finishes at once: the leaves' Headers, if all of them
accept writes. -/
def acceptingWave (pending : Waiting) (authorities : List (PartitionHeader × PartitionTransition)) :
    Except Error (Option (List PartitionHeader)) := do
  (pending.entries.zip authorities).forM fun (e, header, state) => do
    checkLevel header (some 1)
    checkRootState e.1 state
  let headers := authorities.map Prod.fst
  .ok (if headers.all fun header => header.state.acceptsWrites then some headers else none)

def finishRoutes : Except Error GroupedDescent := do
  let routes ← routes.mapM fun
    | some (_, route) => Except.ok route
    | none => .error .corrupt
  .ok (.routed routes)

/-- The waves of a descent.  All waiting members expect one level, and every
wave leaves only members that expect the next one. -/
def descendLoop (ix : Index) (S : Store) (t : TreeKey) (graphs : Option GraphReads)
    (routings : List VectorData) (writeBeamSize : ℕ) :
    ℕ → Option ℕ → Waiting → Owners → List (Option (ℤ × Route)) → Except Error GroupedDescent
  | 0, _, _, _, _ => .error (.new .backend)
  | fuel + 1, expected, pending, owners, routes => do
    if pending.entries = [] then finishRoutes routes
    else
      let authorities ← waveAuthorities S t pending
      let accepting ← if expected = some 1 then acceptingWave pending authorities else .ok none
      match accepting with
      | some headers =>
        finishRoutes ((pending.entries.zip headers).foldl
          (fun routes (e, header) => e.2.foldl (arriveAt e.1 header) routes) routes)
      | none =>
        let start : WaveState := ⟨pending, routes, none, OrderedMap.empty⟩
        match ← resolveWave ix S t routings expected (waveFuel pending) start with
        | none => .ok .noReadyMergeTarget
        | some w =>
          match w.childLevel with
          | none => finishRoutes w.routes
          | some nextLevel =>
            let (owners, nearest) ← scanBodies ix S t graphs routings
              (beamWidth writeBeamSize nextLevel) owners w.bodies
            descendLoop ix S t graphs routings writeBeamSize fuel (some nextLevel)
              (nextWave nearest) owners w.routes

/-- One wave for each level of the tree. -/
def descendFuel : ℕ := ((S.header t rootPartition).elim 0 PartitionHeader.level) + 2

/-- Descends from the root with a whole group of vectors, and returns one route
for each. -/
def descendGroupedWithBeam (writeBeamSize : ℕ) : Except Error GroupedDescent :=
  descendLoop ix S t graphs routings writeBeamSize (descendFuel S t) none
    (OrderedMap.empty.put rootPartition
      ((List.range routings.length).map fun member => ⟨member, none, 0⟩))
    (OrderedMap.empty.put rootPartition rootPartition)
    (routings.map fun _ => none)

/-! ### Routing a write -/

def ensureTree (startedAt : ℕ) : WriteTxn Unit := do
  let tree ← read fun S : Store => .ok (S.treeManifest t)
  if tree.isSome = true then pure ()
  else
    let _ ← createTree ix t startedAt
    let tree ← read fun S : Store => .ok (S.treeManifest t)
    ensure (tree.isSome = true) .corrupt

/-- Whether a Header is a write-accepting leaf's. -/
def acceptsRoute (header : Option PartitionHeader) : Bool :=
  header.any fun header => header.level = 1 && header.state.acceptsWrites

/-- Whether a State names `leaf` as a target of a draining split. -/
def namesDrainTarget (state : Option PartitionTransition) (leaf : PartitionKey) : Bool :=
  match state with
  | some (.drainingSplit targets _) => targets.Names leaf
  | _ => false

/-- Reads for update what keeps one route valid: the leaf's Header, and its
parent edge or the State that names it.  The root has no incoming edge. -/
def validateRoute (route : Route) : WriteTxn Unit := do
  let header ← getHeader t route.leaf
  ensure (acceptsRoute header = true) .corrupt
  match route.incoming, route.parent with
  | .parentEdge, none => pure ()
  | .parentEdge, some parent => do
    let edge ← getChildEntry t parent route.leaf
    ensure ((edge.any fun entry => entry.child = route.leaf) = true) .corrupt
  | .sourceSlot source, _ => do
    let state ← getState t source
    ensure (namesDrainTarget state route.leaf = true) .corrupt

/-- The routes of distinct leaves and references, each at its first
appearance. -/
def distinctRoutes : List Route → List Route
  | [] => []
  | route :: rest => route ::
    (distinctRoutes rest).filter fun r => (r.leaf, r.incoming) ≠ (route.leaf, route.incoming)

def validateForWrite (routes : List Route) : WriteTxn Unit :=
  (distinctRoutes routes).forM (validateRoute t)

def routeLeavesForWrite (startedAt writeBeamSize : ℕ) : WriteTxn GroupedDescent := do
  ensure (writeBeamSize ≠ 0) .invalidArgument
  if routings = [] then pure (.routed [])
  else
    ensureTree ix t startedAt
    let descent ← read fun S =>
      descendGroupedWithBeam ix S t graphs routings writeBeamSize
    match descent with
    | .routed routes => do
      validateForWrite t routes
      pure descent
    | .noReadyMergeTarget => pure descent
