/-
Partition authority reads and incoming-edge discovery.

Partitions keep no parent pointers.  A parent is rediscovered by walking whole
levels down from the root, on the transaction's snapshot; only the edge that was
found is then read for update.

* `classifyAuthority` — a Header and a State are present together and agree;
* `levelBodies` — every partition of one level, with the split targets a root
  names in its State;
* `findIncomingEdge`, `sameLevelCandidates` — what the walk is for;
* `IncomingEdgeProof` — a remembered walk and its revalidation.
-/
import Ktann.Storage.TreeManifest

open TxnM WriteTxn

/-! ### Authority pairs -/

/-- Both present and in agreement, both gone, or corruption. -/
def classifyAuthority : Option PartitionHeader → Option PartitionTransition →
      Except Error (Option (PartitionHeader × PartitionTransition))
  | some header, some state =>
    if header.state = state.state then .ok (some (header, state)) else .error .corrupt
  | none, none => .ok none
  | _, _ => .error .corrupt

variable (S : Store) (t : TreeKey) (p : PartitionKey)

def readAuthorityPair : Except Error (Option (PartitionHeader × PartitionTransition)) :=
  classifyAuthority (S.header t p) (S.state t p)

/-- The authority pair of a partition that must exist. -/
def readAuthority : Except Error (PartitionHeader × PartitionTransition) := do
  match ← readAuthorityPair S t p with
  | some authority => .ok authority
  | none => .error .corrupt

def authorityPair : WriteTxn (Option (PartitionHeader × PartitionTransition)) := do
  let header ← getHeader t p
  let state ← getState t p
  ofExcept (classifyAuthority header state)

lemma run_authorityPair {t : TreeKey} {p : PartitionKey} {s : Txn ValueOf}
    {o : Option (PartitionHeader × PartitionTransition)}
    (h : readAuthorityPair s.view t p = .ok o) :
    (authorityPair t p).run s = .ok (o, (s.protect (.header t p)).protect (.state t p)) := by
  rw [authorityPair, run_bind_ok (a := Store.header s.view t p) rfl,
    run_bind_ok (a := Store.state s.view t p) rfl, TxnM.ofExcept, TxnM.read]
  rw [readAuthorityPair] at h
  simp [h]

/-! ### Walking the levels -/

/-- The split targets a root names in its State that exist, or must exist. -/
def rootTargets : List PartitionKey :=
  match S.state t rootPartition with
  | some (.splitting targets _) =>
    [targets.left, targets.right].filter fun p => p ≠ rootPartition ∧ (S.header t p).isSome
  | some (.drainingSplit targets _) =>
    [targets.left, targets.right].filter fun p => p ≠ rootPartition
  | _ => []

/-- Descends `steps` levels from the partitions of `level`. -/
def descendLevels (S : Store) (t : TreeKey) :
    (steps level : ℕ) → List PartitionKey → Except Error (List PartitionKey)
  | 0, _, bodies => .ok bodies
  | steps + 1, level, bodies =>
    if bodies.all fun p => (S.header t p).any fun h => h.level = level then
      let next := bodies.flatMap fun p => (S.childEntries t p).map ChildEntry.child
      if next.isEmpty then .error .corrupt
      else descendLevels S t steps (level - 1) next
    else .error .corrupt

variable (level : ℕ)

def levelBodies : Except Error (List PartitionKey) :=
  match S.header t rootPartition with
  | none => .error .corrupt
  | some root =>
    if root.level < level then .error .corrupt
    else descendLevels S t (root.level - level) root.level (rootPartition :: rootTargets S t)

/-- The next level up, within the width of a level. -/
def parentLevel : Except Error ℕ :=
  if level + 1 < u32Bound then .ok (level + 1) else .error .corrupt

def childEdges (bodies : List PartitionKey) : List (PartitionKey × ChildEntry) :=
  bodies.flatMap fun body => (S.childEntries t body).map fun entry => (body, entry)

/-- The unique edge to a partition in an already discovered parent level. -/
def findIncomingEdgeIn (bodies : List PartitionKey) :
    Except Error (Option (PartitionKey × ChildEntry)) :=
  match (childEdges S t bodies).filter fun edge => edge.2.child = p with
  | [] => .ok none
  | [edge] => .ok (some edge)
  | _ => .error .corrupt

/-- Rediscovers the unique incoming Child Entry of a partition of `level`. -/
def findIncomingEdge : Except Error (Option (PartitionKey × ChildEntry)) := do
  let bodies ← levelBodies S t (← parentLevel level)
  findIncomingEdgeIn S t p bodies

/-- Rediscovers the incoming Child Entry of a partition, unless a validated
proof already names its parent, and reads it for update. -/
def lockIncomingEdge (parent : Option PartitionKey) : WriteTxn PartitionKey := do
  let parent ← match parent with
    | some parent => pure parent
    | none => do
      let edge ← read fun S => findIncomingEdge S t p level
      let edge ← orFail .corrupt edge
      pure edge.1
  let _ ← requireChildEntry t parent p
  pure parent

/-- One partition of a level with its incoming edge and its Header. -/
structure LevelCandidate where
  parent : PartitionKey
  entry : ChildEntry
  header : PartitionHeader
  deriving DecidableEq

namespace LevelCandidate

def partition (c : LevelCandidate) : PartitionKey := c.entry.child

/-- Whether entries of `source` may merge into the candidate. -/
def isLegalMergeTarget (c : LevelCandidate) (source : PartitionKey) : Bool :=
  c.partition ≠ source && c.header.state = .ready

end LevelCandidate

/-- The candidate an edge leads to; its Header must exist at `level`. -/
def levelCandidate (edge : PartitionKey × ChildEntry) : Except Error LevelCandidate :=
  match S.header t edge.2.child with
  | some header =>
    if header.level = level then .ok ⟨edge.1, edge.2, header⟩ else .error .corrupt
  | none => .error .corrupt

/-- Every partition of a level with its incoming edge, in walk order. -/
def sameLevelCandidates : Except Error (List LevelCandidate) := do
  let bodies ← levelBodies S t (← parentLevel level)
  (childEdges S t bodies).mapM (levelCandidate S t level)

/-! ### A remembered walk -/

/-- The parent level of one discovery, with every Header in it. -/
structure IncomingEdgeProof where
  level : ℕ
  headers : List (PartitionKey × PartitionHeader)
  deriving DecidableEq

namespace IncomingEdgeProof

/-- Remembers the parent level of partitions of `level`. -/
def read : Except Error IncomingEdgeProof := do
  let level ← parentLevel level
  let bodies ← levelBodies S t level
  let headers ← bodies.mapM fun p =>
    match S.header t p with
    | some header => .ok (p, header)
    | none => .error .corrupt
  .ok ⟨level, headers⟩

def find (proof : IncomingEdgeProof) (S : Store) (t : TreeKey) (p : PartitionKey) :
    Except Error (Option (PartitionKey × ChildEntry)) :=
  findIncomingEdgeIn S t p (proof.headers.map Prod.fst)

/-- Reads every remembered Header for update; `false` at the first that
changed. -/
def validateHeaders (t : TreeKey) : List (PartitionKey × PartitionHeader) → WriteTxn Bool
  | [] => pure true
  | (p, expected) :: rest => do
    let header ← getHeader t p
    if header = some expected then validateHeaders t rest else pure false

/-- Whether the walk still finds the same parent level, with every Header
unchanged and now read for update. -/
def validate (proof : IncomingEdgeProof) (t : TreeKey) : WriteTxn Bool := do
  let same ← TxnM.read fun S : Store =>
    match S.header t rootPartition with
    | none => .error .corrupt
    | some root =>
      if root.level < proof.level then .ok false
      else do
        let bodies ← levelBodies S t proof.level
        .ok (decide (bodies = proof.headers.map Prod.fst))
  if same = true then validateHeaders t proof.headers else pure false

end IncomingEdgeProof
