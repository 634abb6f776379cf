/-
The effects committed transactions are made of.

Every transaction of the program, batches included, takes one committed store to
the next by a sequence of the effects below.  An effect names what it requires of
the store it acts on, in the terms the code checks it, and the store it leaves.

* `Effect` — one record's membership changed, one entry moved, or one step of a
  tree's topology;
* `Effects` — a sequence of them;
* `ExactMembership`, `Coherent` — what holds of every committed store;
* `Evolves` — what holds between a committed store and a later one.
-/
import Ktann.Committed.Topology
import Ktann.Storage.Topology.Relocation
import Ktann.Storage.Topology.Transitions

namespace Store

/-- A record's exact membership written: the record, its Location and its
payload. -/
def putRecord (S : Store) (record : VectorRecord) (payload : Option Bytes)
    (location : RecordLocation) : Store :=
  let written := (S.put (.record record.recordId) record).put (.location record.recordId) location
  match payload with
  | some payload => written.put (.payload record.recordId) payload
  | none => written.erase (.payload record.recordId)

/-- A record's exact membership removed. -/
def eraseRecord (S : Store) (id : RecordId) : Store :=
  ((S.erase (.record id)).erase (.location id)).erase (.payload id)

end Store

def LogicalKey.isGraph : LogicalKey → Bool
  | graphDescriptor _ _ | graphChunk _ _ _ => true
  | _ => false

inductive Effect (ix : Index) (S : Store) : Store → Prop
  | createTree {t : TreeKey} {n : ℕ} (absent : S.treeManifest t = none) :
      Effect ix S (S.createTree ix t n)
  /-- A new record enters a leaf. -/
  | insert {record : VectorRecord} {payload : Option Bytes} {t : TreeKey} {p : PartitionKey}
      {e : LeafEntry} {h h' : PartitionHeader} {y y' : PartitionSynopsis} {changed : Bool}
      (id : e.recordId = record.recordId) (fields : e.fields = record.fields)
      (absent : S.record record.recordId = none) (header : S.header t p = some h)
      (leaf : h.level = 1) (accepts : h.state.acceptsWrites = true)
      (added : h.addedEntry = .ok h') (synopsis : S.synopsis t p = some y)
      (expanded : y.expand ix e.fields = .ok (y', changed)) :
      Effect ix S ((S.putLeaf t p e h' y').putRecord record payload ⟨t, p⟩)
  /-- A record is replaced in its leaf. -/
  | replace {record : VectorRecord} {payload : Option Bytes} {t : TreeKey} {p : PartitionKey}
      {e : LeafEntry} {h h' : PartitionHeader} {y y' : PartitionSynopsis} {changed : Bool}
      (id : e.recordId = record.recordId) (fields : e.fields = record.fields)
      (location : S.location record.recordId = some ⟨t, p⟩) (header : S.header t p = some h)
      (leaf : h.level = 1) (accepts : h.state.acceptsWrites = true)
      (touched : h.touchedEntry = .ok h') (synopsis : S.synopsis t p = some y)
      (expanded : y.expand ix e.fields = .ok (y', changed)) :
      Effect ix S ((S.putLeaf t p e h' y').putRecord record payload ⟨t, p⟩)
  /-- A record is replaced and changes its leaf. -/
  | replaceAcross {record : VectorRecord} {payload : Option Bytes} {source target : RecordLocation}
      {e : LeafEntry} {k k' h h' : PartitionHeader} {y y' : PartitionSynopsis} {changed : Bool}
      (id : e.recordId = record.recordId) (fields : e.fields = record.fields)
      (location : S.location record.recordId = some source) (ne : source ≠ target)
      (sourceHeader : S.header source.treeKey source.leaf = some k)
      (removed : k.removedEntry = .ok k')
      (header : S.header target.treeKey target.leaf = some h) (leaf : h.level = 1)
      (accepts : h.state.acceptsWrites = true) (added : h.addedEntry = .ok h')
      (synopsis : S.synopsis target.treeKey target.leaf = some y)
      (expanded : y.expand ix e.fields = .ok (y', changed)) :
      Effect ix S (((S.eraseLeaf source.treeKey source.leaf e.recordId k').putLeaf target.treeKey
        target.leaf e h' y').putRecord record payload target)
  | delete {id : RecordId} {location : RecordLocation} {h h' : PartitionHeader}
      (stored : S.location id = some location)
      (header : S.header location.treeKey location.leaf = some h)
      (removed : h.removedEntry = .ok h') :
      Effect ix S ((S.eraseLeaf location.treeKey location.leaf id h').eraseRecord id)
  /-- A Leaf Entry moves with its Location. -/
  | moveLeaf {t : TreeKey} {source target : PartitionKey} {e : LeafEntry} (movement : Movement)
      {k k' h h' : PartitionHeader} {y y' : PartitionSynopsis} {changed : Bool}
      (entry : S.leafEntry t source e.recordId = some e) (ne : source ≠ target)
      (sourceHeader : S.header t source = some k) (sourceState : k.state = movement.sourceState)
      (removed : k.removedEntry = .ok k') (header : S.header t target = some h)
      (leaf : h.level = 1) (targetState : h.state = movement.targetState)
      (added : h.addedEntry = .ok h') (synopsis : S.synopsis t target = some y)
      (expanded : y.expand ix e.fields = .ok (y', changed)) :
      Effect ix S (((S.eraseLeaf t source e.recordId k').putLeaf t target e h' y').put
        (.location e.recordId) ⟨t, target⟩)
  | beginSplit {t : TreeKey} {p : PartitionKey} {h : PartitionHeader} {m m' : TreeManifest}
      {targets : SplitPair} {began n : ℕ} (header : S.header t p = some h)
      (state : S.state t p = some (.ready began)) (full : ix.maxEntries h.level < h.entryCount)
      (manifest : S.treeManifest t = some m)
      (left : targets.left = m.partitionKeyHighWater + 1)
      (right : targets.right = m.partitionKeyHighWater + 2)
      (reserved : m'.partitionKeyHighWater = m.partitionKeyHighWater + 2) :
      Effect ix S ((S.allocate t m').restate t p h (.splitting targets n))
  | exposeRoot {t : TreeKey} {h : PartitionHeader} {targets : SplitPair} {a b : VectorData}
      {began n : ℕ} (header : S.header t rootPartition = some h)
      (state : S.state t rootPartition = some (.splitting targets began)) :
      Effect ix S (((S.createTarget ix t rootPartition h targets.left a n).createTarget ix
        t rootPartition h targets.right b n).restate t rootPartition h
          (.drainingSplit targets n))
  | exposeChild {t : TreeKey} {p parent : PartitionKey} {h k k' k'' : PartitionHeader}
      {targets : SplitPair} {a b : VectorData} {began n : ℕ} (notRoot : p ≠ rootPartition)
      (header : S.header t p = some h) (state : S.state t p = some (.splitting targets began))
      (edge : S.childEntry t parent p ≠ none) (parentHeader : S.header t parent = some k)
      (level : k.level = h.level + 1) (accepts : acceptsChildren ix k = true)
      (once : k.addedEntry = .ok k') (twice : k'.addedEntry = .ok k'') :
      Effect ix S (((((S.createTarget ix t p h targets.left a n).createTarget ix t p h
        targets.right b n).putChild t parent ⟨targets.left, a⟩ k').putChild t parent
          ⟨targets.right, b⟩ k'').restate t p h (.drainingSplit targets n))
  /-- A Child Entry moves from a draining source. -/
  | moveChild {t : TreeKey} {source target : PartitionKey} {e : ChildEntry} (movement : Movement)
      {h h' k k' : PartitionHeader} (entry : S.childEntry t source e.child = some e)
      (ne : source ≠ target) (header : S.header t source = some h)
      (sourceState : h.state = movement.sourceState) (removed : h.removedEntry = .ok h')
      (targetHeader : S.header t target = some k) (targetState : k.state = movement.targetState)
      (family : movement = .split → ∃ n, S.state t target = some (.receivingSplit source n))
      (level : k.level = h.level) (added : k.addedEntry = .ok k')
      (fits : ix.localGraph = true → k.entryCount < ix.maxInternalPartitionEntries + 2) :
      Effect ix S ((S.putChild t target e k').eraseChild t source e.child h')
  /-- A drained root becomes the parent of its targets. -/
  | finishRoot {t : TreeKey} {h h' left right : PartitionHeader} {targets : SplitPair}
      {a b : VectorData} {began n : ℕ} (header : S.header t rootPartition = some h)
      (state : S.state t rootPartition = some (.drainingSplit targets began))
      (drained : h.entryCount = 0) (leftHeader : S.header t targets.left = some left)
      (rightHeader : S.header t targets.right = some right)
      (leftCentroid : S.centroid t targets.left = some a)
      (rightCentroid : S.centroid t targets.right = some b)
      (level : h'.level = h.level + 1) (ready : h'.state = .ready) (count : h'.entryCount = 2)
      (epoch : h.cacheEpoch < h'.cacheEpoch) :
      Effect ix S (((S.restate t targets.left left (.ready n)).restate t targets.right right
        (.ready n)).promoteRoot t ⟨targets.left, a⟩ ⟨targets.right, b⟩ h' n)
  /-- A drained split source leaves the tree. -/
  | finishChild {t : TreeKey} {p parent : PartitionKey} {h k k' left right : PartitionHeader}
      {targets : SplitPair} {began n : ℕ} (notRoot : p ≠ rootPartition)
      (header : S.header t p = some h)
      (state : S.state t p = some (.drainingSplit targets began)) (drained : h.entryCount = 0)
      (leftHeader : S.header t targets.left = some left)
      (rightHeader : S.header t targets.right = some right)
      (edge : S.childEntry t parent p ≠ none) (parentHeader : S.header t parent = some k)
      (removed : k.removedEntry = .ok k') :
      Effect ix S ((((S.restate t targets.left left (.ready n)).restate t targets.right
        right (.ready n)).eraseChild t parent p k').removePartition t p)
  | beginMerge {t : TreeKey} {p parent : PartitionKey} {h : PartitionHeader} {began n : ℕ}
      (notRoot : p ≠ rootPartition) (header : S.header t p = some h)
      (state : S.state t p = some (.ready began))
      (sparse : h.entryCount < ix.minPartitionEntries h.level)
      (edge : S.childEntry t parent p ≠ none) :
      Effect ix S (S.restate t p h (.merging n))
  /-- A drained merge source leaves the tree. -/
  | finishMerge {t : TreeKey} {p parent : PartitionKey} {h k k' : PartitionHeader} {began : ℕ}
      (notRoot : p ≠ rootPartition) (header : S.header t p = some h)
      (state : S.state t p = some (.merging began)) (drained : h.entryCount = 0)
      (edge : S.childEntry t parent p ≠ none) (parentHeader : S.header t parent = some k)
      (removed : k.removedEntry = .ok k') :
      Effect ix S ((S.eraseChild t parent p k').removePartition t p)
  /-- A centroid and its projection in the parent are replaced. -/
  | recenter {t : TreeKey} {p parent : PartitionKey} {h k k' : PartitionHeader} {v : VectorData}
      (notRoot : p ≠ rootPartition) (header : S.header t p = some h) (ready : h.state = .ready)
      (edge : S.childEntry t parent p ≠ none) (parentHeader : S.header t parent = some k)
      (parentReady : k.state = .ready) (touched : k.touchedEntry = .ok k') :
      Effect ix S ((S.putCentroid t p v).putChild t parent ⟨p, v⟩ k')
  /-- Graph records are dropped, or published on an index that has them. -/
  | graph {S' : Store} (same : ∀ k : LogicalKey, k.isGraph = false → S'.lookup k = S.lookup k)
      (published : ix.localGraph = true ∨
        ∀ k : LogicalKey, k.isGraph = true → S'.lookup k = none ∨ S'.lookup k = S.lookup k) :
      Effect ix S S'

abbrev Effects (ix : Index) : Store → Store → Prop := Relation.ReflTransGen (Effect ix)

/-! ### Committed stores -/

structure ExactMembership (S : Store) : Prop where
  record_id : ∀ {id r}, S.record id = some r → r.recordId = id
  /-- A Record and a Location are present together. -/
  located : ∀ id, S.record id = none ↔ S.location id = none
  payload : ∀ {id}, S.record id = none → S.payload id = none
  /-- A Leaf Entry is where the Location says, with the fields of the record. -/
  entry : ∀ {t p id e}, S.leafEntry t p id = some e → S.location id = some ⟨t, p⟩ ∧
    e.recordId = id ∧ ∀ r, S.record id = some r → e.fields = r.fields
  stored : ∀ {id t p}, S.location id = some ⟨t, p⟩ → S.leafEntry t p id ≠ none

/-- What holds of every committed store. -/
structure Coherent (ix : Index) (S : Store) : Prop where
  topology : ∀ t, (S.topology t).WellFormed
  bodies : Bodies ix S
  membership : ExactMembership S
  child : ∀ {t p c e}, S.childEntry t p c = some e → e.child = c

/-- What holds between a committed store and a later one. -/
structure Evolves (S S' : Store) : Prop where
  topology : ∀ t, (S.topology t).Evolves (S'.topology t)
  grown : ∀ {t p h h'}, S.header t p = some h → S'.header t p = some h' → Grown S S' t p h h'

export Store (putRecord eraseRecord)
