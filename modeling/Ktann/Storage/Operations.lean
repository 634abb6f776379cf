/-
Typed operations of a write transaction.

A step of the program is a transaction program over the store of one index with
the index's error kinds.  These are the operations the storage layer is written
in; the `runs_*` lemma of each says what it read and wrote, on the store the
transaction commits onto.
-/
import Ktann.Storage.Store

/-- A write transaction of one index. -/
abbrev WriteTxn (α : Type) := TxnM ValueOf Error α

namespace WriteTxn

open TxnM

def getForUpdate (k : LogicalKey) : WriteTxn (Option k.ValueOf) := TxnM.getForUpdate k

/-- Insert a key that must be absent; `false` when it exists. -/
def insert (k : LogicalKey) (v : k.ValueOf) : WriteTxn Bool := TxnM.insert k v

def put (k : LogicalKey) (v : k.ValueOf) : WriteTxn Unit := write (.put k v)

def delete (k : LogicalKey) : WriteTxn Unit := write (.delete k)

def clearRange (range : LogicalKey → Bool) : WriteTxn Unit := write (.clear range)

/-- Insert authoritative state whose key must be absent; a duplicate is
corruption. -/
def insertUnique (k : LogicalKey) (v : k.ValueOf) : WriteTxn Unit := do
  let inserted ← insert k v
  ensure (inserted = true) .corrupt

/-- Read a key for update that must exist. -/
def requireForUpdate (k : LogicalKey) : WriteTxn k.ValueOf := do
  let value ← getForUpdate k
  orFail .corrupt value

/-- Read a key for update that must be absent. -/
def expectAbsent (k : LogicalKey) : WriteTxn Unit := do
  let value ← getForUpdate k
  ensure (value.isNone = true) .corrupt

def stageAll : List (Write ValueOf) → WriteTxn Unit
  | [] => pure ()
  | w :: ws => do
    write w
    stageAll ws

variable {C : Store} {s s' : Txn ValueOf} {k : LogicalKey} {v : k.ValueOf} {u : Unit}

lemma runs_getForUpdate {o : Option k.ValueOf} : Runs C (getForUpdate k) s o s' ↔
      o = (s.onto C).lookup k ∧ s' = s.protect k ∧ (s.protect k).Agrees C :=
  TxnM.runs_getForUpdate

lemma runs_insert {b : Bool} : Runs C (insert k v) s b s' ↔ (s.protect k).Agrees C ∧
      ((b = true ∧ (s.onto C).lookup k = none ∧ s' = (s.protect k).stage (.put k v)) ∨
        (b = false ∧ (s.onto C).lookup k ≠ none ∧ s' = s.protect k)) :=
  TxnM.runs_insert

lemma runs_put : Runs C (put k v) s u s' ↔ s' = s.stage (.put k v) ∧ s.Agrees C := runs_write

lemma runs_delete : Runs C (delete k) s u s' ↔ s' = s.stage (.delete k) ∧ s.Agrees C := runs_write

lemma runs_clearRange {range : LogicalKey → Bool} :
    Runs C (clearRange range) s u s' ↔ s' = s.stage (.clear range) ∧ s.Agrees C := runs_write

lemma runs_insertUnique : Runs C (insertUnique k v) s u s' ↔
      (s.onto C).lookup k = none ∧ s' = (s.protect k).stage (.put k v) ∧
        (s.protect k).Agrees C := by
  simp only [insertUnique, runs_bind, runs_insert, runs_ensure]
  constructor
  · rintro ⟨b, t, ⟨hC, ⟨-, hk, ht⟩ | ⟨hb, -, -⟩⟩, hb', hs, -⟩
    · exact ⟨hk, hs.trans ht, hC⟩
    · rw [hb] at hb'
      cases hb'
  · rintro ⟨hk, rfl, hC⟩
    exact ⟨true, _, ⟨hC, Or.inl ⟨rfl, hk, rfl⟩⟩, rfl, rfl, hC⟩

lemma runs_requireForUpdate : Runs C (requireForUpdate k) s v s' ↔
      (s.onto C).lookup k = some v ∧ s' = s.protect k ∧ (s.protect k).Agrees C := by
  simp only [requireForUpdate, runs_bind, runs_getForUpdate, runs_orFail]
  constructor
  · rintro ⟨o, t, ⟨rfl, rfl, hC⟩, ho, rfl, -⟩
    exact ⟨ho, rfl, hC⟩
  · rintro ⟨ho, rfl, hC⟩
    exact ⟨_, _, ⟨rfl, rfl, hC⟩, ho, rfl, hC⟩

lemma runs_expectAbsent : Runs C (expectAbsent k) s u s' ↔
      (s.onto C).lookup k = none ∧ s' = s.protect k ∧ (s.protect k).Agrees C := by
  simp only [expectAbsent, runs_bind, runs_getForUpdate, runs_ensure]
  constructor
  · rintro ⟨o, t, ⟨rfl, rfl, hC⟩, ho, rfl, -⟩
    exact ⟨by simpa using ho, rfl, hC⟩
  · rintro ⟨ho, rfl, hC⟩
    exact ⟨_, _, ⟨rfl, rfl, hC⟩, by simpa using ho, rfl, hC⟩

lemma runs_stageAll {ws : List (Write ValueOf)} :
    ∀ {s : Txn ValueOf}, Runs C (stageAll ws) s u s' →
      s'.onto C = Write.applyAll (s.onto C) ws := by
  induction ws with
  | nil =>
    intro s h
    obtain ⟨-, rfl, -⟩ := runs_pure.mp h
    rfl
  | cons w _ ih =>
    intro s h
    simp only [stageAll, runs_bind, runs_write] at h
    obtain ⟨-, -, ⟨rfl, -⟩, h⟩ := h
    rw [ih h, onto_stage, Write.applyAll_cons]

/-! ### Reads for update, family by family -/

def getRecord (id : RecordId) : WriteTxn (Option VectorRecord) := getForUpdate (.record id)

variable {id : RecordId} {t : TreeKey} {p : PartitionKey}

lemma runs_getRecord {o : Option VectorRecord} :
    Runs C (getRecord id) s o s' ↔ o = Store.record (s.onto C) id ∧
      s' = s.protect (.record id) ∧ (s.protect (.record id)).Agrees C :=
  runs_getForUpdate

def getLocation (id : RecordId) : WriteTxn (Option RecordLocation) := getForUpdate (.location id)

def getTreeManifest (t : TreeKey) : WriteTxn (Option TreeManifest) := getForUpdate (.treeManifest t)

lemma runs_getTreeManifest {o : Option TreeManifest} :
    Runs C (getTreeManifest t) s o s' ↔ o = Store.treeManifest (s.onto C) t ∧
      s' = s.protect (.treeManifest t) ∧ (s.protect (.treeManifest t)).Agrees C :=
  runs_getForUpdate

def getHeader (t : TreeKey) (p : PartitionKey) : WriteTxn (Option PartitionHeader) :=
    getForUpdate (.header t p)

lemma runs_getHeader {o : Option PartitionHeader} :
    Runs C (getHeader t p) s o s' ↔ o = Store.header (s.onto C) t p ∧
      s' = s.protect (.header t p) ∧ (s.protect (.header t p)).Agrees C :=
  runs_getForUpdate

def getState (t : TreeKey) (p : PartitionKey) : WriteTxn (Option PartitionTransition) :=
    getForUpdate (.state t p)

lemma runs_getState {o : Option PartitionTransition} :
    Runs C (getState t p) s o s' ↔ o = Store.state (s.onto C) t p ∧
      s' = s.protect (.state t p) ∧ (s.protect (.state t p)).Agrees C :=
  runs_getForUpdate

def getLeafEntry (t : TreeKey) (p : PartitionKey) (id : RecordId) : WriteTxn (Option LeafEntry) :=
    getForUpdate (.leafEntry t p id)

lemma runs_getLeafEntry {o : Option LeafEntry} :
    Runs C (getLeafEntry t p id) s o s' ↔ o = Store.leafEntry (s.onto C) t p id ∧
      s' = s.protect (.leafEntry t p id) ∧ (s.protect (.leafEntry t p id)).Agrees C :=
  runs_getForUpdate

def getChildEntry (t : TreeKey) (p : PartitionKey) (c : PartitionKey) : WriteTxn
    (Option ChildEntry) := getForUpdate (.childEntry t p c)

lemma runs_getChildEntry {c : PartitionKey} {o : Option ChildEntry} :
    Runs C (getChildEntry t p c) s o s' ↔ o = Store.childEntry (s.onto C) t p c ∧
      s' = s.protect (.childEntry t p c) ∧ (s.protect (.childEntry t p c)).Agrees C :=
  runs_getForUpdate

def getGraphDescriptor (t : TreeKey) (p : PartitionKey) : WriteTxn (Option GraphDescriptor) :=
  getForUpdate (.graphDescriptor t p)

lemma runs_getGraphDescriptor {o : Option GraphDescriptor} :
    Runs C (getGraphDescriptor t p) s o s' ↔ o = Store.graphDescriptor (s.onto C) t p ∧
      s' = s.protect (.graphDescriptor t p) ∧ (s.protect (.graphDescriptor t p)).Agrees C :=
  runs_getForUpdate

def requireLocation (id : RecordId) : WriteTxn RecordLocation := requireForUpdate (.location id)

lemma runs_requireLocation {v : RecordLocation} :
    Runs C (requireLocation id) s v s' ↔ Store.location (s.onto C) id = some v ∧
      s' = s.protect (.location id) ∧ (s.protect (.location id)).Agrees C :=
  runs_requireForUpdate

def requireHeader (t : TreeKey) (p : PartitionKey) : WriteTxn PartitionHeader :=
    requireForUpdate (.header t p)

lemma runs_requireHeader {v : PartitionHeader} :
    Runs C (requireHeader t p) s v s' ↔ Store.header (s.onto C) t p = some v ∧
      s' = s.protect (.header t p) ∧ (s.protect (.header t p)).Agrees C :=
  runs_requireForUpdate

def requireSynopsis (t : TreeKey) (p : PartitionKey) : WriteTxn PartitionSynopsis :=
    requireForUpdate (.synopsis t p)

lemma runs_requireSynopsis {v : PartitionSynopsis} :
    Runs C (requireSynopsis t p) s v s' ↔ Store.synopsis (s.onto C) t p = some v ∧
      s' = s.protect (.synopsis t p) ∧ (s.protect (.synopsis t p)).Agrees C :=
  runs_requireForUpdate

def requireCentroid (t : TreeKey) (p : PartitionKey) : WriteTxn VectorData :=
    requireForUpdate (.centroid t p)

lemma runs_requireCentroid {v : VectorData} :
    Runs C (requireCentroid t p) s v s' ↔ Store.centroid (s.onto C) t p = some v ∧
      s' = s.protect (.centroid t p) ∧ (s.protect (.centroid t p)).Agrees C :=
  runs_requireForUpdate

def requireLeafEntry (t : TreeKey) (p : PartitionKey) (id : RecordId) : WriteTxn LeafEntry :=
    requireForUpdate (.leafEntry t p id)

lemma runs_requireLeafEntry {v : LeafEntry} :
    Runs C (requireLeafEntry t p id) s v s' ↔ Store.leafEntry (s.onto C) t p id = some v ∧
      s' = s.protect (.leafEntry t p id) ∧ (s.protect (.leafEntry t p id)).Agrees C :=
  runs_requireForUpdate

def requireChildEntry (t : TreeKey) (p : PartitionKey) (c : PartitionKey) : WriteTxn ChildEntry :=
    requireForUpdate (.childEntry t p c)

lemma runs_requireChildEntry {c : PartitionKey} {v : ChildEntry} :
    Runs C (requireChildEntry t p c) s v s' ↔ Store.childEntry (s.onto C) t p c = some v ∧
      s' = s.protect (.childEntry t p c) ∧ (s.protect (.childEntry t p c)).Agrees C :=
  runs_requireForUpdate

end WriteTxn
