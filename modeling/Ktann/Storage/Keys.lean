/-
The logical key space of one index.

A key is ordered by its layout: the record groups first, then the Tree
Manifests, then every partition with its Header, Synopsis, State, Centroid,
Leaf Entries, Child Entries and graph records.  The value type depends on the
key, so a Header key stores a Header and nothing else.

* `LogicalKey.layout_injective` — distinct keys have distinct layouts, which
  makes the layout order a linear order;
* `leafRange`, `childRange`, `bodyRange`, `partitionRange` — the key ranges the
  code scans and clears.
-/
import Ktann.Storage.Values

inductive LogicalKey
  | record (id : RecordId)
  | location (id : RecordId)
  | payload (id : RecordId)
  | treeManifest (treeKey : TreeKey)
  | header (treeKey : TreeKey) (partition : PartitionKey)
  | synopsis (treeKey : TreeKey) (partition : PartitionKey)
  | state (treeKey : TreeKey) (partition : PartitionKey)
  | centroid (treeKey : TreeKey) (partition : PartitionKey)
  | leafEntry (treeKey : TreeKey) (partition : PartitionKey) (id : RecordId)
  | childEntry (treeKey : TreeKey) (partition : PartitionKey) (child : PartitionKey)
  | graphDescriptor (treeKey : TreeKey) (partition : PartitionKey)
  | graphChunk (treeKey : TreeKey) (partition : PartitionKey) (chunk : ℕ)

namespace LogicalKey

def terminated (bytes : Bytes) (rest : List ℕ) : List ℕ :=
  match bytes with
  | [] => 0 :: rest
  | b :: bytes => (b.val + 1) :: terminated bytes rest

@[simp] lemma terminated_inj {bytes bytes' : Bytes} {rest rest' : List ℕ} :
    terminated bytes rest = terminated bytes' rest' ↔ bytes = bytes' ∧ rest = rest' := by
  induction bytes generalizing bytes' with
  | nil => cases bytes' <;> simp [terminated]
  | cons b _ ih =>
    cases bytes' with
    | nil => simp [terminated]
    | cons _ => simp [terminated, ih, Fin.val_inj, and_assoc]

def group : LogicalKey → ℕ
  | record _ | location _ | payload _ => 1
  | treeManifest _ => 3
  | _ => 4

/-- The Record ID of a record-group key, the Tree Key of any other. -/
def text : LogicalKey → Bytes
  | record id | location id | payload id => id
  | treeManifest t | header t _ | synopsis t _ | state t _ | centroid t _ | leafEntry t _ _
  | childEntry t _ _ | graphDescriptor t _ | graphChunk t _ _ => t

/-- What follows the text. -/
def tail : LogicalKey → List ℕ
  | record _ => [0]
  | location _ => [1]
  | payload _ => [2]
  | treeManifest _ => []
  | header _ p => [p, 0]
  | synopsis _ p => [p, 1]
  | state _ p => [p, 2]
  | centroid _ p => [p, 3]
  | leafEntry _ p id => p :: 4 :: terminated id []
  | childEntry _ p c => [p, 5, c]
  | graphDescriptor _ p => [p, 6]
  | graphChunk _ p n => [p, 7, n]

/-- The ordered components of a key. -/
def layout (k : LogicalKey) : List ℕ := k.group :: terminated k.text k.tail

lemma layout_injective : Injective layout := by
  intro k k' h
  simp only [layout, List.cons.injEq, terminated_inj] at h
  obtain ⟨hgroup, htext, htail⟩ := h
  -- Group and tail leave only keys of one kind, whose components agree.
  cases k <;> cases k' <;> simp_all [group, text, tail]

instance : LinearOrder LogicalKey := LinearOrder.lift' layout layout_injective

/-- A leaf's place in the key order. -/
instance : LinearOrder RecordLocation :=
  LinearOrder.lift' (fun l => terminated l.treeKey [l.leaf]) (by
    rintro ⟨t, p⟩ ⟨t', p'⟩ h
    simpa using h)

/-- What is stored under a key. -/
@[reducible] def ValueOf : LogicalKey → Type
  | record _ => VectorRecord
  | location _ => RecordLocation
  | payload _ => Bytes
  | treeManifest _ => TreeManifest
  | header _ _ => PartitionHeader
  | synopsis _ _ => PartitionSynopsis
  | state _ _ => PartitionTransition
  | centroid _ _ => VectorData
  | leafEntry _ _ _ => LeafEntry
  | childEntry _ _ _ => ChildEntry
  | graphDescriptor _ _ => GraphDescriptor
  | graphChunk _ _ _ => Bytes

variable (t : TreeKey) (p : PartitionKey)

def leafRange : LogicalKey → Bool
  | leafEntry t' p' _ => t' = t && p' = p
  | _ => false

def childRange : LogicalKey → Bool
  | childEntry t' p' _ => t' = t && p' = p
  | _ => false

/-- The Leaf and Child Entries of one partition. -/
def bodyRange (k : LogicalKey) : Bool := leafRange t p k || childRange t p k

def graphChunkRange : LogicalKey → Bool
  | graphChunk t' p' _ => t' = t && p' = p
  | _ => false

def partitionRange : LogicalKey → Bool
  | header t' p' | synopsis t' p' | state t' p' | centroid t' p' | leafEntry t' p' _
  | childEntry t' p' _ | graphDescriptor t' p' | graphChunk t' p' _ => t' = t && p' = p
  | _ => false

def treeManifestRange : LogicalKey → Bool
  | treeManifest _ => true
  | _ => false

end LogicalKey

/-! ### Names used without their namespace -/

export LogicalKey (ValueOf childRange leafRange)
