/-
The Index Manifest: the immutable configuration every operation reads.

A manifest is built only by its checked constructor, so the facts the check
establishes are fields of the structure.  `Index` adds the functions of the
code that lie outside this development (the Bloom hash, the numeric kernels and
the native graph search); nothing is assumed of them but that a graph search
returns nodes of its graph, and at least one of a graph that has any.
-/
import Ktann.Api.Schema

/-- The number of schema fields the configuration allows. -/
def maxFields : ℕ := 16

/-- The greatest encoded length of a Tree Key. -/
def maxTreeKeyBytes : ℕ := 8192

/-- The greatest configurable partition size. -/
def maxPartitionEntries : ℕ := 65536

/-- The worst case of one encoded Tree Key field, as the configuration check
bounds it. -/
def encodedFieldBytes : DataType → ℕ
  | .string => 2 * maxStringBytes + 2
  | .bool => 3
  | .i64 => 10
  | .f64 => 10

/-- The shape of one persisted Bloom summary, probed once per value. -/
structure BloomParameters where
  bitCount : ℕ
  pos : 0 < bitCount
  deriving DecidableEq

namespace BloomParameters

/-- The persisted length in bytes. -/
def byteCount (p : BloomParameters) : ℕ := (p.bitCount + 7) / 8

lemma bitCount_le (p : BloomParameters) : p.bitCount ≤ 8 * p.byteCount := by
  rw [byteCount]
  omega

end BloomParameters

/-- The persistent metadata of one Logical Index, as its check accepts it. -/
structure IndexManifest where
  fields : List FieldSchema
  treeKeyFields : List ℕ
  bloomParameters : List (Option BloomParameters)
  minLeafPartitionEntries : ℕ
  maxLeafPartitionEntries : ℕ
  minInternalPartitionEntries : ℕ
  maxInternalPartitionEntries : ℕ
  localGraph : Bool
  fields_le : fields.length ≤ maxFields
  bloom_length : bloomParameters.length = fields.length
  treeKeyFields_nodup : treeKeyFields.Nodup
  treeKeyFields_valid : ∀ i ∈ treeKeyFields, ∃ field, fields[i]? = some field ∧
    field.nullable = false
  treeKeyBytes_le : ((treeKeyFields.filterMap (fields[·]?)).map fun field =>
    encodedFieldBytes field.dataType).sum ≤ maxTreeKeyBytes
  leaf_entries : 1 ≤ minLeafPartitionEntries ∧
    2 * minLeafPartitionEntries ≤ maxLeafPartitionEntries ∧
    maxLeafPartitionEntries ≤ maxPartitionEntries
  internal_entries : 1 ≤ minInternalPartitionEntries ∧
    2 * minInternalPartitionEntries ≤ maxInternalPartitionEntries ∧
    maxInternalPartitionEntries ≤ maxPartitionEntries

namespace IndexManifest

variable (m : IndexManifest)

/-- The minimum occupancy of a level; the root's exception is its caller's. -/
def minPartitionEntries (level : ℕ) : ℕ :=
  if level = 1 then m.minLeafPartitionEntries else m.minInternalPartitionEntries

/-- The split threshold of a level. -/
def maxEntries (level : ℕ) : ℕ :=
  if level = 1 then m.maxLeafPartitionEntries else m.maxInternalPartitionEntries

def treeKeyTypes : List DataType :=
  (m.treeKeyFields.filterMap (m.fields[·]?)).map FieldSchema.dataType

end IndexManifest

/-- A vector or a routing centroid.  A component is the order rank of a finite
float, so equal components are equal floats. -/
abbrev VectorData := List ℤ

/-- One Logical Index: its manifest, and the external functions its code calls.
A routing distance is the order rank of a finite float.  The native graph search
takes the centroids of a body, a query and a beam, and returns the ordinals of
some of its nodes: at least one when there is any. -/
structure Index extends IndexManifest where
  bloomHash : Bytes → ℕ
  preprocess : VectorData → Except Error VectorData
  quantize : VectorData → Except Error Bytes
  routingDistance : VectorData → VectorData → ℤ
  graphSearch : List VectorData → VectorData → ℕ → List ℕ
  graphSearch_lt : ∀ centroids query beam, ∀ node ∈ graphSearch centroids query beam,
    node < centroids.length
  graphSearch_ne_nil : ∀ centroids query beam, centroids ≠ [] → 0 < beam →
    graphSearch centroids query beam ≠ []

/-- A one-dimensional index for worked cases: one Boolean field, which is the
Tree Key, and partitions that split above two entries. -/
def Index.line : Index where
  fields := [⟨"group", .bool, false⟩]
  treeKeyFields := [0]
  bloomParameters := [some ⟨8, by decide⟩]
  minLeafPartitionEntries := 1
  maxLeafPartitionEntries := 2
  minInternalPartitionEntries := 1
  maxInternalPartitionEntries := 2
  localGraph := false
  fields_le := by decide
  bloom_length := rfl
  treeKeyFields_nodup := by decide
  treeKeyFields_valid := by
    intro i hi
    rw [List.mem_singleton.mp hi]
    exact ⟨_, rfl, rfl⟩
  treeKeyBytes_le := by decide
  leaf_entries := by decide
  internal_entries := by decide
  bloomHash := fun bytes => (bytes.map fun b => b.val).sum
  preprocess := .ok
  quantize := fun _ => .ok []
  routingDistance := fun query centroid => (List.zipWith (fun x c => |x - c|) query centroid).sum
  graphSearch := fun centroids _ _ => List.range centroids.length
  graphSearch_lt := fun _ _ _ _ hnode => List.mem_range.mp hnode
  graphSearch_ne_nil := by
    intro centroids query beam hne _
    simpa using hne
