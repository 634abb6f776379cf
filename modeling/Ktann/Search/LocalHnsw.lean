/-
Snapshot-bound graph records.

The native builder turns a body into bytes.  They are stored in chunks under a
descriptor that binds them to the coordinates, the configuration and the Header
they were built for.

* `LocalGraph.identity`, `LocalGraph.binding` — the two digests of a body;
* `LocalGraph.build` — the records of one final body;
* `graphChunk_length` — how long each chunk is.
-/
import Ktann.Maintenance.GraphTopology

inductive Metric
  | l2
  | cosine
  | innerProduct
  deriving DecidableEq

def Metric.byte : Metric → Byte
  | l2 => 0
  | cosine => 1
  | innerProduct => 2

/-- The bytes of an ASCII text. -/
def asciiBytes (text : String) : Bytes := text.toList.map fun c => Fin.ofNat 256 c.toNat

/-- What the local graphs of one index are built with: the parameters of its Manifest,
the digest, the persistent bytes of one coordinate, and the native builder. -/
structure LocalGraph where
  index : ℕ
  m : ℕ
  efConstruction : ℕ
  seed : Bytes
  metric : Metric
  dimension : ℕ
  sha256 : Bytes → Bytes
  coordinate : ℤ → Bytes
  encode : BodyPlan → PartitionHeader → Except Error Bytes

def graphChunkList (body : Bytes) : List Bytes :=
  (List.range ((body.length + (graphChunkBytes - 1)) / graphChunkBytes)).map fun n =>
    (body.drop (n * graphChunkBytes)).take graphChunkBytes

namespace LocalGraph

variable (g : LocalGraph)

/-- Binds all source coordinates and configuration, never just the child count. -/
def identity (t : TreeKey) (parent : PartitionKey) (children : List ChildEntry) : Bytes :=
  g.sha256 (asciiBytes "ktann/local-hnsw/source/v1" ++ [0] ++ bigEndian 8 t.length ++ t ++
    bigEndian 8 parent ++ bigEndian 8 g.m ++ bigEndian 8 g.efConstruction ++ g.seed ++
    [g.metric.byte] ++ bigEndian 8 g.dimension ++ bigEndian 8 children.length ++
    children.flatMap fun e => bigEndian 8 e.child ++ e.centroid.flatMap g.coordinate)

/-- Binds an identity to one Header; a State change alone keeps it. -/
def binding (identity : Bytes) (header : PartitionHeader) : Bytes :=
  g.sha256 (asciiBytes "ktann/local-hnsw/snapshot/v1" ++ [0] ++ identity ++
    bigEndian 8 g.index ++ bigEndian 4 header.level ++ bigEndian 4 header.entryCount ++
    bigEndian 8 header.cacheEpoch)

/-- Whether a graph of `nodes` nodes may stand under a Header. -/
def headerMatches (header : PartitionHeader) (nodes : ℕ) : Bool :=
  decide (1 < header.level) && decide (0 < nodes) && decide (header.entryCount = nodes)

def descriptor (t : TreeKey) (p : PartitionKey) (children : List ChildEntry)
    (header : PartitionHeader) (body : Bytes) : GraphDescriptor where
  nodes := children.length
  epoch := header.cacheEpoch
  bytes := body.length
  binding := g.binding (g.identity t p children) header
  sha256 := g.sha256 body

/-- Builds and encodes one final partition. -/
def build : GraphBuilder := fun plan header =>
  if headerMatches header plan.children.length then do
    let body ← g.encode plan header
    .ok ⟨g.descriptor plan.treeKey plan.partition plan.children header body, graphChunkList body⟩
  else .error .invalidArgument

variable {g} {children : List ChildEntry}

lemma build_ok {plan : BodyPlan} {header : PartitionHeader} {records : GraphRecords}
    (hok : g.build plan header = .ok records) :
    1 < header.level ∧ 0 < plan.children.length ∧ header.entryCount = plan.children.length ∧
      ∃ body, records = ⟨g.descriptor plan.treeKey plan.partition plan.children header body,
        graphChunkList body⟩ := by
  rw [build] at hok
  split_ifs at hok with hmatches
  obtain ⟨body, -, hok⟩ := bind_eq_ok.mp hok
  cases hok
  simp only [headerMatches, and_eq_true, decide_eq_true_eq] at hmatches
  exact ⟨hmatches.1.1, hmatches.1.2, hmatches.2, body, rfl⟩

/-- A binding reads the level, the count and the epoch of its Header only. -/
lemma descriptor_congr {t : TreeKey} {p : PartitionKey} {h h' : PartitionHeader} {body : Bytes}
    (level : h'.level = h.level) (count : h'.entryCount = h.entryCount)
    (epoch : h'.cacheEpoch = h.cacheEpoch) :
    g.descriptor t p children h' body = g.descriptor t p children h body := by
  simp only [descriptor, binding, level, count, epoch]

@[simp] lemma descriptor_chunks {t : TreeKey} {p : PartitionKey} {h : PartitionHeader}
    {body : Bytes} : (g.descriptor t p children h body).chunks = (graphChunkList body).length := by
  rw [graphChunkList, length_map, List.length_range]
  rfl

end LocalGraph

lemma graphChunk_length {body chunk : Bytes} {n : ℕ}
    (hchunk : (graphChunkList body)[n]? = some chunk) :
    chunk.length = min graphChunkBytes (body.length - n * graphChunkBytes) := by
  obtain ⟨hlt, rfl⟩ := getElem?_eq_some_iff.mp hchunk
  simp [graphChunkList]
