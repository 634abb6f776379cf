/-
The shared state of one audit.

An audit reads the pairs of one snapshot in key order.  Three ledgers take the decoded
objects; all of them report and charge through the requests here, so that a limit that
one of them reaches silences the others.

* `Auditor` — what an audit is run with: the index, its codecs and digests, and the
  sizes that are charged;
* `AuditM` — its programs, with `issue`, `chargeMemory` and the other requests;
* `VerifyObjectCounts`, `VerifyTopology` — the counters of a report.
-/
import Ktann.Lib.Audit
import Ktann.Search.LocalHnsw

open Audit (perform)

namespace Verify

/-! ### Reports -/

inductive VerifyIssueKind
  | invalidEncoding
  | reachability
  | membership
  | countMismatch
  | recordProjectionMismatch
  | synopsisNotConservative
  deriving DecidableEq

/-- A finding, with nothing in it but allowlisted identifiers. -/
structure VerifyIssue where
  kind : VerifyIssueKind
  logicalIndexId : ℕ
  treeKeyHash : Bytes
  partitionKey : PartitionKey
  recordId : Option RecordId
  deriving DecidableEq

/-- The objects that were decoded, by category. -/
structure VerifyObjectCounts where
  total : ℕ
  vectorRecords : ℕ
  recordLocations : ℕ
  partitions : ℕ
  entries : ℕ
  deriving DecidableEq

structure PartitionStateCounts where
  ready : ℕ
  splitting : ℕ
  receivingSplit : ℕ
  drainingSplit : ℕ
  merging : ℕ
  deriving DecidableEq

/-- The shape of the trees that were visited. -/
structure VerifyTopology where
  trees : ℕ
  partitions : ℕ
  maxLevel : Option ℕ
  partitionsByLevel : OrderedMap ℕ fun _ => ℕ
  entriesByLevel : OrderedMap ℕ fun _ => ℕ
  maxEntriesByLevel : OrderedMap ℕ fun _ => ℕ
  partitionStates : PartitionStateCounts
  actionablePartitions : ℕ

/-- What a report counts: a decoded object, which has a key of the index or is other
metadata, or a partition that maintenance can advance. -/
inductive Note
  | object (value : Option (Sigma ValueOf))
  | actionable

/-- A `u64` counter stays at its maximum. -/
def saturatingAdd (n k : ℕ) : ℕ := min (n + k) (u64Bound - 1)

/-- One more of a key. -/
def bump (m : OrderedMap ℕ fun _ => ℕ) (level k : ℕ) : OrderedMap ℕ fun _ => ℕ :=
  m.put level (saturatingAdd ((m.lookup level).getD 0) k)

def PartitionStateCounts.add (c : PartitionStateCounts) : PartitionState → PartitionStateCounts
  | .ready => { c with ready := saturatingAdd c.ready 1 }
  | .splitting => { c with splitting := saturatingAdd c.splitting 1 }
  | .receivingSplit => { c with receivingSplit := saturatingAdd c.receivingSplit 1 }
  | .drainingSplit => { c with drainingSplit := saturatingAdd c.drainingSplit 1 }
  | .merging => { c with merging := saturatingAdd c.merging 1 }

def VerifyTopology.addHeader (t : VerifyTopology) (header : PartitionHeader) : VerifyTopology :=
  { t with
    partitions := saturatingAdd t.partitions 1
    maxLevel := some (t.maxLevel.elim header.level fun level => max level header.level)
    partitionsByLevel := bump t.partitionsByLevel header.level 1
    entriesByLevel := bump t.entriesByLevel header.level header.entryCount
    maxEntriesByLevel := t.maxEntriesByLevel.put header.level
      (max ((t.maxEntriesByLevel.lookup header.level).getD 0) header.entryCount)
    partitionStates := t.partitionStates.add header.state }

def count (c : VerifyObjectCounts × VerifyTopology) : Note → VerifyObjectCounts × VerifyTopology
  | .actionable =>
    (c.1, { c.2 with actionablePartitions := saturatingAdd c.2.actionablePartitions 1 })
  | .object value =>
    let objects := { c.1 with total := saturatingAdd c.1.total 1 }
    match value with
    | some ⟨.record _, _⟩ =>
      ({ objects with vectorRecords := saturatingAdd objects.vectorRecords 1 }, c.2)
    | some ⟨.location _, _⟩ =>
      ({ objects with recordLocations := saturatingAdd objects.recordLocations 1 }, c.2)
    | some ⟨.treeManifest _, _⟩ => (objects, { c.2 with trees := saturatingAdd c.2.trees 1 })
    | some ⟨.header _ _, header⟩ =>
      ({ objects with partitions := saturatingAdd objects.partitions 1 }, c.2.addHeader header)
    | some ⟨.synopsis _ _, _⟩ | some ⟨.state _ _, _⟩ | some ⟨.centroid _ _, _⟩ =>
      ({ objects with partitions := saturatingAdd objects.partitions 1 }, c.2)
    | some ⟨.leafEntry _ _ _, _⟩ | some ⟨.childEntry _ _ _, _⟩ =>
      ({ objects with entries := saturatingAdd objects.entries 1 }, c.2)
    | _ => (objects, c.2)

/-- The counters of an audit's notes. -/
def counters (notes : List Note) : VerifyObjectCounts × VerifyTopology :=
  notes.foldl count (⟨0, 0, 0, 0, 0⟩, ⟨0, 0, none, .empty, .empty, .empty, ⟨0, 0, 0, 0, 0⟩, 0⟩)

/-! ### The auditor -/

/-- In-memory sizes, in bytes: of the types whose values an audit holds, of the
kernel, and of one map entry with its overhead. -/
structure ResidentSizes where
  issue : ℕ
  recordFacts : ℕ
  partitionFacts : ℕ
  treeWalk : ℕ
  treeManifest : ℕ
  summary : ℕ
  edge : ℕ
  synopsis : ℕ
  fieldSynopsis : ℕ
  projection : ℕ
  childEntry : ℕ
  graphChunk : ℕ
  kernel : ℕ

/-- The native graph library: its limits, and what it makes of encoded bytes for a
number of nodes and a connectivity. -/
structure NativeGraph where
  maxNodes : ℕ
  headerBytes : ℕ
  encodedBound : ℕ → ℕ → Option ℕ
  decodeBound : ℕ → ℕ → ℕ → Except ErrorKind ℕ
  validRouting : VectorData → Bool
  decode : Bytes → ℕ → ℕ → Except ErrorKind Unit

/-- A decoded key of the index range: one of the index; the Manifest and the build metadata
that may survive publication; or the workspace and the schedule of a build, which may not. -/
inductive ScannedKey
  | owned (key : LogicalKey)
  | metadata
  | buildWork

structure Auditor where
  index : Index
  logicalIndexId : ℕ
  graph : LocalGraph
  native : NativeGraph
  sizes : ResidentSizes
  treeKeyHash : TreeKey → Bytes
  entryFingerprint : Bytes → Bytes
  centroidFingerprint : VectorData → Bytes
  encodeEntry : LeafEntry → Except Error Bytes
  decodeAllocator : Bytes → Option ℕ
  decodeKey : Bytes → Option ScannedKey
  decodeValue : (key : LogicalKey) → Bytes → Option key.ValueOf
  decodeMetadata : Bytes → Bytes → Bool

/-! ### Requests -/

abbrev AuditM := Audit VerifyIssue Note ErrorKind

def truncated : AuditM Bool := Audit.truncated

/-- Charges one visited pair, also a malformed one. -/
def chargeObject : AuditM Unit := perform .chargeObject

def chargeMemory (bytes : ℕ) : AuditM Unit := perform (.chargeMemory bytes)

def releaseMemory (bytes : ℕ) : AuditM Unit := perform (.releaseMemory bytes)

/-- Work that is admitted only if so much memory is left. -/
def requireMemory (bytes : ℕ) : AuditM Unit := perform (.requireMemory bytes)

def stop : AuditM Unit := perform .stop

def note (n : Note) : AuditM Unit := perform (.note n)

/-- Appends one redacted issue.  A finding without a Tree Key or partition has the zero
hash and the root. -/
def Auditor.issue (a : Auditor) (kind : VerifyIssueKind) (treeKey : Option TreeKey)
    (partition : Option PartitionKey) (recordId : Option RecordId) : AuditM Unit :=
  perform (.issue (a.sizes.issue + recordId.elim 0 List.length)
    ⟨kind, a.logicalIndexId, treeKey.elim (List.replicate 32 0) a.treeKeyHash,
      partition.getD rootPartition, recordId⟩)

/-- Whether maintenance can advance a partition. -/
def isActionable (m : IndexManifest) (partition : PartitionKey) (header : PartitionHeader) : Bool :=
  match header.state with
  | .ready => decide (m.maxEntries header.level < header.entryCount) ||
      (decide (partition ≠ rootPartition) &&
        decide (header.entryCount < m.minPartitionEntries header.level))
  | .splitting | .drainingSplit | .merging => true
  | .receivingSplit => false

def Auditor.noteActionablePartition (a : Auditor) (partition : PartitionKey)
    (header : PartitionHeader) : AuditM Unit :=
  if isActionable a.index.toIndexManifest partition header then note .actionable else pure ()

end Verify
