/-
One audit of one snapshot.

The pairs of the index range are decoded page by page and handed to the three ledgers.
A limit that is reached ends the scan, and then nothing is finalized: the part that was
not visited could contradict what the ledgers hold.

* `processItem`, `scanPages`, `scanIndex` — the scan;
* `verify` — the report of one audit;
* `verify_truncated` — **a truncated audit invents nothing**.
-/
import Ktann.Verify.Graphs
import Ktann.Verify.Topology

namespace Verify

/-! ### Items -/

def treeOf : LogicalKey → Option TreeKey
  | .record _ | .location _ | .payload _ => none
  | .treeManifest t | .header t _ | .synopsis t _ | .state t _ | .centroid t _ | .leafEntry t _ _
  | .childEntry t _ _ | .graphDescriptor t _ | .graphChunk t _ _ => some t

def partitionOf : LogicalKey → Option PartitionKey
  | .record _ | .location _ | .payload _ | .treeManifest _ => none
  | .header _ p | .synopsis _ p | .state _ p | .centroid _ p | .leafEntry _ p _ | .childEntry _ p _
  | .graphDescriptor _ p | .graphChunk _ p _ => some p

def recordOf : LogicalKey → Option RecordId
  | .record id | .location id | .payload id | .leafEntry _ _ id => some id
  | _ => none

def ownerOf (key : LogicalKey) : Option (TreeKey × PartitionKey) :=
  match treeOf key, partitionOf key with
  | some t, some p => some (t, p)
  | _, _ => none

/-- Whether a key comes after every Record Group and ends their range. -/
def endsGroups : LogicalKey → Bool
  | .treeManifest _ | .header _ _ | .synopsis _ _ | .state _ _ | .centroid _ _ | .leafEntry _ _ _
  | .childEntry _ _ _ => true
  | _ => false

structure Ledgers where
  records : RecordLedger
  topology : TopologyLedger
  graphs : GraphLedger

variable (a : Auditor)

/-- Hands one decoded object to its ledger. -/
def dispatch (l : Ledgers) (key : LogicalKey) (value : key.ValueOf) (rawValue : Bytes) :
    AuditM Ledgers :=
  match key, value with
  | .record id, record => do
    let records ← l.records.noteRecord a id record
    pure { l with records := records }
  | .location id, location => do
    let records ← l.records.noteLocation a id location
    pure { l with records := records }
  | .payload id, _ => do
    let records ← l.records.notePayload a id
    pure { l with records := records }
  | .treeManifest t, manifest => do
    let topology ← l.topology.noteTreeManifest a t manifest
    pure { l with topology := topology }
  | .header t p, header => do
    let topology ← l.topology.absorbHeader a t p header
    pure { l with topology := topology }
  | .synopsis t p, synopsis => do
    let topology ← l.topology.absorbSynopsis a t p synopsis
    pure { l with topology := topology }
  | .state t p, transition => do
    let topology ← l.topology.absorbState a t p transition
    pure { l with topology := topology }
  | .centroid t p, _ => do
    let topology ← l.topology.absorbCentroid a t p
    pure { l with topology := topology }
  | .leafEntry t p id, entry => do
    let (topology, records) ← l.topology.absorbLeafEntry a l.records t p id entry rawValue
    pure { l with topology := topology, records := records }
  | .childEntry t p child, _ => do
    let topology ← l.topology.absorbChildEntry a t p child
    pure { l with topology := topology }
  | .graphDescriptor _ _, _ | .graphChunk _ _ _, _ => pure l

def takeObject (l : Ledgers) (key : LogicalKey) (value : key.ValueOf) (rawValue : Bytes) :
    AuditM Ledgers := do
  let graphs ← l.graphs.observe a key value (ownerOf key)
  let l := { l with graphs := graphs }
  if ← truncated then pure l
  else do
    note (.object (some ⟨key, value⟩))
    let records ← if endsGroups key then l.records.finalizeGroups a else pure l.records
    dispatch a { l with records := records } key value rawValue

/-- Decodes one scanned pair. -/
def processItem (l : Ledgers) (item : Bytes × Bytes) : AuditM Ledgers :=
  match a.decodeKey item.1 with
  | none => do
    a.issue .invalidEncoding none none none
    pure l
  | some .metadata => do
    if a.decodeMetadata item.1 item.2 then note (.object none)
    else a.issue .invalidEncoding none none none
    pure l
  | some .buildWork => do
    if a.decodeMetadata item.1 item.2 then note (.object none)
    a.issue .invalidEncoding none none none
    pure l
  | some (.owned key) =>
    match a.decodeValue key item.2 with
    | none => do
      a.issue .invalidEncoding (treeOf key) (partitionOf key) (recordOf key)
      pure l
    | some value => takeObject a l key value item.2

/-! ### The scan -/

/-- What one backend transaction reads: the namespace allocator, and the index range in
the pages the backend makes of it. -/
structure Snapshot where
  allocator : Option Bytes
  pages : List (List (Bytes × Bytes))

/-- The Logical Index ID was allocated. -/
def checkAllocator (s : Snapshot) : AuditM Unit := do
  chargeObject
  if ← truncated then pure ()
  else
    match s.allocator with
    | none => a.issue .reachability none none none
    | some bytes =>
      match a.decodeAllocator bytes with
      | none => a.issue .invalidEncoding none none none
      | some highWater => do
        note (.object none)
        if highWater < a.logicalIndexId then a.issue .countMismatch none none none

def scanItems (a : Auditor) : List (Bytes × Bytes) → Ledgers → AuditM Ledgers
  | [], l => pure l
  | item :: rest, l => do
    chargeObject
    if ← truncated then pure l
    else do
      let l ← processItem a l item
      scanItems a rest l

def scanPages (a : Auditor) : List (List (Bytes × Bytes)) → Ledgers → AuditM Ledgers
  | [], l => pure l
  | page :: rest, l => do
    if ← truncated then pure l
    else do
      let pageBytes := (page.map fun item => item.1.length + item.2.length).sum
      chargeMemory pageBytes
      let l ← scanItems a page l
      releaseMemory pageBytes
      scanPages a rest l

/-- Scans the index range and finalizes the ledgers, unless a limit was reached. -/
def scanIndex (s : Snapshot) : AuditM Unit := do
  let l ← scanPages a s.pages ⟨.new, .new, .new⟩
  if ← truncated then pure ()
  else do
    l.graphs.finish a
    if ← truncated then pure ()
    else do
      let records ← l.records.finalizeGroups a
      l.topology.finish a
      if ← truncated then pure ()
      else records.finish a

def audit (s : Snapshot) : AuditM Unit := do
  checkAllocator a s
  scanIndex a s

/-- The limits of an audit; an absent one is no limit. -/
structure VerifyOptions where
  objectLimit : Option ℕ
  issueLimit : Option ℕ
  memoryLimitBytes : Option ℕ

def VerifyOptions.unlimited : VerifyOptions := ⟨none, none, none⟩

/-- The ledger of a fresh audit. -/
def VerifyOptions.ledger (options : VerifyOptions) : Ledger VerifyIssue Note :=
  .start options.objectLimit options.issueLimit options.memoryLimitBytes

structure VerifyReport where
  complete : Bool
  issues : List VerifyIssue
  objects : VerifyObjectCounts
  topology : VerifyTopology

def report (l : Ledger VerifyIssue Note) : VerifyReport :=
  ⟨!l.truncated, l.issues, (counters l.notes).1, (counters l.notes).2⟩

/-- Runs the bounded audit of one index in one snapshot. -/
def verify (options : VerifyOptions) (s : Snapshot) : Except ErrorKind VerifyReport := do
  let (_, l) ← (audit a s).run options.ledger
  pure (report l)

lemma verify_eq_ok {a : Auditor} {options : VerifyOptions} {s : Snapshot} {r : VerifyReport} :
    verify a options s = .ok r ↔
      ∃ l, (audit a s).run options.ledger = .ok ((), l) ∧ r = report l := by
  constructor
  · intro h
    obtain ⟨⟨_, l⟩, hrun, hr⟩ := bind_eq_ok.mp h
    cases hr
    exact ⟨l, hrun, rfl⟩
  · rintro ⟨l, hrun, rfl⟩
    exact bind_eq_ok.mpr ⟨((), l), hrun, rfl⟩

lemma VerifyOptions.ledger_unlimited : VerifyOptions.unlimited.ledger.Unlimited :=
  ⟨rfl, rfl, rfl, rfl⟩

/-- **A truncated audit invents nothing**: what it reports, the audit without limits
reports first, and a complete audit reports exactly that. -/
theorem verify_truncated {a : Auditor} {options : VerifyOptions} {s : Snapshot}
    {r : VerifyReport} (h : verify a options s = .ok r) :
    (r.complete = false → ∀ full, verify a .unlimited s = .ok full → r.issues <+: full.issues) ∧
    (r.complete = true → ∃ full, verify a .unlimited s = .ok full ∧ full.complete = true ∧
      full.issues = r.issues) := by
  obtain ⟨l, hrun, rfl⟩ := verify_eq_ok.mp h
  have hissues : VerifyOptions.unlimited.ledger.issues = options.ledger.issues := rfl
  refine ⟨fun _ full hfull => ?_, fun hcomplete => ?_⟩
  · obtain ⟨u, hrun', rfl⟩ := verify_eq_ok.mp hfull
    exact Audit.run_cut VerifyOptions.ledger_unlimited hissues hrun hrun'
  · have hopen : l.truncated = false := by simpa [report] using hcomplete
    obtain ⟨u, hrun', hu, hsame⟩ :=
      Audit.run_complete VerifyOptions.ledger_unlimited hissues hrun hopen
    refine ⟨report u, verify_eq_ok.mpr ⟨u, hrun', rfl⟩, ?_, hsame⟩
    simp [report, hu.open_]

/-! ### A worked audit -/

/-- An auditor of the line index, whose snapshots hold Record Locations only: a key of
one byte is that record's, and a value is the Tree Key of its leaf. -/
def lineAuditor : Auditor where
  index := Index.line
  logicalIndexId := 1
  graph := ⟨1, 4, 8, [], .l2, 1, id, fun _ => [], fun _ _ => .ok []⟩
  native := ⟨8, 0, fun _ _ => none, fun _ _ _ => .ok 0, fun _ => true, fun _ _ _ => .ok ()⟩
  sizes := ⟨1, 1, 1, 1, 1, 1, 1, 1, 1, 1, 1, 1, 1⟩
  treeKeyHash := id
  entryFingerprint := id
  centroidFingerprint _ := []
  encodeEntry _ := .ok []
  decodeAllocator _ := none
  decodeKey
    | [b] => some (.owned (.location [b]))
    | _ => none
  decodeValue
    | .location _, bytes => some ⟨bytes, 1⟩
    | _, _ => none
  decodeMetadata _ _ := false

/-- No allocator, a key that does not decode, and a Location without its record. -/
def strayLocation : Snapshot := ⟨none, [[([], []), ([5], [7])]]⟩

/-- A run that was cut at two issues, and a whole one with three. -/
def cutAtTwo : Except ErrorKind VerifyReport → Except ErrorKind VerifyReport → Bool
  | .ok r, .ok full => r.complete = false ∧ r.issues.length = 2 ∧ full.issues.length = 3
  | _, _ => false

theorem verify_truncated_stray : ∃ r full, verify lineAuditor ⟨none, some 2, none⟩
    strayLocation = .ok r ∧ verify lineAuditor .unlimited strayLocation = .ok full ∧
    r.complete = false ∧ r.issues.length = 2 ∧ full.issues.length = 3 ∧
    r.issues <+: full.issues := by
  have hcut : cutAtTwo (verify lineAuditor ⟨none, some 2, none⟩ strayLocation)
      (verify lineAuditor .unlimited strayLocation) = true := by
    decide +kernel
  cases hr : verify lineAuditor ⟨none, some 2, none⟩ strayLocation with
  | error e =>
    rw [hr] at hcut
    cases hcut
  | ok r =>
    cases hfull : verify lineAuditor .unlimited strayLocation with
    | error e =>
      rw [hr, hfull] at hcut
      cases hcut
    | ok full =>
      rw [hr, hfull] at hcut
      obtain ⟨hcomplete, hlength, hlength'⟩ := of_decide_eq_true hcut
      exact ⟨r, full, rfl, rfl, hcomplete, hlength, hlength',
        (verify_truncated hr).1 hcomplete full hfull⟩

end Verify
