/-
Record Groups and Leaf Entries.

Record Groups come before every partition body.  An audit keeps one set of facts for
each Record ID, joins every Leaf Entry against them, and drops the facts it matched: a
second entry of the same record then has none to match.

* `RecordLedger.noteRecord`, `noteLocation`, `notePayload` — the groups;
* `RecordLedger.finalizeGroups` — groups that cannot join are reported and dropped;
* `RecordLedger.joinLeafEntry`, `finish` — the join, and the facts it left.
-/
import Ktann.Verify.Context

namespace Verify

/-- What is kept of one record until its Leaf Entry comes.  The fingerprint is absent
when the record cannot be quantized, which was reported. -/
structure RecordFacts where
  expected : Option Bytes
  location : Option RecordLocation
  hasRecord : Bool
  hasPayload : Bool
  charged : ℕ

structure RecordLedger where
  facts : OrderedMap RecordId fun _ => RecordFacts
  groupsFinalized : Bool

namespace RecordLedger

def new : RecordLedger := ⟨.empty, false⟩

variable (a : Auditor) (l : RecordLedger) (id : RecordId)

/-- The facts of a Record ID, which are inserted and charged on first sight; none when
that stopped the audit. -/
def factsOf : AuditM (Option (RecordLedger × RecordFacts)) :=
  match l.facts.lookup id with
  | some facts => pure (some (l, facts))
  | none => do
    let charged := a.sizes.recordFacts + id.length
    chargeMemory charged
    if ← truncated then pure none
    else
      let facts : RecordFacts := ⟨none, none, false, false, charged⟩
      pure (some ({ l with facts := l.facts.put id facts }, facts))

def set (facts : RecordFacts) : RecordLedger := { l with facts := l.facts.put id facts }

variable (record : VectorRecord)

def canonicalEntry : Except Error Bytes := do
  let routing ← a.index.preprocess record.vector
  let rabitq7 ← a.index.quantize routing
  a.encodeEntry ⟨id, record.fields, rabitq7⟩

/-- The fingerprint of the Leaf Entry that a mutation would have written. -/
def expectedEntry : AuditM (Option Bytes) :=
  match canonicalEntry a id record with
  | .error _ => do
    a.issue .recordProjectionMismatch none none (some id)
    pure none
  | .ok canonical => do
    chargeMemory canonical.length
    if ← truncated then pure none
    else do
      releaseMemory canonical.length
      pure (some (a.entryFingerprint canonical))

def noteRecord : AuditM RecordLedger := do
  let expected ← expectedEntry a id record
  match ← factsOf a l id with
  | none => pure l
  | some (l, facts) => pure (l.set id { facts with hasRecord := true, expected := expected })

def noteLocation (location : RecordLocation) : AuditM RecordLedger := do
  match ← factsOf a l id with
  | none => pure l
  | some (l, facts) =>
    if facts.location.isNone then do
      let delta := location.treeKey.length
      chargeMemory delta
      if ← truncated then pure l
      else
        pure (l.set id { facts with location := some location, charged := facts.charged + delta })
    else pure (l.set id { facts with location := some location })

def notePayload : AuditM RecordLedger := do
  match ← factsOf a l id with
  | none => pure l
  | some (l, facts) => pure (l.set id { facts with hasPayload := true })

/-- Reports what is wrong with one group.  The result says whether it can join. -/
def finalizeGroup (facts : RecordFacts) : AuditM Bool := do
  if ← truncated then pure true
  else do
    if !facts.hasRecord then do
      match facts.location with
      | some location => a.issue .membership (some location.treeKey) (some location.leaf) (some id)
      | none => pure ()
      if facts.hasPayload then a.issue .membership none none (some id)
    else if facts.location.isNone then a.issue .membership none none (some id)
    let healthy := facts.hasRecord && facts.location.isSome
    if !healthy then releaseMemory facts.charged
    pure healthy

/-- The groups that cannot join. -/
def unhealthyGroups (a : Auditor) :
    List (Sigma fun _ : RecordId => RecordFacts) → AuditM (List RecordId)
  | [] => pure []
  | ⟨id, facts⟩ :: rest => do
    let healthy ← finalizeGroup a id facts
    let dropped ← unhealthyGroups a rest
    pure (if healthy then dropped else id :: dropped)

/-- Ends the range of the groups, the first time it is called. -/
def finalizeGroups : AuditM RecordLedger := do
  if l.groupsFinalized then pure l
  else do
    let dropped ← unhealthyGroups a l.facts.entries
    pure ⟨l.facts.clear fun id => dropped.contains id, true⟩

def joinLeafEntry (treeKey : TreeKey) (partition : PartitionKey) (id : RecordId)
    (rawValue : Bytes) : AuditM RecordLedger :=
  match l.facts.lookup id with
  | none => do
    a.issue .membership (some treeKey) (some partition) (some id)
    pure l
  | some facts => do
    let named := facts.location.any fun location =>
      location.treeKey = treeKey && location.leaf = partition
    if !named then do
      a.issue .membership (some treeKey) (some partition) (some id)
      pure l
    else do
      if facts.expected.any fun expected => a.entryFingerprint rawValue ≠ expected then
        a.issue .recordProjectionMismatch (some treeKey) (some partition) (some id)
      releaseMemory facts.charged
      pure { l with facts := l.facts.erase id }

/-- Reports the facts that no Leaf Entry matched. -/
def finish : AuditM Unit :=
  Audit.forEach (fun (entry : Sigma fun _ : RecordId => RecordFacts) =>
    match entry.2.location with
    | some location =>
      a.issue .membership (some location.treeKey) (some location.leaf) (some entry.1)
    | none => pure ()) l.facts.entries

end RecordLedger

end Verify
