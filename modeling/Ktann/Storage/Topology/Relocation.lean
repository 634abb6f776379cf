/-
Atomic Leaf Entry and Child Entry moves.

A batch reads each touched Header and each receiving Synopsis once, moves its
entries one by one, folds the count, epoch and Synopsis changes in memory in
move order, and writes each authority value back once.
-/
import Ktann.Storage.Topology.Discovery

open TxnM WriteTxn

/-- The protocol one batch of moves runs under. -/
inductive Movement
  | split
  | merge
  | refine
  deriving DecidableEq

namespace Movement

/-- The only source state a move is legal from. -/
def sourceState : Movement → PartitionState
  | split => .drainingSplit
  | merge => .merging
  | refine => .ready

/-- The only target state a move is legal into. -/
def targetState : Movement → PartitionState
  | split => .receivingSplit
  | merge | refine => .ready

end Movement

/-! ### Leaf Entries -/

structure LeafDrainEntry where
  source : PartitionKey
  entry : LeafEntry
  record : VectorRecord
  deriving DecidableEq

/-- The entries of one candidate batch that are still there, each with its
position's source. -/
def readDrainEntries (t : TreeKey) :
    List (PartitionKey × RecordId) → WriteTxn (List (Option LeafEntry))
  | [] => pure []
  | (source, id) :: rest => do
    let entry ← getLeafEntry t source id
    ensure (∀ e ∈ entry, e.recordId = id) .corrupt
    let entries ← readDrainEntries t rest
    pure (entry :: entries)

def readDrainLocations : List (Option LeafEntry) → WriteTxn (List (Option RecordLocation))
  | [] => pure []
  | none :: rest => do
    let locations ← readDrainLocations rest
    pure (none :: locations)
  | some entry :: rest => do
    let location ← getLocation entry.recordId
    let locations ← readDrainLocations rest
    pure (location :: locations)

/-- The verified candidate at one position; `none` when its entry is gone. -/
def drainSlot (S : Store) (t : TreeKey) (source : PartitionKey) (location : Option RecordLocation) :
    Option LeafEntry → Except Error (Option LeafDrainEntry)
  | none => .ok none
  | some entry =>
    if location = some ⟨t, source⟩ then
      match S.record entry.recordId with
      | some record =>
        if record.recordId = entry.recordId then .ok (some ⟨source, entry, record⟩)
        else .error .corrupt
      | none => .error .corrupt
    else .error .corrupt

/-- The verified candidates of a batch, position by position. -/
def drainSlots (S : Store) (t : TreeKey) :
    List (PartitionKey × RecordId) → List (Option LeafEntry) → List (Option RecordLocation) →
      Except Error (List (Option LeafDrainEntry))
  | (source, _) :: candidates, entry :: entries, location :: locations => do
    let slot ← drainSlot S t source location entry
    let slots ← drainSlots S t candidates entries locations
    .ok (slot :: slots)
  | _, _, _ => .ok []

/-- Re-reads one batch of leaf drain candidates, in input order.  Entries and
Locations are read for update, Records from the snapshot. -/
def readLeafDrainCandidates (t : TreeKey) (candidates : List (PartitionKey × RecordId)) :
    WriteTxn (List (Option LeafDrainEntry)) := do
  let entries ← readDrainEntries t candidates
  let locations ← readDrainLocations entries
  read fun S => drainSlots S t candidates entries locations

def distinctPartitions (partitions : List PartitionKey) : List PartitionKey :=
  partitions.dedup.insertionSort (· ≤ ·)

/-- Headers gathered for one batch. -/
abbrev HeaderMap := OrderedMap PartitionKey fun _ => PartitionHeader

/-- Synopses gathered for one batch, each with whether it changed. -/
abbrev SynopsisMap := OrderedMap PartitionKey fun _ => PartitionSynopsis × Bool

/-- Reads every touched leaf's Header for update and checks its roles. -/
def readLeafHeaders (t : TreeKey) (sources targets : List PartitionKey) (movement : Movement) :
    List PartitionKey → HeaderMap → WriteTxn HeaderMap
  | [], headers => pure headers
  | p :: rest, headers => do
    let header ← requireHeader t p
    ensure (header.level = 1 ∧ (p ∈ sources → header.state = movement.sourceState) ∧
      (p ∈ targets → header.state = movement.targetState)) .corrupt
    readLeafHeaders t sources targets movement rest (headers.put p header)

/-- Reads every receiving leaf's Synopsis for update. -/
def readSynopses (t : TreeKey) : List PartitionKey → SynopsisMap → WriteTxn SynopsisMap
  | [], synopses => pure synopses
  | p :: rest, synopses => do
    let synopsis ← requireSynopsis t p
    readSynopses t rest (synopses.put p (synopsis, false))

def moveLeafEntries (t : TreeKey) : List (LeafDrainEntry × PartitionKey) → WriteTxn Unit
  | [] => pure ()
  | (drain, target) :: rest => do
    insertUnique (.leafEntry t target drain.entry.recordId) drain.entry
    delete (.leafEntry t drain.source drain.entry.recordId)
    put (.location drain.entry.recordId) ⟨t, target⟩
    moveLeafEntries t rest

def foldLeafMoves (ix : Index) : List (LeafDrainEntry × PartitionKey) → HeaderMap × SynopsisMap →
      Except Error (HeaderMap × SynopsisMap)
  | [], acc => .ok acc
  | (drain, target) :: rest, (headers, synopses) => do
    let source ← (headers.lookup drain.source).elim (.error .corrupt) .ok
    let removed ← source.removedEntry
    let headers := headers.put drain.source removed
    let receiver ← (headers.lookup target).elim (.error .corrupt) .ok
    let added ← receiver.addedEntry
    let headers := headers.put target added
    let synopsis ← (synopses.lookup target).elim (.error .corrupt) .ok
    let expanded ← synopsis.1.expand ix drain.entry.fields
    foldLeafMoves ix rest (headers, synopses.put target (expanded.1, synopsis.2 || expanded.2))

def headerWrites (t : TreeKey) (headers : HeaderMap) : List (Write ValueOf) :=
  headers.entries.map fun e => .put (.header t e.1) e.2

def synopsisWrites (t : TreeKey) (synopses : SynopsisMap) : List (Write ValueOf) :=
  synopses.entries.filterMap fun e => if e.2.2 then some (.put (.synopsis t e.1) e.2.1) else none

/-- Moves one batch of verified leaf entries to their chosen targets; returns how
many moved. -/
def relocateLeafEntries (ix : Index) (t : TreeKey) (moves : List (LeafDrainEntry × PartitionKey))
    (movement : Movement) : WriteTxn ℕ :=
  if moves.isEmpty then pure 0
  else do
    let sources := moves.map fun m => m.1.source
    let targets := moves.map Prod.snd
    ensure (∀ m ∈ moves, m.1.source ≠ m.2) .corrupt
    let headers ← readLeafHeaders t sources targets movement
      (distinctPartitions (sources ++ targets)) OrderedMap.empty
    let synopses ← readSynopses t (distinctPartitions targets) OrderedMap.empty
    moveLeafEntries t moves
    let folded ← ofExcept (foldLeafMoves ix moves (headers, synopses))
    stageAll (headerWrites t folded.1)
    stageAll (synopsisWrites t folded.2)
    pure moves.length

/-! ### Child Entries -/

/-- Re-reads one batch of internal drain candidates for update, in input order;
`none` when an entry is gone. -/
def readChildDrainCandidates (t : TreeKey) (source : PartitionKey) :
    List PartitionKey → WriteTxn (List (Option ChildEntry))
  | [] => pure []
  | child :: rest => do
    let entry ← getChildEntry t source child
    ensure (∀ e ∈ entry, e.child = child) .corrupt
    let entries ← readChildDrainCandidates t source rest
    pure (entry :: entries)

def readTargetHeaders (t : TreeKey) (movement : Movement) :
    List PartitionKey → WriteTxn (List (PartitionKey × PartitionHeader))
  | [] => pure []
  | p :: rest => do
    let header ← requireHeader t p
    ensure (header.state = movement.targetState) .corrupt
    let headers ← readTargetHeaders t movement rest
    pure ((p, header) :: headers)

def moveChildEntries (t : TreeKey) (source : PartitionKey) :
    List (ChildEntry × PartitionKey) → WriteTxn Unit
  | [] => pure ()
  | (entry, target) :: rest => do
    insertUnique (.childEntry t target entry.child) entry
    delete (.childEntry t source entry.child)
    moveChildEntries t source rest

def removedEntries : ℕ → PartitionHeader → Except Error PartitionHeader
  | 0, header => .ok header
  | n + 1, header => do removedEntries n (← header.removedEntry)

/-- A Header after several additions. -/
def addedEntries : ℕ → PartitionHeader → Except Error PartitionHeader
  | 0, header => .ok header
  | n + 1, header => do addedEntries n (← header.addedEntry)

def putTargetHeaders (t : TreeKey) (moves : List (ChildEntry × PartitionKey)) :
    List (PartitionKey × PartitionHeader) → WriteTxn Unit
  | [] => pure ()
  | (target, header) :: rest => do
    let added ← ofExcept (addedEntries (moves.countP fun m => m.2 = target) header)
    put (.header t target) added
    putTargetHeaders t moves rest

/-- The size bound of a drain on a graph index, whose source and one receiver are
rewritten together. -/
def graphDrainFits (ix : Index) (movement : Movement) (moved : ℕ) (source : PartitionHeader) :
    List (PartitionKey × PartitionHeader) → Bool
  | [(_, target)] =>
    let ceiling := ix.maxInternalPartitionEntries + 2
    let sourceLimit :=
      if movement = .merge then ix.minInternalPartitionEntries - 1 else ceiling
    source.entryCount ≤ sourceLimit && target.entryCount + moved ≤ ceiling &&
      (movement ≠ .split || source.entryCount + target.entryCount ≤ ceiling)
  | _ => false

/-- Moves one batch of verified Child Entries from a draining source to their
chosen targets; returns how many moved. -/
def relocateChildEntries (ix : Index) (t : TreeKey) (source : PartitionKey)
    (moves : List (ChildEntry × PartitionKey)) (movement : Movement) : WriteTxn ℕ :=
  if moves.isEmpty then pure 0
  else do
    let targets ← readTargetHeaders t movement (distinctPartitions (moves.map Prod.snd))
    let header ← requireHeader t source
    ensure (header.state = movement.sourceState) .corrupt
    ensure (∀ target ∈ targets, target.2.level = header.level) .corrupt
    ensure (ix.localGraph = true → graphDrainFits ix movement moves.length header targets = true)
      (Error.new .limitExceeded)
    moveChildEntries t source moves
    let removed ← ofExcept (removedEntries moves.length header)
    put (.header t source) removed
    putTargetHeaders t moves targets
    pure moves.length
