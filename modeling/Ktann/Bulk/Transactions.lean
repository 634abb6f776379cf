/-
The transactions of a bulk build.

Each program is one attempt of a retry loop: it ends early with a result, or stages
writes for a commit.  Decisions over what was read are pure functions, so that a
program is a sequence of reads, one decision and its writes.

* `building`, `authorize`, `fence` — the checks shared by the programs;
* `loadClaim`, `commitChunk` — loading;
* `beginValidation`, `firstPage`, `repeatPage`, `activate` — publication;
* `workerClaim`, `accept`, `cleanup` — preparation;
* `enqueue`, `scheduleClaim`, `renew`, `finish` — the schedule;
* `dropStep` — abort and drop.
-/
import Ktann.Bulk.Values
import Ktann.Storage.Values

open TxnM (ensure ofExcept)

namespace Bulk

open BuildKey (Value)

/-- How an attempt ends: with a result and nothing to write, or with a commit. -/
inductive Ending (α : Type)
  | early (a : α)
  | commit (a : α)

/-- A plain read of one key, with no protection. -/
def get (k : BuildKey) : BuildTxn (Option (Value k)) := TxnM.read fun S => .ok (S.lookup k)

/-- A read that protects its key. -/
def getForUpdate (k : BuildKey) : BuildTxn (Option (Value k)) := TxnM.getForUpdate k

def put (k : BuildKey) (v : Value k) : BuildTxn Unit := TxnM.write (.put k v)

def delete (k : BuildKey) : BuildTxn Unit := TxnM.write (.delete k)

/-! ### Shared checks -/

def manifest : BuildTxn IndexLifecycle := do
  let m ← getForUpdate .manifest
  TxnM.orFail .indexNotFound m

def checkBuilding : IndexLifecycle → Except ErrorKind Unit
  | .building => .ok ()
  | .dropping => .error .indexDropping
  | .active => .error .invalidArgument

def building : BuildTxn Unit := do
  let m ← manifest
  ofExcept (checkBuilding m)

/-- A schedule admits its owner only; without one, only unscheduled work. -/
def checkAuthority : Option Token → Option BuildSchedule → Except ErrorKind Unit
  | none, none => .ok ()
  | some owner, some s => if s.owner = owner then .ok () else .error .bulkBuildSuperseded
  | none, some _ => .error .bulkBuildBusy
  | some _, none => .error .bulkBuildSuperseded

variable (authority : Option Token)

def authorize : BuildTxn Unit := do
  let s ← getForUpdate .schedule
  ofExcept (checkAuthority authority s)

variable (descriptor : BuildDescriptor)

/-- The request of the build is the given one. -/
def expectDescriptor : BuildTxn Unit := do
  let d ← get .descriptor
  ensure (d = some descriptor) .corruption

/-! ### Loading -/

/-- Takes a load epoch, or finds the load complete. -/
def decideClaim (initial : BuildLoad) (validation : Option BuildValidation) :
    Option BuildLoad → Except ErrorKind (Ending BuildLoad)
  | none => .ok (.commit initial)
  | some current =>
    if current.artifact ≠ initial.artifact then .error .invalidArgument
    else if current.complete then
      if validation.isSome then .error .invalidArgument else .ok (.early current)
    else if current.epoch + 1 < u64Bound then
      .ok (.commit { current with epoch := current.epoch + 1 })
    else .error .idExhausted

def loadClaim (initial : BuildLoad) : BuildTxn (Ending BuildLoad) := do
  building
  authorize authority
  expectDescriptor descriptor
  let current ← getForUpdate .load
  let validation ← get .validation
  match ← ofExcept (decideClaim initial validation current) with
  | .early load => pure (.early load)
  | .commit load => do
    put .load load
    pure (.commit load)

/-- A chunk needs its exact predecessor; its exact successor is already there. -/
def decideChunk (before after : BuildLoad) : Option BuildLoad → Except ErrorKind (Ending Unit)
  | none => .error .corruption
  | some current =>
    if current = after then .ok (.early ())
    else if current.artifact ≠ before.artifact then .error .corruption
    else if current.epoch ≠ before.epoch then .error .bulkBuildSuperseded
    else if current ≠ before then .error .corruption
    else .ok (.commit ())

def putEntries (entries : List Entry) : BuildTxn Unit := entries.forM fun e => put (.data e.1) e.2

def commitChunk (before after : BuildLoad) (entries : List Entry) : BuildTxn (Ending Unit) := do
  building
  authorize authority
  let current ← getForUpdate .load
  match ← ofExcept (decideChunk before after current) with
  | .early _ => pure (.early ())
  | .commit _ => do
    put .load after
    putEntries entries
    pure (.commit ())

/-! ### Publication -/

variable (state : BuildWorkspace)

/-- Validation starts from a complete load of the accepted artifact. -/
def decideValidation : Option BuildLoad → Except ErrorKind BuildLoad
  | none => .error .bulkBuildBusy
  | some load =>
    if load.complete = false then .error .bulkBuildBusy
    else
      match state.serving with
      | none => .error .invalidArgument
      | some serving => if load.artifact = serving.manifest then .ok load
        else .error .invalidArgument

def beginValidation (A : Artifacts) (authority : Option Token) (descriptor : BuildDescriptor)
    (state : BuildWorkspace) : BuildTxn (Ending BuildValidation) := do
  building
  authorize authority
  let workspace ← getForUpdate .workspace
  ensure (workspace = some state) .bulkBuildSuperseded
  expectDescriptor descriptor
  let current ← getForUpdate .load
  let load ← ofExcept (decideValidation state current)
  let current : Option BuildValidation ← getForUpdate .validation
  match current with
  | some proof => pure (.early proof)
  | none => do
    let proof : BuildValidation := ⟨load.artifact, [], 0, A.prefixDigest load.artifact 0, false⟩
    put .validation proof
    pure (.commit proof)

/-- The workspace still has the owner and the artifact of `state`, and no failure. -/
def sameOwner : Option BuildWorkspace → Bool
  | none => false
  | some w => w.token = state.token ∧ w.serving = state.serving ∧ w.failure = none

/-- The load of the accepted artifact is complete. -/
def loadedFor : Option BuildLoad → Bool
  | none => false
  | some load => load.complete ∧ some load.artifact = state.serving.map PreparedArtifact.manifest

/-- Binds validation and activation to one completed inventory and owner. -/
def fence : BuildTxn Unit := do
  building
  let workspace ← getForUpdate .workspace
  ensure (sameOwner state workspace = true) .corruption
  let load ← getForUpdate .load
  ensure (loadedFor state load = true) .corruption

/-- A reader of an artifact that has yielded `position` pairs. -/
structure Reader where
  artifact : ArtifactManifest
  position : ℕ
  deriving DecidableEq

/-- Compares stored pairs with a stream, and returns the rest of the stream. -/
def comparePairs : List Entry → List Entry → Except ErrorKind (List Entry)
  | [], rest => .ok rest
  | _ :: _, [] => .error .corruption
  | e :: items, expected :: rest =>
    if expected = e then comparePairs items rest else .error .corruption

/-- The proof after one page; the last page must exhaust the stream. -/
def verifyPage (A : Artifacts) (reader : Reader) (before : BuildValidation) (next : Option Bytes)
    (items : List Entry) : Except ErrorKind (Reader × BuildValidation) := do
  let rest ← comparePairs items ((A.entries reader.artifact).drop reader.position)
  if next.isNone ∧ rest ≠ [] then .error .corruption
  else
    let position := reader.position + items.length
    .ok (⟨reader.artifact, position⟩,
      { before with
        entries := before.entries + items.length
        prefixSha256 := A.prefixDigest reader.artifact position
        cursor := next.getD []
        complete := next.isNone })

/-- The proof a page continues from. -/
def expectProof (before : BuildValidation) : Option BuildValidation → Except ErrorKind Unit
  | none => .error .corruption
  | some current => if current = before then .ok () else .error .bulkBuildSuperseded

/-- The first attempt of a page: it scans and compares.  Where the page ends is the
choice of the limits. -/
def firstPage (A : Artifacts) (authority : Option Token) (state : BuildWorkspace) (reader : Reader)
    (before : BuildValidation) (next : Option Bytes) :
    BuildTxn (Ending (Reader × BuildValidation)) := do
  fence state
  authorize authority
  let current ← getForUpdate .validation
  ofExcept (expectProof before current)
  let verified ← TxnM.read fun S =>
    verifyPage A reader before next (scanData S before.cursor next)
  put .validation verified.2
  pure (.commit verified)

/-- A later attempt of a page, which was compared before. -/
def repeatPage (reader : Reader) (before after : BuildValidation) :
    BuildTxn (Ending (Reader × BuildValidation)) := do
  fence state
  authorize authority
  let current ← getForUpdate .validation
  if current = some after then pure (.early (reader, after))
  else do
    ofExcept (expectProof before current)
    put .validation after
    pure (.commit (reader, after))

/-- Makes the index visible, once its proof is complete. -/
def activate (proof : BuildValidation) : BuildTxn (Ending Unit) := do
  let current ← manifest
  if current = .active then pure (.early ())
  else do
    fence state
    authorize authority
    let stored ← getForUpdate .validation
    ensure (proof.complete = true ∧ stored = some proof) .corruption
    put .manifest .active
    pure (.commit ())

/-! ### Preparation -/

variable (options : BulkWorkerOptions)

/-- The workspace of the next attempt, which keeps accepted outputs. -/
def decideWorkspace (hardLimits : HardLimits) (token : Token) :
    Option BuildWorkspace → Except ErrorKind BuildWorkspace
  | none => .ok ⟨options, hardLimits, token, 1, none, none, none⟩
  | some w =>
    if w.options ≠ options ∨ w.hardLimits ≠ hardLimits then .error .invalidArgument
    else
      match w.failure with
      | some kind => .error kind
      | none =>
        if w.epoch + 1 < u64Bound then .ok { w with epoch := w.epoch + 1 } else .error .idExhausted

def workerClaim (hardLimits : HardLimits) (token : Token) : BuildTxn (Ending BuildWorkspace) := do
  building
  authorize authority
  expectDescriptor descriptor
  let current ← getForUpdate .workspace
  let state ← ofExcept (decideWorkspace options hardLimits token current)
  let validation ← get .validation
  ensure (validation = none) .bulkBuildSuperseded
  put .workspace state
  pure (.commit state)

/-- A workspace change needs its exact predecessor. -/
def decideAccept (before after : BuildWorkspace) :
    Option BuildWorkspace → Except ErrorKind (Ending Unit)
  | none => .error .corruption
  | some current =>
    if current = after then .ok (.early ())
    else if current ≠ before then .error .bulkBuildSuperseded
    else .ok (.commit ())

def accept (before after : BuildWorkspace) : BuildTxn (Ending Unit) := do
  building
  authorize authority
  let current ← getForUpdate .workspace
  match ← ofExcept (decideAccept before after current) with
  | .early _ => pure (.early ())
  | .commit _ => do
    put .workspace after
    pure (.commit ())

/-- Failures that end a build; others leave it resumable. -/
def terminalFailure : ErrorKind → Bool
  | .corruption | .invalidArgument | .limitExceeded | .other | .unsupportedFormat | .idExhausted
  | .recordAlreadyExists | .transactionTooLarge => true
  | _ => false

/-- Removes the workspace of an index that is no longer Building. -/
def cleanup : BuildTxn (Ending Unit) := do
  let m : Option IndexLifecycle ← getForUpdate .manifest
  ensure (m ≠ some .building) .invalidArgument
  let current : Option BuildWorkspace ← getForUpdate .workspace
  match current with
  | none => pure (.early ())
  | some w => do
    ensure (w = state) .corruption
    delete .workspace
    pure (.commit ())

/-! ### The schedule -/

def checkQueued : Option BuildWorkspace → Except ErrorKind Unit
  | none => .ok ()
  | some w =>
    if w.options ≠ options then .error .invalidArgument
    else
      match w.failure with
      | some kind => .error kind
      | none => .ok ()

def enqueue : BuildTxn (Ending Unit) := do
  building
  let workspace ← getForUpdate .workspace
  ofExcept (checkQueued options workspace)
  let current : Option BuildSchedule ← getForUpdate .schedule
  match current with
  | some s => do
    ensure (s.options = options) .invalidArgument
    pure (.early ())
  | none => do
    put .schedule ⟨options, unclaimed, 0⟩
    pure (.commit ())

def scheduleClaim (owner : Token) (now lease : ℕ) : BuildTxn (Ending (Option BuildSchedule)) := do
  let current : Option BuildSchedule ← getForUpdate .schedule
  match current with
  | none => pure (.early none)
  | some s =>
    if s.owner = owner then pure (.early (some s))
    else if now < s.expiresMs then pure (.early none)
    else do
      let claimed := { s with owner := owner, expiresMs := now + lease }
      put .schedule claimed
      pure (.commit (some claimed))

def renew (owner : Token) (expiresMs : ℕ) : BuildTxn (Ending Unit) := do
  let current : Option BuildSchedule ← getForUpdate .schedule
  match current with
  | none => TxnM.fail .bulkBuildSuperseded
  | some s => do
    ensure (s.owner = owner) .bulkBuildSuperseded
    put .schedule { s with expiresMs := expiresMs }
    pure (.commit ())

/-- Releases a schedule, or removes it when the build ended.  The result says
whether it was removed. -/
def finish (owner : Token) (success : Bool) (expiresMs : ℕ) : BuildTxn (Ending Bool) := do
  let workspace : Option BuildWorkspace ← get .workspace
  let failed := workspace.any fun w => w.failure.isSome
  let current : Option BuildSchedule ← getForUpdate .schedule
  match current with
  | none => pure (.early false)
  | some s => do
    ensure (s.owner = owner) .bulkBuildSuperseded
    if success || failed then do
      delete .schedule
      pure (.commit true)
    else do
      put .schedule { s with owner := unclaimed, expiresMs := expiresMs }
      pure (.commit false)

/-! ### Drops -/

def dropStep (aborting : Bool) (range : BuildKey → Bool) : BuildTxn (Ending Unit) := do
  let current : Option IndexLifecycle ← getForUpdate .manifest
  match current with
  | none => pure (.early ())
  | some .dropping => do
    TxnM.write (.clear fun k => range k && k.inIndexRange)
    pure (.commit ())
  | some m => do
    ensure (aborting = false ∨ m = .building) .invalidArgument
    put .manifest .dropping
    pure (.commit ())

end Bulk
