/-
Any number of tasks on one build.

A task is a sequence of transactions and local work; its phase is where it stands.  A
transaction reads a snapshot that is at least as new as the last thing its task did,
commits only onto a store that agrees on what it protected, may be aborted, and may
leave its task uncertain about its commit.  Local work may fail.

* `Attempt` — one attempt of a transaction on the log of commits;
* `LoadStep`, `PublishStep`, `RunStep`, `CompleteStep` — the tasks;
* `Reachable` — the states of a system of tasks, claims, drops and cleanups.
-/
import Ktann.Bulk.Stream

namespace Bulk

open BuildKey (Value)

/-! ### Attempts -/

/-- One commit: who made it, and the store it left. -/
structure Commit where
  actor : Actor
  store : BuildStore

/-- The commits so far, newest first. -/
abbrev Log := List Commit

/-- How an attempt turned out for its task. -/
inductive Outcome (α : Type)
  | value (a : α)
  | error (e : ErrorKind)
  | aborted (a : α)
  | unknown (a : α)

/-- What tasks are up to: the request, the artifacts, the options and limits, the
failures local work may have, and whether a commit may be uncertain. -/
structure Environment where
  artifacts : Artifacts
  descriptor : BuildDescriptor
  hardLimits : HardLimits
  budget : AdmissionBudget
  checkpointBytes : ℕ
  faults : ErrorKind → Prop
  uncertain : Prop

/-- A snapshot that a transaction may read after `seen` commits. -/
structure Snapshot (seen : ℕ) (log newer : Log) (snapshot : Commit) (older : Log) : Prop where
  split : log = newer ++ snapshot :: older
  recent : seen ≤ older.length + 1

/-- One attempt of a transaction: it fails or ends early on its snapshot, or its
commit succeeds, aborts or has an unknown outcome. -/
inductive Attempt {α : Type} (env : Environment) (actor : α → Actor) (m : BuildTxn (Ending α))
    (seen : ℕ) (log : Log) : Outcome α → Log → Prop
  | failed {newer older : Log} {snapshot : Commit} {e : ErrorKind}
      (hsnapshot : Snapshot seen log newer snapshot older)
      (hrun : m.run (Txn.start snapshot.store) = .error e) :
      Attempt env actor m seen log (.error e) log
  | ended {newer older : Log} {snapshot : Commit} {a : α} {s : Txn Value}
      (hsnapshot : Snapshot seen log newer snapshot older)
      (hrun : m.run (Txn.start snapshot.store) = .ok (.early a, s)) :
      Attempt env actor m seen log (.value a) log
  | committed {newer older : Log} {snapshot current : Commit} {a : α} {s : Txn Value}
      (hsnapshot : Snapshot seen log newer snapshot older)
      (hrun : m.run (Txn.start snapshot.store) = .ok (.commit a, s))
      (hcurrent : log.head? = some current)
      (hunchanged : ∀ c ∈ newer, ∀ k ∈ s.protectedKeys,
        c.store.lookup k = snapshot.store.lookup k) :
      Attempt env actor m seen log (.value a) (⟨actor a, s.onto current.store⟩ :: log)
  | aborted {newer older : Log} {snapshot : Commit} {a : α} {s : Txn Value}
      (hsnapshot : Snapshot seen log newer snapshot older)
      (hrun : m.run (Txn.start snapshot.store) = .ok (.commit a, s)) :
      Attempt env actor m seen log (.aborted a) log
  | lost {newer older : Log} {snapshot : Commit} {a : α} {s : Txn Value}
      (huncertain : env.uncertain) (hsnapshot : Snapshot seen log newer snapshot older)
      (hrun : m.run (Txn.start snapshot.store) = .ok (.commit a, s)) :
      Attempt env actor m seen log (.unknown a) log
  | landed {newer older : Log} {snapshot current : Commit} {a : α} {s : Txn Value}
      (huncertain : env.uncertain) (hsnapshot : Snapshot seen log newer snapshot older)
      (hrun : m.run (Txn.start snapshot.store) = .ok (.commit a, s))
      (hcurrent : log.head? = some current)
      (hunchanged : ∀ c ∈ newer, ∀ k ∈ s.protectedKeys,
        c.store.lookup k = snapshot.store.lookup k) :
      Attempt env actor m seen log (.unknown a) (⟨actor a, s.onto current.store⟩ :: log)

abbrev WorkerAttempt {α : Type} (env : Environment) (authority : Option Token)
    (m : BuildTxn (Ending α)) := Attempt env (fun _ => .worker authority) m

variable (env : Environment)

/-! ### Loading -/

/-- What a loader was called with. -/
structure LoadJob where
  artifact : ArtifactManifest
  options : BulkLoadOptions

/-- The limits of a load: those of the backend and of the call. -/
def LoadJob.budget (job : LoadJob) (env : Environment) : AdmissionBudget :=
  { env.budget with
    maxMutations := min env.budget.maxMutations job.options.maxMutations
    maxMutationBytes := min env.budget.maxMutationBytes job.options.maxBytes }

/-- The first checkpoint of an artifact. -/
def Environment.initialLoad (artifact : ArtifactManifest) : BuildLoad :=
  ⟨artifact, 1, 0, env.artifacts.prefixDigest artifact 0, false⟩

inductive LoadPhase
  | claiming
  | streaming (load : BuildLoad) (stream : Stream)
  | committing (before after : BuildLoad) (entries : List Entry) (stream : Stream)
  | done (result : Except ErrorKind Unit)

namespace LoadPhase

/-- A load needs room for a checkpoint and one pair. -/
def start (job : LoadJob) : LoadPhase :=
  if (job.budget env).maxMutations < 2 ∨ (job.budget env).maxMutationBytes = 0 then
    done (.error .invalidArgument)
  else claiming

/-- After a claim.  An uncertain claim grants no authority. -/
def onClaim (job : LoadJob) : Outcome BuildLoad → List LoadPhase
  | .value load =>
    [if load.complete then done (.ok ()) else streaming load (.start env.artifacts job.artifact)]
  | .error e => [done (.error e)]
  | .aborted _ => [claiming, done (.error .contentionExhausted)]
  | .unknown _ => [done (.error .commitOutcomeUnknown)]

/-- After a chunk was read: replay of a committed prefix writes nothing. -/
def onChunk (load : BuildLoad) (stream : Stream) (entries : List Entry) (complete : Bool) :
    LoadPhase :=
  if stream.consumed < load.entries ∨ (entries = [] ∧ complete = false) then streaming load stream
  else
    committing load
      { load with
        entries := load.entries + entries.length
        complete := complete
        prefixSha256 := stream.prefixSha256 } entries stream

/-- After a chunk's commit; its exact successor resolves an uncertain one. -/
def onCommit (before after : BuildLoad) (entries : List Entry) (stream : Stream) :
    Outcome Unit → List LoadPhase
  | .value _ => [if after.complete then done (.ok ()) else streaming after stream]
  | .error e => [done (.error e)]
  | .aborted _ => [committing before after entries stream, done (.error .contentionExhausted)]
  | .unknown _ => [committing before after entries stream, done (.error .commitOutcomeUnknown)]

end LoadPhase

inductive LoadStep (env : Environment) (authority : Option Token) (job : LoadJob) (seen : ℕ) :
    LoadPhase → Log → LoadPhase → Log → Prop
  | claim {log log' : Log} {o : Outcome BuildLoad} {p : LoadPhase}
      (attempt : WorkerAttempt env authority
        (loadClaim authority env.descriptor (env.initialLoad job.artifact)) seen log o log')
      (next : p ∈ LoadPhase.onClaim env job o) :
      LoadStep env authority job seen .claiming log p log'
  | chunk {log : Log} {load : BuildLoad} {stream stream' : Stream} {entries : List Entry}
      {complete : Bool}
      (read : nextChunk env.artifacts job.artifact load.entries load.prefixSha256 (job.budget env)
        env.checkpointBytes stream = .ok (stream', entries, complete)) :
      LoadStep env authority job seen (.streaming load stream) log
        (.onChunk load stream' entries complete) log
  | chunkFailed {log : Log} {load : BuildLoad} {stream : Stream} {e : ErrorKind}
      (read : nextChunk env.artifacts job.artifact load.entries load.prefixSha256 (job.budget env)
        env.checkpointBytes stream = .error e) :
      LoadStep env authority job seen (.streaming load stream) log (.done (.error e)) log
  | commit {log log' : Log} {before after : BuildLoad} {entries : List Entry} {stream : Stream}
      {o : Outcome Unit} {p : LoadPhase}
      (attempt : WorkerAttempt env authority (commitChunk authority before after entries) seen log o
        log')
      (next : p ∈ LoadPhase.onCommit before after entries stream o) :
      LoadStep env authority job seen (.committing before after entries stream) log p log'
  | fault {log : Log} {p : LoadPhase} {kind : ErrorKind} (hkind : env.faults kind) :
      LoadStep env authority job seen p log (.done (.error kind)) log

/-! ### Publication -/

inductive PublishPhase
  | reading
  | beginning (state : BuildWorkspace)
  | opening (state : BuildWorkspace) (proof : BuildValidation)
  | checking (state : BuildWorkspace) (reader : Reader) (before : BuildValidation)
  | repeating (state : BuildWorkspace) (reader : Reader) (before after : BuildValidation)
  | activating (state : BuildWorkspace) (proof : BuildValidation)
  | failing (state : BuildWorkspace) (kind : ErrorKind)
  | done (result : Except ErrorKind Unit)

namespace PublishPhase

/-- A publisher continues with a workspace that has an accepted artifact. -/
def onWorkspace : Option BuildWorkspace → PublishPhase
  | none => done (.error .bulkBuildBusy)
  | some w =>
    match w.failure with
    | some kind => done (.error kind)
    | none => if w.serving = none then done (.error .bulkBuildBusy) else beginning w

/-- What the first read decides. -/
def onRead (S : BuildStore) : PublishPhase :=
  match S.lookup .manifest with
  | none => done (.error .indexNotFound)
  | some .active => done (.ok ())
  | some .dropping => done (.error .indexDropping)
  | some .building => onWorkspace (S.lookup .workspace)

/-- A retry loop: the value continues, an error is recorded, other outcomes repeat. -/
def onOutcome {α : Type} (state : BuildWorkspace) (continue_ again : α → PublishPhase) :
    Outcome α → List PublishPhase
  | .value a => [continue_ a]
  | .error e => [failing state e]
  | .aborted a => [again a, failing state .contentionExhausted]
  | .unknown a => [again a, failing state .commitOutcomeUnknown]

variable (state : BuildWorkspace)

/-- A complete proof is activated. -/
def onProof (proof : BuildValidation) : PublishPhase :=
  if proof.complete then activating state proof else opening state proof

/-- The reader is taken to the proven prefix. -/
def onOpen (A : Artifacts) (state : BuildWorkspace) (proof : BuildValidation) : PublishPhase :=
  match state.serving with
  | none => failing state .corruption
  | some serving =>
    if proof.entries ≤ (A.entries serving.manifest).length ∧
        A.prefixDigest serving.manifest proof.entries = proof.prefixSha256 then
      checking state ⟨serving.manifest, proof.entries⟩ proof
    else failing state .corruption

def onPage (result : Reader × BuildValidation) : PublishPhase :=
  if result.2.complete then activating state result.2 else checking state result.1 result.2

/-- A publisher that found out that the index is Active is done. -/
def onActivate (proof : BuildValidation) : Outcome Unit → List PublishPhase
  | .value _ => [done (.ok ())]
  | .error e => [failing state e]
  | .aborted _ => [activating state proof, failing state .contentionExhausted]
  | .unknown _ => [done (.ok ()), activating state proof, failing state .commitOutcomeUnknown]

def state? : PublishPhase → Option BuildWorkspace
  | beginning state | opening state _ | checking state _ _ | repeating state _ _ _
  | activating state _ => some state
  | _ => none

end PublishPhase

/-- A failure is recorded for the exact claimed workspace; losing it is no error. -/
def failed (state : BuildWorkspace) (kind : ErrorKind) : BuildWorkspace :=
  { state with failure := some kind }

inductive PublishStep (env : Environment) (authority : Option Token) (seen : ℕ) :
    PublishPhase → Log → PublishPhase → Log → Prop
  | read {log newer older : Log} {snapshot : Commit}
      (hsnapshot : Snapshot seen log newer snapshot older) :
      PublishStep env authority seen .reading log (.onRead snapshot.store) log
  | begin {log log' : Log} {state : BuildWorkspace} {o : Outcome BuildValidation} {p : PublishPhase}
      (attempt : WorkerAttempt env authority
        (beginValidation env.artifacts authority env.descriptor state) seen log o log')
      (next : p ∈ PublishPhase.onOutcome state (.onProof state) (fun _ => .beginning state) o) :
      PublishStep env authority seen (.beginning state) log p log'
  | opened {log : Log} {state : BuildWorkspace} {proof : BuildValidation} :
      PublishStep env authority seen (.opening state proof) log
        (.onOpen env.artifacts state proof) log
  | page {log log' : Log} {state : BuildWorkspace} {reader : Reader} {before : BuildValidation}
      {limit : Option Bytes} {o : Outcome (Reader × BuildValidation)} {p : PublishPhase}
      -- A page ends past its start.
      (hlimit : ∀ n ∈ limit, before.cursor ≤ n ∧ n ≠ [])
      (attempt : WorkerAttempt env authority
        (firstPage env.artifacts authority state reader before limit) seen log o log')
      (next : p ∈ PublishPhase.onOutcome state (.onPage state)
        (fun verified => .repeating state verified.1 before verified.2) o) :
      PublishStep env authority seen (.checking state reader before) log p log'
  | again {log log' : Log} {state : BuildWorkspace} {reader : Reader}
      {before after : BuildValidation} {o : Outcome (Reader × BuildValidation)} {p : PublishPhase}
      (attempt : WorkerAttempt env authority (repeatPage authority state reader before after) seen
        log o log')
      (next : p ∈ PublishPhase.onOutcome state (.onPage state)
        (fun _ => .repeating state reader before after) o) :
      PublishStep env authority seen (.repeating state reader before after) log p log'
  | activate {log log' : Log} {state : BuildWorkspace} {proof : BuildValidation} {o : Outcome Unit}
      {p : PublishPhase}
      (attempt : WorkerAttempt env authority (Bulk.activate authority state proof) seen log o log')
      (next : p ∈ PublishPhase.onActivate state proof o) :
      PublishStep env authority seen (.activating state proof) log p log'
  | resumable {log : Log} {state : BuildWorkspace} {kind : ErrorKind}
      (hkind : terminalFailure kind = false) :
      PublishStep env authority seen (.failing state kind) log (.done (.error kind)) log
  | record {log log' : Log} {state : BuildWorkspace} {kind : ErrorKind} {o : Outcome Unit}
      {p : PublishPhase} (hkind : terminalFailure kind = true)
      (attempt : WorkerAttempt env authority (accept authority state (failed state kind)) seen log o
        log')
      (next : p ∈ [PublishPhase.failing state kind, .done (.error kind)]) :
      PublishStep env authority seen (.failing state kind) log p log'
  | fault {log : Log} {p : PublishPhase} {state : BuildWorkspace} {kind : ErrorKind}
      (hkind : env.faults kind) (hstate : p.state? = some state) :
      PublishStep env authority seen p log (.failing state kind) log
  | recover {log newer older : Log} {snapshot : Commit} {e : ErrorKind}
      (hsnapshot : Snapshot seen log newer snapshot older)
      (hactive : snapshot.store.lookup .manifest = some .active) :
      PublishStep env authority seen (.done (.error e)) log (.done (.ok ())) log

/-! ### Preparation -/

inductive RunPhase
  | claiming (token : Token)
  | forest (state : BuildWorkspace)
  | acceptingForest (before after : BuildWorkspace)
  | serving (state : BuildWorkspace)
  | acceptingServing (before after : BuildWorkspace)
  | loading (state : BuildWorkspace) (job : LoadJob) (phase : LoadPhase)
  | failing (state : BuildWorkspace) (kind : ErrorKind)
  | done (result : Except ErrorKind Unit)

namespace RunPhase

/-- The options are checked before anything is claimed. -/
def start (options : BulkWorkerOptions) (token : Token) : RunPhase :=
  match options.validate with
  | .error e => done (.error e)
  | .ok _ => claiming token

/-- Loads the accepted artifact, or prepares what is missing. -/
def prepare (state : BuildWorkspace) : RunPhase :=
  match state.serving with
  | some accepted =>
    if state.forest = none then failing state .corruption
    else
      let job : LoadJob := ⟨accepted.manifest, state.options.load⟩
      loading state job (.start env job)
  | none => if state.forest = none then forest state else serving state

def onClaim (token : Token) : Outcome BuildWorkspace → List RunPhase
  | .value state => [prepare env state]
  | .error e => [done (.error e)]
  | .aborted _ => [claiming token, done (.error .contentionExhausted)]
  | .unknown _ => [done (.error .commitOutcomeUnknown)]

def onAccept (before : BuildWorkspace) (continue_ again : RunPhase) : Outcome Unit → List RunPhase
  | .value _ => [continue_]
  | .error e => [failing before e]
  | .aborted _ => [again, failing before .contentionExhausted]
  | .unknown _ => [again, failing before .commitOutcomeUnknown]

def onLoaded (state : BuildWorkspace) : Except ErrorKind Unit → RunPhase
  | .ok _ => done (.ok ())
  | .error e => failing state e

def state? : RunPhase → Option BuildWorkspace
  | forest state | serving state | loading state _ _ => some state
  | acceptingForest before _ | acceptingServing before _ => some before
  | _ => none

end RunPhase

inductive RunStep (env : Environment) (authority : Option Token) (options : BulkWorkerOptions)
    (seen : ℕ) : RunPhase → Log → RunPhase → Log → Prop
  | claim {log log' : Log} {token : Token} {o : Outcome BuildWorkspace} {p : RunPhase}
      (attempt : WorkerAttempt env authority
        (workerClaim authority env.descriptor options env.hardLimits token) seen log o log')
      (next : p ∈ RunPhase.onClaim env token o) :
      RunStep env authority options seen (.claiming token) log p log'
  | forestBuilt {log : Log} {state : BuildWorkspace} (manifest : ArtifactManifest) :
      RunStep env authority options seen (.forest state) log
        (.acceptingForest state { state with forest := some ⟨state.epoch, manifest⟩ }) log
  | acceptForest {log log' : Log} {before after : BuildWorkspace} {o : Outcome Unit} {p : RunPhase}
      (attempt : WorkerAttempt env authority (accept authority before after) seen log o log')
      (next : p ∈ RunPhase.onAccept before (.serving after) (.acceptingForest before after) o) :
      RunStep env authority options seen (.acceptingForest before after) log p log'
  | servingBuilt {log : Log} {state : BuildWorkspace} (manifest : ArtifactManifest) :
      RunStep env authority options seen (.serving state) log
        (.acceptingServing state { state with serving := some ⟨state.epoch, manifest⟩ }) log
  | acceptServing {log log' : Log} {before after : BuildWorkspace} {o : Outcome Unit} {p : RunPhase}
      (attempt : WorkerAttempt env authority (accept authority before after) seen log o log')
      (next : p ∈ RunPhase.onAccept before (.prepare env after)
        (.acceptingServing before after) o) :
      RunStep env authority options seen (.acceptingServing before after) log p log'
  | load {log log' : Log} {state : BuildWorkspace} {job : LoadJob} {phase phase' : LoadPhase}
      (step : LoadStep env authority job seen phase log phase' log') :
      RunStep env authority options seen (.loading state job phase) log (.loading state job phase')
        log'
  | loaded {log : Log} {state : BuildWorkspace} {job : LoadJob} {result : Except ErrorKind Unit} :
      RunStep env authority options seen (.loading state job (.done result)) log
        (.onLoaded state result) log
  | resumable {log : Log} {state : BuildWorkspace} {kind : ErrorKind}
      (hkind : terminalFailure kind = false) :
      RunStep env authority options seen (.failing state kind) log (.done (.error kind)) log
  | record {log log' : Log} {state : BuildWorkspace} {kind : ErrorKind} {o : Outcome Unit}
      {p : RunPhase} (hkind : terminalFailure kind = true)
      (attempt : WorkerAttempt env authority (accept authority state (failed state kind)) seen log o
        log')
      (next : p ∈ [RunPhase.failing state kind, .done (.error kind)]) :
      RunStep env authority options seen (.failing state kind) log p log'
  | fault {log : Log} {p : RunPhase} {state : BuildWorkspace} {kind : ErrorKind}
      (hkind : env.faults kind) (hstate : p.state? = some state) :
      RunStep env authority options seen p log (.failing state kind) log

/-! ### Completion -/

/-- A caller publishes, prepares and loads when there is nothing to publish, and
publishes again. -/
inductive CompletePhase
  | first (phase : PublishPhase)
  | running (phase : RunPhase)
  | second (phase : PublishPhase)
  | finished (result : Except ErrorKind Unit)

/-- A busy or superseded caller may start over. -/
def CompletePhase.onError (e : ErrorKind) : List CompletePhase :=
  if e = .bulkBuildBusy ∨ e = .bulkBuildSuperseded then [first .reading, finished (.error e)]
  else [finished (.error e)]

inductive CompleteStep (env : Environment) (authority : Option Token) (options : BulkWorkerOptions)
    (seen : ℕ) : CompletePhase → Log → CompletePhase → Log → Prop
  | first {log log' : Log} {p p' : PublishPhase}
    (step : PublishStep env authority seen p log p' log') :
      CompleteStep env authority options seen (.first p) log (.first p') log'
  | run {log log' : Log} {p p' : RunPhase}
    (step : RunStep env authority options seen p log p' log') :
      CompleteStep env authority options seen (.running p) log (.running p') log'
  | second {log log' : Log} {p p' : PublishPhase}
      (step : PublishStep env authority seen p log p' log') :
      CompleteStep env authority options seen (.second p) log (.second p') log'
  | published {log : Log} :
      CompleteStep env authority options seen (.first (.done (.ok ()))) log (.finished (.ok ())) log
  | busy {log : Log} (token : Token) :
      CompleteStep env authority options seen (.first (.done (.error .bulkBuildBusy))) log
        (.running (.start options token)) log
  | firstFailed {log : Log} {e : ErrorKind} {p : CompletePhase} (hbusy : e ≠ .bulkBuildBusy)
      (next : p ∈ CompletePhase.onError e) :
      CompleteStep env authority options seen (.first (.done (.error e))) log p log
  | prepared {log : Log} :
      CompleteStep env authority options seen (.running (.done (.ok ()))) log (.second .reading) log
  | runFailed {log : Log} {e : ErrorKind} {p : CompletePhase} (next : p ∈ CompletePhase.onError e) :
      CompleteStep env authority options seen (.running (.done (.error e))) log p log
  | republished {log : Log} :
      CompleteStep env authority options seen (.second (.done (.ok ()))) log
        (.finished (.ok ())) log
  | secondFailed {log : Log} {e : ErrorKind} {p : CompletePhase}
      (next : p ∈ CompletePhase.onError e) :
      CompleteStep env authority options seen (.second (.done (.error e))) log p log

/-! ### Systems -/

/-- A call of the build interface. -/
inductive Task
  | load (job : LoadJob) (phase : LoadPhase)
  | publish (phase : PublishPhase)
  | run (options : BulkWorkerOptions) (phase : RunPhase)
  | complete (options : BulkWorkerOptions) (phase : CompletePhase)

inductive TaskStep (env : Environment) (authority : Option Token) (seen : ℕ) :
    Task → Log → Task → Log → Prop
  | load {log log' : Log} {job : LoadJob} {p p' : LoadPhase}
      (step : LoadStep env authority job seen p log p' log') :
      TaskStep env authority seen (.load job p) log (.load job p') log'
  | publish {log log' : Log} {p p' : PublishPhase}
      (step : PublishStep env authority seen p log p' log') :
      TaskStep env authority seen (.publish p) log (.publish p') log'
  | run {log log' : Log} {options : BulkWorkerOptions} {p p' : RunPhase}
      (step : RunStep env authority options seen p log p' log') :
      TaskStep env authority seen (.run options p) log (.run options p') log'
  | complete {log log' : Log} {options : BulkWorkerOptions} {p p' : CompletePhase}
      (step : CompleteStep env authority options seen p log p' log') :
      TaskStep env authority seen (.complete options p) log (.complete options p') log'

/-- How a call starts. -/
inductive Task.Starts (env : Environment) : Task → Prop
  | load (job : LoadJob) : Task.Starts env (.load job (.start env job))
  | publish : Task.Starts env (.publish .reading)
  | run (options : BulkWorkerOptions) (token : Token) :
      Task.Starts env (.run options (.start options token))
  | complete (options : BulkWorkerOptions) : Task.Starts env (.complete options (.first .reading))

/-- A task with the authority it runs under and the number of commits it has seen.
Tokens are drawn at random, and none is the owner of an unclaimed schedule. -/
structure Worker where
  authority : Option Token
  drawn : authority ≠ some unclaimed
  seen : ℕ
  task : Task

structure System where
  log : Log
  workers : ℕ → Option Worker

def reserved (descriptor : BuildDescriptor) : BuildStore :=
  (OrderedMap.empty.put .manifest .building).put .descriptor descriptor

inductive Step (env : Environment) : System → System → Prop
  | spawn {sys : System} {i : ℕ} {w : Worker} (hfree : sys.workers i = none)
      (hseen : w.seen = sys.log.length) (hstart : w.task.Starts env) :
      Step env sys { sys with workers := update sys.workers i (some w) }
  | work {sys : System} {i : ℕ} {w : Worker} {task : Task} {log : Log}
      (hworker : sys.workers i = some w)
      (hstep : TaskStep env w.authority w.seen w.task sys.log task log) :
      Step env sys ⟨log, update sys.workers i
        (some { w with seen := log.length, task := task })⟩
  | enqueue {sys : System} {log : Log} {options : BulkWorkerOptions} {o : Outcome Unit}
      (attempt : Attempt env (fun _ => .enqueue) (Bulk.enqueue options) 0 sys.log o log) :
      Step env sys { sys with log := log }
  | claim {sys : System} {log : Log} {owner : Token} {now lease : ℕ}
      {o : Outcome (Option BuildSchedule)} (hdrawn : owner ≠ unclaimed)
      (attempt : Attempt env (fun _ => .claim owner) (scheduleClaim owner now lease) 0 sys.log o
        log) :
      Step env sys { sys with log := log }
  | renew {sys : System} {log : Log} {owner : Token} {expiresMs : ℕ} {o : Outcome Unit}
      (attempt : Attempt env (fun _ => .renew) (Bulk.renew owner expiresMs) 0 sys.log o log) :
      Step env sys { sys with log := log }
  | finish {sys : System} {log : Log} {owner : Token} {success : Bool} {expiresMs : ℕ}
      {o : Outcome Bool}
      (attempt : Attempt env (fun removed => if removed then .remove else .release)
        (Bulk.finish owner success expiresMs) 0 sys.log o log) :
      Step env sys { sys with log := log }
  | drop {sys : System} {log : Log} {aborting : Bool} {range : BuildKey → Bool} {o : Outcome Unit}
      (attempt : Attempt env (fun _ => .drop) (dropStep aborting range) 0 sys.log o log) :
      Step env sys { sys with log := log }
  | cleanup {sys : System} {log : Log} {state : BuildWorkspace} {o : Outcome Unit}
      (attempt : Attempt env (fun _ => .cleanup) (Bulk.cleanup state) 0 sys.log o log) :
      Step env sys { sys with log := log }

/-- The states of a system, from a fresh reservation on. -/
inductive Reachable (env : Environment) : System → Prop
  | reserved : Reachable env ⟨[⟨.reserve, Bulk.reserved env.descriptor⟩], fun _ => none⟩
  | step {sys sys' : System} (before : Reachable env sys) (next : Step env sys sys') :
      Reachable env sys'

end Bulk
