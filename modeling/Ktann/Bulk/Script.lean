/-
Scripted runs of a system.

A script says which call starts and which task moves next.  Every transaction runs on
the newest store and commits, so a scripted run can be evaluated; it is one run of the
system (`runScript_reachable`).
-/
import Ktann.Bulk.System

namespace Bulk

/-! ### Attempts on the newest store -/

/-- The outcome of a transaction that nothing disturbs. -/
def attemptNow {α : Type} (actor : α → Actor) (m : BuildTxn (Ending α)) :
    Log → Option (Outcome α × Log)
  | [] => none
  | c :: log =>
    match m.run (Txn.start c.store) with
    | .error e => some (.error e, c :: log)
    | .ok (.early a, _) => some (.value a, c :: log)
    | .ok (.commit a, s) => some (.value a, ⟨actor a, s.onto c.store⟩ :: c :: log)

lemma attemptNow_sound {α : Type} {env : Environment} {actor : α → Actor}
    {m : BuildTxn (Ending α)} {seen : ℕ} {log log' : Log} {o : Outcome α}
    (h : attemptNow actor m log = some (o, log')) (hseen : seen ≤ log.length) :
    Attempt env actor m seen log o log' := by
  cases log with
  | nil => cases h
  | cons c log =>
    have hsnapshot : Snapshot seen (c :: log) [] c log := ⟨rfl, by simpa using hseen⟩
    rw [attemptNow] at h
    cases hrun : m.run (Txn.start c.store) with
    | error e =>
      rw [hrun] at h
      cases h
      exact .failed hsnapshot hrun
    | ok r =>
      obtain ⟨ending, s⟩ := r
      rw [hrun] at h
      cases ending with
      | early a =>
        cases h
        exact .ended hsnapshot hrun
      | commit a =>
        cases h
        exact .committed hsnapshot hrun rfl (fun d hd => by cases hd)

/-! ### Tasks -/

/-- What a script chooses for a task: the token and the artifacts it makes, and a
fault of its local work. -/
structure Choice where
  token : Token
  manifest : ArtifactManifest
  fault : Option ErrorKind

variable (env : Environment) (authority : Option Token) (choice : Choice)

def LoadPhase.advance (job : LoadJob) (log : Log) : LoadPhase → Option (LoadPhase × Log)
  | .claiming => do
    let (o, log) ← attemptNow (fun _ => .worker authority)
      (loadClaim authority env.descriptor (env.initialLoad job.artifact)) log
    let p ← (LoadPhase.onClaim env job o).head?
    some (p, log)
  | .streaming load stream =>
    match nextChunk env.artifacts job.artifact load.entries load.prefixSha256 (job.budget env)
        env.checkpointBytes stream with
    | .error e => some (.done (.error e), log)
    | .ok (stream, entries, complete) => some (.onChunk load stream entries complete, log)
  | .committing before after entries stream => do
    let (o, log) ← attemptNow (fun _ => .worker authority)
      (commitChunk authority before after entries) log
    let p ← (LoadPhase.onCommit before after entries stream o).head?
    some (p, log)
  | .done _ => none

def PublishPhase.advance (log : Log) : PublishPhase → Option (PublishPhase × Log)
  | .reading =>
    match log with
    | [] => none
    | c :: log => some (.onRead c.store, c :: log)
  | .beginning state => do
    let (o, log) ← attemptNow (fun _ => .worker authority)
      (beginValidation env.artifacts authority env.descriptor state) log
    let p ← (PublishPhase.onOutcome state (.onProof state) (fun _ => .beginning state) o).head?
    some (p, log)
  | .opening state proof => some (.onOpen env.artifacts state proof, log)
  | .checking state reader before => do
    let (o, log) ← attemptNow (fun _ => .worker authority)
      (firstPage env.artifacts authority state reader before none) log
    let p ← (PublishPhase.onOutcome state (.onPage state)
      (fun verified => .repeating state verified.1 before verified.2) o).head?
    some (p, log)
  | .repeating _ _ _ _ => none
  | .activating state proof => do
    let (o, log) ← attemptNow (fun _ => .worker authority) (activate authority state proof) log
    let p ← (PublishPhase.onActivate state proof o).head?
    some (p, log)
  | .failing state kind =>
    if terminalFailure kind then do
      let (_, log) ← attemptNow (fun _ => .worker authority)
        (accept authority state (failed state kind)) log
      some (.done (.error kind), log)
    else some (.done (.error kind), log)
  | .done _ => none

def RunPhase.advance (options : BulkWorkerOptions) (log : Log) : RunPhase → Option (RunPhase × Log)
  | .claiming token => do
    let (o, log) ← attemptNow (fun _ => .worker authority)
      (workerClaim authority env.descriptor options env.hardLimits token) log
    let p ← (RunPhase.onClaim env token o).head?
    some (p, log)
  | .forest state =>
    some (.acceptingForest state { state with forest := some ⟨state.epoch, choice.manifest⟩ }, log)
  | .acceptingForest before after => do
    let (o, log) ← attemptNow (fun _ => .worker authority) (accept authority before after) log
    let p ← (RunPhase.onAccept before (.serving after) (.acceptingForest before after) o).head?
    some (p, log)
  | .serving state =>
    some (.acceptingServing state { state with serving := some ⟨state.epoch, choice.manifest⟩ },
      log)
  | .acceptingServing before after => do
    let (o, log) ← attemptNow (fun _ => .worker authority) (accept authority before after) log
    let p ← (RunPhase.onAccept before (.prepare env after) (.acceptingServing before after) o).head?
    some (p, log)
  | .loading state _ (.done result) => some (.onLoaded state result, log)
  | .loading state job phase => do
    let (p, log) ← phase.advance env authority job log
    some (.loading state job p, log)
  | .failing state kind =>
    if terminalFailure kind then do
      let (_, log) ← attemptNow (fun _ => .worker authority)
        (accept authority state (failed state kind)) log
      some (.done (.error kind), log)
    else some (.done (.error kind), log)
  | .done _ => none

/-- A caller moves on when its current part is done. -/
def CompletePhase.onDone (options : BulkWorkerOptions) : CompletePhase → Option CompletePhase
  | .first (.done (.ok _)) | .second (.done (.ok _)) => some (.finished (.ok ()))
  | .first (.done (.error .bulkBuildBusy)) => some (.running (.start options choice.token))
  | .running (.done (.ok _)) => some (.second .reading)
  | _ => none

def CompletePhase.advance (options : BulkWorkerOptions) (log : Log) (p : CompletePhase) :
    Option (CompletePhase × Log) :=
  match p.onDone choice options with
  | some next => some (next, log)
  | none =>
    match p with
    | .first phase => (phase.advance env authority log).map fun r => (.first r.1, r.2)
    | .running phase =>
      (phase.advance env authority choice options log).map fun r => (.running r.1, r.2)
    | .second phase => (phase.advance env authority log).map fun r => (.second r.1, r.2)
    | .finished _ => none

def Task.advance (log : Log) : Task → Option (Task × Log)
  | .load job phase => do
    let (p, log) ← phase.advance env authority job log
    some (.load job p, log)
  | .publish phase => do
    let (p, log) ← phase.advance env authority log
    some (.publish p, log)
  | .run options phase => do
    let (p, log) ← phase.advance env authority choice options log
    some (.run options p, log)
  | .complete options phase => do
    let (p, log) ← phase.advance env authority choice options log
    some (.complete options p, log)

variable {env authority choice} {seen : ℕ} {log log' : Log}

lemma attemptNow_head {α β : Type} {actor : α → Actor} {m : BuildTxn (Ending α)}
    {f : Outcome α → List β} {q : β} (hseen : seen ≤ log.length)
    (h : (do let (o, l) ← attemptNow actor m log; let q ← (f o).head?; some (q, l)) =
      some (q, log')) : ∃ o, Attempt env actor m seen log o log' ∧ q ∈ f o := by
  obtain ⟨⟨o, l⟩, hattempt, h⟩ := bind_eq_some_iff.mp h
  obtain ⟨q, hq, h⟩ := bind_eq_some_iff.mp h
  cases h
  exact ⟨o, attemptNow_sound hattempt hseen, mem_of_mem_head? hq⟩

lemma LoadPhase.advance_sound {job : LoadJob} {p p' : LoadPhase} (hseen : seen ≤ log.length)
    (h : p.advance env authority job log = some (p', log')) :
    LoadStep env authority job seen p log p' log' := by
  cases p with
  | claiming =>
    obtain ⟨o, hattempt, hq⟩ := attemptNow_head hseen h
    exact .claim hattempt hq
  | streaming load stream =>
    simp only [LoadPhase.advance] at h
    cases hchunk : nextChunk env.artifacts job.artifact load.entries load.prefixSha256
        (job.budget env) env.checkpointBytes stream with
    | error e =>
      rw [hchunk] at h
      cases h
      exact .chunkFailed hchunk
    | ok r =>
      rw [hchunk] at h
      cases h
      exact .chunk hchunk
  | committing =>
    obtain ⟨o, hattempt, hq⟩ := attemptNow_head hseen h
    exact .commit hattempt hq
  | done => cases h

lemma PublishPhase.advance_sound {p p' : PublishPhase} (hseen : seen ≤ log.length)
    (h : p.advance env authority log = some (p', log')) :
    PublishStep env authority seen p log p' log' := by
  cases p with
  | reading =>
    cases log with
    | nil => cases h
    | cons c log =>
      cases h
      have hsnapshot : Snapshot seen (c :: log) [] c log := ⟨rfl, by simpa using hseen⟩
      exact .read hsnapshot
  | beginning state =>
    obtain ⟨o, hattempt, hq⟩ := attemptNow_head hseen h
    exact .begin hattempt hq
  | opening state _ =>
    cases h
    exact .opened
  | checking state =>
    obtain ⟨o, hattempt, hq⟩ := attemptNow_head hseen h
    exact .page (fun n hn => by cases hn) hattempt hq
  | repeating => cases h
  | activating _ =>
    obtain ⟨o, hattempt, hq⟩ := attemptNow_head hseen h
    exact .activate hattempt hq
  | failing _ kind =>
    rw [PublishPhase.advance] at h
    by_cases hkind : terminalFailure kind = true
    · rw [if_pos hkind] at h
      obtain ⟨⟨o, l⟩, hattempt, h⟩ := bind_eq_some_iff.mp h
      cases h
      exact .record hkind (attemptNow_sound hattempt hseen) (by simp)
    · rw [if_neg hkind] at h
      cases h
      exact .resumable (by simpa using hkind)
  | done => cases h

variable {options : BulkWorkerOptions}

lemma RunPhase.advance_sound {p p' : RunPhase} (hseen : seen ≤ log.length)
    (h : p.advance env authority choice options log = some (p', log')) :
    RunStep env authority options seen p log p' log' := by
  cases p with
  | claiming =>
    obtain ⟨o, hattempt, hq⟩ := attemptNow_head hseen h
    exact .claim hattempt hq
  | forest state =>
    cases h
    exact .forestBuilt _
  | acceptingForest _ _ =>
    obtain ⟨o, hattempt, hq⟩ := attemptNow_head hseen h
    exact .acceptForest hattempt hq
  | serving state =>
    cases h
    exact .servingBuilt _
  | acceptingServing =>
    obtain ⟨o, hattempt, hq⟩ := attemptNow_head hseen h
    exact .acceptServing hattempt hq
  | loading _ _ phase =>
    cases phase with
    | done =>
      cases h
      exact .loaded
    | _ =>
      obtain ⟨⟨q, l⟩, hphase, h⟩ := bind_eq_some_iff.mp h
      cases h
      exact .load (LoadPhase.advance_sound hseen hphase)
  | failing _ kind =>
    rw [RunPhase.advance] at h
    by_cases hkind : terminalFailure kind = true
    · rw [if_pos hkind] at h
      obtain ⟨⟨o, l⟩, hattempt, h⟩ := bind_eq_some_iff.mp h
      cases h
      exact .record hkind (attemptNow_sound hattempt hseen) (by simp)
    · rw [if_neg hkind] at h
      cases h
      exact .resumable (by simpa using hkind)
  | done => cases h

lemma CompletePhase.onDone_sound {p p' : CompletePhase} (h : p.onDone choice options = some p') :
    CompleteStep env authority options seen p log p' log := by
  rw [CompletePhase.onDone.eq_def] at h
  split at h
  · cases h
    exact .published
  · cases h
    exact .republished
  · cases h
    exact .busy _
  · cases h
    exact .prepared
  · cases h

lemma CompletePhase.advance_sound {p p' : CompletePhase} (hseen : seen ≤ log.length)
    (h : p.advance env authority choice options log = some (p', log')) :
    CompleteStep env authority options seen p log p' log' := by
  rw [CompletePhase.advance.eq_def] at h
  cases hdone : p.onDone choice options with
  | some =>
    rw [hdone] at h
    cases h
    exact CompletePhase.onDone_sound hdone
  | none =>
    rw [hdone] at h
    cases p with
    | first phase =>
      obtain ⟨r, hr, h⟩ := map_eq_some_iff.mp h
      cases h
      exact .first (PublishPhase.advance_sound hseen hr)
    | running _ =>
      obtain ⟨r, hr, h⟩ := map_eq_some_iff.mp h
      cases h
      exact .run (RunPhase.advance_sound hseen hr)
    | second =>
      obtain ⟨r, hr, h⟩ := map_eq_some_iff.mp h
      cases h
      exact .second (PublishPhase.advance_sound hseen hr)
    | finished => cases h

lemma Task.advance_sound {task task' : Task} (hseen : seen ≤ log.length)
    (h : task.advance env authority choice log = some (task', log')) :
    TaskStep env authority seen task log task' log' := by
  cases task with
  | load _ phase =>
    obtain ⟨⟨q, l⟩, hphase, h⟩ := bind_eq_some_iff.mp h
    cases h
    exact .load (LoadPhase.advance_sound hseen hphase)
  | publish phase =>
    obtain ⟨⟨q, l⟩, hphase, h⟩ := bind_eq_some_iff.mp h
    cases h
    exact .publish (PublishPhase.advance_sound hseen hphase)
  | run _ _ =>
    obtain ⟨⟨q, l⟩, hphase, h⟩ := bind_eq_some_iff.mp h
    cases h
    exact .run (RunPhase.advance_sound hseen hphase)
  | complete =>
    obtain ⟨⟨q, l⟩, hphase, h⟩ := bind_eq_some_iff.mp h
    cases h
    exact .complete (CompletePhase.advance_sound hseen hphase)

/-! ### Scripts -/

/-- A call of the build interface. -/
inductive Call
  | load (job : LoadJob)
  | publish
  | run (options : BulkWorkerOptions) (token : Token)
  | complete (options : BulkWorkerOptions)

def Call.task (env : Environment) : Call → Task
  | .load job => .load job (.start env job)
  | .publish => .publish .reading
  | .run options token => .run options (.start options token)
  | .complete options => .complete options (.first .reading)

lemma Call.starts (env : Environment) (call : Call) : (call.task env).Starts env := by
  cases call with
  | load job => exact .load job
  | publish => exact .publish
  | run options token => exact .run options token
  | complete options => exact .complete options

inductive Move
  | call (i : ℕ) (authority : Option Token) (call : Call)
  | work (i : ℕ)
  | fail (i : ℕ) (kind : ErrorKind)
  | enqueue (options : BulkWorkerOptions)
  | claim (owner : Token) (now lease : ℕ)
  | finish (owner : Token) (success : Bool) (expiresMs : ℕ)

/-- The state of a preparation whose local work may fail. -/
def Task.failing (kind : ErrorKind) : Task → Option Task
  | .run options phase => phase.state?.map fun state => .run options (.failing state kind)
  | _ => none

def System.set (sys : System) (i : ℕ) (w : Worker) (log : Log) : System :=
  ⟨log, update sys.workers i (some w)⟩

/-- Performs one move; local work fails with the chosen fault only. -/
def perform (env : Environment) (choice : Choice) (sys : System) : Move → Option System
  | .call i authority call =>
    if h : sys.workers i = none ∧ authority ≠ some unclaimed then
      some (sys.set i ⟨authority, h.2, sys.log.length, call.task env⟩ sys.log)
    else none
  | .work i => do
    let w ← sys.workers i
    if w.seen ≤ sys.log.length then do
      let (task, log) ← w.task.advance env w.authority choice sys.log
      some (sys.set i { w with seen := log.length, task := task } log)
    else none
  | .fail i kind => do
    let w ← sys.workers i
    let task ← w.task.failing kind
    if choice.fault = some kind then
      some (sys.set i { w with seen := sys.log.length, task := task } sys.log)
    else none
  | .enqueue options => do
    let (_, log) ← attemptNow (fun _ => .enqueue) (Bulk.enqueue options) sys.log
    some { sys with log := log }
  | .claim owner now lease =>
    if owner ≠ unclaimed then do
      let (_, log) ← attemptNow (fun _ => .claim owner) (scheduleClaim owner now lease) sys.log
      some { sys with log := log }
    else none
  | .finish owner success expiresMs => do
    let (_, log) ← attemptNow (fun removed => if removed then .remove else .release)
      (Bulk.finish owner success expiresMs) sys.log
    some { sys with log := log }

lemma perform_step {sys sys' : System} {move : Move}
    (hfault : ∀ kind, choice.fault = some kind → env.faults kind)
    (h : perform env choice sys move = some sys') : Step env sys sys' := by
  cases move with
  | call i _ call =>
    simp only [perform] at h
    split_ifs at h with hcase
    cases h
    exact .spawn hcase.1 rfl (call.starts env)
  | work i =>
    obtain ⟨w, hw, h⟩ := bind_eq_some_iff.mp h
    split_ifs at h with hseen
    obtain ⟨⟨task, log⟩, hadvance, h⟩ := bind_eq_some_iff.mp h
    cases h
    exact .work hw (Task.advance_sound hseen hadvance)
  | fail i kind =>
    obtain ⟨w, hw, h⟩ := bind_eq_some_iff.mp h
    obtain ⟨task, htask, h⟩ := bind_eq_some_iff.mp h
    split_ifs at h with hkind
    cases h
    refine .work hw ?_
    cases hwt : w.task with
    | run _ =>
      rw [hwt] at htask
      obtain ⟨_, hstate, rfl⟩ := map_eq_some_iff.mp htask
      exact .run (.fault (hfault kind hkind) hstate)
    | load | publish | complete =>
      rw [hwt] at htask
      cases htask
  | enqueue =>
    obtain ⟨⟨o, log⟩, hattempt, h⟩ := bind_eq_some_iff.mp h
    cases h
    exact .enqueue (attemptNow_sound hattempt (Nat.zero_le _))
  | claim _ _ =>
    simp only [perform] at h
    split_ifs at h with howner
    obtain ⟨⟨o, log⟩, hattempt, h⟩ := bind_eq_some_iff.mp h
    cases h
    exact .claim howner (attemptNow_sound hattempt (Nat.zero_le _))
  | finish =>
    obtain ⟨⟨o, _⟩, hattempt, h⟩ := bind_eq_some_iff.mp h
    cases h
    exact .finish (attemptNow_sound hattempt (Nat.zero_le _))

/-- A fresh reservation. -/
def System.start (env : Environment) : System :=
  ⟨[⟨.reserve, Bulk.reserved env.descriptor⟩], fun _ => none⟩

def runScript (env : Environment) (choice : Choice) (moves : List Move) : Option System :=
  moves.foldlM (perform env choice) (System.start env)

/-- **A scripted run is a run of the system.** -/
theorem runScript_reachable {moves : List Move} {sys : System}
    (hfault : ∀ kind, choice.fault = some kind → env.faults kind)
    (h : runScript env choice moves = some sys) : Reachable env sys := by
  have hall : ∀ {moves : List Move} {start sys : System}, Reachable env start →
      moves.foldlM (perform env choice) start = some sys → Reachable env sys := by
    intro moves
    induction moves with
    | nil =>
      intro start sys hstart h
      cases h
      exact hstart
    | cons _ _ ih =>
      intro _ _ hstart h
      obtain ⟨_, hnext, h⟩ := bind_eq_some_iff.mp h
      exact ih (hstart.step (perform_step hfault hnext)) h
  exact hall .reserved h

/-! ### A worked build -/

/-- Every artifact has the same two pairs; a digest is what was digested. -/
def twoPairs : Artifacts where
  entries _ := [([1], [10]), ([2], [20])]
  digest artifact pairs := artifact ++ pairs.flatMap fun e => e.1 ++ e.2
  sorted _ := by decide +kernel

/-- A small build, whose local work may fail. -/
def smallBuild : Environment where
  artifacts := twoPairs
  descriptor := ⟨[1], [2]⟩
  hardLimits := ⟨64, 64⟩
  budget := ⟨3, 1000, 0⟩
  checkpointBytes := 10
  faults kind := kind = .other
  uncertain := True

def smallOptions : BulkWorkerOptions := ⟨[47], ⟨3, 1000⟩⟩

def smallChoice : Choice := ⟨[1], [7], some .other⟩

/-- One caller builds, loads and publishes. -/
def publishScript : List Move :=
  .call 0 none (.complete smallOptions) :: List.replicate 20 (.work 0)

lemma exists_of_runScript {moves : List Move} {P : System → Bool}
    (h : (runScript env choice moves).any P = true) :
    ∃ sys, runScript env choice moves = some sys ∧ P sys = true :=
  (any_eq_true P _).mp h

lemma smallChoice_faults : ∀ kind, smallChoice.fault = some kind → smallBuild.faults kind := by
  intro _ h
  cases h
  rfl

end Bulk
