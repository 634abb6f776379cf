/-
What the transactions of a build answer on a store.

Without a schedule a program is decided by a few stored values: it fails, ends early, or
commits one write.  Each equation here is the whole program on a Building store.

* `Unscheduled` — the stores the equations are about;
* `settle` — only a commit writes;
* `run_loadClaim` and its like — the programs.
-/
import Ktann.Bulk.Exact

open TxnM (run_bind run_pure run_bind_ok run_ensure_not run_ensure orFail ensure)
open Txn (view_start view_protect)

namespace Bulk

open BuildKey (Value)

variable {env : Environment} {S C : BuildStore} {α : Type}

/-- A Building store without a schedule, for the request at hand. -/
structure Unscheduled (env : Environment) (S : BuildStore) : Prop where
  building : S.lookup .manifest = some .building
  schedule : S.lookup .schedule = none
  descriptor : S.lookup .descriptor = some env.descriptor

/-- A transaction that has read and protected keys, and written nothing. -/
def protecting (S : BuildStore) (keys : List BuildKey) : Txn Value :=
  keys.foldr (fun k t => t.protect k) (Txn.start S)

lemma onto_protecting (keys : List BuildKey) : (protecting S keys).onto C = C := by
  induction keys with
  | nil => rfl
  | cons k _ ih => exact ih

lemma protectedKeys_protecting (keys : List BuildKey) :
    (protecting S keys).protectedKeys = keys := by
  induction keys with
  | nil => rfl
  | cons k _ ih => exact congrArg (k :: ·) ih

/-- The end of a program: only a commit writes. -/
def settle (t : Txn Value) (write : α → Txn Value → Txn Value) : Ending α → Ending α × Txn Value
  | .early a => (.early a, t)
  | .commit a => (.commit a, write a t)

/-- Stages pairs in order. -/
def stageEntries (t : Txn Value) (entries : List Entry) : Txn Value :=
  entries.foldl (fun t e => t.stage (.put (.data e.1) e.2)) t

variable {entries : List Entry} {t : Txn Value}

lemma run_putEntries : ∀ {t : Txn Value},
    (putEntries entries).run t = .ok ((), stageEntries t entries) := by
  induction entries with
  | nil => exact fun {t} => rfl
  | cons e _ ih => exact fun {t} => ih

lemma onto_stageEntries : ∀ {t : Txn Value},
    (stageEntries t entries).onto C = putAll (t.onto C) entries := by
  induction entries with
  | nil => exact fun {t} => rfl
  | cons e _ ih =>
    intro t
    refine (ih).trans ?_
    rw [onto_stage]
    rfl

lemma protectedKeys_stageEntries : ∀ {t : Txn Value},
    (stageEntries t entries).protectedKeys = t.protectedKeys := by
  induction entries with
  | nil => exact fun {t} => rfl
  | cons e _ ih => exact fun {t} => ih

/-! ### The programs -/

section

attribute [local simp] building manifest authorize expectDescriptor get getForUpdate put run_bind
  TxnM.getForUpdate TxnM.read TxnM.ofExcept orFail ensure view_start view_protect checkBuilding
  checkAuthority run_pure

lemma run_building (hm : t.view.lookup .manifest = some .building) :
    Bulk.building.run t = .ok ((), t.protect .manifest) := by
  simp [hm]

lemma run_authorize (hs : t.view.lookup .schedule = none) :
    (authorize none).run t = .ok ((), t.protect .schedule) := by
  simp [hs]

lemma run_getForUpdate (k : BuildKey) (t : Txn Value) :
    (getForUpdate k).run t = .ok (t.view.lookup k, t.protect k) := rfl

lemma run_loadClaim (h : Unscheduled env S) (initial : BuildLoad) :
    (loadClaim none env.descriptor initial).run (Txn.start S) =
      (decideClaim initial (S.lookup .validation) (S.lookup .load)).map
        (settle (protecting S [.load, .schedule, .manifest])
          fun load t => t.stage (.put .load load)) := by
  simp [loadClaim, h.building, h.schedule, h.descriptor]
  cases decideClaim initial (S.lookup .validation) (S.lookup .load) with
  | error e => rfl
  | ok ending => cases ending <;> rfl

lemma run_commitChunk (h : Unscheduled env S) (before after : BuildLoad) (entries : List Entry) :
    (commitChunk none before after entries).run (Txn.start S) =
      (decideChunk before after (S.lookup .load)).map
        (settle (protecting S [.load, .schedule, .manifest])
          fun _ t => stageEntries (t.stage (.put .load after)) entries) := by
  simp [-bind_pure_comp, commitChunk, h.building, h.schedule]
  cases decideChunk before after (S.lookup .load) with
  | error e => rfl
  | ok ending =>
    cases ending with
    | early u => rfl
    | commit u =>
      simp only [run_bind, TxnM.write, run_putEntries]
      rfl

/-- What `beginValidation` decides. -/
def decideBegin (A : Artifacts) (state : BuildWorkspace) (S : BuildStore) :
    Except ErrorKind (Ending BuildValidation) :=
  if S.lookup .workspace = some state then
    match decideValidation state (S.lookup .load) with
    | .error e => .error e
    | .ok load =>
      match S.lookup .validation with
      | some proof => .ok (.early proof)
      | none => .ok (.commit ⟨load.artifact, [], 0, A.prefixDigest load.artifact 0, false⟩)
  else .error .bulkBuildSuperseded

lemma run_beginValidation (h : Unscheduled env S) (state : BuildWorkspace) :
    (beginValidation env.artifacts none env.descriptor state).run (Txn.start S) =
      (decideBegin env.artifacts state S).map
        (settle (protecting S [.validation, .load, .workspace, .schedule, .manifest])
          fun proof t => t.stage (.put .validation proof)) := by
  rw [decideBegin]
  by_cases hw : S.lookup .workspace = some state
  · rw [if_pos hw]
    simp [beginValidation, h.building, h.schedule, h.descriptor, hw]
    cases decideValidation state (S.lookup .load) with
    | error e => rfl
    | ok =>
      cases hv : S.lookup .validation with
      | some proof | none =>
        simp only [view_protect, view_start, hv]
        rfl
  · rw [if_neg hw]
    rw [beginValidation, run_bind_ok (run_building h.building),
      run_bind_ok (run_authorize h.schedule), run_bind_ok (run_getForUpdate _ _)]
    exact TxnM.run_bind_error (run_ensure_not hw)

variable (state : BuildWorkspace)

/-- What a page decides before it compares. -/
def decideFence (S : BuildStore) : Except ErrorKind Unit :=
  if sameOwner state (S.lookup .workspace) = true then
    if loadedFor state (S.lookup .load) = true then .ok () else .error .corruption
  else .error .corruption

lemma run_fence (hm : t.view.lookup .manifest = some .building) (state : BuildWorkspace) :
    (fence state).run t = (decideFence state t.view).map
        fun u => (u, ((t.protect .manifest).protect .workspace).protect .load) := by
  rw [fence, run_bind_ok (run_building hm), run_bind_ok (run_getForUpdate _ _), decideFence]
  by_cases howner : sameOwner state (t.view.lookup .workspace) = true
  · rw [if_pos howner]
    refine (run_bind_ok (run_ensure howner)).trans ?_
    rw [run_bind_ok (run_getForUpdate _ _)]
    by_cases hload : loadedFor state (t.view.lookup .load) = true
    · rw [if_pos hload]
      exact run_ensure hload
    · rw [if_neg hload]
      exact run_ensure_not hload
  · rw [if_neg howner]
    exact TxnM.run_bind_error (run_ensure_not howner)

def decidePage (A : Artifacts) (state : BuildWorkspace) (reader : Reader) (before : BuildValidation)
    (next : Option Bytes) (S : BuildStore) : Except ErrorKind (Ending (Reader × BuildValidation)) :=
  match decideFence state S with
  | .error e => .error e
  | .ok _ =>
    match expectProof before (S.lookup .validation) with
    | .error e => .error e
    | .ok _ => (verifyPage A reader before next (scanData S before.cursor next)).map .commit

lemma run_firstPage (h : Unscheduled env S) (state : BuildWorkspace) (reader : Reader)
    (before : BuildValidation) (next : Option Bytes) :
    (firstPage env.artifacts none state reader before next).run (Txn.start S) =
      (decidePage env.artifacts state reader before next S).map
        (settle (protecting S [.validation, .schedule, .load, .workspace, .manifest])
          fun verified t => t.stage (.put .validation verified.2)) := by
  rw [firstPage, run_bind, run_fence h.building, decidePage]
  simp only [view_start]
  cases decideFence state S with
  | error e => rfl
  | ok u =>
    simp [Except.map, h.schedule]
    cases expectProof before (S.lookup .validation) with
    | error e => rfl
    | ok u =>
      simp only [view_protect, view_start]
      cases verifyPage env.artifacts reader before next (scanData S before.cursor next) with
      | error e | ok verified => rfl

/-- What a later attempt of a page decides. -/
def decideRepeat (reader : Reader) (before after : BuildValidation) (S : BuildStore) :
    Except ErrorKind (Ending (Reader × BuildValidation)) :=
  match decideFence state S with
  | .error e => .error e
  | .ok _ =>
    if S.lookup .validation = some after then .ok (.early (reader, after))
    else
      match expectProof before (S.lookup .validation) with
      | .error e => .error e
      | .ok _ => .ok (.commit (reader, after))

lemma run_repeatPage (h : Unscheduled env S) (state : BuildWorkspace) (reader : Reader)
    (before after : BuildValidation) :
    (repeatPage none state reader before after).run (Txn.start S) =
      (decideRepeat state reader before after S).map
        (settle (protecting S [.validation, .schedule, .load, .workspace, .manifest])
          fun _ t => t.stage (.put .validation after)) := by
  rw [repeatPage, run_bind, run_fence h.building, decideRepeat]
  simp only [view_start]
  cases decideFence state S with
  | error e => rfl
  | ok u =>
    simp only [Except.map]
    rw [run_bind_ok (run_authorize h.schedule), run_bind_ok (run_getForUpdate _ _)]
    by_cases hafter : S.lookup .validation = some after
    · rw [if_pos hafter]
      exact congrArg (fun m => TxnM.run m _) (if_pos hafter)
    · rw [if_neg hafter]
      refine (congrArg (fun m => TxnM.run m _) (if_neg hafter)).trans ?_
      simp only [put, run_bind, TxnM.read, TxnM.ofExcept, view_start, view_protect]
      cases expectProof before (S.lookup .validation) with
      | error e | ok u => rfl

def decideActivate (proof : BuildValidation) (S : BuildStore) : Except ErrorKind (Ending Unit) :=
  match decideFence state S with
  | .error e => .error e
  | .ok _ =>
    if proof.complete = true ∧ S.lookup .validation = some proof then .ok (.commit ())
    else .error .corruption

lemma run_activate (h : Unscheduled env S) (state : BuildWorkspace) (proof : BuildValidation) :
    (activate none state proof).run (Txn.start S) = (decideActivate state proof S).map
        (settle (protecting S [.validation, .schedule, .load, .workspace, .manifest, .manifest])
          fun _ t => t.stage (.put .manifest .active)) := by
  have hmanifest : manifest.run (Txn.start S) =
      .ok (.building, (Txn.start S).protect .manifest) := by
    simp [h.building]
  rw [activate, run_bind_ok hmanifest, decideActivate]
  simp only [reduceCtorEq, if_false]
  rw [run_bind, run_fence (t := (Txn.start S).protect .manifest) h.building]
  simp only [view_protect, view_start]
  cases decideFence state S with
  | error e => rfl
  | ok u =>
    simp only [Except.map]
    rw [run_bind_ok (run_authorize h.schedule), run_bind_ok (run_getForUpdate _ _)]
    by_cases hproof : proof.complete = true ∧ S.lookup .validation = some proof
    · rw [if_pos hproof]
      exact run_bind_ok (run_ensure hproof)
    · rw [if_neg hproof]
      exact TxnM.run_bind_error (run_ensure_not hproof)

def decideWorker (env : Environment) (options : BulkWorkerOptions) (token : Token)
    (S : BuildStore) : Except ErrorKind (Ending BuildWorkspace) :=
  match decideWorkspace options env.hardLimits token (S.lookup .workspace) with
  | .error e => .error e
  | .ok state =>
    if S.lookup .validation = none then .ok (.commit state) else .error .bulkBuildSuperseded

lemma run_workerClaim (h : Unscheduled env S) (options : BulkWorkerOptions) (token : Token) :
    (workerClaim none env.descriptor options env.hardLimits token).run (Txn.start S) =
      (decideWorker env options token S).map
        (settle (protecting S [.workspace, .schedule, .manifest])
          fun state t => t.stage (.put .workspace state)) := by
  rw [decideWorker]
  simp [workerClaim, h.building, h.schedule, h.descriptor]
  cases decideWorkspace options env.hardLimits token (S.lookup .workspace) with
  | error e => rfl
  | ok =>
    simp only
    by_cases hv : S.lookup .validation = none
    · rw [if_pos hv]
      split_ifs with hview
      · rfl
      · exact absurd hv hview
    · rw [if_neg hv]
      split_ifs with hview
      · exact absurd hview hv
      · rfl

lemma run_accept (h : Unscheduled env S) (before after : BuildWorkspace) :
    (accept none before after).run (Txn.start S) =
      (decideAccept before after (S.lookup .workspace)).map
        (settle (protecting S [.workspace, .schedule, .manifest])
          fun _ t => t.stage (.put .workspace after)) := by
  simp [accept, h.building, h.schedule]
  cases decideAccept before after (S.lookup .workspace) with
  | error e => rfl
  | ok ending => cases ending <;> rfl

end

end Bulk
