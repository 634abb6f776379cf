/-
What a racing caller relies on.

A caller keeps values it read or wrote: its workspace, its load, its proof.  Others move
the stores on, but only so far that the values stay good enough: a caller then fails
with nothing worse than a lost race.

* `PublishPhase.Fact`, `RunPhase.Fact`, `LoadPhase.Fact` — what a phase relies on;
* `Reading` — a caller and the stores it can still read;
* `LoadStep.advances`, `PublishStep.advances`, `RunStep.advances` — one step keeps it.
-/
import Ktann.Bulk.Races

open List (mem_pair)

namespace Bulk

open BuildKey (Value)
open LoadPhase (onClaim onCommit onChunk)
open RunPhase (prepare)

variable {env : Environment} {options : BulkWorkerOptions} {A : Artifacts} {S S' : BuildStore}
  {seen : ℕ} {log log' : Log} {current : Commit} {held : Option ℕ}

/-! ### Phases -/

/-- The accepted artifact of a workspace. -/
def Serves (artifact : ArtifactManifest) (S : BuildStore) : Prop :=
  ∃ w p, S.lookup .workspace = some w ∧ w.serving = some p ∧ p.manifest = artifact

/-- The owner and the accepted artifact of `state` are still there. -/
def Accepts (state : BuildWorkspace) (S : BuildStore) : Prop :=
  ∃ w p, S.lookup .workspace = some w ∧ w.token = state.token ∧ state.serving = some p ∧
    w.serving = some p

structure Checkpoint (A : Artifacts) (artifact : ArtifactManifest) (load : BuildLoad) : Prop where
  same : load.artifact = artifact
  digest : load.prefixSha256 = A.prefixDigest artifact load.entries
  bound : load.entries ≤ (A.entries artifact).length

structure ReadsProof (A : Artifacts) (state : BuildWorkspace) (reader : Reader)
    (proof : BuildValidation) : Prop where
  position : reader.position = proof.entries
  artifact : state.serving.map PreparedArtifact.manifest = some reader.artifact
  proves : proof.Proves A reader.artifact

def LoadPhase.Fact (A : Artifacts) (artifact : ArtifactManifest) : LoadPhase → BuildStore → Prop
  | .streaming load _, S | .committing load _ _ _, S => Holds load S ∧ Checkpoint A artifact load
  | .done (.error e), _ => terminalFailure e = false
  | _, _ => True

def PublishPhase.Fact (A : Artifacts) : PublishPhase → BuildStore → Prop
  | .beginning state, S => Accepts state S
  | .opening state proof, S => Accepts state S ∧ S.lookup .validation ≠ none ∧
      proof.complete = false ∧ ∀ p, state.serving = some p → proof.Proves A p.manifest
  | .checking state reader before, S => Accepts state S ∧ S.lookup .validation ≠ none ∧
      before.complete = false ∧ ReadsProof A state reader before
  | .repeating state reader before after, S => Accepts state S ∧ S.lookup .validation ≠ none ∧
      before.complete = false ∧ (after.complete = false → ReadsProof A state reader after)
  | .activating state proof, S => Accepts state S ∧ proof.complete = true ∧
      S.lookup .validation = some proof
  | .failing _ kind, _ => terminalFailure kind = false
  | _, _ => True

def RunPhase.Fact (env : Environment) (options : BulkWorkerOptions) : RunPhase → BuildStore → Prop
  | .claiming _, _ => options.validate = .ok ()
  | .forest state, S => state.serving = none ∧ S.lookup .workspace ≠ none
  | .acceptingForest before after, S => before.serving = none ∧
      (∃ p, after = { before with forest := some p }) ∧ S.lookup .workspace ≠ none
  | .serving state, S => state.serving = none ∧ state.forest ≠ none ∧ S.lookup .workspace ≠ none
  | .acceptingServing before after, S => before.serving = none ∧ before.forest ≠ none ∧
      (∃ p, after = { before with serving := some p }) ∧ S.lookup .workspace ≠ none
  | .loading _ job phase, S => Serves job.artifact S ∧ job.options = options.load ∧
      phase.Fact env.artifacts job.artifact S
  | .failing _ kind, _ => terminalFailure kind = false
  | _, _ => True

def LoadPhase.heldEpoch : LoadPhase → Option ℕ
  | .streaming load _ | .committing load _ _ _ => some load.epoch
  | _ => none

def RunPhase.heldEpoch : RunPhase → Option ℕ
  | .loading _ _ phase => phase.heldEpoch
  | _ => none

/-! ### Facts stay -/

variable {artifact : ArtifactManifest} {state after before : BuildWorkspace} {p : RunPhase}
  {Fact : BuildStore → Prop} {entries : List Entry} {reader : Reader}
  {w : Option BuildWorkspace}

section
variable (h : Later S S')
include h

lemma Later.serves (hs : Serves artifact S) : Serves artifact S' := by
  obtain ⟨w, p, hw, hserving, hmanifest⟩ := hs
  obtain ⟨w', hw', -, hkeep⟩ := h.workspace w hw
  exact ⟨w', p, hw', hkeep p hserving, hmanifest⟩

lemma Later.accepts (ha : Accepts state S) : Accepts state S' := by
  obtain ⟨w, p, hw, htoken, hstate, hserving⟩ := ha
  obtain ⟨w', hw', htoken', hkeep⟩ := h.workspace w hw
  exact ⟨w', p, hw', htoken'.trans htoken, hstate, hkeep p hserving⟩

lemma Later.workspace_ne (hw : S.lookup .workspace ≠ none) : S'.lookup .workspace ≠ none := by
  obtain ⟨w, hw⟩ := ne_none_iff_exists'.mp hw
  obtain ⟨_, hw', -⟩ := h.workspace w hw
  simp [hw']

lemma Later.validation_ne (hv : S.lookup .validation ≠ none) : S'.lookup .validation ≠ none := by
  obtain ⟨v, hv⟩ := ne_none_iff_exists'.mp hv
  obtain ⟨_, hv', -⟩ := h.validation v hv
  simp [hv']

end

lemma Later.proof {proof : BuildValidation} (h : Later S S') (hcomplete : proof.complete = true)
    (hv : S.lookup .validation = some proof) : S'.lookup .validation = some proof := by
  obtain ⟨_, hv', hsame⟩ := h.validation proof hv
  rw [hv', hsame hcomplete]

variable {proof : BuildValidation} {load : BuildLoad} {Fact' : BuildStore → Prop}

lemma PublishPhase.fact_later {p : PublishPhase} (h : Later S S') (hf : p.Fact A S) :
    p.Fact A S' := by
  cases p with
  | reading | done => trivial
  | beginning => exact h.accepts hf
  | opening | checking | repeating => exact ⟨h.accepts hf.1, h.validation_ne hf.2.1, hf.2.2⟩
  | activating => exact ⟨h.accepts hf.1, hf.2.1, h.proof hf.2.1 hf.2.2⟩
  | failing => exact hf

open PublishPhase (onOutcome onRead onPage onOpen onProof fact_later onWorkspace onActivate)

lemma LoadPhase.fact_passes {p : LoadPhase} (h : Passes env options held S S')
    (hheld : p.heldEpoch = none ∨ held ≠ p.heldEpoch) (hf : p.Fact A artifact S) :
    p.Fact A artifact S' := by
  cases p with
  | claiming => trivial
  | streaming load _ =>
    exact ⟨h.holds load (hheld.resolve_left (by simp [heldEpoch])) hf.1, hf.2⟩
  | committing before =>
    exact ⟨h.holds before (hheld.resolve_left (by simp [heldEpoch])) hf.1, hf.2⟩
  | done result =>
    cases result with
    | ok => trivial
    | error e => exact hf

lemma RunPhase.fact_passes (h : Passes env options held S S')
    (hheld : p.heldEpoch = none ∨ held ≠ p.heldEpoch) (hf : p.Fact env options S) :
    p.Fact env options S' := by
  cases p with
  | claiming | done => trivial
  | forest => exact ⟨hf.1, h.later.workspace_ne hf.2⟩
  | acceptingForest | serving => exact ⟨hf.1, hf.2.1, h.later.workspace_ne hf.2.2⟩
  | acceptingServing => exact ⟨hf.1, hf.2.1, hf.2.2.1, h.later.workspace_ne hf.2.2.2⟩
  | loading => exact ⟨h.later.serves hf.1, hf.2.1, LoadPhase.fact_passes h hheld hf.2.2⟩
  | failing => exact hf

/-! ### Callers -/

/-- A caller, and the stores it can still read. -/
structure Reading (env : Environment) (options : BulkWorkerOptions) (seen : ℕ) (log : Log)
    (current : Commit) (Fact : BuildStore → Prop) : Prop where
  head : log.head? = some current
  recent : Recent seen log current
  calm : ∀ c, Recent seen log c → Calm env options c.store
  later : ∀ c, Recent seen log c → Later c.store current.store
  loaded : ∀ c, Recent seen log c → LoadedExactly env.artifacts c.store
  bounded : ∀ c, Recent seen log c → Bounded log.length c.store
  fact : ∀ c, Recent seen log c → Fact c.store

lemma Reading.imp (h : Reading env options seen log current Fact) (himp : ∀ S, Fact S → Fact' S) :
    Reading env options seen log current Fact' :=
  ⟨h.head, h.recent, h.calm, h.later, h.loaded, h.bounded, fun c hc => himp _ (h.fact c hc)⟩

/-- One step of a caller on Building stores: it changes nothing, it moves the store on, or
it ends the build. -/
inductive Advances (env : Environment) (options : BulkWorkerOptions) (held : Option ℕ)
    (Fact : BuildStore → Prop) (current : Commit) (log : Log) : Log → Prop
  | stays (fact : Fact current.store) : Advances env options held Fact current log log
  | passes {c : Commit} (passes : Passes env options held current.store c.store)
      (fact : Fact c.store) : Advances env options held Fact current log (c :: log)
  | ends {c : Commit} (ended : c.store.lookup .manifest ≠ some .building)
      (same : c.store.lookup .workspace = current.store.lookup .workspace) :
      Advances env options held Fact current log (c :: log)

inductive Decided {α : Type} (decide : BuildStore → Except ErrorKind (Ending α))
    (keys : List BuildKey) (effect : α → BuildStore → BuildStore) (seen : ℕ) (log : Log)
    (current : Commit) : Outcome α → Log → Prop
  | error {c : Commit} {e : ErrorKind} (recent : Recent seen log c)
    (h : decide c.store = .error e) :
      Decided decide keys effect seen log current (.error e) log
  | early {c : Commit} {a : α} (recent : Recent seen log c) (h : decide c.store = .ok (.early a)) :
      Decided decide keys effect seen log current (.value a) log
  | aborted {c : Commit} {a : α} (recent : Recent seen log c)
      (h : decide c.store = .ok (.commit a)) :
      Decided decide keys effect seen log current (.aborted a) log
  | commit {c d : Commit} {a : α} (recent : Recent seen log c)
      (h : decide c.store = .ok (.commit a))
      (same : ∀ k ∈ keys, current.store.lookup k = c.store.lookup k)
      (store : d.store = effect a current.store) :
      Decided decide keys effect seen log current (.value a) (d :: log)

lemma Attempt.decided {α : Type} {actor : α → Actor} {m : BuildTxn (Ending α)}
    {decide : BuildStore → Except ErrorKind (Ending α)} {keys : List BuildKey}
    {write : α → Txn Value → Txn Value} {effect : α → BuildStore → BuildStore} {o : Outcome α}
    (hm : ∀ S, Unscheduled env S →
      m.run (Txn.start S) = (decide S).map (settle (protecting S keys) write))
    (hkeys : ∀ a t, (write a t).protectedKeys = t.protectedKeys)
    (heffect : ∀ a t C, (write a t).onto C = effect a (t.onto C)) (hcertain : ¬ env.uncertain)
    (hr : Reading env options seen log current Fact) (h : Attempt env actor m seen log o log') :
    Decided decide keys effect seen log current o log' := by
  have hrun {newer older : Log} {c : Commit} (hs : Snapshot seen log newer c older) :
      Recent seen log c ∧
        m.run (Txn.start c.store) = (decide c.store).map (settle (protecting c.store keys) write) :=
    ⟨⟨newer, older, hs⟩, hm _ (hr.calm c ⟨newer, older, hs⟩).unscheduled⟩
  cases h with
  | failed hsnapshot herror =>
    obtain ⟨hrecent, heq⟩ := hrun hsnapshot
    refine .error hrecent ?_
    rcases hd : decide _ with _ | _ <;> cases hd ▸ heq ▸ herror
    rfl
  | ended hsnapshot hok =>
    obtain ⟨hrecent, heq⟩ := hrun hsnapshot
    refine .early hrecent ?_
    rcases hd : decide _ with _ | _ | _ <;> cases hd ▸ heq ▸ hok
    rfl
  | aborted hsnapshot hok =>
    obtain ⟨hrecent, heq⟩ := hrun hsnapshot
    refine .aborted hrecent ?_
    rcases hd : decide _ with _ | _ | _ <;> cases hd ▸ heq ▸ hok
    rfl
  | lost huncertain | landed huncertain => exact absurd huncertain hcertain
  | @committed _ _ c d a s hsnapshot hok hcurrent hunchanged =>
    obtain ⟨hrecent, heq⟩ := hrun hsnapshot
    have hagrees := (hsnapshot.runs hok hcurrent hunchanged).agrees
    cases hr.head.symm.trans hcurrent
    rcases hd : decide c.store with _ | _ | a <;> cases hd ▸ heq ▸ hok
    refine .commit hrecent hd (fun k hk => ?_) ?_
    · have hsame := hagrees k (by rw [hkeys, protectedKeys_protecting]; exact hk)
      rw [hsame, (m.run_extends (heq.trans (by rw [hd]; rfl))).snapshot]
      rfl
    · rw [heffect, onto_protecting]

/-! ### Loading -/

/-- The backend, and the load of valid options, has room for a checkpoint and any one pair. -/
structure Fits (env : Environment) (options : BulkWorkerOptions) : Prop where
  mutations : 2 ≤ env.budget.maxMutations
  bytes : 0 < env.budget.maxMutationBytes
  pair : ∀ artifact, ∀ e ∈ env.artifacts.entries artifact,
    env.checkpointBytes + (e.1.length + e.2.length + env.budget.mutationKeyOverheadBytes) ≤
      min env.budget.maxMutationBytes options.load.maxBytes

lemma chunkLoop_ne_error {committed first : ℕ} {expected : Digest} {budget : AdmissionBudget}
    (hexpected : expected = A.prefixDigest artifact committed)
    (hcommitted : committed ≤ (A.entries artifact).length) (hfits : ∀ e ∈ A.entries artifact,
      first + (e.1.length + e.2.length + budget.mutationKeyOverheadBytes) ≤ budget.maxMutationBytes)
    {remaining : ℕ} : ∀ {s : Stream} {entries : List Entry} {bytes : ℕ} {e : ErrorKind},
      s.Valid A artifact → (entries = [] → bytes = first) →
      chunkLoop A artifact committed expected budget remaining s entries bytes ≠ .error e := by
  induction remaining with
  | zero =>
    intro s entries bytes e _ _ herror
    cases herror
  | succ _ ih =>
    intro s _ _ e hvalid hbytes herror
    rw [chunkLoop] at herror
    cases htake : s.take A artifact with
    | none =>
      rw [htake] at herror
      have hend := hvalid.take_none htake
      simp only at herror
      split at herror
      · omega
      · cases herror
    | some taken =>
      obtain ⟨⟨entry, digest⟩, s₁⟩ := taken
      obtain ⟨hentry, hdigest, hconsumed, -, hpending, hposition⟩ := hvalid.take_some htake
      rw [htake] at herror
      simp only [hconsumed] at herror
      have hstep : ({ s₁ with consumed := s.consumed + 1, prefixSha256 := digest } : Stream).Valid A
          artifact := ⟨hdigest, fun _ => hposition, fun p hp => by cases hpending.symm.trans hp⟩
      split at herror
      · split at herror
        · rename_i hreplayed
          exact hreplayed.2 (by rw [hdigest, hexpected, hreplayed.1])
        · exact ih hstep hbytes herror
      · split at herror
        · rename_i hlarge
          split at herror
          · rename_i hempty
            have hfirst := hfits entry (mem_of_getElem? hentry)
            rw [hbytes hempty] at hlarge
            omega
          · cases herror
        · exact ih hstep (fun hempty => by simp at hempty) herror

/-- An epoch that is newly held is newer than the load. -/
def Fresh (old new : Option ℕ) (S : BuildStore) : Prop :=
  ∀ e, new = some e → old = some e ∨ ∀ load, S.lookup .load = some load → load.epoch < e

lemma Fresh.same {old : Option ℕ} : Fresh old old S := fun _ he => .inl he

lemma Fresh.none {old : Option ℕ} : Fresh old none S := fun _ he => by cases he

lemma ValidChunk.checkpoint {before after : BuildLoad} (h : ValidChunk A before after entries)
    (hbefore : Checkpoint A artifact before) : Checkpoint A artifact after := by
  have hslice := congrArg List.length h.slice
  rw [length_take, length_drop, hbefore.same] at hslice
  have hbound := hbefore.bound
  refine ⟨h.artifact.trans hbefore.same, hbefore.same ▸ h.digest, ?_⟩
  rw [h.count]
  omega

lemma LoadedExactly.checkpoint (h : LoadedExactly A S) (hload : S.lookup .load = some load) :
    Checkpoint A load.artifact load := by
  rw [LoadedExactly, hload] at h
  exact ⟨rfl, h.digest, h.bound⟩

lemma Serves.eq (h : Serves artifact S) (hcalm : Calm env options S)
    (hload : S.lookup .load = some load) : load.artifact = artifact := by
  obtain ⟨w, p, hw, hserving, hmanifest⟩ := h
  obtain ⟨_, _, hw', hserving', hmanifest'⟩ := hcalm.artifact load hload
  cases hw.symm.trans hw'
  cases hserving.symm.trans hserving'
  exact hmanifest'.symm.trans hmanifest

/-- What a load claim decides on a calm store: it is refused only after validation began. -/
lemma decideClaim_calm {job : LoadJob} (hcalm : Calm env options S)
    (hserves : Serves job.artifact S) (hbounded : Bounded log.length S)
    (hepochs : log.length + 1 < u64Bound)
    (hlate : ¬ (LoadComplete S ∧ S.lookup .validation ≠ none)) :
    (∃ load, S.lookup .load = some load ∧ load.complete = true ∧
      decideClaim (env.initialLoad job.artifact) (S.lookup .validation) (S.lookup .load) =
        .ok (.early load)) ∨
    (S.lookup .load = none ∧
      decideClaim (env.initialLoad job.artifact) (S.lookup .validation) (S.lookup .load) =
        .ok (.commit (env.initialLoad job.artifact))) ∨
    ∃ load, S.lookup .load = some load ∧ load.complete = false ∧
      decideClaim (env.initialLoad job.artifact) (S.lookup .validation) (S.lookup .load) =
        .ok (.commit { load with epoch := load.epoch + 1 }) := by
  cases hload : S.lookup .load with
  | none => exact .inr (.inl ⟨rfl, rfl⟩)
  | some load =>
    have hartifact : load.artifact = (env.initialLoad job.artifact).artifact :=
      hserves.eq hcalm hload
    have hepoch := hbounded.1 load hload
    rw [decideClaim, if_neg (not_not.mpr hartifact)]
    cases hcomplete : load.complete with
    | true =>
      left
      have hvalidation : S.lookup .validation = none := by
        by_contra hv
        exact hlate ⟨⟨load, hload, hcomplete⟩, hv⟩
      refine ⟨load, rfl, hcomplete, ?_⟩
      rw [hvalidation]
      rfl
    | false =>
      refine .inr (.inr ⟨load, rfl, hcomplete, ?_⟩)
      rw [if_neg (by simp), if_pos (by omega), hcomplete]

section

variable (hcalm : Calm env options S) (hserves : Serves artifact S)

include hcalm hserves

lemma passes_firstClaim (hnone : S.lookup .load = none) :
    Passes env options none S (S.put .load (env.initialLoad artifact)) := by
  change Passes env options none _ (putAll _ [])
  refine passes_load hcalm hserves (fun load hload => ?_) fun _ => le_rfl
  rw [hnone] at hload
  cases hload

lemma passes_nextClaim {old : BuildLoad} (hload : S.lookup .load = some old)
    (hincomplete : old.complete = false) :
    Passes env options none S (S.put .load { old with epoch := old.epoch + 1 }) := by
  have hartifact : old.artifact = artifact := hserves.eq hcalm hload
  change Passes env options none _ (putAll _ [])
  refine passes_load hcalm (hartifact ▸ hserves) (fun load hlookup => ?_)
    fun hnone => by cases hload.symm.trans hnone
  cases hload.symm.trans hlookup
  exact ⟨hincomplete, Nat.le_succ _, le_rfl, fun heq => absurd heq (by simp)⟩

lemma passes_chunk {before after : BuildLoad} (hload : S.lookup .load = some before)
    (hchunk : ValidChunk A before after entries) (hafter : Checkpoint A artifact after) :
    Passes env options (some before.epoch) S (putAll (S.put .load after) entries) := by
  refine passes_load hcalm (hafter.same.symm ▸ hserves) (fun load hlookup => ?_)
    fun hnone => by cases hload.symm.trans hnone
  cases hload.symm.trans hlookup
  exact ⟨hchunk.incomplete,
    hchunk.epoch.ge, by rw [hchunk.epoch]; exact Nat.le_succ _, fun _ => rfl⟩

/-- What a chunk decides: its load is there, or one of a newer epoch. -/
lemma decideChunk_calm {before after : BuildLoad} (hholds : Holds before S)
    (hcheckpoint : Checkpoint env.artifacts artifact before)
    (hchunk : ValidChunk A before after entries) :
    decideChunk before after (S.lookup .load) = .error .bulkBuildSuperseded ∨
    (S.lookup .load = some before ∧ after = before) ∨
    (S.lookup .load = some before ∧
      decideChunk before after (S.lookup .load) = .ok (.commit ())) := by
  obtain ⟨load, hload, hepoch, hsame⟩ := hholds
  have hartifact : load.artifact = before.artifact :=
    (hserves.eq hcalm hload).trans hcheckpoint.same.symm
  rw [hload]
  by_cases heq : load.epoch = before.epoch
  · cases hsame heq
    by_cases hafter : before = after
    · exact .inr (.inl ⟨rfl, hafter.symm⟩)
    · refine .inr (.inr ⟨rfl, ?_⟩)
      rw [decideChunk, if_neg hafter, if_neg (by simp), if_neg (by simp), if_neg (by simp)]
  · left
    have hne : load ≠ after := by
      rintro rfl
      exact heq hchunk.epoch
    rw [decideChunk, if_neg hne, if_neg (not_not.mpr hartifact), if_pos heq]

end

section

variable {job : LoadJob}

lemma claim_advances {o : Outcome BuildLoad} {p : LoadPhase} (hcertain : ¬ env.uncertain)
    (hr : Reading env options seen log current (Serves job.artifact))
    (hepochs : log.length + 1 < u64Bound)
    (hlate : ∀ c, Recent seen log c → ¬ (LoadComplete c.store ∧ c.store.lookup .validation ≠ none))
    (attempt : WorkerAttempt env none
      (loadClaim none env.descriptor (env.initialLoad job.artifact)) seen log o log')
    (next : p ∈ onClaim env job o) : Advances env options none
      (fun S => Serves job.artifact S ∧ p.Fact env.artifacts job.artifact S) current log log' ∧
      Fresh none p.heldEpoch current.store := by
  have hserves := hr.fact current hr.recent
  have hcalm := hr.calm current hr.recent
  have hdecide {c : Commit} (hc : Recent seen log c) := @decideClaim_calm env options
    c.store log job (hr.calm c hc) (hr.fact c hc) (hr.bounded c hc) hepochs (hlate c hc)
  have hdecided : Decided (fun S => decideClaim (env.initialLoad job.artifact)
      (S.lookup .validation) (S.lookup .load)) [.load, .schedule, .manifest]
      (fun load C => C.put .load load) seen log current o log' :=
    attempt.decided (fun S hS => run_loadClaim hS _) (fun _ _ => rfl)
      (fun a t C => onto_stage C t (.put .load a)) hcertain hr
  cases hdecided with
  | error recent herror =>
    rcases hdecide recent with ⟨_, -, -, hok⟩ | ⟨-, hok⟩ | ⟨_, -, -, hok⟩ <;>
      cases hok.symm.trans herror
  | early recent hearly =>
    rcases hdecide recent with ⟨load, -, hcomplete, hok⟩ | ⟨-, hok⟩ | ⟨_, -, -, hok⟩ <;>
      cases hok.symm.trans hearly
    rw [onClaim, if_pos hcomplete, mem_singleton] at next
    subst next
    exact ⟨.stays ⟨hserves, trivial⟩, Fresh.none⟩
  | aborted =>
    rw [onClaim, mem_pair] at next
    rcases next with rfl | rfl
    · exact ⟨.stays ⟨hserves, trivial⟩, Fresh.none⟩
    · exact ⟨.stays ⟨hserves, rfl⟩, Fresh.none⟩
  | @commit c d load recent hcommit same store =>
    have hsame : current.store.lookup .load = c.store.lookup .load := same .load (by simp)
    have hput {load : BuildLoad} (hstore : d.store = current.store.put .load load) :
        Holds load d.store :=
      ⟨load, by rw [hstore]; exact lookup_put_self _ _ _, le_rfl, fun _ => rfl⟩
    rcases hdecide recent with ⟨_, -, -, hok⟩ | ⟨hnone, hok⟩ | ⟨old, hold, hincomplete, hok⟩
    · cases hok.symm.trans hcommit
    · cases hok.symm.trans hcommit
      rw [onClaim, if_neg (by simp [Environment.initialLoad]), mem_singleton] at next
      subst next
      have hpasses := store ▸ passes_firstClaim hcalm hserves (hsame.trans hnone)
      refine ⟨.passes hpasses ⟨hpasses.later.serves hserves, hput store, rfl, rfl, Nat.zero_le _⟩,
        fun e he => .inr fun load hload => ?_⟩
      rw [hsame, hnone] at hload
      cases hload
    · cases hok.symm.trans hcommit
      rw [onClaim, if_neg (by simp [hincomplete]), mem_singleton] at next
      subst next
      have hlookup : current.store.lookup .load = some old := hsame.trans hold
      have hartifact : old.artifact = job.artifact := hserves.eq hcalm hlookup
      have hpasses := store ▸ passes_nextClaim hcalm hserves hlookup hincomplete
      -- The claimed load goes on from the checkpoint that is stored.
      have hcheckpoint := (hr.loaded current hr.recent).checkpoint hlookup
      rw [hartifact] at hcheckpoint
      refine ⟨.passes hpasses ⟨hpasses.later.serves hserves, hput store, hartifact,
        hcheckpoint.digest, hcheckpoint.bound⟩, fun e he => .inr fun load hload => ?_⟩
      cases he
      cases hlookup.symm.trans hload
      exact Nat.lt_succ_self _

lemma nextChunk_ne_error {stream : Stream} {e : ErrorKind} (hfits : Fits env options)
    (hjob : job.options = options.load) (hcheckpoint : Checkpoint env.artifacts job.artifact load)
    (hvalid : LoadPhase.Valid env.artifacts job.artifact (.streaming load stream)) :
    nextChunk env.artifacts job.artifact load.entries load.prefixSha256 (job.budget env)
      env.checkpointBytes stream ≠ .error e := by
  intro read
  obtain ⟨-, -, hstream, -⟩ := hvalid
  rw [nextChunk] at read
  split at read
  · rename_i hmismatch
    exact hmismatch.2 (by rw [hstream.digest, hcheckpoint.digest, hmismatch.1])
  · refine chunkLoop_ne_error hcheckpoint.digest hcheckpoint.bound (fun e he => ?_) hstream
      (fun _ => rfl) read
    have hpair := hfits.pair _ e he
    rw [LoadJob.budget, hjob]
    exact hpair

lemma commit_advances {o : Outcome Unit} {p : LoadPhase} {before after : BuildLoad}
    {stream : Stream} (hcertain : ¬ env.uncertain)
    (hr : Reading env options seen log current fun S =>
      Serves job.artifact S ∧ Holds before S ∧ Checkpoint env.artifacts job.artifact before)
    (hchunk : ValidChunk env.artifacts before after entries)
    (attempt : WorkerAttempt env none (commitChunk none before after entries) seen log o log')
    (next : p ∈ onCommit before after entries stream o) : Advances env options (some before.epoch)
      (fun S => Serves job.artifact S ∧ p.Fact env.artifacts job.artifact S) current log log' ∧
      Fresh (some before.epoch) p.heldEpoch current.store := by
  obtain ⟨hserves, hholds, hcheckpoint⟩ := hr.fact current hr.recent
  have hcalm := hr.calm current hr.recent
  have hdecide {c : Commit} (hc : Recent seen log c) := decideChunk_calm (hr.calm c hc)
    (hr.fact c hc).1 (hr.fact c hc).2.1 hcheckpoint hchunk
  have hdecided : Decided (fun S => decideChunk before after (S.lookup .load))
      [.load, .schedule, .manifest] (fun _ C => putAll (C.put .load after) entries) seen log
      current o log' :=
    attempt.decided (fun S hS => run_commitChunk hS _ _ _)
      (fun _ _ => protectedKeys_stageEntries) (fun a t C => onto_stageEntries.trans
        (congrArg (putAll · entries) (onto_stage C t (.put .load after)))) hcertain hr
  cases hdecided with
  | error recent herror =>
    rw [onCommit, mem_singleton] at next
    subst next
    refine ⟨.stays ⟨hserves, ?_⟩, Fresh.none⟩
    rcases hdecide recent with hlost | ⟨hload, hafter⟩ | ⟨-, hok⟩
    · cases hlost.symm.trans herror
      rfl
    · rw [hload, hafter, decideChunk, if_pos rfl] at herror
      cases herror
    · cases hok.symm.trans herror
  | early recent hearly =>
    rw [onCommit, mem_singleton] at next
    subst next
    rcases hdecide recent with hlost | ⟨-, rfl⟩ | ⟨-, hok⟩
    · cases hlost.symm.trans hearly
    · split_ifs
      · exact ⟨.stays ⟨hserves, trivial⟩, Fresh.none⟩
      · exact ⟨.stays ⟨hserves, hholds, hcheckpoint⟩, Fresh.same⟩
    · cases hok.symm.trans hearly
  | aborted =>
    rw [onCommit, mem_pair] at next
    rcases next with rfl | rfl
    · exact ⟨.stays ⟨hserves, hholds, hcheckpoint⟩, Fresh.same⟩
    · exact ⟨.stays ⟨hserves, rfl⟩, Fresh.none⟩
  | @commit c d u recent hcommit same store =>
    have hsame : current.store.lookup .load = c.store.lookup .load := same .load (by simp)
    have hlookup : current.store.lookup .load = some before := by
      rcases hdecide recent with hlost | ⟨hload, -⟩ | ⟨hload, -⟩
      · cases hlost.symm.trans hcommit
      all_goals exact hsame.trans hload
    have hafter := hchunk.checkpoint hcheckpoint
    have hpasses := store ▸ passes_chunk hcalm hserves hlookup hchunk hafter
    rw [onCommit, mem_singleton] at next
    subst next
    split_ifs
    · exact ⟨.passes hpasses ⟨hpasses.later.serves hserves, trivial⟩, Fresh.none⟩
    · refine ⟨.passes hpasses ⟨hpasses.later.serves hserves, ⟨after, ?_, le_rfl, fun _ => rfl⟩,
        hafter⟩, fun e he => .inl ?_⟩
      · rw [store]
        exact (lookup_putAll (by simp)).trans (lookup_put_self _ _ _)
      · rw [← he]
        exact congrArg some hchunk.epoch.symm

end

lemma LoadStep.advances {job : LoadJob} {p p' : LoadPhase}
    (hfaults : ∀ kind, env.faults kind → terminalFailure kind = false)
    (hcertain : ¬ env.uncertain) (hfits : Fits env options) (hjob : job.options = options.load)
    (hr : Reading env options seen log current fun S =>
      Serves job.artifact S ∧ p.Fact env.artifacts job.artifact S)
    (hvalid : p.Valid env.artifacts job.artifact) (hepochs : log.length + 1 < u64Bound)
    (hlate : p = .claiming → ∀ c, Recent seen log c →
      ¬ (LoadComplete c.store ∧ c.store.lookup .validation ≠ none))
    (h : LoadStep env none job seen p log p' log') : Advances env options p.heldEpoch
      (fun S => Serves job.artifact S ∧ p'.Fact env.artifacts job.artifact S) current log log' ∧
      Fresh p.heldEpoch p'.heldEpoch current.store := by
  obtain ⟨hserves, hfact⟩ := hr.fact current hr.recent
  cases h with
  | fault hkind => exact ⟨.stays ⟨hserves, hfaults _ hkind⟩, Fresh.none⟩
  | claim attempt next =>
    exact claim_advances hcertain (hr.imp fun _ h => h.1) hepochs (hlate rfl) attempt next
  | @chunk _ _ _ _ _ _ read =>
    rw [onChunk]
    split_ifs
    all_goals exact ⟨.stays ⟨hserves, hfact⟩, Fresh.same⟩
  | chunkFailed read => exact absurd read (nextChunk_ne_error hfits hjob hfact.2 hvalid)
  | commit attempt next => exact commit_advances hcertain hr hvalid.2.1 attempt next

/-! ### Publication -/

/-- Pages of a sorted list: what is below a key, then the rest. -/
lemma filter_lt_append_filter_le (n : Bytes) : ∀ {l : List Entry},
    (l.Pairwise fun a b => a.1 < b.1) →
      l.filter (fun e => e.1 < n) ++ l.filter (fun e => n ≤ e.1) = l := by
  intro l
  induction l with
  | nil => exact fun _ => rfl
  | cons e l ih =>
    intro hsorted
    rw [pairwise_cons] at hsorted
    by_cases hlt : e.1 < n
    · rw [List.filter_cons_of_pos (by simpa using hlt),
        List.filter_cons_of_neg (by simpa using hlt), cons_append, ih hsorted.2]
    · have hbelow : l.filter (fun e => e.1 < n) = [] := by
        refine filter_eq_nil_iff.mpr fun d hd => ?_
        simpa using (not_lt.mp hlt).trans (hsorted.1 d hd).le
      have habove : l.filter (fun e => n ≤ e.1) = l := by
        refine filter_eq_self.mpr fun d hd => ?_
        simpa using (not_lt.mp hlt).trans (hsorted.1 d hd).le
      rw [List.filter_cons_of_neg (by simpa using hlt),
        List.filter_cons_of_pos (by simpa using not_lt.mp hlt), hbelow, habove, nil_append]

lemma comparePairs_append (items rest : List Entry) :
    comparePairs items (items ++ rest) = .ok rest := by
  induction items with
  | nil => rfl
  | cons e _ ih =>
    rw [cons_append, comparePairs, if_pos rfl]
    exact ih

variable {next : Option Bytes}

lemma verifyPage_ok {reader : Reader} {before : BuildValidation} {items rest : List Entry}
    (hcompare : comparePairs items ((A.entries reader.artifact).drop reader.position) = .ok rest)
    (hend : next = none → rest = []) :
    verifyPage A reader before next items = .ok (⟨reader.artifact, reader.position + items.length⟩,
        { before with
          entries := before.entries + items.length
          prefixSha256 := A.prefixDigest reader.artifact (reader.position + items.length)
          cursor := next.getD []
          complete := next.isNone }) := by
  have hnot : ¬ (next.isNone = true ∧ rest ≠ []) := by
    rintro ⟨hnone, hrest⟩
    exact hrest (hend (Option.isNone_iff_eq_none.mp hnone))
  rw [verifyPage, hcompare]
  exact if_neg hnot

/-- A page of a store that holds the artifact compares, and the proof goes on. -/
lemma verifyPage_calm {before : BuildValidation} (hreads : ReadsProof A state reader before)
    (hincomplete : before.complete = false) (hlimit : ∀ n ∈ next, before.cursor ≤ n ∧ n ≠ [])
    (hholds : HoldsExactly S (A.entries reader.artifact)) :
    ∃ verified, verifyPage A reader before next (scanData S before.cursor next) = .ok verified ∧
      (verified.2.complete = false → ReadsProof A state verified.1 verified.2) := by
  obtain ⟨hbound, hdigest, hcursor⟩ := hreads.proves hincomplete
  have hsorted := A.sorted reader.artifact
  have hdrop : (A.entries reader.artifact).drop reader.position =
      (A.entries reader.artifact).filter fun e => before.cursor ≤ e.1 := by
    rw [hreads.position]
    exact hcursor
  have hitems := hholds.scanData hsorted before.cursor next
  cases next with
  | none =>
    have hall : scanData S before.cursor none = (A.entries reader.artifact).drop
      reader.position := by
      rw [hitems, hdrop]
      exact filter_congr fun e _ => by simp
    have hcompare := comparePairs_append ((A.entries reader.artifact).drop reader.position) []
    rw [append_nil] at hcompare
    refine ⟨_, verifyPage_ok (by rw [hall]; exact hcompare) fun _ => rfl, fun hc => ?_⟩
    cases hc
  | some n =>
    obtain ⟨hle, hne⟩ := hlimit n rfl
    have hpage : scanData S before.cursor (some n) =
        ((A.entries reader.artifact).drop reader.position).filter fun e => e.1 < n := by
      rw [hitems, hdrop, List.filter_filter]
      exact filter_congr fun e _ => by simp [Bool.and_comm]
    have hsplit := filter_lt_append_filter_le n
      (hsorted.sublist (List.drop_sublist reader.position _))
    have hrest : ((A.entries reader.artifact).drop reader.position).filter (fun e => n ≤ e.1) =
        (A.entries reader.artifact).filter fun e => n ≤ e.1 := by
      rw [hdrop, List.filter_filter]
      refine filter_congr fun e _ => ?_
      by_cases hn : n ≤ e.1
      · simp [hn, hle.trans hn]
      · simp [hn]
    have hcompare : comparePairs (scanData S before.cursor (some n))
        ((A.entries reader.artifact).drop reader.position) =
          .ok ((A.entries reader.artifact).filter fun e => n ≤ e.1) := by
      have happend := comparePairs_append (scanData S before.cursor (some n))
        ((A.entries reader.artifact).filter fun e => n ≤ e.1)
      rw [hpage, ← hrest, hsplit] at happend
      rw [hpage]
      rw [hrest] at happend
      exact happend
    have hok := @verifyPage_ok A (some n) reader before _ _ hcompare fun hnone => by cases hnone
    refine ⟨_, hok, fun _ => ⟨?_, hreads.artifact, fun _ => ?_⟩⟩
    · change reader.position + _ = before.entries + _
      rw [hreads.position]
    · have hlength := congrArg List.length hsplit
      rw [length_append, ← hpage, length_drop] at hlength
      have hposition : reader.position ≤ (A.entries reader.artifact).length := by
        rw [hreads.position]
        exact hbound
      refine ⟨?_, ?_, ?_⟩
      · change before.entries + _ ≤ (A.entries reader.artifact).length
        rw [← hreads.position]
        omega
      · change A.prefixDigest reader.artifact (reader.position + _) =
          A.prefixDigest _ (before.entries + _)
        rw [hreads.position]
      · change (A.entries reader.artifact).drop (before.entries + _) = _
        rw [← hreads.position, ← drop_drop]
        have hpast : ((A.entries reader.artifact).drop reader.position).drop
            (scanData S before.cursor (some n)).length =
              ((A.entries reader.artifact).drop reader.position).filter fun e => n ≤ e.1 := by
          conv_lhs => rw [← hsplit, ← hpage]
          exact drop_left
        rw [hpast, hrest]
        rfl

lemma Accepts.serves (h : Accepts state S) (hreads : ReadsProof A state reader proof) :
    Serves reader.artifact S := by
  obtain ⟨w, p, hw, -, hstate, hserving⟩ := h
  refine ⟨w, p, hw, hserving, ?_⟩
  have hartifact := hreads.artifact
  rw [hstate] at hartifact
  exact Option.some.inj hartifact

section
variable (hcalm : Calm env options S)
include hcalm

lemma decideFence_calm (haccepts : Accepts state S) (hvalidation : S.lookup .validation ≠ none)
    : decideFence state S = .ok () := by
  obtain ⟨w, p, hw, htoken, hstate, hserving⟩ := haccepts
  obtain ⟨v, hv⟩ := ne_none_iff_exists'.mp hvalidation
  obtain ⟨load, hload, hcomplete, -⟩ := hcalm.validation v hv
  obtain ⟨-, -, hfailure, -⟩ := hcalm.workspace w hw
  have hartifact : load.artifact = p.manifest := Serves.eq ⟨w, p, hw, hserving, rfl⟩ hcalm hload
  rw [decideFence, if_pos, if_pos]
  · exact loadedFor_eq_true.mpr ⟨load, hload, hcomplete, by rw [hstate, hartifact]; rfl⟩
  · exact sameOwner_eq_true.mpr ⟨w, hw, htoken, hserving.trans hstate.symm, hfailure⟩

lemma decideBegin_calm (haccepts : Accepts state S) :
    (∃ e, decideBegin A state S = .error e ∧ terminalFailure e = false) ∨
    (∃ proof, S.lookup .validation = some proof ∧ decideBegin A state S = .ok (.early proof)) ∨
    ∃ load, S.lookup .load = some load ∧ load.complete = true ∧ S.lookup .validation = none ∧
      decideBegin A state S =
        .ok (.commit ⟨load.artifact, [], 0, A.prefixDigest load.artifact 0, false⟩) := by
  obtain ⟨w, p, hw, -, hstate, hserving⟩ := haccepts
  rw [decideBegin]
  by_cases hsame : S.lookup .workspace = some state
  · rw [if_pos hsame]
    cases hload : S.lookup .load with
    | none => exact .inl ⟨_, rfl, rfl⟩
    | some load =>
      have hartifact : load.artifact = p.manifest := Serves.eq ⟨w, p, hw, hserving, rfl⟩ hcalm hload
      cases hcomplete : load.complete with
      | false =>
        left
        refine ⟨.bulkBuildBusy, ?_, rfl⟩
        rw [decideValidation, if_pos hcomplete]
      | true =>
        have hdecide : decideValidation state (some load) = .ok load := by
          rw [decideValidation, if_neg (by simp [hcomplete]), hstate]
          exact if_pos hartifact
        rw [hdecide]
        cases hv : S.lookup .validation with
        | some proof => exact .inr (.inl ⟨proof, rfl, rfl⟩)
        | none => exact .inr (.inr ⟨load, rfl, hcomplete, rfl, rfl⟩)
  · rw [if_neg hsame]
    exact .inl ⟨_, rfl, rfl⟩

lemma onRead_fact : (onRead S).Fact A S := by
  rw [onRead, hcalm.unscheduled.building]
  change (onWorkspace _).Fact A S
  cases hw : S.lookup .workspace with
  | none => trivial
  | some w =>
    obtain ⟨-, -, hfailure, -⟩ := hcalm.workspace w hw
    rw [onWorkspace, hfailure]
    change (if w.serving = none then PublishPhase.done _ else PublishPhase.beginning w).Fact A S
    by_cases hserving : w.serving = none
    · rw [if_pos hserving]
      trivial
    · rw [if_neg hserving]
      obtain ⟨p, hp⟩ := ne_none_iff_exists'.mp hserving
      exact ⟨w, p, hw, rfl, hp, hp⟩

lemma onProof_fact (haccepts : Accepts state S) (hv : S.lookup .validation = some proof) :
    (onProof state proof).Fact env.artifacts S := by
  rw [onProof]
  cases hcomplete : proof.complete with
  | true => exact ⟨haccepts, hcomplete, hv⟩
  | false =>
    refine ⟨haccepts, by simp [hv], hcomplete, fun p hp => ?_⟩
    obtain ⟨load, hload, -, hproves⟩ := hcalm.validation proof hv
    obtain ⟨w, _, hw, -, hstate, hserving⟩ := haccepts
    cases hp.symm.trans hstate
    have hartifact : load.artifact = p.manifest := Serves.eq ⟨w, p, hw, hserving, rfl⟩ hcalm hload
    exact hartifact ▸ hproves

end

lemma onOpen_fact (h : (PublishPhase.opening state proof).Fact A S) :
    (onOpen A state proof).Fact A S := by
  obtain ⟨haccepts, hvalidation, hincomplete, hproves⟩ := h
  obtain ⟨_, p, _, _, hstate, _⟩ := id haccepts
  obtain ⟨hbound, hdigest, -⟩ := hproves p hstate hincomplete
  rw [onOpen, hstate]
  change (if _ then PublishPhase.checking state _ proof else _).Fact A S
  rw [if_pos ⟨hbound, hdigest.symm⟩]
  exact ⟨haccepts, hvalidation, hincomplete, rfl, by rw [hstate]; rfl, hproves p hstate⟩

lemma onPage_fact {verified : Reader × BuildValidation} (haccepts : Accepts state S)
    (hv : S.lookup .validation = some verified.2)
    (hreads : verified.2.complete = false → ReadsProof A state verified.1 verified.2) :
    (onPage state verified).Fact A S := by
  rw [onPage]
  cases hcomplete : verified.2.complete with
  | true => exact ⟨haccepts, hcomplete, hv⟩
  | false => exact ⟨haccepts, by simp [hv], hcomplete, hreads hcomplete⟩

lemma decidePage_calm {before : BuildValidation} (hcalm : Calm env options S)
    (hloaded : LoadedExactly env.artifacts S)
    (hfact : (PublishPhase.checking state reader before).Fact env.artifacts S)
    (hlimit : ∀ n ∈ next, before.cursor ≤ n ∧ n ≠ []) :
    decidePage env.artifacts state reader before next S = .error .bulkBuildSuperseded ∨
    ∃ verified, S.lookup .validation = some before ∧
      decidePage env.artifacts state reader before next S = .ok (.commit verified) ∧
      (verified.2.complete = false → ReadsProof env.artifacts state verified.1 verified.2) := by
  obtain ⟨haccepts, hvalidation, hincomplete, hreads⟩ := hfact
  rw [decidePage, decideFence_calm hcalm haccepts hvalidation]
  obtain ⟨v, hv⟩ := ne_none_iff_exists'.mp hvalidation
  by_cases hsame : v = before
  · right
    subst hsame
    obtain ⟨load, hload, hcomplete, -⟩ := hcalm.validation v hv
    have hartifact : load.artifact = reader.artifact := (haccepts.serves hreads).eq hcalm hload
    have hholds : HoldsExactly S (env.artifacts.entries reader.artifact) := by
      rw [LoadedExactly, hload] at hloaded
      have hall := hloaded.holds
      rw [hloaded.complete hcomplete, List.take_length, hartifact] at hall
      exact hall
    obtain ⟨verified, hok, hnext⟩ := verifyPage_calm hreads hincomplete hlimit hholds
    refine ⟨verified, hv, ?_, hnext⟩
    simp only [hv, expectProof, if_true, hok]
    rfl
  · left
    simp only [hv, expectProof, if_neg hsame]

lemma decideRepeat_calm {before after : BuildValidation} (hcalm : Calm env options S)
    (hfact : (PublishPhase.repeating state reader before after).Fact A S) :
    decideRepeat state reader before after S = .error .bulkBuildSuperseded ∨
    (S.lookup .validation = some after ∧
      decideRepeat state reader before after S = .ok (.early (reader, after))) ∨
    (S.lookup .validation = some before ∧
      decideRepeat state reader before after S = .ok (.commit (reader, after))) := by
  obtain ⟨haccepts, hvalidation, -, -⟩ := hfact
  rw [decideRepeat, decideFence_calm hcalm haccepts hvalidation]
  obtain ⟨v, hv⟩ := ne_none_iff_exists'.mp hvalidation
  by_cases hafter : v = after
  · refine .inr (.inl ⟨by rw [hv, hafter], ?_⟩)
    exact if_pos (by rw [hv, hafter])
  · have hne : S.lookup .validation ≠ some after := by
      rw [hv]
      simpa using hafter
    by_cases hbefore : v = before
    · refine .inr (.inr ⟨by rw [hv, hbefore], ?_⟩)
      refine (if_neg hne).trans ?_
      rw [hv, expectProof, if_pos hbefore]
    · left
      refine (if_neg hne).trans ?_
      rw [hv, expectProof, if_neg hbefore]

lemma passes_page {before : BuildValidation} {verified : Reader × BuildValidation}
    (hcalm : Calm env options S) (haccepts : Accepts state S)
    (hv : S.lookup .validation = some before) (hincomplete : before.complete = false)
    (hreads : verified.2.complete = false → ReadsProof env.artifacts state verified.1 verified.2) :
    Passes env options held S (S.put .validation verified.2) := by
  obtain ⟨load, hload, hcomplete, -⟩ := hcalm.validation before hv
  refine passes_validation hcalm ⟨load, hload, hcomplete, fun hunfinished => ?_⟩ fun v hlookup => ?_
  · have hnext := hreads hunfinished
    rw [(haccepts.serves hnext).eq hcalm hload]
    exact hnext.proves hunfinished
  · cases hv.symm.trans hlookup
    exact hincomplete

lemma Decided.onOutcome {α : Type} {decide : BuildStore → Except ErrorKind (Ending α)}
    {keys : List BuildKey} {effect : α → BuildStore → BuildStore}
    {continue_ again : α → PublishPhase} {o : Outcome α} {p : PublishPhase}
    (h : Decided decide keys effect seen log current o log')
    (hr : Reading env options seen log current Fact)
    (next : p ∈ onOutcome state continue_ again o) (hends : ∀ c, Recent seen log c →
      (∃ e, decide c.store = .error e ∧ terminalFailure e = false) ∨
      (∃ a, decide c.store = .ok (.early a) ∧ (continue_ a).Fact env.artifacts c.store) ∨
      ∃ a, decide c.store = .ok (.commit a) ∧ (again a).Fact env.artifacts current.store ∧
        ((∀ k ∈ keys, current.store.lookup k = c.store.lookup k) →
          Passes env options none current.store (effect a current.store) ∧
            (continue_ a).Fact env.artifacts (effect a current.store))) :
    Advances env options none (p.Fact env.artifacts) current log log' := by
  cases h with
  | error recent hdecide =>
    cases mem_singleton.mp next
    rcases hends _ recent with ⟨_, he, hkind⟩ | ⟨_, he, -⟩ | ⟨_, he, -⟩ <;>
      cases he.symm.trans hdecide
    exact .stays hkind
  | early recent hdecide =>
    cases mem_singleton.mp next
    rcases hends _ recent with ⟨_, he, -⟩ | ⟨_, he, hfact⟩ | ⟨_, he, -⟩ <;>
      cases he.symm.trans hdecide
    exact .stays (fact_later (hr.later _ recent) hfact)
  | aborted recent hdecide =>
    rcases hends _ recent with ⟨_, he, -⟩ | ⟨_, he, -⟩ | ⟨_, he, hfact, -⟩ <;>
      cases he.symm.trans hdecide
    rcases mem_pair.mp next with rfl | rfl
    · exact .stays hfact
    · exact .stays rfl
  | commit recent hdecide same store =>
    cases mem_singleton.mp next
    rcases hends _ recent with ⟨_, he, -⟩ | ⟨_, he, -⟩ | ⟨_, he, -, hcommit⟩ <;>
      cases he.symm.trans hdecide
    obtain ⟨hpasses, hfact⟩ := hcommit same
    rw [← store] at hpasses hfact
    exact .passes hpasses hfact

section

variable {state : BuildWorkspace} {reader : Reader} {before after : BuildValidation}
  {p : PublishPhase}

lemma begin_advances {o : Outcome BuildValidation} (hcertain : ¬ env.uncertain)
    (hr : Reading env options seen log current (Accepts state))
    (attempt : WorkerAttempt env none (beginValidation env.artifacts none env.descriptor state) seen
      log o log') (next : p ∈ onOutcome state (.onProof state) (fun _ => .beginning state) o) :
    Advances env options none (p.Fact env.artifacts) current log log' := by
  have hdecided : Decided (decideBegin env.artifacts state)
      [.validation, .load, .workspace, .schedule, .manifest]
      (fun proof C => C.put .validation proof) seen log current o log' :=
    attempt.decided (fun S hS => run_beginValidation hS _) (fun _ _ => rfl)
      (fun a t C => onto_stage C t (.put .validation a)) hcertain hr
  have hfact := hr.fact current hr.recent
  refine hdecided.onOutcome hr next fun c hc => ?_
  rcases @decideBegin_calm env options env.artifacts _ _ (hr.calm c hc) (hr.fact c hc) with
    herror | ⟨proof, hv, hok⟩ | ⟨load, hload, hcomplete, hv, hok⟩
  · exact .inl herror
  · exact .inr (.inl ⟨proof, hok, onProof_fact (hr.calm c hc) (hr.fact c hc) hv⟩)
  · refine .inr (.inr ⟨_, hok, hfact, fun same => ?_⟩)
    rw [← same .load (by simp)] at hload
    rw [← same .validation (by simp)] at hv
    -- A new proof has compared nothing.
    have hproves : (⟨load.artifact, [], 0, env.artifacts.prefixDigest load.artifact 0,
        false⟩ : BuildValidation).Proves env.artifacts load.artifact := fun _ => by
      refine ⟨Nat.zero_le _, rfl, ?_⟩
      rw [List.drop_zero]
      exact (filter_eq_self.mpr fun e _ =>
        decide_eq_true (not_lt.mp (List.not_lt_nil _))).symm
    have hpasses := @passes_validation env options _ none _ (hr.calm current hr.recent)
      ⟨load, hload, hcomplete, hproves⟩ fun v hlookup => by cases hv.symm.trans hlookup
    exact ⟨hpasses, onProof_fact hpasses.calm (hpasses.later.accepts hfact) (lookup_put_self _ _ _)⟩

variable {o : Outcome (Reader × BuildValidation)}

lemma page_advances {limit : Option Bytes} (hcertain : ¬ env.uncertain)
    (hr : Reading env options seen log current
      ((PublishPhase.checking state reader before).Fact env.artifacts))
    (hlimit : ∀ n ∈ limit, before.cursor ≤ n ∧ n ≠ [])
    (attempt : WorkerAttempt env none (firstPage env.artifacts none state reader before limit) seen
      log o log') (next : p ∈ onOutcome state (.onPage state)
      (fun verified => .repeating state verified.1 before verified.2) o) :
    Advances env options none (p.Fact env.artifacts) current log log' := by
  have hdecided : Decided (decidePage env.artifacts state reader before limit)
      [.validation, .schedule, .load, .workspace, .manifest]
      (fun verified C => C.put .validation verified.2) seen log current o log' :=
    attempt.decided (fun S hS => run_firstPage hS _ _ _ _) (fun _ _ => rfl)
      (fun a t C => onto_stage C t (.put .validation a.2)) hcertain hr
  obtain ⟨haccepts, hvalidation, hincomplete, -⟩ := hr.fact current hr.recent
  refine hdecided.onOutcome hr next fun c hc => ?_
  rcases decidePage_calm (hr.calm c hc) (hr.loaded c hc) (hr.fact c hc) hlimit with
    hlost | ⟨_, hv, hok, hreads⟩
  · exact .inl ⟨_, hlost, rfl⟩
  · refine .inr (.inr ⟨_, hok, ⟨haccepts, hvalidation, hincomplete, hreads⟩, fun same => ?_⟩)
    rw [← same .validation (by simp)] at hv
    have hpasses := @passes_page env options _ none _ _ _ (hr.calm current hr.recent) haccepts hv
      hincomplete hreads
    exact ⟨hpasses, onPage_fact (hpasses.later.accepts haccepts) (lookup_put_self _ _ _) hreads⟩

lemma again_advances (hcertain : ¬ env.uncertain) (hr : Reading env options seen log current
      ((PublishPhase.repeating state reader before after).Fact env.artifacts))
    (attempt : WorkerAttempt env none (repeatPage none state reader before after) seen log o log')
    (next : p ∈ onOutcome state (.onPage state) (fun _ => .repeating state reader before after) o) :
    Advances env options none (p.Fact env.artifacts) current log log' := by
  have hdecided : Decided (decideRepeat state reader before after)
      [.validation, .schedule, .load, .workspace, .manifest]
      (fun _ C => C.put .validation after) seen log current o log' :=
    attempt.decided (fun S hS => run_repeatPage hS _ _ _ _) (fun _ _ => rfl)
      (fun a t C => onto_stage C t (.put .validation after)) hcertain hr
  have hfact := hr.fact current hr.recent
  obtain ⟨haccepts, -, hincomplete, hreads⟩ := id hfact
  refine hdecided.onOutcome hr next fun c hc => ?_
  rcases decideRepeat_calm (hr.calm c hc) (hr.fact c hc) with hlost | ⟨hv, hok⟩ | ⟨hv, hok⟩
  · exact .inl ⟨_, hlost, rfl⟩
  · obtain ⟨haccepts, -, -, hreads⟩ := hr.fact c hc
    exact .inr (.inl ⟨_, hok, onPage_fact haccepts hv hreads⟩)
  · refine .inr (.inr ⟨_, hok, hfact, fun same => ?_⟩)
    rw [← same .validation (by simp)] at hv
    have hpasses := @passes_page env options _ none state before (reader, after)
      (hr.calm current hr.recent) haccepts hv hincomplete hreads
    exact ⟨hpasses, onPage_fact (hpasses.later.accepts haccepts) (lookup_put_self _ _ _) hreads⟩

lemma activate_advances {o : Outcome Unit} (hcertain : ¬ env.uncertain)
    (hr : Reading env options seen log current
      ((PublishPhase.activating state proof).Fact env.artifacts))
    (attempt : WorkerAttempt env none (Bulk.activate none state proof) seen log o log')
    (next : p ∈ onActivate state proof o) :
    Advances env options none (p.Fact env.artifacts) current log log' := by
  have hdecided : Decided (decideActivate state proof)
      [.validation, .schedule, .load, .workspace, .manifest, .manifest]
      (fun _ C => C.put .manifest .active) seen log current o log' :=
    attempt.decided (fun S hS => run_activate hS _ _) (fun _ _ => rfl)
      (fun a t C => onto_stage C t (.put .manifest .active)) hcertain hr
  -- A complete proof stays, so that an activation is never refused.
  have hdecide {c : Commit} (hc : Recent seen log c) :
      decideActivate state proof c.store = .ok (.commit ()) := by
    obtain ⟨haccepts, hcomplete, hv⟩ := hr.fact c hc
    rw [decideActivate, decideFence_calm (hr.calm c hc) haccepts (by simp [hv])]
    exact if_pos ⟨hcomplete, hv⟩
  cases hdecided with
  | error recent herror => cases (hdecide recent).symm.trans herror
  | early recent hearly => cases (hdecide recent).symm.trans hearly
  | aborted =>
    rcases mem_pair.mp next with rfl | rfl
    · exact .stays (hr.fact current hr.recent)
    · exact .stays rfl
  | @commit c d u _ hcommit _ store =>
    refine .ends ?_ ?_
    · rw [store, lookup_put_self]
      simp
    · rw [store]
      exact lookup_put_ne _ _ (by decide)

end

lemma PublishStep.advances {p p' : PublishPhase}
    (hfaults : ∀ kind, env.faults kind → terminalFailure kind = false)
    (hcertain : ¬ env.uncertain) (hr : Reading env options seen log current (p.Fact env.artifacts))
    (h : PublishStep env none seen p log p' log') :
    Advances env options none (p'.Fact env.artifacts) current log log' := by
  have hfact := hr.fact current hr.recent
  cases h with
  | fault hkind => exact .stays (hfaults _ hkind)
  | read hsnapshot =>
    have hrecent : Recent seen log _ := ⟨_, _, hsnapshot⟩
    exact .stays (fact_later (hr.later _ hrecent) (onRead_fact (hr.calm _ hrecent)))
  | opened => exact .stays (onOpen_fact hfact)
  | resumable => exact .stays trivial
  | record hkind => cases hkind.symm.trans hfact
  | recover => exact .stays trivial
  | begin attempt next => exact begin_advances hcertain hr attempt next
  | page hlimit attempt next => exact page_advances hcertain hr hlimit attempt next
  | again attempt next => exact again_advances hcertain hr attempt next
  | activate attempt next => exact activate_advances hcertain hr attempt next

/-! ### Preparation -/

lemma Advances.imp (h : Advances env options held Fact current log log')
    (himp : ∀ S, Fact S → Fact' S) : Advances env options held Fact' current log log' := by
  cases h with
  | stays fact => exact .stays (himp _ fact)
  | passes passes fact => exact .passes passes (himp _ fact)
  | ends ended same => exact .ends ended same

lemma prepare_fact (hfits : Fits env options) (hvalid : options.validate = .ok ())
    (hoptions : state.options = options)
    (hforest : state.serving ≠ none → state.forest ≠ none) (hw : S.lookup .workspace ≠ none)
    (hserves : ∀ p, state.serving = some p → Serves p.manifest S) :
    (prepare env state).Fact env options S ∧ (prepare env state).heldEpoch = none := by
  rw [prepare]
  cases hserving : state.serving with
  | none =>
    change (if state.forest = none then RunPhase.forest state else .serving state).Fact _ _ S ∧
      (if state.forest = none then RunPhase.forest state else .serving state).heldEpoch = none
    split_ifs with hnone
    · exact ⟨⟨hserving, hw⟩, rfl⟩
    · exact ⟨⟨hserving, hnone, hw⟩, rfl⟩
  | some p =>
    have hstart : LoadPhase.start env ⟨p.manifest, state.options.load⟩ = .claiming := by
      have hmutations := hfits.mutations
      have hbytes := hfits.bytes
      rw [BulkWorkerOptions.validate] at hvalid
      split_ifs at hvalid with hrefused
      rw [hoptions, LoadPhase.start]
      refine if_neg ?_
      simp only [LoadJob.budget]
      omega
    simp only [if_neg (hforest (by simp [hserving])), hstart]
    exact ⟨⟨hserves p hserving, by rw [hoptions], trivial⟩, rfl⟩

lemma decideAccept_ne {e : ErrorKind} (hw : w ≠ none)
    (herror : decideAccept before after w = .error e) : terminalFailure e = false := by
  obtain ⟨_, rfl⟩ := ne_none_iff_exists'.mp hw
  rw [decideAccept] at herror
  split_ifs at herror
  cases herror
  rfl

lemma decideAccept_early (hearly : decideAccept before after w = .ok (.early ())) :
    w = some after := by
  cases w with
  | none => cases hearly
  | some =>
    rw [decideAccept] at hearly
    split_ifs at hearly with hafter hbefore
    · rw [hafter]
    all_goals cases hearly

lemma decideAccept_commit (hcommit : decideAccept before after w = .ok (.commit ())) :
    w = some before := by
  cases w with
  | none => cases hcommit
  | some =>
    rw [decideAccept] at hcommit
    split_ifs at hcommit with hafter hbefore
    · cases hcommit
    · rw [not_not.mp hbefore]

lemma accept_advances {o : Outcome Unit} {continue_ again : RunPhase} (hcertain : ¬ env.uncertain)
    (hr : Reading env options seen log current Fact)
    (attempt : WorkerAttempt env none (accept none before after) seen log o log')
    (next : p ∈ RunPhase.onAccept before continue_ again o)
    (hw : ∀ c, Recent seen log c → c.store.lookup .workspace ≠ none)
    (hafter : before.options = options → before.hardLimits = env.hardLimits →
      before.failure = none → after.options = options ∧ after.hardLimits = env.hardLimits ∧
        after.failure = none ∧ (after.serving ≠ none → after.forest ≠ none))
    (hkeep : before.serving = none ∧ after.token = before.token ∧ after.epoch = before.epoch)
    (hcontinue : ∀ S, Calm env options S → S.lookup .workspace = some after →
      ∀ S', Later S S' → continue_.Fact env options S' ∧ continue_.heldEpoch = none)
    (hagain : again.Fact env options current.store ∧ again.heldEpoch = none) :
    Advances env options none (p.Fact env options) current log log' ∧ p.heldEpoch = none := by
  have hdecided : Decided (fun S => decideAccept before after (S.lookup .workspace))
      [.workspace, .schedule, .manifest] (fun _ C => C.put .workspace after) seen log current o
      log' :=
    attempt.decided (fun S hS => run_accept hS _ _) (fun _ _ => rfl)
      (fun a t C => onto_stage C t (.put .workspace after)) hcertain hr
  cases hdecided with
  | error recent herror =>
    cases mem_singleton.mp next
    exact ⟨.stays (decideAccept_ne (hw _ recent) herror), rfl⟩
  | early recent hearly =>
    cases mem_singleton.mp next
    obtain ⟨hnext, hnone⟩ :=
      hcontinue _ (hr.calm _ recent) (decideAccept_early hearly) _ (hr.later _ recent)
    exact ⟨.stays hnext, hnone⟩
  | aborted =>
    rcases mem_pair.mp next with rfl | rfl
    · exact ⟨.stays hagain.1, hagain.2⟩
    · exact ⟨.stays rfl, rfl⟩
  | @commit c d u recent hcommit same store =>
    cases mem_singleton.mp next
    have hlookup : current.store.lookup .workspace = some before :=
      (same .workspace (by simp)).trans (decideAccept_commit hcommit)
    have hcalm := hr.calm current hr.recent
    obtain ⟨hoptions, hlimits, hfailure, -⟩ := hcalm.workspace before hlookup
    obtain ⟨hserving, htoken, hepoch⟩ := hkeep
    have hpasses : Passes env options none current.store d.store := by
      rw [store]
      refine passes_workspace hcalm (hcalm.valid (by simp [hlookup]))
        (hafter hoptions hlimits hfailure) (fun w hw => ?_)
        fun hnone => by cases hlookup.symm.trans hnone
      cases hlookup.symm.trans hw
      refine ⟨htoken, fun p hp => ?_, by omega⟩
      cases hserving.symm.trans hp
    have hw : d.store.lookup .workspace = some after := by
      rw [store]
      exact lookup_put_self _ _ _
    obtain ⟨hnext, hnone⟩ := hcontinue _ hpasses.calm hw _ (Later.refl _)
    exact ⟨.passes hpasses hnext, hnone⟩

lemma decideWorkspace_ok {token : Token}
    (h : decideWorkspace options env.hardLimits token w = .ok state) :
    (w = none ∧ state = ⟨options, env.hardLimits, token, 1, none, none, none⟩) ∨
    ∃ old, w = some old ∧ state = { old with epoch := old.epoch + 1 } := by
  cases w with
  | none =>
    cases h
    exact .inl ⟨rfl, rfl⟩
  | some old =>
    right
    refine ⟨old, rfl, ?_⟩
    rw [decideWorkspace] at h
    cases hfailure : old.failure with
    | some =>
      simp only [hfailure] at h
      split_ifs at h
    | none =>
      simp only [hfailure] at h
      split_ifs at h
      cases h
      rw [← hfailure]

lemma RunStep.advances {p' : RunPhase}
    (hfaults : ∀ kind, env.faults kind → terminalFailure kind = false)
    (hcertain : ¬ env.uncertain) (hfits : Fits env options)
    (hr : Reading env options seen log current (p.Fact env options))
    (hvalid : p.Valid env.artifacts) (hepochs : log.length + 1 < u64Bound)
    (hlate : ∀ state job, p = .loading state job .claiming → ∀ c, Recent seen log c →
      ¬ (LoadComplete c.store ∧ c.store.lookup .validation ≠ none))
    (h : RunStep env none options seen p log p' log') :
    Advances env options p.heldEpoch (p'.Fact env options) current log log' ∧
      Fresh p.heldEpoch p'.heldEpoch current.store := by
  have hfact := hr.fact current hr.recent
  have hcalm := hr.calm current hr.recent
  cases h with
  | fault hkind => exact ⟨.stays (hfaults _ hkind), Fresh.none⟩
  | resumable => exact ⟨.stays trivial, Fresh.none⟩
  | record hkind => cases hkind.symm.trans hfact
  | forestBuilt manifest => exact ⟨.stays ⟨hfact.1, ⟨_, rfl⟩, hfact.2⟩, Fresh.none⟩
  | servingBuilt manifest =>
    exact ⟨.stays ⟨hfact.1, hfact.2.1, ⟨_, rfl⟩, hfact.2.2⟩, Fresh.none⟩
  | @loaded _ state job result =>
    cases result with
    | ok => exact ⟨.stays trivial, Fresh.none⟩
    | error e => exact ⟨.stays hfact.2.2, Fresh.none⟩
  | @load _ _ state job _ _ step =>
    obtain ⟨hadvances, hfresh⟩ := step.advances hfaults hcertain hfits hfact.2.1
      (hr.imp fun _ h => ⟨h.1, h.2.2⟩) hvalid hepochs fun hp => hlate state job (by rw [hp])
    exact ⟨hadvances.imp fun _ h => ⟨h.1, hfact.2.1, h.2⟩, hfresh⟩
  | @acceptForest _ _ before _ o _ attempt next =>
    obtain ⟨hserving, ⟨p, rfl⟩, -⟩ := id hfact
    have hcontinue (S : BuildStore) (_ : Calm env options S)
        (hw : S.lookup .workspace = some { before with forest := some p }) (S' : BuildStore)
        (hlater : Later S S') :
        (RunPhase.serving { before with forest := some p }).Fact env options S' ∧
          (RunPhase.serving { before with forest := some p }).heldEpoch = none :=
      ⟨⟨hserving, by simp, hlater.workspace_ne (by simp [hw])⟩, rfl⟩
    obtain ⟨hadvances, hnone⟩ := accept_advances hcertain hr attempt next
      (fun c hc => (hr.fact c hc).2.2)
      (fun hoptions hlimits hfailure => ⟨hoptions, hlimits, hfailure, fun _ => by simp⟩)
      ⟨hserving, rfl, rfl⟩ hcontinue ⟨hfact, rfl⟩
    exact ⟨hadvances, hnone ▸ Fresh.none⟩
  | @acceptServing _ _ before _ o _ attempt next =>
    obtain ⟨hserving, hforest, ⟨p, rfl⟩, -⟩ := id hfact
    have hcontinue (S : BuildStore) (hcalm : Calm env options S)
        (hw : S.lookup .workspace = some { before with serving := some p }) (S' : BuildStore)
        (hlater : Later S S') :
        (prepare env { before with serving := some p }).Fact env options S' ∧
          (prepare env { before with serving := some p }).heldEpoch = none := by
      refine prepare_fact hfits (hcalm.valid (by simp [hw])) (hcalm.workspace _ hw).1
        (fun _ => hforest)
        (hlater.workspace_ne (by simp [hw])) fun p' hp' => ?_
      exact hlater.serves ⟨_, p', hw, hp', rfl⟩
    obtain ⟨hadvances, hnone⟩ := accept_advances hcertain hr attempt next
      (fun c hc => (hr.fact c hc).2.2.2)
      (fun hoptions hlimits hfailure => ⟨hoptions, hlimits, hfailure, fun _ => hforest⟩)
      ⟨hserving, rfl, rfl⟩ hcontinue ⟨hfact, rfl⟩
    exact ⟨hadvances, hnone ▸ Fresh.none⟩
  | @claim _ _ token o _ attempt next =>
    have hdecided : Decided (decideWorker env options token) [.workspace, .schedule, .manifest]
        (fun state C => C.put .workspace state) seen log current o log' :=
      attempt.decided (fun S hS => run_workerClaim hS _ _) (fun _ _ => rfl)
        (fun a t C => onto_stage C t (.put .workspace a)) hcertain hr
    have hdecide {c : Commit} {ending : Ending BuildWorkspace}
        (hok : decideWorker env options token c.store = .ok ending) : ∃ state,
          ending = .commit state ∧
          decideWorkspace options env.hardLimits token (c.store.lookup .workspace) = .ok state := by
      rw [decideWorker] at hok
      cases hstate : decideWorkspace options env.hardLimits token (c.store.lookup .workspace) with
      | error e =>
        rw [hstate] at hok
        cases hok
      | ok state =>
        rw [hstate] at hok
        simp only at hok
        split_ifs at hok
        cases hok
        exact ⟨state, rfl, rfl⟩
    cases hdecided with
    | error =>
      cases mem_singleton.mp next
      exact ⟨.stays trivial, Fresh.none⟩
    | early _ hearly =>
      obtain ⟨_, hcommit, -⟩ := hdecide hearly
      cases hcommit
    | aborted =>
      rcases mem_pair.mp next with rfl | rfl
      · exact ⟨.stays hfact, Fresh.none⟩
      · exact ⟨.stays trivial, Fresh.none⟩
    | @commit c d state _ hcommit same store =>
      cases mem_singleton.mp next
      obtain ⟨_, hcommits, hstate⟩ := hdecide hcommit
      cases hcommits
      rw [← same .workspace (by simp)] at hstate
      have hpasses : Passes env options none current.store d.store := by
        rw [store]
        rcases decideWorkspace_ok hstate with ⟨hnone, rfl⟩ | ⟨old, hold, rfl⟩
        · refine passes_workspace hcalm hfact ⟨rfl, rfl, rfl, fun h => absurd rfl h⟩
            (fun w hw => ?_)
            fun _ => le_rfl
          cases hnone.symm.trans hw
        · refine passes_workspace hcalm hfact (hcalm.workspace old hold) (fun w hw => ?_)
            fun hnone => by cases hold.symm.trans hnone
          cases hold.symm.trans hw
          exact ⟨rfl, fun _ hp => hp, le_rfl⟩
      have hw : d.store.lookup .workspace = some state := by
        rw [store]
        exact lookup_put_self _ _ _
      obtain ⟨hoptions, -, -, hforest⟩ := hpasses.calm.workspace state hw
      obtain ⟨hnext, hnone⟩ := prepare_fact hfits hfact hoptions hforest
        (by simp [hw]) fun p hp => ⟨state, p, hw, hp, rfl⟩
      exact ⟨.passes hpasses hnext, hnone ▸ Fresh.none⟩

end Bulk
