/-
What a build loads and publishes.

Every commit of a reachable system has one of the effects of `Effect`, because a
loader writes valid chunks only (`TaskStep.sound`).  The data keys then are a prefix of
the artifact while the index is Building.

* `bulkLoad_exact` — **loading writes an exact prefix**, which is frozen once it is
  complete;
* `publication_exact` — **what is published is the whole artifact**;
* `ended_build_frozen` — **a build that has ended stays as it is**.
-/
import Ktann.Bulk.Script

open List (mem_pair)

namespace Bulk

open BuildKey (Value)
open TxnM (Runs runs_bind)

variable {env : Environment} {A : Artifacts} {authority : Option Token} {seen : ℕ} {log log' : Log}

/-! ### Commits have effects -/

/-- The log is unchanged, or one commit with an effect longer. -/
inductive Extends (A : Artifacts) (log : Log) : Log → Prop
  | same : Extends A log log
  | commit {c current : Commit} (hcurrent : log.head? = some current)
      (effect : Effect A c.actor current.store c.store) : Extends A log (c :: log)

variable {α : Type} {S S' : BuildStore} {sys : System} {actor : Actor} {m : BuildTxn (Ending α)}

lemma Snapshot.runs {m : BuildTxn α} {newer older : Log} {snapshot current : Commit} {a : α}
    {s : Txn Value} (h : Snapshot seen log newer snapshot older)
    (hrun : m.run (Txn.start snapshot.store) = .ok (a, s)) (hcurrent : log.head? = some current)
    (hunchanged : ∀ c ∈ newer, ∀ k ∈ s.protectedKeys, c.store.lookup k = snapshot.store.lookup k) :
    Runs current.store m (Txn.start snapshot.store) a s := by
  refine ⟨hrun, fun k hk => ?_⟩
  rw [(m.run_extends hrun).snapshot]
  rw [h.split] at hcurrent
  cases newer with
  | nil =>
    cases hcurrent
    rfl
  | cons c =>
    cases hcurrent
    exact hunchanged _ mem_cons_self k hk

lemma Attempt.extends {actor : α → Actor} {o : Outcome α}
    (h : Attempt env actor m seen log o log')
    (heffect : ∀ {C snapshot : BuildStore} {a : α} {s : Txn Value},
      Runs C m (Txn.start snapshot) (.commit a) s → Effect A (actor a) C (s.onto C)) :
    Extends A log log' := by
  cases h with
  | failed | ended | aborted | lost => exact .same
  | committed hsnapshot hrun hcurrent hunchanged | landed _ hsnapshot hrun hcurrent hunchanged =>
    exact .commit hcurrent (heffect (hsnapshot.runs hrun hcurrent hunchanged))

/-! ### Tasks are valid -/

/-- A loader streams and commits slices of its artifact. -/
def LoadPhase.Valid (A : Artifacts) (artifact : ArtifactManifest) : LoadPhase → Prop
  | .streaming load stream => load.artifact = artifact ∧ load.complete = false ∧
      stream.Valid A artifact ∧ stream.consumed ≤ load.entries
  | .committing before after entries stream => before.artifact = artifact ∧
      ValidChunk A before after entries ∧ stream.Valid A artifact ∧ stream.consumed = after.entries
  | _ => True

def RunPhase.Valid (A : Artifacts) : RunPhase → Prop
  | .loading _ job phase => phase.Valid A job.artifact
  | _ => True

def Task.Valid (A : Artifacts) : Task → Prop
  | .load job phase => phase.Valid A job.artifact
  | .run _ phase | .complete _ (.running phase) => phase.Valid A
  | _ => True

lemma LoadPhase.valid_start (job : LoadJob) : (LoadPhase.start env job).Valid A job.artifact := by
  rw [LoadPhase.start]
  split_ifs
  · trivial
  · trivial

lemma RunPhase.valid_start {options : BulkWorkerOptions} (token : Token) :
    (RunPhase.start options token).Valid A := by
  rw [RunPhase.start]
  split <;> trivial

open LoadPhase (onClaim onCommit onChunk valid_start)

lemma loadClaim_artifact {descriptor : BuildDescriptor} {initial load : BuildLoad} {s : Txn Value}
    {ending : Ending BuildLoad}
    (hrun : (loadClaim authority descriptor initial).run (Txn.start S) = .ok (ending, s))
    (hending : ending = .early load ∨ ending = .commit load) :
    load.artifact = initial.artifact := by
  obtain ⟨-, -, t, ht, h⟩ := runs_worker (TxnM.runs_of_run hrun)
  obtain ⟨_, _, -, h⟩ := runs_bind.mp h
  obtain ⟨current, _, -, h⟩ := runs_bind.mp h
  obtain ⟨_, _, -, h⟩ := runs_bind.mp h
  obtain ⟨decided, _, hdecide, h⟩ := runs_bind.mp h
  obtain ⟨hok, -⟩ := runs_ofExcept hdecide
  have hsame : ending = decided := by
    cases decided with
    | early a => exact (TxnM.runs_pure.mp h).1
    | commit a =>
      obtain ⟨_, _, -, h⟩ := runs_bind.mp h
      exact (TxnM.runs_pure.mp h).1
  subst hsame
  cases current with
  | none =>
    cases hok
    rcases hending with hending | hending <;> cases hending
    rfl
  | some =>
    rw [decideClaim] at hok
    split at hok
    · cases hok
    rename_i hartifact
    split at hok
    · split at hok
      · cases hok
      · cases hok
        rcases hending with hending | hending <;> cases hending
        exact not_not.mp hartifact
    · split at hok
      · cases hok
        rcases hending with hending | hending <;> cases hending
        exact not_not.mp hartifact
      · cases hok

lemma Attempt.value_run {actor : α → Actor} {a : α}
    (h : Attempt env actor m seen log (.value a) log') :
    ∃ S s ending, m.run (Txn.start S) = .ok (ending, s) ∧
      (ending = .early a ∨ ending = .commit a) := by
  cases h with
  | ended _ hrun => exact ⟨_, _, _, hrun, .inl rfl⟩
  | committed _ hrun => exact ⟨_, _, _, hrun, .inr rfl⟩

lemma LoadPhase.valid_onChunk {artifact : ArtifactManifest} {load : BuildLoad} {stream : Stream}
    {entries : List Entry} {complete : Bool} (hartifact : load.artifact = artifact)
    (hincomplete : load.complete = false)
    (h : ChunkResult A artifact load.entries stream entries complete) :
    (onChunk load stream entries complete).Valid A artifact := by
  rw [onChunk]
  split_ifs with hcase
  · refine ⟨hartifact, hincomplete, h.valid, ?_⟩
    rcases hcase with hlt | ⟨rfl, -⟩
    · exact hlt.le
    · rcases lt_or_ge stream.consumed load.entries with hlt | hge
      · exact hlt.le
      · exact (h.ahead hge).le
  · push Not at hcase
    have hahead := h.ahead hcase.1
    refine ⟨hartifact, ⟨hincomplete, rfl, rfl, ?_, rfl, ?_, ?_⟩, h.valid, hahead⟩
    · rw [hartifact]
      exact h.slice
    · rw [hartifact]
      exact h.valid.digest.trans (congrArg _ hahead)
    · intro hc
      rw [hartifact, ← hahead]
      exact (h.complete hc).2

lemma LoadStep.sound {job : LoadJob} {p p' : LoadPhase}
    (h : LoadStep env authority job seen p log p' log')
    (hvalid : p.Valid env.artifacts job.artifact) :
    p'.Valid env.artifacts job.artifact ∧ Extends env.artifacts log log' := by
  cases h with
  | @claim _ _ o _ attempt next =>
    refine ⟨?_, attempt.extends fun hrun => (loadClaim_effect hrun).1⟩
    cases o with
    | value load =>
      obtain ⟨S, s, _, hrun, hending⟩ := attempt.value_run
      have hartifact : load.artifact = job.artifact := loadClaim_artifact hrun hending
      rw [onClaim, mem_singleton] at next
      subst next
      split_ifs with hcomplete
      · trivial
      · exact ⟨hartifact, by simpa using hcomplete, Stream.valid_start, Nat.zero_le _⟩
    | error e =>
      rw [onClaim, mem_singleton] at next
      subst next
      trivial
    | aborted _ =>
      rw [onClaim, mem_pair] at next
      rcases next with rfl | rfl <;> trivial
    | unknown =>
      rw [onClaim, mem_singleton] at next
      subst next
      trivial
  | chunk read =>
    obtain ⟨hartifact, hincomplete, hstream, hle⟩ := hvalid
    exact ⟨LoadPhase.valid_onChunk hartifact hincomplete (nextChunk_spec hstream hle read), .same⟩
  | chunkFailed => exact ⟨trivial, .same⟩
  | @commit _ _ _ _ _ _ o _ attempt next =>
    obtain ⟨hartifact, hchunk, hstream, hconsumed⟩ := hvalid
    refine ⟨?_, attempt.extends fun hrun => commitChunk_effect hchunk hrun⟩
    cases o with
    | value u =>
      rw [onCommit, mem_singleton] at next
      subst next
      split_ifs with hcomplete
      · trivial
      · exact ⟨hchunk.artifact.trans hartifact, by simpa using hcomplete, hstream, hconsumed.le⟩
    | error e =>
      rw [onCommit, mem_singleton] at next
      subst next
      trivial
    | aborted u | unknown u =>
      rw [onCommit, mem_pair] at next
      rcases next with rfl | rfl
      · exact ⟨hartifact, hchunk, hstream, hconsumed⟩
      · trivial
  | fault => exact ⟨trivial, .same⟩

lemma PublishStep.extends {p p' : PublishPhase}
    (h : PublishStep env authority seen p log p' log') : Extends env.artifacts log log' := by
  cases h with
  | read | opened | resumable | fault | recover => exact .same
  | begin attempt => exact attempt.extends beginValidation_effect
  | page _ attempt => exact attempt.extends firstPage_effect
  | again attempt => exact attempt.extends repeatPage_effect
  | activate attempt => exact attempt.extends activate_effect
  | record _ attempt => exact attempt.extends accept_effect

lemma RunPhase.valid_prepare (state : BuildWorkspace) : (RunPhase.prepare env state).Valid A := by
  rw [RunPhase.prepare]
  split
  · split_ifs
    · trivial
    · exact LoadPhase.valid_start _
  · split_ifs <;> trivial

lemma RunStep.sound {options : BulkWorkerOptions} {p p' : RunPhase}
    (h : RunStep env authority options seen p log p' log') (hvalid : p.Valid env.artifacts) :
    p'.Valid env.artifacts ∧ Extends env.artifacts log log' := by
  cases h with
  | @claim _ _ _ o _ attempt next =>
    refine ⟨?_, attempt.extends workerClaim_effect⟩
    cases o <;> simp only [RunPhase.onClaim, mem_cons, not_mem_nil, or_false] at next
    · subst next
      exact RunPhase.valid_prepare _
    · subst next
      trivial
    · rcases next with rfl | rfl <;> trivial
    · subst next
      trivial
  | forestBuilt | servingBuilt | resumable | fault => exact ⟨trivial, .same⟩
  | @acceptForest _ _ _ _ o _ attempt next =>
    refine ⟨?_, attempt.extends accept_effect⟩
    cases o <;> simp only [RunPhase.onAccept, mem_cons, not_mem_nil, or_false] at next
    · subst next
      trivial
    · subst next
      trivial
    all_goals rcases next with rfl | rfl <;> trivial
  | @acceptServing _ _ _ _ o _ attempt next =>
    refine ⟨?_, attempt.extends accept_effect⟩
    cases o <;> simp only [RunPhase.onAccept, mem_cons, not_mem_nil, or_false] at next
    · subst next
      exact RunPhase.valid_prepare _
    · subst next
      trivial
    all_goals rcases next with rfl | rfl <;> trivial
  | load step => exact step.sound hvalid
  | @loaded _ _ _ result => cases result <;> exact ⟨trivial, .same⟩
  | record _ attempt next =>
    refine ⟨?_, attempt.extends accept_effect⟩
    rw [mem_pair] at next
    rcases next with rfl | rfl <;> trivial

lemma Task.valid_onError {options : BulkWorkerOptions} {e : ErrorKind} {p : CompletePhase}
    (h : p ∈ CompletePhase.onError e) : (Task.complete options p).Valid A := by
  rw [CompletePhase.onError] at h
  split_ifs at h
  · rcases mem_pair.mp h with rfl | rfl <;> trivial
  · rw [mem_singleton.mp h]
    trivial

/-- **Every step of a task keeps it valid and commits an effect, if anything.** -/
theorem TaskStep.sound {task task' : Task} (h : TaskStep env authority seen task log task' log')
    (hvalid : task.Valid env.artifacts) :
    task'.Valid env.artifacts ∧ Extends env.artifacts log log' := by
  cases h with
  | load step => exact step.sound hvalid
  | publish step => exact ⟨trivial, step.extends⟩
  | run step => exact step.sound hvalid
  | complete step =>
    cases step with
    | first step | second step => exact ⟨trivial, step.extends⟩
    | run step => exact step.sound hvalid
    | busy token => exact ⟨RunPhase.valid_start token, .same⟩
    | published | prepared | republished => exact ⟨trivial, .same⟩
    | firstFailed _ next | runFailed next | secondFailed next =>
      exact ⟨Task.valid_onError next, .same⟩

/-- A log of effects, from a reservation on. -/
inductive Chained (A : Artifacts) : Log → Prop
  | reserved (descriptor : BuildDescriptor) : Chained A [⟨.reserve, Bulk.reserved descriptor⟩]
  | commit {log : Log} {c current : Commit} (before : Chained A (current :: log))
      (effect : Effect A c.actor current.store c.store) : Chained A (c :: current :: log)

lemma Chained.extend (h : Chained A log) (hext : Extends A log log') : Chained A log' := by
  cases hext with
  | same => exact h
  | @commit c _ hcurrent effect =>
    cases log with
    | nil => cases hcurrent
    | cons d _ =>
      cases hcurrent
      exact .commit h effect

lemma Step.extends {sys' : System} (h : Step env sys sys')
    (hvalid : ∀ i w, sys.workers i = some w → w.task.Valid env.artifacts) :
    Extends env.artifacts sys.log sys'.log := by
  cases h with
  | spawn => exact .same
  | work hworker hstep => exact (hstep.sound (hvalid _ _ hworker)).2
  | enqueue attempt => exact attempt.extends enqueue_effect
  | claim _ attempt => exact attempt.extends scheduleClaim_effect
  | renew attempt => exact attempt.extends renew_effect
  | finish attempt => exact attempt.extends finish_effect
  | drop attempt => exact attempt.extends dropStep_effect
  | cleanup attempt => exact attempt.extends cleanup_effect

lemma Task.Starts.valid {task : Task} (h : task.Starts env) : task.Valid A := by
  cases h with
  | load job => exact valid_start job
  | run _ token => exact RunPhase.valid_start token
  | publish | complete => trivial

lemma Reachable.valid (h : Reachable env sys) :
    ∀ i w, sys.workers i = some w → w.task.Valid env.artifacts := by
  induction h with
  | reserved =>
    intro i w hw
    cases hw
  | step _ next ih =>
    cases next with
    | spawn hfree hseen hstart =>
      intro j w' hw'
      simp only [update_apply] at hw'
      split_ifs at hw'
      · cases hw'
        exact hstart.valid
      · exact ih j w' hw'
    | work hworker hstep =>
      intro j w' hw'
      simp only [update_apply] at hw'
      split_ifs at hw'
      · cases hw'
        exact (hstep.sound (ih _ _ hworker)).1
      · exact ih j w' hw'
    | enqueue | claim | renew | finish | drop | cleanup => exact ih

/-- **The log of a reachable system is a chain of effects.** -/
theorem Reachable.chained (h : Reachable env sys) : Chained env.artifacts sys.log := by
  induction h with
  | reserved => exact .reserved _
  | step before next ih => exact ih.extend (next.extends before.valid)

/-! ### What effects leave -/

/-- The data keys of a Building index: a prefix of the artifact of its load, with the
digest of exactly those pairs. -/
structure LoadedPrefix (A : Artifacts) (S : BuildStore) (load : BuildLoad) : Prop where
  holds : HoldsExactly S ((A.entries load.artifact).take load.entries)
  digest : load.prefixSha256 = A.prefixDigest load.artifact load.entries
  bound : load.entries ≤ (A.entries load.artifact).length
  complete : load.complete = true → load.entries = (A.entries load.artifact).length

/-- Loading so far. -/
def LoadedExactly (A : Artifacts) (S : BuildStore) : Prop :=
  match S.lookup .load with
  | none => HoldsExactly S []
  | some load => LoadedPrefix A S load

lemma LoadedExactly.congr (h : LoadedExactly A S) (hload : S'.lookup .load = S.lookup .load)
    (hdata : ∀ key, S'.lookup (.data key) = S.lookup (.data key)) : LoadedExactly A S' := by
  have hholds {pairs : List Entry} (hS : HoldsExactly S pairs) : HoldsExactly S' pairs :=
    fun key value => hdata key ▸ hS key value
  rw [LoadedExactly] at h ⊢
  rw [hload]
  cases hlookup : S.lookup .load with
  | none =>
    rw [hlookup] at h
    exact hholds h
  | some =>
    rw [hlookup] at h
    exact ⟨hholds h.holds, h.digest, h.bound, h.complete⟩

lemma LoadedPrefix.chunk {before after : BuildLoad} {entries : List Entry}
    (h : LoadedPrefix A S before) (hvalid : ValidChunk A before after entries) :
    LoadedPrefix A (putAll (S.put .load after) entries) after := by
  have htake : (A.entries before.artifact).take after.entries =
      (A.entries before.artifact).take before.entries ++ entries := by
    rw [hvalid.count, List.take_add, hvalid.slice]
  have hlength : entries.length ≤ (A.entries before.artifact).length - before.entries := by
    have hlen := congrArg List.length hvalid.slice
    rw [length_take, length_drop] at hlen
    omega
  have hbound := h.bound
  refine ⟨?_, hvalid.artifact ▸ hvalid.digest, ?_, ?_⟩
  · rw [hvalid.artifact, htake]
    refine HoldsExactly.putAll (fun key value => ?_) ?_
    · rw [lookup_put_ne _ _ (by simp)]
      exact h.holds key value
    · rw [← htake]
      have hnodup := nodup_of_strict (A.sorted before.artifact)
      exact hnodup.sublist ((take_sublist _ _).map _)
  · rw [hvalid.artifact, hvalid.count]
    omega
  · intro hcomplete
    have hend := hvalid.complete hcomplete
    rw [hvalid.artifact]
    have := hvalid.count
    omega

section

variable (h : Effect A actor S S') (hbuilding : S'.lookup .manifest = some .building)

include h hbuilding

lemma Effect.building_before : S.lookup .manifest = some .building := by
  cases h with
  | loadStarted _ building | loadClaimed building | chunk building | validation _ building
  | activated building | workspace _ building => exact building
  | cleaned =>
    rwa [lookup_erase_ne _ (by decide)] at hbuilding
  | enqueued | claimed | renewed | released =>
    rwa [lookup_put_ne _ _ (by decide)] at hbuilding
  | removed =>
    rwa [lookup_erase_ne _ (by decide)] at hbuilding
  | dropped =>
    rw [lookup_put_self] at hbuilding
    cases hbuilding
  | purged _ dropping =>
    rw [lookup_clear] at hbuilding
    split_ifs at hbuilding
    cases dropping.symm.trans hbuilding

lemma Effect.load_cases :
    (S'.lookup .load = S.lookup .load ∧ ∀ key, S'.lookup (.data key) = S.lookup (.data key)) ∨
    (∃ artifact, S.lookup .load = none ∧
      S' = S.put .load ⟨artifact, 1, 0, A.prefixDigest artifact 0, false⟩) ∨
    (∃ load, S.lookup .load = some load ∧ load.complete = false ∧
      S' = S.put .load { load with epoch := load.epoch + 1 }) ∨
    (∃ before after entries, S.lookup .load = some before ∧ ValidChunk A before after entries ∧
      S' = putAll (S.put .load after) entries) := by
  have hput {k : BuildKey} {v : Value k} (hload : BuildKey.load ≠ k)
      (hdata : ∀ key, BuildKey.data key ≠ k) :
      (S.put k v).lookup .load = S.lookup .load ∧
        ∀ key, (S.put k v).lookup (.data key) = S.lookup (.data key) :=
    ⟨lookup_put_ne S v hload, fun key => lookup_put_ne S v (hdata key)⟩
  have herase {k : BuildKey} (hload : BuildKey.load ≠ k) (hdata : ∀ key, BuildKey.data key ≠ k) :
      (S.erase k).lookup .load = S.lookup .load ∧
        ∀ key, (S.erase k).lookup (.data key) = S.lookup (.data key) :=
    ⟨lookup_erase_ne S hload, fun key => lookup_erase_ne S (hdata key)⟩
  cases h with
  | loadStarted artifact _ _ fresh => exact .inr (.inl ⟨artifact, fresh, rfl⟩)
  | loadClaimed _ _ current incomplete => exact .inr (.inr (.inl ⟨_, current, incomplete, rfl⟩))
  | chunk _ _ current valid => exact .inr (.inr (.inr ⟨_, _, _, current, valid, rfl⟩))
  | validation | activated | workspace | enqueued | claimed | renewed | released | dropped =>
    exact .inl (hput (by decide) (fun _ => by simp))
  | cleaned | removed => exact .inl (herase (by decide) (fun _ => by simp))
  | purged _ dropping =>
    rw [lookup_clear] at hbuilding
    split_ifs at hbuilding
    cases dropping.symm.trans hbuilding

lemma Effect.loadedExactly (hS : LoadedExactly A S) : LoadedExactly A S' := by
  rcases h.load_cases hbuilding with ⟨hload, hdata⟩ | ⟨_, hnone, rfl⟩ |
    ⟨load, hload, -, rfl⟩ | ⟨before, after, entries, hload, hvalid, rfl⟩
  · exact hS.congr hload hdata
  · rw [LoadedExactly, hnone] at hS
    rw [LoadedExactly, lookup_put_self]
    refine ⟨fun key value => ?_, rfl, Nat.zero_le _, fun hc => by cases hc⟩
    rw [lookup_put_ne _ _ (by simp)]
    exact hS key value
  · rw [LoadedExactly, hload] at hS
    rw [LoadedExactly, lookup_put_self]
    refine ⟨fun key value => ?_, hS.digest, hS.bound, hS.complete⟩
    rw [lookup_put_ne _ _ (by simp)]
    exact hS.holds key value
  · rw [LoadedExactly, hload] at hS
    have hlookup : (putAll (S.put .load after) entries).lookup .load = some after := by
      rw [lookup_putAll (by simp), lookup_put_self]
    rw [LoadedExactly, hlookup]
    exact hS.chunk hvalid

end

/-- **Every Building store has loaded an exact prefix.** -/
theorem Chained.loadedExactly (h : Chained A log) :
    ∀ c ∈ log, c.store.lookup .manifest = some .building → LoadedExactly A c.store := by
  induction h with
  | reserved =>
    intro c hc _
    rw [mem_singleton.mp hc, LoadedExactly]
    exact fun key value => by simp [Bulk.reserved, lookup_put]
  | @commit _ c current _ effect ih =>
    intro d hd hbuilding
    rcases mem_cons.mp hd with rfl | hd
    · exact effect.loadedExactly hbuilding
        (ih current mem_cons_self (effect.building_before hbuilding))
    · exact ih d hd hbuilding

def LoadComplete (S : BuildStore) : Prop :=
  ∃ load, S.lookup .load = some load ∧ load.complete = true

lemma Chained.frozen (h : Chained A log) : ∀ {newer older : Log} {c : Commit},
    log = newer ++ c :: older → LoadComplete c.store →
      ∀ d ∈ newer, d.store.lookup .manifest = some .building →
        d.store.lookup .load = c.store.lookup .load ∧
          ∀ key, d.store.lookup (.data key) = c.store.lookup (.data key) := by
  induction h with
  | reserved =>
    intro newer older c hlog _ d hd
    cases newer with
    | nil => cases hd
    | cons e newer =>
      have hlen := congrArg List.length hlog
      simp at hlen
  | @commit _ e current _ effect ih =>
    intro newer _ c hlog hcomplete d hd hbuilding
    cases newer with
    | nil => cases hd
    | cons _ newer =>
      rw [cons_append, List.cons.injEq] at hlog
      obtain ⟨rfl, hlog⟩ := hlog
      have hall := ih hlog hcomplete
      rcases mem_cons.mp hd with rfl | hd
      · -- The store before the last commit has the load already.
        have hcurrent : current.store.lookup .load = c.store.lookup .load ∧
            ∀ key, current.store.lookup (.data key) = c.store.lookup (.data key) := by
          cases newer with
          | nil =>
            rw [nil_append, List.cons.injEq] at hlog
            rw [hlog.1]
            exact ⟨rfl, fun _ => rfl⟩
          | cons f =>
            rw [cons_append, List.cons.injEq] at hlog
            rw [hlog.1] at effect ⊢
            exact hall f mem_cons_self (effect.building_before hbuilding)
        obtain ⟨load, hload, hdone⟩ := hcomplete
        have hload' : current.store.lookup .load = some load := hcurrent.1.trans hload
        rcases effect.load_cases hbuilding with ⟨hl, hdata⟩ | ⟨_, hnone, -⟩ |
          ⟨l, hl, hincomplete, -⟩ | ⟨before, after, entries, hl, hvalid, -⟩
        · exact ⟨hl.trans hcurrent.1, fun key => (hdata key).trans (hcurrent.2 key)⟩
        · cases hnone.symm.trans hload'
        · cases hl.symm.trans hload'
          cases hincomplete.symm.trans hdone
        · cases hl.symm.trans hload'
          cases hvalid.incomplete.symm.trans hdone
      · exact hall d hd hbuilding

/-! ### Loading and publication -/

/-- **Bulk load writes an exact artifact prefix**, in every committed state while the
index is Building, under any interleaving of loaders and anything else; a complete
load is frozen. -/
theorem bulkLoad_exact {sys : System} (h : Reachable env sys) :
    (∀ c ∈ sys.log, c.store.lookup .manifest = some .building →
      LoadedExactly env.artifacts c.store) ∧
    ∀ newer c older, sys.log = newer ++ c :: older → LoadComplete c.store →
      ∀ d ∈ newer, d.store.lookup .manifest = some .building →
        ∀ key, d.store.lookup (.data key) = c.store.lookup (.data key) :=
  ⟨h.chained.loadedExactly, fun _ _ _ hlog hcomplete d hd hbuilding =>
    (h.chained.frozen hlog hcomplete d hd hbuilding).2⟩

theorem bulkLoad_exact_small : ∃ sys, runScript smallBuild smallChoice publishScript = some sys ∧
    sys.log.length = 10 ∧ ∀ c ∈ sys.log, c.store.lookup .manifest = some .building →
      LoadedExactly twoPairs c.store := by
  obtain ⟨sys, hsys, hlength⟩ := exists_of_runScript
    (show (runScript smallBuild smallChoice publishScript).any (fun sys => sys.log.length = 10) =
      true by decide +kernel)
  exact ⟨sys, hsys, of_decide_eq_true hlength,
    (bulkLoad_exact (runScript_reachable smallChoice_faults hsys)).1⟩

lemma Effect.activation (h : Effect A actor S S') (hactive : S'.lookup .manifest = some .active)
    (hbefore : S.lookup .manifest ≠ some .active) :
    S.lookup .manifest = some .building ∧ S' = S.put .manifest .active ∧
      ∃ load w, S.lookup .load = some load ∧ load.complete = true ∧ S.lookup .workspace = some w ∧
        some load.artifact = w.serving.map PreparedArtifact.manifest := by
  cases h with
  | activated building _ current complete owner accepted =>
    exact ⟨building, rfl, _, _, current, complete, owner, accepted⟩
  | chunk =>
    rw [lookup_putAll (by simp), lookup_put_ne _ _ (by decide)] at hactive
    exact absurd hactive hbefore
  | loadStarted | loadClaimed | validation | workspace | enqueued | claimed | renewed
  | released =>
    rw [lookup_put_ne _ _ (by decide)] at hactive
    exact absurd hactive hbefore
  | cleaned | removed =>
    rw [lookup_erase_ne _ (by decide)] at hactive
    exact absurd hactive hbefore
  | dropped =>
    rw [lookup_put_self] at hactive
    cases hactive
  | purged =>
    rw [lookup_clear] at hactive
    split_ifs at hactive
    exact absurd hactive hbefore

lemma Chained.effect_at (h : Chained A log) : ∀ {newer older : Log} {c previous : Commit},
    log = newer ++ c :: previous :: older → Effect A c.actor previous.store c.store := by
  induction h with
  | reserved =>
    intro newer older c previous hlog
    have hlen := congrArg List.length hlog
    simp only [length_append, length_cons, length_nil] at hlen
    omega
  | @commit _ e _ _ effect ih =>
    intro newer _ c _ hlog
    cases newer with
    | nil =>
      simp only [nil_append, List.cons.injEq] at hlog
      obtain ⟨rfl, rfl, -⟩ := hlog
      exact effect
    | cons =>
      rw [cons_append, List.cons.injEq] at hlog
      exact ih hlog.2

/-- **Publication is exact**: when the Manifest becomes Active, the data keys of the
index are the whole entry stream of the accepted artifact, in its order. -/
theorem publication_exact {sys : System} {newer older : Log} {c previous : Commit}
    (h : Reachable env sys) (hlog : sys.log = newer ++ c :: previous :: older)
    (hactive : c.store.lookup .manifest = some .active)
    (hbefore : previous.store.lookup .manifest ≠ some .active) :
    ∃ w serving, c.store.lookup .workspace = some w ∧ w.serving = some serving ∧
      HoldsExactly c.store (env.artifacts.entries serving.manifest) ∧
      scanData c.store [] none = env.artifacts.entries serving.manifest := by
  obtain ⟨hbuilding, hstore, _, w, hload, hcomplete, hw, haccepted⟩ :=
    (h.chained.effect_at hlog).activation hactive hbefore
  have hexact := h.chained.loadedExactly previous (by rw [hlog]; simp) hbuilding
  rw [LoadedExactly, hload] at hexact
  obtain ⟨serving, hserving, hmanifest⟩ := map_eq_some_iff.mp haccepted.symm
  have hholds : HoldsExactly c.store (env.artifacts.entries serving.manifest) := by
    intro key value
    rw [hstore, lookup_put_ne _ _ (by simp), hexact.holds key value, hmanifest,
      hexact.complete hcomplete, List.take_length]
  refine ⟨w, serving, ?_, hserving, hholds, ?_⟩
  · rw [hstore, lookup_put_ne _ _ (by decide)]
    exact hw
  · rw [hholds.scanData (env.artifacts.sorted _)]
    exact filter_eq_self.mpr fun e _ =>
      decide_eq_true ⟨not_lt.mp (List.not_lt_nil e.1), fun n hn => by cases hn⟩

/-- The newest commit made the index Active. -/
def justActivated (sys : System) : Bool :=
  match sys.log with
  | c :: previous :: _ => c.store.lookup .manifest = some .active ∧
      previous.store.lookup .manifest ≠ some .active
  | _ => false

theorem publication_exact_small : ∃ sys c older, runScript smallBuild smallChoice publishScript =
    some sys ∧ sys.log = c :: older ∧ c.store.lookup .manifest = some .active ∧
      scanData c.store [] none = [([1], [10]), ([2], [20])] := by
  obtain ⟨sys, hsys, hactive⟩ := exists_of_runScript
    (show (runScript smallBuild smallChoice publishScript).any justActivated = true by
      decide +kernel)
  rw [justActivated] at hactive
  split at hactive
  · rename_i c previous older hlog
    obtain ⟨hc, hprevious⟩ := of_decide_eq_true hactive
    obtain ⟨w, _, -, -, -, hscan⟩ := publication_exact
      (runScript_reachable smallChoice_faults hsys)
      (show sys.log = [] ++ c :: previous :: older from hlog) hc hprevious
    exact ⟨sys, c, _, hsys, hlog, hc, hscan⟩
  · cases hactive

/-! ### After the build -/

/-- What a later store keeps of a build that has ended: no key but the lifecycle and the
schedule is written, and none but the workspace goes while the index is Active. -/
structure Ended (S S' : BuildStore) : Prop where
  ended : S'.lookup .manifest ≠ some .building
  kept : ∀ k v, k ≠ .manifest → k ≠ .schedule → S'.lookup k = some v → S.lookup k = some v
  active : S'.lookup .manifest = some .active → S.lookup .manifest = some .active ∧
    ∀ k, k ≠ .schedule → k ≠ .workspace → S'.lookup k = S.lookup k

lemma Effect.ended (h : Effect A actor S S') (hS : S.lookup .manifest ≠ some .building) :
    Ended S S' := by
  cases h with
  | loadStarted _ building | loadClaimed building | chunk building | validation _ building
  | activated building | workspace _ building => exact absurd building hS
  | enqueued | claimed | renewed | released | cleaned | removed | dropped | purged =>
    constructor <;> grind [lookup_put_ne, lookup_put_self, lookup_erase, lookup_clear]

/-- **A build that has ended is frozen**, whatever the callers and the fault do. -/
theorem ended_build_frozen {sys : System} (h : Reachable env sys) :
    sys.log.Pairwise fun new old => old.store.lookup .manifest ≠ some .building →
      Ended old.store new.store := by
  have hchain := h.chained
  generalize sys.log = log at hchain
  induction hchain with
  | reserved => exact List.pairwise_singleton _ _
  | @commit _ c _ _ effect ih =>
    refine pairwise_cons.mpr ⟨fun d hd hended => ?_, ih⟩
    rcases mem_cons.mp hd with rfl | hd
    · exact effect.ended hended
    · have hkept := (pairwise_cons.mp ih).1 d hd hended
      have hstep := effect.ended hkept.ended
      constructor <;> grind [Ended]

/-- A scheduled build, removed from the schedule once it is published. -/
def scheduledScript : List Move :=
  [.enqueue smallOptions, .claim [9] 0 10, .call 0 (some [9]) (.complete smallOptions)] ++
    List.replicate 20 (.work 0) ++ [.finish [9] true 0]

theorem ended_build_frozen_scheduled : ∃ sys c d older,
    runScript smallBuild smallChoice scheduledScript = some sys ∧ sys.log = c :: d :: older ∧
      d.store.lookup .manifest ≠ some .building ∧ Ended d.store c.store := by
  obtain ⟨sys, hsys, hended⟩ := exists_of_runScript
    (show (runScript smallBuild smallChoice scheduledScript).any (fun sys =>
      sys.log[1]?.any fun d => d.store.lookup .manifest ≠ some .building) = true by decide +kernel)
  have hfrozen := ended_build_frozen (runScript_reachable smallChoice_faults hsys)
  match hlog : sys.log with
  | [] | [_] => simp [hlog] at hended
  | c :: d :: older =>
    rw [hlog] at hended hfrozen
    have hd : d.store.lookup .manifest ≠ some .building := of_decide_eq_true hended
    exact ⟨sys, c, d, older, hsys, hlog, hd, (pairwise_cons.mp hfrozen).1 d mem_cons_self hd⟩

end Bulk
