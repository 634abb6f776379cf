/-
What a committed transaction of a bulk build does to the store.

* `Authorized` — the schedule of a store admits an authority;
* `Effect` — the changes of a store by one commit, with the checks that the commit
  protects;
* `loadClaim_effect` and its like — each program commits one of them.
-/
import Ktann.Bulk.Transactions

open TxnM (runs_bind runs_then runs_pure runs_write runs_ite)

namespace Bulk

open BuildKey (Value)
open TxnM (Runs)

variable {C : BuildStore} {s s' : Txn Value} {authority : Option Token}

/-! ### Inversion of the shared programs -/

variable {k : BuildKey} {u : Unit} {state : BuildWorkspace} {α : Type} {a b : α}
  {current : Option BuildLoad}

lemma runs_get {v : Option (Value k)} (h : Runs C (get k) s v s') : s' = s :=
  (TxnM.runs_read.mp h).2.1

lemma runs_getForUpdate {v : Option (Value k)} (h : Runs C (getForUpdate k) s v s') :
    v = (s.onto C).lookup k ∧ s'.onto C = s.onto C := by
  obtain ⟨hv, rfl, -⟩ := TxnM.runs_getForUpdate.mp h
  exact ⟨hv, onto_protect C s k⟩

lemma runs_put {v : Value k} (h : Runs C (put k v) s u s') : s'.onto C = (s.onto C).put k v := by
  obtain ⟨rfl, -⟩ := runs_write.mp h
  exact onto_stage C s _

lemma runs_delete (h : Runs C (delete k) s u s') : s'.onto C = (s.onto C).erase k := by
  obtain ⟨rfl, -⟩ := runs_write.mp h
  exact onto_stage C s _

lemma not_runs_early : ¬ Runs C (pure (.early a) : BuildTxn (Ending α)) s (.commit b) s' := by
  intro h
  obtain ⟨hend, -⟩ := runs_pure.mp h
  cases hend

lemma runs_put_commit {v : Value k}
    (h : Runs C (put k v >>= fun _ => (pure (.commit a) : BuildTxn (Ending α))) s (.commit b) s') :
    s'.onto C = (s.onto C).put k v := by
  obtain ⟨_, t, hput, h⟩ := runs_bind.mp h
  obtain ⟨-, rfl, -⟩ := runs_pure.mp h
  exact runs_put hput

lemma runs_ensure {c : Prop} [Decidable c] {e : ErrorKind}
    (h : Runs C (TxnM.ensure c e : BuildTxn Unit) s u s') : c ∧ s'.onto C = s.onto C := by
  obtain ⟨hc, rfl, -⟩ := TxnM.runs_ensure.mp h
  exact ⟨hc, rfl⟩

lemma runs_ofExcept {α : Type} {x : Except ErrorKind α} {a : α}
    (h : Runs C (TxnM.ofExcept x : BuildTxn α) s a s') : x = .ok a ∧ s'.onto C = s.onto C := by
  obtain ⟨hx, rfl, -⟩ := TxnM.runs_ofExcept.mp h
  exact ⟨hx, rfl⟩

lemma runs_putEntries {entries : List Entry} : ∀ {s s' : Txn Value} {u : Unit},
    Runs C (putEntries entries) s u s' → s'.onto C = putAll (s.onto C) entries := by
  induction entries with
  | nil =>
    intro s s' u h
    obtain ⟨-, rfl, -⟩ := runs_pure.mp h
    rfl
  | cons e _ ih =>
    intro s s' u h
    obtain ⟨_, t, hput, hrest⟩ := runs_bind.mp h
    rw [ih hrest, runs_put hput]
    rfl

lemma runs_manifest {m : IndexLifecycle} (h : Runs C manifest s m s') :
    (s.onto C).lookup .manifest = some m ∧ s'.onto C = s.onto C := by
  obtain ⟨v, t, ⟨hv, ht⟩, hfail⟩ := runs_then runs_getForUpdate h
  obtain ⟨hm, rfl, -⟩ := TxnM.runs_orFail.mp hfail
  exact ⟨hv.symm.trans hm, ht⟩

lemma checkBuilding_ok {m : IndexLifecycle} (h : checkBuilding m = .ok ()) : m = .building := by
  cases m <;> first | rfl | cases h

lemma runs_building (h : Runs C building s u s') :
    (s.onto C).lookup .manifest = some .building ∧ s'.onto C = s.onto C := by
  obtain ⟨m, t, ⟨hlookup, ht⟩, hcheck⟩ := runs_then runs_manifest h
  obtain ⟨hok, hs⟩ := runs_ofExcept hcheck
  exact ⟨checkBuilding_ok hok ▸ hlookup, hs.trans ht⟩

def Authorized (authority : Option Token) (S : BuildStore) : Prop :=
  checkAuthority authority (S.lookup .schedule) = .ok ()

lemma runs_authorize (h : Runs C (authorize authority) s u s') :
    Authorized authority (s.onto C) ∧ s'.onto C = s.onto C := by
  obtain ⟨v, t, ⟨rfl, ht⟩, hcheck⟩ := runs_then runs_getForUpdate h
  obtain ⟨hok, hs⟩ := runs_ofExcept hcheck
  exact ⟨hok, hs.trans ht⟩

lemma runs_expectDescriptor {descriptor : BuildDescriptor}
    (h : Runs C (expectDescriptor descriptor) s u s') : s'.onto C = s.onto C := by
  obtain ⟨v, t, ht, hcheck⟩ := runs_then runs_get h
  subst ht
  exact (runs_ensure hcheck).2

lemma runs_fence (h : Runs C (fence state) s u s') :
    (s.onto C).lookup .manifest = some .building ∧
      sameOwner state ((s.onto C).lookup .workspace) = true ∧
      loadedFor state ((s.onto C).lookup .load) = true ∧ s'.onto C = s.onto C := by
  obtain ⟨_, _, ⟨hm, h₁⟩, h⟩ := runs_then runs_building h
  obtain ⟨w, _, ⟨rfl, h₂⟩, h⟩ := runs_then runs_getForUpdate h
  obtain ⟨_, _, ⟨howner, h₃⟩, h⟩ := runs_then runs_ensure h
  obtain ⟨_, _, ⟨rfl, h₄⟩, h⟩ := runs_then runs_getForUpdate h
  obtain ⟨hloaded, h₅⟩ := runs_ensure h
  rw [h₁] at howner
  rw [h₃, h₂, h₁] at hloaded
  exact ⟨hm, howner, hloaded, by rw [h₅, h₄, h₃, h₂, h₁]⟩

lemma sameOwner_eq_true {workspace : Option BuildWorkspace} :
    sameOwner state workspace = true ↔ ∃ w, workspace = some w ∧ w.token = state.token ∧
      w.serving = state.serving ∧ w.failure = none := by
  cases workspace with
  | none | some w => simp [sameOwner]

lemma loadedFor_eq_true :
    loadedFor state current = true ↔ ∃ load, current = some load ∧ load.complete = true ∧
      some load.artifact = state.serving.map PreparedArtifact.manifest := by
  cases current with
  | none | some load => simp [loadedFor]

/-! ### Effects -/

/-- Who commits: the reservation, a build worker under its authority, the schedule's
own transactions, or the end of the lifecycle. -/
inductive Actor
  | reserve
  | worker (authority : Option Token)
  | claim (owner : Token)
  | enqueue
  | renew
  | release
  | remove
  | drop
  | cleanup
  deriving DecidableEq

structure ValidChunk (A : Artifacts) (before after : BuildLoad) (entries : List Entry) : Prop where
  incomplete : before.complete = false
  artifact : after.artifact = before.artifact
  epoch : after.epoch = before.epoch
  slice : ((A.entries before.artifact).drop before.entries).take entries.length = entries
  count : after.entries = before.entries + entries.length
  digest : after.prefixSha256 = A.prefixDigest before.artifact after.entries
  complete : after.complete = true → (A.entries before.artifact).length ≤ after.entries

/-- What one commit does to the store it commits onto. -/
inductive Effect (A : Artifacts) : Actor → BuildStore → BuildStore → Prop
  | loadStarted {authority : Option Token} {S : BuildStore} (artifact : ArtifactManifest)
      (building : S.lookup .manifest = some .building) (authorized : Authorized authority S)
      (fresh : S.lookup .load = none) :
      Effect A (.worker authority) S
        (S.put .load ⟨artifact, 1, 0, A.prefixDigest artifact 0, false⟩)
  | loadClaimed {authority : Option Token} {S : BuildStore} {load : BuildLoad}
      (building : S.lookup .manifest = some .building) (authorized : Authorized authority S)
      (current : S.lookup .load = some load) (incomplete : load.complete = false) :
      Effect A (.worker authority) S (S.put .load { load with epoch := load.epoch + 1 })
  | chunk {authority : Option Token} {S : BuildStore} {before after : BuildLoad}
      {entries : List Entry} (building : S.lookup .manifest = some .building)
      (authorized : Authorized authority S) (current : S.lookup .load = some before)
      (valid : ValidChunk A before after entries) :
      Effect A (.worker authority) S (putAll (S.put .load after) entries)
  | validation {authority : Option Token} {S : BuildStore} (proof : BuildValidation)
      (building : S.lookup .manifest = some .building) (authorized : Authorized authority S) :
      Effect A (.worker authority) S (S.put .validation proof)
  | activated {authority : Option Token} {S : BuildStore} {load : BuildLoad} {w : BuildWorkspace}
      (building : S.lookup .manifest = some .building) (authorized : Authorized authority S)
      (current : S.lookup .load = some load) (complete : load.complete = true)
      (owner : S.lookup .workspace = some w)
      (accepted : some load.artifact = w.serving.map PreparedArtifact.manifest) :
      Effect A (.worker authority) S (S.put .manifest .active)
  | workspace {authority : Option Token} {S : BuildStore} (state : BuildWorkspace)
      (building : S.lookup .manifest = some .building) (authorized : Authorized authority S) :
      Effect A (.worker authority) S (S.put .workspace state)
  | cleaned {S : BuildStore} (ended : S.lookup .manifest ≠ some .building) :
      Effect A .cleanup S (S.erase .workspace)
  | enqueued {S : BuildStore} (options : BulkWorkerOptions) (free : S.lookup .schedule = none) :
      Effect A .enqueue S (S.put .schedule ⟨options, unclaimed, 0⟩)
  | claimed {S : BuildStore} {schedule : BuildSchedule} (owner : Token) (expiresMs : ℕ)
      (current : S.lookup .schedule = some schedule) :
      Effect A (.claim owner) S
        (S.put .schedule { schedule with owner := owner, expiresMs := expiresMs })
  | renewed {S : BuildStore} {schedule : BuildSchedule} (expiresMs : ℕ)
      (current : S.lookup .schedule = some schedule) :
      Effect A .renew S (S.put .schedule { schedule with expiresMs := expiresMs })
  | released {S : BuildStore} {schedule : BuildSchedule} (expiresMs : ℕ)
      (current : S.lookup .schedule = some schedule) :
      Effect A .release S
        (S.put .schedule { schedule with owner := unclaimed, expiresMs := expiresMs })
  | removed {S : BuildStore} : Effect A .remove S (S.erase .schedule)
  | dropped {S : BuildStore} : Effect A .drop S (S.put .manifest .dropping)
  | purged {S : BuildStore} (range : BuildKey → Bool)
      (dropping : S.lookup .manifest = some .dropping) :
      Effect A .drop S (S.clear fun k => range k && k.inIndexRange)

section

variable {A : Artifacts} {snapshot : BuildStore} {descriptor : BuildDescriptor}

lemma runs_worker {rest : BuildTxn α}
    (h : Runs C (building >>= fun _ => authorize authority >>= fun _ => rest)
      (Txn.start snapshot) a s) : C.lookup .manifest = some .building ∧ Authorized authority C ∧
      ∃ t, t.onto C = C ∧ Runs C rest t a s := by
  obtain ⟨_, _, ⟨hm, h₁⟩, h⟩ := runs_then runs_building h
  obtain ⟨_, t₂, ⟨hauthorized, h₂⟩, h⟩ := runs_then runs_authorize h
  rw [Txn.onto_start] at hm h₁
  rw [h₁] at hauthorized h₂
  exact ⟨hm, hauthorized, t₂, h₂, h⟩

lemma decideClaim_commit {initial current load : BuildLoad} {validation : Option BuildValidation}
    (h : decideClaim initial validation (some current) = .ok (.commit load)) :
    current.complete = false ∧ load = { current with epoch := current.epoch + 1 } := by
  rw [decideClaim] at h
  split at h
  · cases h
  split at h
  · split at h <;> cases h
  · rename_i hcomplete
    split at h
    · cases h
      exact ⟨by simpa using hcomplete, rfl⟩
    · cases h

lemma loadClaim_effect {artifact : ArtifactManifest} {load : BuildLoad}
    (h : Runs C (loadClaim authority descriptor ⟨artifact, 1, 0, A.prefixDigest artifact 0, false⟩)
      (Txn.start snapshot) (.commit load) s) :
    Effect A (.worker authority) C (s.onto C) ∧ (s.onto C).lookup .load = some load := by
  obtain ⟨hm, hauthorized, t, ht, h⟩ := runs_worker h
  obtain ⟨_, _, h₁, h⟩ := runs_then runs_expectDescriptor h
  obtain ⟨current, _, ⟨hlookup, h₂⟩, h⟩ := runs_then runs_getForUpdate h
  obtain ⟨_, _, h₃, h⟩ := runs_then runs_get h
  obtain ⟨ending, t₄, ⟨hok, h₄⟩, h⟩ := runs_then runs_ofExcept h
  rw [h₁, ht] at hlookup
  have honto : t₄.onto C = C := by rw [h₄, h₃, h₂, h₁, ht]
  cases ending with
  | early a =>
    exact (not_runs_early h).elim
  | commit a =>
    obtain ⟨_, _, hput, h⟩ := runs_bind.mp h
    obtain ⟨hend, rfl, -⟩ := runs_pure.mp h
    cases hend
    rw [runs_put hput, honto]
    refine ⟨?_, lookup_put_self _ _ _⟩
    cases current with
    | none =>
      cases hok
      exact .loadStarted artifact hm hauthorized hlookup.symm
    | some =>
      obtain ⟨hincomplete, rfl⟩ := decideClaim_commit hok
      exact .loadClaimed hm hauthorized hlookup.symm hincomplete

variable {u : Unit} {state : BuildWorkspace} {owner : Token} {proof before : BuildValidation}
  {result : Reader × BuildValidation} {options : BulkWorkerOptions}

lemma decideChunk_commit {before after : BuildLoad}
    (h : decideChunk before after current = .ok (.commit u)) : current = some before := by
  cases current with
  | none => cases h
  | some =>
    rw [decideChunk] at h
    split at h
    · cases h
    split at h
    · cases h
    split at h
    · cases h
    split at h
    · cases h
    · rename_i hsame
      rw [not_not.mp hsame]

lemma commitChunk_effect {before after : BuildLoad} {entries : List Entry}
    (hvalid : ValidChunk A before after entries)
    (h : Runs C (commitChunk authority before after entries) (Txn.start snapshot) (.commit u) s) :
    Effect A (.worker authority) C (s.onto C) := by
  obtain ⟨hm, hauthorized, t, ht, h⟩ := runs_worker h
  obtain ⟨_, _, ⟨hlookup, h₁⟩, h⟩ := runs_then runs_getForUpdate h
  obtain ⟨ending, _, ⟨hok, h₂⟩, h⟩ := runs_then runs_ofExcept h
  cases ending with
  | early a =>
    exact (not_runs_early h).elim
  | commit a =>
    obtain ⟨_, _, hput, h⟩ := runs_bind.mp h
    obtain ⟨_, _, hentries, h⟩ := runs_bind.mp h
    obtain ⟨-, rfl, -⟩ := runs_pure.mp h
    rw [decideChunk_commit hok, ht] at hlookup
    rw [runs_putEntries hentries, runs_put hput, h₂, h₁, ht]
    exact .chunk hm hauthorized hlookup.symm hvalid

lemma beginValidation_effect
    (h : Runs C (beginValidation A authority descriptor state) (Txn.start snapshot) (.commit proof)
      s) : Effect A (.worker authority) C (s.onto C) := by
  obtain ⟨hm, hauthorized, t, ht, h⟩ := runs_worker h
  obtain ⟨w, _, ⟨-, h₁⟩, h⟩ := runs_then runs_getForUpdate h
  obtain ⟨_, _, ⟨-, h₂⟩, h⟩ := runs_then runs_ensure h
  obtain ⟨_, _, h₃, h⟩ := runs_then runs_expectDescriptor h
  obtain ⟨_, _, ⟨-, h₄⟩, h⟩ := runs_then runs_getForUpdate h
  obtain ⟨_, _, ⟨-, h₅⟩, h⟩ := runs_then runs_ofExcept h
  obtain ⟨stored, _, ⟨-, h₆⟩, h⟩ := runs_then runs_getForUpdate h
  cases stored with
  | some =>
    exact (not_runs_early h).elim
  | none =>
    rw [runs_put_commit h, h₆, h₅, h₄, h₃, h₂, h₁, ht]
    exact .validation _ hm hauthorized

lemma runs_fenced {rest : BuildTxn α} {t : Txn Value} (ht : t.onto C = C)
    (h : Runs C (fence state >>= fun _ => authorize authority >>= fun _ => rest) t a s) :
    C.lookup .manifest = some .building ∧ sameOwner state (C.lookup .workspace) = true ∧
      loadedFor state (C.lookup .load) = true ∧ Authorized authority C ∧
      ∃ t', t'.onto C = C ∧ Runs C rest t' a s := by
  obtain ⟨_, _, ⟨hm, howner, hload, h₁⟩, h⟩ := runs_then runs_fence h
  obtain ⟨_, t₂, ⟨hauthorized, h₂⟩, h⟩ := runs_then runs_authorize h
  rw [ht] at hm howner hload h₁
  rw [h₁] at hauthorized h₂
  exact ⟨hm, howner, hload, hauthorized, t₂, h₂, h⟩

lemma firstPage_effect {reader : Reader} {next : Option Bytes}
    (h : Runs C (firstPage A authority state reader before next) (Txn.start snapshot)
      (.commit result) s) : Effect A (.worker authority) C (s.onto C) := by
  obtain ⟨hm, -, -, hauthorized, t, ht, h⟩ := runs_fenced (Txn.onto_start C snapshot) h
  obtain ⟨_, _, ⟨-, h₁⟩, h⟩ := runs_then runs_getForUpdate h
  obtain ⟨_, _, ⟨-, h₂⟩, h⟩ := runs_then runs_ofExcept h
  obtain ⟨_, _, hverify, h⟩ := runs_bind.mp h
  obtain ⟨-, hs, -⟩ := TxnM.runs_read.mp hverify
  rw [runs_put_commit h, hs, h₂, h₁, ht]
  exact .validation _ hm hauthorized

lemma repeatPage_effect {reader : Reader} {after : BuildValidation}
    (h : Runs C (repeatPage authority state reader before after) (Txn.start snapshot)
      (.commit result) s) : Effect A (.worker authority) C (s.onto C) := by
  obtain ⟨hm, -, -, hauthorized, t, ht, h⟩ := runs_fenced (Txn.onto_start C snapshot) h
  obtain ⟨_, _, ⟨-, h₁⟩, h⟩ := runs_then runs_getForUpdate h
  rcases runs_ite.mp h with ⟨-, h⟩ | ⟨-, h⟩
  · exact (not_runs_early h).elim
  · obtain ⟨_, _, ⟨-, h₂⟩, h⟩ := runs_then runs_ofExcept h
    rw [runs_put_commit h, h₂, h₁, ht]
    exact .validation _ hm hauthorized

lemma activate_effect
    (h : Runs C (activate authority state proof) (Txn.start snapshot) (.commit u) s) :
    Effect A (.worker authority) C (s.onto C) := by
  obtain ⟨m, t, ⟨-, ht⟩, h⟩ := runs_then runs_manifest h
  rcases runs_ite.mp h with ⟨-, h⟩ | ⟨-, h⟩
  · exact (not_runs_early h).elim
  · obtain ⟨hm, howner, hload, hauthorized, _, h₁, h⟩ := runs_fenced ht h
    obtain ⟨_, _, ⟨-, h₂⟩, h⟩ := runs_then runs_getForUpdate h
    obtain ⟨_, _, ⟨-, h₃⟩, h⟩ := runs_then runs_ensure h
    rw [runs_put_commit h, h₃, h₂, h₁]
    obtain ⟨w, hw, -, hserving, -⟩ := sameOwner_eq_true.mp howner
    obtain ⟨_, hlookup, hcomplete, hartifact⟩ := loadedFor_eq_true.mp hload
    exact .activated hm hauthorized hlookup hcomplete hw (hserving ▸ hartifact)

lemma workerClaim_effect {hardLimits : HardLimits} {token : Token}
    (h : Runs C (workerClaim authority descriptor options hardLimits token) (Txn.start snapshot)
      (.commit state) s) : Effect A (.worker authority) C (s.onto C) := by
  obtain ⟨hm, hauthorized, t, ht, h⟩ := runs_worker h
  obtain ⟨_, _, h₁, h⟩ := runs_then runs_expectDescriptor h
  obtain ⟨_, _, ⟨-, h₂⟩, h⟩ := runs_then runs_getForUpdate h
  obtain ⟨_, _, ⟨-, h₃⟩, h⟩ := runs_then runs_ofExcept h
  obtain ⟨_, _, h₄, h⟩ := runs_then runs_get h
  obtain ⟨_, _, ⟨-, h₅⟩, h⟩ := runs_then runs_ensure h
  rw [runs_put_commit h, h₅, h₄, h₃, h₂, h₁, ht]
  exact .workspace _ hm hauthorized

lemma accept_effect {before after : BuildWorkspace}
    (h : Runs C (accept authority before after) (Txn.start snapshot) (.commit u) s) :
    Effect A (.worker authority) C (s.onto C) := by
  obtain ⟨hm, hauthorized, t, ht, h⟩ := runs_worker h
  obtain ⟨_, _, ⟨-, h₁⟩, h⟩ := runs_then runs_getForUpdate h
  obtain ⟨ending, _, ⟨-, h₂⟩, h⟩ := runs_then runs_ofExcept h
  cases ending with
  | early a =>
    exact (not_runs_early h).elim
  | commit a =>
    rw [runs_put_commit h, h₂, h₁, ht]
    exact .workspace _ hm hauthorized

lemma cleanup_effect (h : Runs C (cleanup state) (Txn.start snapshot) (.commit u) s) :
    Effect A .cleanup C (s.onto C) := by
  obtain ⟨m, t, ⟨rfl, ht⟩, h⟩ := runs_then runs_getForUpdate h
  obtain ⟨_, _, ⟨hended, h₁⟩, h⟩ := runs_then runs_ensure h
  obtain ⟨w, _, ⟨-, h₂⟩, h⟩ := runs_then runs_getForUpdate h
  cases w with
  | none =>
    exact (not_runs_early h).elim
  | some w =>
    obtain ⟨_, _, ⟨-, h₃⟩, h⟩ := runs_then runs_ensure h
    obtain ⟨_, _, hdelete, h⟩ := runs_bind.mp h
    obtain ⟨-, rfl, -⟩ := runs_pure.mp h
    rw [runs_delete hdelete, h₃, h₂, h₁, ht]
    exact .cleaned hended

lemma enqueue_effect (h : Runs C (enqueue options) (Txn.start snapshot) (.commit u) s) :
    Effect A .enqueue C (s.onto C) := by
  obtain ⟨_, t, ⟨-, ht⟩, h⟩ := runs_then runs_building h
  obtain ⟨w, _, ⟨-, h₁⟩, h⟩ := runs_then runs_getForUpdate h
  obtain ⟨_, _, ⟨-, h₂⟩, h⟩ := runs_then runs_ofExcept h
  obtain ⟨current, _, ⟨hlookup, h₃⟩, h⟩ := runs_then runs_getForUpdate h
  cases current with
  | some =>
    obtain ⟨_, _, -, h⟩ := runs_bind.mp h
    exact (not_runs_early h).elim
  | none =>
    rw [h₂, h₁, ht] at hlookup
    rw [runs_put_commit h, h₃, h₂, h₁, ht]
    exact .enqueued options hlookup.symm

lemma scheduleClaim_effect {now lease : ℕ} {claimed : Option BuildSchedule}
    (h : Runs C (scheduleClaim owner now lease) (Txn.start snapshot) (.commit claimed) s) :
    Effect A (.claim owner) C (s.onto C) := by
  obtain ⟨current, t, ⟨hlookup, ht⟩, h⟩ := runs_then runs_getForUpdate h
  cases current with
  | none =>
    exact (not_runs_early h).elim
  | some =>
    rcases runs_ite.mp h with ⟨-, h⟩ | ⟨-, h⟩
    · exact (not_runs_early h).elim
    rcases runs_ite.mp h with ⟨-, h⟩ | ⟨-, h⟩
    · exact (not_runs_early h).elim
    rw [runs_put_commit h, ht]
    exact .claimed owner (now + lease) hlookup.symm

lemma renew_effect {expiresMs : ℕ}
    (h : Runs C (renew owner expiresMs) (Txn.start snapshot) (.commit u) s) :
    Effect A .renew C (s.onto C) := by
  obtain ⟨current, t, ⟨hlookup, ht⟩, h⟩ := runs_then runs_getForUpdate h
  cases current with
  | none => exact (TxnM.runs_fail.mp h).elim
  | some =>
    obtain ⟨_, _, ⟨-, h₁⟩, h⟩ := runs_then runs_ensure h
    rw [runs_put_commit h, h₁, ht]
    exact .renewed expiresMs hlookup.symm

lemma finish_effect {success removed : Bool} {expiresMs : ℕ}
    (h : Runs C (finish owner success expiresMs) (Txn.start snapshot) (.commit removed) s) :
    Effect A (if removed then .remove else .release) C (s.onto C) := by
  obtain ⟨w, t, ht, h⟩ := runs_then runs_get h
  obtain ⟨current, _, ⟨hlookup, h₁⟩, h⟩ := runs_then runs_getForUpdate h
  rw [ht] at hlookup h₁
  cases current with
  | none =>
    exact (not_runs_early h).elim
  | some =>
    obtain ⟨_, _, ⟨-, h₂⟩, h⟩ := runs_then runs_ensure h
    rcases runs_ite.mp h with ⟨-, h⟩ | ⟨-, h⟩
    · obtain ⟨_, t₃, hdelete, h⟩ := runs_bind.mp h
      obtain ⟨hend, rfl, -⟩ := runs_pure.mp h
      cases hend
      rw [runs_delete hdelete, h₂, h₁]
      exact .removed
    · obtain ⟨_, _, hput, h⟩ := runs_bind.mp h
      obtain ⟨hend, rfl, -⟩ := runs_pure.mp h
      cases hend
      rw [runs_put hput, h₂, h₁]
      exact .released expiresMs hlookup.symm

lemma dropStep_effect {aborting : Bool} {range : BuildKey → Bool}
    (h : Runs C (dropStep aborting range) (Txn.start snapshot) (.commit u) s) :
    Effect A .drop C (s.onto C) := by
  obtain ⟨current, t, ⟨hlookup, ht⟩, h⟩ := runs_then runs_getForUpdate h
  have hmark (m : IndexLifecycle)
      (h : Runs C (TxnM.ensure (aborting = false ∨ m = .building) .invalidArgument >>= fun _ =>
        put .manifest .dropping >>= fun _ => (pure (.commit ()) : BuildTxn (Ending Unit))) t
          (.commit u) s) : Effect A .drop C (s.onto C) := by
    obtain ⟨_, t₁, ⟨-, h₁⟩, h⟩ := runs_then runs_ensure h
    rw [runs_put_commit h, h₁, ht]
    exact .dropped
  cases current with
  | none =>
    exact (not_runs_early h).elim
  | some m =>
    cases m with
    | building => exact hmark .building h
    | active => exact hmark .active h
    | dropping =>
      obtain ⟨_, _, hclear, h⟩ := runs_bind.mp h
      obtain ⟨rfl, -⟩ := runs_write.mp hclear
      obtain ⟨-, rfl, -⟩ := runs_pure.mp h
      rw [onto_stage, ht]
      exact .purged range hlookup.symm

end

end Bulk
