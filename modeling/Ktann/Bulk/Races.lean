/-
Callers that race to complete one build.

A caller that loses a race meets a store some other caller has moved on.  What it then
reports ends the build only if it counts as a terminal failure.

* `Racing` — complete calls with the same options, and nothing else;
* `Recent` — the stores that a caller can still read;
* `Calm`, `Later` — what the stores keep, and how they move on;
* `Passes` — one commit of a caller (`passes_workspace`, `passes_load`, `passes_validation`).
-/
import Ktann.Bulk.Answers

namespace Bulk

open BuildKey (Value)

variable {env : Environment} {options : BulkWorkerOptions} {A : Artifacts} {S S' S'' : BuildStore}
  {seen : ℕ} {log : Log} {c : Commit}

/-! ### The system -/

/-- A system of complete calls with the same options and no schedule.  A caller moves only
when `allowed`. -/
inductive Racing (env : Environment) (options : BulkWorkerOptions)
    (allowed : Log → Worker → Prop) : System → Prop
  | reserved : Racing env options allowed ⟨[⟨.reserve, Bulk.reserved env.descriptor⟩],
    fun _ => none⟩
  | call {sys : System} {i : ℕ} (before : Racing env options allowed sys)
      (hfree : sys.workers i = none) :
      Racing env options allowed { sys with
        workers := update sys.workers i
          (some ⟨none, by simp, sys.log.length, .complete options (.first .reading)⟩) }
  | work {sys : System} {i : ℕ} {w : Worker} {task : Task} {log : Log}
      (before : Racing env options allowed sys) (hworker : sys.workers i = some w)
      (hallowed : allowed sys.log w)
      (hstep : TaskStep env w.authority w.seen w.task sys.log task log) :
      Racing env options allowed ⟨log, update sys.workers i
        (some { w with seen := log.length, task := task })⟩
  | cleanup {sys : System} {log : Log} {state : BuildWorkspace} {o : Outcome Unit}
      (before : Racing env options allowed sys)
      (attempt : Attempt env (fun _ => .cleanup) (Bulk.cleanup state) 0 sys.log o log) :
      Racing env options allowed { sys with log := log }

lemma Racing.reachable {allowed : Log → Worker → Prop} {sys : System}
    (h : Racing env options allowed sys) : Reachable env sys := by
  induction h with
  | reserved => exact .reserved
  | call before hfree ih => exact ih.step (.spawn hfree rfl (.complete options))
  | work _ hworker hallowed hstep ih => exact ih.step (.work hworker hstep)
  | cleanup _ attempt ih => exact ih.step (.cleanup attempt)

/-- A store that a caller can still read. -/
def Recent (seen : ℕ) (log : Log) (c : Commit) : Prop :=
  ∃ newer older, Snapshot seen log newer c older

lemma Recent.mem (h : Recent seen log c) : c ∈ log := by
  obtain ⟨_, _, hsnapshot⟩ := h
  rw [hsnapshot.split]
  simp

lemma recent_head (hhead : log.head? = some c) (hseen : seen ≤ log.length) :
    Recent seen log c := by
  cases log with
  | nil => cases hhead
  | cons d log =>
    cases hhead
    exact ⟨[], log, rfl, by simpa using hseen⟩

lemma recent_cons {d : Commit} (h : Recent seen (c :: log) d) : d = c ∨ Recent seen log d := by
  obtain ⟨newer, older, hsnapshot⟩ := h
  cases newer with
  | nil =>
    left
    have hsplit := hsnapshot.split
    simp only [nil_append, List.cons.injEq] at hsplit
    exact hsplit.1.symm
  | cons e newer =>
    right
    have hsplit := hsnapshot.split
    simp only [cons_append, List.cons.injEq] at hsplit
    exact ⟨newer, older, hsplit.2, hsnapshot.recent⟩

lemma recent_length (h : Recent log.length log c) : log.head? = some c := by
  obtain ⟨newer, _, hsnapshot⟩ := h
  have hlength := congrArg List.length hsnapshot.split
  have hrecent := hsnapshot.recent
  rw [length_append, length_cons] at hlength
  have hnewer : newer = [] := List.eq_nil_of_length_eq_zero (by omega)
  rw [hsnapshot.split, hnewer]
  rfl

lemma Chained.building {current : Commit} (h : Chained A (current :: log))
    (hbuilding : current.store.lookup .manifest = some .building) :
    ∀ c ∈ current :: log, c.store.lookup .manifest = some .building := by
  generalize hall : current :: log = all at h
  induction h generalizing current log with
  | reserved =>
    cases hall
    intro c hc
    cases mem_singleton.mp hc
    exact hbuilding
  | @commit _ c _ _ effect ih =>
    cases hall
    have hbefore := effect.building_before hbuilding
    exact forall_mem_cons.mpr ⟨hbuilding, ih hbefore rfl⟩

/-! ### Stores -/

/-- An unfinished proof stands where its cursor is. -/
def BuildValidation.Proves (v : BuildValidation) (A : Artifacts) (artifact : ArtifactManifest) :
    Prop :=
  v.complete = false → v.entries ≤ (A.entries artifact).length ∧
    v.prefixSha256 = A.prefixDigest artifact v.entries ∧
    (A.entries artifact).drop v.entries = (A.entries artifact).filter fun e => v.cursor ≤ e.1

/-- What a Building store keeps while callers race. -/
structure Calm (env : Environment) (options : BulkWorkerOptions) (S : BuildStore) : Prop where
  unscheduled : Unscheduled env S
  artifact : ∀ load, S.lookup .load = some load → ∃ w p, S.lookup .workspace = some w ∧
    w.serving = some p ∧ p.manifest = load.artifact
  workspace : ∀ w, S.lookup .workspace = some w → w.options = options ∧
    w.hardLimits = env.hardLimits ∧ w.failure = none ∧ (w.serving ≠ none → w.forest ≠ none)
  valid : S.lookup .workspace ≠ none → options.validate = .ok ()
  validation : ∀ v, S.lookup .validation = some v → ∃ load, S.lookup .load = some load ∧
    load.complete = true ∧ v.Proves env.artifacts load.artifact

/-- How a store moves on: the token, an accepted artifact, a complete load and a complete
proof stay. -/
structure Later (S S' : BuildStore) : Prop where
  workspace : ∀ w, S.lookup .workspace = some w → ∃ w', S'.lookup .workspace = some w' ∧
    w'.token = w.token ∧ ∀ p, w.serving = some p → w'.serving = some p
  load : ∀ load, S.lookup .load = some load → ∃ load', S'.lookup .load = some load' ∧
    load.epoch ≤ load'.epoch ∧ (load.complete = true → load' = load)
  validation : ∀ v, S.lookup .validation = some v → ∃ v', S'.lookup .validation = some v' ∧
    (v.complete = true → v' = v)

lemma Later.refl (S : BuildStore) : Later S S :=
  ⟨fun w hw => ⟨w, hw, rfl, fun _ hp => hp⟩, fun load hload => ⟨load, hload, le_rfl, fun _ => rfl⟩,
    fun v hv => ⟨v, hv, fun _ => rfl⟩⟩

lemma Later.trans (h : Later S S') (h' : Later S' S'') : Later S S'' where
  workspace w hw := by
    obtain ⟨w', hw', htoken, hserving⟩ := h.workspace w hw
    obtain ⟨w'', hw'', htoken', hserving'⟩ := h'.workspace w' hw'
    exact ⟨w'', hw'', htoken'.trans htoken, fun p hp => hserving' p (hserving p hp)⟩
  load load hload := by
    obtain ⟨load', hload', hepoch, hcomplete⟩ := h.load load hload
    obtain ⟨load'', hload'', hepoch', hcomplete'⟩ := h'.load load' hload'
    refine ⟨load'', hload'', hepoch.trans hepoch', fun hc => ?_⟩
    cases hcomplete hc
    exact hcomplete' hc
  validation v hv := by
    obtain ⟨v', hv', hcomplete⟩ := h.validation v hv
    obtain ⟨v'', hv'', hcomplete'⟩ := h'.validation v' hv'
    refine ⟨v'', hv'', fun hc => ?_⟩
    cases hcomplete hc
    exact hcomplete' hc

/-- A load that no other caller has moved within its epoch. -/
def Holds (load : BuildLoad) (S : BuildStore) : Prop :=
  ∃ load', S.lookup .load = some load' ∧ load.epoch ≤ load'.epoch ∧
    (load'.epoch = load.epoch → load' = load)

/-- Epochs up to a bound. -/
def Bounded (n : ℕ) (S : BuildStore) : Prop :=
  (∀ load, S.lookup .load = some load → load.epoch ≤ n) ∧
    ∀ w, S.lookup .workspace = some w → w.epoch ≤ n

/-- One commit of a caller that holds a load epoch. -/
structure Passes (env : Environment) (options : BulkWorkerOptions) (held : Option ℕ)
    (S S' : BuildStore) : Prop where
  calm : Calm env options S'
  later : Later S S'
  holds : ∀ load, held ≠ some load.epoch → Holds load S → Holds load S'
  bounded : ∀ n, Bounded n S → Bounded (n + 1) S'

lemma Unscheduled.put {k : BuildKey} {v : Value k} (h : Unscheduled env S)
    (hmanifest : BuildKey.manifest ≠ k) (hschedule : BuildKey.schedule ≠ k)
    (hdescriptor : BuildKey.descriptor ≠ k) : Unscheduled env (S.put k v) where
  building := (lookup_put_ne S v hmanifest).trans h.building
  schedule := (lookup_put_ne S v hschedule).trans h.schedule
  descriptor := (lookup_put_ne S v hdescriptor).trans h.descriptor

variable {held : Option ℕ}

lemma passes_workspace {state : BuildWorkspace} (h : Calm env options S)
    (hvalid : options.validate = .ok ())
    (hstate : state.options = options ∧ state.hardLimits = env.hardLimits ∧ state.failure = none ∧
      (state.serving ≠ none → state.forest ≠ none))
    (hkeep : ∀ w, S.lookup .workspace = some w → state.token = w.token ∧
      (∀ p, w.serving = some p → state.serving = some p) ∧ state.epoch ≤ w.epoch + 1)
    (hnone : S.lookup .workspace = none → state.epoch ≤ 1) :
    Passes env options held S (S.put .workspace state) := by
  have hw : (S.put .workspace state).lookup .workspace = some state := lookup_put_self _ _ _
  have hload : (S.put .workspace state).lookup .load = S.lookup .load :=
    lookup_put_ne _ _ (by decide)
  have hvalidation : (S.put .workspace state).lookup .validation = S.lookup .validation :=
    lookup_put_ne _ _ (by decide)
  refine ⟨⟨h.unscheduled.put (by decide) (by decide) (by decide), ?_, ?_, fun _ => hvalid, ?_⟩,
    ⟨?_, ?_, ?_⟩, ?_, ?_⟩
  · intro load hlookup
    obtain ⟨w, p, hlookup', hserving, hmanifest⟩ := h.artifact load (hload ▸ hlookup)
    exact ⟨state, p, hw, (hkeep w hlookup').2.1 p hserving, hmanifest⟩
  · intro w hlookup
    cases hw.symm.trans hlookup
    exact hstate
  · intro v hv
    rw [hload]
    exact h.validation v (hvalidation ▸ hv)
  · intro w hlookup
    exact ⟨state, hw, (hkeep w hlookup).1, (hkeep w hlookup).2.1⟩
  · intro load hlookup
    exact ⟨load, hload.trans hlookup, le_rfl, fun _ => rfl⟩
  · intro v hv
    exact ⟨v, hvalidation.trans hv, fun _ => rfl⟩
  · rintro load - ⟨load', hlookup, hrest⟩
    exact ⟨load', hload.trans hlookup, hrest⟩
  · rintro n ⟨hloads, hworkspaces⟩
    refine ⟨fun load hlookup => (hloads load (hload ▸ hlookup)).trans (Nat.le_succ n), ?_⟩
    intro w hlookup
    cases hw.symm.trans hlookup
    cases hold : S.lookup .workspace with
    | none => exact (hnone hold).trans (by omega)
    | some w =>
      have hepoch := (hkeep w hold).2.2
      have hle := hworkspaces w hold
      omega

lemma passes_load {after : BuildLoad} {entries : List Entry} (h : Calm env options S)
    (hartifact : ∃ w p, S.lookup .workspace = some w ∧ w.serving = some p ∧
      p.manifest = after.artifact)
    (hold : ∀ load, S.lookup .load = some load → load.complete = false ∧
      load.epoch ≤ after.epoch ∧ after.epoch ≤ load.epoch + 1 ∧
      (after.epoch = load.epoch → held = some load.epoch))
    (hnone : S.lookup .load = none → after.epoch ≤ 1) :
    Passes env options held S (putAll (S.put .load after) entries) := by
  have hother {k : BuildKey} (hk : ∀ key, k ≠ .data key) (hne : k ≠ .load) :
      (putAll (S.put .load after) entries).lookup k = S.lookup k :=
    (lookup_putAll hk).trans (lookup_put_ne _ _ hne)
  have hload : (putAll (S.put .load after) entries).lookup .load = some after :=
    (lookup_putAll (by simp)).trans (lookup_put_self _ _ _)
  have hw := hother (k := .workspace) (by simp) (by decide)
  have hvalidation := hother (k := .validation) (by simp) (by decide)
  -- Validation starts from a complete load.
  have hfresh : S.lookup .validation = none := by
    cases hv : S.lookup .validation with
    | none => rfl
    | some v =>
      obtain ⟨load, hlookup, hcomplete, -⟩ := h.validation v hv
      cases (hold load hlookup).1.symm.trans hcomplete
  refine ⟨⟨⟨?_, ?_, ?_⟩, ?_, ?_, hw ▸ h.valid, ?_⟩, ⟨?_, ?_, ?_⟩, ?_, ?_⟩
  · exact (hother (k := .manifest) (by simp) (by decide)).trans h.unscheduled.building
  · exact (hother (k := .schedule) (by simp) (by decide)).trans h.unscheduled.schedule
  · exact (hother (k := .descriptor) (by simp) (by decide)).trans h.unscheduled.descriptor
  · intro load hlookup
    cases hload.symm.trans hlookup
    rw [hw]
    exact hartifact
  · intro w hlookup
    exact h.workspace w (hw ▸ hlookup)
  · intro v hv
    rw [hvalidation, hfresh] at hv
    cases hv
  · intro w hlookup
    exact ⟨w, hw.trans hlookup, rfl, fun _ hp => hp⟩
  · intro load hlookup
    refine ⟨after, hload, (hold load hlookup).2.1, fun hcomplete => ?_⟩
    cases (hold load hlookup).1.symm.trans hcomplete
  · intro v hv
    rw [hfresh] at hv
    cases hv
  · rintro load hheld ⟨load', hlookup, hle, hsame⟩
    obtain ⟨-, hepoch, -, hmoved⟩ := hold load' hlookup
    refine ⟨after, hload, hle.trans hepoch, fun heq => ?_⟩
    have hlast : load'.epoch = load.epoch := by omega
    exact absurd ((hmoved (by omega)).trans (by rw [hlast])) hheld
  · rintro n ⟨hloads, hworkspaces⟩
    refine ⟨fun load hlookup => ?_, fun w hlookup =>
      (hworkspaces w (hw ▸ hlookup)).trans (Nat.le_succ n)⟩
    cases hload.symm.trans hlookup
    cases hcurrent : S.lookup .load with
    | none => exact (hnone hcurrent).trans (by omega)
    | some current =>
      have hepoch := (hold current hcurrent).2.2.1
      have hle := hloads current hcurrent
      omega

lemma passes_validation {proof : BuildValidation} (h : Calm env options S)
    (hload : ∃ load, S.lookup .load = some load ∧ load.complete = true ∧
      proof.Proves env.artifacts load.artifact)
    (hold : ∀ v, S.lookup .validation = some v → v.complete = false) :
    Passes env options held S (S.put .validation proof) := by
  have hother {k : BuildKey} (hne : k ≠ .validation) :
      (S.put .validation proof).lookup k = S.lookup k := lookup_put_ne _ _ hne
  have hv : (S.put .validation proof).lookup .validation = some proof := lookup_put_self _ _ _
  have hw := hother (k := .workspace) (by decide)
  have hl := hother (k := .load) (by decide)
  refine ⟨⟨h.unscheduled.put (by decide) (by decide) (by decide), ?_, ?_, hw ▸ h.valid, ?_⟩,
    ⟨?_, ?_, ?_⟩, ?_, ?_⟩
  · intro load hlookup
    rw [hw]
    exact h.artifact load (hl ▸ hlookup)
  · intro w hlookup
    exact h.workspace w (hw ▸ hlookup)
  · intro v hlookup
    cases hv.symm.trans hlookup
    rw [hl]
    exact hload
  · intro w hlookup
    exact ⟨w, hw.trans hlookup, rfl, fun _ hp => hp⟩
  · intro load hlookup
    exact ⟨load, hl.trans hlookup, le_rfl, fun _ => rfl⟩
  · intro v hlookup
    refine ⟨proof, hv, fun hcomplete => ?_⟩
    cases (hold v hlookup).symm.trans hcomplete
  · rintro load - ⟨load', hlookup, hrest⟩
    exact ⟨load', hl.trans hlookup, hrest⟩
  · rintro n ⟨hloads, hworkspaces⟩
    exact ⟨fun load hlookup => (hloads load (hl ▸ hlookup)).trans (Nat.le_succ n),
      fun w hlookup => (hworkspaces w (hw ▸ hlookup)).trans (Nat.le_succ n)⟩

end Bulk
