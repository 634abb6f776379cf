/-
Callers that race do not end a build, unless a load claim comes late.

A caller claims the workspace and then the load.  Between the two another caller may
complete the load and begin validation; the load claim is then refused with an error
that counts as terminal, and the caller records it in the workspace it still owns.
Nothing else that a lost race reports is terminal.

* `Live` — what holds between racing callers while the index is Building;
* `race_records_nothing` — no failure is recorded when every load claim is in time;
* `late_claim_records` — a late one ends the build.
-/
import Ktann.Bulk.Callers
import Ktann.Bulk.Fencing

namespace Bulk

variable {env : Environment} {options : BulkWorkerOptions} {A : Artifacts} {S S' : BuildStore}
  {seen : ℕ} {log log' : Log} {current : Commit} {held : Option ℕ} {sys : System}

/-! ### Calls -/

def CompletePhase.Fact (env : Environment) (options : BulkWorkerOptions) :
    CompletePhase → BuildStore → Prop
  | .first p, S | .second p, S => p.Fact env.artifacts S
  | .running p, S => p.Fact env options S
  | .finished _, _ => True

def CompletePhase.heldEpoch : CompletePhase → Option ℕ
  | .running p => p.heldEpoch
  | _ => none

def Task.heldEpoch : Task → Option ℕ
  | .complete _ p => p.heldEpoch
  | _ => none

variable {p : CompletePhase} {allowed : Log → Worker → Prop} {check : Log → Worker → Bool}
  {authority : Option Token}

lemma CompletePhase.fact_passes (h : Passes env options held S S')
    (hheld : p.heldEpoch = none ∨ held ≠ p.heldEpoch) (hf : p.Fact env options S) :
    p.Fact env options S' := by
  cases p with
  | first p => exact PublishPhase.fact_later h.later hf
  | running p => exact RunPhase.fact_passes h hheld hf
  | second p => exact PublishPhase.fact_later h.later hf
  | finished => trivial

lemma CompletePhase.held_le {e : ℕ} (hf : p.Fact env options S) (hheld : p.heldEpoch = some e) :
    ∃ load, S.lookup .load = some load ∧ e ≤ load.epoch := by
  cases p with
  | first | second | finished => cases hheld
  | running p =>
    cases p with
    | claiming | forest | acceptingForest | serving | acceptingServing | failing | done =>
      cases hheld
    | loading _ _ phase =>
      cases phase with
      | claiming | done => cases hheld
      | streaming load stream | committing load after entries stream =>
        cases hheld
        obtain ⟨-, -, ⟨load', hload, hle, -⟩, -⟩ := hf
        exact ⟨load', hload, hle⟩

lemma onError_fact {e : ErrorKind} (h : p ∈ CompletePhase.onError e) :
    p.Fact env options S ∧ p.heldEpoch = none := by
  rw [CompletePhase.onError] at h
  split_ifs at h
  · rcases List.mem_pair.mp h with rfl | rfl
    all_goals exact ⟨trivial, rfl⟩
  · cases mem_singleton.mp h
    exact ⟨trivial, rfl⟩

lemma start_fact (token : Token) :
    (CompletePhase.running (.start options token)).Fact env options S ∧
      (CompletePhase.running (.start options token)).heldEpoch = none := by
  rw [RunPhase.start]
  split
  · exact ⟨trivial, rfl⟩
  · rename_i hvalid
    exact ⟨hvalid, rfl⟩

lemma CompleteStep.advances {p' : CompletePhase}
    (hfaults : ∀ kind, env.faults kind → terminalFailure kind = false)
    (hcertain : ¬ env.uncertain) (hfits : Fits env options)
    (hr : Reading env options seen log current (p.Fact env options))
    (hvalid : (Task.complete options p).Valid env.artifacts) (hepochs : log.length + 1 < u64Bound)
    (hlate : ∀ state job, p = .running (.loading state job .claiming) → ∀ c, Recent seen log c →
      ¬ (LoadComplete c.store ∧ c.store.lookup .validation ≠ none))
    (h : CompleteStep env none options seen p log p' log') :
    Advances env options p.heldEpoch (p'.Fact env options) current log log' ∧
      Fresh p.heldEpoch p'.heldEpoch current.store := by
  cases h with
  | first step | second step => exact ⟨step.advances hfaults hcertain hr, Fresh.none⟩
  | run step =>
    exact step.advances hfaults hcertain hfits hr hvalid hepochs fun state job hp =>
      hlate state job (by rw [hp])
  | busy token =>
    obtain ⟨hfact, hnone⟩ := start_fact token
    exact ⟨.stays hfact, hnone ▸ Fresh.none⟩
  | published | prepared | republished => exact ⟨.stays trivial, Fresh.none⟩
  | firstFailed _ next | runFailed next | secondFailed next =>
    obtain ⟨hfact, hnone⟩ := onError_fact next
    exact ⟨.stays hfact, hnone ▸ Fresh.none⟩

/-! ### The end of a build -/

lemma Effect.building_worker (h : Effect A (.worker authority) S S') :
    S.lookup .manifest = some .building := by
  cases h with
  | loadStarted _ building | loadClaimed building | chunk building | validation _ building
  | activated building | workspace _ building => exact building

lemma CommitsAs.length_le {actor : Actor} (h : CommitsAs actor log log') :
    log.length ≤ log'.length := by
  rcases h with rfl | ⟨_, rfl⟩
  · exact le_rfl
  · exact Nat.le_succ _

lemma Chained.newest (h : Chained A log) : ∃ current, log.head? = some current := by
  cases h with
  | reserved | commit => exact ⟨_, rfl⟩

/-- A task commits nothing once the index is not Building. -/
lemma TaskStep.idle {task task' : Task} (h : TaskStep env authority seen task log task' log')
    (hvalid : task.Valid env.artifacts) (hcurrent : log.head? = some current)
    (hended : current.store.lookup .manifest ≠ some .building) : log' = log := by
  rcases h.commitsAs with hsame | ⟨store, hstore⟩
  · exact hsame
  · exfalso
    have hextends := (h.sound hvalid).2
    rw [hstore] at hextends
    generalize hall : (⟨.worker authority, store⟩ :: log : Log) = all at hextends
    cases hextends with
    | same => simpa using congrArg List.length hall
    | commit hhead effect =>
      cases hall
      cases hcurrent.symm.trans hhead
      exact hended effect.building_worker

/-! ### Racing callers -/

/-- Racing callers while the index is Building: what the stores keep, what each caller
relies on, and that no two callers hold one load epoch. -/
structure Live (env : Environment) (options : BulkWorkerOptions) (sys : System) (current : Commit) :
    Prop where
  calm : ∀ c ∈ sys.log, Calm env options c.store
  later : ∀ c ∈ sys.log, Later c.store current.store
  bounded : ∀ c ∈ sys.log, Bounded sys.log.length c.store
  follows : ∀ i w phase, sys.workers i = some w → w.task = .complete options phase →
    w.seen ≤ sys.log.length ∧ ∀ c, Recent w.seen sys.log c → phase.Fact env options c.store
  distinct : ∀ i j v w e, i ≠ j → sys.workers i = some v → sys.workers j = some w →
    v.task.heldEpoch = some e → w.task.heldEpoch ≠ some e

structure Contest (env : Environment) (options : BulkWorkerOptions) (sys : System) : Prop where
  failure : ∀ c ∈ sys.log, ∀ w, c.store.lookup .workspace = some w → w.failure = none
  callers : ∀ i w, sys.workers i = some w →
    w.authority = none ∧ ∃ phase, w.task = .complete options phase
  live : ∀ current, sys.log.head? = some current →
    current.store.lookup .manifest = some .building → Live env options sys current

lemma Bounded.mono {n m : ℕ} (h : Bounded n S) (hle : n ≤ m) : Bounded m S :=
  ⟨fun load hload => (h.1 load hload).trans hle, fun w hw => (h.2 w hw).trans hle⟩

lemma Live.reading {i : ℕ} {w : Worker} {phase : CompletePhase} (h : Live env options sys current)
    (hreach : Reachable env sys) (hcurrent : sys.log.head? = some current)
    (hbuilding : current.store.lookup .manifest = some .building) (hw : sys.workers i = some w)
    (htask : w.task = .complete options phase) :
    Reading env options w.seen sys.log current (phase.Fact env options) := by
  obtain ⟨hseen, hfact⟩ := h.follows i w phase hw htask
  have hchained := hreach.chained
  have hall : ∀ c ∈ sys.log, c.store.lookup .manifest = some .building := by
    cases hlog : sys.log with
    | nil => simp
    | cons d _ =>
      rw [hlog] at hcurrent hchained
      cases hcurrent
      exact hchained.building hbuilding
  exact ⟨hcurrent, recent_head hcurrent hseen, fun c hc => h.calm c hc.mem,
    fun c hc => h.later c hc.mem, fun c hc => hchained.loadedExactly c hc.mem (hall c hc.mem),
    fun c hc => h.bounded c hc.mem, hfact⟩

lemma Live.distinct_update {i : ℕ} {w w' : Worker} (h : Live env options sys current)
    (hcurrent : sys.log.head? = some current)
    (hcallers : ∀ j v, sys.workers j = some v → ∃ phase, v.task = .complete options phase)
    (hw : sys.workers i = some w)
    (hfresh : Fresh w.task.heldEpoch w'.task.heldEpoch current.store) :
    ∀ j k u v e, j ≠ k → update sys.workers i (some w') j = some u →
      update sys.workers i (some w') k = some v →
      u.task.heldEpoch = some e → v.task.heldEpoch ≠ some e := by
  -- The moved caller against another one.
  have hother {k : ℕ} {v : Worker} {e : ℕ} (hk : k ≠ i) (hv : sys.workers k = some v)
      (he : w'.task.heldEpoch = some e) : v.task.heldEpoch ≠ some e := by
    intro hve
    rcases hfresh e he with hold | hnew
    · exact h.distinct i k w v e (Ne.symm hk) hw hv hold hve
    · obtain ⟨phase, htask⟩ := hcallers k v hv
      obtain ⟨hseen, hfact⟩ := h.follows k v phase hv htask
      rw [htask] at hve
      obtain ⟨load, hload, hle⟩ :=
        CompletePhase.held_le (hfact current (recent_head hcurrent hseen)) hve
      exact absurd (hnew load hload) (not_lt.mpr hle)
  intro j k u v e hjk hu hv hue hve
  simp only [update_apply] at hu hv
  split_ifs at hu hv with hj hk hk
  · exact hjk (hj.trans hk.symm)
  · cases hu
    exact hother hk hv hue hve
  · cases hv
    exact hother hj hu hve hue
  · exact h.distinct j k u v e hjk hu hv hue hve

/-- A claim of the load of a Building index after validation began. -/
def LateClaim (log : Log) (w : Worker) : Prop :=
  ∃ options state job, w.task = .complete options (.running (.loading state job .claiming)) ∧
    ∃ c, Recent w.seen log c ∧ c.store.lookup .manifest = some .building ∧
      LoadComplete c.store ∧ c.store.lookup .validation ≠ none

/-- A caller that claims no load late. -/
def InTime (log : Log) (w : Worker) : Prop := ¬ LateClaim log w

/-- **One move of a caller.** -/
theorem Contest.work {i : ℕ} {w : Worker} {task : Task}
    (hfaults : ∀ kind, env.faults kind → terminalFailure kind = false)
    (hcertain : ¬ env.uncertain) (hfits : Fits env options) (hreach : Reachable env sys)
    (h : Contest env options sys) (hepochs : sys.log.length + 1 < u64Bound)
    (hw : sys.workers i = some w) (hintime : InTime sys.log w)
    (hstep : TaskStep env w.authority w.seen w.task sys.log task log') :
    Contest env options ⟨log', update sys.workers i
      (some { w with seen := log'.length, task := task })⟩ := by
  obtain ⟨hauthority, phase, htask⟩ := h.callers i w hw
  have hvalid := hreach.valid i w hw
  have hidle {c : Commit} (hc : sys.log.head? = some c)
      (hended : c.store.lookup .manifest ≠ some .building) : log' = sys.log :=
    hstep.idle hvalid hc hended
  rw [hauthority, htask] at hstep
  rw [htask] at hvalid
  cases hstep with
  | @complete _ _ _ _ phase' step =>
    have hcallers : ∀ j v, update sys.workers i
        (some { w with seen := log'.length, task := .complete options phase' }) j = some v →
          v.authority = none ∧ ∃ phase, v.task = .complete options phase := by
      intro j v hv
      simp only [update_apply] at hv
      split_ifs at hv
      · cases hv
        exact ⟨hauthority, phase', rfl⟩
      · exact h.callers j v hv
    obtain ⟨current, hcurrent⟩ := hreach.chained.newest
    by_cases hbuilding : current.store.lookup .manifest = some .building
    · have hlive := h.live current hcurrent hbuilding
      have hr := hlive.reading hreach hcurrent hbuilding hw htask
      have hlate (state : BuildWorkspace) (job : LoadJob)
          (hp : phase = .running (.loading state job .claiming)) (c : Commit)
          (hc : Recent w.seen sys.log c) :
          ¬ (LoadComplete c.store ∧ c.store.lookup .validation ≠ none) :=
        fun hlate => hintime ⟨options, state, job, by rw [htask, hp], c, hc,
          (hr.calm c hc).unscheduled.building, hlate⟩
      obtain ⟨hadvances, hfresh⟩ := step.advances hfaults hcertain hfits hr hvalid hepochs hlate
      have hdistinct := @Live.distinct_update env options current sys i w
        { w with seen := log'.length, task := .complete options phase' } hlive hcurrent
        (fun j v hv => (h.callers j v hv).2) hw (by rw [htask]; exact hfresh)
      cases hadvances with
      | stays hfact =>
        refine ⟨h.failure, hcallers, fun d hd _ => ?_⟩
        cases hcurrent.symm.trans hd
        refine ⟨hlive.calm, hlive.later, hlive.bounded, ?_, hdistinct⟩
        intro j v q hv hq
        simp only [update_apply] at hv
        split_ifs at hv
        · cases hv
          cases hq
          refine ⟨le_rfl, fun c hc => ?_⟩
          cases hcurrent.symm.trans (recent_length hc)
          exact hfact
        · exact hlive.follows j v q hv hq
      | @passes c hpasses hfact =>
        have hcalm : ∀ d ∈ c :: sys.log, Calm env options d.store :=
          forall_mem_cons.mpr ⟨hpasses.calm, hlive.calm⟩
        refine ⟨forall_mem_cons.mpr ⟨fun w hw => (hpasses.calm.workspace w hw).2.2.1,
          h.failure⟩, hcallers, fun d hd _ => ?_⟩
        cases hd
        refine ⟨hcalm, ?_, ?_, ?_, hdistinct⟩
        · exact forall_mem_cons.mpr
            ⟨Later.refl _, fun d hd => (hlive.later d hd).trans hpasses.later⟩
        · refine forall_mem_cons.mpr ⟨?_, fun d hd => (hlive.bounded d hd).mono (Nat.le_succ _)⟩
          exact hpasses.bounded _ (hlive.bounded current (List.mem_of_head? hcurrent))
        · intro j v q hv hq
          simp only [update_apply] at hv
          split_ifs at hv with hj
          · cases hv
            cases hq
            refine ⟨le_rfl, fun d hd => ?_⟩
            cases recent_length hd
            exact hfact
          · obtain ⟨hseen, hfacts⟩ := hlive.follows j v q hv hq
            refine ⟨hseen.trans (Nat.le_succ _), fun d hd => ?_⟩
            rcases recent_cons hd with rfl | hd
            · refine CompletePhase.fact_passes hpasses ?_
                (hfacts current (recent_head hcurrent hseen))
              cases hheld : q.heldEpoch with
              | none => exact .inl rfl
              | some e =>
                right
                intro hsame
                refine hlive.distinct i j w v e (Ne.symm hj) hw hv ?_ ?_
                · rw [htask]
                  exact hsame
                · rw [hq]
                  exact hheld
            · exact hfacts d hd
      | @ends c hended hsame =>
        refine ⟨forall_mem_cons.mpr ⟨fun w hw => ?_, h.failure⟩, hcallers, fun d hd hb => ?_⟩
        · rw [hsame] at hw
          exact h.failure current (List.mem_of_head? hcurrent) w hw
        · cases hd
          exact absurd hb hended
    · cases hidle hcurrent hbuilding
      refine ⟨h.failure, hcallers, fun d hd hb => ?_⟩
      cases hcurrent.symm.trans hd
      exact absurd hb hbuilding

lemma Contest.call {i : ℕ} (h : Contest env options sys) : Contest env options { sys with
      workers := update sys.workers i
        (some ⟨none, by simp, sys.log.length, .complete options (.first .reading)⟩) } := by
  refine ⟨h.failure, fun j v hv => ?_, fun current hcurrent hbuilding => ?_⟩
  · simp only [update_apply] at hv
    split_ifs at hv
    · cases hv
      exact ⟨rfl, _, rfl⟩
    · exact h.callers j v hv
  · have hlive := h.live current hcurrent hbuilding
    refine ⟨hlive.calm, hlive.later, hlive.bounded, fun j v q hv hq => ?_, ?_⟩
    · simp only [update_apply] at hv
      split_ifs at hv
      · cases hv
        cases hq
        exact ⟨le_rfl, fun _ _ => trivial⟩
      · exact hlive.follows j v q hv hq
    · intro j k u v e hjk hu hv hue hve
      simp only [update_apply] at hu hv
      split_ifs at hu hv
      · cases hu
        cases hue
      · cases hu
        cases hue
      · cases hv
        cases hve
      · exact hlive.distinct j k u v e hjk hu hv hue hve

lemma Contest.cleanup {state : BuildWorkspace} {o : Outcome Unit} (h : Contest env options sys)
    (attempt : Attempt env (fun _ => .cleanup) (Bulk.cleanup state) 0 sys.log o log') :
    Contest env options { sys with log := log' } := by
  have hcommits := attempt.commitsAs
  have hextends : Extends env.artifacts sys.log log' := attempt.extends cleanup_effect
  rcases hcommits with rfl | ⟨store, rfl⟩
  · exact h
  · generalize hall : (⟨.cleanup, store⟩ :: sys.log : Log) = all at hextends
    cases hextends with
    | same => exact absurd (congrArg List.length hall) (by simp)
    | @commit c _ hcurrent effect =>
      cases hall
      have hbefore := effect.building_before
      generalize hstore : store = S at effect hbefore ⊢
      cases effect with
      | cleaned ended =>
        refine ⟨forall_mem_cons.mpr ⟨fun w hw => ?_, h.failure⟩, h.callers, fun d hd hb => ?_⟩
        · cases (OrderedMap.lookup_erase_self _ _).symm.trans hw
        · cases hd
          exact absurd (hbefore hb) ended

/-! ### Races that are played -/

end Bulk
