/-
The schedule fences a build.

Every transaction of a worker protects the schedule it was authorized by, so a commit
was authorized by the schedule it commits onto.  After a claim the schedule is the
claimer's, free or removed, until the next claim.

* `Effect.schedule` — what a commit does to the schedule;
* `schedule_fences` — **after a claim only its owner commits**, as long as the schedule
  is there;
* `unscheduled_after_claim` — once it is removed, an unscheduled call commits.
-/
import Ktann.Bulk.Exact

namespace Bulk

variable {env : Environment} {A : Artifacts} {authority : Option Token} {seen : ℕ} {log log' : Log}
  {actor : Actor} {S S' : BuildStore} {owner : Token}

/-! ### The schedule along a log -/

lemma Effect.authorized (h : Effect A (.worker authority) S S') : Authorized authority S := by
  cases h with
  | loadStarted _ _ authorized | loadClaimed _ authorized | chunk _ authorized
  | validation _ _ authorized | activated _ authorized | workspace _ _ authorized =>
    exact authorized

lemma Effect.schedule (h : Effect A actor S S') (hclaim : ∀ owner, actor ≠ .claim owner) :
    S'.lookup .schedule = S.lookup .schedule ∨
    (∃ s s', S.lookup .schedule = some s ∧ S'.lookup .schedule = some s' ∧ s'.owner = s.owner) ∨
    (∃ s', S'.lookup .schedule = some s' ∧ s'.owner = unclaimed) ∨
    (actor = .remove ∧ S'.lookup .schedule = none) := by
  cases h with
  | loadStarted | loadClaimed | validation | activated | workspace | dropped =>
    exact .inl (lookup_put_ne _ _ (by decide))
  | chunk =>
    exact .inl ((lookup_putAll fun _ => by simp).trans (lookup_put_ne _ _ (by decide)))
  | cleaned => exact .inl (lookup_erase_ne _ (by decide))
  | enqueued | released =>
    exact .inr (.inr (.inl ⟨_, lookup_put_self _ _ _, rfl⟩))
  | claimed owner => exact absurd rfl (hclaim owner)
  | renewed _ current =>
    exact .inr (.inl ⟨_, _, current, lookup_put_self _ _ _, rfl⟩)
  | removed => exact .inr (.inr (.inr ⟨rfl, OrderedMap.lookup_erase_self _ _⟩))
  | purged =>
    left
    rw [lookup_clear, if_neg (by simp [BuildKey.inIndexRange])]

/-- The schedule since a claim: the owner's or free, or removed by one of the commits
since. -/
def ClaimedBy (owner : Token) (since : Log) (S : BuildStore) : Prop :=
  (∃ s, S.lookup .schedule = some s ∧ (s.owner = owner ∨ s.owner = unclaimed)) ∨
    (S.lookup .schedule = none ∧ ∃ d ∈ since, d.actor = .remove)

lemma Effect.claimedBy {c : Commit} {since : Log} (h : Effect A c.actor S c.store)
    (hclaim : ∀ other, c.actor ≠ .claim other) (hS : ClaimedBy owner since S) :
    ClaimedBy owner (c :: since) c.store := by
  rcases h.schedule hclaim with hsame | ⟨s, s', hs, hs', howner⟩ | ⟨s', hs', hfree⟩ |
    ⟨hremove, hnone⟩
  · rw [ClaimedBy, hsame]
    exact hS.imp id fun ⟨hnone, d, hd, hremove⟩ => ⟨hnone, d, mem_cons_of_mem _ hd, hremove⟩
  · rcases hS with ⟨t, ht, htowner⟩ | ⟨hnone, -⟩
    · cases hs.symm.trans ht
      exact .inl ⟨s', hs', by rwa [howner]⟩
    · cases hs.symm.trans hnone
  · exact .inl ⟨s', hs', .inr hfree⟩
  · exact .inr ⟨hnone, c, mem_cons_self, hremove⟩

lemma Chained.older {c : Commit} {newer older : Log} (h : Chained A (newer ++ c :: older)) :
    Chained A (c :: older) := by
  induction newer with
  | nil => exact h
  | cons d newer ih =>
    rw [cons_append] at h
    cases hrest : newer ++ c :: older with
    | nil => simp at hrest
    | cons e =>
      rw [hrest] at h
      cases h with
      | commit before _ => exact ih (hrest ▸ before)

/-- The schedule stays the claimer's, free or removed until the next claim. -/
lemma Chained.claimedBy {claimed : Commit} {older : Log} (hclaim : claimed.actor = .claim owner) :
    ∀ {since : Log}, Chained A (since ++ claimed :: older) →
      (∀ d ∈ since, ∀ other, d.actor ≠ .claim other) →
      ∀ c, (since ++ claimed :: older).head? = some c → ClaimedBy owner since c.store := by
  intro since
  induction since with
  | nil =>
    intro h _ c hc
    cases hc
    cases h with
    | reserved => cases hclaim
    | commit _ effect =>
      rw [hclaim] at effect
      generalize claimed.store = S' at effect ⊢
      cases effect with
      | claimed _ _ _ => exact .inl ⟨_, lookup_put_self _ _ _, .inl rfl⟩
  | cons d since ih =>
    intro h hlatest c hc
    cases hc
    rw [cons_append] at h
    cases hrest : since ++ claimed :: older with
    | nil => simp at hrest
    | cons e =>
      rw [hrest] at h
      cases h with
      | commit before effect =>
        refine effect.claimedBy (hlatest _ mem_cons_self) ?_
        exact ih (hrest ▸ before) (fun d hd => hlatest d (mem_cons_of_mem _ hd)) e
          (by rw [hrest]; rfl)

/-! ### Who commits -/

def CommitsAs (actor : Actor) (log log' : Log) : Prop :=
  log' = log ∨ ∃ store, log' = ⟨actor, store⟩ :: log

lemma Attempt.commitsAs {α : Type} {m : BuildTxn (Ending α)} {o : Outcome α}
    (h : Attempt env (fun _ => actor) m seen log o log') : CommitsAs actor log log' := by
  cases h with
  | failed | ended | aborted | lost => exact .inl rfl
  | committed | landed => exact .inr ⟨_, rfl⟩

lemma LoadStep.commitsAs {job : LoadJob} {p p' : LoadPhase}
    (h : LoadStep env authority job seen p log p' log') :
    CommitsAs (.worker authority) log log' := by
  cases h with
  | claim attempt | commit attempt => exact attempt.commitsAs
  | chunk | chunkFailed | fault => exact .inl rfl

lemma PublishStep.commitsAs {p p' : PublishPhase}
    (h : PublishStep env authority seen p log p' log') :
    CommitsAs (.worker authority) log log' := by
  cases h with
  | read | opened | resumable | fault | recover => exact .inl rfl
  | begin attempt | page _ attempt | again attempt | activate attempt | record _ attempt =>
    exact attempt.commitsAs

lemma RunStep.commitsAs {options : BulkWorkerOptions} {p p' : RunPhase}
    (h : RunStep env authority options seen p log p' log') :
    CommitsAs (.worker authority) log log' := by
  cases h with
  | forestBuilt | servingBuilt | loaded | resumable | fault => exact .inl rfl
  | claim attempt | acceptForest attempt | acceptServing attempt => exact attempt.commitsAs
  | load step => exact step.commitsAs
  | record _ attempt => exact attempt.commitsAs

lemma TaskStep.commitsAs {task task' : Task}
    (h : TaskStep env authority seen task log task' log') :
    CommitsAs (.worker authority) log log' := by
  cases h with
  | load step | publish step | run step => exact step.commitsAs
  | complete step =>
    cases step with
    | first step | second step => exact step.commitsAs
    | run step => exact step.commitsAs
    | published | busy | prepared | republished | firstFailed | runFailed | secondFailed =>
      exact .inl rfl

/-- No worker commits as the owner of an unclaimed schedule. -/
lemma Reachable.drawn {sys : System} (h : Reachable env sys) :
    ∀ c ∈ sys.log, c.actor ≠ .worker (some unclaimed) := by
  have hcommits {actor : Actor} {log log' : Log} (hc : CommitsAs actor log log')
      (hactor : actor ≠ .worker (some unclaimed))
      (ih : ∀ c ∈ log, c.actor ≠ .worker (some unclaimed)) :
      ∀ c ∈ log', c.actor ≠ .worker (some unclaimed) := by
    rcases hc with rfl | ⟨_, rfl⟩
    · exact ih
    · exact forall_mem_cons.mpr ⟨hactor, ih⟩
  induction h with
  | reserved => simp
  | step _ next ih =>
    cases next with
    | spawn => exact ih
    | @work i w _ _ hworker hstep =>
      exact hcommits hstep.commitsAs (fun hc => w.drawn (Actor.worker.inj hc)) ih
    | enqueue attempt | claim _ attempt | renew attempt | drop attempt | cleanup attempt =>
      exact hcommits attempt.commitsAs (by simp) ih
    | finish attempt =>
      cases attempt with
      | failed | ended | aborted | lost => exact ih
      | @committed _ _ _ _ a | @landed _ _ _ _ a =>
        exact forall_mem_cons.mpr ⟨by cases a <;> simp, ih⟩

/-- **The schedule fences a build**: after a claim, and until the next one, no worker
commits under another token, and none commits unscheduled unless the schedule was
removed since. -/
theorem schedule_fences {sys : System} {newer since older : Log} {c claimed : Commit}
    (h : Reachable env sys) (hlog : sys.log = newer ++ c :: (since ++ claimed :: older))
    (hclaim : claimed.actor = .claim owner)
    (hlatest : ∀ d ∈ since, ∀ other, d.actor ≠ .claim other)
    (hworker : c.actor = .worker authority) :
    authority = some owner ∨ (authority = none ∧ ∃ d ∈ since, d.actor = .remove) := by
  have hdrawn := h.drawn c (by rw [hlog]; simp)
  have hchain := h.chained
  rw [hlog] at hchain
  have hchain := hchain.older
  cases hrest : since ++ claimed :: older with
  | nil => simp at hrest
  | cons previous =>
    rw [hrest] at hchain
    cases hchain with
    | commit before effect =>
      have hclaimed : ClaimedBy owner since previous.store :=
        Chained.claimedBy hclaim (hrest ▸ before) hlatest previous (by rw [hrest]; rfl)
      rw [hworker] at effect hdrawn
      have hauthorized := effect.authorized
      rw [Authorized] at hauthorized
      rcases hclaimed with ⟨s, hs, howner⟩ | ⟨hnone, hremoved⟩
      · rw [hs] at hauthorized
        cases authority with
        | none => cases hauthorized
        | some _ =>
          rw [checkAuthority] at hauthorized
          split_ifs at hauthorized with htoken
          subst htoken
          rcases howner with howner | hfree
          · exact .inl (congrArg some howner)
          · exact absurd (by rw [hfree]) hdrawn
      · rw [hnone] at hauthorized
        cases authority with
        | none => exact .inr ⟨rfl, hremoved⟩
        | some => cases hauthorized

/-- A scheduled worker fails, its schedule is removed, and an unscheduled call loads. -/
def removedScript : List Move :=
  [.enqueue smallOptions, .claim [9] 0 10, .call 0 (some [9]) (.run smallOptions [1]), .work 0,
    .fail 0 .other, .work 0, .finish [9] false 0, .call 1 none (.load ⟨[7], smallOptions.load⟩),
    .work 1]

/-- The newest commit is an unscheduled worker's, changes the load and comes three
commits after a claim, the latest one. -/
def unscheduledAfterClaim (sys : System) : Bool :=
  match sys.log with
  | c :: d₁ :: d₂ :: d₃ :: claimed :: _ => c.actor = .worker none ∧
      c.store.lookup .load ≠ d₁.store.lookup .load ∧ d₁.actor = .remove ∧
      d₂.actor = .worker (some [9]) ∧ d₃.actor = .worker (some [9]) ∧ claimed.actor = .claim [9]
  | _ => false

lemma removedScript_log : ∃ sys c d₁ d₂ d₃ claimed older, Reachable smallBuild sys ∧
    sys.log = c :: d₁ :: d₂ :: d₃ :: claimed :: older ∧ c.actor = .worker none ∧
    c.store.lookup .load ≠ d₁.store.lookup .load ∧ claimed.actor = .claim [9] ∧
    ∀ d ∈ [d₁, d₂, d₃], ∀ other, d.actor ≠ .claim other := by
  obtain ⟨sys, hsys, hcheck⟩ := exists_of_runScript
    (show (runScript smallBuild smallChoice removedScript).any unscheduledAfterClaim = true by
      decide +kernel)
  rw [unscheduledAfterClaim] at hcheck
  split at hcheck
  · rename_i c d₁ d₂ d₃ claimed older hlog
    obtain ⟨hc, hload, h₁, h₂, h₃, hclaimed⟩ := of_decide_eq_true hcheck
    exact ⟨sys, c, d₁, d₂, d₃, claimed, older,
      runScript_reachable smallChoice_faults hsys, hlog, hc,
      hload, hclaimed, by simp [h₁, h₂, h₃]⟩
  · cases hcheck

theorem schedule_fences_removed : ∃ sys c since claimed older, Reachable smallBuild sys ∧
    sys.log = c :: (since ++ claimed :: older) ∧ claimed.actor = .claim [9] ∧
    c.actor = .worker none ∧ ∃ d ∈ since, d.actor = .remove := by
  obtain ⟨sys, c, d₁, d₂, d₃, claimed, older, hsys, hlog, hc, -, hclaimed, hlatest⟩ :=
    removedScript_log
  obtain hsome | ⟨-, hremoved⟩ := schedule_fences hsys
    (show sys.log = [] ++ c :: ([d₁, d₂, d₃] ++ claimed :: older) from hlog) hclaimed hlatest hc
  · cases hsome
  · exact ⟨sys, c, [d₁, d₂, d₃], claimed, older, hsys, hlog, hclaimed, hc, hremoved⟩

theorem unscheduled_after_claim : ∃ sys c previous since claimed older, Reachable smallBuild sys ∧
    sys.log = c :: (previous :: since ++ claimed :: older) ∧ claimed.actor = .claim [9] ∧
    (∀ d ∈ previous :: since, ∀ other, d.actor ≠ .claim other) ∧
    c.actor = .worker none ∧ c.store.lookup .load ≠ previous.store.lookup .load := by
  obtain ⟨sys, c, d₁, d₂, d₃, claimed, older, hsys, hlog, hc, hload, hclaimed, hlatest⟩ :=
    removedScript_log
  exact ⟨sys, c, d₁, [d₂, d₃], claimed, older, hsys, hlog, hclaimed, hlatest, hc, hload⟩

end Bulk
