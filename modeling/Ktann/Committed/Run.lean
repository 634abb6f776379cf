/-
Runs of one index.

A run is a history of committed stores, newest first.  Each commit is one
transaction of the program: it read some earlier committed store under its own
writes, and none of the keys it read for update or inserted has changed since.
Planned steps were planned on committed stores of the same history.

* `Operation` — the transactions of the program;
* `CommitStep` — what it is for one of them to commit on a history;
* `Run` — the histories of one index;
* `CommitStep.effects` — **a commit is a sequence of effects**;
* `Run.consistent` — every committed store is coherent, and any two evolve;
* `Run.pairwise` — what one effect prolongs holds between any two stores of a run.
-/
import Ktann.Committed.GraphSteps
import Ktann.Committed.Mutations

open TxnM WriteTxn

/-- A transaction of the program, with its arguments. -/
inductive Operation
  | createTree (t : TreeKey) (startedAt : ℕ)
  | mutate (mutations : List Mutation) (graphs : Option GraphReads) (startedAt beam : ℕ)
  | beginSplit (t : TreeKey) (source : PartitionKey) (startedAt : ℕ)
  | exposeTargets (t : TreeKey) (source left : PartitionKey) (leftCentroid : VectorData)
    (right : PartitionKey) (rightCentroid : VectorData) (startedAt : ℕ)
  | drainSplit (t : TreeKey) (source : PartitionKey) (page : ℕ)
  | completeSplit (t : TreeKey) (source : PartitionKey) (startedAt : ℕ) (removal : SourceRemoval)
  | beginMerge (t : TreeKey) (source : PartitionKey) (startedAt : ℕ)
  | drainMerge (t : TreeKey) (source : PartitionKey) (page : ℕ)
  | completeMerge (t : TreeKey) (source : PartitionKey) (removal : SourceRemoval)
  | refine (t : TreeKey) (batch : RefineBatch)
  | updateCentroid (t : TreeKey) (p parent : PartitionKey) (centroid : VectorData)
  | graphStep (t : TreeKey) (p : PartitionKey) (leftCentroid rightCentroid : VectorData)
    (now : ℕ) (removal : SourceRemoval)
  | graphCentroids (t : TreeKey) (parent : PartitionKey)
    (updates : List (PartitionKey × VectorData))

/-- What a committed transaction reports. -/
inductive Report
  | tree (outcome : TreeCreation)
  | mutated (outcome : ApplyOutcome)
  | splitStart (outcome : SplitStart)
  | exposure (outcome : SplitExposure)
  | splitDrain (step : DrainStep)
  | splitCompletion (outcome : SplitCompletion)
  | mergeStart (outcome : MergeStart)
  | mergeDrain (step : Option DrainStep)
  | mergeCompletion (outcome : MergeCompletion)
  | graph (advance : Option GraphAdvance)
  | refined

/-- A transaction commits on a history of stores.  On an index with local graphs a
step that changes an internal body goes through a graph plan: the plain drivers
refuse it.  A batch and a plan were read from stores of the history. -/
inductive CommitStep (ix : Index) (build : GraphBuilder) (history : List Store) :
    Operation → Report → Store → Prop
  | createTree {t : TreeKey} {n : ℕ} {outcome : TreeCreation} {S' : Store}
      (commits : Commits (createTree ix t n) outcome history S') :
      CommitStep ix build history (.createTree t n) (.tree outcome) S'
  | mutate {mutations : List Mutation} {graphs : Option GraphReads} {n beam : ℕ}
      {prepared : List (Option PreparedRecord)} {outcome : ApplyOutcome} {S' : Store}
      (valid : ValidBatch ix mutations) (projected : prepareAll ix mutations = .ok prepared)
      (commits : Commits (applyAll ix graphs mutations prepared n beam) outcome history S') :
      CommitStep ix build history (.mutate mutations graphs n beam) (.mutated outcome) S'
  | beginSplit {t : TreeKey} {p : PartitionKey} {n : ℕ} {outcome : SplitStart} {S' : Store}
      (commits : Commits (beginSplit ix t p n) outcome history S') :
      CommitStep ix build history (.beginSplit t p n) (.splitStart outcome) S'
  | exposeTargets {t : TreeKey} {p left right : PartitionKey} {a b : VectorData} {n : ℕ}
      {outcome : SplitExposure} {S' : Store} (plain : ix.localGraph = false)
      (commits : Commits (exposeSplitTargets ix t p left a right b n none) outcome history S') :
      CommitStep ix build history (.exposeTargets t p left a right b n) (.exposure outcome) S'
  | drainSplit {t : TreeKey} {p : PartitionKey} {page : ℕ} {S S' : Store} {targets : SplitPair}
      {batch : DrainBatch} {step : DrainStep} (read : S ∈ history)
      (planned : splitDrainPlan ix S t p page = .ok (some (targets, batch)))
      (commits : Commits (splitDrainAttempt ix t p targets batch) step history S') :
      CommitStep ix build history (.drainSplit t p page) (.splitDrain step) S'
  | completeSplit {t : TreeKey} {p : PartitionKey} {n : ℕ} {removal : SourceRemoval}
      {outcome : SplitCompletion} {S' : Store} (plain : ix.localGraph = false)
      (commits : Commits (finalizeSplit t p n removal none) outcome history S') :
      CommitStep ix build history (.completeSplit t p n removal) (.splitCompletion outcome) S'
  | beginMerge {t : TreeKey} {p : PartitionKey} {n : ℕ} {outcome : MergeStart} {S' : Store}
      (commits : Commits (beginMerge ix t p n) outcome history S') :
      CommitStep ix build history (.beginMerge t p n) (.mergeStart outcome) S'
  | drainMerge {t : TreeKey} {p : PartitionKey} {page : ℕ} {S S' : Store}
      {candidates : List LevelCandidate} {batch : DrainBatch} {step : Option DrainStep}
      (read : S ∈ history)
      (planned : mergeDrainPlan ix S t p page = .ok (some (candidates, batch)))
      (commits : Commits (mergeDrainAttempt ix t p candidates batch) step history S') :
      CommitStep ix build history (.drainMerge t p page) (.mergeDrain step) S'
  | completeMerge {t : TreeKey} {p : PartitionKey} {removal : SourceRemoval}
      {outcome : MergeCompletion} {S' : Store} (plain : ix.localGraph = false)
      (commits : Commits (finalizeMerge t p removal none) outcome history S') :
      CommitStep ix build history (.completeMerge t p removal) (.mergeCompletion outcome) S'
  | refine {t : TreeKey} {batch : RefineBatch} {u : Unit} {S' : Store}
      (commits : Commits (refineBatch ix t batch) u history S') :
      CommitStep ix build history (.refine t batch) .refined S'
  | updateCentroid {t : TreeKey} {p parent : PartitionKey} {v : VectorData} {u : Unit} {S' : Store}
      (plain : ix.localGraph = false)
      (commits : Commits (updateCentroid t p parent v) u history S') :
      CommitStep ix build history (.updateCentroid t p parent v) .refined S'
  | graphStep {t : TreeKey} {p : PartitionKey} {a b : VectorData} {now : ℕ}
      {removal : SourceRemoval} {S later S' : Store} {plan : GraphPlan}
      {advance : Option GraphAdvance} (graph : ix.localGraph = true) (read : S ∈ history)
      (readLater : later ∈ history)
      (planned : graphPlan ix build S later t p a b = .ok (some plan))
      (commits : Commits (graphApply ix t p now removal plan) advance history S') :
      CommitStep ix build history (.graphStep t p a b now removal) (.graph advance) S'
  | graphCentroids {t : TreeKey} {parent : PartitionKey}
    {updates : List (PartitionKey × VectorData)}
      {S S' : Store} {transition : PreparedGraphTransition} {u : Unit}
      (graph : ix.localGraph = true) (read : S ∈ history)
      (planned : planCentroids ix build S t parent updates = .ok transition)
      (commits : Commits (publishGraphCentroids t parent updates [transition]) u history S') :
      CommitStep ix build history (.graphCentroids t parent updates) .refined S'

/-- The histories of one index that began with the store `start`. -/
inductive Run (ix : Index) (build : GraphBuilder) (start : Store) : List Store → Prop
  | start : Run ix build start [start]
  | step {history : List Store} {op : Operation} {report : Report} {S' : Store}
      (run : Run ix build start history) (commit : CommitStep ix build history op report S') :
      Run ix build start (S' :: history)

/-- The histories of one index that was created empty. -/
abbrev RunFromEmpty (ix : Index) (build : GraphBuilder) : List Store → Prop :=
  Run ix build OrderedMap.empty

/-! ### Every commit is a sequence of effects -/

section

variable {ix : Index} {build : GraphBuilder} {history : List Store}

/-- Every store of a history is coherent, and each evolved from every older one. -/
structure Consistent (ix : Index) (history : List Store) : Prop where
  coherent : ∀ S ∈ history, Coherent ix S
  evolves : history.Pairwise fun new old => Evolves old new

variable {C S' start : Store} {R : Store → Store → Prop}

section
variable (hh : Consistent ix history)
include hh

lemma Consistent.evolves_head {S : Store} (hS : S ∈ history) (hC : history.head? = some C)
    : Evolves S C := by
  cases history with
  | nil => cases hC
  | cons _ =>
    cases hC
    rcases mem_cons.mp hS with rfl | hold
    · exact Evolves.refl _
    · exact (pairwise_cons.mp hh.evolves).1 S hold

lemma Consistent.reading {snapshot : Store} (hsnapshot : snapshot ∈ history)
    (hC : history.head? = some C) : Reading ix C (Txn.start snapshot) where
  view := hh.coherent _ hsnapshot
  store := hh.coherent _ (mem_of_mem_head? hC)
  evolves := hh.evolves_head hsnapshot hC

lemma Consistent.runs {α : Type} {m : WriteTxn α} {a : α} (hcommits : Commits m a history S') :
    ∃ C snapshot s, history.head? = some C ∧ snapshot ∈ history ∧
      Runs C m (Txn.start snapshot) a s ∧ S' = s.onto C ∧ Reading ix C (Txn.start snapshot) := by
  obtain ⟨snapshot, hsnapshot, C, s, hC, hrun, hS'⟩ := hcommits.runs
  exact ⟨C, snapshot, s, hC, hsnapshot, hrun, hS', hh.reading hsnapshot hC⟩

end

/-- **A commit is a sequence of effects.** -/
theorem CommitStep.effects {op : Operation} {report : Report}
    (hstep : CommitStep ix build history op report S') (hh : Consistent ix history) :
    ∃ C, history.head? = some C ∧ Effects ix C S' := by
  cases hstep with
  | createTree hcommits =>
    obtain ⟨C, _, s, hC, -, hrun, rfl, -⟩ := hh.runs hcommits
    exact ⟨C, hC, (leafEffects_createTree hrun).effects⟩
  | mutate valid projected hcommits =>
    obtain ⟨C, _, s, hC, -, hrun, rfl, hr⟩ := hh.runs hcommits
    exact ⟨C, hC, (leafEffects_applyAll hr.store projected valid.distinct hrun).effects⟩
  | beginSplit hcommits =>
    obtain ⟨C, _, s, hC, -, hrun, rfl, -⟩ := hh.runs hcommits
    exact ⟨C, hC, (leafEffects_beginSplit hrun).effects⟩
  | exposeTargets plain hcommits =>
    obtain ⟨C, _, s, hC, -, hrun, rfl, -⟩ := hh.runs hcommits
    exact ⟨C, hC, effects_exposeSplitTargets hrun⟩
  | drainSplit read planned hcommits =>
    obtain ⟨C, _, s, hC, -, hrun, rfl, hr⟩ := hh.runs hcommits
    have hdistinct := splitDrainPlan_distinct (hh.coherent _ read) planned
    exact ⟨C, hC, (effects_splitDrainAttempt hr.store hdistinct hrun).1.1⟩
  | completeSplit plain hcommits =>
    obtain ⟨C, _, s, hC, -, hrun, rfl, hr⟩ := hh.runs hcommits
    exact ⟨C, hC, effects_finalizeSplit hr hrun⟩
  | beginMerge hcommits =>
    obtain ⟨C, _, s, hC, -, hrun, rfl, -⟩ := hh.runs hcommits
    exact ⟨C, hC, (leafEffects_beginMerge hrun).effects⟩
  | drainMerge read planned hcommits =>
    obtain ⟨C, _, s, hC, -, hrun, rfl, -⟩ := hh.runs hcommits
    have hdistinct := mergeDrainPlan_distinct (hh.coherent _ read) planned
    exact ⟨C, hC, (effects_mergeDrainAttempt hdistinct hrun).1.1⟩
  | completeMerge _ hcommits =>
    obtain ⟨C, _, s, hC, -, hrun, rfl, hr⟩ := hh.runs hcommits
    exact ⟨C, hC, effects_finalizeMerge hr.store hrun⟩
  | refine hcommits =>
    obtain ⟨C, _, s, hC, -, hrun, rfl, -⟩ := hh.runs hcommits
    exact ⟨C, hC, (leafEffects_refineBatch hrun).effects⟩
  | updateCentroid _ hcommits =>
    obtain ⟨C, _, s, hC, -, hrun, rfl, -⟩ := hh.runs hcommits
    exact ⟨C, hC, effects_updateCentroid hrun⟩
  | graphStep graph read _ planned hcommits =>
    obtain ⟨C, _, s, hC, -, hrun, rfl, hr⟩ := hh.runs hcommits
    exact ⟨C, hC, (effects_graphApply graph hr (hh.coherent _ read)
      (hh.evolves_head read hC) planned
      hrun).1⟩
  | graphCentroids graph _ _ hcommits =>
    obtain ⟨C, _, s, hC, -, hrun, rfl, -⟩ := hh.runs hcommits
    exact ⟨C, hC, effects_publishGraphCentroids graph hrun⟩

lemma CommitStep.consistent {op : Operation} {report : Report}
    (hstep : CommitStep ix build history op report S') (hh : Consistent ix history) :
    Consistent ix (S' :: history) := by
  obtain ⟨C, hC, heffects⟩ := hstep.effects hh
  have hCmem : C ∈ history := mem_of_mem_head? hC
  obtain ⟨hS', hevolves⟩ := Effects.coherent_evolves heffects (hh.coherent C hCmem)
  constructor
  · intro S hS
    rcases mem_cons.mp hS with rfl | hold
    · exact hS'
    · exact hh.coherent S hold
  · refine pairwise_cons.mpr ⟨fun S hS => ?_, hh.evolves⟩
    exact (hh.evolves_head hS hC).trans hevolves (hh.coherent S hS) (hh.coherent C hCmem) hS'

/-- **Every committed store of a run is coherent, and later ones evolve from it.** -/
theorem Run.consistent (hstart : Coherent ix start) (hrun : Run ix build start history) :
    Consistent ix history := by
  induction hrun with
  | start =>
    refine ⟨fun S hS => ?_, List.pairwise_singleton _ _⟩
    cases mem_singleton.mp hS
    exact hstart
  | step _ hcommit ih => exact hcommit.consistent ih

lemma Effects.prolong {S : Store}
    (hstep : ∀ {S S' S''}, Coherent ix S → Coherent ix S' → Evolves S S' → R S S' →
      Effect ix S' S'' → R S S'') (heffects : Effects ix C S') (hS : Coherent ix S)
    (hC : Coherent ix C) (hev : Evolves S C) (hR : R S C) : R S S' := by
  induction heffects with
  | refl => exact hR
  | tail hprefix heffect ih =>
    obtain ⟨hmid, hmid'⟩ := Effects.coherent_evolves hprefix hC
    exact hstep hS hmid (hev.trans hmid' hS hC hmid) ih heffect

/-- **What one effect prolongs holds between any two stores of a run.** -/
theorem Run.pairwise (hstart : Coherent ix start) (hrefl : ∀ S, R S S)
    (hstep : ∀ {S S' S''}, Coherent ix S → Coherent ix S' → Evolves S S' → R S S' →
      Effect ix S' S'' → R S S'') (hrun : Run ix build start history) :
    history.Pairwise fun new old => R old new := by
  induction hrun with
  | start => exact List.pairwise_singleton _ _
  | @step history _ _ _ hrun hcommit ih =>
    have hh := hrun.consistent hstart
    obtain ⟨C, hC, heffects⟩ := hcommit.effects hh
    have hCmem : C ∈ history := mem_of_mem_head? hC
    refine pairwise_cons.mpr ⟨fun S hS => ?_, ih⟩
    have hSC : R S C := by
      cases history with
      | nil => cases hC
      | cons _ =>
        cases hC
        rcases mem_cons.mp hS with rfl | hold
        · exact hrefl _
        · exact (pairwise_cons.mp ih).1 S hold
    exact heffects.prolong hstep (hh.coherent S hS) (hh.coherent C hCmem)
      (hh.evolves_head hS hC) hSC

lemma Run.invariant {P : Store → Prop} (hstart : Coherent ix start) (hP : P start)
    (hstep : ∀ {S S'}, Coherent ix S → P S → Effect ix S S' → P S')
    (hrun : Run ix build start history) : ∀ S ∈ history, P S := by
  induction hrun with
  | start =>
    intro S hS
    cases mem_singleton.mp hS
    exact hP
  | @step history _ _ S' hrun hcommit ih =>
    have hh := hrun.consistent hstart
    obtain ⟨C, hC, heffects⟩ := hcommit.effects hh
    have hCmem : C ∈ history := mem_of_mem_head? hC
    intro S hS
    rcases mem_cons.mp hS with rfl | hold
    · have hCc := hh.coherent C hCmem
      exact heffects.prolong (R := fun _ S' => P S') (fun _ hS' _ hP' he => hstep hS' hP' he) hCc
        hCc (.refl C) (ih C hCmem)
    · exact ih S hold

lemma coherent_empty (ix : Index) : Coherent ix OrderedMap.empty where
  topology t := by
    constructor <;> constructor <;>
      simp [topology, Store.treeManifest, Store.header, Store.state, Store.centroid,
        Store.childEntry]
  bodies := by
    intro t p
    refine ⟨fun h => ?_, fun _ => ⟨entryCount_eq_zero.mpr ⟨fun _ => rfl, fun _ => rfl⟩, rfl⟩,
      fun h => ?_, fun h => ?_⟩ <;> cases h
  membership := by
    constructor <;> simp [Store.record, Store.location, Store.payload, Store.leafEntry]
  child := by simp [Store.childEntry]

end
