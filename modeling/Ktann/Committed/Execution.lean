/-
Executing a run.

The programs of the model compute, so a run can be played: every operation names the
store of the history its transaction reads, and the ones its plan was read from.

* `execute` — one commit, if the operation succeeds and its protected keys have not
  changed;
* `play`, `play_run` — a played list of operations is a run;
* `lineHistory` — a run with a split, deletions and two merges.
-/
import Ktann.Committed.Run

open Option (bind_eq_bind)

section

variable {ix : Index} {build : GraphBuilder} {history : List Store}

instance : ∀ k : LogicalKey, DecidableEq k.ValueOf
  | .record _ => inferInstanceAs (DecidableEq VectorRecord)
  | .location _ => inferInstanceAs (DecidableEq RecordLocation)
  | .payload _ => inferInstanceAs (DecidableEq Bytes)
  | .treeManifest _ => inferInstanceAs (DecidableEq TreeManifest)
  | .header _ _ => inferInstanceAs (DecidableEq PartitionHeader)
  | .synopsis _ _ => inferInstanceAs (DecidableEq PartitionSynopsis)
  | .state _ _ => inferInstanceAs (DecidableEq PartitionTransition)
  | .centroid _ _ => inferInstanceAs (DecidableEq VectorData)
  | .leafEntry _ _ _ => inferInstanceAs (DecidableEq LeafEntry)
  | .childEntry _ _ _ => inferInstanceAs (DecidableEq ChildEntry)
  | .graphDescriptor _ _ => inferInstanceAs (DecidableEq GraphDescriptor)
  | .graphChunk _ _ _ => inferInstanceAs (DecidableEq Bytes)

/-- Runs a transaction on the store `age` commits back and commits it, unless it
fails or a key it protected has changed. -/
def commitOn {α : Type} (m : WriteTxn α) (history : List Store) (age : ℕ) : Option (α × Store) :=
  match history[age]?, history.head? with
  | some snapshot, some current =>
    match m.run (Txn.start snapshot) with
    | .ok (a, s) =>
      if (history.take age).all fun S =>
          s.protectedKeys.all fun k => S.lookup k = snapshot.lookup k then
        some (a, s.onto current)
      else none
    | .error _ => none
  | _, _ => none

lemma commitOn_commits {α : Type} {m : WriteTxn α} {age : ℕ} {a : α} {S' : Store}
    (hok : commitOn m history age = some (a, S')) : Commits m a history S' := by
  rw [commitOn] at hok
  split at hok
  · rename_i snapshot current hsnapshot hcurrent
    split at hok
    · rename_i b s hrun
      split_ifs at hok with hunchanged
      cases hok
      obtain ⟨hlt, hget⟩ := getElem?_eq_some_iff.mp hsnapshot
      have hsplit : history = history.take age ++ snapshot :: history.drop (age + 1) := by
        rw [← hget, List.getElem_cons_drop, take_append_drop]
      have hhead : (history.take age ++ [snapshot]).head? = some current := by
        rw [hsplit] at hcurrent
        cases htake : history.take age with
        | nil | cons S newer => rw [htake] at hcurrent; simpa using hcurrent
      rw [hsplit]
      refine Commits.intro hrun hhead fun S hS k hk => ?_
      simp only [List.all_eq_true, decide_eq_true_eq] at hunchanged
      exact hunchanged S hS k hk
    · cases hok
  · cases hok

/-- One operation of a played run: how old the store it reads is, and how old the
stores its plan was read from are. -/
structure Played where
  op : Operation
  age : ℕ
  planAge : ℕ
  laterAge : ℕ

/-- The value of a successful computation. -/
def okOr {α : Type} : Except Error α → Option α
  | .ok a => some a
  | .error _ => none

lemma okOr_eq_some {α : Type} {x : Except Error α} {a : α} : okOr x = some a ↔ x = .ok a := by
  cases x <;> simp [okOr]

instance : DecidableRel FieldSchema.Accepts := fun field v =>
  decidable_of_iff (okOr (v.validateFor field.dataType field.nullable) = some v) okOr_eq_some

instance (fields : List FieldSchema) (row : List Value) : Decidable (SchemaValid fields row) :=
  inferInstanceAs (Decidable (List.Forall₂ FieldSchema.Accepts fields row))

instance (ix : Index) : ∀ m : Mutation, Decidable (m.Valid ix)
  | .insert record => inferInstanceAs (Decidable ((1 ≤ record.id.length ∧
      record.id.length ≤ maxRecordIdBytes) ∧ SchemaValid ix.fields record.fields))
  | .upsert record => inferInstanceAs (Decidable ((1 ≤ record.id.length ∧
      record.id.length ≤ maxRecordIdBytes) ∧ SchemaValid ix.fields record.fields))
  | .delete id => inferInstanceAs (Decidable ((1 ≤ id.length ∧ id.length ≤ maxRecordIdBytes) ∧
      True))

instance (ix : Index) (mutations : List Mutation) : Decidable (ValidBatch ix mutations) :=
  decidable_of_iff ((∀ m ∈ mutations, m.Valid ix) ∧ (mutations.map Mutation.id).Nodup)
    ⟨fun h => ⟨h.1, h.2⟩, fun h => ⟨h.valid, h.distinct⟩⟩

def execute (ix : Index) (build : GraphBuilder) (history : List Store) (age planAge laterAge : ℕ) :
    Operation → Option (Report × Store)
  | .createTree t n => do
    let r ← commitOn (createTree ix t n) history age
    some (.tree r.1, r.2)
  | .mutate mutations graphs n beam => do
    let prepared ← okOr (prepareAll ix mutations)
    if ValidBatch ix mutations then
      let r ← commitOn (applyAll ix graphs mutations prepared n beam) history age
      some (.mutated r.1, r.2)
    else none
  | .beginSplit t p n => do
    let r ← commitOn (beginSplit ix t p n) history age
    some (.splitStart r.1, r.2)
  | .exposeTargets t p left a right b n =>
    if ix.localGraph = false then do
      let r ← commitOn (exposeSplitTargets ix t p left a right b n none) history age
      some (.exposure r.1, r.2)
    else none
  | .drainSplit t p page => do
    let S ← history[planAge]?
    let plan ← okOr (splitDrainPlan ix S t p page)
    let plan ← plan
    let r ← commitOn (splitDrainAttempt ix t p plan.1 plan.2) history age
    some (.splitDrain r.1, r.2)
  | .completeSplit t p n removal =>
    if ix.localGraph = false then do
      let r ← commitOn (finalizeSplit t p n removal none) history age
      some (.splitCompletion r.1, r.2)
    else none
  | .beginMerge t p n => do
    let r ← commitOn (beginMerge ix t p n) history age
    some (.mergeStart r.1, r.2)
  | .drainMerge t p page => do
    let S ← history[planAge]?
    let plan ← okOr (mergeDrainPlan ix S t p page)
    let plan ← plan
    let r ← commitOn (mergeDrainAttempt ix t p plan.1 plan.2) history age
    some (.mergeDrain r.1, r.2)
  | .completeMerge t p removal =>
    if ix.localGraph = false then do
      let r ← commitOn (finalizeMerge t p removal none) history age
      some (.mergeCompletion r.1, r.2)
    else none
  | .refine t batch => do
    let r ← commitOn (refineBatch ix t batch) history age
    some (.refined, r.2)
  | .updateCentroid t p parent v =>
    if ix.localGraph = false then do
      let r ← commitOn (updateCentroid t p parent v) history age
      some (.refined, r.2)
    else none
  | .graphStep t p a b now removal =>
    if ix.localGraph = true then do
      let S ← history[planAge]?
      let later ← history[laterAge]?
      let plan ← okOr (graphPlan ix build S later t p a b)
      let plan ← plan
      let r ← commitOn (graphApply ix t p now removal plan) history age
      some (.graph r.1, r.2)
    else none
  | .graphCentroids t parent updates =>
    if ix.localGraph = true then do
      let S ← history[planAge]?
      let transition ← okOr (planCentroids ix build S t parent updates)
      let r ← commitOn (publishGraphCentroids t parent updates [transition]) history age
      some (.refined, r.2)
    else none

lemma execute_commitStep {op : Operation} {age planAge laterAge : ℕ} {report : Report}
    {S' : Store} (hok : execute ix build history age planAge laterAge op = some (report, S')) :
    CommitStep ix build history op report S' := by
  cases op with
  | createTree t n =>
    simp only [execute, bind_eq_bind, bind_eq_some_iff] at hok
    obtain ⟨⟨a, S⟩, hcommit, hok⟩ := hok
    cases hok
    exact .createTree (commitOn_commits hcommit)
  | mutate _ _ n =>
    simp only [execute, bind_eq_bind, bind_eq_some_iff] at hok
    obtain ⟨_, hprepared, hok⟩ := hok
    split_ifs at hok with hvalid
    obtain ⟨⟨a, S⟩, hcommit, hok⟩ := bind_eq_some_iff.mp hok
    cases hok
    exact .mutate hvalid (okOr_eq_some.mp hprepared) (commitOn_commits hcommit)
  | beginSplit t p n =>
    simp only [execute, bind_eq_bind, bind_eq_some_iff] at hok
    obtain ⟨⟨a, S⟩, hcommit, hok⟩ := hok
    cases hok
    exact .beginSplit (commitOn_commits hcommit)
  | exposeTargets t p _ a _ b n =>
    simp only [execute] at hok
    split_ifs at hok with hplain
    obtain ⟨⟨a, S⟩, hcommit, hok⟩ := bind_eq_some_iff.mp hok
    cases hok
    exact .exposeTargets hplain (commitOn_commits hcommit)
  | drainSplit t p _ =>
    simp only [execute, bind_eq_bind, bind_eq_some_iff] at hok
    obtain ⟨S, hS, plan, hplan, ⟨_, batch⟩, rfl, ⟨a, S₁⟩, hcommit, hok⟩ := hok
    cases hok
    exact .drainSplit (mem_of_getElem? hS) (okOr_eq_some.mp hplan) (commitOn_commits hcommit)
  | completeSplit t p n removal =>
    simp only [execute] at hok
    split_ifs at hok with hplain
    obtain ⟨⟨a, S⟩, hcommit, hok⟩ := bind_eq_some_iff.mp hok
    cases hok
    exact .completeSplit hplain (commitOn_commits hcommit)
  | beginMerge t p n =>
    simp only [execute, bind_eq_bind, bind_eq_some_iff] at hok
    obtain ⟨⟨a, S⟩, hcommit, hok⟩ := hok
    cases hok
    exact .beginMerge (commitOn_commits hcommit)
  | drainMerge t p =>
    simp only [execute, bind_eq_bind, bind_eq_some_iff] at hok
    obtain ⟨S, hS, _, hplan, ⟨_, _⟩, rfl, ⟨a, S₁⟩, hcommit, hok⟩ := hok
    cases hok
    exact .drainMerge (mem_of_getElem? hS) (okOr_eq_some.mp hplan) (commitOn_commits hcommit)
  | completeMerge t p _ =>
    simp only [execute] at hok
    split_ifs at hok with hplain
    obtain ⟨⟨a, S⟩, hcommit, hok⟩ := bind_eq_some_iff.mp hok
    cases hok
    exact .completeMerge hplain (commitOn_commits hcommit)
  | refine t =>
    simp only [execute, bind_eq_bind, bind_eq_some_iff] at hok
    obtain ⟨⟨a, S⟩, hcommit, hok⟩ := hok
    cases hok
    exact .refine (commitOn_commits hcommit)
  | updateCentroid t p _ v =>
    simp only [execute] at hok
    split_ifs at hok with hplain
    obtain ⟨⟨a, S⟩, hcommit, hok⟩ := bind_eq_some_iff.mp hok
    cases hok
    exact .updateCentroid hplain (commitOn_commits hcommit)
  | graphStep t p a b _ =>
    simp only [execute] at hok
    split_ifs at hok with hgraph
    simp only [bind_eq_bind, bind_eq_some_iff] at hok
    obtain ⟨S, hS, _, hlater, _, hplan, _, rfl, ⟨a, S₁⟩, hcommit, hok⟩ := hok
    cases hok
    exact .graphStep hgraph (mem_of_getElem? hS) (mem_of_getElem? hlater)
      (okOr_eq_some.mp hplan) (commitOn_commits hcommit)
  | graphCentroids t =>
    simp only [execute] at hok
    split_ifs at hok with hgraph
    simp only [bind_eq_bind, bind_eq_some_iff] at hok
    obtain ⟨S, hS, _, hplan, ⟨a, _⟩, hcommit, hok⟩ := hok
    cases hok
    exact .graphCentroids hgraph (mem_of_getElem? hS) (okOr_eq_some.mp hplan)
      (commitOn_commits hcommit)

/-- Plays operations one after the other on a history. -/
def play (ix : Index) (build : GraphBuilder) : List Played → List Store → Option (List Store)
  | [], history => some history
  | played :: rest, history =>
    match execute ix build history played.age played.planAge played.laterAge played.op with
    | some (_, S') => play ix build rest (S' :: history)
    | none => none

/-- **A played list of operations is a run.** -/
theorem play_run {start : Store} {ops : List Played} :
    ∀ {history history' : List Store}, Run ix build start history →
      play ix build ops history = some history' → Run ix build start history' := by
  induction ops with
  | nil =>
    intro history history' hrun hok
    cases hok
    exact hrun
  | cons _ _ ih =>
    intro history history' hrun hok
    simp only [play] at hok
    split at hok
    · rename_i report S' hexecute
      exact ih (hrun.step (execute_commitStep hexecute)) hok
    · cases hok

/-! ### A run of the line index -/

/-- A builder of no graph, for an index that keeps none. -/
def noGraph : GraphBuilder := fun _ _ => .error .corrupt

/-- The tree of the line index whose field is false. -/
def lineTree : TreeKey := [0]

def lineRecord (id : Fin 256) (x : ℤ) : Record := ⟨[id], [x], [.bool false], none⟩

/-- Three records enter a tree and its root splits; after they are deleted, two merges
start from one snapshot. -/
def lineSteps : List Played :=
  [⟨.mutate [.insert (lineRecord 1 0), .insert (lineRecord 2 1), .insert (lineRecord 3 9)]
      none 0 1, 0, 0, 0⟩,
    ⟨.beginSplit lineTree 1 0, 0, 0, 0⟩,
    ⟨.exposeTargets lineTree 1 2 [0] 3 [10] 0, 0, 0, 0⟩,
    ⟨.drainSplit lineTree 1 10, 0, 0, 0⟩,
    ⟨.drainSplit lineTree 1 10, 0, 0, 0⟩,
    ⟨.completeSplit lineTree 1 0 .pointDeletes, 0, 0, 0⟩,
    ⟨.mutate [.delete [1], .delete [2], .delete [3]] none 0 1, 0, 0, 0⟩,
    ⟨.beginMerge lineTree 2 0, 0, 0, 0⟩,
    ⟨.beginMerge lineTree 3 0, 1, 0, 0⟩]

/-- The stores of that run, newest first. -/
def lineHistory : List Store := (play .line noGraph lineSteps [OrderedMap.empty]).getD []

lemma lineHistory_run : RunFromEmpty .line noGraph lineHistory := by
  have hplayed : (play .line noGraph lineSteps [OrderedMap.empty]).isSome = true := by
    decide +kernel
  obtain ⟨history, hplay⟩ := isSome_iff_exists.mp hplayed
  rw [lineHistory, hplay]
  exact play_run .start hplay

lemma lineHistory_length : lineHistory.length = 10 := by decide +kernel

end
