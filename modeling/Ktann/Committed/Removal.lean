/-
The two ways to remove a drained source.

A backend with transactional range clears removes the whole prefix of a drained
source, another deletes its four metadata keys.  A drained source has no other key:
an entry would be counted by its Header, and a graph stands only at a partition
with entries.

* `Store.Hollow` — no entry and no graph record under a partition's prefix;
* `sameFrom_finalizeSplit`, `sameFrom_finalizeMerge`, `sameFrom_graphApply` — a
  completion does the same in both ways;
* `run_removal_modes` — **every commit is possible in both ways, with one store,
  and a completed source has no key left**.
-/
import Ktann.Lib.Alike
import Ktann.Committed.GraphRuns

open LogicalKey (partitionRange)
open TxnM WriteTxn

section

variable {ix : Index} {S C : Store} {s s' : Txn ValueOf} {t : TreeKey}
  {p : PartitionKey} {removal : SourceRemoval}

/-! ### Hollow partitions -/

/-- A partition's prefix holds no entry and no graph record. -/
structure Store.Hollow (S : Store) (t : TreeKey) (p : PartitionKey) : Prop where
  leaf : ∀ id, S.leafEntry t p id = none
  child : ∀ c, S.childEntry t p c = none
  descriptor : S.graphDescriptor t p = none
  chunk : ∀ n, S.graphChunk t p n = none

/-- Graph records stand at internal partitions with an entry only. -/
def Store.GraphsAttended (S : Store) : Prop :=
  ∀ t p, S.graphHead t p = none → S.graphDescriptor t p = none ∧ ∀ n, S.graphChunk t p n = none

variable {h : PartitionHeader} {removal' : SourceRemoval} {known : Option PartitionKey} {n : ℕ}
  {level now : ℕ} {location : RecordLocation} {payload : Option Bytes} {record : VectorRecord}

lemma Coherent.hollow (hS : Coherent ix S) (hgraphs : S.GraphsAttended)
    (header : S.header t p = some h) (drained : h.entryCount = 0) : S.Hollow t p := by
  have hcount : S.entryCount t p = 0 := by
    rw [← (hS.bodies t p).count header, drained]
  obtain ⟨hleaf, hchild⟩ := entryCount_eq_zero.mp hcount
  obtain ⟨hdescriptor, hchunk⟩ := hgraphs t p (graphHead_empty header drained)
  exact ⟨hleaf, hchild, hdescriptor, hchunk⟩

section
variable (hS : S.Hollow t p)
include hS

lemma Store.Hollow.restate (q : PartitionKey) (h : PartitionHeader) (state : PartitionTransition)
    : (S.restate t q h state).Hollow t p where
  leaf id := by simpa [Store.restate] using hS.leaf id
  child c := by simpa [Store.restate] using hS.child c
  descriptor := by simpa [Store.restate] using hS.descriptor
  chunk n := by simpa [Store.restate] using hS.chunk n

lemma Store.Hollow.eraseChild (q c : PartitionKey) (h : PartitionHeader) :
    (S.eraseChild t q c h).Hollow t p where
  leaf id := by simpa [Store.eraseChild] using hS.leaf id
  child c' := by simp [Store.eraseChild, hS.child c']
  descriptor := by simpa [Store.eraseChild] using hS.descriptor
  chunk n := by simpa [Store.eraseChild] using hS.chunk n

lemma Store.Hollow.lookup {k : LogicalKey} (hk : partitionRange t p k = true)
    : S.lookup k = none ∨ k = .synopsis t p ∨
      k = .centroid t p ∨ k = .state t p ∨ k = .header t p := by
  cases k with
  | record | location | payload | treeManifest => cases hk
  | _ =>
    simp only [partitionRange, and_eq_true, decide_eq_true_eq] at hk
    obtain ⟨rfl, rfl⟩ := hk
    first
      | exact .inl (hS.leaf _)
      | exact .inl (hS.child _)
      | exact .inl hS.descriptor
      | exact .inl (hS.chunk _)
      | simp

lemma Store.Hollow.removeSource_eq : S.removeSource t p removal = S.removePartition t p := by
  cases removal with
  | pointDeletes => rfl
  | transactionalClear =>
    refine OrderedMap.ext fun k => ?_
    simp only [removeSource, removePartition, lookup_clear, lookup_erase]
    by_cases hk : partitionRange t p k = true
    · rcases hS.lookup hk with hnone | rfl | rfl | rfl | rfl <;> simp [hk]
      exact fun _ _ _ _ => hnone.symm
    · have hne {k' : LogicalKey} (hk' : partitionRange t p k' = true) : k ≠ k' :=
        fun h => hk (h ▸ hk')
      rw [if_neg hk, if_neg (hne (by simp [partitionRange])),
        if_neg (hne (by simp [partitionRange])), if_neg (hne (by simp [partitionRange])),
        if_neg (hne (by simp [partitionRange]))]

end

/-! ### Completions -/

lemma sameFrom_removeSourcePrefix (hview : Store.Hollow s.view t p)
    (honto : Store.Hollow (s.onto C) t p) :
    SameFrom C s (removeSourcePrefix t p removal) (removeSourcePrefix t p removal') := by
  have hspec (r : SourceRemoval) : ∃ s₁, (removeSourcePrefix t p r).run s = .ok ((), s₁) ∧
      s₁.snapshot = s.snapshot ∧ s₁.protectedKeys = s.protectedKeys := by
    cases r <;> exact ⟨_, rfl, rfl, rfl⟩
  intro u s₁ hrun
  obtain ⟨s₂, hrun₂, hsnapshot₂, hprotected₂⟩ := hspec removal'
  obtain ⟨_, hrun₃, hsnapshot₃, hprotected₃⟩ := hspec removal
  cases hrun.1.symm.trans hrun₃
  have hagrees : s₂.Agrees C := by
    intro k hk
    rw [hprotected₂, ← hprotected₃] at hk
    rw [hrun.2 k hk, hsnapshot₃, hsnapshot₂]
  have hrun' : Runs C (removeSourcePrefix t p removal') s () s₂ := ⟨hrun₂, hagrees⟩
  refine ⟨s₂, hrun', hsnapshot₂.trans hsnapshot₃.symm, fun k => by rw [hprotected₂, hprotected₃],
    ?_, ?_⟩
  · -- The view is the store the transaction would leave on its own snapshot.
    rw [← Txn.onto_snapshot, ← Txn.onto_snapshot, hsnapshot₂, hsnapshot₃,
      runs_removeSourcePrefix (runs_of_run hrun₂), runs_removeSourcePrefix (runs_of_run hrun₃),
      Txn.onto_snapshot, hview.removeSource_eq, hview.removeSource_eq]
  · rw [runs_removeSourcePrefix hrun', runs_removeSourcePrefix hrun, honto.removeSource_eq,
      honto.removeSource_eq]

/-- What the removal of a drained source rests on, in the transaction's view and in the
store it commits onto. -/
structure Attended (ix : Index) (C : Store) (s : Txn ValueOf) : Prop where
  reading : Reading ix C s
  view : Store.GraphsAttended s.view
  store : Store.GraphsAttended (s.onto C)

lemma Attended.of_sameWrites (h : Attended ix C s) (hsame : s.SameWrites s') :
    Attended ix C s' where
  reading := h.reading.of_sameWrites hsame
  view := by rw [hsame.view_eq]; exact h.view
  store := by rw [hsame.onto_eq C]; exact h.store

lemma Attended.hollow (h : Attended ix C s) {header : PartitionHeader}
    {state : PartitionTransition} (hrun : Runs C (authorityPair t p) s (some (header, state)) s')
    (drained : header.entryCount = 0) :
    Store.Hollow s'.view t p ∧ Store.Hollow (s'.onto C) t p := by
  obtain ⟨hsame, -, hauth⟩ := runs_authorityPair hrun
  obtain ⟨-, -, hauth'⟩ := runs_authorityPair (runs_of_run hrun.1)
  have hheader' := (hauth' header state rfl).1
  rw [Txn.onto_snapshot] at hheader'
  rw [hsame.view_eq, hsame.onto_eq C]
  exact ⟨h.reading.view.hollow h.view hheader' drained,
    h.reading.store.hollow h.store (hauth header state rfl).1 drained⟩

lemma hollow_removeIncomingEdge {parent : PartitionKey}
    (hrun : Runs C (removeIncomingEdge t p level known) s parent s')
    (hview : Store.Hollow s.view t p) (honto : Store.Hollow (s.onto C) t p) :
    Store.Hollow s'.view t p ∧ Store.Hollow (s'.onto C) t p := by
  obtain ⟨-, k, -, -, -, -, hstore⟩ := runs_removeIncomingEdge hrun
  obtain ⟨-, k', -, -, -, -, hstore'⟩ := runs_removeIncomingEdge (runs_of_run hrun.1)
  rw [Txn.onto_snapshot, ← (TxnM.run_extends _ hrun.1).snapshot, Txn.onto_snapshot] at hstore'
  rw [hstore, hstore']
  exact ⟨hview.eraseChild parent p k', honto.eraseChild parent p k⟩

lemma hollow_promoteTarget {source target : PartitionKey} {state : Option PartitionTransition}
    {header : Option PartitionHeader} {u : Unit}
    (hrun : Runs C (promoteTarget t source level target n state header) s u s')
    (hview : Store.Hollow s.view t p) (honto : Store.Hollow (s.onto C) t p) :
    Store.Hollow s'.view t p ∧ Store.Hollow (s'.onto C) t p := by
  obtain ⟨h, -, -, -, rfl⟩ := runs_promoteTarget hrun
  simp only [Txn.view_stage, onto_stage, Write.apply]
  exact ⟨hview.restate target h (.ready n), honto.restate target h (.ready n)⟩

lemma sameFrom_finalizeMerge (h : Attended ix C s) :
    SameFrom C s (finalizeMerge t p removal known) (finalizeMerge t p removal' known) := by
  rw [finalizeMerge, finalizeMerge]
  refine .bind fun authority s₁ hread => ?_
  rcases authority with _ | ⟨header, state⟩
  · exact .refl
  cases state with
  | merging =>
    by_cases hroot : p = rootPartition
    · simp only [hroot, if_true]
      exact .refl
    by_cases hcount : header.entryCount = 0
    · simp only [hroot, if_false, hcount, ne_eq, not_true_eq_false]
      obtain ⟨hview, honto⟩ := h.hollow hread hcount
      refine .bind fun parent s₂ hparent => ?_
      obtain ⟨hview₂, honto₂⟩ := hollow_removeIncomingEdge hparent hview honto
      exact (sameFrom_removeSourcePrefix hview₂ honto₂).then_same fun _ => respects_pure _
    · simp only [hroot, if_false, ne_eq, hcount, not_false_eq_true, if_true]
      exact .refl
  | _ => exact .refl

lemma sameFrom_finalizeSplit (h : Attended ix C s) :
    SameFrom C s (finalizeSplit t p n removal known) (finalizeSplit t p n removal' known) := by
  rw [finalizeSplit, finalizeSplit]
  refine .bind fun authority s₁ hread => ?_
  rcases authority with _ | ⟨header, state⟩
  · exact .refl
  cases state with
  | drainingSplit =>
    by_cases hcount : header.entryCount = 0
    · obtain ⟨hview, honto⟩ := h.hollow hread hcount
      simp only [hcount, ne_eq, not_true_eq_false, if_false]
      refine .bind fun leftState s₂ h₂ => .bind fun leftHeader s₃ h₃ =>
        .bind fun rightState s₄ h₄ =>
        .bind fun rightHeader s₅ h₅ => .bind fun _ s₆ hleft => .bind fun _ s₇ hright => ?_
      obtain ⟨-, rfl, -⟩ := runs_getState.mp h₂
      obtain ⟨-, rfl, -⟩ := runs_getHeader.mp h₃
      obtain ⟨-, rfl, -⟩ := runs_getState.mp h₄
      obtain ⟨-, rfl, -⟩ := runs_getHeader.mp h₅
      obtain ⟨hview₆, honto₆⟩ := hollow_promoteTarget (p := p) hleft hview honto
      obtain ⟨hview₇, honto₇⟩ := hollow_promoteTarget (p := p) hright hview₆ honto₆
      split_ifs with hroot
      · exact .refl
      refine .bind fun parent s₈ hparent => ?_
      obtain ⟨hview₈, honto₈⟩ := hollow_removeIncomingEdge hparent hview₇ honto₇
      exact (sameFrom_removeSourcePrefix hview₈ honto₈).then_same fun _ => respects_pure _
    · simp only [hcount, ne_eq, not_false_eq_true, if_true]
      exact .refl
  | _ => exact .refl

/-! ### Completions with their graphs -/

lemma respects_stageAll : ∀ ws : List (Write ValueOf), Respects (stageAll ws)
  | [] => respects_pure ()
  | w :: ws => respects_bind (respects_write w) fun _ => respects_stageAll ws

lemma respects_validateTargets (t : TreeKey) :
    ∀ graphs : List PreparedGraphTransition, Respects (validateTargets t graphs)
  | [] => respects_pure ()
  | _ :: rest => respects_bind (respects_getForUpdate _) fun _ =>
    respects_bind (respects_ensure _ _) fun _ => respects_validateTargets t rest

lemma respects_publishBatch (t : TreeKey) (graphs : List PreparedGraphTransition) :
    Respects (publishBatch t graphs) :=
  respects_bind (respects_validateTargets t graphs) fun _ => respects_stageAll _

lemma sameFrom_performEdit {edit : GraphEdit} (h : Attended ix C s) :
    SameFrom C s (performEdit ix t p now removal known edit)
      (performEdit ix t p now removal' known edit) := by
  cases edit with
  | expose | drain => exact .refl
  | splitComplete =>
    refine (sameFrom_finalizeSplit h).then_same fun outcome => ?_
    cases outcome <;> exact respects_pure _
  | mergeComplete => exact (sameFrom_finalizeMerge h).then_same fun outcome => respects_pure _

lemma sameFrom_graphApply {plan : GraphPlan} (h : Attended ix C s) :
    SameFrom C s (graphApply ix t p now removal plan) (graphApply ix t p now removal' plan) := by
  rw [graphApply, graphApply]
  refine .bind fun found s₁ hfound => ?_
  have hsame₁ := (readOnly_validateParent _).sameWrites hfound
  split_ifs
  swap
  · exact .refl
  refine .bind fun fresh s₂ hprotect => ?_
  have hsame₂ := hsame₁.trans (runs_protectSources hprotect).1
  split_ifs
  swap
  · exact .refl
  refine .bind fun same s₃ hother => ?_
  have hsame₃ := hsame₂.trans ((readOnly_validateOther _).sameWrites hother)
  split_ifs
  swap
  · exact .refl
  refine (sameFrom_performEdit (h.of_sameWrites hsame₃)).then_same fun advance => ?_
  cases advance with
  | none => exact respects_pure _
  | some => exact respects_bind (respects_publishBatch _ _) fun _ => respects_pure _

/-! ### Runs -/

lemma graphDescriptor_createTarget {v : VectorData} {t' : TreeKey} {q q' : PartitionKey} :
    (S.createTarget ix t p h q v n).graphDescriptor t' q' = S.graphDescriptor t' q' := by
  rw [Store.createTarget]
  split_ifs <;> simp

lemma graphChunk_createTarget {v : VectorData} {m : ℕ} {t' : TreeKey} {q q' : PartitionKey} :
    (S.createTarget ix t p h q v n).graphChunk t' q' m = S.graphChunk t' q' m := by
  rw [Store.createTarget]
  split_ifs <;> simp

lemma graphDescriptor_putRecord :
    (S.putRecord record payload location).graphDescriptor t p = S.graphDescriptor t p := by
  cases payload <;> simp [putRecord]

lemma graphChunk_putRecord :
    (S.putRecord record payload location).graphChunk t p n = S.graphChunk t p n := by
  cases payload <;> simp [putRecord]

lemma Effect.no_graphs (heffect : Effect ix S C) (hplain : ix.localGraph = false)
    (hS : ∀ k : LogicalKey, k.isGraph = true → S.lookup k = none) :
    ∀ k : LogicalKey, k.isGraph = true → C.lookup k = none := by
  have hdescriptor (t : TreeKey) (p : PartitionKey) : S.graphDescriptor t p = none := hS _ rfl
  have hchunk (t : TreeKey) (p : PartitionKey) (n : ℕ) : S.graphChunk t p n = none := hS _ rfl
  intro k hk
  cases heffect with
  | graph _ published =>
    rcases published with hgraph | hkeys
    · rw [hplain] at hgraph
      cases hgraph
    · rcases hkeys k hk with hnone | hsame
      · exact hnone
      · exact hsame.trans (hS k hk)
  | _ =>
    cases k with
    | graphDescriptor t' q =>
      change Store.graphDescriptor _ t' q = none
      simp [Store.createTree, putLeaf, eraseLeaf, putChild, eraseChild, restate, allocate,
        putCentroid, Store.promoteRoot, removePartition, eraseRecord, graphDescriptor_createTarget,
        graphDescriptor_putRecord, hdescriptor]
    | graphChunk t' q n =>
      change Store.graphChunk _ t' q n = none
      simp [Store.createTree, putLeaf, eraseLeaf, putChild, eraseChild, restate, allocate,
        putCentroid, Store.promoteRoot, removePartition, eraseRecord, graphChunk_createTarget,
        graphChunk_putRecord, hchunk]
    | _ => cases hk

lemma Run.graphsAttended {g : LocalGraph} {history : List Store}
    (hrun : RunFromEmpty ix g.build history) : ∀ S ∈ history, S.GraphsAttended := by
  intro S hS
  cases hgraph : ix.localGraph with
  | true =>
    have hmatches := hrun.graphMatches hgraph (coherent_empty ix) graphMatches_empty S hS
    exact fun t p => (hmatches t p).bare
  | false =>
    have hnone := hrun.invariant (coherent_empty ix)
      (P := fun S => ∀ k : LogicalKey, k.isGraph = true → S.lookup k = none)
      (fun k _ => OrderedMap.lookup_empty k)
      (fun _ hS heffect => heffect.no_graphs hgraph hS) S hS
    exact fun t p _ => ⟨hnone (.graphDescriptor t p) rfl, fun n => hnone (.graphChunk t p n) rfl⟩

/-- The same transaction, with sources removed in another way. -/
def Operation.withRemoval (removal : SourceRemoval) : Operation → Operation
  | completeSplit t p n _ => completeSplit t p n removal
  | completeMerge t p _ => completeMerge t p removal
  | graphStep t p a b now _ => graphStep t p a b now removal
  | op => op

/-- The drained source a transaction reports as completed. -/
def Operation.completes : Operation → Report → Option (TreeKey × PartitionKey)
  | completeSplit t p _ _, .splitCompletion (.completed _) => some (t, p)
  | completeMerge t p _, .mergeCompletion .completed => some (t, p)
  | graphStep t p _ _ _ _, .graph (some .completed) => some (t, p)
  | _, _ => none

section

variable {build : GraphBuilder} {history : List Store} {op : Operation} {report : Report}
  {S' : Store}

lemma CommitStep.withRemoval (hstep : CommitStep ix build history op report S')
    (hh : Consistent ix history) (hgraphs : ∀ S ∈ history, S.GraphsAttended)
    (removal : SourceRemoval) : CommitStep ix build history (op.withRemoval removal) report S' := by
  have hattended {snapshot C : Store} (hsnapshot : snapshot ∈ history)
      (hC : history.head? = some C) : Attended ix C (Txn.start snapshot) :=
    ⟨hh.reading hsnapshot hC, hgraphs snapshot hsnapshot, hgraphs C (mem_of_mem_head? hC)⟩
  cases hstep with
  | completeSplit plain commits =>
    exact .completeSplit plain (commits.congr fun _ hS _ hC =>
      sameFrom_finalizeSplit (hattended hS hC))
  | completeMerge plain commits =>
    exact .completeMerge plain (commits.congr fun _ hS _ hC =>
      sameFrom_finalizeMerge (hattended hS hC))
  | graphStep graph read readLater planned commits =>
    exact .graphStep graph read readLater planned (commits.congr fun _ hS _ hC =>
      sameFrom_graphApply (hattended hS hC))
  | createTree commits => exact .createTree commits
  | mutate valid projected commits => exact .mutate valid projected commits
  | beginSplit commits => exact .beginSplit commits
  | exposeTargets plain commits => exact .exposeTargets plain commits
  | drainSplit read planned commits => exact .drainSplit read planned commits
  | beginMerge commits => exact .beginMerge commits
  | drainMerge read planned commits => exact .drainMerge read planned commits
  | refine commits => exact .refine commits
  | updateCentroid plain commits => exact .updateCentroid plain commits
  | graphCentroids graph read planned commits => exact .graphCentroids graph read planned commits

lemma header_removeSource : (S.removeSource t p removal).header t p = none := by
  cases removal with
  | transactionalClear => simp [removeSource, partitionRange]
  | pointDeletes => simp [removeSource, removePartition]

variable {known : Option PartitionKey}

lemma header_finalizeSplit {parent : Option PartitionKey} (hr : Reading ix C s)
    (notRoot : p ≠ rootPartition)
    (hrun : Runs C (finalizeSplit t p n removal known) s (.completed parent) s') :
    Store.header (s'.onto C) t p = none := by
  rcases runs_finalizeSplit hr hrun with ⟨hsame, ⟨-, hnone, -⟩ | hne⟩ | hfinished
  · rw [hsame.onto_eq C]
    exact hnone
  · exact absurd rfl (hne parent)
  · generalize s'.onto C = S' at hfinished
    cases hfinished with
    | root isRoot => exact absurd isRoot notRoot
    | child => exact header_removeSource

lemma header_finalizeMerge (hrun : Runs C (finalizeMerge t p removal known) s .completed s') :
    Store.header (s'.onto C) t p = none := by
  rcases runs_finalizeMerge hrun with ⟨hsame, hnone⟩ | ⟨-, hfinished⟩
  · rw [hsame.onto_eq C]
    exact (hnone rfl).1
  · generalize s'.onto C = S' at hfinished
    cases hfinished with
    | child => exact header_removeSource

lemma header_performEdit {edit : GraphEdit} (hr : Reading ix C s) (notRoot : p ≠ rootPartition)
    (hrun : Runs C (performEdit ix t p now removal known edit) s (some .completed) s') :
    Store.header (s'.onto C) t p = none := by
  cases edit with
  | expose _ a b =>
    simp only [performEdit, runs_bind, runs_pure] at hrun
    obtain ⟨outcome, _, -, hdone, -⟩ := hrun
    split_ifs at hdone
    cases hdone
  | drain =>
    simp only [performEdit, runs_bind, runs_pure] at hrun
    obtain ⟨n, _, -, hdone, -⟩ := hrun
    cases hdone
  | splitComplete =>
    simp only [performEdit, runs_bind] at hrun
    obtain ⟨outcome, _, hfinalize, hrun⟩ := hrun
    cases outcome with
    | completed =>
      obtain ⟨-, rfl, -⟩ := runs_pure.mp hrun
      exact header_finalizeSplit hr notRoot hfinalize
    | _ =>
      obtain ⟨hdone, -⟩ := runs_pure.mp hrun
      cases hdone
  | mergeComplete =>
    simp only [performEdit, runs_bind, runs_pure] at hrun
    obtain ⟨_, _, hfinalize, hdone, rfl, -⟩ := hrun
    split_ifs at hdone with houtcome
    subst houtcome
    exact header_finalizeMerge hfinalize

lemma header_graphApply {plan : GraphPlan} (hr : Reading ix C s) (notRoot : p ≠ rootPartition)
    (hrun : Runs C (graphApply ix t p now removal plan) s (some .completed) s') :
    Store.header (s'.onto C) t p = none := by
  obtain ⟨-, hdone⟩ | ⟨_, _, _, u, hdone, hsame, -, hperform, hpublish⟩ :=
    runs_graphApply hr hrun
  · cases hdone
  · cases hdone
    rw [Store.header, lookup_publishBatch hpublish rfl]
    exact header_performEdit (hr.of_sameWrites hsame) notRoot hperform

lemma CommitStep.header_completes (hstep : CommitStep ix build history op report S')
    (hh : Consistent ix history) (hcompletes : op.completes report = some (t, p))
    (notRoot : p ≠ rootPartition) : S'.header t p = none := by
  cases hstep with
  | @completeSplit _ _ _ _ outcome _ _ commits =>
    obtain ⟨C, _, s, hC, -, hrun, rfl, hr⟩ := hh.runs commits
    cases outcome with
    | completed =>
      cases hcompletes
      exact header_finalizeSplit hr notRoot hrun
    | _ => cases hcompletes
  | @completeMerge _ _ _ outcome _ _ commits =>
    obtain ⟨C, _, s, hC, -, hrun, rfl, -⟩ := hh.runs commits
    cases outcome with
    | completed =>
      cases hcompletes
      exact header_finalizeMerge hrun
    | _ => cases hcompletes
  | @graphStep _ _ _ _ _ _ _ _ _ _ advance _ _ _ _ commits =>
    obtain ⟨C, _, s, hC, -, hrun, rfl, hr⟩ := hh.runs commits
    cases advance with
    | none => cases hcompletes
    | some advance =>
      cases advance with
      | completed =>
        cases hcompletes
        exact header_graphApply hr notRoot hrun
      | _ => cases hcompletes
  | createTree | mutate | beginSplit | exposeTargets | drainSplit | beginMerge | drainMerge
  | refine | updateCentroid | graphCentroids => cases hcompletes

lemma Coherent.no_key (hS : Coherent ix S) (hgraphs : S.GraphsAttended)
    (hcentroid : S.header t p = none → S.centroid t p = none) (hnone : S.header t p = none)
    (k : LogicalKey) (hk : partitionRange t p k = true) : S.lookup k = none := by
  obtain ⟨hcount, hsynopsis⟩ := (hS.bodies t p).absent hnone
  obtain ⟨hleaf, hchild⟩ := entryCount_eq_zero.mp hcount
  obtain ⟨hdescriptor, hchunk⟩ := hgraphs t p (by simp [graphHead, hnone])
  have hhollow : S.Hollow t p := ⟨hleaf, hchild, hdescriptor, hchunk⟩
  rcases hhollow.lookup hk with hnone | rfl | rfl | rfl | rfl
  · exact hnone
  · exact hsynopsis
  · exact hcentroid hnone
  · have hagree := (hS.treeShape t).agree p
    rw [hnone] at hagree
    simp only [Option.map_none] at hagree
    exact Option.map_eq_none_iff.mp hagree.symm
  · exact hnone

lemma withRemoval_withRemoval (op : Operation) (removal removal' : SourceRemoval) :
    (op.withRemoval removal).withRemoval removal' = op.withRemoval removal' := by
  cases op <;> rfl

/-- **Both ways to remove a drained source are one.**  On every history of an index,
with or without local graphs, the same commits are possible with either, and after
a completed source other than the root no key is left under its prefix. -/
theorem run_removal_modes {g : LocalGraph} (hrun : RunFromEmpty ix g.build history) :
    (∀ (op : Operation) removal removal' report S',
      CommitStep ix g.build history (op.withRemoval removal) report S' ↔
        CommitStep ix g.build history (op.withRemoval removal') report S') ∧
    ∀ (op : Operation) report S' t p, CommitStep ix g.build history op report S' →
      op.completes report = some (t, p) → p ≠ rootPartition →
        ∀ k, partitionRange t p k = true → S'.lookup k = none := by
  have hh := hrun.consistent (coherent_empty ix)
  refine ⟨fun op removal removal' report S' => ⟨fun hstep => ?_, fun hstep => ?_⟩, ?_⟩
  · rw [← withRemoval_withRemoval op removal removal']
    exact hstep.withRemoval hh hrun.graphsAttended removal'
  · rw [← withRemoval_withRemoval op removal' removal]
    exact hstep.withRemoval hh hrun.graphsAttended removal
  · intro op _ S' t p hstep hcompletes notRoot
    have hrun' : RunFromEmpty ix g.build (S' :: history) := hrun.step hstep
    have hcentroid := hrun'.invariant (coherent_empty ix)
      (P := fun S => ∀ t p, S.header t p = none → S.centroid t p = none) (fun _ _ _ => rfl)
      (fun hS hP heffect => heffect.centroid_none hS hP) S' mem_cons_self t p
    exact ((hrun'.consistent (coherent_empty ix)).coherent S' mem_cons_self).no_key
      (hrun'.graphsAttended S' mem_cons_self) hcentroid
      (hstep.header_completes hh hcompletes notRoot)

/-- The run of the graph index, until one of its leaves is empty and merges. -/
def mergeLineHistory : List Store :=
  (play .graphLine byteGraph.build (graphLineSteps ++
    [⟨.mutate [.delete [1], .delete [2], .delete [3]] none 0 1, 0, 0, 0⟩,
      ⟨.beginMerge lineTree 2 0, 0, 0, 0⟩]) [OrderedMap.empty]).getD [OrderedMap.empty]

lemma mergeLineHistory_run : RunFromEmpty .graphLine byteGraph.build mergeLineHistory := by
  rw [mergeLineHistory]
  generalize hplay : play .graphLine byteGraph.build _ _ = played
  cases played with
  | none => exact .start
  | some history => exact play_run .start hplay

/-- The merge of that run is completed in the other way, too. -/
theorem run_removal_modes_mergeLine :
    ∃ report S', CommitStep .graphLine byteGraph.build mergeLineHistory
        (.graphStep lineTree 2 [0] [10] 0 .transactionalClear) report S' ∧
      ∀ k, partitionRange lineTree 2 k = true → S'.lookup k = none := by
  have hexecutes : (execute .graphLine byteGraph.build mergeLineHistory 0 0 0
      (.graphStep lineTree 2 [0] [10] 0 .pointDeletes)).any (fun r => decide
        ((Operation.graphStep lineTree 2 [0] [10] 0 .pointDeletes).completes r.1 =
          some (lineTree, 2))) = true := by decide +kernel
  obtain ⟨⟨report, S'⟩, hok, hcompletes⟩ := (any_eq_true _ _).mp hexecutes
  have hstep := execute_commitStep hok
  obtain ⟨hmodes, hgone⟩ := run_removal_modes mergeLineHistory_run
  exact ⟨report, S', (hmodes (.graphStep lineTree 2 [0] [10] 0 .pointDeletes) .pointDeletes
    .transactionalClear report S').mp hstep,
    hgone _ report S' lineTree 2 hstep (of_decide_eq_true hcompletes) (by decide)⟩

end

end

export Store (Hollow)
