/-
Prefetching runs of visits changes nothing.

A run holds no root, so none of its visits injects work into the active frontier, and
no internal partition of a graph index.  Preparing a visit changes only what is
charged; consuming a body changes only what is explored.  So preparing a whole group
before its bodies are consumed gives the same state as one visit after the other.

* `visitGroup_eq_ok`, `visitBeam_eq_ok` — a prefetched run is its visits in order;
* `runBatches_eq_ok` — the loop over batches is the loop over entries;
* `traverse_eq_ok_iff` — **the two traversals return the same outcomes**.
-/
import Ktann.Committed.Occupancy
import Ktann.Search.Traverse

open List (cons_ne_nil)

namespace Traverse

open Agreement

section
variable {D Pool : Type} [LinearOrder D] {ctx : VisitContext D Pool}

/-! ### One visit of a run -/

def plan (ctx : VisitContext D Pool) (entry : FrontierEntry D)
    (metadata : PartitionHeader × Option PartitionSynopsis) :
    Except Error (Option (PreparedVisit D)) := do
  checkLevel entry metadata.1
  admitBody ctx entry metadata.1 metadata.2

def consumeBody (ctx : VisitContext D Pool) (x : Explored D Pool)
    (visit : Option (PreparedVisit D)) : Except Error (Explored D Pool) :=
  match visit with
  | none => .ok x
  | some visit => do
    let body ← readBody ctx visit
    visitBody ctx visit body x

variable {entry : FrontierEntry D} {metadata : PartitionHeader × Option PartitionSynopsis}
  {st st' : Traversal D Pool} {entries : List (FrontierEntry D)}

omit [LinearOrder D] in
lemma expectedLevel_isSome (h : canPrefetch ctx entry = true) :
    entry.expectedLevel.isSome = true :=
  ((and_eq_true _ _).mp h).1

variable {visit : Option (PreparedVisit D)}

lemma prepare_eq_ok (h : canPrefetch ctx entry = true) :
    prepare ctx entry (some metadata) st = .ok (visit, st') ↔ plan ctx entry metadata = .ok visit ∧
        st' = { st with partitions := st.partitions.charge ctx entry metadata.1 } := by
  have hroot : entry.expectedLevel.isNone = false := by
    rw [← Option.not_isSome, expectedLevel_isSome h, Bool.not_true]
  simp only [prepare, plan, enter, elim_some, bind_eq_ok, hroot, Bool.false_eq_true, if_false]
  constructor
  · rintro ⟨_, hmeta, _, hlevel, _, hcharged, _, hvisit, hresult⟩
    cases hmeta
    cases hcharged
    cases hresult
    exact ⟨⟨(), hlevel, hvisit⟩, rfl⟩
  · rintro ⟨⟨_, hlevel, hvisit⟩, rfl⟩
    exact ⟨metadata, rfl, (), hlevel, _, rfl, visit, hvisit, rfl⟩

lemma prepare_none (h : readMetadata ctx entry = .ok metadata) (st : Traversal D Pool) :
    prepare ctx entry none st = prepare ctx entry (some metadata) st := by
  simp only [prepare, Option.elim_none, elim_some, h]

omit [LinearOrder D] in
lemma pruneLeaf_eq_some {header : PartitionHeader} {synopsis : Option PartitionSynopsis}
    {visit : PreparedVisit D} (h : pruneLeaf ctx entry header synopsis = .ok (some visit)) :
    visit.header = header := by
  have hite {p : Option CompiledPredicate}
      (hvisit : (if header.entryCount = 0 then none else some ⟨entry, header, p⟩) = some visit) :
      visit.header = header := by
    split_ifs at hvisit
    cases hvisit
    rfl
  rw [pruneLeaf] at h
  split at h
  · exact hite (Except.ok.inj h)
  · obtain ⟨_, -, h⟩ := bind_eq_ok.mp h
    obtain ⟨classification, -, h⟩ := bind_eq_ok.mp h
    cases classification with
    | noMatch => cases h
    | allMatch | mayMatch => exact hite (Except.ok.inj h)

lemma consumeSingle_eq (h : canPrefetch ctx entry = true)
    (hplan : plan ctx entry metadata = .ok visit) (x : Explored D Pool) :
    consumeSingle ctx visit x = consumeBody ctx x visit := by
  cases visit with
  | none => rfl
  | some =>
    rw [consumeSingle, consumeBody]
    refine if_neg fun hgraph => ?_
    rw [and_eq_true, decide_eq_true_eq] at hgraph
    obtain ⟨hlevel, hgraph⟩ := hgraph
    -- on a graph index only leaves are prefetched
    rw [canPrefetch, hgraph, Bool.not_true, Bool.false_or, and_eq_true, beq_iff_eq] at h
    obtain ⟨_, hcheck, hadmit⟩ := bind_eq_ok.mp hplan
    rw [checkLevel, h.2] at hcheck
    dsimp only at hcheck
    split_ifs at hcheck with hone
    rw [admitBody, if_neg (by omega)] at hadmit
    rw [pruneLeaf_eq_some hadmit] at hlevel
    omega

lemma visitPartition_eq_ok (h : canPrefetch ctx entry = true)
    (hmeta : readMetadata ctx entry = .ok metadata) :
    visitPartition ctx entry st = .ok st' ↔ ∃ visit, plan ctx entry metadata = .ok visit ∧
        ∃ x, consumeBody ctx st.explored visit = .ok x ∧
          st' = ⟨st.active, x, st.partitions.charge ctx entry metadata.1⟩ := by
  simp only [visitPartition, prepare_none hmeta, bind_eq_ok]
  constructor
  · rintro ⟨⟨visit, _⟩, hprepare, x, hconsume, hst⟩
    obtain ⟨hplan, rfl⟩ := (prepare_eq_ok h).mp hprepare
    rw [consumeSingle_eq h hplan] at hconsume
    cases hst
    exact ⟨visit, hplan, x, hconsume, rfl⟩
  · rintro ⟨visit, hplan, x, hconsume, rfl⟩
    refine ⟨(visit, _), (prepare_eq_ok h).mpr ⟨hplan, rfl⟩, x, ?_, rfl⟩
    rwa [consumeSingle_eq h hplan]

/-! ### A group -/

abbrev Run (D : Type) := List (FrontierEntry D × PartitionHeader × Option PartitionSynopsis)

variable {run : Run D}

/-- The entries can be prefetched, and the metadata is theirs. -/
def Run.Valid (ctx : VisitContext D Pool) (run : Run D) : Prop :=
  ∀ p ∈ run, canPrefetch ctx p.1 = true ∧ readMetadata ctx p.1 = .ok p.2

/-- What a run decides, entry by entry. -/
def Plans (ctx : VisitContext D Pool) (run : Run D) (visits : List (Option (PreparedVisit D))) :
    Prop :=
  List.Forall₂ (fun p visit => plan ctx p.1 p.2 = .ok visit) run visits

def chargeAll (ctx : VisitContext D Pool) (run : Run D) (r : PartitionReader) : PartitionReader :=
  run.foldl (fun r p => r.charge ctx p.1 p.2.1) r

lemma prepareAll_eq_ok (h : run.Valid ctx) {visits : List (PreparedVisit D)} :
    prepareAll ctx run st = .ok (visits, st') ↔
      ∃ plans, Plans ctx run plans ∧ visits = plans.flatMap Option.toList ∧
        st' = { st with partitions := chargeAll ctx run st.partitions } := by
  induction run generalizing st st' visits with
  | nil =>
    constructor
    · intro hok
      cases hok
      exact ⟨[], .nil, rfl, rfl⟩
    · rintro ⟨plans, hplans, rfl, rfl⟩
      cases hplans
      rfl
  | cons p _ ih =>
    obtain ⟨⟨hp, -⟩, hrun⟩ := forall_mem_cons.mp h
    rw [prepareAll, bind_eq_ok]
    constructor
    · rintro ⟨⟨visit, _⟩, hprepare, hrest⟩
      obtain ⟨⟨_, _⟩, hall, hresult⟩ := bind_eq_ok.mp hrest
      obtain ⟨hplan, rfl⟩ := (prepare_eq_ok hp).mp hprepare
      obtain ⟨plans, hplans, rfl, rfl⟩ := (ih hrun).mp hall
      cases hresult
      exact ⟨visit :: plans, .cons hplan hplans, rfl, rfl⟩
    · rintro ⟨_, hplans, rfl, rfl⟩
      cases hplans with
      | cons hplan hplans =>
        refine ⟨_, (prepare_eq_ok hp).mpr ⟨hplan, rfl⟩, ?_⟩
        exact bind_eq_ok.mpr ⟨_, (ih hrun).mpr ⟨_, hplans, rfl, rfl⟩, rfl⟩

lemma consume_eq_ok {plans : List (Option (PreparedVisit D))} {x x' : Explored D Pool} :
    (∃ bodies, (plans.flatMap Option.toList).mapM (readBody ctx) = .ok bodies ∧
      ((plans.flatMap Option.toList).zip bodies).foldlM
        (fun x pair => visitBody ctx pair.1 pair.2 x) x = .ok x') ↔
      plans.foldlM (consumeBody ctx) x = .ok x' := by
  induction plans generalizing x with
  | nil =>
    constructor
    · rintro ⟨_, hbodies, hfold⟩
      cases hbodies
      exact hfold
    · intro hfold
      exact ⟨[], rfl, hfold⟩
  | cons plan _ ih =>
    cases plan with
    | none =>
      rw [flatMap_cons, Option.toList_none, nil_append, ih, foldlM_cons]
      exact Iff.rfl
    | some =>
      rw [flatMap_cons, Option.toList_some, List.singleton_append, foldlM_cons, bind_eq_ok]
      simp only [mapM_cons, bind_eq_ok, consumeBody]
      constructor
      · rintro ⟨_, ⟨body, hbody, rest, hrest, hresult⟩, hfold⟩
        cases hresult
        rw [zip_cons_cons, foldlM_cons] at hfold
        obtain ⟨x₁, hvisit, hfold⟩ := bind_eq_ok.mp hfold
        exact ⟨x₁, ⟨body, hbody, hvisit⟩, ih.mp ⟨rest, hrest, hfold⟩⟩
      · rintro ⟨x₁, ⟨body, hbody, hvisit⟩, hfold⟩
        obtain ⟨rest, hrest, hfold⟩ := ih.mpr hfold
        refine ⟨body :: rest, ⟨body, hbody, rest, hrest, rfl⟩, ?_⟩
        rw [zip_cons_cons, foldlM_cons]
        exact bind_eq_ok.mpr ⟨x₁, hvisit, hfold⟩

/-- What a run amounts to: its decisions, its charges, and its bodies in order. -/
def Effect (ctx : VisitContext D Pool) (run : Run D) (st st' : Traversal D Pool) : Prop :=
  ∃ plans, Plans ctx run plans ∧ ∃ x, plans.foldlM (consumeBody ctx) st.explored = .ok x ∧
    st' = ⟨st.active, x, chargeAll ctx run st.partitions⟩

lemma visitGroup_eq_ok (h : run.Valid ctx) :
    visitGroup ctx run st = .ok st' ↔ Effect ctx run st st' := by
  simp only [visitGroup, bind_eq_ok]
  constructor
  · rintro ⟨⟨_, _⟩, hprepare, bodies, hbodies, x, hfold, hst⟩
    obtain ⟨plans, hplans, rfl, rfl⟩ := (prepareAll_eq_ok h).mp hprepare
    cases hst
    exact ⟨plans, hplans, x, consume_eq_ok.mp ⟨bodies, hbodies, hfold⟩, rfl⟩
  · rintro ⟨plans, hplans, x, hfold, rfl⟩
    obtain ⟨bodies, hbodies, hfold⟩ := consume_eq_ok.mpr hfold
    exact ⟨_, (prepareAll_eq_ok h).mpr ⟨plans, hplans, rfl, rfl⟩, bodies, hbodies, x, hfold, rfl⟩

lemma visitAll_eq_ok (h : run.Valid ctx) :
    (run.map Prod.fst).foldlM (fun st entry => visitPartition ctx entry st) st = .ok st' ↔
      Effect ctx run st st' := by
  induction run generalizing st with
  | nil =>
    constructor
    · intro hok
      cases hok
      exact ⟨[], .nil, _, rfl, rfl⟩
    · rintro ⟨plans, hplans, x, hfold, rfl⟩
      cases hplans
      cases hfold
      rfl
  | cons p _ ih =>
    obtain ⟨⟨hp, hmeta⟩, hrun⟩ := forall_mem_cons.mp h
    rw [map_cons, foldlM_cons, bind_eq_ok]
    constructor
    · rintro ⟨_, hvisit, hfold⟩
      obtain ⟨visit, hplan, x₁, hconsume, rfl⟩ := (visitPartition_eq_ok hp hmeta).mp hvisit
      obtain ⟨plans, hplans, x, hrest, rfl⟩ := (ih hrun).mp hfold
      refine ⟨visit :: plans, .cons hplan hplans, x, ?_, rfl⟩
      rw [foldlM_cons]
      exact bind_eq_ok.mpr ⟨x₁, hconsume, hrest⟩
    · rintro ⟨plans, hplans, x, hfold, rfl⟩
      cases hplans with
      | @cons _ visit _ plans hplan hplans =>
        rw [foldlM_cons] at hfold
        obtain ⟨x₁, hconsume, hrest⟩ := bind_eq_ok.mp hfold
        exact ⟨_, (visitPartition_eq_ok hp hmeta).mpr ⟨visit, hplan, x₁, hconsume, rfl⟩,
          (ih hrun).mpr ⟨plans, hplans, x, hrest, rfl⟩⟩

/-! ### A prefetched run -/

lemma chunks_flatten {α : Type} (size : ℕ+) (l : List α) : (chunks size l).flatten = l := by
  fun_induction chunks size l with
  | case1 => rfl
  | case2 a _ ih =>
    rw [flatten_cons, ih, cons_append, take_append_drop]

lemma visitGroups_eq_ok {groups : List (Run D)} (h : Run.Valid ctx groups.flatten) :
    groups.foldlM (fun st group => visitGroup ctx group st) st = .ok st' ↔
      (groups.flatten.map Prod.fst).foldlM (fun st entry => visitPartition ctx entry st) st =
        .ok st' := by
  induction groups generalizing st with
  | nil => exact Iff.rfl
  | cons group groups ih =>
    have hgroup : Run.Valid ctx group := fun p hp => h p (mem_append_left _ hp)
    have hgroups : Run.Valid ctx groups.flatten := fun p hp => h p (List.mem_append_right _ hp)
    rw [foldlM_cons, flatten_cons, map_append, List.foldlM_append]
    simp only [bind_eq_ok, visitGroup_eq_ok hgroup, visitAll_eq_ok hgroup, ih hgroups]

lemma exists_metadata (h : visitPartition ctx entry st = .ok st') :
    ∃ metadata, readMetadata ctx entry = .ok metadata := by
  obtain ⟨_, hprepare, -⟩ := bind_eq_ok.mp h
  obtain ⟨metadata, hmeta, -⟩ := bind_eq_ok.mp hprepare
  exact ⟨metadata, hmeta⟩

lemma exists_metadata_all
    (h : entries.foldlM (fun st entry => visitPartition ctx entry st) st = .ok st') :
    ∃ metadata, entries.mapM (readMetadata ctx) = .ok metadata := by
  induction entries generalizing st with
  | nil => exact ⟨[], rfl⟩
  | cons _ _ ih =>
    rw [foldlM_cons] at h
    obtain ⟨_, hvisit, hrest⟩ := bind_eq_ok.mp h
    obtain ⟨metadata, hmeta⟩ := exists_metadata hvisit
    obtain ⟨rest, hall⟩ := ih hrest
    refine ⟨metadata :: rest, ?_⟩
    rw [mapM_cons]
    exact bind_eq_ok.mpr ⟨metadata, hmeta, bind_eq_ok.mpr ⟨rest, hall, rfl⟩⟩

omit [LinearOrder D] in
lemma valid_zip {metadata : List (PartitionHeader × Option PartitionSynopsis)}
    (h : ∀ entry ∈ entries, canPrefetch ctx entry = true)
    (hmeta : entries.mapM (readMetadata ctx) = .ok metadata) :
    Run.Valid ctx (entries.zip metadata) ∧ (entries.zip metadata).map Prod.fst = entries := by
  have hall := mapM_eq_ok.mp hmeta
  constructor
  · intro p hp
    exact ⟨h p.1 (List.of_mem_zip hp).1, (List.forall₂_iff_zip.mp hall).2 hp⟩
  · exact List.map_fst_zip hall.length_eq.le

/-- **A prefetched run is its visits in order.** -/
theorem visitBeam_eq_ok (h : ∀ entry ∈ entries, canPrefetch ctx entry = true) {bodyBatch : ℕ+} :
    visitBeam ctx bodyBatch entries st = .ok st' ↔
      entries.foldlM (fun st entry => visitPartition ctx entry st) st = .ok st' := by
  have hrun {metadata : List (PartitionHeader × Option PartitionSynopsis)}
      (hmeta : entries.mapM (readMetadata ctx) = .ok metadata) :
      (chunks bodyBatch (entries.zip metadata)).foldlM
        (fun st group => visitGroup ctx group st) st =
          .ok st' ↔
        entries.foldlM (fun st entry => visitPartition ctx entry st) st = .ok st' := by
    obtain ⟨hvalid, hfst⟩ := valid_zip h hmeta
    rw [visitGroups_eq_ok (by rwa [chunks_flatten]), chunks_flatten, hfst]
  rw [visitBeam, bind_eq_ok]
  constructor
  · rintro ⟨metadata, hmeta, hfold⟩
    exact (hrun hmeta).mp hfold
  · intro hfold
    obtain ⟨metadata, hmeta⟩ := exists_metadata_all hfold
    exact ⟨metadata, hmeta, (hrun hmeta).mpr hfold⟩

end

/-! ### The loops -/

section
variable {D Pool : Type} [LinearOrder D] {ctx : VisitContext D Pool}

variable {st st' : Traversal D Pool} {fuel fuel' : ℕ} {entry : FrontierEntry D} {m b : ℕ+}

lemma inject_partitions {tree level : ℕ} {partition : PartitionKey}
    (h : st.inject ctx tree partition level = .ok st') : st'.partitions = st.partitions := by
  obtain ⟨_, -, h⟩ := bind_eq_ok.mp h
  cases h
  rfl

lemma applyRootState_partitions {header : PartitionHeader}
    (h : applyRootState ctx entry header st = .ok st') : st'.partitions = st.partitions := by
  rw [applyRootState] at h
  split at h
  · cases h
    rfl
  · cases h
    rfl
  · split at h
    · obtain ⟨_, hleft, hright⟩ := bind_eq_ok.mp h
      rw [inject_partitions hright, inject_partitions hleft]
    · cases h
  · cases h
  · cases h

lemma visitPartition_visited (h : visitPartition ctx entry st = .ok st') :
    st'.partitions.visitedPartitions = st.partitions.visitedPartitions + 1 := by
  obtain ⟨⟨_, st₁⟩, hprepare, h⟩ := bind_eq_ok.mp h
  obtain ⟨x, -, h⟩ := bind_eq_ok.mp h
  cases h
  obtain ⟨⟨header, _⟩, -, hprepare⟩ := bind_eq_ok.mp hprepare
  obtain ⟨_, -, hprepare⟩ := bind_eq_ok.mp hprepare
  obtain ⟨_, hroot, hprepare⟩ := bind_eq_ok.mp hprepare
  obtain ⟨_, -, hprepare⟩ := bind_eq_ok.mp hprepare
  cases hprepare
  have hcharged : st₁.partitions = st.partitions.charge ctx entry header := by
    rw [enter] at hroot
    split_ifs at hroot
    · exact applyRootState_partitions hroot
    · cases hroot
      rfl
  rw [hcharged, PartitionReader.visitedPartitions, PartitionReader.charge, length_append]
  rfl

lemma visitAll_visited {entries : List (FrontierEntry D)}
    (h : entries.foldlM (fun st entry => visitPartition ctx entry st) st = .ok st') :
    st'.partitions.visitedPartitions = st.partitions.visitedPartitions + entries.length := by
  induction entries generalizing st with
  | nil =>
    cases h
    rfl
  | cons _ _ ih =>
    rw [foldlM_cons] at h
    obtain ⟨_, hvisit, hrest⟩ := bind_eq_ok.mp h
    rw [ih hrest, visitPartition_visited hvisit, length_cons]
    omega

lemma promote_of_active (h : st.active ≠ []) : st.promote = st := by
  rw [Traversal.promote, Branches.promote, if_neg h]

lemma runBatches_of_depleted (h : remaining ctx st = 0) (fuel : ℕ) :
    runBatches ctx m b fuel st = .ok st := by
  cases fuel with
  | zero => rfl
  | succ => rw [runBatches, nextBatch, if_pos h]

lemma runSingly_of_depleted (h : remaining ctx st = 0) (fuel : ℕ) :
    runSingly ctx fuel st = .ok st := by
  cases fuel with
  | zero => rfl
  | succ => rw [runSingly, nextEntry, if_pos h]

lemma runSingly_of_drained (h : remaining ctx st ≠ 0) (hactive : st.promote.active = [])
    (fuel : ℕ) : runSingly ctx (fuel + 1) st = .ok st.promote := by
  rw [runSingly, nextEntry, if_neg h]
  dsimp only
  rw [hactive]

lemma runSingly_of_active {first : FrontierEntry D} {rest : List (FrontierEntry D)}
    (h : remaining ctx st ≠ 0) (hactive : st.promote.active = first :: rest) (fuel : ℕ) :
    runSingly ctx (fuel + 1) st =
      visitPartition ctx first { st.promote with active := rest } >>= runSingly ctx fuel := by
  rw [runSingly, nextEntry, if_neg h]
  dsimp only
  rw [hactive]

lemma visitPartition_frame {entry : FrontierEntry D} (h : canPrefetch ctx entry = true)
    {active active' : List (FrontierEntry D)} {st st' : Traversal D Pool}
    (hvisit : visitPartition ctx entry { st with active := active } = .ok st') :
    visitPartition ctx entry { st with active := active' } = .ok { st' with active := active' } ∧
      st'.active = active := by
  obtain ⟨_, hmeta⟩ := exists_metadata hvisit
  obtain ⟨visit, hplan, x, hconsume, rfl⟩ := (visitPartition_eq_ok h hmeta).mp hvisit
  exact ⟨(visitPartition_eq_ok h hmeta).mpr ⟨visit, hplan, x, hconsume, rfl⟩, rfl⟩

lemma runSingly_run {entries rest : List (FrontierEntry D)}
    (h : ∀ entry ∈ entries, canPrefetch ctx entry = true) (hactive : st.active = entries ++ rest)
    (hfunded : entries.length ≤ remaining ctx st) :
    runSingly ctx (fuel + entries.length) st = .ok st' ↔
      ∃ st₁, entries.foldlM (fun st entry => visitPartition ctx entry st)
          { st with active := rest } = .ok st₁ ∧ runSingly ctx fuel st₁ = .ok st' := by
  induction entries generalizing st with
  | nil =>
    have hst : ({ st with active := rest } : Traversal D Pool) = st := by
      rw [nil_append] at hactive
      rw [← hactive]
    rw [hst]
    constructor
    · exact fun hrun => ⟨st, rfl, hrun⟩
    · rintro ⟨st₁, hst₁, hrun⟩
      cases hst₁
      exact hrun
  | cons _ entries ih =>
    obtain ⟨hentry, hentries⟩ := forall_mem_cons.mp h
    rw [length_cons] at hfunded
    rw [cons_append] at hactive
    have hpromote : st.promote = st := promote_of_active (by rw [hactive]; exact cons_ne_nil _ _)
    rw [length_cons, ← Nat.add_assoc, runSingly_of_active (by omega)
      (by rw [hpromote, hactive]), hpromote, bind_eq_ok, foldlM_cons]
    simp only [bind_eq_ok]
    constructor
    · rintro ⟨st₁, hvisit, hrun⟩
      obtain ⟨hframe, hrest⟩ := @visitPartition_frame _ _ _ _ _ hentry _ rest _ _ hvisit
      have hvisited : st₁.partitions.visitedPartitions = st.partitions.visitedPartitions + 1 := by
        have hone := visitPartition_visited hvisit
        exact hone
      obtain ⟨st₂, hfold, hrun⟩ := (ih hentries hrest (by
        rw [remaining] at hfunded ⊢
        rw [hvisited]
        omega)).mp hrun
      exact ⟨st₂, ⟨_, hframe, hfold⟩, hrun⟩
    · rintro ⟨st₂, ⟨st₁, hvisit, hfold⟩, hrun⟩
      obtain ⟨hframe, hrest⟩ := @visitPartition_frame _ _ _ _ _ hentry _
        (entries ++ rest) _ _ hvisit
      have hvisited : st₁.partitions.visitedPartitions = st.partitions.visitedPartitions + 1 := by
        have hone := visitPartition_visited hvisit
        exact hone
      refine ⟨_, hframe, (ih hentries rfl (by
        rw [remaining] at hfunded ⊢
        rw [hvisited]
        omega)).mpr ⟨st₂, ?_, hrun⟩⟩
      have hst₁ : ({ st₁ with active := rest } : Traversal D Pool) = st₁ := by rw [← hrest]
      dsimp only
      rwa [hst₁]

/-- What a batch is: a nonempty front of the active frontier, funded, and with more
than one entry a run. -/
lemma nextBatch_of_active {m : ℕ+} {st : Traversal D Pool} {first : FrontierEntry D}
    {rest : List (FrontierEntry D)} (h : remaining ctx st ≠ 0)
    (hactive : st.promote.active = first :: rest) :
    nextBatch ctx m st = (some (.single first), { st.promote with active := rest }) ∨
      ∃ entries behind, nextBatch ctx m st =
          (some (.prefetch entries), { st.promote with active := behind }) ∧
        st.promote.active = entries ++ behind ∧ entries ≠ [] ∧
        entries.length ≤ remaining ctx st ∧ ∀ entry ∈ entries, canPrefetch ctx entry = true := by
  rw [nextBatch, if_neg h]
  dsimp only
  rw [hactive]
  dsimp only
  split_ifs with hsingle
  · exact .inl rfl
  · simp only [not_or, not_eq_false] at hsingle
    obtain ⟨-, -, hfirst⟩ := hsingle
    have hremaining : remaining ctx st.promote = remaining ctx st := rfl
    rw [hremaining]
    set limit := min (m : ℕ) (remaining ctx st) with hlimit
    have hpos : 0 < limit := lt_min m.pos (Nat.pos_of_ne_zero h)
    obtain ⟨k, hk⟩ : ∃ k, limit = k + 1 := ⟨limit - 1, by omega⟩
    set entries := ((first :: rest).take limit).takeWhile (canPrefetch ctx) with hentries
    have hcons : entries = first :: (rest.take k).takeWhile (canPrefetch ctx) := by
      rw [hentries, hk, take_succ_cons, List.takeWhile_cons, if_pos hfirst]
    have hfront : entries <+: first :: rest :=
      (List.takeWhile_prefix _).trans (List.take_prefix _ _)
    have hsplit : first :: rest = entries ++ (first :: rest).drop entries.length :=
      (List.prefix_iff_eq_append.mp hfront).symm
    have hfunded : entries.length ≤ remaining ctx st := by
      have hle := (List.takeWhile_prefix (canPrefetch ctx) (l :=
        (first :: rest).take limit)).length_le
      rw [← hentries, length_take] at hle
      omega
    have hprefetch : ∀ entry ∈ entries, canPrefetch ctx entry = true :=
      fun entry hentry => List.mem_takeWhile_imp hentry
    generalize (rest.take k).takeWhile (canPrefetch ctx) = tail at hcons
    clear_value entries
    subst hcons
    cases tail with
    | nil => exact .inl rfl
    | cons =>
      exact .inr ⟨_, _, rfl, hsplit, cons_ne_nil _ _, hfunded, hprefetch⟩

section
variable (hfuel : remaining ctx st ≤ fuel) (hfuel' : remaining ctx st ≤ fuel')
include hfuel hfuel'

/-- **Loops over batches and over entries end alike.** -/
theorem runBatches_eq_ok :
    runBatches ctx m b fuel st = .ok st' ↔ runSingly ctx fuel' st = .ok st' := by
  -- by what is left of the budget
  induction hr : remaining ctx st using Nat.strong_induction_on generalizing st fuel fuel' with
  | _ r ih =>
    by_cases hzero : remaining ctx st = 0
    · rw [runBatches_of_depleted hzero, runSingly_of_depleted hzero]
    obtain ⟨fuel, rfl⟩ : ∃ f, fuel = f + 1 := ⟨fuel - 1, by omega⟩
    cases hactive : st.promote.active with
    | nil =>
      obtain ⟨fuel', rfl⟩ : ∃ f, fuel' = f + 1 := ⟨fuel' - 1, by omega⟩
      rw [runSingly_of_drained hzero hactive, runBatches, nextBatch, if_neg hzero]
      dsimp only
      rw [hactive]
    | cons =>
      rcases @nextBatch_of_active _ _ _ _ m _ _ _ hzero hactive with hbatch | hbatch
      · obtain ⟨fuel', rfl⟩ : ∃ f, fuel' = f + 1 := ⟨fuel' - 1, by omega⟩
        rw [runBatches, hbatch, runSingly_of_active hzero hactive]
        simp only [visitBatch, bind_eq_ok]
        refine exists_congr fun st₁ => and_congr_right fun hvisit => ?_
        have hleft : remaining ctx st₁ = remaining ctx st - 1 := by
          rw [remaining, visitPartition_visited hvisit, remaining]
          exact Nat.sub_add_eq _ _ _
        exact ih _ (by omega) (by omega) (by omega) rfl
      · obtain ⟨entries, _, hbatch, hsplit, hne, hfunded, hprefetch⟩ := hbatch
        have hlength := List.length_pos_of_ne_nil hne
        obtain ⟨fuel', rfl⟩ : ∃ f, fuel' = f + entries.length := ⟨fuel' - entries.length, by omega⟩
        -- the loop over entries may start from the promoted frontier
        have hpromoted : runSingly ctx (fuel' + entries.length) st =
            runSingly ctx (fuel' + entries.length) st.promote := by
          obtain ⟨k, hk⟩ : ∃ k, fuel' + entries.length = k + 1 :=
            ⟨fuel' + entries.length - 1, by omega⟩
          have hagain : st.promote.promote = st.promote :=
            promote_of_active (by rw [hactive]; exact cons_ne_nil _ _)
          rw [hk, runSingly_of_active hzero hactive,
            @runSingly_of_active _ _ _ _ st.promote _ _ hzero (by rw [hagain, hactive]), hagain]
        rw [runBatches, hbatch, hpromoted, runSingly_run hprefetch hsplit hfunded]
        simp only [visitBatch, bind_eq_ok, visitBeam_eq_ok hprefetch]
        refine exists_congr fun st₁ => and_congr_right fun hvisit => ?_
        have hleft : remaining ctx st₁ = remaining ctx st - entries.length := by
          rw [remaining, visitAll_visited hvisit, remaining]
          exact Nat.sub_add_eq _ _ _
        exact ih _ (by omega) (by omega) (by omega) rfl

/-- As many batches as the budget are enough: more of them end no other way. -/
lemma runBatches_fuel :
    runBatches ctx m b fuel st = .ok st' ↔ runBatches ctx m b fuel' st = .ok st' :=
  (runBatches_eq_ok hfuel hfuel).trans (runBatches_eq_ok hfuel' hfuel).symm

end

omit [LinearOrder D] in
lemma remaining_seed_le (ctx : VisitContext D Pool) (visitLimit : Option ℕ) :
    remaining ctx (Traversal.seed ctx visitLimit) ≤ ctx.visitedPartitions :=
  Nat.sub_le _ _

/-- **Prefetching changes nothing.**  For every snapshot, request and budget, and any
batch sizes, the traversal that prefetches funded batches returns an outcome exactly
when the traversal that visits one entry at a time returns it: the same visits in the
same order, the same bodies, candidates, counts, exhaustion and maintenance. -/
theorem traverse_eq_ok_iff (ctx : VisitContext D Pool) (metadataBatch bodyBatch : ℕ+)
    (visitLimit : Option ℕ) (outcome : TraversalOutcome Pool) :
    traverse ctx metadataBatch bodyBatch visitLimit = .ok outcome ↔
      traverseSingly ctx visitLimit = .ok outcome := by
  have hfuel := remaining_seed_le ctx visitLimit
  simp only [traverse, traverseSingly, bind_eq_ok, runBatches_eq_ok hfuel hfuel]

/-- An evaluated call returned. -/
lemma exists_ok {ε α : Type} {p : α → Bool} :
    ∀ {x : Except ε α}, x.toOption.any p = true → ∃ a, x = .ok a ∧ p a = true
  | .ok a, h => ⟨a, rfl, h⟩
  | .error _, h => nomatch h

/-- A filtered exact search of the line's tree after one of its commits. -/
def lineVisits (later visitedPartitions : ℕ) : VisitContext ℕ (List LeafEntry) where
  ix := .graphLine
  snapshot := lineHistory.getD later .empty
  trees := [lineTree]
  predicate := some ⟨.compare 0 .eq (.bool false), 1, [⟨0, .bool, false⟩]⟩
  exactRouting := true
  visitedPartitions := visitedPartitions
  leafBeam := 2
  zero := 0
  routingDistance := fun _ => .ok 0
  graphSearch := fun _ _ children beam =>
    .ok ((List.range (min beam children.length)).map fun i => (i, i))
  graphSearch_nodup := by
    rintro _ _ children beam _ ⟨⟩
    simpa [Function.comp_def] using List.nodup_range
  pool := ⟨[], fun pool entries _ _ => .ok (pool ++ entries), .ok⟩
  admits := fun _ _ _ _ _ => true

theorem traverse_eq_ok_iff_line : ∃ outcome, traverse (lineVisits 8 1) 2 2 none = .ok outcome ∧
    traverseSingly (lineVisits 8 1) none = .ok outcome ∧ outcome.candidates.length = 3 := by
  obtain ⟨outcome, hok, hlength⟩ := @exists_ok _ _ (fun outcome => outcome.candidates.length == 3)
    (traverseSingly (lineVisits 8 1) none) (by decide +kernel)
  exact ⟨outcome, (traverse_eq_ok_iff _ 2 2 none outcome).mpr hok, hok, beq_iff_eq.mp hlength⟩

end

end Traverse
