/-
Graphs along a run.

A graph step is planned on committed stores and committed on a later one.  The plan's
bodies are protected by their Headers and descriptors, so the step leaves exactly the
children its graphs were built for.

* `PlannedFor`, `PreparedFor` — a body as it was read and edited, and its graph;
* `Changed` — a store whose children are edited in the same way;
* `matches_graphApply`, `matches_publishGraphCentroids` — the two transactions keep
  every graph matching its partition;
* `run_graphs_match` — **in every run of a graph index, the stored graph of every
  partition is that of its current body**.
-/
import Ktann.Committed.GraphBodies
import Ktann.Committed.Occupancy

open BodyPlan (read_ok add_source remove_source foldlM_source)
open OrderedMap (lookup_empty)
open LogicalKey (partitionRange)
open List (foldlM_nil)

open TxnM WriteTxn

section

variable {ix : Index} {g : LocalGraph} {S B M C : Store} {t : TreeKey} {p : PartitionKey}
  {h : PartitionHeader} {s s' : Txn ValueOf} {body body' : BodyPlan}

/-- Every stored graph is that of its body. -/
abbrev AllMatch (g : LocalGraph) (S : Store) : Prop := ∀ t p, GraphMatches g S t p

/-! ### Planned bodies -/

/-- A body that was read from `S`. -/
structure ReadFrom (S : Store) (t : TreeKey) (body : BodyPlan) : Prop where
  treeKey : body.treeKey = t
  nodes : body.sourceChildren.length = BodyPlan.graphNodes body.sourceHeader
  header : body.sourceHeader = S.header t body.partition
  descriptor : body.sourceDescriptor = S.graphDescriptor t body.partition
  children : body.sourceChildren = S.childEntries t body.partition

def BodyPlan.Holds (body : BodyPlan) (f : PartitionKey → Option ChildEntry) : Prop :=
  Enumerates ChildEntry.child f body.children

/-- A change of a partition's children. -/
abbrev ChildEdit := (PartitionKey → Option ChildEntry) → PartitionKey → Option ChildEntry

/-- A body of `q` read from `S`, its children changed by `edit`. -/
structure PlannedFor (S : Store) (t : TreeKey) (q : PartitionKey) (edit : ChildEdit)
    (body : BodyPlan) : Prop where
  partition : body.partition = q
  read : ReadFrom S t body
  holds : body.Holds (edit (S.childEntry t q))

lemma BodyPlan.read_spec (hS : Coherent ix S) (hok : BodyPlan.read ix S t p = .ok body) :
    PlannedFor S t p id body := by
  have hbody := read_ok hok
  rw [BodyPlan.read] at hok
  split_ifs at hok with hinvalid
  simp only [not_or, not_not] at hinvalid
  rw [hbody]
  exact ⟨rfl, ⟨rfl, hinvalid.2.2.1, rfl, rfl, rfl⟩, hS.ownChildren.enumerates⟩

lemma ReadFrom.of_source (hbody : ReadFrom S t body) (hsame : body.SameSource body') :
    ReadFrom S t body' where
  treeKey := hsame.treeKey.trans hbody.treeKey
  nodes := by rw [hsame.children, hsame.header, hbody.nodes]
  header := by rw [hsame.header, hsame.partition, hbody.header]
  descriptor := by rw [hsame.descriptor, hsame.partition, hbody.descriptor]
  children := by rw [hsame.children, hsame.partition, hbody.children]

variable {q c : PartitionKey} {f : PartitionKey → Option ChildEntry} {edit edit' : ChildEdit}
  {moves : List (ChildEntry × PartitionKey)}

lemma PlannedFor.of_source (hbody : PlannedFor S t q edit body) (hsame : body.SameSource body')
    (hf : body'.Holds (edit' (S.childEntry t q))) : PlannedFor S t q edit' body' :=
  ⟨hsame.partition.trans hbody.partition, hbody.read.of_source hsame, hf⟩

lemma PlannedFor.with_header {k : Option PartitionHeader} (hbody : PlannedFor S t q edit body) :
    PlannedFor S t q edit { body with header := k } :=
  hbody.of_source ⟨rfl, rfl, rfl, rfl, rfl⟩ hbody.holds

variable {v : VectorData}

lemma BodyPlan.add_holds (hf : body.Holds f) (hok : body.add c v = .ok body') :
    body'.Holds (update f c (some ⟨c, v⟩)) ∧ ∃ h, body.header = some h := by
  rw [BodyPlan.add] at hok
  split_ifs at hok with hany
  obtain ⟨h, hheader, hok⟩ := bind_eq_ok.mp hok
  cases hok
  simp only [List.any_eq_true, decide_eq_true_eq, not_exists, not_and] at hany
  refine ⟨hf.insert (a := ⟨c, v⟩) (hf.none_iff.mpr hany), ?_⟩
  cases hh : body.header with
  | none => rw [hh] at hheader; cases hheader
  | some h => exact ⟨h, rfl⟩

lemma BodyPlan.remove_holds (hf : body.Holds f) (hok : body.remove c = .ok body') :
    body'.Holds (update f c none) ∧ ∃ h, body.header = some h := by
  rw [BodyPlan.remove] at hok
  split_ifs at hok
  obtain ⟨h, hheader, hok⟩ := bind_eq_ok.mp hok
  cases hok
  refine ⟨hf.erase c, ?_⟩
  cases hh : body.header with
  | none => rw [hh] at hheader; cases hheader
  | some h => exact ⟨h, rfl⟩

open BodyPlan (read_spec add_holds remove_holds)

lemma BodyPlan.recenter_holds (hf : body.Holds f) (hok : body.recenter c v = .ok body') :
    body'.Holds (update f c (some ⟨c, v⟩)) ∧ body.SameSource body' := by
  rw [BodyPlan.recenter] at hok
  split at hok
  · rename_i header entry hheader hfind
    have hmem := List.mem_of_find?_eq_some hfind
    have hchild : entry.child = c := by simpa using List.find?_some hfind
    have hc : f c = some entry := hf.mem.mpr ⟨hmem, hchild⟩
    split_ifs at hok with hsame
    · cases hok
      have heq : entry = ⟨c, v⟩ := by
        cases entry
        simp_all
      refine ⟨?_, rfl, rfl, rfl, rfl, rfl⟩
      rw [← heq, ← hc, Function.update_eq_self]
      exact hf
    · obtain ⟨_, -, hok⟩ := bind_eq_ok.mp hok
      cases hok
      refine ⟨hf.replace (a := ⟨c, v⟩) ?_, rfl, rfl, rfl, rfl, rfl⟩
      rw [hc]
      simp
  · cases hok

/-- Children added one after the other. -/
def putEntries (f : PartitionKey → Option ChildEntry) (entries : List ChildEntry) :
    PartitionKey → Option ChildEntry :=
  entries.foldl (fun f e => update f e.child (some e)) f

/-- Children removed one after the other. -/
def eraseEntries (f : PartitionKey → Option ChildEntry) (entries : List ChildEntry) :
    PartitionKey → Option ChildEntry :=
  entries.foldl (fun f e => update f e.child none) f

lemma BodyPlan.addAll_holds :
    ∀ {body : BodyPlan} {f : PartitionKey → Option ChildEntry}, body.Holds f →
      moves.foldlM (fun body m => body.add m.1.child m.1.centroid) body = .ok body' →
      body'.Holds (putEntries f (moves.map Prod.fst)) := by
  induction moves with
  | nil =>
    intro body f hf hok
    rw [foldlM_nil, pure_eq_ok] at hok
    exact hok ▸ hf
  | cons m _ ih =>
    intro _ f hf hok
    rw [foldlM_cons, bind_eq_ok] at hok
    obtain ⟨_, hone, hrest⟩ := hok
    exact ih (add_holds hf hone).1 hrest

lemma BodyPlan.removeAll_holds :
    ∀ {body : BodyPlan} {f : PartitionKey → Option ChildEntry}, body.Holds f →
      moves.foldlM (fun body m => body.remove m.1.child) body = .ok body' →
      body'.Holds (eraseEntries f (moves.map Prod.fst)) := by
  induction moves with
  | nil =>
    intro body f hf hok
    rw [foldlM_nil, pure_eq_ok] at hok
    exact hok ▸ hf
  | cons m _ ih =>
    intro _ f hf hok
    rw [foldlM_cons, bind_eq_ok] at hok
    obtain ⟨_, hone, hrest⟩ := hok
    exact ih (remove_holds hf hone).1 hrest

/-- The children of `q` are changed by `edit`, its graph records are not. -/
structure Changed (S S' : Store) (t : TreeKey) (q : PartitionKey) (edit : ChildEdit) : Prop where
  child : ∀ c, S'.childEntry t q c = edit (S.childEntry t q) c
  descriptor : S'.graphDescriptor t q = S.graphDescriptor t q
  chunk : ∀ n, S'.graphChunk t q n = S.graphChunk t q n

lemma SameGraph.changed (hsame : SameGraph S M t q) : Changed S M t q id :=
  ⟨hsame.child, hsame.descriptor, hsame.chunk⟩

lemma Changed.of_same (hchanged : Changed B M t q edit) (hsame : SameGraph S B t q) :
    Changed S M t q edit where
  child c := by rw [hchanged.child, funext hsame.child]
  descriptor := hchanged.descriptor.trans hsame.descriptor
  chunk n := (hchanged.chunk n).trans (hsame.chunk n)

/-- A graph prepared for a body of `q` read from `S`, its children changed by `edit`. -/
def PreparedFor (build : GraphBuilder) (S : Store) (t : TreeKey) (q : PartitionKey)
    (edit : ChildEdit) (graph : PreparedGraphTransition) : Prop :=
  ∃ body, prepare build body = .ok graph ∧ PlannedFor S t q edit body

section

variable {build : GraphBuilder} {graph : PreparedGraphTransition}
  {graphs : List PreparedGraphTransition}

section
variable (hgraph : PreparedFor build S t q edit graph)
include hgraph

lemma PreparedFor.name : graph.partition = q := by
  obtain ⟨_, hprepare, hbody⟩ := hgraph
  exact (prepare_source hprepare).1.trans hbody.partition

lemma PreparedFor.header_eq (hfresh : Fresh B t graphs) (hmem : graph ∈ graphs)
    : B.header t q = S.header t q := by
  obtain ⟨_, hprepare, rfl, hread, -⟩ := hgraph
  obtain ⟨hpartition, hheader, -⟩ := prepare_source hprepare
  rw [← hread.header, ← hheader, ← hpartition]
  exact (hfresh graph hmem).1

end

lemma PreparedFor.planned (hgraph : PreparedFor g.build S t q edit graph) (hev : Evolves S B)
    (hM : Coherent ix M) (hh : S.header t q = some h) (hfresh : Fresh B t graphs)
    (hmem : graph ∈ graphs) (hchanged : Changed B M t q edit) :
    ∃ body, prepare g.build body = .ok graph ∧ Planned g t B M body := by
  have hheader := hgraph.header_eq hfresh hmem
  obtain ⟨body, hprepare, rfl, hread, hholds⟩ := hgraph
  obtain ⟨hpartition, -, hdescriptor⟩ := prepare_source hprepare
  -- the children are the ones read, since the header still is
  have hsame : ∀ c, B.childEntry t body.partition c = S.childEntry t body.partition c :=
    (((hev.grown hh (hheader.trans hh)).same rfl).2).child
  exact ⟨body, hprepare, {
    treeKey := hread.treeKey
    sourceNodes := hread.nodes
    sourceHeader := hheader.trans hread.header.symm
    sourceDescriptor := by rw [← hdescriptor, ← hpartition, (hfresh graph hmem).2]
    sourceChildren := by rw [hread.children, childEntries_congr hsame]
    children := by
      refine (hM.ownChildren.enumerates.congr fun c => ?_).eq hholds
      rw [hchanged.child, funext hsame]
    descriptor := hchanged.descriptor
    chunk := hchanged.chunk }⟩

end

/-- A parent takes the two targets of a split. -/
abbrev adopts (targets : SplitPair) (a b : VectorData) : ChildEdit :=
  (putEntries · [⟨targets.left, a⟩, ⟨targets.right, b⟩])

/-! ### What each plan fixes -/

section

variable {build : GraphBuilder} {plan : GraphPlan} {level : ℕ} {a b : VectorData}
  {targets : SplitPair} {parent : PartitionKey}

lemma planParent_some {parent : PartitionKey × IncomingEdgeProof}
    (hok : planParent S t p level = .ok (some parent)) : p ≠ rootPartition := by
  rw [planParent] at hok
  split_ifs at hok with hroot
  · cases hok
  · exact hroot

lemma exposeBody_spec {later : Store} (hS : Coherent ix later)
    (hok : exposeBody ix later t p parent targets a b = .ok (some body)) :
    PlannedFor later t parent (adopts targets a b) body ∧ ∃ h, later.header t parent = some h := by
  rw [exposeBody] at hok
  split_ifs at hok
  · cases hok
  obtain ⟨_, hread, hok⟩ := bind_eq_ok.mp hok
  have hbody := read_spec hS hread
  obtain ⟨header, hheader, hok⟩ := bind_eq_ok.mp hok
  split_ifs at hok
  · obtain ⟨_, hleft, hok⟩ := bind_eq_ok.mp hok
    obtain ⟨_, hright, hok⟩ := bind_eq_ok.mp hok
    cases hok
    obtain ⟨hholds, h, hh⟩ := add_holds hbody.holds hleft
    rw [read_ok hread] at hh
    exact ⟨hbody.of_source ((add_source hleft).trans (add_source hright))
      (add_holds hholds hright).1, h, hh⟩
  · cases hok

lemma planExpose_spec {later : Store} (hS : Coherent ix later)
    (hok : planExpose ix build S later t p level targets a b = .ok (some plan)) :
    (p = rootPartition ∧ plan.graphs = []) ∨
      (p ≠ rootPartition ∧ ∃ parent graph h, plan.parent.map Prod.fst = some parent ∧
        plan.graphs = [graph] ∧ PreparedFor build later t parent (adopts targets a b) graph ∧
        later.header t parent = some h) := by
  simp only [planExpose, bind_eq_ok] at hok
  obtain ⟨parent, hparent, hok⟩ := hok
  cases parent with
  | none =>
    dsimp only at hok
    split_ifs at hok with hroot
    · cases hok
      exact .inl ⟨hroot, rfl⟩
    · cases hok
  | some parent =>
    obtain ⟨body, hbody, hok⟩ := bind_eq_ok.mp hok
    cases body with
    | none => cases hok
    | some body =>
      obtain ⟨graph, hgraph, hok⟩ := bind_eq_ok.mp hok
      cases hok
      obtain ⟨hplanned, h, hh⟩ := exposeBody_spec hS hbody
      exact .inr ⟨planParent_some hparent, parent.1, graph, h, rfl, rfl,
        ⟨body, hgraph, hplanned⟩, hh⟩

lemma promotedBody_spec (hS : Coherent ix S) (hok : promotedBody ix S t targets = .ok body) :
    (∃ a b, S.centroid t targets.left = some a ∧ S.centroid t targets.right = some b ∧
        PlannedFor S t rootPartition (adopts targets a b) body) ∧
      ∃ h, S.header t rootPartition = some h := by
  simp only [promotedBody, bind_eq_ok] at hok
  obtain ⟨_, hread, a, ha, _, hleft, b, hb, body₂, hright, header, -, hok⟩ := hok
  cases hok
  have hbody := read_spec hS hread
  obtain ⟨hholds, h, hh⟩ := add_holds hbody.holds hleft
  have hplanned : PlannedFor S t rootPartition (adopts targets a b) body₂ :=
    hbody.of_source ((add_source hleft).trans (add_source hright))
      (add_holds hholds hright).1
  have hcentroid {q : PartitionKey} {v : VectorData} (hv : planCentroid S t q = .ok v) :
      S.centroid t q = some v := by
    rw [planCentroid] at hv
    cases hc : S.centroid t q with
    | none => rw [hc] at hv; cases hv
    | some _ => rw [hc] at hv; cases hv; rfl
  rw [read_ok hread] at hh
  exact ⟨⟨a, b, hcentroid ha, hcentroid hb, hplanned.with_header⟩, h, hh⟩

lemma removedBodies_spec {bodies : List BodyPlan} (hS : Coherent ix S)
    (hok : removedBodies ix S t p parent = .ok bodies) : ∃ body source, bodies = [body, source] ∧
      PlannedFor S t parent (eraseEntries · [⟨p, []⟩]) body ∧ (∃ h, S.header t parent = some h) ∧
      PlannedFor S t p id source := by
  simp only [removedBodies, bind_eq_ok] at hok
  obtain ⟨_, hread, body, hremove, _, hsource, hok⟩ := hok
  cases hok
  have hbody := read_spec hS hread
  obtain ⟨hholds, h, hh⟩ := remove_holds hbody.holds hremove
  rw [read_ok hread] at hh
  exact ⟨body, _, rfl, hbody.of_source (remove_source hremove) hholds, ⟨h, hh⟩,
    (read_spec hS hsource).with_header⟩

lemma planComplete_spec {edit : GraphEdit} {known : Option SplitPair} (hS : Coherent ix S)
    (hok : planComplete ix build S t p level edit known = .ok (some plan)) :
    (p = rootPartition ∧ ∃ targets graph a b h, known = some targets ∧ plan.graphs = [graph] ∧
        S.centroid t targets.left = some a ∧ S.centroid t targets.right = some b ∧
        PreparedFor build S t rootPartition (adopts targets a b) graph ∧
        S.header t rootPartition = some h) ∨
      (p ≠ rootPartition ∧ ∃ parent graph graph' h, plan.parent.map Prod.fst = some parent ∧
        plan.graphs = [graph, graph'] ∧
        PreparedFor build S t parent (eraseEntries · [⟨p, []⟩]) graph ∧
        S.header t parent = some h ∧ PreparedFor build S t p id graph') := by
  simp only [planComplete, bind_eq_ok] at hok
  obtain ⟨parent, hparent, hok⟩ := hok
  cases parent with
  | some parent =>
    simp only [bind_eq_ok] at hok
    obtain ⟨_, hbodies, _, hgraphs, hok⟩ := hok
    cases hok
    obtain ⟨body, source, rfl, hbody, ⟨h, hh⟩, hsource⟩ := removedBodies_spec hS hbodies
    obtain ⟨graph, _, hgraph, hrest, rfl⟩ :=
      List.forall₂_cons_left_iff.mp (mapM_eq_ok.mp hgraphs)
    obtain ⟨graph', _, hgraph', hrest', rfl⟩ := List.forall₂_cons_left_iff.mp hrest
    cases hrest'
    exact .inr ⟨planParent_some hparent, parent.1, graph, graph', h, rfl, rfl,
      ⟨body, hgraph, hbody⟩, hh, source, hgraph', hsource⟩
  | none =>
    cases known with
    | none => cases hok
    | some targets =>
      dsimp only at hok
      split_ifs at hok with hroot
      · simp only [bind_eq_ok] at hok
        obtain ⟨body, hbody, graph, hgraph, hok⟩ := hok
        cases hok
        obtain ⟨⟨a, b, ha, hb, hplanned⟩, h, hh⟩ := promotedBody_spec hS hbody
        exact .inl ⟨hroot, targets, graph, a, b, h, rfl, rfl, ha, hb, ⟨body, hgraph, hplanned⟩, hh⟩
      · cases hok

lemma drainBodies_spec {receiver : BodyPlan}
    (hS : Coherent ix S) (hok : drainBodies ix S t p moves = .ok (body, receiver)) :
    ∃ target h k, moves.head?.map Prod.snd = some target ∧
      PlannedFor S t p (eraseEntries · (moves.map Prod.fst)) body ∧ S.header t p = some h ∧
      PlannedFor S t target (putEntries · (moves.map Prod.fst)) receiver ∧
      S.header t target = some k := by
  simp only [drainBodies, bind_eq_ok] at hok
  obtain ⟨receiver₀, hreceiver, _, hadd, body₀, hread, _, hremove, hok⟩ := hok
  cases hok
  cases moves with
  | nil => cases hreceiver
  | cons m =>
    have hbody := read_spec hS hread
    have hreceived := read_spec hS hreceiver
    obtain ⟨h, hh⟩ : ∃ h, body₀.header = some h := by
      rw [foldlM_cons, bind_eq_ok] at hremove
      obtain ⟨_, hone, -⟩ := hremove
      exact (remove_holds hbody.holds hone).2
    obtain ⟨k, hk⟩ : ∃ k, receiver₀.header = some k := by
      rw [foldlM_cons, bind_eq_ok] at hadd
      obtain ⟨_, hone, -⟩ := hadd
      exact (add_holds hreceived.holds hone).2
    rw [read_ok hread] at hh
    rw [read_ok hreceiver] at hk
    exact ⟨m.2, h, k, rfl, hbody.of_source (foldlM_source (fun h => remove_source h) hremove)
      (BodyPlan.removeAll_holds hbody.holds hremove), hh,
      hreceived.of_source (foldlM_source (fun h => add_source h) hadd)
        (BodyPlan.addAll_holds hreceived.holds hadd), hk⟩

end

/-! ### What each step leaves -/

section

variable {S' : Store} {t' : TreeKey} {q parent : PartitionKey}

variable {k : PartitionHeader} {n : ℕ} {removal : SourceRemoval} {source : PartitionKey}
  {receiver : PartitionKey}

section

attribute [local simp] putChild eraseChild Store.promoteRoot partitionRange

lemma sameGraph_putChild {e : ChildEntry} (hne : ¬ (t' = t ∧ q = p)) :
    SameGraph S (S.putChild t p e k) t' q := by
  refine ⟨graphHead_congr (by simp [hne]), fun c => ?_, by simp, fun n => by simp⟩
  have hne' : ¬ (t' = t ∧ q = p ∧ c = e.child) := fun h => hne ⟨h.1, h.2.1⟩
  simp [hne']

lemma sameGraph_eraseChild (hne : ¬ (t' = t ∧ q = p)) :
    SameGraph S (S.eraseChild t p c k) t' q := by
  refine ⟨graphHead_congr (by simp [hne]), fun c' => ?_, by simp, fun n => by simp⟩
  have hne' : ¬ (t' = t ∧ q = p ∧ c' = c) := fun h => hne ⟨h.1, h.2.1⟩
  simp [hne']

lemma sameGraph_promoteRoot {l r : ChildEntry} (hne : ¬ (t' = t ∧ q = rootPartition)) :
    SameGraph S (S.promoteRoot t l r k n) t' q := by
  refine ⟨graphHead_congr (by simp [hne]), fun c => ?_, by simp, fun n => by simp⟩
  have hne' : ∀ c', ¬ (t' = t ∧ q = rootPartition ∧ c = c') := fun c' h => hne ⟨h.1, h.2.1⟩
  simp [hne']

lemma lookup_removeSource {k : LogicalKey} (hk : partitionRange t p k = false) :
    (S.removeSource t p removal).lookup k = S.lookup k := by
  cases removal with
  | transactionalClear => simp [removeSource, lookup_clear, hk, -partitionRange]
  | pointDeletes =>
    simp only [removeSource, removePartition, lookup_erase]
    have hne : ∀ k', partitionRange t p k' = true → k ≠ k' := by
      rintro _ hk' rfl
      rw [hk] at hk'
      cases hk'
    rw [if_neg (hne _ (by simp)), if_neg (hne _ (by simp)), if_neg (hne _ (by simp)),
      if_neg (hne _ (by simp))]

lemma sameGraph_removeSource (hne : ¬ (t' = t ∧ q = p)) :
    SameGraph S (S.removeSource t p removal) t' q := by
  have hkeep {k : LogicalKey} (hk : partitionRange t p k =
      (decide (t' = t) && decide (q = p))) : (S.removeSource t p removal).lookup k = S.lookup k :=
    lookup_removeSource (by rw [hk]; simpa using hne)
  exact ⟨graphHead_congr (hkeep rfl), fun c => hkeep rfl, hkeep rfl, fun n => hkeep rfl⟩

lemma sameGraph_removed (hhead : S.graphHead t p = none) (hchild : ∀ c, S.childEntry t p c = none)
    (hdescriptor : S.graphDescriptor t p = none) (hchunk : ∀ n, S.graphChunk t p n = none) :
    SameGraph S (S.removeSource t p removal) t p := by
  have hheader : (S.removeSource t p removal).header t p = none := by
    cases removal with
    | transactionalClear =>
      exact (lookup_clear _ _ _).trans (if_pos (by simp))
    | pointDeletes => simp [removeSource, removePartition]
  have hnone {k : LogicalKey} (hk : S.lookup k = none) :
      (S.removeSource t p removal).lookup k = none := by
    cases removal with
    | transactionalClear =>
      rw [removeSource, lookup_clear, hk]
      split_ifs <;> rfl
    | pointDeletes =>
      simp only [removeSource, removePartition, lookup_erase, hk]
      split_ifs <;> rfl
  exact ⟨(graphHead_absent hheader).trans hhead.symm,
    fun c => (hnone (hchild c)).trans (hchild c).symm, (hnone hdescriptor).trans hdescriptor.symm,
    fun n => (hnone (hchunk n)).trans (hchunk n).symm⟩

lemma Exposed.spec {targets : SplitPair} {a b : VectorData} {known : Option PartitionKey}
    (hS : Coherent ix S) (hexposed : Exposed ix t p targets a b n known S S') :
    (p = rootPartition ∧ ∀ t' q, SameGraph S S' t' q) ∨
      (p ≠ rootPartition ∧ ∃ parent, (∀ q ∈ known, q = parent) ∧
        (∀ {t' q}, ¬ (t' = t ∧ q = parent) → SameGraph S S' t' q) ∧
        Changed S S' t parent (adopts targets a b)) := by
  cases hexposed with
  | root isRoot header state =>
    subst isRoot
    exact .inl ⟨rfl, (leafEffect_exposeRoot header state).sameGraph hS⟩
  | @child parent h k k' k'' began notRoot found header state edge parentHeader level accepts once
      twice =>
    obtain ⟨hl, hr⟩ := hS.targets_absent state
    have hparent := hS.parent_ne header edge
    have hcreated : ∀ t' q, SameGraph S ((S.createTarget ix t p h targets.left a n).createTarget ix
        t p h targets.right b n) t' q := fun t' q =>
      (sameGraph_createTarget hl).trans (sameGraph_createTarget (by
        rw [header_createTarget, if_neg (by simp [targets.ne.symm]), hr]))
    have hheader : ((((S.createTarget ix t p h targets.left a n).createTarget ix t p h targets.right
        b n).putChild t parent ⟨targets.left, a⟩ k').putChild t parent ⟨targets.right, b⟩
          k'').header t p = some h := by
      have hpl : p ≠ targets.left := by
        rintro rfl
        cases hl.symm.trans header
      have hpr : p ≠ targets.right := by
        rintro rfl
        cases hr.symm.trans header
      simp [hparent.symm, header_createTarget, hpl, hpr, header]
    refine .inr ⟨notRoot, parent, found, fun {t' q} hne => ?_, fun c => ?_, ?_, fun m => ?_⟩
    · exact (((hcreated t' q).trans (sameGraph_putChild hne)).trans (sameGraph_putChild hne)).trans
        (sameGraph_restate hheader)
    · rw [(sameGraph_restate hheader).child]
      simp only [putChild, Store.childEntry_put, true_and, putEntries, foldl_cons,
        List.foldl_nil, update_apply, (hcreated t parent).child]
    · rw [(sameGraph_restate hheader).descriptor]
      simp only [putChild, Store.graphDescriptor_put, (hcreated t parent).descriptor]
    · rw [(sameGraph_restate hheader).chunk]
      simp only [putChild, Store.graphChunk_put, (hcreated t parent).chunk]

lemma promoted_spec {targets : SplitPair} {left right : PartitionHeader} {a b : VectorData}
    (leftHeader : S.header t targets.left = some left)
    (rightHeader : S.header t targets.right = some right)
    (hS' : S' = ((S.restate t targets.left left (.ready n)).restate t targets.right right
      (.ready n)).promoteRoot t ⟨targets.left, a⟩ ⟨targets.right, b⟩ k n) :
    (∀ {t' q}, ¬ (t' = t ∧ q = rootPartition) → SameGraph S S' t' q) ∧
      Changed S S' t rootPartition (adopts targets a b) := by
  subst hS'
  have hready : ∀ t' q, SameGraph S ((S.restate t targets.left left (.ready n)).restate t
      targets.right right (.ready n)) t' q := fun t' q =>
    (sameGraph_restate leftHeader).trans (sameGraph_restate (by
      simpa [restate, targets.ne.symm] using rightHeader))
  refine ⟨fun hne => (hready _ _).trans (sameGraph_promoteRoot hne), fun c => ?_, ?_, fun m => ?_⟩
  · simp [putEntries, update_apply, (hready t rootPartition).child]
  · simp [(hready t rootPartition).descriptor]
  · simp [(hready t rootPartition).chunk]

lemma removed_spec {k' : PartitionHeader} (hne : parent ≠ p)
    (hS' : S' = (S.eraseChild t parent p k').removeSource t p removal) :
    (∀ {t' q}, ¬ (t' = t ∧ (q = parent ∨ q = p)) → SameGraph S S' t' q) ∧
      Changed S S' t parent (eraseEntries · [⟨p, []⟩]) := by
  subst hS'
  have hremove : SameGraph (S.eraseChild t parent p k')
      ((S.eraseChild t parent p k').removeSource t p removal) t parent :=
    sameGraph_removeSource (by simpa using hne)
  refine ⟨fun {t' q} hne' => ?_, fun c => ?_, ?_, fun m => ?_⟩
  · exact (sameGraph_eraseChild fun h => hne' ⟨h.1, .inl h.2⟩).trans
      (sameGraph_removeSource fun h => hne' ⟨h.1, .inr h.2⟩)
  · rw [hremove.child]
    simp [eraseEntries, update_apply]
  · rw [hremove.descriptor]
    simp
  · rw [hremove.chunk]
    simp

end

lemma lookup_moveChildren {k : LogicalKey} : ∀ {S : Store}, (∀ c, k ≠ .childEntry t source c) →
      (∀ m ∈ moves, ∀ c, k ≠ .childEntry t m.2 c) →
      (moveChildren t source S moves).lookup k = S.lookup k := by
  induction moves with
  | nil => exact fun _ _ => rfl
  | cons m _ ih =>
    intro S hsource htargets
    refine (ih hsource fun m' hm' => htargets m' (mem_cons_of_mem _ hm')).trans ?_
    rw [lookup_erase_ne _ (hsource _), lookup_put_ne _ _ (htargets m mem_cons_self _)]

lemma moveChildren_receiver (hne : receiver ≠ source) :
    ∀ {S : Store}, (∀ m ∈ moves, m.2 = receiver) →
      Store.childEntry (moveChildren t source S moves) t receiver =
        putEntries (S.childEntry t receiver) (moves.map Prod.fst) := by
  induction moves with
  | nil => exact fun _ => rfl
  | cons m _ ih =>
    intro S hall
    refine (ih fun m' hm' => hall m' (mem_cons_of_mem _ hm')).trans ?_
    rw [map_cons, putEntries, putEntries, foldl_cons]
    congr 1
    funext c
    simp [hall m mem_cons_self, hne, update_apply]

lemma moveChildren_source : ∀ {S : Store}, (∀ m ∈ moves, m.2 ≠ source) →
      Store.childEntry (moveChildren t source S moves) t source =
        eraseEntries (S.childEntry t source) (moves.map Prod.fst) := by
  induction moves with
  | nil => exact fun _ => rfl
  | cons m _ ih =>
    intro S hall
    refine (ih fun m' hm' => hall m' (mem_cons_of_mem _ hm')).trans ?_
    rw [map_cons, eraseEntries, eraseEntries, foldl_cons]
    congr 1
    funext c
    simp [(hall m mem_cons_self).symm, update_apply]

lemma MovedHeaders.spec {h' : PartitionHeader} (hmoved : MovedHeaders t source moves S S' h')
    (hne : receiver ≠ source) (hall : ∀ m ∈ moves, m.2 = receiver) :
    (∀ {t' q}, ¬ (t' = t ∧ (q = source ∨ q = receiver)) → SameGraph S S' t' q) ∧
      Changed S S' t source (eraseEntries · (moves.map Prod.fst)) ∧
      Changed S S' t receiver (putEntries · (moves.map Prod.fst)) := by
  have hkeep {k : LogicalKey} (hheader : ∀ p, k ≠ .header t p)
      (hchild : ∀ c, k ≠ .childEntry t source c ∧ k ≠ .childEntry t receiver c) :
      S'.lookup k = S.lookup k := by
    rw [hmoved.other hheader]
    exact lookup_moveChildren (fun c => (hchild c).1) fun m hm c => hall m hm ▸ (hchild c).2
  refine ⟨fun {t' q} hq => ?_, ⟨fun c => ?source, ?_, fun n => ?_⟩, fun c => ?receiver, ?_,
    fun n => ?_⟩
  · have hheader : S'.header t' q = S.header t' q := by
      by_cases ht : t' = t
      · subst ht
        have hqs : q ≠ source := fun h => hq ⟨rfl, .inl h⟩
        cases hh : S.header t' q with
        | none => exact hmoved.absent hqs hh
        | some k =>
          obtain ⟨_, hk', hheader⟩ := hmoved.target hqs hh
          have hcount : (moves.countP fun m => m.2 = q) = 0 := by
            rw [List.countP_eq_zero]
            intro m hm hmq
            exact hq ⟨rfl, .inr ((of_decide_eq_true hmq).symm.trans (hall m hm))⟩
          rw [hcount] at hk'
          cases hk'
          exact hheader
      · exact hkeep (by simp [ht]) (by simp)
    refine ⟨graphHead_congr hheader, fun c => hkeep (by simp) fun c' => ?_,
      hkeep (by simp) (by simp), fun n => hkeep (by simp) (by simp)⟩
    constructor <;> intro heq <;> cases heq
    · exact hq ⟨rfl, .inl rfl⟩
    · exact hq ⟨rfl, .inr rfl⟩
  case source =>
    have hsource : Store.childEntry (moveChildren t source S moves) t source = _ :=
      moveChildren_source fun m hm => hall m hm ▸ hne
    exact (hmoved.other (by simp)).trans (congrFun hsource c)
  case receiver =>
    have hreceiver := moveChildren_receiver (t := t) (S := S) hne hall
    exact (hmoved.other (by simp)).trans (congrFun hreceiver c)
  all_goals exact hkeep (by simp) (by simp)

end

/-! ### Committing a plan -/

section

variable {later : Store} {plan : GraphPlan} {a b : VectorData} {now : ℕ} {removal : SourceRemoval}
  {advance : GraphAdvance} {targets : SplitPair} {s₁ s₂ : Txn ValueOf} {u : Unit}

lemma SplitPair.ext_keys {pair pair' : SplitPair} (hleft : pair.left = pair'.left)
    (hright : pair.right = pair'.right) : pair = pair' := by
  cases pair
  cases pair'
  simp_all

variable {graph : PreparedGraphTransition} {build : GraphBuilder} {level n : ℕ}
  {known : Option PartitionKey} {parent : PartitionKey} {updates : List (PartitionKey × VectorData)}

lemma matches_publishOne (hev : Evolves S (s.onto C)) (hM : Coherent ix (s₁.onto C))
    (hB : AllMatch g (s.onto C)) (hgraph : PreparedFor g.build S t q edit graph)
    (hh : S.header t q = some h) (hfresh : Fresh (s.onto C) t [graph])
    (hsame : ∀ {t' q'}, ¬ (t' = t ∧ q' = q) → SameGraph (s.onto C) (s₁.onto C) t' q')
    (hchanged : Changed (s.onto C) (s₁.onto C) t q edit)
    (hpublish : Runs C (publishBatch t [graph]) s₁ u s₂) : AllMatch g (s₂.onto C) := by
  refine matches_publishBatch hB (by simp) ?_ (fun {t' q'} hne => hsame ?_) hpublish
  · intro _ hgraph'
    cases mem_singleton.mp hgraph'
    exact hgraph.planned hev hM hh hfresh mem_cons_self hchanged
  · rintro ⟨rfl, rfl⟩
    exact hne rfl graph mem_cons_self hgraph.name

lemma matches_remove {B' : Store} {k k' : PartitionHeader} {graph' : PreparedGraphTransition}
    (hev : Evolves S (s.onto C)) (hcoherent : Coherent ix (s.onto C)) (hM : Coherent ix (s₁.onto C))
    (hB : AllMatch g (s.onto C))
    (hgraph : PreparedFor g.build S t parent (eraseEntries · [⟨p, []⟩]) graph)
    (hh : S.header t parent = some h) (hgraph' : PreparedFor g.build S t p id graph')
    (hfresh : Fresh (s.onto C) t [graph, graph']) (header : Store.header (s.onto C) t p = some k)
    (drained : k.entryCount = 0) (edge : Store.childEntry (s.onto C) t parent p ≠ none)
    (hready : ∀ t p, SameGraph (s.onto C) B' t p)
    (hfinished : s₁.onto C = (B'.eraseChild t parent p k').removeSource t p removal)
    (hpublish : Runs C (publishBatch t [graph, graph']) s₁ u s₂) : AllMatch g (s₂.onto C) := by
  have hne := hcoherent.parent_ne header edge
  obtain ⟨hsame, hchanged⟩ := removed_spec hne hfinished
  have hmem' : graph' ∈ [graph, graph'] := mem_cons_of_mem _ mem_cons_self
  refine matches_publishBatch hB (by simpa [hgraph.name, hgraph'.name] using hne) ?_
    (fun {t' q} hother => (hready _ _).trans (hsame ?_)) hpublish
  · intro _ hgraph₁
    rcases mem_cons.mp hgraph₁ with rfl | hgraph₁
    · exact hgraph.planned hev hM hh hfresh mem_cons_self (hchanged.of_same (hready _ _))
    · cases mem_singleton.mp hgraph₁
      -- the drained source has no entry and no graph record, before and after
      have hgone : SameGraph (s.onto C) (s₁.onto C) t p := by
        have hhead := graphHead_empty header drained
        have hunlinked := (hready t p).trans
          (sameGraph_eraseChild (t := t) (c := p) (k := k') fun h => hne h.2.symm)
        have hmatches := ((hB t p).of_same hunlinked).bare (hunlinked.head.trans hhead)
        rw [hfinished]
        refine hunlinked.trans (sameGraph_removed (hunlinked.head.trans hhead) (fun c => ?_)
          hmatches.1 hmatches.2)
        have hzero : Store.entryCount (s.onto C) t p = 0 :=
          ((hcoherent.bodies t p).count header).symm.trans drained
        rw [hunlinked.child, (entryCount_eq_zero.mp hzero).2 c]
      exact hgraph'.planned hev hM ((hgraph'.header_eq hfresh hmem').symm.trans header) hfresh hmem'
        hgone.changed
  · rintro ⟨rfl, rfl | rfl⟩
    · exact hother rfl graph mem_cons_self hgraph.name
    · exact hother rfl graph' hmem' hgraph'.name

/-- The bodies a drain plan was prepared for, all of whose moves go to one receiver. -/
structure DrainGraphs (ix : Index) (build : GraphBuilder) (S : Store) (t : TreeKey)
    (p : PartitionKey) (moves : List (ChildEntry × PartitionKey))
    (graphs : List PreparedGraphTransition) : Prop where
  receiver : ∃ r, ∀ m ∈ moves, m.2 = r
  bodies : ∃ body receiver graph graph', drainBodies ix S t p moves = .ok (body, receiver) ∧
    prepare build body = .ok graph ∧ prepare build receiver = .ok graph' ∧
    graphs = [graph, graph']

lemma drainGraphs_of {receiver : BodyPlan} {graphs : List PreparedGraphTransition}
    (hreceiver : ∃ r, ∀ m ∈ moves, m.2 = r)
    (hbodies : drainBodies ix S t p moves = .ok (body, receiver))
    (hgraphs : [body, receiver].mapM (prepare build) = .ok graphs) :
    DrainGraphs ix build S t p moves graphs := by
  obtain ⟨graph, _, hgraph, hrest, rfl⟩ := List.forall₂_cons_left_iff.mp (mapM_eq_ok.mp hgraphs)
  obtain ⟨graph', _, hgraph', hrest', rfl⟩ := List.forall₂_cons_left_iff.mp hrest
  cases hrest'
  exact ⟨hreceiver, body, receiver, graph, graph', hbodies, hgraph, hgraph', rfl⟩

lemma planSplitDrain_graphs (hok : planSplitDrain ix build S t p h targets = .ok (some plan)) :
    ∃ moves remaining other, plan.edit = .drain moves .split remaining other ∧
      DrainGraphs ix build S t p moves plan.graphs := by
  simp only [planSplitDrain, bind_eq_ok] at hok
  obtain ⟨_, -, _, -, a, -, b, -, _, hread, moves, hmoves, ⟨_, _⟩, hbodies,
    remaining, -, _, hgraphs, hok⟩ := hok
  cases hok
  obtain ⟨r, -, hall⟩ := splitDrainMoves_receiver hmoves
  exact ⟨moves, remaining, _, rfl, drainGraphs_of ⟨r, hall⟩ hbodies hgraphs⟩

lemma planMergeDrain_graphs (hok : planMergeDrain ix build S t p h = .ok (some plan)) :
    ∃ moves remaining other, plan.edit = .drain moves .merge remaining other ∧
      DrainGraphs ix build S t p moves plan.graphs := by
  simp only [planMergeDrain, bind_eq_ok] at hok
  obtain ⟨_, -, _, hread, hok⟩ := hok
  split_ifs at hok with hnone
  · cases hok
  simp only [bind_eq_ok] at hok
  obtain ⟨⟨_, _⟩, hbodies, remaining, -, _, hgraphs, hok⟩ := hok
  cases hok
  obtain ⟨r, -, -, hall, -⟩ := mergeDrainMoves_fits hnone
  exact ⟨_, remaining, none, rfl, drainGraphs_of ⟨r, hall⟩ hbodies hgraphs⟩

lemma centroid_receiving {m : ℕ} (hS : Coherent ix S) (hB : Coherent ix B) (hev : Evolves S B)
    (hstate : S.state t p = some (.drainingSplit targets n))
    (hstate' : B.state t p = some (.drainingSplit targets m)) (hc : targets.Names c)
    (hv : B.centroid t c = some v) : S.centroid t c = some v := by
  obtain ⟨k, hk⟩ := hS.receiving_of_draining hstate hc
  obtain ⟨k', hk'⟩ := hB.receiving_of_draining hstate' hc
  have hsome : (S.topology t).phase c ≠ none := by simp [topology, hk]
  have hphase := phase_receiving.mpr ⟨k', hk'⟩
  exact ((hev.topology t).receiving c p hsome hphase).2.symm.trans hv

variable (hr : Reading ix C s) (hB : AllMatch g (s.onto C))
  (hfresh : Fresh (s.onto C) t plan.graphs) (hpublish : Runs C (publishBatch t plan.graphs) s₁ u s₂)
include hr hB hfresh hpublish

lemma matches_expose (hlater : Coherent ix later) (hev : Evolves later (s.onto C))
    (hok : planExpose ix g.build S later t p level targets a b = .ok (some plan))
    (hknown : known = plan.parent.map Prod.fst)
    (hrun : Runs C (exposeSplitTargets ix t p targets.left a targets.right b now known) s
      .exposed s₁) : AllMatch g (s₂.onto C) := by
  obtain ⟨-, hnot⟩ | ⟨-, targets', ⟨hleft, hright⟩, hexposed⟩ := runs_exposeSplitTargets hrun
  · exact absurd rfl hnot
  obtain rfl : targets = targets' := SplitPair.ext_keys hleft hright
  have hM := hexposed.effect.coherent hr.store
  rcases planExpose_spec hlater hok with ⟨hroot, hgraphs⟩ | ⟨hroot, parent, _, h, hparent,
    hgraphs, hgraph, hh⟩
  · obtain ⟨-, hsame⟩ | ⟨hnot, -⟩ := hexposed.spec hr.store
    · rw [hgraphs] at hpublish
      exact matches_publishBatch hB (by simp) (by simp) (fun _ => hsame _ _) hpublish
    · exact absurd hroot hnot
  · obtain ⟨hnot, -⟩ | ⟨-, parent', hfound, hsame, hchanged⟩ := hexposed.spec hr.store
    · exact absurd hnot hroot
    obtain rfl : parent = parent' := hfound parent (by rw [hknown, hparent]; rfl)
    rw [hgraphs] at hpublish hfresh
    exact matches_publishOne hev hM hB hgraph hh hfresh hsame hchanged hpublish

variable (hS : Coherent ix S) (hev : Evolves S (s.onto C))
include hS hev

lemma matches_drain {movement : Movement} (hplan : DrainPlan S t p moves movement plan.graphs)
    (hgraphs : DrainGraphs ix g.build S t p moves plan.graphs)
    (hrun : Runs C (relocateChildEntries ix t p moves movement) s n s₁) :
    AllMatch g (s₂.onto C) := by
  obtain ⟨⟨r, hall⟩, body, receiver, graph, graph', hbodies, hprepare, hprepare', hgraphs⟩ :=
    hgraphs
  obtain ⟨target, h, k, hhead, hbody, hh, hreceiver, hk⟩ := drainBodies_spec hS hbodies
  have hgraph : PreparedFor g.build S t p _ graph := ⟨body, hprepare, hbody⟩
  have hgraph' : PreparedFor g.build S t target _ graph' := ⟨receiver, hprepare', hreceiver⟩
  rw [hgraphs] at hfresh hpublish
  have hmem' : graph' ∈ [graph, graph'] := mem_cons_of_mem _ mem_cons_self
  have hheader := hgraph.header_eq hfresh mem_cons_self
  obtain ⟨hentries, hnodup⟩ := hplan.stored hS hev hh hheader
  obtain rfl : target = r := by
    cases moves with
    | nil => cases hhead
    | cons m moves =>
      cases hhead
      exact hall m mem_cons_self
  obtain ⟨-, ⟨rfl, -⟩ | ⟨_, _, -, -, hne, heffects, hmoved⟩⟩ := runs_relocateChildEntries
    hplan.movement hentries hnodup (fun hsplit m hm k hk hkstate => by
      subst hsplit
      exact hplan.receiving hr.store hev rfl hm hk hkstate) hrun
  · cases hhead
  have hM := (Effects.coherent_evolves heffects hr.store).1
  have htarget : target ≠ p := by
    cases moves with
    | nil => cases hhead
    | cons m => exact hall m mem_cons_self ▸ hne m mem_cons_self
  obtain ⟨hsame, hchanged, hchanged'⟩ := hmoved.spec htarget hall
  refine matches_publishBatch hB (by simpa [hgraph.name, hgraph'.name] using htarget.symm) ?_
    (fun {t' q} hother => hsame ?_) hpublish
  · intro _ hgraph₁
    rcases mem_cons.mp hgraph₁ with rfl | hgraph₁
    · exact hgraph.planned hev hM hh hfresh mem_cons_self hchanged
    · cases mem_singleton.mp hgraph₁
      exact hgraph'.planned hev hM hk hfresh hmem' hchanged'
  · rintro ⟨rfl, rfl | rfl⟩
    · exact hother rfl graph mem_cons_self hgraph.name
    · exact hother rfl graph' hmem' hgraph'.name

lemma matches_splitComplete {parent : Option PartitionKey} (hshrinks : Shrinks S (s.onto C))
    (header : S.header t p = some h) (hstate : S.state t p = some (.drainingSplit targets n))
    (hok : planComplete ix g.build S t p level .splitComplete (some targets) = .ok (some plan))
    (hknown : known = plan.parent.map Prod.fst)
    (hrun : Runs C (finalizeSplit t p now removal known) s (.completed parent) s₁) :
    AllMatch g (s₂.onto C) := by
  rcases planComplete_spec hS hok with ⟨rfl, _, _, a, b, k, htargets, hgraphs, ha, hb,
    hgraph, hk⟩ | ⟨hroot, parent', _, _, k, hparent, hgraphs, hgraph, hk, hgraph'⟩
  · cases htargets
    rw [hgraphs] at hfresh hpublish
    have hheader := (hgraph.header_eq hfresh mem_cons_self).trans header
    obtain ⟨-, ⟨-, hnone, -⟩ | hnot⟩ | hfinished := runs_finalizeSplit hr hrun
    · cases hnone.symm.trans hheader
    · exact absurd rfl (hnot parent)
    have hM := (Effects.coherent_evolves (hfinished.effects hr.store) hr.store).1
    generalize hS' : s₁.onto C = S' at hfinished
    cases hfinished with
    | @root h₁ h' left right targets₁ a' b' began _ header₁ state₁ drained leftHeader rightHeader
        leftCentroid rightCentroid level ready count epoch =>
      have hsame := (hshrinks t rootPartition h h _ header hheader rfl hstate (.inl rfl)).state
      rw [hstate, state₁] at hsame
      cases hsame
      have hleft := centroid_receiving hS hr.store hev hstate state₁ targets.names_left leftCentroid
      have hright := centroid_receiving hS hr.store hev hstate state₁ targets.names_right
        rightCentroid
      cases ha.symm.trans hleft
      cases hb.symm.trans hright
      obtain ⟨hsame, hchanged⟩ := promoted_spec leftHeader rightHeader hS'
      exact matches_publishOne hev hM hB hgraph hk hfresh hsame hchanged hpublish
    | child notRoot => exact absurd rfl notRoot
  · rw [hgraphs] at hfresh hpublish
    have hheader := (hgraph'.header_eq hfresh (mem_cons_of_mem _ mem_cons_self)).trans header
    obtain ⟨-, ⟨-, hnone, -⟩ | hnot⟩ | hfinished := runs_finalizeSplit hr hrun
    · cases hnone.symm.trans hheader
    · exact absurd rfl (hnot parent)
    have hM := (Effects.coherent_evolves (hfinished.effects hr.store) hr.store).1
    generalize hS' : s₁.onto C = S' at hfinished
    cases hfinished with
    | root isRoot => exact absurd isRoot hroot
    | @child parent₁ h₁ k₁ k' left right targets₁ began notRoot found header₁ state₁ drained
        leftHeader rightHeader edge parentHeader removed =>
      obtain rfl : parent' = parent₁ := found parent' (by rw [hknown, hparent]; rfl)
      refine matches_remove hev hr.store hM hB hgraph hk hgraph' hfresh header₁ drained edge
        (fun t' q => ?_) hS' hpublish
      exact (sameGraph_restate leftHeader).trans (sameGraph_restate (by
        simpa [restate, targets₁.ne.symm] using rightHeader))

lemma matches_mergeComplete (header : S.header t p = some h)
    (hok : planComplete ix g.build S t p level .mergeComplete none = .ok (some plan))
    (hknown : known = plan.parent.map Prod.fst)
    (hrun : Runs C (finalizeMerge t p removal known) s .completed s₁) : AllMatch g (s₂.onto C) := by
  rcases planComplete_spec hS hok with ⟨-, _, _, _, _, _, htargets, -⟩ | ⟨hroot, parent',
    _, _, k, hparent, hgraphs, hgraph, hk, hgraph'⟩
  · cases htargets
  · rw [hgraphs] at hfresh hpublish
    have hheader := (hgraph'.header_eq hfresh (mem_cons_of_mem _ mem_cons_self)).trans header
    obtain ⟨-, hnone⟩ | ⟨-, hfinished⟩ := runs_finalizeMerge hrun
    · cases (hnone rfl).1.symm.trans hheader
    have hM := (Effects.coherent_evolves (hfinished.effects hr.store) hr.store).1
    generalize hS' : s₁.onto C = S' at hfinished
    obtain @⟨parent₁, _, _, _, _, _, found, header₁, _, drained, edge,
      _, _⟩ := hfinished
    obtain rfl : parent' = parent₁ := found parent' (by rw [hknown, hparent]; rfl)
    exact matches_remove hev hr.store hM hB hgraph hk hgraph' hfresh header₁ drained edge
      (fun _ _ => .refl) hS' hpublish

lemma matches_performEdit (hlater : Coherent ix later) (hevl : Evolves later (s.onto C))
    (hshrinks : Shrinks S (s.onto C)) (hok : graphPlan ix g.build S later t p a b = .ok (some plan))
    (hrun : Runs C (performEdit ix t p now removal (plan.parent.map Prod.fst) plan.edit) s
      (some advance) s₁) : AllMatch g (s₂.onto C) := by
  have hdrain {moves movement remaining other}
      (hedit : plan.edit = .drain moves movement remaining other)
      (hgraphs : DrainGraphs ix g.build S t p moves plan.graphs) :
      AllMatch g (s₂.onto C) := by
    obtain ⟨hplan, -⟩ := graphPlan_drain hS hok hedit
    rw [hedit] at hrun
    simp only [performEdit, runs_bind, runs_pure] at hrun
    obtain ⟨n, _, hrelocate, -, rfl, -⟩ := hrun
    exact matches_drain hr hB hfresh hpublish hS hev hplan hgraphs hrelocate
  have hplan := hok
  simp only [graphPlan, bind_eq_ok] at hplan
  obtain ⟨authority, hauth, hplan⟩ := hplan
  rcases authority with _ | ⟨h, state⟩
  · cases hplan
  obtain ⟨header, hstate, -⟩ := classifyAuthority_some hauth
  cases state with
  | splitting _ n =>
    rw [planExpose_edit hplan] at hrun
    simp only [performEdit, runs_bind, runs_pure] at hrun
    obtain ⟨outcome, _, hexpose, hdone, rfl, -⟩ := hrun
    split_ifs at hdone with hexposed
    subst hexposed
    exact matches_expose hr hB hfresh hpublish hlater hevl hplan rfl hexpose
  | drainingSplit _ n =>
    dsimp only at hplan
    split_ifs at hplan
    · rw [planComplete_edit hplan] at hrun
      simp only [performEdit, runs_bind] at hrun
      obtain ⟨outcome, _, hfinalize, hrun⟩ := hrun
      cases outcome with
      | completed =>
        obtain ⟨-, rfl, -⟩ := runs_pure.mp hrun
        exact matches_splitComplete hr hB hfresh hpublish hS hev hshrinks header hstate hplan rfl
          hfinalize
      | _ =>
        obtain ⟨hdone, -⟩ := runs_pure.mp hrun
        cases hdone
    · obtain ⟨_, _, _, hedit, hgraphs⟩ := planSplitDrain_graphs hplan
      exact hdrain hedit hgraphs
  | merging n =>
    dsimp only at hplan
    split_ifs at hplan
    · rw [planComplete_edit hplan] at hrun
      simp only [performEdit, runs_bind, runs_pure] at hrun
      obtain ⟨_, _, hfinalize, hdone, rfl, -⟩ := hrun
      split_ifs at hdone with hcompleted
      subst hcompleted
      exact matches_mergeComplete hr hB hfresh hpublish hS hev header hplan rfl hfinalize
    · obtain ⟨_, _, _, hedit, hgraphs⟩ := planMergeDrain_graphs hplan
      exact hdrain hedit hgraphs
  | _ => cases hplan

omit hr hB hfresh hpublish hS hev

/-- **A graph step keeps every graph matching its partition.** -/
theorem matches_graphApply {done : Option GraphAdvance} (hr : Reading ix C s) (hS : Coherent ix S)
    (hlater : Coherent ix later) (hev : Evolves S (s.onto C)) (hevl : Evolves later (s.onto C))
    (hshrinks : Shrinks S (s.onto C)) (hB : AllMatch g (s.onto C))
    (hok : graphPlan ix g.build S later t p a b = .ok (some plan))
    (hrun : Runs C (graphApply ix t p now removal plan) s done s') : AllMatch g (s'.onto C) := by
  obtain ⟨hsame, -⟩ | ⟨_, _, _, u, -, hsame, hfresh, hperform, hpublish⟩ :=
    runs_graphApply hr hrun
  · rw [hsame.onto_eq C]
    exact hB
  · rw [← hsame.onto_eq C] at hev hevl hshrinks hB hfresh
    exact matches_performEdit (hr.of_sameWrites hsame) hB hfresh hpublish hS hev
      hlater hevl hshrinks
      hok hperform

/-! ### Refined centroids -/

lemma runs_updateCentroid (hrun : Runs C (updateCentroid t p parent v) s u s') :
    (∀ {t' q}, ¬ (t' = t ∧ q = parent) → SameGraph (s.onto C) (s'.onto C) t' q) ∧
      Changed (s.onto C) (s'.onto C) t parent (update · p (some ⟨p, v⟩)) := by
  simp only [updateCentroid, runs_bind, runs_ensure, runs_requireHeader, runs_requireCentroid,
    runs_requireChildEntry, runs_ite, runs_ofExcept, runs_put] at hrun
  obtain ⟨-, _, ⟨hroot, rfl, -⟩, h, _, ⟨hh, rfl, -⟩, k, _, ⟨hk, rfl, -⟩, _, _, ⟨-, rfl, -⟩, e, _,
    ⟨he, rfl, -⟩, -, _, ⟨hready, rfl, -⟩, hrun⟩ := hrun
  simp only [onto_protect] at he
  obtain ⟨rfl, hrun⟩ | ⟨-, _, _, ⟨hk', rfl, -⟩, -, _, ⟨rfl, -⟩, -, _, ⟨rfl, -⟩, rfl, -⟩ := hrun
  · obtain ⟨-, rfl, -⟩ := runs_pure.mp hrun
    refine ⟨fun _ => .refl, fun c => ?_, rfl, fun _ => rfl⟩
    have heq : (⟨p, v⟩ : ChildEntry) = e := by
      obtain ⟨-, -, -, hchild, hcentroid⟩ := hready
      cases e
      simp_all
    rw [heq, ← he, Function.update_eq_self]
    rfl
  · simp only [onto_stage, onto_protect, Write.apply]
    refine ⟨fun {t' q} hne => ⟨graphHead_congr ?_, fun c => ?_, ?_, fun n => ?_⟩, fun c => ?_, ?_,
      fun n => ?_⟩
    · simp [hne]
    · have hne' : ¬ (t' = t ∧ q = parent ∧ c = p) := fun h => hne ⟨h.1, h.2.1⟩
      simp [hne']
    · simp
    · simp
    · simp [update_apply]
    · simp
    · simp

def refined (updates : List (PartitionKey × VectorData)) : List ChildEntry :=
  updates.map fun update => ⟨update.1, update.2⟩

lemma runs_updateCentroids :
    ∀ {s : Txn ValueOf}, Runs C (updateCentroids t parent updates) s u s' →
      (∀ {t' q}, ¬ (t' = t ∧ q = parent) → SameGraph (s.onto C) (s'.onto C) t' q) ∧
        Changed (s.onto C) (s'.onto C) t parent (putEntries · (refined updates)) := by
  induction updates with
  | nil =>
    intro s hrun
    obtain ⟨-, rfl, -⟩ := runs_pure.mp hrun
    exact ⟨fun _ => .refl, fun _ => rfl, rfl, fun _ => rfl⟩
  | cons _ _ ih =>
    intro s hrun
    simp only [updateCentroids, runs_bind] at hrun
    obtain ⟨_, _, hone, hrest⟩ := hrun
    obtain ⟨hsame, hchanged⟩ := runs_updateCentroid hone
    obtain ⟨hsame', hchanged'⟩ := ih hrest
    refine ⟨fun hne => (hsame hne).trans (hsame' hne), fun c => ?_,
      hchanged'.descriptor.trans hchanged.descriptor,
      fun n => (hchanged'.chunk n).trans (hchanged.chunk n)⟩
    rw [hchanged'.child, funext hchanged.child]
    rfl

lemma BodyPlan.recenterAll_holds :
    ∀ {body : BodyPlan} {f : PartitionKey → Option ChildEntry}, body.Holds f →
      updates.foldlM (fun body u => body.recenter u.1 u.2) body = .ok body' →
      body'.Holds (putEntries f (refined updates)) ∧ body.SameSource body' := by
  induction updates with
  | nil =>
    intro body f hf hok
    rw [foldlM_nil, pure_eq_ok] at hok
    exact hok ▸ ⟨hf, rfl, rfl, rfl, rfl, rfl⟩
  | cons _ _ ih =>
    intro _ f hf hok
    rw [foldlM_cons, bind_eq_ok] at hok
    obtain ⟨_, hone, hrest⟩ := hok
    obtain ⟨hf₁, hsource⟩ := BodyPlan.recenter_holds hf hone
    obtain ⟨hf', hsource'⟩ := ih hf₁ hrest
    exact ⟨hf', hsource.trans hsource'⟩

/-- **A refinement of one parent's centroids keeps every graph matching.** -/
theorem matches_publishGraphCentroids (hcoherent : Coherent ix (s.onto C)) (hS : Coherent ix S)
    (hev : Evolves S (s.onto C)) (hB : AllMatch g (s.onto C))
    (hok : planCentroids ix g.build S t parent updates = .ok graph)
    (hrun : Runs C (publishGraphCentroids t parent updates [graph]) s u s') :
    AllMatch g (s'.onto C) := by
  simp only [planCentroids, bind_eq_ok] at hok
  obtain ⟨_, hread, header, hheader, hok⟩ := hok
  split_ifs at hok
  obtain ⟨body, hrecenter, hprepare⟩ := bind_eq_ok.mp hok
  have hbody := read_spec hS hread
  obtain ⟨hholds, hsource⟩ := BodyPlan.recenterAll_holds hbody.holds hrecenter
  have hgraph : PreparedFor g.build S t parent (putEntries · (refined updates)) graph :=
    ⟨body, hprepare, hbody.of_source hsource hholds⟩
  have hh : S.header t parent = some header := by
    rw [read_ok hread] at hheader
    cases hS : S.header t parent with
    | none => rw [hS] at hheader; cases hheader
    | some k => rw [hS] at hheader; cases hheader; rfl
  simp only [publishGraphCentroids, runs_bind, runs_ensure] at hrun
  obtain ⟨_, _, hprotect, -, _, ⟨hfresh, rfl, -⟩, _, s₂, hupdates, hpublish⟩ := hrun
  obtain ⟨hsame₁, hsources⟩ := runs_protectSources hprotect
  have hM : Coherent ix (s₂.onto C) := by
    refine (Effects.coherent_evolves (effects_updateCentroids hupdates) ?_).1
    rwa [hsame₁.onto_eq C]
  obtain ⟨hsame, hchanged⟩ := runs_updateCentroids hupdates
  simp only [hsame₁.onto_eq C] at hsame hchanged
  exact matches_publishOne hev hM hB hgraph hh (hsources hfresh) hsame hchanged hpublish

end

/-! ### Runs -/

section

variable {start : Store} {history : List Store}

lemma CommitStep.graphMatches {op : Operation} {report : Report} {S' : Store}
    (hstep : CommitStep ix g.build history op report S') (hgraph : ix.localGraph = true)
    (hh : Consistent ix history)
    (hshrinks : ∀ S ∈ history, ∀ C, history.head? = some C → Shrinks S C)
    (hmatches : ∀ S ∈ history, AllMatch g S) : AllMatch g S' := by
  have hhead {C : Store} (hC : history.head? = some C) : AllMatch g C :=
    hmatches C (mem_of_mem_head? hC)
  have hquiet {C S' : Store} (hC : history.head? = some C) (heffects : LeafEffects ix C S') :
      AllMatch g S' := fun t p =>
    (hhead hC t p).of_same (heffects.sameGraph (hh.coherent C (mem_of_mem_head? hC)))
  have hplain (hplain : ix.localGraph = false) : False := by
    rw [hgraph] at hplain
    cases hplain
  cases hstep with
  | createTree hcommits =>
    obtain ⟨C, _, s, hC, -, hrun, rfl, -⟩ := hh.runs hcommits
    exact hquiet hC (leafEffects_createTree hrun)
  | mutate valid projected hcommits =>
    obtain ⟨C, _, s, hC, -, hrun, rfl, hr⟩ := hh.runs hcommits
    exact hquiet hC (leafEffects_applyAll hr.store projected valid.distinct hrun)
  | beginSplit hcommits =>
    obtain ⟨C, _, s, hC, -, hrun, rfl, -⟩ := hh.runs hcommits
    exact hquiet hC (leafEffects_beginSplit hrun)
  | exposeTargets plain hcommits => exact (hplain plain).elim
  | drainSplit read planned hcommits =>
    obtain ⟨C, _, s, hC, -, hrun, rfl, hr⟩ := hh.runs hcommits
    obtain ⟨_, hnext, hlevel⟩ := splitDrainPlan_ok planned
    have hdistinct := nextDrainBatch_distinct (hh.coherent _ read) hnext
    exact hquiet hC ((effects_splitDrainAttempt hr.store hdistinct hrun).2
      (nextDrainBatch_isLeaf (hlevel hgraph) hnext))
  | completeSplit plain hcommits => exact (hplain plain).elim
  | beginMerge hcommits =>
    obtain ⟨C, _, s, hC, -, hrun, rfl, -⟩ := hh.runs hcommits
    exact hquiet hC (leafEffects_beginMerge hrun)
  | drainMerge read planned hcommits =>
    obtain ⟨C, _, s, hC, -, hrun, rfl, -⟩ := hh.runs hcommits
    obtain ⟨_, hnext, hlevel⟩ := mergeDrainPlan_ok planned
    have hdistinct := nextDrainBatch_distinct (hh.coherent _ read) hnext
    exact hquiet hC ((effects_mergeDrainAttempt hdistinct hrun).2
      (nextDrainBatch_isLeaf (hlevel hgraph) hnext))
  | completeMerge plain hcommits => exact (hplain plain).elim
  | refine hcommits =>
    obtain ⟨C, _, s, hC, -, hrun, rfl, -⟩ := hh.runs hcommits
    exact hquiet hC (leafEffects_refineBatch hrun)
  | updateCentroid plain hcommits => exact (hplain plain).elim
  | graphStep _ read readLater planned hcommits =>
    obtain ⟨C, _, s, hC, -, hrun, rfl, hr⟩ := hh.runs hcommits
    exact matches_graphApply hr (hh.coherent _ read) (hh.coherent _ readLater)
      (hh.evolves_head read hC) (hh.evolves_head readLater hC) (hshrinks _ read C hC) (hhead hC)
      planned hrun
  | graphCentroids _ read planned hcommits =>
    obtain ⟨C, _, s, hC, -, hrun, rfl, hr⟩ := hh.runs hcommits
    exact matches_publishGraphCentroids hr.store (hh.coherent _ read) (hh.evolves_head read hC)
      (hhead hC) planned hrun

lemma Run.graphMatches (hrun : Run ix g.build start history) (hgraph : ix.localGraph = true)
    (hstart : Coherent ix start) (hmatches : AllMatch g start) : ∀ S ∈ history, AllMatch g S := by
  induction hrun with
  | start =>
    intro S hS
    cases mem_singleton.mp hS
    exact hmatches
  | @step history _ _ _ hrun hcommit ih =>
    have hshrinks := hrun.pairwise hstart (R := Shrinks) (fun _ _ _ _ _ _ _ _ _ _ _ => .refl)
      Shrinks.prolong
    intro S hS
    rcases mem_cons.mp hS with rfl | hold
    · refine hcommit.graphMatches hgraph (hrun.consistent hstart) (fun S hS C hC => ?_) ih
      cases history with
      | nil => cases hC
      | cons _ =>
        cases hC
        rcases mem_cons.mp hS with rfl | hold
        · exact fun _ _ _ _ _ _ _ _ _ _ => .refl
        · exact (pairwise_cons.mp hshrinks).1 S hold
    · exact ih S hold

lemma graphMatches_empty (t : TreeKey) (p : PartitionKey) :
    GraphMatches g OrderedMap.empty t p where
  bare _ := ⟨lookup_empty _, fun _ => lookup_empty _⟩
  nodes hh := by cases (lookup_empty _).symm.trans hh
  graphed hh := by cases (lookup_empty _).symm.trans hh

/-- **Graph bodies match their partition.**  In every store of a run of a graph
index a descriptor stands exactly at the internal partitions with an entry, it
describes the partition's Header and Child Entries, and the chunks are those it
counts. -/
theorem run_graphs_match (hgraph : ix.localGraph = true) (hrun : RunFromEmpty ix g.build history) :
    ∀ S ∈ history, ∀ t p, ((S.graphDescriptor t p).isSome = true ↔
        ∃ h, S.header t p = some h ∧ 1 < h.level ∧ 0 < h.entryCount) ∧
      (∀ d, S.graphDescriptor t p = some d → ∃ h, S.header t p = some h ∧
        d.epoch = h.cacheEpoch ∧ d.nodes = h.entryCount ∧
        d.binding = g.binding (g.identity t p (S.childEntries t p)) h ∧
        (∀ n, (S.graphChunk t p n).isSome = true ↔ n < d.chunks) ∧
        ∀ n chunk, S.graphChunk t p n = some chunk →
          chunk.length = min graphChunkBytes (d.bytes - n * graphChunkBytes)) ∧
      (S.graphDescriptor t p = none → ∀ n, S.graphChunk t p n = none) := by
  intro S hS t p
  have hmatches := hrun.graphMatches hgraph (coherent_empty ix) graphMatches_empty S hS t p
  by_cases hinternal : ∃ h, S.header t p = some h ∧ 1 < h.level ∧ 0 < h.entryCount
  · obtain ⟨h, hh, hlevel, hcount⟩ := hinternal
    obtain ⟨_, hdescriptor, hchunk⟩ := hmatches.graphed hh hlevel hcount
    refine ⟨⟨fun _ => ⟨h, hh, hlevel, hcount⟩, fun _ => by rw [hdescriptor]; rfl⟩, fun d hd => ?_,
      fun hnone => ?_⟩
    · cases hdescriptor.symm.trans hd
      refine ⟨h, hh, rfl, hmatches.nodes hh hlevel hcount, rfl, fun n => ?_, fun n chunk hn => ?_⟩
      · simp [hchunk]
      · exact graphChunk_length ((hchunk n).symm.trans hn)
    · cases hdescriptor.symm.trans hnone
  · have hhead : S.graphHead t p = none := by
      cases hhead : S.graphHead t p with
      | none => rfl
      | some head =>
        obtain ⟨h, hh, -, -, -, hlevel, hcount⟩ := header_of_graphHead hhead
        exact (hinternal ⟨h, hh, hlevel, hcount⟩).elim
    obtain ⟨hdescriptor, hchunk⟩ := hmatches.bare hhead
    refine ⟨⟨fun hsome => ?_, fun h => (hinternal h).elim⟩, fun d hd => ?_, fun _ => hchunk⟩
    · rw [hdescriptor] at hsome
      cases hsome
    · cases hdescriptor.symm.trans hd

/-- A graph of one byte, bound with a digest that keeps four. -/
def byteGraph : LocalGraph where
  index := 1
  m := 16
  efConstruction := 64
  seed := []
  metric := .l2
  dimension := 1
  sha256 := List.take 4
  coordinate _ := []
  encode _ _ := .ok [1]

theorem run_graphs_match_graphLine :
    ((graphLineHistory byteGraph.build).head?.bind fun S => S.graphDescriptor lineTree 1).isSome =
        true ∧
      ∀ S ∈ graphLineHistory byteGraph.build, ∀ t p, (S.graphDescriptor t p).isSome = true ↔
        ∃ h, S.header t p = some h ∧ 1 < h.level ∧ 0 < h.entryCount :=
  ⟨by decide +kernel, fun S hS t p => (run_graphs_match (g := byteGraph) rfl
    (graphLineHistory_run (by decide +kernel)) S hS t p).1⟩

end

end
