/-
Topology steps of a graph index commit effects.

A step is planned on a committed store and committed later.  The transaction reads
the Header of every planned body for update, and an unchanged Header stands for
unchanged entries; so the planned moves are of stored entries.  The graphs are
published under keys of their own.

* `effects_publishBatch` — publishing graphs touches graph records only;
* `effects_graphApply`, `effects_publishGraphCentroids` — the two transactions.
-/
import Ktann.Committed.Drains
import Ktann.Maintenance.GraphTopology

open TxnM WriteTxn

section

variable {ix : Index} {C S : Store} {s s' : Txn ValueOf} {t : TreeKey}
  {p : PartitionKey}

/-! ### Publications -/

def Write.OnGraph : Write ValueOf → Prop
  | .put k _ | .delete k => k.isGraph = true
  | .clear _ => False

variable {k : LogicalKey} {graphs : List PreparedGraphTransition} {u : Unit} {body : BodyPlan}
  {build : GraphBuilder} {a b : VectorData} {targets : SplitPair} {entries : List ChildEntry}
  {source : PartitionKey} {moves : List (ChildEntry × PartitionKey)} {later : Store}
  {plan : GraphPlan} {h : PartitionHeader} {c parent : PartitionKey}

lemma Write.OnGraph.lookup {w : Write ValueOf} (hw : w.OnGraph) (hk : k.isGraph = false)
    (S : Store) : (w.apply S).lookup k = S.lookup k := by
  cases w with
  | put k' v =>
    refine lookup_put_ne _ _ fun heq => ?_
    have hgraph : k'.isGraph = true := hw
    rw [heq, hgraph] at hk
    cases hk
  | delete k' =>
    refine lookup_erase_ne _ fun heq => ?_
    have hgraph : k'.isGraph = true := hw
    rw [heq, hgraph] at hk
    cases hk
  | clear => exact hw.elim

lemma lookup_applyAll_onGraph {ws : List (Write ValueOf)} (hk : k.isGraph = false) :
    ∀ {S : Store}, (∀ w ∈ ws, w.OnGraph) → (Write.applyAll S ws).lookup k = S.lookup k := by
  induction ws with
  | nil => exact fun _ => rfl
  | cons w _ ih =>
    intro S hws
    rw [Write.applyAll_cons, ih fun w' hw' => hws w' (mem_cons_of_mem _ hw'),
      (hws w mem_cons_self).lookup hk]

lemma publicationWrites_onGraph (graph : PreparedGraphTransition) :
    ∀ w ∈ publicationWrites t graph, w.OnGraph := by
  intro w hw
  simp only [publicationWrites] at hw
  split at hw
  · cases hw
  · simp only [mem_append, mem_map] at hw
    rcases hw with hw | ⟨n, -, rfl⟩
    · split_ifs at hw
      · cases mem_singleton.mp hw
        rfl
      · cases hw
    · rfl
  · simp only [mem_append, mem_map, mem_singleton] at hw
    rcases hw with (rfl | ⟨n, -, rfl⟩) | ⟨c, -, rfl⟩ <;> rfl

lemma readOnly_validateTargets :
    ∀ graphs : List PreparedGraphTransition, ReadOnly (validateTargets t graphs)
  | [] => readOnly_pure _
  | _ :: rest => readOnly_bind (readOnly_getForUpdate _) fun _ =>
      readOnly_bind (readOnly_ensure _ _) fun _ => readOnly_validateTargets rest

lemma lookup_publishBatch (hrun : Runs C (publishBatch t graphs) s u s')
    (hk : k.isGraph = false) : (s'.onto C).lookup k = (s.onto C).lookup k := by
  simp only [publishBatch, runs_bind] at hrun
  obtain ⟨_, _, hvalid, hstage⟩ := hrun
  have hsame := (readOnly_validateTargets graphs).sameWrites hvalid
  rw [runs_stageAll hstage, hsame.onto_eq C]
  refine lookup_applyAll_onGraph hk fun w hw => ?_
  obtain ⟨graph, -, hw⟩ := mem_flatMap.mp hw
  exact publicationWrites_onGraph graph w hw

lemma effects_publishBatch (hgraph : ix.localGraph = true)
    (hrun : Runs C (publishBatch t graphs) s u s') : Effects ix (s.onto C) (s'.onto C) :=
  .single (.graph (fun _ hk => lookup_publishBatch hrun hk) (.inl hgraph))

/-- The planned bodies are as they were read. -/
def Fresh (B : Store) (t : TreeKey) (graphs : List PreparedGraphTransition) : Prop :=
  ∀ graph ∈ graphs, B.header t graph.partition = graph.sourceHeader ∧
    B.graphDescriptor t graph.partition = graph.sourceDescriptor

lemma runs_protectSources :
    ∀ {s : Txn ValueOf} {fresh : Bool}, Runs C (protectSources t graphs) s fresh s' →
      s.SameWrites s' ∧ (fresh = true → Fresh (s.onto C) t graphs) := by
  induction graphs with
  | nil =>
    intro s fresh hrun
    obtain ⟨-, rfl, -⟩ := runs_pure.mp hrun
    exact ⟨.refl _, nofun⟩
  | cons g _ ih =>
    intro s _ hrun
    simp only [protectSources, runs_bind, runs_getHeader, runs_getGraphDescriptor, runs_ite,
      runs_pure] at hrun
    obtain ⟨header, _, ⟨rfl, rfl, -⟩, _, _, ⟨rfl, rfl, -⟩,
      ⟨hsame, hrun⟩ | ⟨-, rfl, rfl, -⟩⟩ := hrun
    · obtain ⟨hwrites, hall⟩ := ih hrun
      refine ⟨⟨hwrites.snapshot, hwrites.writes⟩, fun hfresh g' hg' => ?_⟩
      rcases mem_cons.mp hg' with rfl | hg'
      · exact hsame
      · exact hall hfresh g' hg'
    · exact ⟨⟨rfl, rfl⟩, nofun⟩

/-! ### What a plan says -/

variable {body' receiver : BodyPlan} {edit : GraphEdit}

namespace BodyPlan

lemma read_ok (hok : BodyPlan.read ix S t p = .ok body) :
    body = ⟨t, p, S.header t p, S.graphDescriptor t p, S.graphBody t p, S.childEntries t p,
      S.header t p, S.childEntries t p⟩ := by
  rw [BodyPlan.read] at hok
  split_ifs at hok
  cases hok
  rfl

structure SameSource (body body' : BodyPlan) : Prop where
  treeKey : body'.treeKey = body.treeKey
  partition : body'.partition = body.partition
  header : body'.sourceHeader = body.sourceHeader
  descriptor : body'.sourceDescriptor = body.sourceDescriptor
  children : body'.sourceChildren = body.sourceChildren

lemma SameSource.trans {a b c : BodyPlan} (h : a.SameSource b) (h' : b.SameSource c) :
    a.SameSource c :=
  ⟨h'.treeKey.trans h.treeKey, h'.partition.trans h.partition, h'.header.trans h.header,
    h'.descriptor.trans h.descriptor, h'.children.trans h.children⟩

lemma add_source {v : VectorData} (hok : body.add c v = .ok body') : body.SameSource body' := by
  rw [BodyPlan.add] at hok
  split_ifs at hok
  obtain ⟨h, -, hok⟩ := bind_eq_ok.mp hok
  cases hok
  exact ⟨rfl, rfl, rfl, rfl, rfl⟩

lemma remove_source (hok : body.remove c = .ok body') : body.SameSource body' := by
  rw [BodyPlan.remove] at hok
  split_ifs at hok
  obtain ⟨h, -, hok⟩ := bind_eq_ok.mp hok
  cases hok
  exact ⟨rfl, rfl, rfl, rfl, rfl⟩

lemma foldlM_source {α : Type} {f : BodyPlan → α → Except Error BodyPlan}
    (hf : ∀ {body body' a}, f body a = .ok body' → body.SameSource body') {as : List α} :
    ∀ {body body' : BodyPlan}, as.foldlM f body = .ok body' → body.SameSource body' := by
  induction as with
  | nil =>
    intro body body' hok
    rw [List.foldlM_nil, pure_eq_ok] at hok
    rw [hok]
    exact ⟨rfl, rfl, rfl, rfl, rfl⟩
  | cons a _ ih =>
    intro _ _ hok
    rw [foldlM_cons, bind_eq_ok] at hok
    obtain ⟨_, hone, hrest⟩ := hok
    exact (hf hone).trans (ih hrest)

end BodyPlan

lemma prepare_source {graph : PreparedGraphTransition} (hok : prepare build body = .ok graph) :
    graph.partition = body.partition ∧ graph.sourceHeader = body.sourceHeader ∧
      graph.sourceDescriptor = body.sourceDescriptor := by
  rw [prepare] at hok
  split_ifs at hok
  obtain ⟨_, -, hok⟩ := bind_eq_ok.mp hok
  cases hok
  exact ⟨rfl, rfl, rfl⟩

/-- The moves a drain plan fixes: entries of the source's planned body, whose graph
is among the planned ones. -/
structure DrainPlan (S : Store) (t : TreeKey) (source : PartitionKey)
    (moves : List (ChildEntry × PartitionKey)) (movement : Movement)
    (graphs : List PreparedGraphTransition) : Prop where
  family : movement = .split → ∀ m ∈ moves, ∃ n, S.state t m.2 = some (.receivingSplit source n)
  movement : movement ≠ .refine
  moves : (moves.map Prod.fst).Sublist (S.childEntries t source)
  source : ∃ g ∈ graphs, g.partition = source ∧ g.sourceHeader = S.header t source

lemma splitDrainMoves_fst : ∀ {balance : SplitBalance} {receiver : Option PartitionKey}
      {moves : List (ChildEntry × PartitionKey)},
      splitDrainMoves ix targets a b balance receiver entries = .ok moves →
        (moves.map Prod.fst).Sublist entries := by
  induction entries with
  | nil =>
    intro balance receiver moves hok
    cases hok
    exact .refl _
  | cons e _ ih =>
    intro _ _ _ hok
    simp only [splitDrainMoves, bind_eq_ok] at hok
    obtain ⟨⟨_, _⟩, -, hok⟩ := hok
    split_ifs at hok
    · obtain ⟨_, hmoves, hok⟩ := bind_eq_ok.mp hok
      cases hok
      exact (ih hmoves).cons_cons e
    · exact (ih hok).trans (List.sublist_cons_self _ _)

lemma splitDrainMoves_names : ∀ {balance : SplitBalance} {receiver : Option PartitionKey}
      {moves : List (ChildEntry × PartitionKey)},
      splitDrainMoves ix targets a b balance receiver entries = .ok moves →
        ∀ m ∈ moves, targets.Names m.2 := by
  induction entries with
  | nil =>
    intro balance receiver moves hok
    cases hok
    exact nofun
  | cons e _ ih =>
    intro _ _ _ hok m hm
    simp only [splitDrainMoves, bind_eq_ok] at hok
    obtain ⟨⟨_, _⟩, hchoose, hok⟩ := hok
    split_ifs at hok
    · obtain ⟨_, hmoves, hok⟩ := bind_eq_ok.mp hok
      cases hok
      rcases mem_cons.mp hm with rfl | hm
      · exact SplitBalance.choose_names hchoose
      · exact ih hmoves m hm
    · exact ih hok m hm

lemma mergeDrainMoves_fst {candidates : List LevelCandidate} {ceiling : ℕ} :
    ∀ {receiver : Option (PartitionKey × ℕ)},
      ((mergeDrainMoves ix source candidates ceiling receiver entries).map Prod.fst).Sublist
        entries := by
  induction entries with
  | nil => exact .refl _
  | cons e _ ih =>
    intro _
    simp only [mergeDrainMoves]
    split
    · exact List.nil_sublist _
    · split_ifs
      · exact List.nil_sublist _
      · exact ih.cons_cons e
      · exact ih.trans (List.sublist_cons_self _ _)

lemma drainBodies_source (hok : drainBodies ix S t source moves = .ok (body, receiver)) :
    body.partition = source ∧ body.sourceHeader = S.header t source := by
  simp only [drainBodies, bind_eq_ok] at hok
  obtain ⟨_, -, _, -, _, hread, _, hbody, hok⟩ := hok
  cases hok
  have hsource := BodyPlan.foldlM_source (fun h => BodyPlan.remove_source h) hbody
  rw [BodyPlan.read_ok hread] at hsource
  exact ⟨hsource.partition, hsource.header⟩

lemma drainGraphs_source (hbodies : drainBodies ix S t source moves = .ok (body, receiver))
    (hgraphs : [body, receiver].mapM (prepare build) = .ok graphs) :
    ∃ g ∈ graphs, g.partition = source ∧ g.sourceHeader = S.header t source := by
  obtain ⟨hpartition, hheader⟩ := drainBodies_source hbodies
  obtain ⟨g, _, hprepare, -, rfl⟩ := List.forall₂_cons_left_iff.mp (mapM_eq_ok.mp hgraphs)
  obtain ⟨hp, hh, -⟩ := prepare_source hprepare
  exact ⟨g, mem_cons_self, hp.trans hpartition, hh.trans hheader⟩

lemma planExpose_edit {level : ℕ}
    (hok : planExpose ix build S later t p level targets a b = .ok (some plan)) :
    plan.edit = .expose targets a b := by
  simp only [planExpose, bind_eq_ok] at hok
  obtain ⟨parent, -, hok⟩ := hok
  cases parent with
  | none =>
    dsimp only at hok
    split_ifs at hok
    · cases hok
      rfl
    · cases hok
  | some =>
    obtain ⟨body, -, hok⟩ := bind_eq_ok.mp hok
    cases body with
    | none => cases hok
    | some =>
      obtain ⟨_, -, hok⟩ := bind_eq_ok.mp hok
      cases hok
      rfl

lemma planComplete_edit {level : ℕ} {targets : Option SplitPair}
    (hok : planComplete ix build S t p level edit targets = .ok (some plan)) :
    plan.edit = edit := by
  simp only [planComplete, bind_eq_ok] at hok
  obtain ⟨parent, -, hok⟩ := hok
  cases parent with
  | some =>
    simp only [bind_eq_ok] at hok
    obtain ⟨_, -, _, -, hok⟩ := hok
    cases hok
    rfl
  | none =>
    cases targets with
    | none => cases hok
    | some =>
      dsimp only at hok
      split_ifs at hok
      · simp only [bind_eq_ok] at hok
        obtain ⟨_, -, _, -, hok⟩ := hok
        cases hok
        rfl
      · cases hok

lemma planSplitDrain_drain {n : ℕ} (hS : Coherent ix S)
    (hstate : S.state t p = some (.drainingSplit targets n))
    (hok : planSplitDrain ix build S t p h targets = .ok (some plan)) :
    ∃ moves remaining other, plan.edit = .drain moves .split remaining other ∧
      DrainPlan S t p moves .split plan.graphs := by
  simp only [planSplitDrain, bind_eq_ok] at hok
  obtain ⟨_, -, _, -, a, -, b, -, body, hread, moves, hmoves, ⟨_, _⟩, hbodies,
    _, -, _, hgraphs, hok⟩ := hok
  cases hok
  have hchildren : body.children = S.childEntries t p := by rw [BodyPlan.read_ok hread]
  refine ⟨moves, _, _, rfl, fun _ m hm => ?_, by decide, ?_, drainGraphs_source hbodies hgraphs⟩
  · exact hS.receiving_of_draining hstate (splitDrainMoves_names hmoves m hm)
  · rw [← hchildren]
    exact (splitDrainMoves_fst hmoves).trans (take_sublist _ _)

lemma planMergeDrain_drain (hok : planMergeDrain ix build S t p h = .ok (some plan)) :
    ∃ moves remaining other, plan.edit = .drain moves .merge remaining other ∧
      DrainPlan S t p moves .merge plan.graphs := by
  simp only [planMergeDrain, bind_eq_ok] at hok
  obtain ⟨_, -, body, hread, hok⟩ := hok
  split_ifs at hok
  · cases hok
  · simp only [bind_eq_ok] at hok
    obtain ⟨⟨_, _⟩, hbodies, _, -, _, hgraphs, hok⟩ := hok
    cases hok
    have hchildren : body.children = S.childEntries t p := by rw [BodyPlan.read_ok hread]
    refine ⟨_, _, _, rfl, nofun, by decide, ?_, drainGraphs_source hbodies hgraphs⟩
    rw [← hchildren]
    exact mergeDrainMoves_fst.trans (take_sublist _ _)

lemma graphPlan_drain {movement : Movement} {remaining : ℕ}
    {other : Option (PartitionKey × PartitionHeader)} (hS : Coherent ix S)
    (hok : graphPlan ix build S later t p a b = .ok (some plan))
    (hedit : plan.edit = .drain moves movement remaining other) :
    DrainPlan S t p moves movement plan.graphs ∧ ∃ h, S.header t p = some h := by
  simp only [graphPlan, bind_eq_ok] at hok
  obtain ⟨authority, hauth, hok⟩ := hok
  rcases authority with _ | ⟨h, state⟩
  · cases hok
  obtain ⟨hheader, hstate, -⟩ := classifyAuthority_some hauth
  refine ⟨?_, h, hheader⟩
  cases state with
  | splitting _ n =>
    rw [planExpose_edit hok] at hedit
    cases hedit
  | drainingSplit _ n =>
    dsimp only at hok
    split_ifs at hok
    · rw [planComplete_edit hok] at hedit
      cases hedit
    · obtain ⟨_, _, _, hedit', hplan⟩ := planSplitDrain_drain hS hstate hok
      rw [hedit'] at hedit
      cases hedit
      exact hplan
  | merging n =>
    dsimp only at hok
    split_ifs at hok
    · rw [planComplete_edit hok] at hedit
      cases hedit
    · obtain ⟨_, _, _, hedit', hplan⟩ := planMergeDrain_drain hok
      rw [hedit'] at hedit
      cases hedit
      exact hplan
  | _ => cases hok

/-! ### Committing a plan -/

lemma readOnly_validateHeaders : ∀ headers : List (PartitionKey × PartitionHeader),
      ReadOnly (IncomingEdgeProof.validateHeaders t headers)
  | [] => readOnly_pure _
  | _ :: rest => readOnly_bind (readOnly_getForUpdate _) fun _ =>
      readOnly_ite (readOnly_validateHeaders rest) (readOnly_pure _)

lemma readOnly_validateParent (parent : Option (PartitionKey × IncomingEdgeProof)) :
    ReadOnly (validateParent t parent) := by
  cases parent with
  | none => exact readOnly_pure _
  | some =>
    exact readOnly_bind (readOnly_read _) fun _ =>
      readOnly_ite (readOnly_validateHeaders _) (readOnly_pure _)

lemma readOnly_validateOther (edit : GraphEdit) : ReadOnly (validateOther t edit) := by
  unfold validateOther
  split
  · exact readOnly_bind (readOnly_getForUpdate _) fun _ => readOnly_pure _
  · exact readOnly_pure _

/-- A planned receiver that is receiving now receives from the same source. -/
lemma DrainPlan.receiving {moves : List (ChildEntry × PartitionKey)} {movement : Movement}
    {graphs : List PreparedGraphTransition} {B : Store}
    (hplan : DrainPlan S t p moves movement graphs) (hB : Coherent ix B) (hevolves : Evolves S B)
    (hsplit : movement = .split) {m : ChildEntry × PartitionKey} (hm : m ∈ moves)
    {k : PartitionHeader} (hk : B.header t m.2 = some k) (hstate : k.state = .receivingSplit) :
    ∃ n, B.state t m.2 = some (.receivingSplit p n) := by
  obtain ⟨n, hbefore⟩ := hplan.family hsplit m hm
  have hhead : (B.topology t).head m.2 = some k.head := by simp [topology, hk]
  obtain ⟨phase, hphase⟩ := ne_none_iff_exists'.mp
    (mt ((hB.topology t).phase_none m.2).mp (by rw [hhead]; simp))
  have hagree := (hB.topology t).agree hhead hphase
  rw [PartitionHeader.head, hstate] at hagree
  cases phase with
  | receiving s =>
    have hsome : (S.topology t).phase m.2 ≠ none := by simp [topology, hbefore]
    have hsame := ((hevolves.topology t).receiving m.2 s hsome hphase).1
    obtain ⟨_, hs⟩ := phase_receiving.mp hsame
    rw [hbefore] at hs
    cases hs
    exact phase_receiving.mp hphase
  | _ => cases hagree

lemma DrainPlan.stored {movement : Movement} {B : Store}
    (hplan : DrainPlan S t p moves movement graphs) (hS : Coherent ix S) (hevolves : Evolves S B)
    (hh : S.header t p = some h) (hB : B.header t p = S.header t p) :
    (∀ m ∈ moves, B.childEntry t p m.1.child = some m.1) ∧
      (moves.map fun m => m.1.child).Nodup := by
  obtain ⟨-, hsame⟩ := (hevolves.grown hh (hB.trans hh)).same rfl
  constructor
  · intro m hm
    obtain ⟨c, hc⟩ := mem_childEntries.mp (hplan.moves.subset (mem_map.mpr ⟨m, hm, rfl⟩))
    rw [hsame.child, hS.child hc, hc]
  · have hsub := hplan.moves.map ChildEntry.child
    rw [map_map] at hsub
    exact (childEntries_nodup hS t p).sublist hsub

variable {removal : SourceRemoval} {done : Option GraphAdvance} {now : ℕ}

lemma effects_performEdit {parent : Option PartitionKey} (hr : Reading ix C s)
    (hdrain : ∀ moves movement remaining other, edit = .drain moves movement remaining other →
      movement ≠ .refine ∧ (∀ m ∈ moves, Store.childEntry (s.onto C) t p m.1.child = some m.1) ∧
        (moves.map fun m => m.1.child).Nodup ∧
        (movement = .split → ∀ m ∈ moves, ∀ k, Store.header (s.onto C) t m.2 = some k →
          k.state = movement.targetState →
            ∃ n, Store.state (s.onto C) t m.2 = some (.receivingSplit p n)))
    (hrun : Runs C (performEdit ix t p now removal parent edit) s done s') :
    Effects ix (s.onto C) (s'.onto C) ∧ ∀ moved remaining, done = some (.drained moved remaining) →
        (∃ moves movement other, edit = .drain moves movement remaining other) ∧
          Drained t p (s.onto C) (s'.onto C) moved := by
  cases edit with
  | expose _ a b =>
    simp only [performEdit, runs_bind, runs_pure] at hrun
    obtain ⟨outcome, _, hexpose, rfl, rfl, -⟩ := hrun
    refine ⟨effects_exposeSplitTargets hexpose, fun moved remaining hdone => ?_⟩
    split_ifs at hdone
    cases hdone
  | drain moves movement remaining other =>
    simp only [performEdit, runs_bind, runs_pure] at hrun
    obtain ⟨n, _, hrelocate, rfl, rfl, -⟩ := hrun
    obtain ⟨hmovement, hentries, hnodup, hfamily⟩ := hdrain moves movement remaining other rfl
    obtain ⟨heffects, hdrained⟩ := effects_relocateChildEntries hmovement hentries hnodup hfamily
      hrelocate
    refine ⟨heffects, fun moved remaining hdone => ?_⟩
    cases hdone
    exact ⟨⟨moves, movement, other, rfl⟩, hdrained⟩
  | splitComplete =>
    simp only [performEdit, runs_bind] at hrun
    obtain ⟨outcome, _, hfinalize, hrun⟩ := hrun
    have heffects := effects_finalizeSplit hr hfinalize
    cases outcome <;>
    · obtain ⟨rfl, rfl, -⟩ := runs_pure.mp hrun
      exact ⟨heffects, nofun⟩
  | mergeComplete =>
    simp only [performEdit, runs_bind, runs_pure] at hrun
    obtain ⟨_, _, hfinalize, rfl, rfl, -⟩ := hrun
    refine ⟨effects_finalizeMerge hr.store hfinalize, fun moved remaining hdone => ?_⟩
    split_ifs at hdone
    cases hdone

lemma sameWrites_performEdit {known : Option PartitionKey} (hr : Reading ix C s)
    (hrun : Runs C (performEdit ix t p now removal known edit) s none s') : s.SameWrites s' := by
  cases edit with
  | expose _ a b =>
    simp only [performEdit, runs_bind, runs_pure] at hrun
    obtain ⟨outcome, _, hexpose, hdone, rfl, -⟩ := hrun
    split_ifs at hdone with hnot
    obtain ⟨hsame, -⟩ | ⟨hexposed, -⟩ := runs_exposeSplitTargets hexpose
    · exact hsame
    · exact absurd hexposed hnot
  | drain =>
    simp only [performEdit, runs_bind, runs_pure] at hrun
    obtain ⟨n, _, -, hdone, -⟩ := hrun
    cases hdone
  | splitComplete =>
    simp only [performEdit, runs_bind] at hrun
    obtain ⟨outcome, s₃, hfinalize, hrun⟩ := hrun
    obtain ⟨hsame, -⟩ | hfinished := runs_finalizeSplit hr hfinalize
    · cases outcome <;>
      · obtain ⟨-, rfl, -⟩ := runs_pure.mp hrun
        exact hsame
    · obtain ⟨S', hS'⟩ : ∃ S' : Store, S' = s₃.onto C := ⟨_, rfl⟩
      rw [← hS'] at hfinished
      cases hfinished <;>
      · obtain ⟨hdone, -⟩ := runs_pure.mp hrun
        cases hdone
  | mergeComplete =>
    simp only [performEdit, runs_bind, runs_pure] at hrun
    obtain ⟨_, _, hfinalize, hdone, rfl, -⟩ := hrun
    split_ifs at hdone with hnot
    obtain ⟨hsame, -⟩ | ⟨hcompleted, -⟩ := runs_finalizeMerge hfinalize
    · exact hsame
    · exact absurd hcompleted hnot

/-- A graph step writes nothing, or performs its edit on the sources it was planned for
and publishes their graphs. -/
lemma runs_graphApply (hr : Reading ix C s)
    (hrun : Runs C (graphApply ix t p now removal plan) s done s') :
    (s.SameWrites s' ∧ done = none) ∨ ∃ advance s₁ s₂ u, done = some advance ∧ s.SameWrites s₁ ∧
      Fresh (s.onto C) t plan.graphs ∧
      Runs C (performEdit ix t p now removal (plan.parent.map Prod.fst) plan.edit) s₁ (some advance)
        s₂ ∧ Runs C (publishBatch t plan.graphs) s₂ u s' := by
  simp only [graphApply, runs_bind, runs_ite, runs_pure] at hrun
  obtain ⟨_, _, hfound, hrun⟩ := hrun
  have hsame₁ := (readOnly_validateParent _).sameWrites hfound
  obtain ⟨-, _, _, hprotect, hrun⟩ | ⟨-, hdone, rfl, -⟩ := hrun
  swap
  · exact .inl ⟨hsame₁, hdone⟩
  obtain ⟨hsame₂, hsources⟩ := runs_protectSources hprotect
  obtain ⟨hfresh, _, s₃, hother, hrun⟩ | ⟨-, hdone, rfl, -⟩ := hrun
  swap
  · exact .inl ⟨hsame₁.trans hsame₂, hdone⟩
  have hwrites := (hsame₁.trans hsame₂).trans ((readOnly_validateOther _).sameWrites hother)
  obtain ⟨-, advance, s₄, hperform, hrun⟩ | ⟨-, hdone, rfl, -⟩ := hrun
  swap
  · exact .inl ⟨hwrites, hdone⟩
  cases advance with
  | none =>
    obtain ⟨hdone, rfl, -⟩ := runs_pure.mp hrun
    exact .inl ⟨hwrites.trans (sameWrites_performEdit (hr.of_sameWrites hwrites) hperform), hdone⟩
  | some advance =>
    simp only [runs_bind, runs_pure] at hrun
    obtain ⟨_, _, hpublish, hdone, rfl, -⟩ := hrun
    exact .inr ⟨advance, s₃, s₄, _, hdone, hwrites, hsame₁.onto_eq C ▸ hsources hfresh, hperform,
      hpublish⟩

/-- **A planned graph step commits effects, and a drain reports what it moved.** -/
theorem effects_graphApply (hgraph : ix.localGraph = true) (hr : Reading ix C s)
    (hS : Coherent ix S) (hevolves : Evolves S (s.onto C))
    (hok : graphPlan ix build S later t p a b = .ok (some plan))
    (hrun : Runs C (graphApply ix t p now removal plan) s done s') :
    Effects ix (s.onto C) (s'.onto C) ∧ ∀ moved remaining, done = some (.drained moved remaining) →
        ∃ h h', Store.header (s.onto C) t p = some h ∧ Store.header (s'.onto C) t p = some h' ∧
          h.entryCount = h'.entryCount + moved := by
  obtain ⟨hsame, rfl⟩ | ⟨_, _, _, u, rfl, hsame, hfresh, hperform, hpublish⟩ :=
    runs_graphApply hr hrun
  · rw [hsame.onto_eq C]
    exact ⟨.refl, nofun⟩
  -- The source of a planned drain has the Header it was planned with.
  have hplanned {moves movement remaining other}
      (hedit : plan.edit = .drain moves movement remaining other) :
      DrainPlan S t p moves movement plan.graphs ∧
        ∃ h, S.header t p = some h ∧ Store.header (s.onto C) t p = S.header t p := by
    obtain ⟨hplan, h, hh⟩ := graphPlan_drain hS hok hedit
    obtain ⟨g, hg, hpartition, hheader⟩ := hplan.source
    have hsource := (hfresh g hg).1
    rw [hpartition, hheader] at hsource
    exact ⟨hplan, h, hh, hsource⟩
  have hedit := effects_performEdit (hr.of_sameWrites hsame) (by
    intro _ movement remaining _ hedit
    obtain ⟨hplan, h, hh, hB⟩ := hplanned hedit
    rw [hsame.onto_eq C]
    obtain ⟨hentries, hnodup⟩ := hplan.stored hS hevolves hh hB
    refine ⟨hplan.movement, hentries, hnodup, fun hsplit m hm k hk hkstate => ?_⟩
    subst hsplit
    exact hplan.receiving hr.store hevolves rfl hm hk hkstate) hperform
  rw [hsame.onto_eq C] at hedit
  obtain ⟨heffects, hdrained⟩ := hedit
  refine ⟨heffects.trans (effects_publishBatch hgraph hpublish), fun moved remaining hdone => ?_⟩
  obtain ⟨⟨_, _, _, hedit⟩, hmoved⟩ := hdrained moved remaining hdone
  obtain ⟨-, h, hh, hB⟩ := hplanned hedit
  obtain ⟨h', hh', hcount⟩ := hmoved h (hB.trans hh)
  refine ⟨h, h', hB.trans hh, ?_, hcount⟩
  rw [Store.header, lookup_publishBatch hpublish rfl]
  exact hh'

variable {updates : List (PartitionKey × VectorData)}

lemma effects_updateCentroids :
    ∀ {s : Txn ValueOf}, Runs C (updateCentroids t parent updates) s u s' →
      Effects ix (s.onto C) (s'.onto C) := by
  induction updates with
  | nil => exact fun hrun => effects_pure hrun
  | cons _ _ ih =>
    intro s hrun
    simp only [updateCentroids, runs_bind] at hrun
    obtain ⟨_, _, hone, hrest⟩ := hrun
    exact (effects_updateCentroid hone).trans (ih hrest)

lemma effects_publishGraphCentroids (hgraph : ix.localGraph = true)
    (hrun : Runs C (publishGraphCentroids t parent updates graphs) s u s') :
    Effects ix (s.onto C) (s'.onto C) := by
  simp only [publishGraphCentroids, runs_bind, runs_ensure] at hrun
  obtain ⟨_, _, hfresh, -, _, ⟨-, rfl, -⟩, _, _, hupdates, hpublish⟩ := hrun
  rw [← (runs_protectSources hfresh).1.onto_eq C]
  exact (effects_updateCentroids hupdates).trans (effects_publishBatch hgraph hpublish)

end
