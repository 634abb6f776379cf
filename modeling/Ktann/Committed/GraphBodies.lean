/-
The graph records of one partition.

A graph is prepared for a planned body outside any transaction and published with the
step it belongs to.  A publication replaces the whole graph of a partition.

* `GraphMatches` — the stored graph of a partition is that of its body;
* `Planned` — a plan as the transaction that commits it finds it;
* `Planned.matches_publish` — **a publication leaves the graph of the final body**.
-/
import Ktann.Committed.GraphSteps
import Ktann.Lib.Listing
import Ktann.Search.LocalHnsw

open Write (applyAll applyAll_cons applyAll_append)
open TxnM WriteTxn
open BodyPlan (graphNodes)

section

variable {ix : Index} {g : LocalGraph} {S S' B M C : Store} {t : TreeKey} {p : PartitionKey}
  {h : PartitionHeader} {s s' : Txn ValueOf} {source header : Option PartitionHeader}
  {old : Option GraphDescriptor}

/-! ### Stored bodies -/

lemma LogicalKey.terminated_lt {bytes : Bytes} {rest rest' : List ℕ} :
    terminated bytes rest < terminated bytes rest' ↔ rest < rest' := by
  induction bytes with
  | nil => simp [terminated]
  | cons b _ ih => simp [terminated, ih]

lemma LogicalKey.childEntry_lt {c c' : PartitionKey} :
    childEntry t p c < childEntry t p c' ↔ c < c' := by
  change layout (childEntry t p c) < layout (childEntry t p c') ↔ c < c'
  simp [layout, group, text, tail, terminated_lt, cons_lt_cons_iff]

def Store.OwnChildren (S : Store) (t : TreeKey) (p : PartitionKey) : Prop :=
  ∀ c e, S.childEntry t p c = some e → e.child = c

lemma Store.OwnChildren.enumerates (hS : S.OwnChildren t p) :
    Enumerates ChildEntry.child (S.childEntry t p) (S.childEntries t p) := by
  constructor
  · rw [Store.childEntries, List.pairwise_filterMap]
    refine (S.scan_sorted _).imp_of_mem ?_
    rintro ⟨k, v⟩ ⟨k', _⟩ hk hk' hlt e he _ he'
    obtain ⟨hr, hv⟩ := mem_scan.mp hk
    obtain ⟨hr', hv'⟩ := mem_scan.mp hk'
    cases k <;> simp [childRange] at hr he
    cases k' <;> simp [childRange] at hr' he'
    obtain ⟨rfl, rfl⟩ := hr
    obtain ⟨rfl, rfl⟩ := hr'
    subst he he'
    rw [hS _ _ hv, hS _ _ hv']
    exact LogicalKey.childEntry_lt.mp hlt
  · intro c e
    constructor
    · intro he
      exact ⟨mem_childEntries.mpr ⟨c, he⟩, hS c e he⟩
    · rintro ⟨he, rfl⟩
      obtain ⟨c, hc⟩ := mem_childEntries.mp he
      rwa [hS c e hc]

lemma Coherent.ownChildren (hS : Coherent ix S) : S.OwnChildren t p := fun _ _ => hS.child

lemma childEntries_congr (hchild : ∀ c, S'.childEntry t p c = S.childEntry t p c) :
    S'.childEntries t p = S.childEntries t p := by
  rw [Store.childEntries, Store.childEntries]
  refine congrArg _ (OrderedMap.scan_congr fun k hk => ?_)
  cases k <;> simp [childRange] at hk
  obtain ⟨rfl, rfl⟩ := hk
  exact hchild _

/-! ### Matching graphs -/

/-- The graph records of a partition: none for a leaf or an empty partition, and else
those of its body. -/
structure GraphMatches (g : LocalGraph) (S : Store) (t : TreeKey) (p : PartitionKey) : Prop where
  bare : S.graphHead t p = none → S.graphDescriptor t p = none ∧ ∀ n, S.graphChunk t p n = none
  nodes : ∀ {h}, S.header t p = some h → 1 < h.level → 0 < h.entryCount →
    (S.childEntries t p).length = h.entryCount
  graphed : ∀ {h}, S.header t p = some h → 1 < h.level → 0 < h.entryCount →
    ∃ body, S.graphDescriptor t p = some (g.descriptor t p (S.childEntries t p) h body) ∧
      ∀ n, S.graphChunk t p n = (graphChunkList body)[n]?

lemma graphHead_some (hh : S.header t p = some h) (level : 1 < h.level)
    (count : 0 < h.entryCount) : S.graphHead t p = some (h.level, h.entryCount, h.cacheEpoch) := by
  simp [graphHead, hh, level, count]

lemma header_of_graphHead {l n epoch : ℕ} (hhead : S.graphHead t p = some (l, n, epoch)) :
    ∃ h, S.header t p = some h ∧ h.level = l ∧ h.entryCount = n ∧ h.cacheEpoch = epoch ∧
      1 < h.level ∧ 0 < h.entryCount := by
  obtain ⟨h, hh, hif⟩ := bind_eq_some_iff.mp hhead
  split_ifs at hif with hgraph
  cases hif
  exact ⟨h, hh, rfl, rfl, rfl, hgraph⟩

section
variable (hm : GraphMatches g S t p)
include hm

lemma GraphMatches.congr (head : S'.graphHead t p = S.graphHead t p)
    (children : S'.childEntries t p = S.childEntries t p)
    (descriptor : S'.graphDescriptor t p = S.graphDescriptor t p)
    (chunk : ∀ n, S'.graphChunk t p n = S.graphChunk t p n) : GraphMatches g S' t p where
  bare hhead := by
    obtain ⟨hdescriptor, hchunk⟩ := hm.bare (head ▸ hhead)
    exact ⟨descriptor.trans hdescriptor, fun n => (chunk n).trans (hchunk n)⟩
  nodes {h} hh level count := by
    rw [graphHead_some hh level count] at head
    obtain ⟨k, hk, -, hcount, -, klevel, kcount⟩ := header_of_graphHead head.symm
    rw [children, hm.nodes hk klevel kcount, hcount]
  graphed {h} hh level count := by
    rw [graphHead_some hh level count] at head
    obtain ⟨k, hk, hlevel, hcount, hepoch, klevel, kcount⟩ := header_of_graphHead head.symm
    obtain ⟨body, hdescriptor, hchunk⟩ := hm.graphed hk klevel kcount
    refine ⟨body, ?_, fun n => (chunk n).trans (hchunk n)⟩
    rw [descriptor, hdescriptor, children,
      LocalGraph.descriptor_congr hlevel.symm hcount.symm hepoch.symm]

lemma GraphMatches.of_same (hs : SameGraph S S' t p) : GraphMatches g S' t p :=
  hm.congr hs.head (childEntries_congr hs.child) hs.descriptor hs.chunk

lemma GraphMatches.chunk_none {n : ℕ}
    (hn : (S.graphDescriptor t p).elim 0 GraphDescriptor.chunks ≤ n) :
    S.graphChunk t p n = none := by
  cases hhead : S.graphHead t p with
  | none => exact (hm.bare hhead).2 n
  | some head =>
    obtain ⟨l, k, _⟩ := head
    obtain ⟨h, hh, -, -, -, level, count⟩ := header_of_graphHead hhead
    obtain ⟨_, hdescriptor, hchunk⟩ := hm.graphed hh level count
    rw [hdescriptor, elim_some, LocalGraph.descriptor_chunks] at hn
    rw [hchunk, List.getElem?_eq_none hn]

end

/-! ### Publication writes -/

variable {k : LogicalKey}

lemma lookup_applyAll_avoid {ws : List (Write ValueOf)} :
    ∀ {S : Store}, (∀ w ∈ ws, ∀ S : Store, (w.apply S).lookup k = S.lookup k) →
      (applyAll S ws).lookup k = S.lookup k := by
  induction ws with
  | nil => exact fun _ => rfl
  | cons w _ ih =>
    intro S hws
    rw [applyAll_cons, ih fun w' hw' => hws w' (mem_cons_of_mem _ hw'), hws w mem_cons_self]

lemma publicationWrites_avoid {graph : PreparedGraphTransition}
    (hdescriptor : k ≠ .graphDescriptor t graph.partition)
    (hchunk : ∀ n, k ≠ .graphChunk t graph.partition n) :
    ∀ w ∈ publicationWrites t graph, ∀ S : Store, (w.apply S).lookup k = S.lookup k := by
  intro w hw S
  simp only [publicationWrites] at hw
  split at hw
  · cases hw
  · simp only [mem_append, mem_map] at hw
    rcases hw with hw | ⟨n, -, rfl⟩
    · split_ifs at hw
      · cases mem_singleton.mp hw
        exact lookup_erase_ne _ hdescriptor
      · cases hw
    · exact lookup_erase_ne _ (hchunk n)
  · simp only [mem_append, mem_map, mem_singleton] at hw
    rcases hw with (rfl | ⟨n, -, rfl⟩) | ⟨c, -, rfl⟩
    · exact lookup_put_ne _ _ hdescriptor
    · exact lookup_erase_ne _ (hchunk n)
    · exact lookup_put_ne _ _ (hchunk c.2)

lemma graphChunk_drop {ns : List ℕ} {m : ℕ} : ∀ {M : Store},
    Store.graphChunk (applyAll M (ns.map fun n => Write.delete (.graphChunk t p n))) t p m =
      if m ∈ ns then none else M.graphChunk t p m := by
  induction ns with
  | nil => simp
  | cons n ns ih =>
    intro M
    rw [map_cons, applyAll_cons, ih]
    by_cases hm : m ∈ ns
    · simp [hm]
    · by_cases hn : m = n <;> simp [Write.apply, hm, hn]

lemma graphChunk_putAll {chunks : List Bytes} {m : ℕ} : ∀ {first : ℕ} {M : Store},
    Store.graphChunk (applyAll M ((chunks.zipIdx first).map fun c =>
        Write.put (.graphChunk t p c.2) c.1)) t p m =
      if first ≤ m ∧ m < first + chunks.length then chunks[m - first]? else M.graphChunk t p m := by
  induction chunks with
  | nil => intro first M; simp
  | cons chunk _ ih =>
    intro first M
    rw [List.zipIdx_cons, map_cons, applyAll_cons, ih]
    have hput : Store.graphChunk ((Write.put (.graphChunk t p first) chunk).apply M) t p m =
        if m = first then some chunk else M.graphChunk t p m := by
      simp [Write.apply]
    rw [hput, length_cons]
    by_cases hlt : m < first
    · rw [if_neg (by omega), if_neg (by omega), if_neg (by omega)]
    · obtain ⟨d, rfl⟩ := Nat.exists_eq_add_of_le (not_lt.mp hlt)
      cases d with
      | zero => simp
      | succ d =>
        have hsub : first + (d + 1) - (first + 1) = d := by omega
        have hsub' : first + (d + 1) - first = d + 1 := by omega
        have hne : first + (d + 1) ≠ first := by omega
        rw [hsub, hsub', List.getElem?_cons_succ, if_neg hne]
        refine if_congr ?_ rfl rfl
        omega

lemma graphDescriptor_drop {ns : List ℕ} :
    Store.graphDescriptor (applyAll M (ns.map fun n => Write.delete (.graphChunk t p n))) t p =
      M.graphDescriptor t p := by
  refine lookup_applyAll_avoid fun w hw S => ?_
  obtain ⟨n, -, rfl⟩ := mem_map.mp hw
  exact lookup_erase_ne _ (by simp)

lemma graphDescriptor_putAll {chunks : List Bytes} {first : ℕ} :
    Store.graphDescriptor (applyAll M ((chunks.zipIdx first).map fun c =>
        Write.put (.graphChunk t p c.2) c.1)) t p = M.graphDescriptor t p := by
  refine lookup_applyAll_avoid fun w hw S => ?_
  obtain ⟨c, -, rfl⟩ := mem_map.mp hw
  exact lookup_put_ne _ _ (by simp)

lemma publish_remove {M' : Store}
    (hM' : M' = applyAll M (publicationWrites t ⟨p, source, old, .remove header⟩)) :
    M'.graphDescriptor t p = (if old.isSome then none else M.graphDescriptor t p) ∧
      ∀ n, M'.graphChunk t p n =
        if n < old.elim 0 GraphDescriptor.chunks then none else M.graphChunk t p n := by
  subst hM'
  simp only [publicationWrites, applyAll_append, Nat.sub_zero, ← List.range_eq_range']
  constructor
  · rw [graphDescriptor_drop]
    cases old <;> simp [Write.apply]
  · intro n
    rw [graphChunk_drop]
    refine if_congr List.mem_range rfl ?_
    cases old <;> simp [Write.apply]

lemma publish_replace {header : PartitionHeader} {records : GraphRecords} {M' : Store}
    (hM' : M' = applyAll M (publicationWrites t ⟨p, source, old, .replace header records⟩)) :
    M'.graphDescriptor t p = some records.descriptor ∧
      ∀ n, M'.graphChunk t p n = if n < records.chunks.length then records.chunks[n]?
        else if records.descriptor.chunks ≤ n ∧ n < old.elim 0 GraphDescriptor.chunks then none
        else M.graphChunk t p n := by
  subst hM'
  simp only [publicationWrites, applyAll_append]
  constructor
  · rw [graphDescriptor_putAll, graphDescriptor_drop]
    simp [Write.apply]
  · intro n
    rw [graphChunk_putAll, graphChunk_drop]
    simp only [Nat.zero_le, true_and, Nat.zero_add, Nat.sub_zero, List.mem_range'_1,
      applyAll_cons, Write.applyAll_nil, Write.apply, Store.graphChunk_put]
    refine if_congr Iff.rfl rfl (if_congr ?_ rfl rfl)
    omega

/-! ### Publications of planned bodies -/

/-- A planned body as the transaction that commits it finds it: before the step in `B`
it is as it was read, and after the step in `M` it has the planned children. -/
structure Planned (g : LocalGraph) (t : TreeKey) (B M : Store) (body : BodyPlan) : Prop where
  treeKey : body.treeKey = t
  sourceNodes : body.sourceChildren.length = graphNodes body.sourceHeader
  sourceHeader : B.header t body.partition = body.sourceHeader
  sourceDescriptor : B.graphDescriptor t body.partition = body.sourceDescriptor
  sourceChildren : B.childEntries t body.partition = body.sourceChildren
  children : M.childEntries t body.partition = body.children
  descriptor : M.graphDescriptor t body.partition = B.graphDescriptor t body.partition
  chunk : ∀ n, M.graphChunk t body.partition n = B.graphChunk t body.partition n

lemma prepare_ok {build : GraphBuilder} {body : BodyPlan} {graph : PreparedGraphTransition}
    (hok : prepare build body = .ok graph) : graphNodes body.header = body.children.length ∧
      ∃ publication, body.publication build = .ok publication ∧
        graph = ⟨body.partition, body.sourceHeader, body.sourceDescriptor, publication⟩ := by
  rw [prepare] at hok
  split_ifs at hok with hinvalid
  obtain ⟨publication, hpublication, hok⟩ := bind_eq_ok.mp hok
  cases hok
  simp only [not_or, not_not] at hinvalid
  exact ⟨hinvalid.1, publication, hpublication, rfl⟩

lemma BodyPlan.publication_ok {build : GraphBuilder} {body : BodyPlan}
    {publication : GraphPublication} (hok : body.publication build = .ok publication) :
    (∃ old new, body.sourceHeader = some old ∧ body.header = some new ∧ old.level = new.level ∧
        old.cacheEpoch = new.cacheEpoch ∧ body.sourceChildren = body.children ∧
        publication = .preserve new) ∨
      (∃ header records, body.header = some header ∧ build body header = .ok records ∧
        publication = .replace header records) ∨
      ((body.header = none ∨ body.children = []) ∧ publication = .remove body.header) := by
  rw [BodyPlan.publication] at hok
  split_ifs at hok with hunchanged
  · left
    rw [BodyPlan.unchanged] at hunchanged
    split at hunchanged
    · rename_i old new hold hnew
      simp only [hnew, and_eq_true, decide_eq_true_eq] at hunchanged hok
      cases hok
      exact ⟨old, new, hold, hnew, hunchanged.1.1, hunchanged.1.2, hunchanged.2, rfl⟩
    · cases hunchanged
  · right
    split at hok
    · rename_i header e rest hheader hchildren
      obtain ⟨records, hbuild, hok⟩ := bind_eq_ok.mp hok
      cases hok
      exact .inl ⟨header, records, hheader, hbuild, rfl⟩
    · rename_i header hnot
      cases hok
      refine .inr ⟨?_, rfl⟩
      cases hheader : body.header with
      | none => exact .inl rfl
      | some header =>
        right
        cases hchildren : body.children with
        | nil => rfl
        | cons e rest => exact (hnot header e rest hheader hchildren).elim

section

variable {body : BodyPlan} {graph : PreparedGraphTransition}

lemma graphHead_of_nodes (hheader : S.header t p = header)
    (hnodes : graphNodes header = 0) : S.graphHead t p = none := by
  cases header with
  | none => exact graphHead_absent hheader
  | some h =>
    simp only [graphNodes, elim_some, ite_eq_right_iff] at hnodes
    simp only [graphHead, hheader, bind_some, ite_eq_right_iff]
    rintro ⟨level, _⟩
    have := hnodes level
    omega

/-- **A publication leaves the graph of the final body.** -/
theorem Planned.matches_publish (hplan : Planned g t B M body)
    (hprepare : prepare g.build body = .ok graph) (hB : GraphMatches g B t body.partition)
    (hheader : M.header t body.partition = graph.publication.header) :
    GraphMatches g (applyAll M (publicationWrites t graph)) t body.partition := by
  obtain ⟨hnodes, publication, hpublication, rfl⟩ := prepare_ok hprepare
  set M' : Store := applyAll M (publicationWrites t ⟨body.partition, body.sourceHeader,
    body.sourceDescriptor, publication⟩) with hM'
  have hkeep {k : LogicalKey} (hk : k.isGraph = false) : M'.lookup k = M.lookup k :=
    lookup_applyAll_onGraph hk (publicationWrites_onGraph _)
  have hheader' : M'.header t body.partition = publication.header := (hkeep rfl).trans hheader
  have hchildren : M'.childEntries t body.partition = body.children :=
    (childEntries_congr fun c => hkeep rfl).trans hplan.children
  rcases BodyPlan.publication_ok hpublication with
    ⟨old, new, hold, hnew, hlevel, hepoch, hsame, rfl⟩ |
    ⟨header, records, hheader₀, hbuild, rfl⟩ | ⟨hempty, rfl⟩
  · -- an unchanged body keeps its graph
    refine hB.congr ?_ (hchildren.trans (hsame.symm.trans hplan.sourceChildren.symm))
      hplan.descriptor hplan.chunk
    have hnodes' := hplan.sourceNodes
    rw [hsame, ← hnodes, hold, hnew] at hnodes'
    simp only [graphNodes, elim_some, hlevel] at hnodes'
    have hnew' : M'.header t body.partition = some new := hheader'
    have hold' := hplan.sourceHeader.trans hold
    simp only [graphHead, hnew', hold', bind_some, hlevel, hepoch]
    split_ifs at hnodes' with hinternal
    · rw [hnodes']
    · simp [hinternal]
  · -- a replaced graph has every chunk of the new one and none of the old
    obtain ⟨level, hsome, count, encoded, rfl⟩ := LocalGraph.build_ok hbuild
    have hnew : M'.header t body.partition = some header := hheader'
    obtain ⟨hdescriptor, hchunk'⟩ := publish_replace hM'
    have hchunk : ∀ n, M'.graphChunk t body.partition n = (graphChunkList encoded)[n]? := by
      intro n
      simp only [hchunk', LocalGraph.descriptor_chunks]
      split_ifs with hnew' hold
      · rfl
      · rw [List.getElem?_eq_none (by omega)]
      · have hn : (B.graphDescriptor t body.partition).elim 0 GraphDescriptor.chunks ≤ n := by
          rw [hplan.sourceDescriptor]
          omega
        rw [hplan.chunk, hB.chunk_none hn, List.getElem?_eq_none (by omega)]
    refine ⟨fun hhead => ?_, fun {h} hh hlevel hcount => ?_,
      fun {h} hh hlevel hcount => ⟨encoded, ?_, hchunk⟩⟩
    · have hpos : 0 < header.entryCount := by omega
      rw [graphHead_some hnew level hpos] at hhead
      cases hhead
    · cases hnew.symm.trans hh
      rw [hchildren, count]
    · cases hnew.symm.trans hh
      rw [hdescriptor, hchildren, hplan.treeKey]
  · -- a removed graph leaves no record
    have hzero : graphNodes body.header = 0 := by
      rcases hempty with hnone | hnil
      · rw [hnone]
        rfl
      · rw [hnodes, hnil]
        rfl
    have hhead : M'.graphHead t body.partition = none := graphHead_of_nodes hheader' hzero
    obtain ⟨hdescriptor, hchunk⟩ := publish_remove hM'
    have hinternal {h} (hh : M'.header t body.partition = some h) (hlevel : 1 < h.level)
        (hcount : 0 < h.entryCount) : False := by
      rw [graphHead_some hh hlevel hcount] at hhead
      cases hhead
    refine ⟨fun _ => ⟨?_, fun n => ?_⟩, fun hh hlevel hcount => (hinternal hh hlevel hcount).elim,
      fun hh hlevel hcount => (hinternal hh hlevel hcount).elim⟩
    · rw [hdescriptor, hplan.descriptor, hplan.sourceDescriptor]
      cases body.sourceDescriptor <;> rfl
    · rw [hchunk]
      split_ifs with hold
      · rfl
      · rw [hplan.chunk, hB.chunk_none]
        rw [hplan.sourceDescriptor]
        omega

variable {graphs : List PreparedGraphTransition}

lemma runs_validateTargets {u : Unit} :
    ∀ {s : Txn ValueOf}, Runs C (validateTargets t graphs) s u s' →
      ∀ graph ∈ graphs, Store.header (s.onto C) t graph.partition = graph.publication.header := by
  induction graphs with
  | nil => exact nofun
  | cons g _ ih =>
    intro s hrun graph hgraph
    simp only [validateTargets, runs_bind, runs_getHeader, runs_ensure] at hrun
    obtain ⟨_, _, ⟨rfl, rfl, -⟩, -, _, ⟨hheader, rfl, -⟩, hrest⟩ := hrun
    rcases mem_cons.mp hgraph with rfl | hgraph
    · exact hheader
    · exact ih hrest graph hgraph

lemma lookup_publications (hnodup : (graphs.map PreparedGraphTransition.partition).Nodup)
    (hgraph : graph ∈ graphs)
    (hk : k = .graphDescriptor t graph.partition ∨ ∃ n, k = .graphChunk t graph.partition n) :
    (applyAll M (graphs.flatMap (publicationWrites t))).lookup k =
      (applyAll M (publicationWrites t graph)).lookup k := by
  obtain ⟨before, after, rfl⟩ := List.append_of_mem hgraph
  have havoid : ∀ graphs' : List PreparedGraphTransition,
      (∀ graph' ∈ graphs', graph'.partition ≠ graph.partition) → ∀ S : Store,
        (applyAll S (graphs'.flatMap (publicationWrites t))).lookup k = S.lookup k := by
    intro _ hne S
    refine lookup_applyAll_avoid fun w hw => ?_
    obtain ⟨graph', hgraph', hw⟩ := mem_flatMap.mp hw
    have hne := (hne graph' hgraph').symm
    refine publicationWrites_avoid ?_ ?_ w hw
    all_goals rcases hk with rfl | ⟨n, rfl⟩ <;> simp [hne]
  rw [map_append, map_cons, List.nodup_append] at hnodup
  obtain ⟨-, hafter, hdisjoint⟩ := hnodup
  rw [List.flatMap_append, flatMap_cons, applyAll_append, applyAll_append,
    havoid after fun graph' hgraph' heq => ?_]
  · refine Write.lookup_applyAll_congr _ (havoid before (fun graph' hgraph' heq => ?_) M)
    exact hdisjoint _ (mem_map_of_mem hgraph') _ mem_cons_self heq
  · exact (nodup_cons.mp hafter).1 (heq ▸ mem_map_of_mem hgraph')

/-- **A published batch leaves every partition with the graph of its body.** -/
theorem matches_publishBatch {u : Unit} (hB : ∀ t p, GraphMatches g B t p)
    (hnodup : (graphs.map PreparedGraphTransition.partition).Nodup)
    (hplanned : ∀ graph ∈ graphs, ∃ body, prepare g.build body = .ok graph ∧
      Planned g t B (s.onto C) body)
    (hother : ∀ {t' q}, (t' = t → ∀ graph ∈ graphs, graph.partition ≠ q) →
      SameGraph B (s.onto C) t' q) (hrun : Runs C (publishBatch t graphs) s u s') (t' : TreeKey)
    (q : PartitionKey) : GraphMatches g (s'.onto C) t' q := by
  have hkeep {k : LogicalKey} (hk : k.isGraph = false) :
      (s'.onto C).lookup k = (s.onto C).lookup k := lookup_publishBatch hrun hk
  simp only [publishBatch, runs_bind] at hrun
  obtain ⟨_, _, hvalid, hstage⟩ := hrun
  have hsame := (readOnly_validateTargets graphs).sameWrites hvalid
  have hstore : s'.onto C = applyAll (s.onto C) (graphs.flatMap (publicationWrites t)) := by
    rw [runs_stageAll hstage, hsame.onto_eq C]
  by_cases hq : t' = t ∧ ∃ graph ∈ graphs, graph.partition = q
  · obtain ⟨rfl, graph, hgraph, rfl⟩ := hq
    obtain ⟨_, hprepare, hplan⟩ := hplanned graph hgraph
    have hpartition := (prepare_source hprepare).1
    have hmatches := hplan.matches_publish hprepare (hB _ _)
      (hpartition ▸ runs_validateTargets hvalid graph hgraph)
    rw [← hpartition] at hmatches
    have hown {k : LogicalKey} (hk : k.isGraph = false) : (s'.onto C).lookup k =
        (applyAll (s.onto C) (publicationWrites t' graph)).lookup k :=
      (hkeep hk).trans (lookup_applyAll_onGraph hk (publicationWrites_onGraph graph)).symm
    refine hmatches.congr (graphHead_congr (hown rfl)) (childEntries_congr fun c => hown rfl) ?_ ?_
    · rw [hstore]
      exact lookup_publications hnodup hgraph (.inl rfl)
    · intro n
      rw [hstore]
      exact lookup_publications hnodup hgraph (.inr ⟨n, rfl⟩)
  · have hne : t' = t → ∀ graph ∈ graphs, graph.partition ≠ q :=
      fun ht graph hgraph heq => hq ⟨ht, graph, hgraph, heq⟩
    have havoid {k : LogicalKey}
        (hk : k = .graphDescriptor t' q ∨ ∃ n, k = .graphChunk t' q n) :
        (s'.onto C).lookup k = (s.onto C).lookup k := by
      rw [hstore]
      refine lookup_applyAll_avoid fun w hw => ?_
      obtain ⟨graph, hgraph, hw⟩ := mem_flatMap.mp hw
      have hne' := fun ht : t' = t => hne ht graph hgraph
      refine publicationWrites_avoid ?_ ?_ w hw <;> rcases hk with rfl | ⟨n, rfl⟩ <;> grind
    exact ((hB t' q).of_same (hother hne)).congr (graphHead_congr (hkeep rfl))
      (childEntries_congr fun c => hkeep rfl) (havoid (.inl rfl)) fun n => havoid (.inr ⟨n, rfl⟩)

end

end
