/-
A serving artifact is a well-formed index.

The joins consume every row, so that what was read of the source and of the forest is
exactly what was written.  Read as a store, the pairs are an index at rest: every
partition is Ready, and every fact about a tree follows from the one parent the join
found for each partition.

* `joinRecords_ok`, `joinNodes_ok`, `readForest_rooted` — what the inputs of a
  successful build are;
* `build_serves` — what its pairs are.
-/
import Ktann.Bulk.Serving
import Ktann.Committed.GraphBodies
import Ktann.Committed.Guarantees

open OrderedMap (mem_entries)
open List (filterMap_append)

namespace Serving

open LogicalKey (terminated bodyRange)
open Serving.Joined (leafPair recordPairs)

variable {ix : Index} {graph : BuildGraph} {input : Input} {forest : List ForestPartition}
  {pairs : List Pair} {joined : List Joined} {nodes : List Node}

/-! ### The joins -/

/-- The rows a joined node was made of. -/
def Node.rows (n : Node) : List NodeRow :=
  .partition n.node n.level n.count n.centroid ::
    (n.parent.map fun p => NodeRow.parent n.node p (n.level + 1)).toList

lemma lt_of_sameNext {node : RecordLocation} {rows : List NodeRow}
    (hle : ∀ r ∈ rows, node ≤ r.node) (hsorted : rows.Pairwise fun a b => a.node ≤ b.node)
    (hnext : sameNext node rows = false) : ∀ r ∈ rows, node < r.node := by
  cases rows with
  | nil => simp
  | cons row =>
    have hne : row.node ≠ node := by simpa [sameNext] using hnext
    have hlt : node < row.node := lt_of_le_of_ne (hle row mem_cons_self) (Ne.symm hne)
    intro r hr
    rcases mem_cons.mp hr with rfl | hr
    · exact hlt
    · exact hlt.trans_le ((pairwise_cons.mp hsorted).1 r hr)

variable {n : Node} {t : TreeKey} {p : PartitionKey} {x : Pair}

lemma mem_flatMap_rows (hn : n ∈ nodes) :
    NodeRow.partition n.node n.level n.count n.centroid ∈ nodes.flatMap Node.rows :=
  mem_flatMap.mpr ⟨n, hn, mem_cons_self⟩

/-- **The join of partitions** consumes every row, and finds no node twice. -/
theorem joinNodes_ok : ∀ {rows : List NodeRow} {nodes : List Node}, joinNodes rows = .ok nodes →
    (rows.Pairwise fun a b => a.node ≤ b.node) → rows = nodes.flatMap Node.rows ∧
      (∀ n ∈ nodes, n.parent = none ↔ n.node.leaf = rootPartition) ∧
      nodes.Pairwise fun a b => a.node < b.node := by
  intro rows
  induction rows using joinNodes.induct with
  | case1 =>
    intro nodes h _
    cases h
    exact ⟨rfl, by simp, List.Pairwise.nil⟩
  | case2 =>
    intro nodes h
    rw [joinNodes] at h
    cases h
  | case3 node level count centroid hroot =>
    intro nodes h _
    rw [joinNodes, if_pos hroot] at h
    cases h
    exact ⟨rfl, by simp [hroot], List.pairwise_singleton _ _⟩
  | case4 node level count centroid hroot =>
    intro nodes h _
    rw [joinNodes, if_neg hroot] at h
    cases h
  | case5 node level count centroid _ _ _ _ rows hbad =>
    intro nodes h _
    rw [joinNodes, if_pos hbad] at h
    cases h
  | case6 node level count centroid _ _ _ _ rows hgood ih =>
    intro nodes h hsorted
    rw [joinNodes, if_neg hgood] at h
    obtain ⟨_, hrest, h⟩ := bind_eq_ok.mp h
    cases h
    rw [not_or, not_not] at hgood
    -- A root.  The next row is of another node, and so is every later one.
    obtain ⟨hle, hsorted⟩ := pairwise_cons.mp hsorted
    obtain ⟨hrows, hparent, hpair⟩ := ih hrest hsorted
    refine ⟨by rw [hrows]; rfl, forall_mem_cons.mpr ⟨by simp [hgood.1], hparent⟩,
      pairwise_cons.mpr ⟨fun m hm => ?_, hpair⟩⟩
    have hmem := mem_flatMap_rows hm
    rw [← hrows] at hmem
    exact lt_of_sameNext hle hsorted (by simp [sameNext, NodeRow.node, hgood.2]) _ hmem
  | case7 _ _ _ _ _ parent _ rows hbad =>
    intro nodes h _
    rw [joinNodes, if_pos hbad] at h
    cases h
  | case8 _ _ _ _ _ parent _ rows hgood ih =>
    intro _ h hsorted
    rw [joinNodes, if_neg hgood] at h
    obtain ⟨_, hrest, h⟩ := bind_eq_ok.mp h
    cases h
    simp only [not_or, not_not, Bool.not_eq_true] at hgood
    -- A partition with its parent.  No second parent follows, as the rows are in order.
    obtain ⟨hroot, rfl, rfl, hnext⟩ := hgood
    obtain ⟨hle, hsorted⟩ := pairwise_cons.mp hsorted
    obtain ⟨-, hsorted⟩ := pairwise_cons.mp hsorted
    obtain ⟨hrows, hparent, hpair⟩ := ih hrest hsorted
    refine ⟨by rw [hrows]; rfl, forall_mem_cons.mpr ⟨by simp [hroot], hparent⟩,
      pairwise_cons.mpr ⟨fun m hm => ?_, hpair⟩⟩
    have hmem := mem_flatMap_rows hm
    rw [← hrows] at hmem
    exact lt_of_sameNext (fun r hr => hle r (mem_cons_of_mem _ hr)) hsorted hnext _ hmem

/-- **The join of records** consumes every record and every assignment. -/
theorem joinRecords_ok : ∀ {records : List Record} {previous : Option RecordId}
    {assigned : List (RecordId × RecordLocation)} {joined : List Joined},
    joinRecords ix previous records assigned = .ok joined → joined.map Joined.record = records ∧
      joined.map (fun j => (j.record.id, j.node)) = assigned ∧
      (∀ j ∈ joined, treeKeyOf ix j.record = .ok j.node.treeKey ∧
        leafEntryOf ix j.record = .ok j.entry) ∧ ((records.Pairwise fun a b => a.id ≤ b.id) →
        (∀ k, previous = some k → ∀ r ∈ records, k ≤ r.id) →
          (records.Pairwise fun a b => a.id < b.id) ∧
            ∀ k, previous = some k → ∀ r ∈ records, k < r.id) := by
  intro records
  induction records with
  | nil =>
    intro previous assigned joined h
    cases assigned with
    | nil =>
      cases h
      exact ⟨rfl, rfl, by simp, fun _ _ => ⟨List.Pairwise.nil, by simp⟩⟩
    | cons => cases h
  | cons r _ ih =>
    intro _ assigned _ h
    rw [joinRecords.eq_def] at h
    simp only at h
    split_ifs at h with hprevious
    cases assigned with
    | nil => cases h
    | cons a =>
      obtain ⟨id, _⟩ := a
      simp only at h
      split_ifs at h with hid
      obtain ⟨_, htree, h⟩ := bind_eq_ok.mp h
      split_ifs at h with hkey
      obtain ⟨_, hentry, h⟩ := bind_eq_ok.mp h
      obtain ⟨_, hrest, h⟩ := bind_eq_ok.mp h
      cases h
      -- The record and the assignment have one ID and one tree.
      rw [not_not] at hid hkey
      subst hid hkey
      obtain ⟨hrecords, hassigned, hfacts, hsorted⟩ := ih hrest
      refine ⟨by rw [map_cons, hrecords], by rw [map_cons, hassigned],
        forall_mem_cons.mpr ⟨⟨htree, hentry⟩, hfacts⟩, fun hle hprev => ?_⟩
      obtain ⟨hfirst, hle⟩ := pairwise_cons.mp hle
      obtain ⟨hlt, hall⟩ := hsorted hle fun k hk => by
        cases hk
        exact hfirst
      refine ⟨pairwise_cons.mpr ⟨hall r.id rfl, hlt⟩, fun k hk => ?_⟩
      -- An ID equal to the one before it was rejected.
      have hk' : k < r.id :=
        lt_of_le_of_ne (hprev k hk r mem_cons_self) fun heq => hprevious (heq ▸ hk)
      exact forall_mem_cons.mpr ⟨hk', fun s hs => hk'.trans (hall r.id rfl s hs)⟩

/-! ### The forest -/

def Rooted (forest : List ForestPartition) (t : TreeKey) : Prop :=
  ∃ f ∈ forest, f.treeKey = t ∧ f.partition.key = rootPartition

/-- Trees before the current one have their root. -/
def ForestReader.Ends (forest : List ForestPartition) (r : ForestReader) : Prop :=
  ∀ f ∈ forest, Rooted forest f.treeKey ∨ (r.tree = some f.treeKey ∧ r.rooted = false)

lemma Rooted.append {more : List ForestPartition} (h : Rooted forest t) :
    Rooted (forest ++ more) t := by
  obtain ⟨f, hf, hkey⟩ := h
  exact ⟨f, mem_append_left _ hf, hkey⟩

lemma ForestReader.decode_ok {expected : ℕ} {r r' : ForestReader} {f : ForestPartition}
    (h : r.decode ix expected f = .ok r') (hr : r.Ends forest) :
    r'.Ends (forest ++ [f]) ∧ f.partition.key < u64Bound ∧ 0 < f.partition.entries.length := by
  rw [decode] at h
  obtain ⟨_, hplan, h⟩ := bind_eq_ok.mp h
  obtain ⟨r₁, henter, h⟩ := bind_eq_ok.mp h
  obtain ⟨r₂, hplace, hcount⟩ := bind_eq_ok.mp h
  have hbounds : f.partition.key < u64Bound ∧ 0 < f.partition.entries.length := by
    rw [decodePlan] at hplan
    split_ifs at hplan with hkey hlevel hentries
    omega
  refine ⟨?_, hbounds⟩
  -- The tree is entered: the trees before it have their root.
  have hentered : r₁.tree = some f.treeKey ∧
      ∀ g ∈ forest, Rooted forest g.treeKey ∨ (f.treeKey = g.treeKey ∧ r₁.rooted = false) := by
    rw [enter] at henter
    split_ifs at henter with hsame hbad
    · cases henter
      refine ⟨hsame, fun g hg => (hr g hg).imp_right fun hg => ⟨?_, hg.2⟩⟩
      exact Option.some.inj (hsame.symm.trans hg.1)
    · cases henter
      refine ⟨rfl, fun g hg => .inl ((hr g hg).resolve_right fun hg => hbad (.inr ⟨?_, hg.2⟩))⟩
      simp [hg.1]
  have hsame : r'.tree = r₂.tree ∧ r'.rooted = r₂.rooted := by
    rw [count] at hcount
    split_ifs at hcount <;> cases hcount <;> exact ⟨rfl, rfl⟩
  rw [place] at hplace
  split_ifs at hplace with hlevel hroot hnext
  -- The root ends its tree; any other partition leaves it open.
  · cases hplace
    have hrooted : Rooted (forest ++ [f]) f.treeKey := ⟨f, by simp, rfl, hroot⟩
    intro g hg
    left
    rcases mem_append.mp hg with hg | hg
    · rcases hentered.2 g hg with hdone | ⟨htree, -⟩
      · exact hdone.append
      · exact htree ▸ hrooted
    · rw [mem_singleton.mp hg]
      exact hrooted
  · cases hplace
    rw [not_or, Bool.not_eq_true] at hlevel
    intro g hg
    rw [hsame.1, hsame.2]
    rcases mem_append.mp hg with hg | hg
    · rcases hentered.2 g hg with hdone | ⟨htree, -⟩
      · exact .inl hdone.append
      · exact .inr ⟨htree ▸ hentered.1, hlevel.1⟩
    · rw [mem_singleton.mp hg]
      exact .inr ⟨hentered.1, hlevel.1⟩

/-- **Every tree of an accepted forest has its root.** -/
theorem readForest_rooted {expected : ℕ} (h : readForest ix expected forest = .ok ()) :
    ∀ f ∈ forest, Rooted forest f.treeKey ∧ f.partition.key < u64Bound ∧
      0 < f.partition.entries.length := by
  have hall : ∀ {rest : List ForestPartition} {before : List ForestPartition} {r r' : ForestReader},
      rest.foldlM (ForestReader.decode ix expected) r = .ok r' → r.Ends before →
      (∀ f ∈ before, f.partition.key < u64Bound ∧ 0 < f.partition.entries.length) →
        r'.Ends (before ++ rest) ∧
          ∀ f ∈ before ++ rest, f.partition.key < u64Bound ∧ 0 < f.partition.entries.length := by
    intro rest
    induction rest with
    | nil =>
      intro before r r' hfold hr hbefore
      cases hfold
      rw [append_nil]
      exact ⟨hr, hbefore⟩
    | cons f _ ih =>
      intro _ r r' hfold hr hbefore
      rw [foldlM_cons] at hfold
      obtain ⟨_, hdecode, hfold⟩ := bind_eq_ok.mp hfold
      obtain ⟨hends, hbounds⟩ := ForestReader.decode_ok hdecode hr
      have hnext := ih hfold hends (List.forall_mem_append.mpr ⟨hbefore, by simpa using hbounds⟩)
      rwa [append_assoc] at hnext
  rw [readForest] at h
  obtain ⟨r, hfold, h⟩ := bind_eq_ok.mp h
  split_ifs at h with hbad
  obtain ⟨hends, hbounds⟩ := @hall forest [] _ _ hfold nofun
    nofun
  rw [nil_append] at hends hbounds
  intro f hf
  refine ⟨(hends f hf).resolve_right fun hopen => hbad (.inr ⟨?_, hopen.2⟩), hbounds f hf⟩
  simp [hopen.1]

/-! ### What was joined -/

/-- The outcome of both joins. -/
structure Joins (ix : Index) (input : Input) (forest : List ForestPartition) (joined : List Joined)
    (nodes : List Node) : Prop where
  records : (joined.map Joined.record).Perm input.records
  distinct : joined.Pairwise fun a b => a.record.id < b.record.id
  derived : ∀ j ∈ joined, treeKeyOf ix j.record = .ok j.node.treeKey ∧
    leafEntryOf ix j.record = .ok j.entry
  assigned : (joined.map fun j => (j.record.id, j.node)).Perm (assignments forest)
  root : ∀ n ∈ nodes, n.parent = none ↔ n.node.leaf = rootPartition
  ordered : nodes.Pairwise fun a b => a.node < b.node
  rows : (nodes.flatMap Node.rows).Perm (forest.flatMap ForestPartition.rows)
  frames : ∀ f ∈ forest, Rooted forest f.treeKey ∧ f.partition.key < u64Bound ∧
    0 < f.partition.entries.length

lemma join_ok (h : join ix input forest = .ok (joined, nodes)) :
    Joins ix input forest joined nodes := by
  rw [join] at h
  obtain ⟨_, hforest, h⟩ := bind_eq_ok.mp h
  obtain ⟨_, hjoined, h⟩ := bind_eq_ok.mp h
  split_ifs at h with hitems
  obtain ⟨_, hnodes, h⟩ := bind_eq_ok.mp h
  cases h
  obtain ⟨hrecords, hassigned, hderived, hstrict⟩ := joinRecords_ok hjoined
  have hsorted : (sortBy NodeRow.sortKey (forest.flatMap ForestPartition.rows)).Pairwise
      fun a b => a.node ≤ b.node := by
    refine (List.pairwise_insertionSort _ _).imp fun {a b} hab => ?_
    exact (Prod.Lex.le_iff.mp hab).elim le_of_lt fun heq => heq.1.le
  obtain ⟨hrows, hroot, hordered⟩ := joinNodes_ok hnodes hsorted
  refine ⟨hrecords ▸ sortBy_perm _ _, ?_, hderived, hassigned ▸ sortBy_perm _ _, hroot, hordered,
    hrows ▸ sortBy_perm _ _, readForest_rooted hforest⟩
  have hlt := (hstrict (List.pairwise_insertionSort _ _) nofun).1
  rw [← hrecords, pairwise_map] at hlt
  exact hlt

lemma length_filter_flatMap {β γ κ : Type} [DecidableEq κ] {key : β → κ} {owner : γ → κ}
    {g : β → List γ} : ∀ {l : List β}, (l.map key).Nodup →
      (∀ b ∈ l, ∀ c ∈ g b, owner c = key b) → ∀ b ∈ l,
        ((l.flatMap g).filter fun c => owner c = key b).length = (g b).length := by
  intro l
  induction l with
  | nil => simp
  | cons a l ih =>
    intro hnodup howner b hb
    rw [map_cons, nodup_cons] at hnodup
    have hrest := fun b hb => howner b (mem_cons_of_mem _ hb)
    rw [flatMap_cons, filter_append, length_append]
    rcases mem_cons.mp hb with rfl | hb
    · have hall : (g b).filter (fun c => owner c = key b) = g b :=
        filter_eq_self.mpr fun c hc => by simp [howner b mem_cons_self c hc]
      have hnone : (l.flatMap g).filter (fun c => owner c = key b) = [] := by
        refine filter_eq_nil_iff.mpr fun c hc => ?_
        obtain ⟨d, hd, hc⟩ := mem_flatMap.mp hc
        rw [hrest d hd c hc]
        simpa using fun heq : key d = key b => hnodup.1 (heq ▸ mem_map_of_mem hd)
      rw [hall, hnone, length_nil, Nat.add_zero]
    · have hnone : (g a).filter (fun c => owner c = key b) = [] := by
        refine filter_eq_nil_iff.mpr fun c hc => ?_
        rw [howner a mem_cons_self c hc]
        simpa using fun heq : key a = key b => hnodup.1 (heq ▸ mem_map_of_mem hb)
      rw [hnone, length_nil, Nat.zero_add]
      exact ih hnodup.2 hrest b hb

lemma length_filter_flatMap_one {β γ : Type} {g : β → List γ} {f : γ → Bool} {q : β → Prop}
    [DecidablePred q] : ∀ {l : List β}, (∀ b ∈ l, ((g b).filter f).length = if q b then 1 else 0) →
        ((l.flatMap g).filter f).length = (l.filter fun b => q b).length := by
  intro l
  induction l with
  | nil => simp
  | cons b l ih =>
    intro h
    rw [flatMap_cons, filter_append, length_append, h b mem_cons_self,
      ih fun c hc => h c (mem_cons_of_mem _ hc), List.filter_cons]
    by_cases hb : q b
    · simp [hb, Nat.add_comm]
    · simp [hb]

def NodeRow.partition? : NodeRow → Option (RecordLocation × ℕ × ℕ × VectorData)
  | partition node level count centroid => some (node, level, count, centroid)
  | parent _ _ _ => none

/-- Which partition names it a child. -/
def NodeRow.parent? : NodeRow → Option (RecordLocation × PartitionKey × ℕ)
  | partition _ _ _ _ => none
  | parent node key level => some (node, key, level)

/-- The children of an internal partition, with the place they are named at. -/
def ForestPartition.edges (f : ForestPartition) : List (RecordLocation × PartitionKey × ℕ) :=
  if f.partition.level = 1 then []
  else f.partition.entries.map fun e =>
    (⟨f.treeKey, childOf e⟩, f.partition.key, f.partition.level)

def Node.edge (n : Node) : List (RecordLocation × PartitionKey × ℕ) :=
  (n.parent.map fun p => (n.node, p, n.level + 1)).toList

/-- The partition that names a child. -/
def edgeOwner (edge : RecordLocation × PartitionKey × ℕ) : RecordLocation :=
  ⟨edge.1.treeKey, edge.2.1⟩

lemma length_filter_edge (k : RecordLocation) (l : List Node) :
    ((l.flatMap Node.edge).filter fun c => edgeOwner c = k).length =
      (l.filter fun m => m.parent = some k.leaf ∧ m.node.treeKey = k.treeKey).length := by
  induction l with
  | nil => rfl
  | cons n l ih =>
    rw [flatMap_cons, filter_append, length_append, ih, List.filter_cons]
    cases hp : n.parent with
    | none => simp [Node.edge, hp]
    | some p =>
      by_cases hk : p = k.leaf ∧ n.node.treeKey = k.treeKey
      · obtain ⟨rfl, htree⟩ := hk
        have howner : edgeOwner (n.node, k.leaf, n.level + 1) = k := by
          rw [edgeOwner, htree]
        simp [Node.edge, hp, howner, htree, Nat.add_comm]
      · have howner : edgeOwner (n.node, p, n.level + 1) ≠ k := by
          rintro rfl
          exact hk ⟨rfl, rfl⟩
        simp [Node.edge, hp, howner, hk]

variable (hj : Joins ix input forest joined nodes) {a b last : RecordLocation}

include hj

namespace Joins

lemma partitions : (nodes.map fun n => (n.node, n.level, n.count, n.centroid)).Perm
    (forest.map fun f => (f.node, f.partition.level, f.partition.entries.length,
      f.partition.centroid)) := by
  have hleft (l : List Node) : (l.flatMap Node.rows).filterMap NodeRow.partition? =
      l.map fun n => (n.node, n.level, n.count, n.centroid) := by
    induction l with
    | nil => rfl
    | cons n l ih =>
      rw [flatMap_cons, filterMap_append, ih]
      cases hp : n.parent <;> simp [Node.rows, hp, NodeRow.partition?]
  have hright (l : List ForestPartition) :
      (l.flatMap ForestPartition.rows).filterMap NodeRow.partition? =
        l.map fun f => (f.node, f.partition.level, f.partition.entries.length,
          f.partition.centroid) := by
    induction l with
    | nil => rfl
    | cons f l ih =>
      have hnone : f.parents.filterMap NodeRow.partition? = [] := by
        rw [List.filterMap_eq_nil_iff]
        intro _ hrow
        rw [ForestPartition.parents] at hrow
        split_ifs at hrow
        · cases hrow
        · obtain ⟨e, -, rfl⟩ := mem_map.mp hrow
          rfl
      rw [flatMap_cons, filterMap_append, ih, ForestPartition.rows, List.filterMap_cons, hnone]
      rfl
  rw [← hleft, ← hright]
  exact hj.rows.filterMap _

lemma edges : (nodes.flatMap Node.edge).Perm (forest.flatMap ForestPartition.edges) := by
  have hleft (l : List Node) : (l.flatMap Node.rows).filterMap NodeRow.parent? =
      l.flatMap Node.edge := by
    induction l with
    | nil => rfl
    | cons n l ih =>
      rw [flatMap_cons, filterMap_append, ih, flatMap_cons]
      cases hp : n.parent with
      | none | some p =>
        rw [Node.rows, Node.edge, hp]
        rfl
  have hright (l : List ForestPartition) :
      (l.flatMap ForestPartition.rows).filterMap NodeRow.parent? =
        l.flatMap ForestPartition.edges := by
    induction l with
    | nil => rfl
    | cons f l ih =>
      rw [flatMap_cons, filterMap_append, ih, flatMap_cons, ForestPartition.rows,
        ForestPartition.edges, ForestPartition.parents]
      split_ifs
      · rfl
      · rw [List.filterMap_cons_none rfl, List.filterMap_map]
        exact congrArg (· ++ _) (congrFun (List.filterMap_eq_map (f := fun e : Bytes =>
          ((⟨f.treeKey, childOf e⟩ : RecordLocation), f.partition.key, f.partition.level))) _)
  rw [← hleft, ← hright]
  exact hj.rows.filterMap _

lemma node_of_frame {f : ForestPartition} (hf : f ∈ forest) : ∃ n ∈ nodes,
    n.node = f.node ∧ n.level = f.partition.level ∧ n.count = f.partition.entries.length := by
  have hmem := hj.partitions.symm.subset (mem_map_of_mem hf)
  obtain ⟨n, hn, heq⟩ := mem_map.mp hmem
  simp only [Prod.mk.injEq] at heq
  exact ⟨n, hn, heq.1, heq.2.1, heq.2.2.1⟩

lemma frame_of_node (hn : n ∈ nodes) : ∃ f ∈ forest,
    f.node = n.node ∧ f.partition.level = n.level ∧ f.partition.entries.length = n.count := by
  have hmem := hj.partitions.subset (mem_map_of_mem hn)
  obtain ⟨f, hf, heq⟩ := mem_map.mp hmem
  simp only [Prod.mk.injEq] at heq
  exact ⟨f, hf, heq.1, heq.2.1, heq.2.2.1⟩

lemma nodup : (forest.map ForestPartition.node).Nodup := by
  have hperm := hj.partitions.map Prod.fst
  rw [map_map, map_map] at hperm
  refine hperm.nodup_iff.mp ?_
  exact pairwise_map.mpr (hj.ordered.imp fun h => ne_of_lt h)

lemma node_eq {m : Node} (hn : n ∈ nodes) (hm : m ∈ nodes) (h : n.node = m.node) : n = m := by
  refine List.inj_on_of_nodup_map ?_ hn hm h
  exact pairwise_map.mpr (hj.ordered.imp fun h => ne_of_lt h)

lemma parent_node (hn : n ∈ nodes) (hp : n.parent = some p) :
    ∃ m ∈ nodes, m.node = ⟨n.node.treeKey, p⟩ ∧ m.level = n.level + 1 := by
  have hedge : (n.node, p, n.level + 1) ∈ nodes.flatMap Node.edge :=
    mem_flatMap.mpr ⟨n, hn, by simp [Node.edge, hp]⟩
  obtain ⟨f, hf, hmem⟩ := mem_flatMap.mp (hj.edges.subset hedge)
  rw [ForestPartition.edges] at hmem
  split_ifs at hmem
  · cases hmem
  · obtain ⟨e, -, heq⟩ := mem_map.mp hmem
    simp only [Prod.mk.injEq] at heq
    obtain ⟨m, hm, hnode, hlevel, -⟩ := hj.node_of_frame hf
    refine ⟨m, hm, ?_, hlevel.trans heq.2.2⟩
    rw [hnode, ForestPartition.node, ← heq.1, heq.2.1]

lemma leaf_node {j : Joined} (hmem : j ∈ joined) :
    ∃ n ∈ nodes, n.node = j.node ∧ n.level = 1 := by
  have hassigned := hj.assigned.subset (mem_map_of_mem hmem)
  obtain ⟨f, hf, hentry⟩ := mem_flatMap.mp hassigned
  split_ifs at hentry with hlevel
  · obtain ⟨_, -, heq⟩ := mem_map.mp hentry
    simp only [Prod.mk.injEq] at heq
    obtain ⟨n, hn, hnode, hl, -⟩ := hj.node_of_frame hf
    exact ⟨n, hn, hnode.trans heq.2, hl.trans hlevel⟩
  · cases hentry

lemma exists_entry (hn : n ∈ nodes) (hlevel : n.level = 1) : ∃ j ∈ joined, j.node = n.node := by
  obtain ⟨f, hf, hnode, hl, -⟩ := hj.frame_of_node hn
  obtain ⟨id, hid⟩ := List.exists_mem_of_length_pos (hj.frames f hf).2.2
  have hassigned : (id, f.node) ∈ assignments forest :=
    mem_flatMap.mpr ⟨f, hf, by
      rw [if_pos (hl.trans hlevel)]
      exact mem_map_of_mem hid⟩
  obtain ⟨j, hmem, heq⟩ := mem_map.mp (hj.assigned.symm.subset hassigned)
  exact ⟨j, hmem, (Prod.mk.inj heq).2.trans hnode⟩

lemma record_eq {a b : Joined} (ha : a ∈ joined) (hb : b ∈ joined)
    (h : a.record.id = b.record.id) : a = b := by
  refine List.inj_on_of_nodup_map (f := fun j : Joined => j.record.id) ?_ ha hb h
  exact pairwise_map.mpr (hj.distinct.imp fun h => ne_of_lt h)

lemma mem_records {s : Record} : s ∈ input.records ↔ ∃ j ∈ joined, j.record = s := by
  rw [← hj.records.mem_iff, mem_map]

/-- **A partition holds as many entries as its frame counts.** -/
theorem count (hn : n ∈ nodes) : (joined.filter fun j => j.node = n.node).length +
      (nodes.filter fun m => m.parent = some n.node.leaf ∧ m.node.treeKey = n.node.treeKey).length =
        n.count := by
  obtain ⟨f, hf, hnode, hlevel, hcount⟩ := hj.frame_of_node hn
  have hleaves : (joined.filter fun j => j.node = n.node).length =
      if f.partition.level = 1 then f.partition.entries.length else 0 := by
    have hperm := (hj.assigned.filter fun a => a.2 = n.node).length_eq
    rw [List.filter_map, length_map] at hperm
    rw [← hnode] at hperm ⊢
    refine hperm.trans ?_
    refine (@length_filter_flatMap _ _ _ _ _ Prod.snd _ _ hj.nodup
      (fun b _ c hc => ?_) f hf).trans ?_
    · split_ifs at hc
      · obtain ⟨_, -, rfl⟩ := mem_map.mp hc
        rfl
      · cases hc
    · split_ifs <;> simp
  have hchildren : (nodes.filter fun m =>
      m.parent = some n.node.leaf ∧ m.node.treeKey = n.node.treeKey).length =
        if f.partition.level = 1 then 0 else f.partition.entries.length := by
    have hperm := (hj.edges.filter fun c => edgeOwner c = n.node).length_eq
    rw [length_filter_edge] at hperm
    rw [← hnode] at hperm ⊢
    refine hperm.trans ?_
    refine (@length_filter_flatMap _ _ _ _ _ edgeOwner _ _ hj.nodup
      (fun b _ c hc => ?_) f hf).trans ?_
    · rw [ForestPartition.edges] at hc
      split_ifs at hc
      · cases hc
      · obtain ⟨e, -, rfl⟩ := mem_map.mp hc
        rfl
    · rw [ForestPartition.edges]
      split_ifs <;> simp
  rw [hleaves, hchildren]
  split_ifs <;> omega

end Joins

omit hj

/-! ### What was written -/

def Node.written (n : Node) : List Pair :=
  match n.header with
  | .ok header => n.edgePairs ++ [⟨.header n.node.treeKey n.node.leaf, header⟩,
      ⟨.state n.node.treeKey n.node.leaf, .ready 0⟩]
  | .error _ => []

lemma partitions_ok : ∀ {nodes : List Node} {partitions : List (List Pair)},
    nodes.mapM Node.pairs = .ok partitions →
      partitions.flatten = nodes.flatMap Node.written ∧ ∀ n ∈ nodes, ∃ h, n.header = .ok h := by
  intro _ _ h
  induction mapM_eq_ok.mp h with
  | nil => exact ⟨rfl, by simp⟩
  | @cons n _ _ _ hn hrest ih =>
    obtain ⟨hflat, hheaders⟩ := ih (mapM_eq_ok.mpr hrest)
    obtain ⟨header, hheader, hpairs⟩ := bind_eq_ok.mp hn
    cases hpairs
    refine ⟨?_, forall_mem_cons.mpr ⟨⟨header, hheader⟩, hheaders⟩⟩
    rw [flatten_cons, hflat, flatMap_cons, Node.written, hheader]

def isGraph : LogicalKey → Bool
  | .graphDescriptor _ _ | .graphChunk _ _ _ => true
  | _ => false

lemma finishGraph_ok {body : Option GraphBody} {emitted : List Pair}
    (h : finishGraph graph body = .ok emitted) : ∀ x ∈ emitted, isGraph x.1 = true := by
  cases body with
  | none =>
    cases h
    simp
  | some =>
    rw [finishGraph] at h
    split_ifs at h
    obtain ⟨_, -, h⟩ := bind_eq_ok.mp h
    cases h
    refine forall_mem_cons.mpr ⟨rfl, fun x hx => ?_⟩
    obtain ⟨_, -, rfl⟩ := mem_map.mp hx
    rfl

lemma observeAll_ok : ∀ {pairs : List Pair} {body : Option GraphBody} {written : List Pair},
    observeAll graph body pairs = .ok written →
      ∃ graphs, written.Perm (pairs ++ graphs) ∧ ∀ x ∈ graphs, isGraph x.1 = true := by
  intro pairs
  induction pairs with
  | nil =>
    intro body written h
    exact ⟨written, .refl _, finishGraph_ok h⟩
  | cons pair pairs ih =>
    intro body _ h
    -- A pair that ends a body, with the graph of that body before it.
    have hends {next : Option GraphBody} {emitted rest : List Pair}
        (hemitted : finishGraph graph body = .ok emitted)
        (hrest : observeAll graph next pairs = .ok rest) :
        ∃ graphs, (emitted ++ pair :: rest).Perm (pair :: pairs ++ graphs) ∧
          ∀ x ∈ graphs, isGraph x.1 = true := by
      obtain ⟨graphs, hperm, hgraphs⟩ := ih hrest
      refine ⟨emitted ++ graphs, ?_, List.forall_mem_append.mpr ⟨finishGraph_ok hemitted, hgraphs⟩⟩
      refine List.perm_middle.trans (List.Perm.cons pair ?_)
      refine (hperm.append_left emitted).trans ?_
      change (emitted ++ (pairs ++ graphs)).Perm (pairs ++ (emitted ++ graphs))
      rw [← append_assoc, ← append_assoc]
      exact List.perm_append_comm.append_right graphs
    have hkeeps {next : Option GraphBody} {rest : List Pair}
        (hrest : observeAll graph next pairs = .ok rest) :
        ∃ graphs, (pair :: rest).Perm (pair :: pairs ++ graphs) ∧
          ∀ x ∈ graphs, isGraph x.1 = true := by
      obtain ⟨graphs, hperm, hgraphs⟩ := ih hrest
      exact ⟨graphs, hperm.cons pair, hgraphs⟩
    obtain ⟨k, v⟩ := pair
    cases k with
    | header t p | treeManifest t =>
      rw [observeAll] at h
      obtain ⟨_, hemitted, h⟩ := bind_eq_ok.mp h
      obtain ⟨rest, hrest, h⟩ := bind_eq_ok.mp h
      cases h
      exact hends hemitted hrest
    | childEntry t p c =>
      cases body with
      | none => cases h
      | some =>
        rw [observeAll] at h
        split_ifs at h
        obtain ⟨_, hrest, h⟩ := bind_eq_ok.mp h
        cases h
        exact hkeeps hrest
    | record | location | payload | synopsis | state | centroid | leafEntry | graphDescriptor
    | graphChunk =>
      rw [observeAll] at h
      · obtain ⟨_, hrest, h⟩ := bind_eq_ok.mp h
        cases h
        exact hkeeps hrest
      all_goals simp

lemma mergeSynopses_perm : ∀ rows synopses : List Pair,
    (mergeSynopses rows synopses).Perm (rows ++ synopses)
  | [], synopses => .refl synopses
  | row :: rows, _ => by
    rw [mergeSynopses]
    refine List.perm_middle.trans (List.Perm.cons row ?_)
    refine ((mergeSynopses_perm rows _).append_left _).trans ?_
    rw [← append_assoc]
    refine (List.perm_append_comm.append_right _).trans ?_
    rw [append_assoc, List.takeWhile_append_dropWhile]
    exact .refl _

lemma writeEntries_ok : ∀ {pairs : List Pair} {previous : Option LogicalKey},
    writeEntries previous pairs = .ok () → (pairs.Pairwise fun a b => a.1 < b.1) ∧
      ∀ k, previous = some k → ∀ x ∈ pairs, k < x.1 := by
  intro pairs
  induction pairs with
  | nil => exact fun _ => ⟨List.Pairwise.nil, by simp⟩
  | cons pair _ ih =>
    intro _ h
    rw [writeEntries] at h
    split_ifs at h with hbad
    obtain ⟨hsorted, hall⟩ := ih h
    have hfirst := hall pair.1 rfl
    refine ⟨pairwise_cons.mpr ⟨hfirst, hsorted⟩, fun k hk => ?_⟩
    have hlt : k < pair.1 := not_le.mp fun hle => hbad ⟨k, hk, hle⟩
    exact forall_mem_cons.mpr ⟨hlt, fun x hx => hlt.trans (hfirst x hx)⟩

lemma synopses_ok : ∀ {pairs : List Pair} {open_ : Option (RecordLocation × PartitionSynopsis)}
    {summaries : List (RecordLocation × PartitionSynopsis)},
    synopses ix open_ pairs = .ok summaries →
      (∀ l s, open_ = some (l, s) → ∃ s', (l, s') ∈ summaries ∧ s.Le s') ∧
      ∀ t p id e, (⟨.leafEntry t p id, e⟩ : Pair) ∈ pairs →
        ∃ s, (⟨t, p⟩, s) ∈ summaries ∧ s.Covers ix e.fields := by
  intro pairs
  induction pairs with
  | nil =>
    intro open_ summaries h
    cases h
    refine ⟨fun l s hopen => ⟨s, by simp [hopen], .refl s⟩, nofun⟩
  | cons pair pairs ih =>
    intro open_ _ h
    obtain ⟨k, v⟩ := pair
    cases k with
    | leafEntry t p id =>
      -- The entry widens a synopsis, which later entries only widen further.
      have hwidened {s s' : PartitionSynopsis} {changed : Bool}
          {rest : List (RecordLocation × PartitionSynopsis)}
          (hexpand : s.expand ix v.fields = .ok (s', changed))
          (hrest : synopses ix (some (⟨t, p⟩, s')) pairs = .ok rest) :
          (∃ s'', (⟨t, p⟩, s'') ∈ rest ∧ s.Le s'') ∧
          ∀ t' p' id' e, (⟨.leafEntry t' p' id', e⟩ : Pair) ∈ ⟨.leafEntry t p id, v⟩ :: pairs →
            ∃ s, (⟨t', p'⟩, s) ∈ rest ∧ s.Covers ix e.fields := by
        have hspec := PartitionSynopsis.expand_spec hexpand
        obtain ⟨hopen, hcovers⟩ := ih hrest
        obtain ⟨s'', hmem, hle⟩ := hopen _ _ rfl
        refine ⟨⟨s'', hmem, hspec.le.trans hle⟩, fun t' p' id' e he => ?_⟩
        rcases mem_cons.mp he with heq | he
        · cases heq
          exact ⟨s'', hmem, hspec.covers.mono hle⟩
        · exact hcovers t' p' id' e he
      cases open_ with
      | none =>
        rw [synopses] at h
        obtain ⟨⟨s', changed⟩, hexpand, hrest⟩ := bind_eq_ok.mp h
        exact ⟨nofun, (hwidened hexpand hrest).2⟩
      | some current =>
        obtain ⟨_, s⟩ := current
        rw [synopses] at h
        split_ifs at h with hsame
        · subst hsame
          obtain ⟨⟨s', _⟩, hexpand, hrest⟩ := bind_eq_ok.mp h
          obtain ⟨hkept, hcovers⟩ := hwidened hexpand hrest
          refine ⟨fun l s₀ hopen => ?_, hcovers⟩
          cases hopen
          exact hkept
        · obtain ⟨⟨_, _⟩, hexpand, h⟩ := bind_eq_ok.mp h
          obtain ⟨_, hrest, h⟩ := bind_eq_ok.mp h
          cases h
          obtain ⟨-, hcovers⟩ := hwidened hexpand hrest
          refine ⟨fun l s₀ hopen => ?_, fun t' p' id' e he => ?_⟩
          · cases hopen
            exact ⟨s, mem_cons_self, .refl s⟩
          · obtain ⟨s'', hmem, hcover⟩ := hcovers t' p' id' e he
            exact ⟨s'', mem_cons_of_mem _ hmem, hcover⟩
    | record | location | payload | treeManifest | header | synopsis | state | centroid | childEntry
    | graphDescriptor | graphChunk =>
      rw [synopses] at h
      · obtain ⟨hopen, hcovers⟩ := ih h
        refine ⟨hopen, fun t p id e he => hcovers t p id e ?_⟩
        simpa using he
      all_goals simp

/-! ### The last partition of a tree -/

lemma terminated_lt_of_ne : ∀ {a b : Bytes} {x y x' y' : List ℕ}, a ≠ b →
    terminated a x < terminated b y → terminated a x' < terminated b y' := by
  intro a
  induction a with
  | nil =>
    intro b x y x' y' hne h
    cases b with
    | nil => exact absurd rfl hne
    | cons d b => simp [terminated, cons_lt_cons_iff]
  | cons c a ih =>
    intro b x y x' y' hne h
    cases b with
    | nil => simp [terminated, cons_lt_cons_iff] at h
    | cons d b =>
      simp only [terminated, cons_lt_cons_iff] at h ⊢
      rcases h with h | ⟨heq, h⟩
      · exact .inl h
      · have hcd : c = d := Fin.ext (Nat.succ.inj heq)
        exact .inr ⟨heq, ih (fun hab => hne (by rw [hcd, hab])) h⟩

/-- Nothing of another tree lies between two partitions of one tree. -/
lemma treeKey_between {c : RecordLocation} (hab : a < b) (hbc : b < c)
    (h : a.treeKey = c.treeKey) : b.treeKey = a.treeKey := by
  by_contra hne
  have hbc' : terminated b.treeKey [b.leaf] < terminated c.treeKey [c.leaf] := hbc
  have hab' : terminated a.treeKey [a.leaf] < terminated b.treeKey [b.leaf] := hab
  rw [← h] at hbc'
  exact lt_asymm hab' (terminated_lt_of_ne hne hbc')

lemma leaf_le (hab : a ≤ b) (h : a.treeKey = b.treeKey) : a.leaf ≤ b.leaf := by
  rcases hab.lt_or_eq with hlt | rfl
  · have hlt' : terminated a.treeKey [a.leaf] < terminated b.treeKey [b.leaf] := hlt
    rw [h, LogicalKey.terminated_lt] at hlt'
    have hleaf : a.leaf < b.leaf := by simpa [cons_lt_cons_iff] using hlt'
    exact hleaf.le
  · exact le_rfl

lemma highWaters_spec : ∀ {nodes : List Node} {open_ : Option RecordLocation},
    (∀ l, open_ = some l → ∀ n ∈ nodes, l < n.node) → (nodes.Pairwise fun a b => a.node < b.node) →
      (∀ last ∈ highWaters open_ nodes, (open_ = some last ∨ ∃ n ∈ nodes, n.node = last) ∧
        ∀ n ∈ nodes, n.node.treeKey = last.treeKey → n.node ≤ last) ∧
      (∀ l, open_ = some l → ∃ last ∈ highWaters open_ nodes, last.treeKey = l.treeKey) ∧
      ∀ n ∈ nodes, ∃ last ∈ highWaters open_ nodes, last.treeKey = n.node.treeKey := by
  intro nodes
  induction nodes with
  | nil =>
    intro open_ _ _
    cases open_ with
    | none | some l => simp [highWaters]
  | cons n nodes ih =>
    intro open_ hopen hsorted
    obtain ⟨hfirst, hrest⟩ := pairwise_cons.mp hsorted
    obtain ⟨hlast, hopened, hall⟩ := @ih (some n.node) (fun l hl m hm => by
      cases hl
      exact hfirst m hm) hrest
    obtain ⟨last₀, hlast₀, htree₀⟩ := hopened n.node rfl
    -- A partition that is followed by others of the list.
    have hnext {last : RecordLocation} (hmem : last ∈ highWaters (some n.node) nodes) :
        (∃ m ∈ n :: nodes, m.node = last) ∧
          ∀ m ∈ n :: nodes, m.node.treeKey = last.treeKey → m.node ≤ last := by
      obtain ⟨hfrom, hle⟩ := hlast last hmem
      rcases hfrom with heq | ⟨m, hm, heq⟩
      · cases heq
        exact ⟨⟨n, mem_cons_self, rfl⟩, forall_mem_cons.mpr ⟨fun _ => le_rfl, hle⟩⟩
      · refine ⟨⟨m, mem_cons_of_mem _ hm, heq⟩, forall_mem_cons.mpr ⟨fun _ => ?_, hle⟩⟩
        rw [← heq]
        exact (hfirst m hm).le
    cases open_ with
    | none =>
      rw [highWaters]
      exact ⟨fun last hmem => ⟨.inr (hnext hmem).1, (hnext hmem).2⟩, nofun,
        forall_mem_cons.mpr ⟨⟨last₀, hlast₀, htree₀⟩, hall⟩⟩
    | some l =>
      rw [highWaters]
      split_ifs with hsame
      · refine ⟨fun last hmem => ⟨.inr (hnext hmem).1, (hnext hmem).2⟩, fun l' hl => ?_,
          forall_mem_cons.mpr ⟨⟨last₀, hlast₀, htree₀⟩, hall⟩⟩
        cases hl
        exact ⟨last₀, hlast₀, htree₀.trans hsame.symm⟩
      · refine ⟨forall_mem_cons.mpr ⟨⟨.inl rfl, ?_⟩,
          fun last hmem => ⟨.inr (hnext hmem).1, (hnext hmem).2⟩⟩, fun l' hl => ?_,
          forall_mem_cons.mpr ⟨⟨last₀, mem_cons_of_mem _ hlast₀, htree₀⟩, fun m hm => ?_⟩⟩
        · refine forall_mem_cons.mpr ⟨fun heq => absurd heq.symm hsame, fun m hm heq => ?_⟩
          exact absurd (treeKey_between (hopen l rfl n mem_cons_self) (hfirst m hm) heq.symm).symm
            hsame
        · cases hl
          exact ⟨l, mem_cons_self, rfl⟩
        · obtain ⟨last, hmem, heq⟩ := hall m hm
          exact ⟨last, mem_cons_of_mem _ hmem, heq⟩

/-! ### The artifact as a store -/

/-- What a successful build wrote. -/
structure Written (ix : Index) (joined : List Joined) (nodes : List Node) (pairs : List Pair)
    (summaries : List (RecordLocation × PartitionSynopsis)) (trees graphs output : List Pair) :
    Prop where
  headers : ∀ n ∈ nodes, ∃ h, n.header = .ok h
  manifests : (highWaters none nodes).mapM treePair = .ok trees
  summarised : synopses ix none output = .ok summaries
  tree : output.Perm (joined.map leafPair ++ (nodes.flatMap Node.written ++ trees))
  graph : ∀ x ∈ graphs, isGraph x.1 = true
  perm : pairs.Perm (joined.flatMap recordPairs ++
    ((output ++ summaries.map synopsisPair) ++ graphs))
  sorted : pairs.Pairwise fun a b => a.1 < b.1

lemma build_ok (h : build ix graph input forest = .ok pairs) :
    ∃ joined nodes summaries trees graphs output, Joins ix input forest joined nodes ∧
      Written ix joined nodes pairs summaries trees graphs output := by
  rw [build] at h
  obtain ⟨⟨joined, nodes⟩, hjoin, h⟩ := bind_eq_ok.mp h
  obtain ⟨_, houtput, h⟩ := bind_eq_ok.mp h
  obtain ⟨summaries, hsummaries, h⟩ := bind_eq_ok.mp h
  obtain ⟨written, hwritten, h⟩ := bind_eq_ok.mp h
  obtain ⟨_, hsorted, h⟩ := bind_eq_ok.mp h
  cases h
  obtain ⟨partitions, hpartitions, houtput⟩ := bind_eq_ok.mp houtput
  obtain ⟨trees, htrees, houtput⟩ := bind_eq_ok.mp houtput
  cases houtput
  obtain ⟨hflat, hheaders⟩ := partitions_ok hpartitions
  obtain ⟨graphs, hperm, hgraphs⟩ : ∃ graphs : List Pair,
      written.Perm ((sortBy Sigma.fst (joined.map leafPair ++ (partitions.flatten ++ trees)) ++
        summaries.map synopsisPair) ++ graphs) ∧ ∀ x ∈ graphs, isGraph x.1 = true := by
    rw [withGraphs] at hwritten
    split_ifs at hwritten
    · obtain ⟨graphs, hperm, hgraphs⟩ := observeAll_ok hwritten
      exact ⟨graphs, hperm.trans ((mergeSynopses_perm _ _).append_right graphs), hgraphs⟩
    · cases hwritten
      exact ⟨[], by rw [append_nil]; exact mergeSynopses_perm _ _, by simp⟩
  refine ⟨joined, nodes, summaries, trees, graphs, _, join_ok hjoin, hheaders, htrees,
    hsummaries, ?_,
    hgraphs, hperm.append_left _, (writeEntries_ok hsorted).1⟩
  rw [← hflat]
  exact sortBy_perm _ _

lemma treePair_ok (h : treePair last = .ok x) :
    ∃ m : TreeManifest, m.partitionKeyHighWater = last.leaf ∧
      x = ⟨.treeManifest last.treeKey, m⟩ := by
  rw [treePair] at h
  split_ifs at h with hbounds
  cases h
  exact ⟨_, rfl, rfl⟩

/-- The families of the written keys. -/
inductive Emitted (joined : List Joined) (nodes : List Node)
    (summaries : List (RecordLocation × PartitionSynopsis)) : Pair → Prop
  | record {j : Joined} (h : j ∈ joined) : Emitted joined nodes summaries
      ⟨.record j.record.id, ⟨j.record.id, j.record.vector, j.record.fields⟩⟩
  | location {j : Joined} (h : j ∈ joined) :
      Emitted joined nodes summaries ⟨.location j.record.id, j.node⟩
  | payload {j : Joined} {b : Bytes} (h : j ∈ joined) (hb : j.record.payload = some b) :
      Emitted joined nodes summaries ⟨.payload j.record.id, b⟩
  | leafEntry {j : Joined} (h : j ∈ joined) : Emitted joined nodes summaries
      ⟨.leafEntry j.node.treeKey j.node.leaf j.record.id, j.entry⟩
  | childEntry {n : Node} {p : PartitionKey} (h : n ∈ nodes) (hp : n.parent = some p) :
      Emitted joined nodes summaries
        ⟨.childEntry n.node.treeKey p n.node.leaf, ⟨n.node.leaf, n.centroid⟩⟩
  | centroid {n : Node} {p : PartitionKey} (h : n ∈ nodes) (hp : n.parent = some p) :
      Emitted joined nodes summaries ⟨.centroid n.node.treeKey n.node.leaf, n.centroid⟩
  | header {n : Node} {header : PartitionHeader} (h : n ∈ nodes) (hheader : n.header = .ok header) :
      Emitted joined nodes summaries ⟨.header n.node.treeKey n.node.leaf, header⟩
  | state {n : Node} (h : n ∈ nodes) :
      Emitted joined nodes summaries ⟨.state n.node.treeKey n.node.leaf, .ready 0⟩
  | treeManifest {last : RecordLocation} {m : TreeManifest} (h : last ∈ highWaters none nodes)
      (hm : m.partitionKeyHighWater = last.leaf) :
      Emitted joined nodes summaries ⟨.treeManifest last.treeKey, m⟩
  | synopsis {l : RecordLocation} {s : PartitionSynopsis} (h : (l, s) ∈ summaries) :
      Emitted joined nodes summaries ⟨.synopsis l.treeKey l.leaf, s⟩
  | graphDescriptor (t : TreeKey) (p : PartitionKey) (d : GraphDescriptor) :
      Emitted joined nodes summaries ⟨.graphDescriptor t p, d⟩
  | graphChunk (t : TreeKey) (p : PartitionKey) (n : ℕ) (b : Bytes) :
      Emitted joined nodes summaries ⟨.graphChunk t p n, b⟩

variable {summaries : List (RecordLocation × PartitionSynopsis)} {trees graphs output : List Pair}
  (hw : Written ix joined nodes pairs summaries trees graphs output)

include hw

namespace Written

lemma mem : x ∈ pairs ↔ (∃ j ∈ joined, x ∈ j.recordPairs) ∨
    (∃ j ∈ joined, j.leafPair = x) ∨ (∃ n ∈ nodes, x ∈ n.written) ∨ x ∈ trees ∨
      (∃ s ∈ summaries, synopsisPair s = x) ∨ x ∈ graphs := by
  rw [hw.perm.mem_iff, mem_append, mem_append, mem_append, hw.tree.mem_iff,
    mem_append, mem_append, mem_flatMap, mem_map, mem_flatMap, mem_map]
  simp only [or_assoc]

lemma emitted (hx : x ∈ pairs) : Emitted joined nodes summaries x := by
  rcases hw.mem.mp hx with ⟨j, hmem, hx⟩ | ⟨j, hmem, rfl⟩ | ⟨n, hn, hx⟩ | hx |
    ⟨⟨l, s⟩, hs, rfl⟩ | hx
  · rw [recordPairs, mem_cons, mem_cons] at hx
    rcases hx with rfl | rfl | hx
    · exact .record hmem
    · exact .location hmem
    · cases hb : j.record.payload with
      | none => simp [hb] at hx
      | some b =>
        simp only [hb, map_some, Option.toList_some, mem_singleton] at hx
        subst hx
        exact .payload hmem hb
  · exact .leafEntry hmem
  · obtain ⟨header, hheader⟩ := hw.headers n hn
    rw [Node.written, hheader] at hx
    simp only [mem_append, mem_cons, not_mem_nil, or_false] at hx
    rcases hx with hx | rfl | rfl
    · rw [Node.edgePairs] at hx
      cases hp : n.parent with
      | none => simp [hp] at hx
      | some p =>
        simp only [hp, mem_cons, not_mem_nil, or_false] at hx
        rcases hx with rfl | rfl
        · exact .childEntry hn hp
        · exact .centroid hn hp
    · exact .header hn hheader
    · exact .state hn
  · obtain ⟨_, hlast, hpair⟩ := exists_of_mem_mapM hw.manifests hx
    obtain ⟨m, hm, rfl⟩ := treePair_ok hpair
    exact .treeManifest hlast hm
  · exact .synopsis hs
  · have hgraph := hw.graph x hx
    obtain ⟨k, v⟩ := x
    cases k with
    | graphDescriptor t p => exact .graphDescriptor t p v
    | graphChunk t p n => exact .graphChunk t p n v
    | record | location | payload | treeManifest | header | synopsis | state | centroid | leafEntry
    | childEntry => cases hgraph

/-- The artifact, read as a store. -/
def store : Store := ⟨pairs, hw.sorted⟩

lemma record {id : RecordId} {r : VectorRecord} : hw.store.record id = some r ↔
    ∃ j ∈ joined, j.record.id = id ∧ r = ⟨j.record.id, j.record.vector, j.record.fields⟩ := by
  rw [Store.record, ← mem_entries]
  constructor
  · intro hx
    cases hw.emitted hx with
    | record h => exact ⟨_, h, rfl, rfl⟩
  · rintro ⟨j, hmem, rfl, rfl⟩
    exact hw.mem.mpr (.inl ⟨j, hmem, mem_cons_self⟩)

lemma location {id : RecordId} {l : RecordLocation} : hw.store.location id = some l ↔
    ∃ j ∈ joined, j.record.id = id ∧ j.node = l := by
  rw [Store.location, ← mem_entries]
  constructor
  · intro hx
    cases hw.emitted hx with
    | location h => exact ⟨_, h, rfl, rfl⟩
  · rintro ⟨j, hmem, rfl, rfl⟩
    exact hw.mem.mpr (.inl ⟨j, hmem, by simp [recordPairs]⟩)

lemma payload {id : RecordId} {b : Bytes} : hw.store.payload id = some b ↔
    ∃ j ∈ joined, j.record.id = id ∧ j.record.payload = some b := by
  rw [Store.payload, ← mem_entries]
  constructor
  · intro hx
    cases hw.emitted hx with
    | payload h hb => exact ⟨_, h, rfl, hb⟩
  · rintro ⟨j, hmem, rfl, hb⟩
    exact hw.mem.mpr (.inl ⟨j, hmem, by simp [recordPairs, hb]⟩)

lemma leafEntry {t : TreeKey} {p : PartitionKey} {id : RecordId} {e : LeafEntry} :
    hw.store.leafEntry t p id = some e ↔
      ∃ j ∈ joined, j.node = ⟨t, p⟩ ∧ j.record.id = id ∧ j.entry = e := by
  rw [Store.leafEntry, ← mem_entries]
  constructor
  · intro hx
    cases hw.emitted hx with
    | leafEntry h => exact ⟨_, h, rfl, rfl, rfl⟩
  · rintro ⟨j, hmem, hnode, rfl, rfl⟩
    refine hw.mem.mpr (.inr (.inl ⟨j, hmem, ?_⟩))
    rw [leafPair, hnode]

lemma childEntry {t : TreeKey} {p c : PartitionKey} {e : ChildEntry} :
    hw.store.childEntry t p c = some e ↔
      ∃ n ∈ nodes, n.node = ⟨t, c⟩ ∧ n.parent = some p ∧ e = ⟨c, n.centroid⟩ := by
  rw [Store.childEntry, ← mem_entries]
  constructor
  · intro hx
    cases hw.emitted hx with
    | childEntry h hp => exact ⟨_, h, rfl, hp, rfl⟩
  · rintro ⟨n, hn, hnode, hp, rfl⟩
    obtain ⟨header, hheader⟩ := hw.headers n hn
    refine hw.mem.mpr (.inr (.inr (.inl ⟨n, hn, ?_⟩)))
    rw [Node.written, hheader]
    simp [Node.edgePairs, hp, hnode]

lemma centroid (hn : n ∈ nodes) (hp : n.parent = some p) :
    hw.store.centroid n.node.treeKey n.node.leaf = some n.centroid := by
  rw [Store.centroid, ← mem_entries]
  obtain ⟨header, hheader⟩ := hw.headers n hn
  refine hw.mem.mpr (.inr (.inr (.inl ⟨n, hn, ?_⟩)))
  rw [Node.written, hheader]
  simp [Node.edgePairs, hp]

lemma header {t : TreeKey} {p : PartitionKey} {h : PartitionHeader} :
    hw.store.header t p = some h ↔ ∃ n ∈ nodes, n.node = ⟨t, p⟩ ∧ n.header = .ok h := by
  rw [Store.header, ← mem_entries]
  constructor
  · intro hx
    cases hw.emitted hx with
    | header hn hheader => exact ⟨_, hn, rfl, hheader⟩
  · rintro ⟨n, hn, hnode, hheader⟩
    refine hw.mem.mpr (.inr (.inr (.inl ⟨n, hn, ?_⟩)))
    rw [Node.written, hheader, hnode]
    simp

lemma state {t : TreeKey} {p : PartitionKey} {st : PartitionTransition} :
    hw.store.state t p = some st ↔ st = .ready 0 ∧ ∃ n ∈ nodes, n.node = ⟨t, p⟩ := by
  rw [Store.state, ← mem_entries]
  constructor
  · intro hx
    cases hw.emitted hx with
    | state hn => exact ⟨rfl, _, hn, rfl⟩
  · rintro ⟨rfl, n, hn, hnode⟩
    obtain ⟨header, hheader⟩ := hw.headers n hn
    refine hw.mem.mpr (.inr (.inr (.inl ⟨n, hn, ?_⟩)))
    rw [Node.written, hheader, hnode]
    simp

lemma synopsis {s : PartitionSynopsis} (hs : (⟨t, p⟩, s) ∈ summaries) :
    hw.store.synopsis t p = some s := by
  rw [Store.synopsis, ← mem_entries]
  exact hw.mem.mpr (.inr (.inr (.inr (.inr (.inl ⟨_, hs, rfl⟩)))))

lemma treeManifest {t : TreeKey} {m : TreeManifest} (h : hw.store.treeManifest t = some m) :
    (⟨t, m.partitionKeyHighWater⟩ : RecordLocation) ∈ highWaters none nodes := by
  rw [Store.treeManifest, ← mem_entries] at h
  cases hw.emitted h with
  | treeManifest hlast hm =>
    rw [hm]
    exact hlast

lemma treeManifest_ne (h : last ∈ highWaters none nodes) :
    hw.store.treeManifest last.treeKey ≠ none := by
  obtain ⟨x, hx, hpair⟩ : ∃ x ∈ trees, treePair last = .ok x := by
    have hall := mapM_eq_ok.mp hw.manifests
    obtain ⟨i, hi, rfl⟩ := List.getElem_of_mem h
    have hlen := hall.length_eq
    exact ⟨trees[i], List.getElem_mem _, hall.get hi (hlen ▸ hi)⟩
  obtain ⟨m, -, rfl⟩ := treePair_ok hpair
  have hmem : (⟨.treeManifest last.treeKey, m⟩ : Pair) ∈ pairs :=
    hw.mem.mpr (.inr (.inr (.inr (.inl hx))))
  rw [Store.treeManifest, mem_entries.mp hmem]
  simp

lemma entryCount (t : TreeKey) (p : PartitionKey) : hw.store.entryCount t p =
    (joined.filter fun j => j.node = ⟨t, p⟩).length +
      (nodes.filter fun m => m.parent = some p ∧ m.node.treeKey = t).length := by
  have hscan : hw.store.entryCount t p = (pairs.filter fun x => bodyRange t p x.1).length := rfl
  -- Only Leaf Entries and Child Entries are in a body.
  have hnone {l : List Pair} (h : ∀ x ∈ l, bodyRange t p x.1 = false) :
      (l.filter fun x => bodyRange t p x.1) = [] :=
    filter_eq_nil_iff.mpr fun x hx => by simp [h x hx]
  have hrecords : (joined.flatMap recordPairs).filter
      (fun x => bodyRange t p x.1) = [] := by
    refine hnone fun x hx => ?_
    obtain ⟨j, -, hx⟩ := mem_flatMap.mp hx
    cases hb : j.record.payload <;> simp only [recordPairs, hb, Option.map_none, map_some,
      Option.toList_none, Option.toList_some, mem_cons, not_mem_nil, or_false] at hx
    · rcases hx with rfl | rfl <;> rfl
    · rcases hx with rfl | rfl | rfl <;> rfl
  have htrees : trees.filter (fun x => bodyRange t p x.1) = [] := by
    refine hnone fun x hx => ?_
    obtain ⟨_, -, hpair⟩ := exists_of_mem_mapM hw.manifests hx
    obtain ⟨m, -, rfl⟩ := treePair_ok hpair
    rfl
  have hsummaries : (summaries.map synopsisPair).filter
      (fun x => bodyRange t p x.1) = [] := by
    refine hnone fun x hx => ?_
    obtain ⟨s, -, rfl⟩ := mem_map.mp hx
    rfl
  have hgraphs : graphs.filter (fun x => bodyRange t p x.1) = [] := by
    refine hnone fun x hx => ?_
    have hgraph := hw.graph x hx
    obtain ⟨k, v⟩ := x
    cases k with
    | graphDescriptor | graphChunk => rfl
    | record | location | payload | treeManifest | header | synopsis | state | centroid | leafEntry
    | childEntry => cases hgraph
  have hleaves : ((joined.map leafPair).filter fun x => bodyRange t p x.1).length =
      (joined.filter fun j => j.node = ⟨t, p⟩).length := by
    rw [List.filter_map, length_map]
    refine congrArg List.length (filter_congr fun j _ => ?_)
    obtain ⟨_, ⟨tree, _⟩, _⟩ := j
    simp [leafPair, bodyRange, leafRange, childRange]
  have hchildren : ((nodes.flatMap Node.written).filter fun x =>
      bodyRange t p x.1).length =
        (nodes.filter fun m => m.parent = some p ∧ m.node.treeKey = t).length := by
    have hwritten {n : Node} (hn : n ∈ nodes) :
        ((n.written.filter fun x => bodyRange t p x.1).length =
          if n.parent = some p ∧ n.node.treeKey = t then 1 else 0) := by
      obtain ⟨header, hheader⟩ := hw.headers n hn
      rw [Node.written, hheader]
      cases hp : n.parent with
      | none => simp [Node.edgePairs, hp, bodyRange, leafRange, childRange]
      | some q =>
        simp only [Node.edgePairs, hp]
        by_cases hq : q = p ∧ n.node.treeKey = t
        · simp [hq, bodyRange, leafRange, childRange]
        · have hne : n.node.treeKey = t → ¬ q = p := fun ht hqp => hq ⟨hqp, ht⟩
          simpa [hq, bodyRange, leafRange, childRange] using hne
    exact length_filter_flatMap_one fun n hn => hwritten hn
  rw [hscan, (hw.perm.filter _).length_eq, filter_append, filter_append, filter_append, hrecords,
    hsummaries, hgraphs, append_nil, append_nil, nil_append, (hw.tree.filter _).length_eq,
    filter_append, filter_append, htrees, append_nil, length_append, hleaves, hchildren]

end Written

/-! ### A well-formed index -/

omit hw in
lemma Node.header_ok {h : PartitionHeader} (hh : n.header = .ok h) :
    h.level = n.level ∧ h.entryCount = n.count ∧ h.state = .ready := by
  rw [Node.header] at hh
  split_ifs at hh
  cases hh
  exact ⟨rfl, rfl, rfl⟩

lemma Written.header_ne : hw.store.header t p ≠ none ↔ ∃ n ∈ nodes, n.node = ⟨t, p⟩ := by
  constructor
  · intro h
    obtain ⟨header, hheader⟩ := ne_none_iff_exists'.mp h
    obtain ⟨n, hn, hnode, -⟩ := hw.header.mp hheader
    exact ⟨n, hn, hnode⟩
  · rintro ⟨n, hn, hnode⟩
    obtain ⟨header, hheader⟩ := hw.headers n hn
    rw [hw.header.mpr ⟨n, hn, hnode, hheader⟩]
    simp

lemma Written.state_ready {st : PartitionTransition} (h : hw.store.state t p = some st) :
    st = .ready 0 :=
  (hw.state.mp h).1

structure ServesIndex (ix : Index) (records : List Record) (S : Store) : Prop where
  distinct : (records.map Record.id).Nodup
  record : ∀ id r, S.record id = some r ↔ ∃ s ∈ records, s.id = id ∧ r = ⟨s.id, s.vector, s.fields⟩
  payload : ∀ id b, S.payload id = some b ↔ ∃ s ∈ records, s.id = id ∧ s.payload = some b
  /-- A record is in the tree of its fields, with the entry of its vector, at a leaf. -/
  placed : ∀ s ∈ records, ∃ l e h, S.location s.id = some l ∧ treeKeyOf ix s = .ok l.treeKey ∧
    S.leafEntry l.treeKey l.leaf s.id = some e ∧ leafEntryOf ix s = .ok e ∧
    S.header l.treeKey l.leaf = some h ∧ h.level = 1
  stored : StoredExactly S
  ready : ∀ t p st, S.state t p = some st → st = .ready 0
  shape : ∀ t, TreeShape S t
  rooted : ∀ t p, S.header t p ≠ none → S.header t rootPartition ≠ none
  synopsis : ∀ t p h, S.header t p = some h → h.level = 1 → ∃ s, S.synopsis t p = some s ∧
    ∀ id e, S.leafEntry t p id = some e → s.Covers ix e.fields
  /-- The high-water mark of a tree is the largest of its Partition Keys. -/
  highWater : ∀ t p, S.header t p ≠ none →
    ∃ m, S.treeManifest t = some m ∧ p ≤ m.partitionKeyHighWater
  attained : ∀ t m, S.treeManifest t = some m → S.header t m.partitionKeyHighWater ≠ none

include hj

lemma Written.reached (hn : n ∈ nodes) : hw.store.Reached n.node.treeKey n.node.leaf := by
  -- Parents are higher, and levels are bounded.
  induction hk : u32Bound - n.level using Nat.strong_induction_on generalizing n with
  | _ k ih =>
    cases hp : n.parent with
    | none =>
      rw [(hj.root n hn).mp hp]
      exact .root
    | some p =>
      obtain ⟨m, hm, hnode, hlevel⟩ := hj.parent_node hn hp
      obtain ⟨header, hheader⟩ := hw.headers m hm
      have hbound : m.level < u32Bound := (Node.header_ok hheader).1 ▸ header.level_lt
      have hparent := ih (u32Bound - m.level) (by omega) hm rfl
      rw [hnode] at hparent
      refine .child hparent ?_
      rw [hw.childEntry.mpr ⟨n, hn, rfl, hp, rfl⟩]
      simp

omit hj hw in
lemma leafEntryOf_ok {r : Record} {e : LeafEntry} (h : leafEntryOf ix r = .ok e) :
    e.recordId = r.id ∧ e.fields = r.fields := by
  rw [leafEntryOf] at h
  obtain ⟨_, -, h⟩ := bind_eq_ok.mp h
  obtain ⟨_, -, h⟩ := bind_eq_ok.mp h
  cases h
  exact ⟨rfl, rfl⟩

namespace Written

lemma storedExactly : StoredExactly hw.store where
  located id := by
    rw [Bool.eq_iff_iff, isSome_iff_exists, isSome_iff_exists]
    constructor
    · rintro ⟨r, hr⟩
      obtain ⟨j, hmem, hid, -⟩ := hw.record.mp hr
      exact ⟨_, hw.location.mpr ⟨j, hmem, hid, rfl⟩⟩
    · rintro ⟨l, hl⟩
      obtain ⟨j, hmem, hid, -⟩ := hw.location.mp hl
      exact ⟨_, hw.record.mpr ⟨j, hmem, hid, rfl⟩⟩
  payload id hp := by
    obtain ⟨b, hb⟩ := ne_none_iff_exists'.mp hp
    obtain ⟨j, hmem, hid, -⟩ := hw.payload.mp hb
    rw [hw.record.mpr ⟨j, hmem, hid, rfl⟩]
    simp
  entry id r hr := by
    obtain ⟨j, hmem, rfl, rfl⟩ := hw.record.mp hr
    obtain ⟨hid, hfields⟩ := leafEntryOf_ok (hj.derived j hmem).2
    refine ⟨j.node, j.entry, hw.location.mpr ⟨j, hmem, rfl, rfl⟩,
      hw.leafEntry.mpr ⟨j, hmem, rfl, rfl, rfl⟩, hid, hfields, fun t p hentry => ?_⟩
    obtain ⟨e, he⟩ := ne_none_iff_exists'.mp hentry
    obtain ⟨i, hi, hnode, hid, -⟩ := hw.leafEntry.mp he
    rw [← hnode, hj.record_eq hi hmem hid]
  owned t p id hentry := by
    obtain ⟨e, he⟩ := ne_none_iff_exists'.mp hentry
    obtain ⟨j, hmem, -, hid, -⟩ := hw.leafEntry.mp he
    rw [hw.record.mpr ⟨j, hmem, hid, rfl⟩]
    simp
  count t p h hh := by
    obtain ⟨n, hn, hnode, hheader⟩ := hw.header.mp hh
    rw [hw.entryCount, (Node.header_ok hheader).2.1, ← hj.count hn, hnode]

lemma treeShape (t : TreeKey) : TreeShape hw.store t where
  agree p := by
    cases hh : hw.store.header t p with
    | none =>
      cases hst : hw.store.state t p with
      | none => rfl
      | some _ => exact absurd hh (hw.header_ne.mpr (hw.state.mp hst).2)
    | some h =>
      obtain ⟨n, hn, hnode, hheader⟩ := hw.header.mp hh
      rw [hw.state.mpr ⟨rfl, n, hn, hnode⟩, map_some, map_some, (Node.header_ok hheader).2.2]
      rfl
  parent c h hh hroot _ := by
    obtain ⟨n, hn, hnode, hheader⟩ := hw.header.mp hh
    obtain ⟨p, hp⟩ := ne_none_iff_exists'.mp fun hp => hroot (by
      rw [← (hj.root n hn).mp hp, hnode])
    obtain ⟨m, hm, hparent, hlevel⟩ := hj.parent_node hn hp
    obtain ⟨k, hk⟩ := hw.headers m hm
    have hcentroid := hw.centroid hn hp
    rw [hnode] at hparent hcentroid
    refine ⟨p, k, ⟨c, n.centroid⟩, hw.childEntry.mpr ⟨n, hn, hnode, hp, rfl⟩, rfl,
      hw.header.mpr ⟨m, hm, hparent, hk⟩, ?_, hcentroid, fun q hq => ?_⟩
    · rw [(Node.header_ok hk).1, (Node.header_ok hheader).1, hlevel]
    · obtain ⟨e, he⟩ := ne_none_iff_exists'.mp hq
      obtain ⟨_, hn', hnode', hp', -⟩ := hw.childEntry.mp he
      rw [hj.node_eq hn' hn (hnode'.trans hnode.symm), hp] at hp'
      exact (Option.some.inj hp').symm
  rootTarget c htarget := by
    obtain ⟨_, n, hst, -⟩ := htarget
    cases hw.state_ready hst
  orphan p := by
    by_contra hentry
    obtain ⟨e, he⟩ := ne_none_iff_exists'.mp hentry
    obtain ⟨n, hn, hnode, hp, -⟩ := hw.childEntry.mp he
    rw [(hj.root n hn).mpr (by rw [hnode])] at hp
    cases hp
  entry p c hentry := by
    obtain ⟨e, he⟩ := ne_none_iff_exists'.mp hentry
    obtain ⟨n, hn, hnode, hp, -⟩ := hw.childEntry.mp he
    obtain ⟨m, hm, hparent, -⟩ := hj.parent_node hn hp
    rw [hnode] at hparent
    exact ⟨hw.header_ne.mpr ⟨m, hm, hparent⟩, hw.header_ne.mpr ⟨n, hn, hnode⟩⟩
  receiving c s := by
    constructor
    · rintro ⟨n, hst⟩
      cases hw.state_ready hst
    · rintro ⟨_, n, hst, -⟩
      cases hw.state_ready hst
  receiving_level c s n h k hst := by cases hw.state_ready hst
  root n s := by
    constructor
    · intro hst
      cases hw.state_ready hst
    · intro hst
      cases hw.state_ready hst
  reached c hc := by
    obtain ⟨n, hn, hnode⟩ := hw.header_ne.mp hc
    have hreached := hw.reached hj hn
    rwa [hnode] at hreached

lemma covered {h : PartitionHeader} (hh : hw.store.header t p = some h) (hlevel : h.level = 1) :
    ∃ s, hw.store.synopsis t p = some s ∧
      ∀ id e, hw.store.leafEntry t p id = some e → s.Covers ix e.fields := by
  have hcovers {id : RecordId} {e : LeafEntry} (he : hw.store.leafEntry t p id = some e) :
      ∃ s, hw.store.synopsis t p = some s ∧ s.Covers ix e.fields := by
    obtain ⟨j, hmem, hnode, rfl, rfl⟩ := hw.leafEntry.mp he
    have houtput : (⟨.leafEntry t p j.record.id, j.entry⟩ : Pair) ∈ output := by
      refine hw.tree.mem_iff.mpr (mem_append_left _ (mem_map.mpr ⟨j, hmem, ?_⟩))
      rw [leafPair, hnode]
    obtain ⟨s, hs, hcovers⟩ := (synopses_ok hw.summarised).2 _ _ _ _ houtput
    exact ⟨s, hw.synopsis hs, hcovers⟩
  obtain ⟨n, hn, hnode, hheader⟩ := hw.header.mp hh
  obtain ⟨j, hmem, hj'⟩ := hj.exists_entry hn ((Node.header_ok hheader).1 ▸ hlevel)
  obtain ⟨s, hs, -⟩ := hcovers (hw.leafEntry.mpr ⟨j, hmem, hj'.trans hnode, rfl, rfl⟩)
  -- Any entry's Synopsis is the one stored.
  refine ⟨s, hs, fun id e he => ?_⟩
  obtain ⟨_, hs', hcover⟩ := hcovers he
  rw [hs] at hs'
  cases hs'
  exact hcover

lemma root_header (h : hw.store.header t p ≠ none) : hw.store.header t rootPartition ≠ none := by
  obtain ⟨n, hn, hnode⟩ := hw.header_ne.mp h
  obtain ⟨f, hf, hframe, -⟩ := hj.frame_of_node hn
  obtain ⟨_, hroot, htree, hkey⟩ := (hj.frames f hf).1
  obtain ⟨m, hm, hmnode, -⟩ := hj.node_of_frame hroot
  have hft : f.treeKey = t := congrArg RecordLocation.treeKey (hframe.trans hnode)
  refine hw.header_ne.mpr ⟨m, hm, ?_⟩
  rw [hmnode, ForestPartition.node, htree, hkey, hft]

lemma highWater (h : hw.store.header t p ≠ none) :
    ∃ m, hw.store.treeManifest t = some m ∧ p ≤ m.partitionKeyHighWater := by
  obtain ⟨n, hn, hnode⟩ := hw.header_ne.mp h
  obtain ⟨hlast, -, hall⟩ := @highWaters_spec nodes none nofun hj.ordered
  obtain ⟨last, hmem, htree⟩ := hall n hn
  have hlt : last.treeKey = t := by rw [htree, hnode]
  obtain ⟨m, hm⟩ := ne_none_iff_exists'.mp (hw.treeManifest_ne hmem)
  rw [hlt] at hm
  have hle := (hlast _ (hw.treeManifest hm)).2 n hn (by rw [hnode])
  have hleaf := leaf_le hle (by rw [hnode])
  rw [hnode] at hleaf
  exact ⟨m, hm, hleaf⟩

lemma attained {m : TreeManifest} (h : hw.store.treeManifest t = some m) :
    hw.store.header t m.partitionKeyHighWater ≠ none := by
  obtain ⟨hlast, -, -⟩ := @highWaters_spec nodes none nofun hj.ordered
  obtain hopen | hnode := (hlast _ (hw.treeManifest h)).1
  · cases hopen
  · exact hw.header_ne.mpr hnode

lemma serves : ServesIndex ix input.records hw.store where
  distinct := by
    have hnodup : (joined.map fun j => j.record.id).Nodup :=
      pairwise_map.mpr (hj.distinct.imp fun h => ne_of_lt h)
    have hperm := hj.records.map Record.id
    rw [map_map] at hperm
    exact hperm.nodup_iff.mp hnodup
  record id r := by
    rw [hw.record]
    simp [hj.mem_records]
  payload id b := by
    rw [hw.payload]
    simp [hj.mem_records]
  placed s hs := by
    obtain ⟨j, hmem, rfl⟩ := hj.mem_records.mp hs
    obtain ⟨htree, hentry⟩ := hj.derived j hmem
    obtain ⟨n, hn, hnode, hlevel⟩ := hj.leaf_node hmem
    obtain ⟨h, hheader⟩ := hw.headers n hn
    exact ⟨j.node, j.entry, h, hw.location.mpr ⟨j, hmem, rfl, rfl⟩, htree,
      hw.leafEntry.mpr ⟨j, hmem, rfl, rfl, rfl⟩, hentry, hw.header.mpr ⟨n, hn, hnode, hheader⟩,
      (Node.header_ok hheader).1.trans hlevel⟩
  stored := hw.storedExactly hj
  ready _ _ _ := hw.state_ready
  shape := hw.treeShape hj
  rooted _ _ := hw.root_header hj
  synopsis _ _ _ := hw.covered hj
  highWater _ _ := hw.highWater hj
  attained _ _ := hw.attained hj

end Written

omit hj hw

/-- **A serving artifact is a well-formed index of its records.** -/
theorem build_serves (h : build ix graph input forest = .ok pairs) :
    ∃ hsorted : pairs.Pairwise fun a b => a.1 < b.1,
      ServesIndex ix input.records ⟨pairs, hsorted⟩ := by
  obtain ⟨_, _, _, _, _, _, hj, hw⟩ := build_ok h
  exact ⟨hw.sorted, hw.serves hj⟩

/-- Three records of one group. -/
def threeOnLine : Input :=
  ⟨[⟨[2], [5], [.bool true], none⟩, ⟨[1], [0], [.bool true], some [7]⟩,
    ⟨[3], [9], [.bool true], none⟩], 3⟩

/-- Their tree: two leaves below a root. -/
def lineForest : List ForestPartition :=
  [⟨[1], ⟨2, 1, [0], [[1]]⟩⟩, ⟨[1], ⟨3, 1, [7], [[2], [3]]⟩⟩,
    ⟨[1], ⟨1, 2, [4], [[0, 0, 0, 0, 0, 0, 0, 2], [0, 0, 0, 0, 0, 0, 0, 3]]⟩⟩]

/-- An index without graphs asks for none. -/
def noGraph : BuildGraph := fun _ => .error .corrupt

theorem build_serves_three : ∃ pairs, build Index.line noGraph threeOnLine lineForest = .ok pairs ∧
    pairs.length = 23 ∧ ∃ hsorted : pairs.Pairwise fun a b => a.1 < b.1,
      ServesIndex Index.line threeOnLine.records ⟨pairs, hsorted⟩ := by
  have hlength : (build Index.line noGraph threeOnLine lineForest).map List.length = .ok 23 := by
    decide +kernel
  cases hbuild : build Index.line noGraph threeOnLine lineForest with
  | error e =>
    rw [hbuild] at hlength
    cases hlength
  | ok pairs =>
    rw [hbuild] at hlength
    exact ⟨pairs, rfl, Except.ok.inj hlength, build_serves hbuild⟩

end Serving
