/-
Parents are found exactly.

Partitions keep no pointer to their parent: the walk from the root reads every
partition of the parent level.  In a committed store the walk meets each partition
of a level once, so it finds the one Child Entry that leads to a partition.

* `descendLevels_ok` — the walk reads whole levels;
* `findIncomingEdge_ok` — the parent is found;
* `runs_validateHeaders` — a validated walk has not moved;
* `run_discovery_exact` — both, along every run.
-/
import Ktann.Committed.Guarantees

open TxnM WriteTxn

section

variable {ix : Index} {build : GraphBuilder} {history : List Store} {S C : Store} {t : TreeKey}
  {p : PartitionKey}

/-! ### Whole levels -/

structure AtLevel (S : Store) (t : TreeKey) (level : ℕ) (bodies : List PartitionKey) : Prop where
  nodup : bodies.Nodup
  mem : ∀ p, p ∈ bodies ↔ ∃ h, S.header t p = some h ∧ h.level = level

variable {h r : PartitionHeader} {level : ℕ} {bodies : List PartitionKey}
  {proof : IncomingEdgeProof}

section
variable (hS : Coherent ix S)
include hS

lemma Coherent.level_le_root (hh : S.header t p = some h) (hr : S.header t rootPartition = some r)
    : h.level ≤ r.level := by
  have hhead : (S.topology t).head p = some h.head := by simp [Store.topology, hh]
  have hroot : (S.topology t).head rootPartition = some r.head := by simp [Store.topology, hr]
  exact (hS.topology t).level_le hhead hroot

lemma Coherent.rootTarget_level (hr : S.header t rootPartition = some r) (hp : S.RootTarget t p) :
    p ≠ rootPartition ∧ ∃ h, S.header t p = some h ∧ h.level = r.level := by
  obtain ⟨targets, n, hstate, hnames⟩ := hp
  obtain ⟨m, hreceiving⟩ :=
    ((hS.treeShape t).receiving p rootPartition).mpr ⟨targets, n, hstate, hnames⟩
  have hsome : S.header t p ≠ none := by
    intro hnone
    have hagree := (hS.treeShape t).agree p
    simp [hnone, hreceiving] at hagree
  obtain ⟨h, hh⟩ := ne_none_iff_exists'.mp hsome
  refine ⟨?_, h, hh, (hS.treeShape t).receiving_level p _ m h r hreceiving hh hr⟩
  rintro rfl
  exact ((hS.treeShape t).root m _).2 hreceiving

lemma Coherent.parent_of_lt (hr : S.header t rootPartition = some r) (hh : S.header t p = some h)
    (hlt : h.level < r.level) : ∃ q k e, S.childEntry t q p = some e ∧ e.child = p ∧
      S.header t q = some k ∧ k.level = h.level + 1 := by
  have hroot : p ≠ rootPartition := by
    rintro rfl
    cases hh.symm.trans hr
    exact hlt.ne rfl
  have htarget : ¬ S.RootTarget t p := by
    intro htarget
    obtain ⟨-, k, hk, hlevel⟩ := hS.rootTarget_level hr htarget
    cases hh.symm.trans hk
    exact hlt.ne hlevel
  obtain ⟨q, k, e, he, hchild, hk, hlevel, -⟩ := (hS.treeShape t).parent p h hh hroot htarget
  exact ⟨q, k, e, he, hchild, hk, hlevel⟩

lemma mem_rootTargets : p ∈ rootTargets S t ↔ S.RootTarget t p := by
  rw [rootTargets]
  cases hstate : S.state t rootPartition with
  | none => simp [Store.RootTarget, hstate]
  | some state =>
    cases state with
    | splitting targets n =>
      -- The targets a split has only reserved do not exist.
      obtain ⟨hl, hr⟩ := hS.targets_absent hstate
      simp [Store.RootTarget, hstate, hl, hr]
    | drainingSplit targets n =>
      constructor
      · intro hmem
        simp only [mem_filter, mem_cons, not_mem_nil, or_false] at hmem
        exact ⟨targets, n, hstate, by simpa [SplitPair.Names] using hmem.1⟩
      · intro htarget
        obtain ⟨r, hr⟩ := ne_none_iff_exists'.mp (fun hnone => by
          have hagree := (hS.treeShape t).agree rootPartition
          simp [hnone, hstate] at hagree : S.header t rootPartition ≠ none)
        have hroot := (hS.rootTarget_level hr htarget).1
        obtain ⟨_, _, hstate', hnames⟩ := htarget
        cases hstate.symm.trans hstate'
        simp only [mem_filter, mem_cons, not_mem_nil, or_false]
        exact ⟨by simpa [SplitPair.Names] using hnames, by simpa using hroot⟩
    | ready | receivingSplit | merging => simp [Store.RootTarget, hstate]

lemma atLevel_root (hr : S.header t rootPartition = some r) :
    AtLevel S t r.level (rootPartition :: rootTargets S t) where
  nodup := by
    refine nodup_cons.mpr ⟨fun hmem => ?_, ?_⟩
    · exact (hS.rootTarget_level hr ((mem_rootTargets hS).mp hmem)).1 rfl
    · rw [rootTargets]
      split
      · rename_i targets _ _
        exact List.Nodup.filter _ (by simpa using targets.ne)
      · rename_i targets _ _
        exact List.Nodup.filter _ (by simpa using targets.ne)
      · exact List.nodup_nil
  mem q := by
    rw [mem_cons, mem_rootTargets hS]
    constructor
    · rintro (rfl | htarget)
      · exact ⟨r, hr, rfl⟩
      · exact (hS.rootTarget_level hr htarget).2
    · rintro ⟨h, hh, hlevel⟩
      by_contra hnot
      push Not at hnot
      obtain ⟨_, k, e, -, -, hk, hup, -⟩ := (hS.treeShape t).parent q h hh hnot.1 hnot.2
      have hle := hS.level_le_root hk hr
      omega

end

/-- A level of the walk, one below a whole level. -/
def nextLevel (S : Store) (t : TreeKey) (bodies : List PartitionKey) : List PartitionKey :=
  bodies.flatMap fun p => (S.childEntries t p).map ChildEntry.child

section

variable (hS : Coherent ix S) (hr : S.header t rootPartition = some r)

include hS hr

lemma AtLevel.next (hbodies : AtLevel S t (level + 1) bodies) (hle : level < r.level) :
    AtLevel S t level (nextLevel S t bodies) := by
  have hmem : ∀ q, q ∈ nextLevel S t bodies ↔ ∃ b ∈ bodies, S.childEntry t b q ≠ none := by
    intro q
    simp only [nextLevel, mem_flatMap, mem_map, mem_childEntries]
    constructor
    · rintro ⟨b, hb, e, ⟨c, hc⟩, rfl⟩
      refine ⟨b, hb, ?_⟩
      rw [hS.child hc, hc]
      simp
    · rintro ⟨b, hb, hq⟩
      obtain ⟨e, he⟩ := ne_none_iff_exists'.mp hq
      exact ⟨b, hb, e, ⟨q, he⟩, hS.child he⟩
  constructor
  · -- A partition has one parent, so no two bodies share a child.
    refine List.nodup_flatMap.mpr ⟨fun b _ => childEntries_nodup hS t b, ?_⟩
    refine hbodies.nodup.imp fun {a b} hne => ?_
    intro c hca hcb
    obtain ⟨e, he, rfl⟩ := mem_map.mp hca
    obtain ⟨e', he', hchild⟩ := mem_map.mp hcb
    obtain ⟨c, hc⟩ := mem_childEntries.mp he
    obtain ⟨c', hc'⟩ := mem_childEntries.mp he'
    have hsame : c' = c := by rw [← hS.child hc, ← hS.child hc', hchild]
    have hv : (S.topology t).edge a c = some e.centroid := by simp [topology, hc]
    have hv' : (S.topology t).edge b c = some e'.centroid := by
      simp [topology, ← hsame, hc']
    exact hne ((hS.topology t).edge_unique hv hv')
  · intro q
    rw [hmem]
    constructor
    · rintro ⟨b, hb, hq⟩
      obtain ⟨k, hk, hlevel⟩ := (hbodies.mem b).mp hb
      obtain ⟨h, hh⟩ := ne_none_iff_exists'.mp ((hS.treeShape t).entry b q hq).2
      obtain ⟨v, hv⟩ := edge_of_childEntry hq
      have hup := (hS.topology t).edge_level (h := k.head) (k := h.head) hv
        (by simp [topology, hk]) (by simp [topology, hh])
      simp only [PartitionHeader.head] at hup
      exact ⟨h, hh, by omega⟩
    · rintro ⟨h, hh, hlevel⟩
      obtain ⟨b, k, e, he, -, hk, hup⟩ := hS.parent_of_lt hr hh (by omega)
      exact ⟨b, (hbodies.mem b).mpr ⟨k, hk, by omega⟩, by simp [he]⟩

lemma Coherent.level_inhabited (hh : S.header t p = some h) (hle : h.level ≤ level)
    (hler : level ≤ r.level) : ∃ q k, S.header t q = some k ∧ k.level = level := by
  induction level, hle using Nat.le_induction with
  | base => exact ⟨p, h, hh, rfl⟩
  | succ _ _ ih =>
    obtain ⟨q, k, hk, rfl⟩ := ih (by omega)
    obtain ⟨q', k', -, -, -, hk', hup⟩ := hS.parent_of_lt hr hk (by omega)
    exact ⟨q', k', hk', hup⟩

/-- **The walk reads whole levels.** -/
theorem descendLevels_ok (hh : S.header t p = some h) :
    ∀ {steps level : ℕ} {bodies : List PartitionKey}, AtLevel S t level bodies →
      level ≤ r.level → h.level + steps = level →
      ∃ reached, descendLevels S t steps level bodies = .ok reached ∧
        AtLevel S t h.level reached := by
  intro steps
  induction steps with
  | zero =>
    intro level bodies hbodies hle hlevel
    obtain rfl : level = h.level := by omega
    exact ⟨bodies, rfl, hbodies⟩
  | succ steps ih =>
    intro level bodies hbodies hle hlevel
    obtain ⟨level, rfl⟩ : ∃ l, level = l + 1 := ⟨h.level + steps, by omega⟩
    have hnext := hbodies.next hS hr (by omega)
    have hall : (bodies.all fun q => (S.header t q).any fun k => k.level = level + 1) = true := by
      rw [List.all_eq_true]
      intro q hq
      obtain ⟨k, hk, hkl⟩ := (hbodies.mem q).mp hq
      simp [hk, hkl]
    have hne : (nextLevel S t bodies).isEmpty = false := by
      obtain ⟨q, k, hk, hkl⟩ := hS.level_inhabited hr hh (show h.level ≤ level by omega) (by omega)
      rw [List.isEmpty_eq_false_iff]
      exact List.ne_nil_of_mem ((hnext.mem q).mpr ⟨k, hk, hkl⟩)
    have hdescend : descendLevels S t (steps + 1) (level + 1) bodies =
        descendLevels S t steps level (nextLevel S t bodies) := by
      rw [descendLevels, if_pos hall]
      exact if_neg (by rw [← nextLevel, hne]; decide)
    rw [hdescend]
    exact ih hnext (by omega) (by omega)

end

lemma levelBodies_ok (hS : Coherent ix S) (hh : S.header t p = some h) :
    ∃ bodies, levelBodies S t h.level = .ok bodies ∧ AtLevel S t h.level bodies := by
  have hhead : (S.topology t).head p = some h.head := by simp [topology, hh]
  obtain ⟨r, hr⟩ : ∃ r, S.header t rootPartition = some r := by
    refine ne_none_iff_exists'.mp (mt head_eq_none.mpr ?_)
    exact (hS.topology t).root ((hS.topology t).allocated hhead).1
  have hle := hS.level_le_root hh hr
  rw [levelBodies, hr]
  simp only [not_lt.mpr hle, if_false]
  exact descendLevels_ok hS hr hh (atLevel_root hS hr) le_rfl (by omega)

/-! ### The parent of a partition -/

lemma mem_childEdges {edge : PartitionKey × ChildEntry} :
    edge ∈ childEdges S t bodies ↔ edge.1 ∈ bodies ∧ edge.2 ∈ S.childEntries t edge.1 := by
  obtain ⟨b, e⟩ := edge
  simp only [childEdges, mem_flatMap, mem_map, Prod.mk.injEq]
  constructor
  · rintro ⟨_, hb', _, he', rfl, rfl⟩
    exact ⟨hb', he'⟩
  · rintro ⟨hb, he⟩
    exact ⟨b, hb, e, he, rfl, rfl⟩

section
variable (hS : Coherent ix S)
include hS

lemma childEdges_nodup (hb : bodies.Nodup) : (childEdges S t bodies).Nodup := by
  refine List.nodup_flatMap.mpr ⟨fun b _ => ?_, hb.imp fun {a b} hne => ?_⟩
  · exact (List.Nodup.of_map _ (childEntries_nodup hS t b)).map fun _ _ h => (Prod.mk.inj h).2
  · intro _ ha hb
    obtain ⟨e, -, rfl⟩ := mem_map.mp ha
    obtain ⟨_, -, heq⟩ := mem_map.mp hb
    exact hne (Prod.mk.inj heq).1.symm

lemma mem_childEdges_child {b : PartitionKey} {e : ChildEntry} :
    (b, e) ∈ (childEdges S t bodies).filter (fun edge => edge.2.child = p) ↔
      b ∈ bodies ∧ S.childEntry t b p = some e := by
  rw [mem_filter, mem_childEdges, mem_childEntries]
  constructor
  · rintro ⟨⟨hb, c, hc⟩, hchild⟩
    have hcp : c = p := (hS.child hc).symm.trans (of_decide_eq_true hchild)
    exact ⟨hb, hcp ▸ hc⟩
  · rintro ⟨hb, he⟩
    exact ⟨⟨hb, p, he⟩, decide_eq_true (hS.child he)⟩

/-- **The parent of a partition is found.** -/
theorem findIncomingEdge_ok (hh : S.header t p = some h) (hroot : p ≠ rootPartition)
    (htarget : ¬ S.RootTarget t p) :
    ∃ parent e, findIncomingEdge S t p h.level = .ok (some (parent, e)) ∧
      S.childEntry t parent p = some e ∧ ∀ q, S.childEntry t q p ≠ none → q = parent := by
  obtain ⟨parent, k, e, he, hchild, hk, hup, -, hunique⟩ :=
    (hS.treeShape t).parent p h hh hroot htarget
  have hlevel : parentLevel h.level = .ok k.level := by
    have := k.level_lt
    rw [parentLevel, if_pos (by omega), hup]
  obtain ⟨bodies, hok, hbodies⟩ := levelBodies_ok hS hk
  have hedges : (childEdges S t bodies).filter (fun edge => edge.2.child = p) = [(parent, e)] := by
    have hnodup := (childEdges_nodup (t := t) hS hbodies.nodup).filter fun edge => edge.2.child = p
    refine List.perm_singleton.mp ((perm_ext_iff_of_nodup hnodup (List.nodup_singleton _)).mpr
      fun edge => ?_)
    rw [mem_childEdges_child hS, mem_singleton]
    constructor
    · rintro ⟨-, hedge⟩
      have hq := hunique edge.1 (by simp [hedge])
      rw [hq, he] at hedge
      exact Prod.ext hq (Option.some.inj hedge).symm
    · rintro rfl
      exact ⟨(hbodies.mem parent).mpr ⟨k, hk, rfl⟩, he⟩
  refine ⟨parent, e, ?_, he, hunique⟩
  refine bind_eq_ok.mpr ⟨_, hlevel, bind_eq_ok.mpr ⟨_, hok, ?_⟩⟩
  rw [findIncomingEdgeIn, hedges]

end

/-! ### A remembered walk -/

lemma IncomingEdgeProof.read_header (hread : IncomingEdgeProof.read S t level = .ok proof) :
    ∀ q h, (q, h) ∈ proof.headers → S.header t q = some h := by
  obtain ⟨l, -, hread⟩ := bind_eq_ok.mp hread
  obtain ⟨_, -, hread⟩ := bind_eq_ok.mp hread
  obtain ⟨headers, hheaders, hread⟩ := bind_eq_ok.mp hread
  cases hread
  intro q h hmem
  obtain ⟨b, -, hb⟩ := exists_of_mem_mapM hheaders hmem
  cases hheader : S.header t b with
  | none => simp [hheader] at hb
  | some k =>
    simp only [hheader, Except.ok.injEq, Prod.mk.injEq] at hb
    obtain ⟨rfl, rfl⟩ := hb
    exact hheader

lemma IncomingEdgeProof.find_some (hS : Coherent ix S) {parent : PartitionKey} {e : ChildEntry}
    (hfind : proof.find S t p = .ok (some (parent, e))) :
    S.childEntry t parent p = some e ∧ ∃ h, (parent, h) ∈ proof.headers := by
  have hmem : (parent, e) ∈ (childEdges S t (proof.headers.map Prod.fst)).filter
      fun edge => edge.2.child = p := by
    rw [IncomingEdgeProof.find, findIncomingEdgeIn] at hfind
    split at hfind
    · cases hfind
    · rename_i edge hedge
      cases hfind
      rw [hedge]
      exact List.mem_singleton_self _
    · cases hfind
  obtain ⟨hbody, hedge⟩ := (mem_childEdges_child hS).mp hmem
  obtain ⟨⟨b, h⟩, hb, rfl⟩ := mem_map.mp hbody
  exact ⟨hedge, h, hb⟩

lemma runs_validateHeaders {headers : List (PartitionKey × PartitionHeader)} :
    ∀ {s s' : Txn ValueOf} {valid : Bool},
      Runs C (IncomingEdgeProof.validateHeaders t headers) s valid s' → valid = true →
      ∀ q h, (q, h) ∈ headers → Store.header (s.onto C) t q = some h := by
  induction headers with
  | nil => exact nofun
  | cons entry _ ih =>
    obtain ⟨b, _⟩ := entry
    intro s s' _ hrun hvalid q h hmem
    simp only [IncomingEdgeProof.validateHeaders, runs_bind, runs_getHeader, runs_ite] at hrun
    obtain ⟨header, _, ⟨rfl, rfl, -⟩, ⟨heq, hrun⟩ | ⟨-, hrun⟩⟩ := hrun
    · rcases mem_cons.mp hmem with heq' | hmem
      · cases heq'
        exact heq
      · exact ih hrun hvalid q h hmem
    · obtain ⟨rfl, -, -⟩ := runs_pure.mp hrun
      cases hvalid

lemma runs_validate {s s' : Txn ValueOf} (hrun : Runs C (proof.validate t) s true s') :
    ∀ q h, (q, h) ∈ proof.headers → Store.header (s.onto C) t q = some h := by
  simp only [IncomingEdgeProof.validate, runs_bind, runs_read, runs_ite, runs_pure] at hrun
  obtain ⟨_, _, ⟨-, rfl, -⟩, ⟨-, hrun⟩ | ⟨-, hfalse, -⟩⟩ := hrun
  · exact runs_validateHeaders hrun rfl
  · cases hfalse

/-- **Parents are found exactly, and a validated walk is safe.**  In every committed
store the walk finds the one Child Entry that leads to a partition; and an edge
resolved by a remembered walk in any earlier store is still there in the store a
transaction that validated the walk commits onto. -/
theorem run_discovery_exact (hrun : RunFromEmpty ix build history) :
    (∀ S ∈ history, ∀ t p h, S.header t p = some h → p ≠ rootPartition → ¬ S.RootTarget t p →
      ∃ parent e, findIncomingEdge S t p h.level = .ok (some (parent, e)) ∧
        S.childEntry t parent p = some e ∧ ∀ q, S.childEntry t q p ≠ none → q = parent) ∧
    ∀ S ∈ history, ∀ t p level proof parent e, IncomingEdgeProof.read S t level = .ok proof →
      proof.find S t p = .ok (some (parent, e)) →
      ∀ (α β : Type) (before : WriteTxn α) (after : α → Bool → WriteTxn β) (b : β) S',
        ReadOnly before →
        Commits (do
          let a ← before
          let valid ← proof.validate t
          let b ← after a valid
          pure (valid, b)) (true, b) history S' →
        ∃ C, history.head? = some C ∧ C.childEntry t parent p = some e ∧
          ∀ q, C.childEntry t q p ≠ none → q = parent := by
  have hh := hrun.consistent (coherent_empty ix)
  constructor
  · exact fun S hS t p h => findIncomingEdge_ok (hh.coherent S hS)
  · intro S hS t p _ _ parent e hread hfind α β _ _ b S' hbefore hcommits
    obtain ⟨C, _, s, hC, -, hrun, -, -⟩ := hh.runs hcommits
    simp only [runs_bind, runs_pure, Prod.mk.injEq] at hrun
    obtain ⟨a, s₁, hrun₁, _, _, hvalidate, _, _, -, ⟨rfl, -⟩, -⟩ := hrun
    have honto : s₁.onto C = C := (hbefore.sameWrites hrun₁).onto_eq C
    have hCc := hh.coherent C (mem_of_mem_head? hC)
    obtain ⟨hedge, h, hmem⟩ := IncomingEdgeProof.find_some (hh.coherent S hS) hfind
    have hheader := IncomingEdgeProof.read_header hread parent h hmem
    -- The Header is unchanged since the walk, so the entries are.
    have hheader' : C.header t parent = some h := by
      rw [← honto]
      exact runs_validate hvalidate parent h hmem
    have hsame := ((hh.evolves_head hS hC).grown hheader hheader').same rfl
    have hedge' : C.childEntry t parent p = some e := (hsame.2.child p).trans hedge
    refine ⟨C, hC, hedge', fun q hq => ?_⟩
    obtain ⟨v, hv⟩ := edge_of_childEntry hq
    obtain ⟨w, hw⟩ := edge_of_childEntry (q := parent) (by rw [hedge']; simp)
    exact (hCc.topology t).edge_unique hv hw

theorem run_discovery_exact_line : lineHistory.length = 10 ∧
    ∀ S ∈ lineHistory, ∀ t p h, S.header t p = some h → p ≠ rootPartition → ¬ S.RootTarget t p →
      ∃ parent e, findIncomingEdge S t p h.level = .ok (some (parent, e)) ∧
        S.childEntry t parent p = some e ∧ ∀ q, S.childEntry t q p ≠ none → q = parent :=
  ⟨lineHistory_length, (run_discovery_exact lineHistory_run).1⟩

end
