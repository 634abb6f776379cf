/-
What every run of an index keeps.

The stores of a run are coherent, and each evolves from every older one.  The
statements below say what that means for the keys the program stores.

* `run_stored_exactly` — a record has one Leaf Entry, where its Location says, and
  the counts are exact;
* `run_tree_shape` — each tree is a tree, with its splits in flight;
* `run_synopsis_covers` — a leaf's Synopsis covers its entries and only grows;
* `run_draining_only_shrinks` — a draining or merging partition gains nothing;
* `run_keys_never_reused` — Partition Keys are allocated once;
* `run_partitions_age` — a partition goes through its lifecycle once.
-/
import Ktann.Committed.Execution

section

attribute [local simp] topology

variable {ix : Index} {build : GraphBuilder} {history : List Store} {S S' S'' : Store}
  {t : TreeKey} {p : PartitionKey}

/-! ### Exact membership -/

/-- What is stored for the records of an index, in the terms of its keys. -/
structure StoredExactly (S : Store) : Prop where
  /-- A Record and its Location are present together. -/
  located : ∀ id, (S.record id).isSome = (S.location id).isSome
  payload : ∀ id, S.payload id ≠ none → S.record id ≠ none
  /-- A record has one Leaf Entry in the whole index: the one its Location names, for
  the same fields. -/
  entry : ∀ id r, S.record id = some r → ∃ l e, S.location id = some l ∧
    S.leafEntry l.treeKey l.leaf id = some e ∧ e.recordId = id ∧ e.fields = r.fields ∧
    ∀ t p, S.leafEntry t p id ≠ none → (⟨t, p⟩ : RecordLocation) = l
  owned : ∀ t p id, S.leafEntry t p id ≠ none → S.record id ≠ none
  /-- A Header counts the entries stored under its partition. -/
  count : ∀ t p h, S.header t p = some h → h.entryCount = S.entryCount t p

lemma Coherent.storedExactly (hS : Coherent ix S) : StoredExactly S where
  located id := by
    have := hS.membership.located id
    cases hr : S.record id <;> cases hl : S.location id <;> simp_all
  payload id hp hr := hp (hS.membership.payload hr)
  entry id r hr := by
    have hl : S.location id ≠ none := by
      rw [Ne, ← hS.membership.located id, hr]
      simp
    obtain ⟨l, hl⟩ := ne_none_iff_exists'.mp hl
    obtain ⟨e, he⟩ := ne_none_iff_exists'.mp (hS.membership.stored hl)
    obtain ⟨-, hid, hfields⟩ := hS.membership.entry he
    refine ⟨l, e, hl, he, hid, hfields r hr, fun t p hp => ?_⟩
    obtain ⟨_, he'⟩ := ne_none_iff_exists'.mp hp
    have hl' := (hS.membership.entry he').1
    rw [hl] at hl'
    exact (Option.some.inj hl').symm
  owned t p id hp := by
    obtain ⟨e, he⟩ := ne_none_iff_exists'.mp hp
    rw [Ne, hS.membership.located id, (hS.membership.entry he).1]
    simp
  count t p h hh := (hS.bodies t p).count hh

/-- **Records, Locations, Leaf Entries and counts agree in every committed store.** -/
theorem run_stored_exactly (hrun : RunFromEmpty ix build history) :
    ∀ S ∈ history, StoredExactly S :=
  fun S hS => ((hrun.consistent (coherent_empty ix)).coherent S hS).storedExactly

theorem run_stored_exactly_line : lineHistory.length = 10 ∧ ∀ S ∈ lineHistory, StoredExactly S :=
  ⟨lineHistory_length, run_stored_exactly lineHistory_run⟩

/-! ### The shape of a tree -/

/-- Reached from the root along Child Entries and the targets of a draining root. -/
inductive Store.Reached (S : Store) (t : TreeKey) : PartitionKey → Prop
  | root : Reached S t rootPartition
  | child {p c : PartitionKey} (parent : Reached S t p) (entry : S.childEntry t p c ≠ none) :
      Reached S t c
  | target {c : PartitionKey} {targets : SplitPair} {n : ℕ}
      (state : S.state t rootPartition = some (.drainingSplit targets n))
      (names : targets.Names c) : Reached S t c

/-- A target of a draining root: the one kind of partition without a parent. -/
def Store.RootTarget (S : Store) (t : TreeKey) (c : PartitionKey) : Prop :=
  ∃ targets n, S.state t rootPartition = some (.drainingSplit targets n) ∧ targets.Names c

structure TreeShape (S : Store) (t : TreeKey) : Prop where
  /-- Headers and States are present together and agree. -/
  agree : ∀ p, (S.header t p).map PartitionHeader.state =
    (S.state t p).map PartitionTransition.state
  /-- A partition has one parent, one level up, that carries its Centroid. -/
  parent : ∀ c h, S.header t c = some h → c ≠ rootPartition → ¬ S.RootTarget t c →
    ∃ p k e, S.childEntry t p c = some e ∧ e.child = c ∧ S.header t p = some k ∧
      k.level = h.level + 1 ∧ S.centroid t c = some e.centroid ∧
      ∀ q, S.childEntry t q c ≠ none → q = p
  /-- The targets of a draining root have none yet. -/
  rootTarget : ∀ c, S.RootTarget t c → ∀ p, S.childEntry t p c = none
  orphan : ∀ p, S.childEntry t p rootPartition = none
  entry : ∀ p c, S.childEntry t p c ≠ none → S.header t p ≠ none ∧ S.header t c ≠ none
  /-- A partition receives a split exactly when the source names it, at one level. -/
  receiving : ∀ c s, (∃ n, S.state t c = some (.receivingSplit s n)) ↔
    ∃ targets n, S.state t s = some (.drainingSplit targets n) ∧ targets.Names c
  receiving_level : ∀ c s n h k, S.state t c = some (.receivingSplit s n) →
    S.header t c = some h → S.header t s = some k → h.level = k.level
  root : ∀ n s, S.state t rootPartition ≠ some (.merging n) ∧
    S.state t rootPartition ≠ some (.receivingSplit s n)
  reached : ∀ c, S.header t c ≠ none → S.Reached t c

lemma Store.edge_eq_none {c : PartitionKey} :
    (S.topology t).edge p c = none ↔ S.childEntry t p c = none := by
  simp

lemma Store.head_eq_none : (S.topology t).head p = none ↔ S.header t p = none := by
  simp

lemma Store.reached_of_reachable {c : PartitionKey} (h : (S.topology t).Reachable c) :
    S.Reached t c := by
  induction h with
  | root => exact .root
  | child _ edge ih =>
    refine .child ih fun hnone => ?_
    rw [Store.edge_eq_none.mpr hnone] at edge
    cases edge
  | target phase names =>
    obtain ⟨n, hstate⟩ := phase_draining.mp phase
    exact .target hstate names

lemma Coherent.treeShape (hS : Coherent ix S) (t : TreeKey) : TreeShape S t where
  agree p := by
    cases hh : S.header t p with
    | none =>
      have hnone := ((hS.topology t).phase_none p).mpr (Store.head_eq_none.mpr hh)
      have hstate : S.state t p = none := by simpa using hnone
      simp [hstate]
    | some h =>
      cases hs : S.state t p with
      | none =>
        have hnone : (S.topology t).phase p = none := by simp [hs]
        have hhead := Store.head_eq_none.mp (((hS.topology t).phase_none p).mp hnone)
        rw [hh] at hhead
        cases hhead
      | some state =>
        have hhead : (S.topology t).head p = some h.head := by simp [hh]
        have hphase : (S.topology t).phase p = some state.phase := by simp [hs]
        have hagree := (hS.topology t).agree hhead hphase
        rw [state.phase_state] at hagree
        simpa [PartitionHeader.head] using hagree
  parent c h hh hroot htarget := by
    have hhead : (S.topology t).head c = some h.head := by simp [hh]
    -- Without an edge it would be a target of a draining root.
    have hedge : ∃ p, (S.topology t).edge p c ≠ none := by
      by_contra hnone
      push Not at hnone
      obtain ⟨targets, hphase, hnames⟩ := (hS.topology t).incoming hhead hroot hnone
      obtain ⟨n, hstate⟩ := phase_draining.mp hphase
      exact htarget ⟨targets, n, hstate, hnames⟩
    obtain ⟨p, hp⟩ := hedge
    obtain ⟨e, he⟩ := ne_none_iff_exists'.mp (mt Store.edge_eq_none.mpr hp)
    have hv : (S.topology t).edge p c = some e.centroid := by simp [he]
    obtain ⟨-, hcentroid, hparent, -⟩ := (hS.topology t).edge hv
    obtain ⟨k, hk⟩ := ne_none_iff_exists'.mp (mt Store.head_eq_none.mpr hparent)
    have hkhead : (S.topology t).head p = some k.head := by simp [hk]
    refine ⟨p, k, e, he, hS.child he, hk, (hS.topology t).edge_level hv hkhead hhead, hcentroid,
      fun q hq => ?_⟩
    obtain ⟨w, hw⟩ := edge_of_childEntry hq
    exact (hS.topology t).edge_unique hw hv
  rootTarget c htarget p := by
    obtain ⟨targets, n, hstate, hnames⟩ := htarget
    exact Store.edge_eq_none.mp ((hS.topology t).rootTarget (phase_draining.mpr ⟨n, hstate⟩) hnames)
  orphan p := by
    by_contra hp
    obtain ⟨v, hv⟩ := edge_of_childEntry hp
    exact ((hS.topology t).edge hv).1 rfl
  entry p c hc := by
    obtain ⟨v, hv⟩ := edge_of_childEntry hc
    obtain ⟨-, -, hp, hc⟩ := (hS.topology t).edge hv
    exact ⟨mt Store.head_eq_none.mpr hp, mt Store.head_eq_none.mpr hc⟩
  receiving c s := by
    constructor
    · rintro ⟨n, hstate⟩
      obtain ⟨targets, hphase, hnames⟩ :=
        (hS.topology t).receiving (phase_receiving.mpr ⟨n, hstate⟩)
      obtain ⟨m, hstate'⟩ := phase_draining.mp hphase
      exact ⟨targets, m, hstate', hnames⟩
    · rintro ⟨_, n, hstate, hnames⟩
      exact phase_receiving.mp ((hS.topology t).draining (phase_draining.mpr ⟨n, hstate⟩) hnames)
  receiving_level c s n h k hstate hh hk :=
    (hS.topology t).receiving_level (h := h.head) (k := k.head)
      (phase_receiving.mpr ⟨n, hstate⟩) (by simp [hh])
      (by simp [hk])
  root n s := by
    obtain ⟨hmerging, hreceiving⟩ := (hS.topology t).root_phase
    refine ⟨fun hstate => hmerging ?_, fun hstate => hreceiving s ?_⟩
    · simp [hstate, PartitionTransition.phase]
    · exact phase_receiving.mpr ⟨n, hstate⟩
  reached c hc := by
    obtain ⟨h, hh⟩ := ne_none_iff_exists'.mp (mt Store.head_eq_none.mp hc)
    exact Store.reached_of_reachable ((hS.topology t).reachable hh)

/-- **Every committed store holds trees.** -/
theorem run_tree_shape (hrun : RunFromEmpty ix build history) : ∀ S ∈ history, ∀ t, TreeShape S t :=
  fun S hS => ((hrun.consistent (coherent_empty ix)).coherent S hS).treeShape

theorem run_tree_shape_line : lineHistory.length = 10 ∧ ∀ S ∈ lineHistory, ∀ t, TreeShape S t :=
  ⟨lineHistory_length, run_tree_shape lineHistory_run⟩

/-! ### Synopses -/

/-- **The Synopsis of a leaf covers its Leaf Entries and only grows while the
partition stays a leaf; no other partition has one.** -/
theorem run_synopsis_covers (hrun : RunFromEmpty ix build history) :
    (∀ S ∈ history, ∀ t p h, S.header t p = some h →
      (h.level = 1 → ∃ y, S.synopsis t p = some y ∧ y.hasShapeFor ix = true ∧
        ∀ id e, S.leafEntry t p id = some e → y.Covers ix e.fields) ∧
      (h.level ≠ 1 → S.synopsis t p = none)) ∧
    history.Pairwise fun new old => ∀ t p h h' y, old.header t p = some h →
      new.header t p = some h' → h'.level = 1 → old.synopsis t p = some y →
        ∃ y', new.synopsis t p = some y' ∧ y.Le y' := by
  have hh := hrun.consistent (coherent_empty ix)
  refine ⟨fun S hS t p h hp => ⟨((hh.coherent S hS).bodies t p).leaf hp, fun hl =>
    (((hh.coherent S hS).bodies t p).internal hp hl).1⟩, hh.evolves.imp ?_⟩
  intro _ _ hev t p h h' y hold hnew hl hy
  exact (hev.grown hold hnew).synopsis hl y hy

theorem run_synopsis_covers_line : lineHistory.length = 10 ∧
    (∀ S ∈ lineHistory, ∀ t p h, S.header t p = some h →
      (h.level = 1 → ∃ y, S.synopsis t p = some y ∧ y.hasShapeFor .line = true ∧
        ∀ id e, S.leafEntry t p id = some e → y.Covers .line e.fields) ∧
      (h.level ≠ 1 → S.synopsis t p = none)) :=
  ⟨lineHistory_length, (run_synopsis_covers lineHistory_run).1⟩

/-! ### Draining partitions only shrink -/

def PartitionTransition.Drains (state : PartitionTransition) : Prop :=
  state.state = .drainingSplit ∨ state.state = .merging

/-- A partition keeps its State and gains no entry. -/
structure Shrunk (S S' : Store) (t : TreeKey) (p : PartitionKey) : Prop where
  state : S'.state t p = S.state t p
  leaf : ∀ id, S'.leafEntry t p id ≠ none → S.leafEntry t p id ≠ none
  child : ∀ c, S'.childEntry t p c ≠ none → S.childEntry t p c ≠ none

/-- A partition that is being emptied, and stays at its level, shrinks. -/
def Shrinks (S S' : Store) : Prop :=
  ∀ t p h h' state, S.header t p = some h → S'.header t p = some h' → h'.level = h.level →
    S.state t p = some state → state.Drains → Shrunk S S' t p

lemma Shrunk.refl : Shrunk S S t p := ⟨rfl, fun _ => id, fun _ => id⟩

lemma Shrunk.trans (h : Shrunk S S' t p) (h' : Shrunk S' S'' t p) : Shrunk S S'' t p :=
  ⟨h'.state.trans h.state, fun id hid => h.leaf id (h'.leaf id hid),
    fun c hc => h.child c (h'.child c hc)⟩

/-- Keys whose writes fill a partition or change its State. -/
def LogicalKey.fills (t : TreeKey) (p : PartitionKey) : LogicalKey → Bool
  | .state t' q | .leafEntry t' q _ | .childEntry t' q _ => decide (t' = t ∧ q = p)
  | _ => false

lemma Shrunk.put {k : LogicalKey} {v : k.ValueOf} (h : Shrunk S S' t p)
    (hk : k.fills t p = false) : Shrunk S (S'.put k v) t p := by
  refine h.trans ⟨?_, fun id => ?_, fun c => ?_⟩ <;> cases k <;>
    simp [LogicalKey.fills] at hk ⊢
  all_goals grind

lemma Shrunk.erase {k : LogicalKey} (h : Shrunk S S' t p) (hk : k ≠ .state t p) :
    Shrunk S (S'.erase k) t p := by
  refine h.trans ⟨?_, fun id => ?_, fun c => ?_⟩ <;> cases k <;> simp at hk ⊢
  all_goals grind

attribute [local simp] LogicalKey.fills PartitionTransition.Drains PartitionTransition.state

section Units

variable {t' : TreeKey} {q c : PartitionKey} {h : PartitionHeader} (hs : Shrunk S S' t p)
include hs

namespace Shrunk

lemma putLeaf {e : LeafEntry} {y : PartitionSynopsis} (hne : ¬ (t' = t ∧ q = p)) :
    Shrunk S (S'.putLeaf t' q e h y) t p :=
  ((hs.put (by simpa using hne)).put rfl).put rfl

lemma eraseLeaf {id : RecordId} : Shrunk S (S'.eraseLeaf t' q id h) t p :=
  (hs.erase (by simp)).put rfl

lemma putChild {e : ChildEntry} (hne : ¬ (t' = t ∧ q = p)) :
    Shrunk S (S'.putChild t' q e h) t p :=
  (hs.put (by simpa using hne)).put rfl

lemma eraseChild : Shrunk S (S'.eraseChild t' q c h) t p := (hs.erase (by simp)).put rfl

lemma restate {state : PartitionTransition} (hne : ¬ (t' = t ∧ q = p)) :
    Shrunk S (S'.restate t' q h state) t p :=
  (hs.put (by simpa using hne)).put rfl

lemma createTarget {source : PartitionKey} {v : VectorData} {n : ℕ}
    (hne : ¬ (t' = t ∧ q = p)) : Shrunk S (S'.createTarget ix t' source h q v n) t p := by
  have hcreated : Shrunk S (((S'.put (.header t' q) (PartitionHeader.fresh h.level .receivingSplit
      h.level_pos h.level_lt)).put (.state t' q) (.receivingSplit source n)).put (.centroid t' q) v)
      t p := ((hs.put rfl).put (by simpa using hne)).put rfl
  rw [Store.createTarget]
  split_ifs
  · exact hcreated.put rfl
  · exact hcreated

lemma createTree {n : ℕ} (hne : ¬ (t' = t ∧ rootPartition = p)) :
    Shrunk S (S'.createTree ix t' n) t p :=
  (((hs.put rfl).put rfl).put rfl).put (by simpa using hne)

lemma promoteRoot {a b : ChildEntry} {n : ℕ} (hne : ¬ (t' = t ∧ rootPartition = p)) :
    Shrunk S (S'.promoteRoot t' a b h n) t p := by
  have hfills : ∀ {q}, (LogicalKey.childEntry t' rootPartition q).fills t p = false := by
    simpa using hne
  exact ((((hs.put hfills).put hfills).erase (by simp)).put rfl).put (by simpa using hne)

lemma removePartition (hne : ¬ (t' = t ∧ q = p)) : Shrunk S (S'.removePartition t' q) t p :=
  (((hs.erase (by simp)).erase (by simp)).erase (by simpa using fun h => hne h)).erase (by simp)

lemma putRecord {record : VectorRecord} {payload : Option Bytes} {l : RecordLocation} :
    Shrunk S (S'.putRecord record payload l) t p := by
  cases payload with
  | none => exact ((hs.put rfl).put rfl).erase (by simp)
  | some => exact ((hs.put rfl).put rfl).put rfl

lemma eraseRecord {id : RecordId} : Shrunk S (S'.eraseRecord id) t p :=
  ((hs.erase (by simp)).erase (by simp)).erase (by simp)

end Shrunk

end Units

lemma ne_of_header {t' : TreeKey} {q : PartitionKey} {h k : PartitionHeader}
    {state : PartitionTransition} (hS : Coherent ix S) (hh : S.header t p = some h)
    (hstate : S.state t p = some state) (hdrains : state.Drains) (hk : S.header t' q = some k)
    (hne : k.state ≠ .drainingSplit ∧ k.state ≠ .merging) : ¬ (t' = t ∧ q = p) := by
  rintro ⟨rfl, rfl⟩
  rw [hh] at hk
  cases hk
  have hagree := (hS.treeShape t').agree q
  rw [hh, hstate] at hagree
  have hsame : h.state = state.state := by simpa using hagree
  rcases hdrains with hd | hd
  · exact hne.1 (hsame.trans hd)
  · exact hne.2 (hsame.trans hd)

/-- **An effect never adds to a partition that is being emptied.** -/
theorem Effect.shrinks (heffect : Effect ix S S') (hS : Coherent ix S) : Shrinks S S' := by
  intro t p h h' state hh hh' hlevel hstate hdrains
  have hne {t' : TreeKey} {q : PartitionKey} {k : PartitionHeader}
      (hk : S.header t' q = some k) (hst : k.state ≠ .drainingSplit ∧ k.state ≠ .merging) :
      ¬ (t' = t ∧ q = p) := ne_of_header hS hh hstate hdrains hk hst
  have hother {t' : TreeKey} {q : PartitionKey} {state' : PartitionTransition}
      (hs : S.state t' q = some state') (hd : ¬ state'.Drains) : ¬ (t' = t ∧ q = p) := by
    rintro ⟨rfl, rfl⟩
    rw [hstate] at hs
    cases hs
    exact hd hdrains
  have habsent {t' : TreeKey} {q : PartitionKey} (hq : S.header t' q = none) :
      ¬ (t' = t ∧ q = p) := by
    rintro ⟨rfl, rfl⟩
    rw [hh] at hq
    cases hq
  have htarget {t' : TreeKey} {q c : PartitionKey} {targets : SplitPair} {n : ℕ}
      (hs : S.state t' q = some (.drainingSplit targets n)) (hc : targets.Names c) :
      ¬ (t' = t ∧ c = p) := by
    obtain ⟨m, hreceiving⟩ := ((hS.treeShape t').receiving c q).mpr ⟨targets, n, hs, hc⟩
    exact hother hreceiving (by simp)
  have haccepts {k : PartitionHeader} (hk : k.state.acceptsWrites = true) :
      k.state ≠ .drainingSplit ∧ k.state ≠ .merging := by
    cases hks : k.state <;> simp_all [PartitionState.acceptsWrites]
  cases heffect with
  | @createTree t' n absent =>
    refine Shrunk.refl.createTree ?_
    rintro ⟨rfl, rfl⟩
    have hhead : (S.topology t').head rootPartition = some h.head := by simp [hh]
    exact ((hS.topology t').allocated hhead).1 (by simp [absent])
  | insert id fields _ header leaf accepts added synopsis expanded =>
    exact (Shrunk.refl.putLeaf (hne header (haccepts accepts))).putRecord
  | replace id fields location header leaf accepts _ synopsis expanded =>
    exact (Shrunk.refl.putLeaf (hne header (haccepts accepts))).putRecord
  | replaceAcross id fields location ne sourceHeader removed header leaf accepts added synopsis
      expanded =>
    exact (Shrunk.refl.eraseLeaf.putLeaf (hne header (haccepts accepts))).putRecord
  | delete _ header removed => exact Shrunk.refl.eraseLeaf.eraseRecord
  | moveLeaf movement entry ne sourceHeader sourceState removed header leaf targetState added
      synopsis expanded =>
    refine (Shrunk.refl.eraseLeaf.putLeaf (hne header ?_)).put rfl
    rw [targetState]
    cases movement <;> decide
  | beginSplit header state' _ _ left right =>
    exact (Shrunk.refl.put rfl).restate (hother state' (by simp))
  | exposeRoot header state' =>
    obtain ⟨hl, hr⟩ := hS.targets_absent state'
    exact ((Shrunk.refl.createTarget (habsent hl)).createTarget (habsent hr)).restate
      (hother state' (by simp))
  | exposeChild notRoot header state' edge parentHeader level accepts =>
    obtain ⟨hl, hr⟩ := hS.targets_absent state'
    have hparent := hne parentHeader (haccepts (Bool.and_eq_true_iff.mp accepts).1)
    exact ((((Shrunk.refl.createTarget (habsent hl)).createTarget (habsent hr)).putChild
      hparent).putChild hparent).restate
        (hother state' (by simp))
  | moveChild movement entry ne header sourceState removed targetHeader targetState family
      level added fits =>
    refine (Shrunk.refl.putChild (hne targetHeader ?_)).eraseChild
    rw [targetState]
    cases movement <;> decide
  | @finishRoot t' k k' left right targets a b began n header state' drained leftHeader rightHeader
      leftCentroid rightCentroid level ready count epoch =>
    refine ((Shrunk.refl.restate (htarget state' targets.names_left)).restate
      (htarget state' targets.names_right)).promoteRoot ?_
    -- The root is promoted: it does not stay at its level.
    rintro ⟨rfl, rfl⟩
    rw [header] at hh
    cases hh
    simp [Store.promoteRoot] at hh'
    subst hh'
    omega
  | @finishChild t' q parent k l l' left right targets began n notRoot header state' drained
      leftHeader rightHeader edge parentHeader removed =>
    refine ((Shrunk.refl.restate (htarget state' targets.names_left)).restate
      (htarget state' targets.names_right)).eraseChild.removePartition ?_
    rintro ⟨rfl, rfl⟩
    simp [removePartition] at hh'
  | beginMerge notRoot header state' _ edge =>
    exact Shrunk.refl.restate (hother state' (by simp))
  | finishMerge _ header _ _ _ parentHeader =>
    refine Shrunk.refl.eraseChild.removePartition ?_
    rintro ⟨rfl, rfl⟩
    simp [removePartition] at hh'
  | recenter _ header _ _ parentHeader parentReady =>
    refine (Shrunk.refl.put rfl).putChild (hne parentHeader ?_)
    rw [parentReady]
    decide
  | graph same _ =>
    refine ⟨same (.state t p) rfl, fun id hid => ?_, fun c hc => ?_⟩
    · rwa [Store.leafEntry, same (.leafEntry t p id) rfl] at hid
    · rwa [Store.childEntry, same (.childEntry t p c) rfl] at hc

lemma Shrinks.prolong (hS : Coherent ix S) (hS' : Coherent ix S') (hev : Evolves S S')
    (h : Shrinks S S') (heffect : Effect ix S' S'') : Shrinks S S'' := by
  intro t p k k'' state hk hk'' hlevel hstate hdrains
  have hev' := heffect.evolves hS'
  obtain ⟨k', hk'⟩ := hev.between hev' hS hS' (heffect.coherent hS') hk hk''
  -- Levels only rise, so the partition has not been promoted in between either.
  have hle := (hev.grown hk hk').level_le
  have hle' := (hev'.grown hk' hk'').level_le
  have hmid := h t p k k' state hk hk' (by omega) hstate hdrains
  exact hmid.trans (heffect.shrinks hS' t p k' k'' state hk' hk'' (by omega)
    (hmid.state.trans hstate) hdrains)

def Operation.drains : Operation → Option (TreeKey × PartitionKey)
  | drainSplit t p _ | drainMerge t p _ | graphStep t p _ _ _ _ => some (t, p)
  | _ => none

/-- The number of entries a committed drain batch reports to have moved. -/
def Report.moved : Report → Option ℕ
  | splitDrain (.drained moved _) | mergeDrain (some (.drained moved _))
  | graph (some (.drained moved _)) => some moved
  | _ => none

lemma CommitStep.drains {op : Operation} {report : Report} {n : ℕ}
    (hstep : CommitStep ix build history op report S') (hh : Consistent ix history)
    (hop : op.drains = some (t, p)) (hreport : report.moved = some n) :
    ∃ C h h', history.head? = some C ∧ C.header t p = some h ∧ S'.header t p = some h' ∧
      h.entryCount = h'.entryCount + n := by
  cases hstep with
  | @drainSplit _ _ _ S _ _ _ step read planned hcommits =>
    cases hop
    obtain ⟨C, _, s, hC, -, hrun, rfl, hr⟩ := hh.runs hcommits
    have hdistinct := splitDrainPlan_distinct (hh.coherent _ read) planned
    have hreports := (effects_splitDrainAttempt hr.store hdistinct hrun).1.2
    cases step with
    | drained moved remaining =>
      cases hreport
      obtain ⟨h, h', hheader, hheader', hcount, -⟩ := hreports
      exact ⟨C, h, h', hC, hheader, hheader', hcount⟩
    | sourceAdvanced => cases hreport
  | @drainMerge _ _ _ S _ _ _ step read planned hcommits =>
    cases hop
    obtain ⟨C, _, s, hC, -, hrun, rfl, -⟩ := hh.runs hcommits
    have hdistinct := mergeDrainPlan_distinct (hh.coherent _ read) planned
    have hreports := (effects_mergeDrainAttempt hdistinct hrun).1.2
    cases step with
    | none => cases hreport
    | some step =>
      cases step with
      | drained _ remaining =>
        cases hreport
        obtain ⟨h, h', hheader, hheader', hcount, -⟩ := hreports _ rfl
        exact ⟨C, h, h', hC, hheader, hheader', hcount⟩
      | sourceAdvanced => cases hreport
  | @graphStep _ _ a b _ _ S _ _ _ advance graph read _ planned hcommits =>
    cases hop
    obtain ⟨C, _, s, hC, -, hrun, rfl, hr⟩ := hh.runs hcommits
    have hdrained := (effects_graphApply graph hr (hh.coherent _ read)
      (hh.evolves_head read hC) planned
      hrun).2
    cases advance with
    | none => cases hreport
    | some advance =>
      cases advance with
      | drained _ remaining =>
        cases hreport
        obtain ⟨h, h', hheader, hheader', hcount⟩ := hdrained _ remaining rfl
        exact ⟨C, h, h', hC, hheader, hheader', hcount⟩
      | exposed | completed => cases hreport
  | createTree | mutate | beginSplit | exposeTargets | completeSplit | beginMerge | completeMerge
  | refine | updateCentroid | graphCentroids => cases hop

/-- **A partition that drains a split or merges only shrinks.**  Until it is removed
or promoted to a higher level it keeps its State and gains no entry, and each
committed drain batch takes from it the number of entries it reports. -/
theorem run_draining_only_shrinks (hrun : RunFromEmpty ix build history) :
    (history.Pairwise fun new old => ∀ t p h h' state, old.header t p = some h →
      old.state t p = some state → state.Drains → new.header t p = some h' →
      h'.level = h.level → new.state t p = some state ∧
        (∀ id, new.leafEntry t p id ≠ none → old.leafEntry t p id ≠ none) ∧
        ∀ c, new.childEntry t p c ≠ none → old.childEntry t p c ≠ none) ∧
    ∀ op report S' t p n, CommitStep ix build history op report S' → op.drains = some (t, p) →
      report.moved = some n → ∃ C h h', history.head? = some C ∧ C.header t p = some h ∧
        S'.header t p = some h' ∧ h.entryCount = h'.entryCount + n := by
  constructor
  · refine (hrun.pairwise (coherent_empty ix) (R := Shrinks) ?_ Shrinks.prolong).imp ?_
    · exact fun S t p h h' state _ _ _ _ _ => .refl
    · intro _ _ hshrinks t p h h' state hh hstate hdrains hh' hlevel
      have hshrunk := hshrinks t p h h' state hh hh' hlevel hstate hdrains
      exact ⟨hshrunk.state.trans hstate, hshrunk.leaf, hshrunk.child⟩
  · intro op _ S' t p n hstep hop hreport
    exact hstep.drains (hrun.consistent (coherent_empty ix)) hop hreport

theorem run_draining_only_shrinks_line : lineHistory.length = 10 ∧
    lineHistory.Pairwise fun new old => ∀ t p h h' state, old.header t p = some h →
      old.state t p = some state → state.Drains → new.header t p = some h' →
      h'.level = h.level → new.state t p = some state ∧
        (∀ id, new.leafEntry t p id ≠ none → old.leafEntry t p id ≠ none) ∧
        ∀ c, new.childEntry t p c ≠ none → old.childEntry t p c ≠ none :=
  ⟨lineHistory_length, (run_draining_only_shrinks lineHistory_run).1⟩

/-! ### Partition Keys are allocated once -/

/-- The allocator of a tree only advances. -/
def Allocates (S S' : Store) : Prop :=
  ∀ t m, S.treeManifest t = some m → ∃ m', S'.treeManifest t = some m' ∧
    m.partitionKeyHighWater ≤ m'.partitionKeyHighWater

lemma Effect.allocates (heffect : Effect ix S S') (hS : Coherent ix S) : Allocates S S' := by
  intro t m hm
  have hn : (S.topology t).highWater = some m.partitionKeyHighWater := by
    simp [hm]
  have hle : ∃ n', (S'.topology t).highWater = some n' ∧ m.partitionKeyHighWater ≤ n' := by
    rcases heffect.topology hS with hsame | ⟨t', T, hstep, hupdate⟩
    · exact ⟨_, hsame ▸ hn, le_rfl⟩
    · rw [hupdate]
      by_cases ht : t = t'
      · subst ht
        rw [update_self]
        exact hstep.highWater_le hn
      · rw [update_of_ne ht]
        exact ⟨_, hn, le_rfl⟩
  obtain ⟨_, hn', hle⟩ := hle
  simp only [Store.topology, map_eq_some_iff] at hn'
  obtain ⟨m', hm', rfl⟩ := hn'
  exact ⟨m', hm', hle⟩

def PartitionTransition.Names (c : PartitionKey) : PartitionTransition → Prop
  | splitting targets _ | drainingSplit targets _ => targets.Names c
  | receivingSplit source _ => source = c
  | ready _ | merging _ => False

inductive Store.Mentions (S : Store) (t : TreeKey) : PartitionKey → Prop
  | header {p : PartitionKey} (stored : S.header t p ≠ none) : Mentions S t p
  | state {p : PartitionKey} (stored : S.state t p ≠ none) : Mentions S t p
  | synopsis {p : PartitionKey} (stored : S.synopsis t p ≠ none) : Mentions S t p
  | centroid {p : PartitionKey} (stored : S.centroid t p ≠ none) : Mentions S t p
  | leafEntry {p : PartitionKey} {id : RecordId} (stored : S.leafEntry t p id ≠ none) :
      Mentions S t p
  | parent {p c : PartitionKey} (stored : S.childEntry t p c ≠ none) : Mentions S t p
  | child {p c : PartitionKey} (stored : S.childEntry t p c ≠ none) : Mentions S t c
  | location {p : PartitionKey} {id : RecordId} (stored : S.location id = some ⟨t, p⟩) :
      Mentions S t p
  | named {p c : PartitionKey} {state : PartitionTransition} (stored : S.state t p = some state)
      (names : state.Names c) : Mentions S t c

lemma Effect.centroid_none (heffect : Effect ix S S') (hS : Coherent ix S)
    (hcentroid : ∀ t p, S.header t p = none → S.centroid t p = none) (t : TreeKey)
    (p : PartitionKey) (hp : S'.header t p = none) : S'.centroid t p = none := by
  have hbefore (t : TreeKey) (p : PartitionKey) (hp : (S.topology t).head p = none) :
      (S.topology t).centroid p = none := hcentroid t p (Store.head_eq_none.mp hp)
  have hp' : (S'.topology t).head p = none := Store.head_eq_none.mpr hp
  change (S'.topology t).centroid p = none
  rcases heffect.topology hS with hsame | ⟨t', T, hstep, hupdate⟩
  · rw [hsame] at hp' ⊢
    exact hbefore t p hp'
  · rw [hupdate] at hp' ⊢
    by_cases ht : t = t'
    · subst ht
      rw [update_self] at hp' ⊢
      exact hstep.centroid_none (hS.topology t) (hbefore t) p hp'
    · rw [update_of_ne ht] at hp' ⊢
      exact hbefore t p hp'

lemma Coherent.header_allocated (hS : Coherent ix S) (hp : S.header t p ≠ none) :
    ∃ m, S.treeManifest t = some m ∧ p ≤ m.partitionKeyHighWater := by
  obtain ⟨h, hh⟩ := ne_none_iff_exists'.mp (mt Store.head_eq_none.mp hp)
  obtain ⟨n, hn⟩ := ne_none_iff_exists'.mp ((hS.topology t).allocated hh).1
  have hle := (hS.topology t).allocated_le hh hn
  simp only [Store.topology, map_eq_some_iff] at hn
  obtain ⟨m, hm, rfl⟩ := hn
  exact ⟨m, hm, hle⟩

lemma Coherent.mentions_allocated (hS : Coherent ix S)
    (hcentroid : ∀ t p, S.header t p = none → S.centroid t p = none) (hp : S.Mentions t p) :
    ∃ m, S.treeManifest t = some m ∧ p ≤ m.partitionKeyHighWater := by
  have hstate {q : PartitionKey} (hq : S.state t q ≠ none) : S.header t q ≠ none := by
    intro hnone
    have hagree := (hS.treeShape t).agree q
    rw [hnone] at hagree
    simp at hagree
    exact hq hagree
  have hentry {q : PartitionKey} {id : RecordId} (hq : S.leafEntry t q id ≠ none) :
      S.header t q ≠ none := by
    intro hnone
    have hzero := ((hS.bodies t q).absent hnone).1
    exact hq ((entryCount_eq_zero.mp hzero).1 id)
  cases hp with
  | header stored => exact hS.header_allocated stored
  | state stored => exact hS.header_allocated (hstate stored)
  | synopsis stored =>
    exact hS.header_allocated fun hnone => stored ((hS.bodies t p).absent hnone).2
  | centroid stored => exact hS.header_allocated fun hnone => stored (hcentroid t p hnone)
  | leafEntry stored => exact hS.header_allocated (hentry stored)
  | parent stored => exact hS.header_allocated ((hS.treeShape t).entry _ _ stored).1
  | child stored => exact hS.header_allocated ((hS.treeShape t).entry _ _ stored).2
  | location stored => exact hS.header_allocated (hentry (hS.membership.stored stored))
  | @named q _ state stored names =>
    cases state with
    | splitting targets n =>
      -- Reserved targets are allocated before they exist.
      obtain ⟨m, hm, -⟩ := hS.header_allocated (hstate (by rw [stored]; simp))
      have hphase : (S.topology t).phase q = some (.splitting targets) := by
        simp [stored, PartitionTransition.phase]
      exact ⟨m, hm, (hS.topology t).splitting_le hphase names (by simp [hm])⟩
    | drainingSplit targets n =>
      obtain ⟨k, hk⟩ := ((hS.treeShape t).receiving p q).mpr ⟨targets, n, stored, names⟩
      exact hS.header_allocated (hstate (by rw [hk]; simp))
    | receivingSplit _ n =>
      cases names
      obtain ⟨_, k, hk, -⟩ := ((hS.treeShape t).receiving q p).mp ⟨n, stored⟩
      exact hS.header_allocated (hstate (by rw [hk]; simp))
    | ready | merging => cases names

lemma CommitStep.reserves {n : ℕ} {targets : SplitPair}
    (hstep : CommitStep ix build history (.beginSplit t p n) (.splitStart (.started targets)) S') :
    ∃ C m, history.head? = some C ∧ C.treeManifest t = some m ∧
      targets.left = m.partitionKeyHighWater + 1 ∧ targets.right = m.partitionKeyHighWater + 2 ∧
      S'.state t p = some (.splitting targets n) := by
  cases hstep with
  | beginSplit hcommits =>
    obtain ⟨_, -, C, s, hC, hrun, rfl⟩ := hcommits.runs
    rcases runs_beginSplit hrun with ⟨-, hne⟩ |
      ⟨targets', h, m, m', began, hstarted, -, -, -, hm, hleft, hright, -, hstore⟩
    · exact absurd rfl (hne targets)
    · cases hstarted
      refine ⟨C, m, hC, hm, hleft, hright, ?_⟩
      rw [hstore]
      simp [restate]

/-- **Partition Keys are never used twice.**  The allocator of a tree only advances,
every key the tree mentions is below it, a committed split reserves keys that no
earlier store mentions, and a tree without two free keys starts no split. -/
theorem run_keys_never_reused (hrun : RunFromEmpty ix build history) :
    (history.Pairwise fun new old => ∀ t m, old.treeManifest t = some m →
      ∃ m', new.treeManifest t = some m' ∧ m.partitionKeyHighWater ≤ m'.partitionKeyHighWater) ∧
    (∀ S ∈ history, ∀ t p, S.Mentions t p →
      ∃ m, S.treeManifest t = some m ∧ p ≤ m.partitionKeyHighWater) ∧
    (∀ t p n targets S', CommitStep ix build history (.beginSplit t p n)
      (.splitStart (.started targets)) S' → S'.state t p = some (.splitting targets n) ∧
        ∀ c, targets.Names c → ∀ S ∈ history, ¬ S.Mentions t c) ∧
    (∀ t p q n n' targets targets' older S₁ S₂, S₁ :: older <:+ history →
      CommitStep ix build older (.beginSplit t p n) (.splitStart (.started targets)) S₁ →
      CommitStep ix build history (.beginSplit t q n') (.splitStart (.started targets')) S₂ →
      ∀ c, targets.Names c → ¬ targets'.Names c) ∧
    ∀ S ∈ history, ∀ t p n h began m, S.header t p = some h →
      S.state t p = some (.ready began) → ix.maxEntries h.level < h.entryCount →
      S.treeManifest t = some m → u64Bound ≤ m.partitionKeyHighWater + 2 →
      (beginSplit ix t p n).run (Txn.start S) = .error (.new .idExhausted) := by
  have hh := hrun.consistent (coherent_empty ix)
  have hallocates : history.Pairwise fun new old => Allocates old new := by
    refine hrun.pairwise (coherent_empty ix) (R := Allocates) ?_ ?_
    · exact fun S t m hm => ⟨m, hm, le_rfl⟩
    · intro S S' _ _ hS' _ hR heffect t m hm
      obtain ⟨m', hm', hle⟩ := hR t m hm
      obtain ⟨m'', hm'', hle'⟩ := heffect.allocates hS' t m' hm'
      exact ⟨m'', hm'', hle.trans hle'⟩
  have hmentions : ∀ S ∈ history, ∀ t p, S.Mentions t p →
      ∃ m, S.treeManifest t = some m ∧ p ≤ m.partitionKeyHighWater := by
    have hcentroid := hrun.invariant (coherent_empty ix)
      (P := fun S => ∀ t p, S.header t p = none → S.centroid t p = none) (fun _ _ _ => rfl)
      fun hS hP heffect => heffect.centroid_none hS hP
    exact fun S hS t p => (hh.coherent S hS).mentions_allocated (hcentroid S hS)
  have hreserved : ∀ t p n targets S', CommitStep ix build history (.beginSplit t p n)
      (.splitStart (.started targets)) S' → S'.state t p = some (.splitting targets n) ∧
        ∀ c, targets.Names c → ∀ S ∈ history, ¬ S.Mentions t c := by
    intro t p n targets S' hstep
    obtain ⟨C, m, hC, hm, hleft, hright, hstate⟩ := hstep.reserves
    refine ⟨hstate, fun c hc S hS hmention => ?_⟩
    obtain ⟨k, hk, hle⟩ := hmentions S hS t c hmention
    have hkm : k.partitionKeyHighWater ≤ m.partitionKeyHighWater := by
      cases history with
      | nil => cases hC
      | cons _ _ =>
        cases hC
        rcases mem_cons.mp hS with rfl | hold
        · cases hk.symm.trans hm
          exact le_rfl
        · obtain ⟨_, hm', hle'⟩ := (pairwise_cons.mp hallocates).1 S hold t k hk
          cases hm'.symm.trans hm
          exact hle'
    rcases hc with rfl | rfl <;> grind
  refine ⟨hallocates, hmentions, hreserved, ?_, ?_⟩
  · intro t p q n n' _ targets' _ S₁ S₂ hsuffix hfirst hsecond c hc hc'
    obtain ⟨C, m, hC, hm, hleft, hright, hstate⟩ := hfirst.reserves
    exact (hreserved t q n' targets' S₂ hsecond).2 c hc' S₁
      (hsuffix.subset mem_cons_self) (.named hstate hc)
  · intro S hS t p n h _ m header state full manifest exhausted
    refine beginSplit_exhausted header state ?_ full manifest exhausted
    have hagree := ((hh.coherent S hS).treeShape t).agree p
    rw [header, state] at hagree
    simpa using hagree

theorem run_keys_never_reused_line : lineHistory.length = 10 ∧
    ∀ S ∈ lineHistory, ∀ t p, S.Mentions t p →
      ∃ m, S.treeManifest t = some m ∧ p ≤ m.partitionKeyHighWater :=
  ⟨lineHistory_length, (run_keys_never_reused lineHistory_run).2.1⟩

/-! ### Lifecycles -/

/-- **A partition lives once.**  Between any two committed stores that have it, it keeps its
level, or is the root and rises.  While it keeps it, it receives a split before it is Ready,
splits into the targets it has reserved, and takes neither a drain nor a merge back. -/
theorem run_partitions_age (hrun : RunFromEmpty ix build history) :
    history.Pairwise fun new old => ∀ t, (old.topology t).Ages (new.topology t) := by
  refine hrun.pairwise (coherent_empty ix)
    (R := fun S S' => ∀ t, (S.topology t).Ages (S'.topology t)) (fun S t => .refl _) ?_
  intro S S' _ _ hS' hev hages heffect t
  have hev' := (Effects.coherent_evolves (.single heffect) hS').2
  refine (hages t).trans ?_ (hS'.topology t) (hev.topology t) (hev'.topology t)
  rcases heffect.topology hS' with hsame | ⟨t', T, hstep, hupdate⟩
  · exact hsame ▸ .refl _
  · rw [hupdate]
    by_cases ht : t = t'
    · subst ht
      rw [update_self]
      exact hstep.ages (hS'.topology t)
    · rw [update_of_ne ht]
      exact .refl _

theorem run_partitions_age_line : lineHistory.length = 10 ∧
    lineHistory.Pairwise fun new old => ∀ t, (old.topology t).Ages (new.topology t) :=
  ⟨lineHistory_length, run_partitions_age lineHistory_run⟩

end

export Store (head_eq_none)
