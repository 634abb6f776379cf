/-
Effects on the topology.

* `Coherent.authority` and its neighbours — what the stored authority says about the
  abstract topology;
* `Effect.topology` — an effect leaves every topology alone or is one step of one
  tree.
-/
import Ktann.Committed.Effect

open Store (topology_putLeaf topology_restate topology_putChild)
open Function (update_idem)

attribute [local simp] Store.topology

section

variable {ix : Index} {S S' : Store} {t : TreeKey} {p : PartitionKey} {h : PartitionHeader}

namespace Store

lemma topology_putRecord {record : VectorRecord} {payload : Option Bytes}
    {location : RecordLocation} : (S.putRecord record payload location).topology = S.topology := by
  funext t
  refine SameTopology.eq ?_
  cases payload <;> constructor <;> simp [putRecord]

lemma topology_eraseRecord {id : RecordId} : (S.eraseRecord id).topology = S.topology := by
  funext t
  refine SameTopology.eq ?_
  constructor <;> simp [eraseRecord]

lemma topology_put_location {id : RecordId} {location : RecordLocation} :
    topology (S.put (.location id) location) = S.topology := by
  funext t
  refine SameTopology.eq ?_
  constructor <;> simp

end Store

lemma Coherent.authority (hS : Coherent ix S) {state : PartitionTransition}
    (header : S.header t p = some h) (hstate : S.state t p = some state) :
    (S.topology t).head p = some ⟨h.level, state.phase.state⟩ ∧
      (S.topology t).phase p = some state.phase := by
  have hhead : (S.topology t).head p = some h.head := by simp [header]
  have hphase : (S.topology t).phase p = some state.phase := by simp [hstate]
  have hagree := (hS.topology t).agree hhead hphase
  refine ⟨?_, hphase⟩
  rw [hhead, ← hagree]
  rfl

lemma Store.edge_of_childEntry {q : PartitionKey} (hedge : S.childEntry t q p ≠ none) :
    ∃ v, (S.topology t).edge q p = some v := by
  obtain ⟨e, he⟩ := ne_none_iff_exists'.mp hedge
  exact ⟨e.centroid, by simp [he]⟩

lemma Coherent.drained (hS : Coherent ix S) (header : S.header t p = some h)
    (hcount : h.entryCount = 0) (c : PartitionKey) : (S.topology t).edge p c = none := by
  have hzero : S.entryCount t p = 0 := ((hS.bodies t p).count header).symm.trans hcount
  simp [(entryCount_eq_zero.mp hzero).2 c]

variable {targets : SplitPair} {n : ℕ}

lemma Coherent.targets_absent (hS : Coherent ix S)
    (state : S.state t p = some (.splitting targets n)) :
    S.header t targets.left = none ∧ S.header t targets.right = none := by
  have hphase : (S.topology t).phase p = some (.splitting targets) := by
    simp [state, PartitionTransition.phase]
  have hl := (hS.topology t).splitting hphase targets.names_left
  have hr := (hS.topology t).splitting hphase targets.names_right
  exact ⟨by simpa using hl.1, by simpa using hr.1⟩

section

variable (hS : Coherent ix S) (header : S.header t p = some h)

include hS header

lemma Coherent.targets_level {left right : PartitionHeader}
    (state : S.state t p = some (.drainingSplit targets n))
    (leftHeader : S.header t targets.left = some left)
    (rightHeader : S.header t targets.right = some right) :
    left.level = h.level ∧ right.level = h.level := by
  obtain ⟨hhead, hphase⟩ := hS.authority header state
  have hl := (hS.topology t).target_head hhead hphase targets.names_left
  have hr := (hS.topology t).target_head hhead hphase targets.names_right
  simp only [Store.topology, leftHeader, rightHeader, map_some, PartitionHeader.head,
    Option.some.injEq, Head.mk.injEq] at hl hr
  exact ⟨hl.1, hr.1⟩

lemma Coherent.parent_ne_target {parent : PartitionKey}
    (state : S.state t p = some (.drainingSplit targets n))
    (edge : S.childEntry t parent p ≠ none) : parent ≠ targets.left ∧ parent ≠ targets.right := by
  obtain ⟨hhead, hphase⟩ := hS.authority header state
  obtain ⟨v, hv⟩ := Store.edge_of_childEntry edge
  have hne : ∀ c, targets.Names c → parent ≠ c := by
    rintro c hc rfl
    have hlevel := (hS.topology t).edge_level hv ((hS.topology t).target_head hhead hphase hc) hhead
    simp at hlevel
  exact ⟨hne _ targets.names_left, hne _ targets.names_right⟩

lemma Coherent.phase_of_ready (ready : h.state = .ready) :
    (S.topology t).phase p = some .ready := by
  have hhead : (S.topology t).head p = some h.head := by simp [header]
  have hsome : (S.topology t).phase p ≠ none := by
    rw [Ne, (hS.topology t).phase_none p, hhead]
    simp
  obtain ⟨phase, hphase⟩ := ne_none_iff_exists'.mp hsome
  have hagree : PartitionState.ready = phase.state := ready ▸ (hS.topology t).agree hhead hphase
  rw [hphase]
  cases phase <;> first | rfl | cases hagree

end

/-- **An effect leaves every topology alone or is one step of one tree.** -/
theorem Effect.topology (heffect : Effect ix S S') (hS : Coherent ix S) : S'.topology = S.topology ∨
      ∃ t T, (S.topology t).Step T ∧ S'.topology = update S.topology t T := by
  cases heffect with
  | @createTree t startedAt absent =>
    refine .inr ⟨t, _, .create ?_, Store.topology_createTree⟩
    simp [absent]
  | insert id fields _ header leaf accepts added synopsis expanded =>
    left
    rw [Store.topology_putRecord, topology_putLeaf header (addedEntry_ok added).1.head]
  | replace id fields location header leaf accepts touched synopsis expanded =>
    left
    rw [Store.topology_putRecord, topology_putLeaf header (touchedEntry_ok touched).1.head]
  | @replaceAcross record payload source target e k k' h h' y y' changed id fields location ne
      sourceHeader removed header leaf accepts added synopsis expanded =>
    left
    have hheader : (S.eraseLeaf source.treeKey source.leaf e.recordId k').header target.treeKey
        target.leaf = some h := by
      have hne : ¬(target.treeKey = source.treeKey ∧ target.leaf = source.leaf) := by
        rintro ⟨ht, hp⟩
        exact ne (by cases source; cases target; simp_all)
      simpa [eraseLeaf, hne] using header
    rw [Store.topology_putRecord, topology_putLeaf hheader (addedEntry_ok added).1.head,
      Store.topology_eraseLeaf sourceHeader (removedEntry_ok removed).1.head]
  | delete _ header removed =>
    left
    rw [Store.topology_eraseRecord,
      Store.topology_eraseLeaf header (removedEntry_ok removed).1.head]
  | @moveLeaf t source target e movement k k' h h' y y' changed entry ne sourceHeader sourceState
      removed header leaf targetState added synopsis expanded =>
    left
    have hheader : (S.eraseLeaf t source e.recordId k').header t target = some h := by
      simpa [eraseLeaf, ne.symm] using header
    rw [Store.topology_put_location, topology_putLeaf hheader (addedEntry_ok added).1.head,
      Store.topology_eraseLeaf sourceHeader (removedEntry_ok removed).1.head]
  | @beginSplit t p h m _ targets began startedAt header state _ manifest left right reserved =>
    obtain ⟨hhead, hphase⟩ := hS.authority header state
    refine .inr ⟨t, _, .beginSplit (n := m.partitionKeyHighWater) ?_ hhead hphase left right, ?_⟩
    · simp [manifest]
    · rw [topology_restate, Store.topology_allocate, update_idem, update_self, reserved]
      rfl
  | @exposeRoot t h targets a b began startedAt header state =>
    obtain ⟨hhead, hphase⟩ := hS.authority header state
    refine .inr ⟨t, _, .exposeRoot (a := a) (b := b) hhead hphase, ?_⟩
    rw [topology_restate, Store.topology_createTarget, Store.topology_createTarget,
      update_idem, update_idem, update_self, update_self]
    rfl
  | @exposeChild t p parent h k k' k'' targets a b began startedAt notRoot header state edge
      parentHeader level accepts once twice =>
    obtain ⟨hhead, hphase⟩ := hS.authority header state
    obtain ⟨v, hv⟩ := Store.edge_of_childEntry edge
    have hparent : (S.topology t).head parent = some ⟨h.level + 1, k.state⟩ := by
      simp [parentHeader, PartitionHeader.head, level]
    obtain ⟨hl, hr⟩ := hS.targets_absent state
    have hk : ((S.createTarget ix t p h targets.left a startedAt).createTarget ix t p h
        targets.right b startedAt).header t parent = some k := by
      rw [header_createTarget, header_createTarget, if_neg, if_neg, parentHeader]
      · rintro ⟨-, rfl⟩
        cases hl.symm.trans parentHeader
      · rintro ⟨-, rfl⟩
        cases hr.symm.trans parentHeader
    refine .inr ⟨t, _, .exposeChild (a := a) (b := b) notRoot hhead hphase hv hparent, ?_⟩
    rw [topology_restate, topology_putChild (h := k') (by simp [putChild])
      (addedEntry_ok twice).1.head, topology_putChild hk
      (addedEntry_ok once).1.head, Store.topology_createTarget,
      Store.topology_createTarget]
    simp only [update_idem, update_self]
    rfl
  | @moveChild t source target e movement h h' k k' entry ne header sourceState removed
      targetHeader targetState family level added fits =>
    have hedge : (S.topology t).edge source e.child = some e.centroid := by
      simp [entry]
    have hhead : (S.topology t).head source = some ⟨h.level, h.state⟩ := by
      simp [header, PartitionHeader.head]
    have htarget : (S.topology t).head target = some ⟨h.level, k.state⟩ := by
      simp [targetHeader, PartitionHeader.head, level]
    refine .inr ⟨t, _, .moveEdge ne hedge hhead htarget, ?_⟩
    rw [Store.topology_eraseChild (h := h) (by simpa [putChild, ne] using header)
      (removedEntry_ok removed).1.head, topology_putChild targetHeader
      (addedEntry_ok added).1.head, update_idem, update_self]
  | @finishRoot t h h' left right targets a b began startedAt header state drained leftHeader
      rightHeader leftCentroid rightCentroid level ready count epoch =>
    obtain ⟨hhead, hphase⟩ := hS.authority header state
    obtain ⟨hl, hr⟩ := hS.targets_level header state leftHeader rightHeader
    refine .inr ⟨t, _, .finishRoot (a := a) (b := b) hhead hphase (hS.drained header drained)
      leftCentroid rightCentroid, ?_⟩
    rw [Store.topology_promoteRoot level ready, topology_restate, topology_restate, hl, hr]
    simp only [update_idem, update_self]
    rfl
  | @finishChild t p parent h k k' left right targets began startedAt notRoot header state drained
      leftHeader rightHeader edge parentHeader removed =>
    obtain ⟨hhead, hphase⟩ := hS.authority header state
    obtain ⟨hl, hr⟩ := hS.targets_level header state leftHeader rightHeader
    obtain ⟨v, hv⟩ := Store.edge_of_childEntry edge
    have hparent := hS.parent_ne_target header state edge
    refine .inr ⟨t, _, .finishChild notRoot hhead hphase (hS.drained header drained) hv, ?_⟩
    rw [Store.topology_removePartition, Store.topology_eraseChild (h := k)
      (by simpa [restate, hparent] using parentHeader)
      (removedEntry_ok removed).1.head, topology_restate,
      topology_restate, hl, hr]
    simp only [update_idem, update_self]
    rfl
  | @beginMerge t p parent h _ _ notRoot header state _ edge =>
    obtain ⟨hhead, hphase⟩ := hS.authority header state
    obtain ⟨v, hv⟩ := Store.edge_of_childEntry edge
    exact .inr ⟨t, _, .beginMerge notRoot hhead hphase hv, topology_restate⟩
  | @finishMerge t p _ h k k' _ notRoot header state drained edge parentHeader removed =>
    obtain ⟨-, hphase⟩ := hS.authority header state
    obtain ⟨v, hv⟩ := Store.edge_of_childEntry edge
    refine .inr ⟨t, _, .finishMerge notRoot hphase (hS.drained header drained) hv, ?_⟩
    rw [Store.topology_removePartition, Store.topology_eraseChild parentHeader
      (removedEntry_ok removed).1.head, update_idem, update_self]
  | @recenter t p _ h k _ v notRoot header ready edge parentHeader _ touched =>
    obtain ⟨w, hw⟩ := Store.edge_of_childEntry edge
    refine .inr ⟨t, _, .recenter (w := v) notRoot (hS.phase_of_ready header ready) hw, ?_⟩
    rw [topology_putChild (h := k) (by simpa [putCentroid] using parentHeader)
      (touchedEntry_ok touched).1.head, Store.topology_putCentroid,
      update_idem, update_self]
  | graph same _ =>
    left
    funext t
    refine Store.SameTopology.eq ⟨same _ rfl, fun p => ?_, fun p => same _ rfl,
      fun p => same _ rfl, fun p c => same _ rfl⟩
    rw [show S'.header t p = S.header t p from same _ rfl]

end

export Store (edge_of_childEntry)
