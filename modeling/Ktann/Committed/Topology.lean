/-
The topology a store holds.

Each tree of a store is read as an abstract topology: the allocator, the Headers
without their counts, the States without their start times, the Centroids and the
Child Entries.  Entry changes of leaves leave it alone; every other unit of change
is one update of it, or two.
-/
import Ktann.Abstract.Evolution
import Ktann.Committed.Bodies

open Topology (setPhase setCentroid)

/-- A State without its start time. -/
def PartitionTransition.phase : PartitionTransition → Phase
  | ready _ => .ready
  | splitting targets _ => .splitting targets
  | receivingSplit source _ => .receiving source
  | drainingSplit targets _ => .draining targets
  | merging _ => .merging

lemma PartitionTransition.phase_state (state : PartitionTransition) :
    state.phase.state = state.state := by
  cases state <;> rfl

/-- A Header without its counters. -/
def PartitionHeader.head (h : PartitionHeader) : Head := ⟨h.level, h.state⟩

lemma PartitionHeader.Adjusted.head {h h' : PartitionHeader} (hadj : h.Adjusted h') :
    h'.head = h.head := by
  rw [PartitionHeader.head, hadj.level, hadj.state, PartitionHeader.head]

namespace Store

def topology (S : Store) (t : TreeKey) : Topology VectorData where
  highWater := (S.treeManifest t).map TreeManifest.partitionKeyHighWater
  head p := (S.header t p).map PartitionHeader.head
  phase p := (S.state t p).map PartitionTransition.phase
  centroid p := S.centroid t p
  edge p c := (S.childEntry t p c).map ChildEntry.centroid

structure SameTopology (S S' : Store) (t : TreeKey) : Prop where
  treeManifest : S'.treeManifest t = S.treeManifest t
  head : ∀ p, (S'.header t p).map PartitionHeader.head = (S.header t p).map PartitionHeader.head
  state : ∀ p, S'.state t p = S.state t p
  centroid : ∀ p, S'.centroid t p = S.centroid t p
  childEntry : ∀ p c, S'.childEntry t p c = S.childEntry t p c

lemma SameTopology.eq {S S' : Store} {t : TreeKey} (h : SameTopology S S' t) :
    S'.topology t = S.topology t := by
  simp only [topology, h.treeManifest, h.head, h.state, h.centroid, h.childEntry]

variable {S : Store} {t : TreeKey} {p : PartitionKey} {h h' : PartitionHeader}

/-! ### Entry changes of a leaf -/

lemma topology_putLeaf {e : LeafEntry} {y : PartitionSynopsis} (header : S.header t p = some h)
    (head : h'.head = h.head) : (S.putLeaf t p e h' y).topology = S.topology := by
  funext t'
  refine SameTopology.eq ⟨?_, fun q => ?_, fun q => ?_, fun q => ?_, fun q c => ?_⟩
  all_goals simp [putLeaf]
  split_ifs with hq
  · obtain ⟨rfl, rfl⟩ := hq
    simp [header, head]
  · rfl

lemma topology_eraseLeaf {id : RecordId} (header : S.header t p = some h)
    (head : h'.head = h.head) : (S.eraseLeaf t p id h').topology = S.topology := by
  funext t'
  refine SameTopology.eq ⟨?_, fun q => ?_, fun q => ?_, fun q => ?_, fun q c => ?_⟩
  all_goals simp [eraseLeaf]
  split_ifs with hq
  · obtain ⟨rfl, rfl⟩ := hq
    simp [header, head]
  · rfl

/-! ### Changes of the topology -/

lemma topology_update {S' : Store} {T : Topology VectorData}
    (hother : ∀ t', t' ≠ t → SameTopology S S' t') (hself : S'.topology t = T) :
    S'.topology = update S.topology t T := by
  funext t'
  by_cases ht : t' = t
  · subst ht
    rw [update_self, hself]
  · rw [update_of_ne ht, (hother t' ht).eq]

section

attribute [local simp] topology Topology.link Topology.place Topology.allocate Topology.remove
  setPhase setCentroid putChild eraseChild restate createTree allocate createTarget promoteRoot
  putCentroid removePartition

lemma topology_putChild {e : ChildEntry} (header : S.header t p = some h)
    (head : h'.head = h.head) : (S.putChild t p e h').topology =
      update S.topology t ((S.topology t).link p e.child (some e.centroid)) := by
  refine topology_update (fun t' ht => ?_) (Topology.ext ?_ ?_ ?_ ?_ ?_)
  · constructor <;> simp [ht]
  · simp
  · funext q
    by_cases hq : q = p
    · simp [hq, header, head]
    · simp [hq]
  · funext q
    simp
  · funext q
    simp
  · funext q c
    by_cases hq : q = p ∧ c = e.child
    all_goals simp [hq]

lemma topology_eraseChild {c : PartitionKey} (header : S.header t p = some h)
    (head : h'.head = h.head) : (S.eraseChild t p c h').topology =
      update S.topology t ((S.topology t).link p c none) := by
  refine topology_update (fun t' ht => ?_) (Topology.ext ?_ ?_ ?_ ?_ ?_)
  · constructor <;> simp [ht]
  · simp
  · funext q
    by_cases hq : q = p
    · simp [hq, header, head]
    · simp [hq]
  · funext q
    simp
  · funext q
    simp
  · funext q d
    by_cases hq : q = p ∧ d = c
    all_goals simp [hq]

lemma topology_restate {state : PartitionTransition} : (S.restate t p h state).topology =
    update S.topology t ((S.topology t).setPhase p h.level state.phase) := by
  refine topology_update (fun t' ht => ?_) (Topology.ext ?_ ?_ ?_ ?_ ?_)
  · constructor <;> simp [ht]
  · simp
  · funext q
    by_cases hq : q = p
    · simp [hq, PartitionHeader.head, state.phase_state]
    · simp [hq]
  · funext q
    by_cases hq : q = p
    all_goals simp [hq]
  · funext q
    simp
  · funext q c
    simp

lemma topology_allocate {m : TreeManifest} : (S.allocate t m).topology =
    update S.topology t ((S.topology t).allocate m.partitionKeyHighWater) := by
  refine topology_update (fun t' ht => ?_) (Topology.ext ?_ ?_ ?_ ?_ ?_)
  · constructor <;> simp [ht]
  · simp
  · funext q
    simp
  · funext q
    simp
  · funext q
    simp
  · funext q c
    simp

lemma topology_putCentroid {v : VectorData} : (S.putCentroid t p v).topology =
    update S.topology t ((S.topology t).setCentroid p v) := by
  refine topology_update (fun t' ht => ?_) (Topology.ext ?_ ?_ ?_ ?_ ?_)
  · constructor <;> simp [ht]
  · simp
  · funext q
    simp
  · funext q
    simp
  · funext q
    by_cases hq : q = p <;> simp [hq]
  · funext q c
    simp

lemma topology_createTarget {ix : Index} {source : PartitionKey} {v : VectorData} {n : ℕ} :
    (S.createTarget ix t source h p v n).topology =
      update S.topology t ((S.topology t).place p h.level source v) := by
  by_cases hl : h.level = 1
  all_goals
    refine topology_update (fun t' ht => ?_) (Topology.ext ?_ ?_ ?_ ?_ ?_)
    · constructor <;> simp [hl, ht]
    · simp [hl]
    · funext q
      by_cases hq : q = p <;> simp [hl, hq, PartitionHeader.head, Phase.state]
    · funext q
      by_cases hq : q = p <;> simp [hl, hq, PartitionTransition.phase]
    · funext q
      by_cases hq : q = p <;> simp [hl, hq]
    · funext q c
      simp [hl]

lemma topology_createTree {ix : Index} {n : ℕ} : (S.createTree ix t n).topology =
    update S.topology t
      (((S.topology t).allocate rootPartition).setPhase rootPartition 1 .ready) := by
  refine topology_update (fun t' ht => ?_) (Topology.ext ?_ ?_ ?_ ?_ ?_)
  · constructor <;> simp [ht]
  · simp [TreeManifest.initial]
  · funext q
    by_cases hq : q = rootPartition <;> simp [hq, PartitionHeader.head, Phase.state]
  · funext q
    by_cases hq : q = rootPartition <;> simp [hq, PartitionTransition.phase]
  · funext q
    simp
  · funext q c
    simp

lemma topology_promoteRoot {left right : ChildEntry} {n : ℕ} (level : h'.level = h.level + 1)
    (state : h'.state = .ready) : (S.promoteRoot t left right h' n).topology =
      update S.topology t ((((S.topology t).link rootPartition left.child
        (some left.centroid)).link rootPartition right.child (some right.centroid)).setPhase
          rootPartition (h.level + 1) .ready) := by
  refine topology_update (fun t' ht => ?_) (Topology.ext ?_ ?_ ?_ ?_ ?_)
  · constructor <;> simp [ht]
  · simp
  · funext q
    by_cases hq : q = rootPartition <;> simp [hq, PartitionHeader.head, Phase.state, level, state]
  · funext q
    by_cases hq : q = rootPartition <;> simp [hq, PartitionTransition.phase]
  · funext q
    simp
  · funext q c
    simp [apply_ite (Option.map ChildEntry.centroid)]

lemma topology_removePartition : (S.removePartition t p).topology =
    update S.topology t ((S.topology t).remove p) := by
  refine topology_update (fun t' ht => ?_) (Topology.ext ?_ ?_ ?_ ?_ ?_)
  · constructor <;> simp [ht]
  · simp
  · funext q
    by_cases hq : q = p <;> simp [hq]
  · funext q
    by_cases hq : q = p <;> simp [hq]
  · funext q
    by_cases hq : q = p <;> simp [hq]
  · funext q c
    simp

end

/-! ### Phases and States -/

lemma phase_draining {targets : SplitPair} : (S.topology t).phase p = some (.draining targets) ↔
      ∃ n, S.state t p = some (.drainingSplit targets n) := by
  simp only [Store.topology, map_eq_some_iff]
  constructor
  · rintro ⟨state, hstate, hphase⟩
    cases state <;> cases hphase
    exact ⟨_, hstate⟩
  · rintro ⟨n, hstate⟩
    exact ⟨_, hstate, rfl⟩

lemma phase_receiving {s : PartitionKey} : (S.topology t).phase p = some (.receiving s) ↔
      ∃ n, S.state t p = some (.receivingSplit s n) := by
  simp only [Store.topology, map_eq_some_iff]
  constructor
  · rintro ⟨state, hstate, hphase⟩
    cases state <;> cases hphase
    exact ⟨_, hstate⟩
  · rintro ⟨n, hstate⟩
    exact ⟨_, hstate, rfl⟩

end Store

export Store (topology phase_receiving phase_draining)
