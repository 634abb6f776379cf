/-
The topology of one tree, as an abstract transition system.

A tree is a set of partitions with levels, phases and centroids, joined by edges
that carry the child's centroid.  Splits and merges move it from one committed
topology to the next, one step at a time; nothing here mentions keys, counts or
transactions.

* `Topology.Step` — one committed topology step;
* `Topology.WellFormed`, `Step.wellFormed` — the shape every step preserves.
-/
import Ktann.Storage.Values

/-- The phase of a partition: its durable state without the start time. -/
inductive Phase
  | ready
  | splitting (targets : SplitPair)
  | receiving (source : PartitionKey)
  | draining (targets : SplitPair)
  | merging
  deriving DecidableEq

/-- The discriminator a Header repeats. -/
@[grind] def Phase.state : Phase → PartitionState
  | ready => .ready
  | splitting _ => .splitting
  | receiving _ => .receivingSplit
  | draining _ => .drainingSplit
  | merging => .merging

/-- What a Header says about the topology. -/
structure Head where
  level : ℕ
  state : PartitionState
  deriving DecidableEq

/-- One tree: the greatest allocated key, if the tree exists, and what is stored
for each partition and each pair of them. -/
@[ext] structure Topology (V : Type) where
  highWater : Option ℕ
  head : PartitionKey → Option Head
  phase : PartitionKey → Option Phase
  centroid : PartitionKey → Option V
  edge : PartitionKey → PartitionKey → Option V

namespace Topology

variable {V : Type}

/-! ### Steps -/

def setPhase (T : Topology V) (p : PartitionKey) (level : ℕ) (phase : Phase) : Topology V :=
  { T with
    head := fun q => if q = p then some ⟨level, phase.state⟩ else T.head q
    phase := fun q => if q = p then some phase else T.phase q }

def setCentroid (T : Topology V) (p : PartitionKey) (v : V) : Topology V :=
  { T with centroid := fun q => if q = p then some v else T.centroid q }

/-- Sets or clears one edge. -/
def link (T : Topology V) (p c : PartitionKey) (v : Option V) : Topology V :=
  { T with edge := fun q d => if q = p ∧ d = c then v else T.edge q d }

def remove (T : Topology V) (p : PartitionKey) : Topology V :=
  { T with
    head := fun q => if q = p then none else T.head q
    phase := fun q => if q = p then none else T.phase q
    centroid := fun q => if q = p then none else T.centroid q }

/-- Moves the greatest allocated key. -/
def allocate (T : Topology V) (highWater : ℕ) : Topology V := { T with highWater := some highWater }

/-- Creates one target of a split. -/
def place (T : Topology V) (p : PartitionKey) (level : ℕ) (source : PartitionKey) (v : V) :
    Topology V :=
  (T.setPhase p level (.receiving source)).setCentroid p v

inductive Step (T : Topology V) : Topology V → Prop
  | create (absent : T.highWater = none) :
      Step T ((T.allocate rootPartition).setPhase rootPartition 1 .ready)
  | beginSplit {p level n : ℕ} {targets : SplitPair} (allocated : T.highWater = some n)
      (head : T.head p = some ⟨level, .ready⟩) (phase : T.phase p = some .ready)
      (left : targets.left = n + 1) (right : targets.right = n + 2) :
      Step T ((T.allocate (n + 2)).setPhase p level (.splitting targets))
  | exposeRoot {level : ℕ} {targets : SplitPair} {a b : V}
      (head : T.head rootPartition = some ⟨level, .splitting⟩)
      (phase : T.phase rootPartition = some (.splitting targets)) :
      Step T (((T.place targets.left level rootPartition a).place targets.right level
        rootPartition b).setPhase rootPartition level (.draining targets))
  | exposeChild {p parent level : ℕ} {state : PartitionState} {targets : SplitPair} {a b v : V}
      (notRoot : p ≠ rootPartition) (head : T.head p = some ⟨level, .splitting⟩)
      (phase : T.phase p = some (.splitting targets)) (edge : T.edge parent p = some v)
      (parentHead : T.head parent = some ⟨level + 1, state⟩) :
      Step T (((((T.place targets.left level p a).place targets.right level p b).link parent
        targets.left (some a)).link parent targets.right (some b)).setPhase p level
          (.draining targets))
  | moveEdge {source target child level : ℕ} {state state' : PartitionState} {v : V}
      (ne : source ≠ target) (edge : T.edge source child = some v)
      (head : T.head source = some ⟨level, state⟩)
      (targetHead : T.head target = some ⟨level, state'⟩) :
      Step T ((T.link target child (some v)).link source child none)
  | finishRoot {level : ℕ} {targets : SplitPair} {a b : V}
      (head : T.head rootPartition = some ⟨level, .drainingSplit⟩)
      (phase : T.phase rootPartition = some (.draining targets))
      (drained : ∀ c, T.edge rootPartition c = none)
      (left : T.centroid targets.left = some a) (right : T.centroid targets.right = some b) :
      Step T (((((T.setPhase targets.left level .ready).setPhase targets.right level .ready).link
        rootPartition targets.left (some a)).link rootPartition targets.right (some b)).setPhase
          rootPartition (level + 1) .ready)
  | finishChild {p parent level : ℕ} {targets : SplitPair} {v : V} (notRoot : p ≠ rootPartition)
      (head : T.head p = some ⟨level, .drainingSplit⟩)
      (phase : T.phase p = some (.draining targets)) (drained : ∀ c, T.edge p c = none)
      (edge : T.edge parent p = some v) :
      Step T ((((T.setPhase targets.left level .ready).setPhase targets.right level .ready).link
        parent p none).remove p)
  | beginMerge {p parent level : ℕ} {v : V} (notRoot : p ≠ rootPartition)
      (head : T.head p = some ⟨level, .ready⟩) (phase : T.phase p = some .ready)
      (edge : T.edge parent p = some v) : Step T (T.setPhase p level .merging)
  | finishMerge {p parent : ℕ} {v : V} (notRoot : p ≠ rootPartition)
      (phase : T.phase p = some .merging) (drained : ∀ c, T.edge p c = none)
      (edge : T.edge parent p = some v) : Step T ((T.link parent p none).remove p)
  | recenter {p parent : ℕ} {v w : V} (notRoot : p ≠ rootPartition)
      (phase : T.phase p = some .ready) (edge : T.edge parent p = some v) :
      Step T ((T.setCentroid p w).link parent p (some w))

/-! ### Well-formedness -/

/-- What holds of partitions one by one. -/
structure Heads (T : Topology V) : Prop where
  /-- Headers and States are present together. -/
  phase_none : ∀ p, T.phase p = none ↔ T.head p = none
  agree : ∀ {p h phase}, T.head p = some h → T.phase p = some phase → h.state = phase.state
  /-- Every partition has an allocated key. -/
  allocated : ∀ {p h}, T.head p = some h → T.highWater ≠ none ∧ 1 ≤ p
  allocated_le : ∀ {p h n}, T.head p = some h → T.highWater = some n → p ≤ n
  root : T.highWater ≠ none → T.head rootPartition ≠ none
  root_phase : T.phase rootPartition ≠ some .merging ∧
    ∀ s, T.phase rootPartition ≠ some (.receiving s)
  /-- No partition is above the root. -/
  level_le : ∀ {p h r}, T.head p = some h → T.head rootPartition = some r → h.level ≤ r.level
  /-- Every partition but the root has a centroid. -/
  centroid : ∀ {c h}, T.head c = some h → c ≠ rootPartition → T.centroid c ≠ none

structure Edges (T : Topology V) : Prop where
  /-- An edge joins adjacent levels and carries the child's centroid. -/
  edge : ∀ {p c v}, T.edge p c = some v → c ≠ rootPartition ∧ T.centroid c = some v ∧
    T.head p ≠ none ∧ T.head c ≠ none
  edge_level : ∀ {p c v h k}, T.edge p c = some v → T.head p = some h → T.head c = some k →
    h.level = k.level + 1
  edge_unique : ∀ {p q c v w}, T.edge p c = some v → T.edge q c = some w → p = q
  /-- A partition without an edge is a target of a draining root. -/
  incoming : ∀ {c h}, T.head c = some h → c ≠ rootPartition → (∀ p, T.edge p c = none) →
    ∃ targets, T.phase rootPartition = some (.draining targets) ∧ targets.Names c
  /-- A target of a draining root has no edge. -/
  rootTarget : ∀ {p c targets}, T.phase rootPartition = some (.draining targets) →
    targets.Names c → T.edge p c = none

/-- What holds of splits in flight. -/
structure Splits (T : Topology V) : Prop where
  receiving : ∀ {c s}, T.phase c = some (.receiving s) →
    ∃ targets, T.phase s = some (.draining targets) ∧ targets.Names c
  receiving_level : ∀ {c s h k}, T.phase c = some (.receiving s) → T.head c = some h →
    T.head s = some k → h.level = k.level
  draining : ∀ {c s targets}, T.phase s = some (.draining targets) → targets.Names c →
    T.phase c = some (.receiving s)
  /-- The targets a split has reserved do not exist yet, and no other split has
  reserved them. -/
  splitting : ∀ {c s targets}, T.phase s = some (.splitting targets) → targets.Names c →
    T.head c = none ∧ rootPartition < c
  splitting_le : ∀ {c s n targets}, T.phase s = some (.splitting targets) → targets.Names c →
    T.highWater = some n → c ≤ n
  splitting_unique : ∀ {c s s' targets targets'}, T.phase s = some (.splitting targets) →
    T.phase s' = some (.splitting targets') → targets.Names c → targets'.Names c → s = s'

/-- The shape of a committed topology. -/
structure WellFormed (T : Topology V) : Prop extends Heads T, Edges T, Splits T

namespace WellFormed

variable {T : Topology V} (hT : T.WellFormed)
include hT

variable {c p level parent : ℕ} {targets : SplitPair} {a b v : V}

lemma head_fresh {n : ℕ} (hn : T.highWater = some n) (hc : n < c) : T.head c = none := by
  by_contra hp
  obtain ⟨h, hh⟩ := ne_none_iff_exists'.mp hp
  exact absurd (hT.allocated_le hh hn) (not_le.mpr hc)

lemma edge_none (hc : T.head c = none) : T.edge p c = none := by
  by_contra hp
  obtain ⟨v, hv⟩ := ne_none_iff_exists'.mp hp
  exact (hT.edge hv).2.2.2 hc

lemma reserved_target {s : ℕ} (phase : T.phase s = some (.splitting targets))
    (hc : targets.Names c) :
    T.head c = none ∧ T.phase c = none ∧ rootPartition < c ∧ (∀ p, T.edge p c = none) ∧
      ∀ n, T.highWater = some n → c ≤ n :=
  have h := hT.splitting phase hc
  ⟨h.1, (hT.phase_none c).mpr h.1, h.2, fun _ => hT.edge_none h.1,
    fun _ => hT.splitting_le phase hc⟩

lemma allocated_of_phase (hp : T.phase p ≠ none) :
    T.highWater ≠ none ∧ ∀ n, T.highWater = some n → p ≤ n := by
  obtain ⟨h, hh⟩ := ne_none_iff_exists'.mp (mt (hT.phase_none p).mpr hp)
  exact ⟨(hT.allocated hh).1, fun n => hT.allocated_le hh⟩

lemma target_head {s : ℕ} (head : T.head s = some ⟨level, .drainingSplit⟩)
    (phase : T.phase s = some (.draining targets)) (hc : targets.Names c) :
    T.head c = some ⟨level, .receivingSplit⟩ := by
  have hphase := hT.draining phase hc
  have hsome : T.head c ≠ none := by
    intro hnone
    rw [(hT.phase_none c).mpr hnone] at hphase
    cases hphase
  obtain ⟨⟨l, state⟩, hh⟩ := ne_none_iff_exists'.mp hsome
  have hlevel : l = level := hT.receiving_level hphase hh head
  have hstate : state = .receivingSplit := hT.agree hh hphase
  rw [hh, hlevel, hstate]

/-! ### Every step preserves the shape -/

attribute [local grind] rootPartition SplitPair.Names

lemma create (absent : T.highWater = none) :
    ((T.allocate rootPartition).setPhase rootPartition 1 .ready).WellFormed := by
  have hempty : ∀ p, T.head p = none := by
    intro p
    by_contra hp
    obtain ⟨h, hh⟩ := ne_none_iff_exists'.mp hp
    exact (hT.allocated hh).1 absent
  have hphase := fun p => (hT.phase_none p).mpr (hempty p)
  have hedge := fun p c => hT.edge_none (p := p) (hempty c)
  refine ⟨?heads, ?edges, ?splits⟩ <;>
    constructor <;> simp only [setPhase, allocate] <;> grind

lemma beginSplit {n : ℕ} (allocated : T.highWater = some n)
    (head : T.head p = some ⟨level, .ready⟩) (phase : T.phase p = some .ready)
    (left : targets.left = n + 1) (right : targets.right = n + 2) :
    ((T.allocate (n + 2)).setPhase p level (.splitting targets)).WellFormed := by
  have hfresh := fun c (hc : n < c) => hT.head_fresh allocated hc
  have hle := hT.allocated_le head allocated
  have hpos := (hT.allocated head).2
  refine ⟨?heads, ?edges, ?splits⟩
  case heads =>
    cases hT.toHeads
    constructor <;> simp only [setPhase, allocate]
    all_goals grind
  case edges =>
    cases hT.toEdges
    constructor <;> simp only [setPhase, allocate]
    all_goals grind
  case splits =>
    cases hT.toSplits
    constructor <;> simp only [setPhase, allocate]
    all_goals grind

lemma exposeRoot (head : T.head rootPartition = some ⟨level, .splitting⟩)
    (phase : T.phase rootPartition = some (.splitting targets)) :
    (((T.place targets.left level rootPartition a).place targets.right level
      rootPartition b).setPhase rootPartition level (.draining targets)).WellFormed := by
  have hne := targets.ne
  have hl := hT.reserved_target phase targets.names_left
  have hr := hT.reserved_target phase targets.names_right
  refine ⟨?heads, ?edges, ?splits⟩
  case heads =>
    cases hT.toHeads
    constructor <;> simp only [setPhase, place, setCentroid]
    all_goals grind
  case edges =>
    cases hT.toEdges
    constructor <;> simp only [setPhase, place, setCentroid]
    all_goals grind
  case splits =>
    cases hT.toSplits
    constructor <;> simp only [setPhase, place, setCentroid]
    case receiving =>
      intro c s hc
      by_cases hs : s = rootPartition
      · exact ⟨targets, by simp [hs], by grind⟩
      · grind
    all_goals grind

lemma exposeChild {state : PartitionState} (notRoot : p ≠ rootPartition)
    (head : T.head p = some ⟨level, .splitting⟩) (phase : T.phase p = some (.splitting targets))
    (edge : T.edge parent p = some v) (parentHead : T.head parent = some ⟨level + 1, state⟩) :
    (((((T.place targets.left level p a).place targets.right level p b).link parent
      targets.left (some a)).link parent targets.right (some b)).setPhase p level
        (.draining targets)).WellFormed := by
  have hne := targets.ne
  have hl := hT.reserved_target phase targets.names_left
  have hr := hT.reserved_target phase targets.names_right
  have hparent : parent ≠ p ∧ parent ≠ targets.left ∧ parent ≠ targets.right := by grind
  refine ⟨?heads, ?edges, ?splits⟩
  case heads =>
    cases hT.toHeads
    constructor <;> simp only [setPhase, place, setCentroid, link]
    all_goals grind
  case edges =>
    obtain ⟨h1, h2, h3, h4, h5⟩ := hT.toEdges
    have h6 := @hT.draining
    constructor <;> simp only [setPhase, place, setCentroid, link]
    case edge_level =>
      intro q c w h k hedge hh hk
      clear h3 h4 h5 h6
      split_ifs at hedge with hright hleft
      · obtain ⟨rfl, rfl⟩ := hright
        grind
      · obtain ⟨rfl, rfl⟩ := hleft
        grind
      · have hold := h1 hedge
        grind
    case incoming =>
      intro c h hc hroot hnone
      have hold := hnone parent
      clear h1 h2 h3 h5 h6
      grind
    all_goals grind
  case splits =>
    cases hT.toSplits
    constructor <;> simp only [setPhase, place, setCentroid, link]
    case receiving =>
      intro c s hc
      by_cases hs : s = p
      · exact ⟨targets, by simp [hs], by grind⟩
      · grind
    all_goals grind

lemma moveEdge {source target child : ℕ} {state state' : PartitionState} (ne : source ≠ target)
    (edge : T.edge source child = some v) (head : T.head source = some ⟨level, state⟩)
    (targetHead : T.head target = some ⟨level, state'⟩) :
    ((T.link target child (some v)).link source child none).WellFormed := by
  refine ⟨?heads, ?edges, ?splits⟩
  case heads =>
    cases hT.toHeads
    constructor <;> simp only [link]
    all_goals grind
  case edges =>
    cases hT.toEdges
    constructor <;> simp only [link]
    case incoming =>
      intro c h hc hroot hnone
      have htarget := hnone target
      grind
    all_goals grind
  case splits =>
    cases hT.toSplits
    constructor <;> simp only [link]
    all_goals grind

lemma finishRoot (head : T.head rootPartition = some ⟨level, .drainingSplit⟩)
    (phase : T.phase rootPartition = some (.draining targets))
    (drained : ∀ c, T.edge rootPartition c = none) (left : T.centroid targets.left = some a)
    (right : T.centroid targets.right = some b) :
    (((((T.setPhase targets.left level .ready).setPhase targets.right level .ready).link
      rootPartition targets.left (some a)).link rootPartition targets.right (some b)).setPhase
        rootPartition (level + 1) .ready).WellFormed := by
  have hne := targets.ne
  have hl := hT.draining phase targets.names_left
  have hr := hT.draining phase targets.names_right
  have hlh := hT.target_head head phase targets.names_left
  have hrh := hT.target_head head phase targets.names_right
  have hle := fun p => hT.rootTarget (p := p) phase targets.names_left
  have hre := fun p => hT.rootTarget (p := p) phase targets.names_right
  refine ⟨?heads, ?edges, ?splits⟩
  case heads =>
    cases hT.toHeads
    constructor <;> simp only [setPhase, link]
    all_goals grind
  case edges =>
    obtain ⟨h1, h2, h3, h4, h5⟩ := hT.toEdges
    constructor <;> simp only [setPhase, link]
    case edge_level =>
      clear h3 h4 h5
      grind
    case incoming =>
      intro c h hc hroot hnone
      have hroot' := hnone rootPartition
      grind
    all_goals grind
  case splits =>
    obtain ⟨h1, h2, h3, h4, h5, _⟩ := hT.toSplits
    constructor <;> simp only [setPhase, link]
    case splitting_unique =>
      clear h1 h2 h3 h4 h5
      grind
    all_goals grind

section
variable (notRoot : p ≠ rootPartition)
include notRoot

lemma finishChild (head : T.head p = some ⟨level, .drainingSplit⟩)
    (phase : T.phase p = some (.draining targets)) (drained : ∀ c, T.edge p c = none)
    (edge : T.edge parent p = some v) :
    ((((T.setPhase targets.left level .ready).setPhase targets.right level .ready).link
      parent p none).remove p).WellFormed := by
  have hne := targets.ne
  have hl := hT.draining phase targets.names_left
  have hr := hT.draining phase targets.names_right
  have hlh := hT.target_head head phase targets.names_left
  have hrh := hT.target_head head phase targets.names_right
  refine ⟨?heads, ?edges, ?splits⟩
  case heads =>
    cases hT.toHeads
    constructor <;> simp only [setPhase, link, remove]
    all_goals grind
  case edges =>
    cases hT.toEdges
    constructor <;> simp only [setPhase, link, remove]
    all_goals grind
  case splits =>
    obtain ⟨h1, h2, h3, h4, h5, _⟩ := hT.toSplits
    constructor <;> simp only [setPhase, link, remove]
    case splitting_unique =>
      clear h1 h2 h3 h4 h5
      grind
    all_goals grind

lemma beginMerge (head : T.head p = some ⟨level, .ready⟩) (phase : T.phase p = some .ready)
    (edge : T.edge parent p = some v) : (T.setPhase p level .merging).WellFormed := by
  refine ⟨?heads, ?edges, ?splits⟩
  case heads =>
    cases hT.toHeads
    constructor <;> simp only [setPhase]
    all_goals grind
  case edges =>
    cases hT.toEdges
    constructor <;> simp only [setPhase]
    all_goals grind
  case splits =>
    cases hT.toSplits
    constructor <;> simp only [setPhase]
    all_goals grind

lemma finishMerge (phase : T.phase p = some .merging) (drained : ∀ c, T.edge p c = none)
    (edge : T.edge parent p = some v) : ((T.link parent p none).remove p).WellFormed := by
  refine ⟨?heads, ?edges, ?splits⟩
  case heads =>
    cases hT.toHeads
    constructor <;> simp only [link, remove]
    all_goals grind
  case edges =>
    cases hT.toEdges
    constructor <;> simp only [link, remove]
    all_goals grind
  case splits =>
    cases hT.toSplits
    constructor <;> simp only [link, remove]
    all_goals grind

end

lemma recenter {w : V} (notRoot : p ≠ rootPartition) (edge : T.edge parent p = some v) :
    ((T.setCentroid p w).link parent p (some w)).WellFormed := by
  refine ⟨?heads, ?edges, ?splits⟩
  case heads =>
    cases hT.toHeads
    constructor <;> simp only [setCentroid, link]
    all_goals grind
  case edges =>
    cases hT.toEdges
    constructor <;> simp only [setCentroid, link]
    all_goals grind
  case splits =>
    cases hT.toSplits
    constructor <;> simp only [setCentroid, link]
    all_goals grind

end WellFormed

/-- **Every step preserves well-formedness.** -/
theorem Step.wellFormed {T T' : Topology V} (hstep : T.Step T') (hT : T.WellFormed) :
    T'.WellFormed := by
  cases hstep with
  | create absent => exact hT.create absent
  | beginSplit allocated head phase left right =>
    exact hT.beginSplit allocated head phase left right
  | exposeRoot head phase => exact hT.exposeRoot head phase
  | exposeChild notRoot head phase edge parentHead =>
    exact hT.exposeChild notRoot head phase edge parentHead
  | moveEdge ne edge head targetHead => exact hT.moveEdge ne edge head targetHead
  | finishRoot head phase drained left right => exact hT.finishRoot head phase drained left right
  | finishChild notRoot head phase drained edge =>
    exact hT.finishChild notRoot head phase drained edge
  | beginMerge notRoot head phase edge => exact hT.beginMerge notRoot head phase edge
  | finishMerge notRoot phase drained edge => exact hT.finishMerge notRoot phase drained edge
  | recenter notRoot _ edge => exact hT.recenter notRoot edge

end Topology
