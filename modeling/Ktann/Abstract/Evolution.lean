/-
What follows from the shape of a topology and from the steps that keep it.

* `WellFormed.reachable` — every partition hangs off the root;
* `Topology.Evolves`, `Step.evolves` — what a later topology remembers of an
  earlier one: keys are not reused, and a split target keeps its centroid;
* `Topology.Ages`, `Step.ages` — the lifecycle of a partition goes one way;
* `Step.highWater_le` — the allocator only advances.
-/
import Ktann.Abstract.Topology

/-- What the phase of a partition can turn into while it keeps its level. -/
def Phase.Precedes : Phase → Phase → Prop
  | receiving s, receiving s' => s' = s
  | receiving _, _ => True
  | ready, b => ∀ s, b ≠ receiving s
  | splitting targets, b => b = splitting targets ∨ b = draining targets
  | a, b => b = a

lemma Phase.Precedes.refl (a : Phase) : a.Precedes a := by
  cases a <;> simp [Phase.Precedes]

lemma Phase.Precedes.trans {a b c : Phase} (h : a.Precedes b) (h' : b.Precedes c) :
    a.Precedes c := by
  cases a <;> cases b <;> cases c <;> simp_all [Phase.Precedes]

namespace Topology

variable {V : Type}

/-! ### Every partition hangs off the root -/

/-- Reached from the root along edges and the targets of a draining root. -/
inductive Reachable (T : Topology V) : PartitionKey → Prop
  | root : Reachable T rootPartition
  | child {p c : PartitionKey} {v : V} (parent : Reachable T p) (edge : T.edge p c = some v) :
      Reachable T c
  | target {c : PartitionKey} {targets : SplitPair}
      (phase : T.phase rootPartition = some (.draining targets)) (names : targets.Names c) :
      Reachable T c

variable {T : Topology V}

/-- **Every partition is reachable from the root.** -/
theorem WellFormed.reachable (hT : T.WellFormed) {c : PartitionKey} {h : Head}
    (hc : T.head c = some h) : T.Reachable c := by
  obtain ⟨r, hr⟩ := ne_none_iff_exists'.mp (hT.root (hT.allocated hc).1)
  -- Climb: a parent is one level up, and no level is above the root's.
  induction hn : r.level - h.level using Nat.strong_induction_on generalizing c h with
  | _ n ih =>
    by_cases hroot : c = rootPartition
    · exact hroot ▸ .root
    by_cases hnone : ∀ p, T.edge p c = none
    · obtain ⟨_, hphase, hnames⟩ := hT.incoming hc hroot hnone
      exact .target hphase hnames
    · obtain ⟨p, v, hv⟩ : ∃ p v, T.edge p c = some v := by
        simpa [ne_none_iff_exists'] using hnone
      obtain ⟨k, hk⟩ := ne_none_iff_exists'.mp (hT.edge hv).2.2.1
      have hup := hT.edge_level hv hk hc
      have hle := hT.level_le hk hr
      exact .child (ih _ (by omega) hk rfl) hv

/-! ### What a later topology remembers -/

/-- Used up: allocated, absent, and not about to be created. -/
structure Spent (T : Topology V) (p : PartitionKey) : Prop where
  allocated : T.highWater ≠ none ∧ ∀ n, T.highWater = some n → p ≤ n
  absent : T.phase p = none
  unreserved : ∀ s targets, T.phase s = some (.splitting targets) → ¬ targets.Names p

/-- What holds between a topology and a later one. -/
structure Evolves (T T' : Topology V) : Prop where
  spent : ∀ p, T.Spent p → T'.Spent p
  /-- A removed partition does not come back. -/
  removed : ∀ p, T.phase p ≠ none → T'.phase p = none → T'.Spent p
  /-- A split target that is still receiving has been so since it was created,
  with the same centroid. -/
  receiving : ∀ p s, T.phase p ≠ none → T'.phase p = some (.receiving s) →
    T.phase p = some (.receiving s) ∧ T'.centroid p = T.centroid p

namespace Evolves

lemma refl (T : Topology V) : T.Evolves T where
  spent _ h := h
  removed _ h h' := absurd h' h
  receiving _ _ _ h := ⟨h, rfl⟩

lemma trans {T T' T'' : Topology V} (h : T.Evolves T') (h' : T'.Evolves T'') : T.Evolves T'' where
  spent p hp := h'.spent p (h.spent p hp)
  removed p hp hp'' := by
    by_cases hp' : T'.phase p = none
    · exact h'.spent p (h.removed p hp hp')
    · exact h'.removed p hp' hp''
  receiving p s hp hp'' := by
    have hp' : T'.phase p ≠ none := by
      intro hnone
      have habsent := (h'.spent p (h.removed p hp hnone)).absent
      rw [habsent] at hp''
      cases hp''
    obtain ⟨hphase, hcentroid⟩ := h'.receiving p s hp' hp''
    obtain ⟨hphase', hcentroid'⟩ := h.receiving p s hp hphase
    exact ⟨hphase', hcentroid.trans hcentroid'⟩

end Evolves

/-- How the partitions that two topologies share have aged. -/
def Ages (T T' : Topology V) : Prop :=
  ∀ p h h' a b, T.head p = some h → T'.head p = some h' → T.phase p = some a →
    T'.phase p = some b → h.level ≤ h'.level ∧ (p ≠ rootPartition → h'.level = h.level) ∧
      (h'.level = h.level → a.Precedes b)

lemma Ages.refl (T : Topology V) : T.Ages T := by
  intro p h h' a b hp hp' ha hb
  cases hp.symm.trans hp'
  cases ha.symm.trans hb
  exact ⟨le_rfl, fun _ => rfl, fun _ => .refl a⟩

lemma Ages.trans {T T' T'' : Topology V} (h : T.Ages T') (h' : T'.Ages T'')
    (hT' : T'.WellFormed) (hev : T.Evolves T') (hev' : T'.Evolves T'') : T.Ages T'' := by
  intro p k k'' a c hp hp'' ha hc
  -- A partition that was gone in between would not have come back.
  have hphase : T'.phase p ≠ none := by
    intro hnone
    have habsent := (hev'.spent p (hev.removed p (by simp [ha]) hnone)).absent
    cases habsent.symm.trans hc
  obtain ⟨b, hb⟩ := ne_none_iff_exists'.mp hphase
  obtain ⟨k', hp'⟩ := ne_none_iff_exists'.mp (mt (hT'.phase_none p).mpr hphase)
  have hab := h p k k' a b hp hp' ha hb
  have hbc := h' p k' k'' b c hp' hp'' hb hc
  grind [Phase.Precedes.trans]

section

variable {T T' : Topology V} (hstep : T.Step T') (hT : T.WellFormed)
include hstep hT

variable {p : PartitionKey}

lemma Step.spent (hp : T.Spent p) : T'.Spent p := by
  have hdraining := @hT.draining
  obtain ⟨hallocated, habsent, hunreserved⟩ := hp
  cases hstep
  all_goals constructor
  all_goals simp only [setPhase, place, setCentroid, link, remove, allocate]
  all_goals grind [SplitPair.Names, SplitPair.names_left, SplitPair.names_right]

lemma Step.removed (hp : T.phase p ≠ none) (hp' : T'.phase p = none) : T'.Spent p := by
  have hallocated := hT.allocated_of_phase hp
  have hunreserved : ∀ s targets, T.phase s = some (.splitting targets) → ¬ targets.Names p :=
    fun s targets hs hc => hp (hT.reserved_target hs hc).2.1
  cases hstep
  all_goals constructor
  all_goals
    revert hp'
    simp only [setPhase, place, setCentroid, link, remove, allocate]
    grind

lemma Step.receiving {s : PartitionKey} (hp : T.phase p ≠ none)
    (hp' : T'.phase p = some (.receiving s)) :
    T.phase p = some (.receiving s) ∧ T'.centroid p = T.centroid p := by
  have hreserved : ∀ s (targets : SplitPair) c, T.phase s = some (.splitting targets) →
      targets.Names c → T.phase c = none := fun s targets c hs hc => (hT.reserved_target hs hc).2.1
  revert hp'
  cases hstep
  all_goals
    simp only [setPhase, place, setCentroid, link, remove, allocate]
    grind [SplitPair.names_left, SplitPair.names_right]

lemma Step.centroid_none (hcentroid : ∀ p, T.head p = none → T.centroid p = none)
    (p : PartitionKey) (hp : T'.head p = none) : T'.centroid p = none := by
  revert hp
  have hready : ∀ p, T.phase p = some .ready → T.head p ≠ none := by
    intro p hphase hnone
    rw [(hT.phase_none p).mpr hnone] at hphase
    cases hphase
  cases hstep
  all_goals
    simp only [setPhase, place, setCentroid, link, remove, allocate]
    grind

/-- **Every step evolves the topology.** -/
theorem Step.evolves : T.Evolves T' where
  spent _ := hstep.spent hT
  removed _ := hstep.removed hT
  receiving _ _ := hstep.receiving hT

lemma Step.ages : T.Ages T' := by
  have hreserved := @hT.reserved_target
  have htarget := @hT.target_head
  have hdraining := @hT.draining
  intro p h h' a b hp hp' ha hb
  have hallocated := (hT.allocated hp).1
  have hrefl := Phase.Precedes.refl a
  revert hp' hb
  cases hstep
  all_goals
    simp only [setPhase, place, setCentroid, link, remove, allocate]
    grind [Phase.Precedes, SplitPair.names_left, SplitPair.names_right]

end

lemma Step.highWater_le {T' : Topology V} (hstep : T.Step T') {n : ℕ}
    (hn : T.highWater = some n) : ∃ n', T'.highWater = some n' ∧ n ≤ n' := by
  cases hstep
  all_goals
    simp only [setPhase, place, setCentroid, link, remove, allocate]
    grind

end Topology
