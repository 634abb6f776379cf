/-
Bounded branch retention is invisible.

An entry that gave way has as many nearer ones before it as the budget has visits, one
visit is spent already, and each visit spends one more; so the budget runs out before
it could be reached.  Against the traversal that keeps every entry, the active
frontiers agree on one entry more than the budget can still pay for, and so do the
pending queues, less the entries that are active already.

* `SameExplored`, `Funded` — that agreement, for what is explored and for whole
  traversals;
* `visitPartition_funded`, `runSingly_funded` — a visit and a run keep it;
* `bounded_retention_invisible` — **both traversals return the same outcomes**.
-/
import Ktann.Lib.Related
import Ktann.Search.Retention
import Ktann.Search.TraverseBatches

namespace Traverse

open Agreement
open Traversal (seed promote inject finish)

/-! ### What visits do -/

section
variable {D Pool : Type} [LinearOrder D] {limit k : ℕ} {tree level : ℕ}

/-- The branches of both traversals. -/
structure SameBranches (limit k : ℕ) (b b' : Branches D) : Prop where
  continuation : ∃ c c', b.continuation = some c ∧ b'.continuation = some c' ∧
    Kept limit k b.referenced c c'
  nextFrontier : b.nextFrontier = b'.nextFrontier
  referenced : b.referenced = b'.referenced

/-- No pending entry refers to a partition. -/
def Branches.Fresh (b : Branches D) (id : ℕ × PartitionKey) : Prop :=
  ∀ c, b.continuation = some c → ∀ g ∈ c.pending, ∀ e ∈ g.2, e.identity ≠ id

namespace SameBranches

variable {b b' : Branches D}

section
variable (h : SameBranches limit k b b') {id : ℕ × PartitionKey}
include h

lemma mono {k' : ℕ} (hk : k' ≤ k) : SameBranches limit k' b b' := by
  obtain ⟨c, c', hc, hc', hkept⟩ := h.continuation
  exact ⟨⟨c, c', hc, hc', hkept.mono hk⟩, h.nextFrontier, h.referenced⟩

lemma retains : b.retainsBranches = b'.retainsBranches := by
  obtain ⟨c, _, hc, hc', -⟩ := h.continuation
  rw [Branches.retainsBranches, Branches.retainsBranches, hc, hc']
  rfl

lemma fresh (hid : id ∉ b.referenced) : b.Fresh id := by
  obtain ⟨c, _, hc, -, hkept⟩ := h.continuation
  intro c₁ hc₁ g hg e he heq
  rw [hc, some_inj] at hc₁
  subst hc₁
  exact hid (heq ▸ hkept.known g hg e he)

lemma recordEffectiveLeaf (tree : ℕ) :
    SameBranches limit k (b.recordEffectiveLeaf tree) (b'.recordEffectiveLeaf tree) := by
  obtain ⟨c, _, hc, hc', hkept⟩ := h.continuation
  refine ⟨⟨_, _, ?_, ?_, hkept.recordEffectiveLeaf tree⟩, h.nextFrontier, h.referenced⟩
  · rw [Branches.recordEffectiveLeaf, hc, map_some]
  · rw [Branches.recordEffectiveLeaf, hc', map_some]

lemma mergeChild (hk : k ≤ limit) {leafBeam tree level : ℕ} {partition : PartitionKey}
    (hfresh : b.Fresh (tree, partition)) (hknown : (tree, partition) ∈ b.referenced)
    (distance : D) : SameBranches limit k (b.mergeChild leafBeam tree level partition distance)
      (b'.mergeChild leafBeam tree level partition distance) := by
  obtain ⟨c, _, hc, hc', hkept⟩ := h.continuation
  rw [Branches.mergeChild, Branches.mergeChild, hc, hc']
  have hpush := @Kept.push _ _ _ _ _ _ _ hkept hk ⟨distance, tree, partition, some level⟩
    (hfresh c hc) hknown level
  exact ⟨⟨_, _, rfl, rfl, hpush⟩, h.nextFrontier, h.referenced⟩

lemma mergeChild_fresh {leafBeam : ℕ} {partition : PartitionKey} {distance : D}
    (hfresh : b.Fresh id) (hne : (tree, partition) ≠ id) :
    (b.mergeChild leafBeam tree level partition distance).Fresh id ∧
      (b.mergeChild leafBeam tree level partition distance).referenced = b.referenced := by
  obtain ⟨c, _, hc, hc', hkept⟩ := h.continuation
  rw [Branches.mergeChild, hc]
  refine ⟨fun c₁ hc₁ g hg e he => ?_, rfl⟩
  cases hc₁
  rcases mem_push hkept.visitLimit hg he with rfl | ⟨g', hg', he⟩
  · exact hne
  · exact hfresh c hc g' hg' e he

end

end SameBranches

variable {b b' : Branches D} {x x' : Explored D Pool} {n : ℕ} {st st' : Traversal D Pool}

lemma SameBranches.reference (h : SameBranches limit k b b') (tree : ℕ)
    (partition : PartitionKey) :
    Related (fun a a' => SameBranches limit k a a' ∧ a.Fresh (tree, partition) ∧
        (tree, partition) ∈ a.referenced)
      (b.reference tree partition) (b'.reference tree partition) := by
  obtain ⟨c, c', hc, hc', hkept⟩ := h.continuation
  rw [Branches.reference, Branches.reference, ← h.referenced]
  split_ifs with hmem
  · exact .error _
  · exact .ok ⟨⟨⟨c, c', hc, hc', hkept.reference _⟩, h.nextFrontier, rfl⟩, h.fresh hmem,
      mem_cons_self ..⟩

variable {ctx : VisitContext D Pool} {children : List ChildEntry}

lemma exposeChildren_same (hk : k ≤ limit) (tree level : ℕ) (children : List ChildEntry)
    (h : SameBranches limit k b b') :
    Related (SameBranches limit k) (exposeChildren ctx tree level children b)
      (exposeChildren ctx tree level children b') := by
  induction children generalizing b b' with
  | nil => exact .ok h
  | cons child _ ih =>
    rw [exposeChildren, exposeChildren]
    refine .bind_same fun distance _ => ?_
    refine (h.reference tree child.child).bind fun a a' ha => ?_
    obtain ⟨hsame, hfresh, hknown⟩ := ha
    exact ih (hsame.mergeChild hk hfresh hknown distance)

lemma referenceAll_same (tree : ℕ) (children : List ChildEntry) (h : SameBranches limit k b b') :
    Related (SameBranches limit k) (referenceAll tree children b)
      (referenceAll tree children b') := by
  induction children generalizing b b' with
  | nil => exact .ok h
  | cons child _ ih =>
    rw [referenceAll, referenceAll]
    exact (h.reference tree child.child).bind fun _ _ hsame => ih hsame.1

omit [LinearOrder D] in
lemma referenceAll_eq_ok {b₁ : Branches D} (h : referenceAll tree children b = .ok b₁) :
    b₁.continuation = b.continuation ∧ b.referenced ⊆ b₁.referenced ∧
      (children.map ChildEntry.child).Nodup ∧
      ∀ child ∈ children, (tree, child.child) ∉ b.referenced ∧
        (tree, child.child) ∈ b₁.referenced := by
  induction children generalizing b with
  | nil =>
    cases h
    exact ⟨rfl, List.Subset.refl _, List.nodup_nil, fun _ hc => absurd hc not_mem_nil⟩
  | cons _ _ ih =>
    rw [referenceAll] at h
    obtain ⟨_, hb₂, hrest⟩ := bind_eq_ok.mp h
    rw [Branches.reference] at hb₂
    split_ifs at hb₂ with hmem
    cases hb₂
    obtain ⟨hcont, hsub, hnodup, hall⟩ := ih hrest
    refine ⟨hcont, fun id hid => hsub (mem_cons_of_mem _ hid), ?_, ?_⟩
    · rw [map_cons, nodup_cons]
      refine ⟨fun hchild => ?_, hnodup⟩
      obtain ⟨other, hother, heq⟩ := mem_map.mp hchild
      exact (hall other hother).1 (heq ▸ mem_cons_self ..)
    · intro c hc
      rcases mem_cons.mp hc with rfl | hc
      · exact ⟨hmem, hsub (mem_cons_self ..)⟩
      · obtain ⟨hnot, hin⟩ := hall c hc
        exact ⟨fun hid => hnot (mem_cons_of_mem _ hid), hin⟩

lemma mergeHits_same (hk : k ≤ limit) {hits : List (PartitionKey × D)}
    (h : SameBranches limit k b b') (hnodup : (hits.map Prod.fst).Nodup)
    (hhits : ∀ hit ∈ hits, b.Fresh (tree, hit.1) ∧ (tree, hit.1) ∈ b.referenced) :
    SameBranches limit k (mergeHits ctx tree level hits b) (mergeHits ctx tree level hits b') := by
  induction hits generalizing b b' with
  | nil => exact h
  | cons hit _ ih =>
    rw [map_cons, nodup_cons] at hnodup
    obtain ⟨⟨hfresh, hknown⟩, hrest⟩ := forall_mem_cons.mp hhits
    rw [mergeHits, mergeHits, foldl_cons, foldl_cons]
    refine ih (h.mergeChild hk hfresh hknown hit.2) hnodup.2 fun other hother => ?_
    have hne : (tree, hit.1) ≠ (tree, other.1) := fun heq =>
      hnodup.1 (mem_map.mpr ⟨other, hother, (congrArg Prod.snd heq).symm⟩)
    obtain ⟨hfresh', hreferenced⟩ := h.mergeChild_fresh (hrest other hother).1 hne
    exact ⟨hfresh', hreferenced ▸ (hrest other hother).2⟩

omit [LinearOrder D] in
lemma nodup_hits (hchildren : (children.map ChildEntry.child).Nodup) {hits : List (ℕ × D)}
    (hhits : (hits.map Prod.fst).Nodup) :
    ((hits.filterMap fun hit => children[hit.1]?.map fun child => (child.child, hit.2)).map
      Prod.fst).Nodup := by
  induction hits with
  | nil => exact List.nodup_nil
  | cons hit _ ih =>
    rw [map_cons, nodup_cons] at hhits
    rw [List.filterMap_cons]
    cases hchild : children[hit.1]? with
    | none => exact ih hhits.2
    | some child =>
      rw [map_some]
      dsimp only
      rw [map_cons, nodup_cons]
      refine ⟨fun hmem => ?_, ih hhits.2⟩
      obtain ⟨_, hfound, heq⟩ := mem_map.mp hmem
      obtain ⟨other, hother, hmap⟩ := List.mem_filterMap.mp hfound
      obtain ⟨_, hchild', rfl⟩ := map_eq_some_iff.mp hmap
      -- the same child at two positions
      have hpos : other.1 = hit.1 := by
        have hget : (children.map ChildEntry.child)[other.1]? =
            (children.map ChildEntry.child)[hit.1]? := by
          rw [List.getElem?_map, List.getElem?_map, hchild, hchild', map_some, map_some]
          exact congrArg some heq
        have hlt : other.1 < (children.map ChildEntry.child).length := by
          rw [length_map]
          exact (getElem?_eq_some_iff.mp hchild').1
        exact (List.getElem?_inj hlt hchildren).mp hget
      exact hhits.1 (mem_map.mpr ⟨other, hother, hpos⟩)

/-- What both traversals have explored. -/
structure SameExplored (limit k : ℕ) (x x' : Explored D Pool) : Prop where
  branches : SameBranches limit k x.branches x'.branches
  candidates : x.candidates = x'.candidates
  visitedLeafEntries : x.visitedLeafEntries = x'.visitedLeafEntries
  bodies : x.bodies = x'.bodies

omit [LinearOrder D] in
@[simp] lemma checkRetained_unlimited (limited : Bool) (entry : Option (FrontierEntry D))
    (x : Explored D Pool) (children beam extra : ℕ) :
    checkRetained ctx.unlimited limited entry x children beam extra = .ok () := by
  rw [checkRetained, VisitContext.unlimited, Bool.not_true, Bool.and_false]
  rfl

lemma visitInternal_same (hk : k ≤ limit) (visit : PreparedVisit D) (children : List ChildEntry)
    (h : SameExplored limit k x x') :
    Related (SameExplored limit k) (visitInternal ctx.unlimited visit children x)
      (visitInternal ctx.unlimited visit children x') := by
  rw [visitInternal, visitInternal, checkRetained_unlimited, checkRetained_unlimited]
  refine .bind_same fun _ _ => ?_
  refine (exposeChildren_same hk _ _ children h.branches).bind fun b b' hb => ?_
  exact .ok ⟨hb, h.candidates, h.visitedLeafEntries, h.bodies⟩

lemma scanLeaf_same (visit : PreparedVisit D) (entries : List LeafEntry)
    (h : SameExplored limit k x x') :
    Related (SameExplored limit k) (scanLeaf ctx.unlimited visit entries x)
      (scanLeaf ctx.unlimited visit entries x') := by
  rw [scanLeaf, scanLeaf, h.visitedLeafEntries, h.candidates]
  dsimp only
  split_ifs
  · exact .error _
  · refine .bind_same fun eligible _ => ?_
    simp only [checkRetained_unlimited]
    refine .bind_same fun _ _ => .bind_same fun candidates _ => ?_
    refine .ok ⟨?_, rfl, rfl, h.bodies⟩
    dsimp only
    split_ifs
    · exact h.branches
    · exact h.branches.recordEffectiveLeaf _

lemma visitBody_same (hk : k ≤ limit) (visit : PreparedVisit D) (body : BodyEntries Unit)
    (h : SameExplored limit k x x') :
    Related (SameExplored limit k) (visitBody ctx.unlimited visit body x)
      (visitBody ctx.unlimited visit body x') := by
  have hbody : SameExplored limit k { x with bodies := x.bodies ++ [visit.entry.identity] }
      { x' with bodies := x'.bodies ++ [visit.entry.identity] } :=
    ⟨h.branches, h.candidates, h.visitedLeafEntries, by rw [h.bodies]⟩
  unfold visitBody
  dsimp only
  split_ifs
  · cases body with
    | internal children => exact visitInternal_same hk visit children hbody
    | leaf entries | internalGraph children graph => exact .error _
  · cases body with
    | leaf entries => exact scanLeaf_same visit entries hbody
    | internal children | internalGraph children graph => exact .error _

lemma visitGraph_same (hk : k ≤ limit) (visit : PreparedVisit D) (h : SameExplored limit k x x') :
    Related (SameExplored limit k) (visitGraph ctx.unlimited visit x)
      (visitGraph ctx.unlimited visit x') := by
  rw [visitGraph, visitGraph, ← h.branches.retains]
  dsimp only
  rw [checkRetained_unlimited, checkRetained_unlimited]
  refine .bind_same fun _ _ => .bind_same fun body _ => ?_
  cases body with
  | leaf entries | internalGraph children graph => exact .error _
  | internal children =>
    dsimp only
    refine (referenceAll_same visit.entry.tree children h.branches).bind_ok fun b b' hx hb => ?_
    obtain ⟨hcont, -, hnodup, hall⟩ := referenceAll_eq_ok hx
    refine .bind_same fun hits hsearch => ?_
    refine .ok ⟨mergeHits_same hk hb (nodup_hits hnodup (ctx.graphSearch_nodup _ _ _ _ _ hsearch))
      fun hit hhit => ?_, h.candidates, h.visitedLeafEntries, by rw [h.bodies]⟩
    obtain ⟨_, -, hmap⟩ := List.mem_filterMap.mp hhit
    obtain ⟨child, hchild, rfl⟩ := map_eq_some_iff.mp hmap
    obtain ⟨hnot, hin⟩ := hall child (mem_of_getElem? hchild)
    -- checking the edges left the pending entries alone
    exact ⟨fun c hc => h.branches.fresh hnot c (hcont ▸ hc), hin⟩

lemma consumeSingle_same (hk : k ≤ limit) (visit : Option (PreparedVisit D))
    (h : SameExplored limit k x x') :
    Related (SameExplored limit k) (consumeSingle ctx.unlimited visit x)
      (consumeSingle ctx.unlimited visit x') := by
  cases visit with
  | none => exact .ok h
  | some visit =>
    rw [consumeSingle, consumeSingle]
    split_ifs
    · exact visitGraph_same hk visit h
    · exact .bind_same fun body _ => visitBody_same hk visit body h

/-! ### Whole traversals -/

/-- The two traversals, with `n` entries to agree on. -/
structure Funded (limit n : ℕ) (st st' : Traversal D Pool) : Prop where
  active : AgreeUpTo n st.active st'.active
  explored : SameExplored limit (n - st.active.length) st.explored st'.explored
  partitions : st.partitions = st'.partitions

lemma inject_funded (h : Funded limit n st st') (tree : ℕ) (partition : PartitionKey)
    (level : ℕ) : Related (Funded limit n) (st.inject ctx.unlimited tree partition level)
      (st'.inject ctx.unlimited tree partition level) := by
  rw [inject, inject]
  refine (h.explored.branches.reference tree partition).bind fun b b' hb => ?_
  refine .ok ⟨h.active.merge rfl, ⟨hb.1.mono ?_, h.explored.candidates,
    h.explored.visitedLeafEntries, h.explored.bodies⟩, h.partitions⟩
  dsimp only
  rw [length_mergeByKey]
  omega

lemma enter_funded (h : Funded limit n st st') (entry : FrontierEntry D)
    (header : PartitionHeader) : Related (Funded limit n) (enter ctx.unlimited entry header st)
      (enter ctx.unlimited entry header st') := by
  rw [enter, enter]
  split_ifs
  · rw [applyRootState, applyRootState]
    cases header.state with
    | ready | splitting => exact .ok h
    | receivingSplit | merging => exact .error _
    | drainingSplit =>
      dsimp only
      cases ctx.unlimited.snapshot.state (ctx.unlimited.treeKey entry.tree) entry.partition with
      | none => exact .error _
      | some transition =>
        cases transition with
        | drainingSplit targets _ =>
          exact (inject_funded h entry.tree targets.left header.level).bind fun _ _ h₁ =>
            inject_funded h₁ entry.tree targets.right header.level
        | ready | splitting | receivingSplit | merging => exact .error _
  · exact .ok h

lemma visitPartition_funded (hn : n ≤ limit) (h : Funded limit n st st')
    (entry : FrontierEntry D) : Related (Funded limit n) (visitPartition ctx.unlimited entry st)
      (visitPartition ctx.unlimited entry st') := by
  rw [visitPartition, visitPartition]
  have hprepare : Related (fun p p' => p.1 = p'.1 ∧ Funded limit n p.2 p'.2)
      (prepare ctx.unlimited entry none st) (prepare ctx.unlimited entry none st') := by
    rw [prepare, prepare]
    refine .bind_same fun metadata _ => .bind_same fun _ _ => ?_
    have hcharged : Funded limit n
        { st with partitions := st.partitions.charge ctx.unlimited entry metadata.1 }
        { st' with partitions := st'.partitions.charge ctx.unlimited entry metadata.1 } :=
      ⟨h.active, h.explored, by rw [h.partitions]⟩
    refine (enter_funded hcharged entry metadata.1).bind fun _ _ h₁ => ?_
    exact .bind_same fun visit _ => .ok ⟨rfl, h₁⟩
  refine hprepare.bind fun p p' hp => ?_
  obtain ⟨visit, _⟩ := p
  obtain ⟨_, _⟩ := p'
  obtain ⟨hvisit, h₁⟩ := hp
  cases hvisit
  refine (consumeSingle_same (by omega) visit h₁.explored).bind fun x x' hx => ?_
  exact .ok ⟨h₁.active, hx, h₁.partitions⟩

lemma Funded.promote (h : Funded limit (n + 1) st st') :
    Funded limit (n + 1) st.promote st'.promote := by
  obtain ⟨active, explored, partitions⟩ := st
  obtain ⟨active', _, _⟩ := st'
  cases active with
  | cons =>
    obtain ⟨_, hactive', -⟩ := h.active.cons_left
    dsimp only at hactive'
    subst hactive'
    rw [promote_of_active (List.cons_ne_nil _ _), promote_of_active (List.cons_ne_nil _ _)]
    exact h
  | nil =>
    have hactive' : active' = [] := h.active.nil_left
    subst hactive'
    obtain ⟨c, _, hc, hc', hkept⟩ := h.explored.branches.continuation
    obtain ⟨hfront, hrest⟩ := hkept.select (Nat.succ_ne_zero n)
    dsimp only at hc hc'
    rw [promote, promote, Branches.promote, Branches.promote, if_pos rfl, if_pos rfl, hc, hc']
    exact ⟨hfront, ⟨⟨⟨_, _, rfl, rfl, hrest⟩, h.explored.branches.nextFrontier,
      h.explored.branches.referenced⟩, h.explored.candidates, h.explored.visitedLeafEntries,
      h.explored.bodies⟩, h.partitions⟩

lemma remaining_eq (h : Funded limit n st st') : remaining ctx st = remaining ctx st' := by
  rw [remaining, remaining, h.partitions]

/-- **A run on both sides.**  The frontiers always agree on one entry more than can
still be visited. -/
theorem runSingly_funded (fuel : ℕ)
    (h : Funded ctx.visitedPartitions (remaining ctx.unlimited st + 1) st st') :
    Related (fun a a' => Funded ctx.visitedPartitions (remaining ctx.unlimited a + 1) a a')
      (runSingly ctx.unlimited fuel st) (runSingly ctx.unlimited fuel st') := by
  induction fuel generalizing st st' with
  | zero => exact .ok h
  | succ _ ih =>
    by_cases hzero : remaining ctx.unlimited st = 0
    · rw [runSingly_of_depleted hzero, runSingly_of_depleted (remaining_eq h ▸ hzero)]
      exact .ok h
    have hzero' : remaining ctx.unlimited st' ≠ 0 := remaining_eq h ▸ hzero
    have hpromote := h.promote
    cases hactive : st.promote.active with
    | nil =>
      have hactive' : st'.promote.active = [] := (hactive ▸ hpromote.active).nil_left
      rw [runSingly_of_drained hzero hactive, runSingly_of_drained hzero' hactive']
      exact .ok hpromote
    | cons first rest =>
      obtain ⟨rest', hactive', hrest⟩ := (hactive ▸ hpromote.active).cons_left
      rw [runSingly_of_active hzero hactive, runSingly_of_active hzero' hactive']
      have hfunded : Funded ctx.visitedPartitions (remaining ctx.unlimited st)
          { st.promote with active := rest } { st'.promote with active := rest' } := by
        refine ⟨hrest, ?_, hpromote.partitions⟩
        have hexplored := hpromote.explored
        rw [hactive, length_cons, Nat.add_sub_add_right] at hexplored
        exact hexplored
      refine (visitPartition_funded (Nat.sub_le _ _) hfunded first).bind_ok
        fun a a' hvisit ha => ih ?_
      -- the visit took the unit that is no longer agreed on
      have hvisited := visitPartition_visited hvisit
      have hleft : remaining ctx.unlimited a + 1 = remaining ctx.unlimited st := by
        rw [remaining] at hzero ⊢
        rw [remaining, hvisited]
        dsimp only [promote]
        omega
      rwa [hleft]

lemma hasPending_eq (h : Funded limit (n + 1) st st') :
    st.explored.branches.hasPending st.active = st'.explored.branches.hasPending st'.active := by
  obtain ⟨c, _, hc, hc', hkept⟩ := h.explored.branches.continuation
  have hempty : st.active.isEmpty = st'.active.isEmpty := by
    rw [Bool.eq_iff_iff, List.isEmpty_iff, List.isEmpty_iff, h.active.eq_nil_iff]
  rw [Branches.hasPending, Branches.hasPending, hc, hc', ← hempty, h.explored.branches.nextFrontier]
  cases hactive : st.active with
  | cons =>
    simp only [List.isEmpty_cons, Bool.not_false, Bool.or_true, Bool.true_or]
  | nil =>
    rw [hactive] at hkept
    rw [Option.any_some, Option.any_some, hkept.hasWork_eq (Nat.succ_ne_zero n)]

lemma finish_eq (h : Funded limit (n + 1) st st') : st.finish ctx = st'.finish ctx := by
  obtain ⟨c, _, hc, hc', hkept⟩ := h.explored.branches.continuation
  rw [finish, finish, h.explored.candidates, h.partitions, hasPending_eq h,
    h.explored.bodies, h.explored.visitedLeafEntries, hc, hc', map_some, map_some, hkept.effective]

lemma seed_funded (h : ctx.filteredExact = true) (n : ℕ) :
    Funded limit n (seed ctx (some limit)) (seed ctx none) := by
  refine ⟨rfl, ⟨⟨⟨.new ctx.leafBeam (some limit), .new ctx.leafBeam none, ?_, ?_, ?_⟩, rfl, rfl⟩,
    rfl, rfl, rfl⟩, rfl⟩
  · exact if_pos h
  · exact if_pos h
  · exact ⟨rfl, rfl, rfl, rfl, .inr .nil, fun g hg => absurd hg not_mem_nil,
      fun g hg => absurd hg not_mem_nil⟩

lemma traverseSingly_retention :
    traverseSingly ctx.unlimited (some ctx.visitedPartitions) = traverseSingly
      ctx.unlimited none := by
  cases hexact : ctx.filteredExact with
  | false =>
    -- no branch is retained either way
    have hseed : seed ctx.unlimited (some ctx.visitedPartitions) =
        seed ctx.unlimited none := by
      have hfalse : ctx.unlimited.filteredExact = false := hexact
      rw [seed, seed, hfalse]
      rfl
    rw [traverseSingly, traverseSingly, admitSeed, admitSeed, hseed]
  | true =>
    rw [traverseSingly, traverseSingly, admitSeed, admitSeed, checkRetained_unlimited,
      checkRetained_unlimited]
    refine Except.Related.eq (.bind_same fun _ _ => ?_)
    refine (runSingly_funded _ (seed_funded hexact _)).bind fun a a' ha => ?_
    rw [finish_eq ha]
    cases a'.finish ctx.unlimited with
    | ok => exact .ok rfl
    | error e => exact .error e

/-- **Bounded branch retention is invisible.**  With no limit on working memory
reached, the traversal that keeps the nearest pending entries of each tree and level,
as many as its budget, returns an outcome exactly when the traversal that keeps every
entry returns it: the same visits in the same order, the same effective leaves of each
tree, and the same exhaustion of the budget. -/
theorem bounded_retention_invisible (ctx : VisitContext D Pool) (metadataBatch bodyBatch : ℕ+)
    (outcome : TraversalOutcome Pool) :
    traverse ctx.unlimited metadataBatch bodyBatch (some ctx.visitedPartitions) = .ok outcome ↔
      traverse ctx.unlimited metadataBatch bodyBatch none = .ok outcome := by
  -- batches aside, both are traversals one entry at a time
  have hsingly (visitLimit : Option ℕ) :
      traverse ctx.unlimited metadataBatch bodyBatch visitLimit = .ok outcome ↔
        traverseSingly ctx.unlimited visitLimit = .ok outcome := by
    have hfuel := remaining_seed_le ctx.unlimited visitLimit
    simp only [traverse, traverseSingly, bind_eq_ok, runBatches_eq_ok hfuel hfuel]
  rw [hsingly, hsingly, traverseSingly_retention]

theorem bounded_retention_invisible_line : ∃ outcome,
    traverse (lineVisits 3 1).unlimited 2 2 (some 1) = .ok outcome ∧
    traverse (lineVisits 3 1).unlimited 2 2 none = .ok outcome ∧
    outcome.bodies = [(0, 1)] ∧ outcome.partitionBudgetExhausted = true := by
  obtain ⟨outcome, hok, houtcome⟩ := @exists_ok _ _
    (fun outcome => outcome.bodies = [(0, 1)] ∧ outcome.partitionBudgetExhausted = true)
    (traverse (lineVisits 3 1).unlimited 2 2 none) (by decide +kernel)
  exact ⟨outcome, (bounded_retention_invisible _ 2 2 outcome).mpr hok, hok,
    of_decide_eq_true houtcome⟩

end

end Traverse
