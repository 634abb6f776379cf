/-
Both paths of the construction compute one clustering.

`clusters` divides a group by its sorted list alone: the sample is a prefix of the
rows sorted by hash, the children are slices of the rows sorted by center.  Budgets,
heaps, selections and scratch runs do not occur in it.

* `residentGroup_clusters`, `group_clusters` — **what either path emits is the
  clustering of its rows**;
* `clusters_spec` — the clusters of a group are its rows, each of a size within
  the bounds of its level.
-/
import Ktann.Construction.Workspace

open List (takeWhile_cons getElem_map)

section

variable {Vec Dist : Type} [LinearOrder Dist]

/-! ### The clustering -/

/-- The slices of the given sizes of the rows sorted by a key, each in ID order. -/
def slices (key : Row Vec → ℕ ×ₗ Bytes) (rows : List (Row Vec)) : ℕ → List ℕ → List (List (Row Vec))
  | _, [] => []
  | start, size :: sizes => sortBy Row.id (((sortBy key rows).drop start).take size) ::
      slices key rows (start + size) sizes

/-- The parameters a clustering depends on. -/
structure Clustering (Vec Dist : Type) where
  config : IndexManifest
  kernel : ConstructionKernel Vec Dist
  sampleItems : ℕ

def ConstructionContext.clustering (ctx : ConstructionContext Vec Dist) : Clustering Vec Dist :=
  ⟨ctx.config, ctx.kernel, ctx.options.sampleItems⟩

variable (γ : Clustering Vec Dist)

def Clustering.children (level : ℕ) (centers : List Vec) (rows : List (Row Vec)) :
    List (List (Row Vec)) :=
  slices (groupKey γ.kernel centers) rows 0
    (groupSizes (labelCounts γ.kernel centers rows) (γ.config.minPartitionEntries level))

/-- The clusters of rows in ID order, in the order they are emitted. -/
def clusters (level : ℕ) : ℕ → List (Row Vec) → Except Error (List (List (Row Vec)))
  | 0, _ => .error .corrupt
  | depth + 1, rows =>
    if rows.length ≤ γ.config.maxEntries level then .ok [rows]
    else do
      let centers ← multiCenters γ.kernel γ.config
        ((sortBy (sampleKey γ.kernel) rows).take γ.sampleItems) rows.length level
      let groups ← (γ.children level centers rows).mapM (clusters level depth)
      .ok groups.flatten

/-- What has been emitted: the last key, the plans, and the rows of the parents. -/
structure Emission (Vec : Type) where
  highWater : ℕ
  plans : List (PartitionPlan Vec)
  parents : List (Row Vec)

def Emission.emit (kernel : ConstructionKernel Vec Dist) (level : ℕ) (e : Emission Vec)
    (rows : List (Row Vec)) : Except Error (Emission Vec) := do
  let key ← checkedU64 (max e.highWater 1 + 1)
  let plan ← planPartition kernel level key rows
  .ok ⟨key, e.plans ++ [plan], e.parents ++ [⟨bigEndian 8 key, plan.centroid⟩]⟩

open Emission (emit)

def Workspace.emission (w : Workspace Vec) (parents : ScratchRun Vec) : Emission Vec :=
  ⟨w.report.partitionHighWater, w.plans, parents.rows⟩

/-! ### Runs and emissions -/

variable {ctx : ConstructionContext Vec Dist} {w w' : Workspace Vec}
  {output output' : ScratchRun Vec}
  {level depth : ℕ}

omit [LinearOrder Dist] in
lemma Workspace.append_ok {id : Bytes} {vector : Vec}
    (hok : w.append ctx output id vector = .ok (w', output')) :
    output'.rows = output.rows ++ [⟨id, vector⟩] ∧ w'.plans = w.plans ∧
      w'.report.partitionHighWater = w.report.partitionHighWater := by
  simp only [Workspace.append, bind_eq_ok] at hok
  obtain ⟨_, -, hok⟩ := hok
  split_ifs at hok
  simp only [bind_eq_ok] at hok
  obtain ⟨-, -, _, -, _, -, hok⟩ := hok
  cases hok
  exact ⟨rfl, rfl, rfl⟩

lemma Workspace.remove_ok {run : ScratchRun Vec} (hok : w.remove run = .ok w') :
    w'.plans = w.plans ∧ w'.report.partitionHighWater = w.report.partitionHighWater := by
  rw [Workspace.remove] at hok
  split_ifs at hok
  cases hok
  exact ⟨rfl, rfl⟩

open Workspace (emission remove_ok append_ok)

omit [LinearOrder Dist] in
lemma Workspace.deliver_ok {plan : PartitionPlan Vec} (hok : w.deliver ctx plan = .ok w') :
    w'.plans = w.plans ++ [plan] ∧ w'.report.partitionHighWater = w.report.partitionHighWater := by
  simp only [Workspace.deliver, bind_eq_ok] at hok
  obtain ⟨-, -, _, -, hok⟩ := hok
  cases hok
  exact ⟨rfl, rfl⟩

omit [LinearOrder Dist] in
lemma emitPartition_emit {parents parents' : ScratchRun Vec} {rows : List (Row Vec)}
    (hok : emitPartition ctx w parents level rows = .ok (w', parents')) :
    (w.emission parents).emit ctx.kernel level rows = .ok (w'.emission parents') := by
  simp only [emitPartition, bind_eq_ok] at hok
  obtain ⟨_, hkey, plan, hplan, ⟨_, _⟩, happend, _, hdeliver, hok⟩ := hok
  cases hok
  obtain ⟨hrows, hplans, hwater⟩ := append_ok happend
  obtain ⟨hplans', hwater'⟩ := Workspace.deliver_ok hdeliver
  obtain ⟨-, rfl⟩ := checkedU64_eq_ok.mp hkey
  simp only [emit, bind_eq_ok]
  refine ⟨_, hkey, plan, hplan, ?_⟩
  simp only [emission, hrows, hplans', hwater', hplans, hwater, Except.ok.injEq,
    Emission.mk.injEq, and_true]
  omega

/-! ### Rows in ID order -/

/-- Rows in strict ID order. -/
abbrev Canonical (rows : List (Row Vec)) : Prop := rows.Pairwise fun a b => a.id < b.id

variable {rows child after sample : List (Row Vec)} {sizes ends : List ℕ}
  {s : Workspace Vec × ScratchRun Vec} {kernel : ConstructionKernel Vec Dist} {centers : List Vec}
  {rows' : List (Row Vec)}

lemma Canonical.nodup (h : Canonical rows) : (rows.map Row.id).Nodup := nodup_of_strict h

section

variable (h : (rows.map Row.id).Nodup)

include h

lemma nodup_keyed (label : Row Vec → ℕ) :
    (rows.map fun row => toLex (label row, row.id)).Nodup := by
  rw [List.Nodup, pairwise_map] at h ⊢
  refine h.imp fun hne heq => hne ?_
  have := congrArg (fun k => (ofLex k).2) heq
  exact this

omit [LinearOrder Dist] in
lemma nodup_sampleKey (kernel : ConstructionKernel Vec Dist) :
    (rows.map (sampleKey kernel)).Nodup :=
  nodup_keyed h fun row => kernel.hash row.id

lemma nodup_groupKey (kernel : ConstructionKernel Vec Dist) (centers : List Vec) :
    (rows.map (groupKey kernel centers)).Nodup :=
  nodup_keyed h fun row => nearest kernel centers row.vector

lemma trainCenters_eq {sorted : List (Row Vec)} (hperm : rows.Perm sorted) :
    trainCenters ctx level rows = multiCenters ctx.kernel ctx.config
        ((sortBy (sampleKey ctx.kernel) sorted).take ctx.options.sampleItems)
          sorted.length level := by
  have hkeys := nodup_sampleKey h ctx.kernel
  have hheap : (ctx.unstable.iter (keepSmallest (sampleKey ctx.kernel) ctx.options.sampleItems
      rows)).Perm ((sortBy (sampleKey ctx.kernel) sorted).take ctx.options.sampleItems) := by
    rw [← sortBy_congr hkeys hperm]
    exact (ctx.unstable.iter_perm _).trans (keepSmallest_perm hkeys)
  rw [trainCenters, hperm.length_eq]
  refine multiCenters_perm ctx.kernel ?_ hheap
  have hsub : (((sortBy (sampleKey ctx.kernel) sorted).take ctx.options.sampleItems).map
      Row.id).Sublist ((sortBy (sampleKey ctx.kernel) sorted).map Row.id) :=
    (take_sublist _ _).map _
  have hall : ((sortBy (sampleKey ctx.kernel) sorted).map Row.id).Nodup :=
    (((sortBy_perm _ sorted).trans hperm.symm).map Row.id).nodup_iff.mpr h
  exact (hheap.map Row.id).nodup_iff.mpr (hall.sublist hsub)

end

lemma labelCounts_perm (h : rows.Perm rows') (kernel : ConstructionKernel Vec Dist)
    (centers : List Vec) : labelCounts kernel centers rows = labelCounts kernel centers rows' := by
  simp only [labelCounts, h.countP_eq]

/-! ### The resident path -/

variable {key : Row Vec → ℕ ×ₗ Bytes} {s' : Workspace Vec × ScratchRun Vec}
  {unstable : Unstable (Row Vec)}

lemma cutAll_slices (hkeys : (rows.map key).Nodup) (hids : (rows.map Row.id).Nodup) :
    ∀ {sizes : List ℕ} (start : ℕ) {rest : List (Row Vec)},
      rest.Perm ((sortBy key rows).drop start) →
      (cutAll unstable key sizes rest).map (sortBy Row.id) = slices key rows start sizes := by
  intro sizes
  induction sizes with
  | nil => exact fun _ _ _ => rfl
  | cons count _ ih =>
    intro start rest hrest
    -- What is left is sorted to a tail of the sorted rows.
    have hsub : ((sortBy key rows).drop start).Sublist (sortBy key rows) := List.drop_sublist _ _
    have hrestKeys : (rest.map key).Nodup :=
      (hrest.map key).nodup_iff.mpr ((((sortBy_perm key rows).map key).nodup_iff.mpr hkeys).sublist
        (hsub.map key))
    have hrestIds : (rest.map Row.id).Nodup :=
      (hrest.map Row.id).nodup_iff.mpr ((((sortBy_perm key rows).map Row.id).nodup_iff.mpr
        hids).sublist (hsub.map Row.id))
    have hsorted : sortBy key rest = (sortBy key rows).drop start :=
      sortBy_eq_of_perm hrestKeys ((sortBy_strict hkeys).sublist hsub) hrest
    simp only [cutAll, slices, map_cons]
    generalize hcut : (if count < rest.length then unstable.select key count rest else rest) = cut
    have hperm : cut.Perm rest := by
      rw [← hcut]
      split_ifs
      · exact unstable.select_perm key count rest
      · exact .refl _
    have hsplit : Split key rest (cut.take count) (cut.drop count) := by
      refine ⟨by rw [take_append_drop]; exact hperm, fun a ha b hb => ?_⟩
      have hcutKeys := (hperm.map key).nodup_iff.mpr hrestKeys
      have hne : key a ≠ key b := by
        rw [← take_append_drop count cut, map_append, List.nodup_append] at hcutKeys
        exact hcutKeys.2.2 _ (mem_map_of_mem ha) _ (mem_map_of_mem hb)
      by_cases hlt : count < rest.length
      · rw [if_pos hlt] at hcut
        subst hcut
        exact lt_of_le_of_ne (unstable.select_le key count rest a ha b hb) hne
      · rw [List.drop_eq_nil_of_le (by rw [hperm.length_eq]; omega)] at hb
        cases hb
    have htake := hsplit.perm_take hrestKeys
    have hdrop := hsplit.perm_drop hrestKeys
    rw [length_take, hperm.length_eq, hsorted] at htake hdrop
    congr 1
    · refine sortBy_congr ?_ (htake.trans ?_)
      · exact ((hperm.map Row.id).nodup_iff.mpr hrestIds).sublist ((take_sublist _ _).map _)
      · have hlen : rest.length = ((sortBy key rows).drop start).length := hrest.length_eq
        rw [hlen, ← take_take, List.take_length]
    · refine ih (start + count) (hdrop.trans ?_)
      have hlen : rest.length = ((sortBy key rows).drop start).length := hrest.length_eq
      rcases le_total count rest.length with hle | hle
      · rw [min_eq_left hle, drop_drop]
      · rw [min_eq_right hle, hlen, List.drop_length, List.drop_eq_nil_of_le]
        rw [hlen, length_drop] at hle
        omega

lemma slices_congr (hkeys : (rows.map key).Nodup) (hperm : rows.Perm rows') :
    ∀ {start : ℕ}, slices key rows start sizes = slices key rows' start sizes := by
  induction sizes with
  | nil => exact rfl
  | cons _ _ ih =>
    intro _
    rw [slices, slices, sortBy_congr hkeys hperm, ih]

lemma nodup_cutAll :
    ∀ {rows : List (Row Vec)}, (rows.map Row.id).Nodup → child ∈ cutAll unstable key sizes rows →
      (child.map Row.id).Nodup := by
  induction sizes with
  | nil =>
    intro rows _ hchild
    cases hchild
  | cons count _ ih =>
    intro rows hids hchild
    simp only [cutAll] at hchild
    generalize hcut : (if count < rows.length then unstable.select key count rows else rows) = cut
      at hchild
    have hperm : cut.Perm rows := by
      rw [← hcut]
      split_ifs
      · exact unstable.select_perm key count rows
      · exact .refl _
    have hcutIds := (hperm.map Row.id).nodup_iff.mpr hids
    rcases mem_cons.mp hchild with rfl | hchild
    · exact hcutIds.sublist ((take_sublist _ _).map _)
    · exact ih (hcutIds.sublist ((List.drop_sublist _ _).map _)) hchild

lemma foldlM_clusters {χ : Type} (rowsOf : χ → List (Row Vec))
    {step : Workspace Vec × ScratchRun Vec → χ → DepthResult (Workspace Vec × ScratchRun Vec)}
    {children : List χ} (hstep : ∀ child ∈ children, ∀ s s', step s child = .ok s' →
      ∃ groups, clusters γ level depth (rowsOf child) = .ok groups ∧
        groups.foldlM (emit γ.kernel level) (s.1.emission s.2) = .ok (s'.1.emission s'.2)) :
    ∀ {s s'}, children.foldlM step s = .ok s' →
      ∃ groups, (children.map rowsOf).mapM (clusters γ level depth) = .ok groups ∧
        groups.flatten.foldlM (emit γ.kernel level) (s.1.emission s.2) =
          .ok (s'.1.emission s'.2) := by
  induction children with
  | nil =>
    intro s s' hok
    cases hok
    exact ⟨[], rfl, rfl⟩
  | cons child _ ih =>
    intro s s' hok
    rw [foldlM_cons, bind_eq_ok] at hok
    obtain ⟨s₁, hone, hrest⟩ := hok
    obtain ⟨first, hfirst, hemit⟩ := hstep child mem_cons_self s s₁ hone
    obtain ⟨groups, hgroups, hemits⟩ := ih (fun c hc => hstep c (mem_cons_of_mem _ hc)) hrest
    refine ⟨first :: groups, ?_, ?_⟩
    · rw [map_cons, mapM_cons, hfirst]
      exact bind_eq_ok.mpr ⟨first, rfl, bind_eq_ok.mpr ⟨groups, hgroups, rfl⟩⟩
    · rw [flatten_cons, List.foldlM_append]
      exact bind_eq_ok.mpr ⟨_, hemit, hemits⟩

lemma cutAll_children (hids : (rows.map Row.id).Nodup) :
    (cutAll ctx.unstable (groupKey ctx.kernel centers) (childSizes ctx level centers rows)
      rows).map (sortBy Row.id) = ctx.clustering.children level centers (sortBy Row.id rows) := by
  have hkeys := nodup_groupKey hids ctx.kernel centers
  have hsorted := (sortBy_perm Row.id rows).symm
  rw [Clustering.children, cutAll_slices hkeys hids 0 (sortBy_perm _ rows).symm, childSizes,
    labelCounts_perm hsorted]
  exact slices_congr hkeys hsorted

/-- **The resident path emits the clusters of its rows.** -/
theorem residentGroup_clusters :
    (rows.map Row.id).Nodup → residentGroup ctx level depth s rows = .ok s' →
      ∃ groups, clusters ctx.clustering level depth (sortBy Row.id rows) = .ok groups ∧
        groups.foldlM (emit ctx.kernel level) (s.1.emission s.2) = .ok (s'.1.emission s'.2) := by
  induction depth generalizing rows s s' with
  | zero =>
    intro _ hok
    cases hok
  | succ _ ih =>
    intro hids hok
    simp only [residentGroup] at hok
    simp only [clusters, length_sortBy]
    by_cases hfits : rows.length ≤ ctx.config.maxEntries level
    · rw [if_pos hfits] at hok
      refine ⟨[sortBy Row.id rows], if_pos hfits, ?_⟩
      exact bind_eq_ok.mpr ⟨_, emitPartition_emit (ended_eq_ok.mp hok), rfl⟩
    · rw [if_neg hfits] at hok
      obtain ⟨_, hchildren, hok⟩ := bind_eq_ok.mp hok
      obtain ⟨centers, hcenters, hcut⟩ := bind_eq_ok.mp (ended_eq_ok.mp hchildren)
      cases hcut
      have hsorted := (sortBy_perm Row.id rows).symm
      rw [trainCenters_eq hids hsorted, length_sortBy] at hcenters
      obtain ⟨groups, hgroups, hemits⟩ := foldlM_clusters ctx.clustering (sortBy Row.id)
        (fun child hchild s s' => ih (nodup_cutAll hids hchild)) hok
      rw [cutAll_children hids] at hgroups
      refine ⟨groups.flatten, (if_neg hfits).trans ?_, hemits⟩
      exact bind_eq_ok.mpr ⟨centers, hcenters, bind_eq_ok.mpr ⟨groups, hgroups, rfl⟩⟩

/-! ### The spilled path -/

lemma slices_eq_filter (hkeys : (rows.map key).Nodup) (hrows : Canonical rows) :
    ∀ {start : ℕ}, slices key rows start sizes = (List.range sizes.length).map fun i =>
      rows.filter fun row => start ≤ rank key rows row ∧
        ((childEnds start sizes).takeWhile (· ≤ rank key rows row)).length = i := by
  induction sizes with
  | nil => exact rfl
  | cons size _ ih =>
    intro start
    rw [slices, sortBy_slice hkeys hrows, ih, length_cons, List.range_succ_eq_map,
      map_cons, map_map]
    congr 1
    · refine filter_congr fun row _ => decide_eq_decide.mpr ?_
      by_cases hle : start + size ≤ rank key rows row
      · simp only [childEnds, takeWhile_cons, hle, decide_true, if_true, length_cons]
        omega
      · simp only [childEnds, takeWhile_cons, hle, decide_false, Bool.false_eq_true, if_false,
          length_nil, and_true]
        omega
    · refine List.map_congr_left fun i _ => filter_congr fun row _ => decide_eq_decide.mpr ?_
      by_cases hle : start + size ≤ rank key rows row
      · have hstart : start ≤ rank key rows row := by omega
        simp only [childEnds, takeWhile_cons, hle, hstart, decide_true, if_true,
          length_cons, Nat.succ_eq_add_one, Nat.add_right_cancel_iff]
      · simp only [childEnds, takeWhile_cons, hle, decide_false, Bool.false_eq_true, if_false,
          length_nil, false_and, false_iff]
        omega

lemma countP_or_disjoint {α : Type} {a b : α → Bool} {l : List α}
    (h : ∀ x ∈ l, ¬ (a x = true ∧ b x = true)) :
    l.countP (fun x => a x || b x) = l.countP a + l.countP b := by
  induction l with
  | nil => rfl
  | cons x l ih =>
    have hx := h x mem_cons_self
    rw [countP_cons, countP_cons, countP_cons, ih fun y hy => h y (mem_cons_of_mem _ hy)]
    cases ha : a x <;> cases hb : b x <;> simp_all <;> omega

lemma getD_firstRanks {counts : List ℕ} : ∀ {offset label : ℕ}, label < counts.length →
    (firstRanks offset counts).getD label 0 = offset + (counts.take label).sum := by
  induction counts with
  | nil =>
    intro offset label h
    cases h
  | cons _ _ ih =>
    intro _ label h
    cases label with
    | zero => simp [firstRanks]
    | succ =>
      rw [firstRanks, List.getD_cons_succ, ih (by simpa using h), take_succ_cons, sum_cons]
      omega

lemma length_firstRanks {counts : List ℕ} : ∀ {offset : ℕ},
    (firstRanks offset counts).length = counts.length := by
  induction counts with
  | nil => exact rfl
  | cons _ _ ih =>
    intro _
    rw [firstRanks, length_cons, length_cons, ih]

lemma sum_labelCounts_take : ∀ {label : ℕ}, label ≤ centers.length →
      ((labelCounts kernel centers rows).take label).sum =
        rows.countP fun row => nearest kernel centers row.vector < label := by
  intro label
  induction label with
  | zero => simp
  | succ label ih =>
    intro hle
    have hlt : label < (labelCounts kernel centers rows).length := by
      rw [length_labelCounts]
      omega
    rw [List.sum_take_succ _ _ hlt, ih (by omega)]
    simp only [labelCounts, getElem_map, List.getElem_range]
    rw [← countP_or_disjoint]
    · refine List.countP_congr fun row _ => ?_
      simp only [Bool.or_eq_true, decide_eq_true_eq]
      omega
    · intro _ _
      simp only [decide_eq_true_eq]
      omega

/-- Every row has a center. -/
lemma sum_labelCounts (hne : centers ≠ []) :
    (labelCounts kernel centers rows).sum = rows.length := by
  have hall : ((labelCounts kernel centers rows).take centers.length).sum =
      rows.countP fun row => nearest kernel centers row.vector < centers.length :=
    sum_labelCounts_take le_rfl
  rw [List.take_of_length_le length_labelCounts.le] at hall
  rw [hall, List.countP_eq_length.mpr fun row _ => decide_eq_true
    (nearest_lt kernel hne row.vector)]

/-- The rank of a row in the order of a group: the rows of the centers before its
own, and those of its own center before it in ID order. -/
lemma rank_groupKey {before : List (Row Vec)} {row : Row Vec}
    (hrows : Canonical (before ++ row :: after)) :
    rank (groupKey kernel centers) (before ++ row :: after) row =
      (before ++ row :: after).countP (fun b =>
        nearest kernel centers b.vector < nearest kernel centers row.vector) +
      before.countP fun b =>
        nearest kernel centers b.vector = nearest kernel centers row.vector := by
  obtain ⟨-, hafter, hbefore⟩ := pairwise_append.mp hrows
  have hlow : ∀ b ∈ before, b.id < row.id := fun b hb => hbefore b hb row mem_cons_self
  have hhigh : ∀ b ∈ after, ¬ b.id < row.id := fun b hb =>
    lt_asymm ((pairwise_cons.mp hafter).1 b hb)
  have hlex : ∀ b : Row Vec, (groupKey kernel centers b < groupKey kernel centers row) ↔
      nearest kernel centers b.vector < nearest kernel centers row.vector ∨
        (nearest kernel centers b.vector = nearest kernel centers row.vector ∧ b.id < row.id) :=
    fun b => Prod.Lex.toLex_lt_toLex
  have hsame : (before ++ row :: after).countP (fun b => decide
      (nearest kernel centers b.vector = nearest kernel centers row.vector ∧ b.id < row.id)) =
        before.countP fun b =>
          nearest kernel centers b.vector = nearest kernel centers row.vector := by
    have hnone : after.countP (fun b => decide
        (nearest kernel centers b.vector = nearest kernel centers row.vector ∧
          b.id < row.id)) = 0 :=
      List.countP_eq_zero.mpr fun b hb => by simp [hhigh b hb]
    rw [List.countP_append, countP_cons, hnone]
    simp only [lt_irrefl, and_false, decide_false, Bool.false_eq_true, if_false, add_zero]
    refine List.countP_congr fun b hb => ?_
    simp [hlow b hb]
  rw [rank, ← hsame, ← countP_or_disjoint]
  · refine List.countP_congr fun b _ => ?_
    simp only [decide_eq_true_eq, Bool.or_eq_true]
    exact hlex b
  · intro b _
    simp only [decide_eq_true_eq]
    omega

/-- The child a row of a group falls into by its rank. -/
def childOf (kernel : ConstructionKernel Vec Dist) (centers : List Vec) (ends : List ℕ)
    (rows : List (Row Vec)) (row : Row Vec) : ℕ :=
  (ends.takeWhile (· ≤ rank (groupKey kernel centers) rows row)).length

/-- What a scatter has done after the rows `before`: every center's next rank, and
the rows of every child. -/
structure Scattered (kernel : ConstructionKernel Vec Dist) (centers : List Vec) (ends : List ℕ)
    (rows before : List (Row Vec)) (ranks : List ℕ) (outputs : List (ScratchRun Vec)) : Prop where
  length : ranks.length = centers.length
  next : ∀ label < centers.length, ranks.getD label 0 =
    rows.countP (fun row => nearest kernel centers row.vector < label) +
      before.countP fun row => nearest kernel centers row.vector = label
  child : ∀ i output, outputs[i]? = some output →
    output.rows = before.filter fun row => childOf kernel centers ends rows row = i

lemma Scattered.step {before : List (Row Vec)} {row : Row Vec} {ranks : List ℕ}
    {outputs : List (ScratchRun Vec)} {output output' : ScratchRun Vec} {child : ℕ}
    (hsplit : rows = before ++ row :: after) (hrows : Canonical rows) (hcenters : centers ≠ [])
    (h : Scattered kernel centers ends rows before ranks outputs) (hchild : child =
      (ends.takeWhile (· ≤ ranks.getD (nearest kernel centers row.vector) 0)).length)
    (houtput : outputs[child]? = some output) (happend : output'.rows = output.rows ++ [row]) :
    Scattered kernel centers ends rows (before ++ [row])
      (ranks.set (nearest kernel centers row.vector)
        (ranks.getD (nearest kernel centers row.vector) 0 + 1)) (outputs.set child output') := by
  have hlabel := nearest_lt kernel hcenters row.vector
  have hown : childOf kernel centers ends rows row = child := by
    rw [hchild, childOf, h.next _ hlabel, hsplit, rank_groupKey (hsplit ▸ hrows)]
  have hlt := (getElem?_eq_some_iff.mp houtput).1
  refine ⟨by rw [List.length_set, h.length], fun label hlt => ?_, fun i o ho => ?_⟩
  · have hcount : (before ++ [row]).countP (fun row => nearest kernel centers row.vector = label) =
        before.countP (fun row => nearest kernel centers row.vector = label) +
          if nearest kernel centers row.vector = label then 1 else 0 := by
      rw [List.countP_append, List.countP_singleton]
      simp only [decide_eq_true_eq]
    rw [hcount, ← Nat.add_assoc, ← h.next label hlt, List.getD_eq_getElem?_getD, List.getElem?_set,
      h.length]
    by_cases heq : nearest kernel centers row.vector = label
    · subst heq
      simp [hlabel]
    · simp [heq]
  · rw [filter_append, List.filter_singleton]
    rw [List.getElem?_set] at ho
    by_cases heq : child = i
    · subst heq
      rw [if_pos rfl, if_pos hlt, Option.some.injEq] at ho
      rw [← ho, happend, h.child child output houtput]
      simp [hown]
    · rw [if_neg heq] at ho
      rw [h.child i o ho]
      simp [hown, heq]

lemma scatter_ok (hrows : Canonical rows) (hcenters : centers ≠ []) :
    ∀ {before : List (Row Vec)} {ranks : List ℕ} {w w' : Workspace Vec}
      {outputs outputs' : List (ScratchRun Vec)}, rows = before ++ after →
      Scattered ctx.kernel centers ends rows before ranks outputs →
      scatter ctx centers ends after ranks (w, outputs) = .ok (w', outputs') →
      w'.plans = w.plans ∧ w'.report.partitionHighWater = w.report.partitionHighWater ∧
        outputs'.length = outputs.length ∧ ∀ i output, outputs'[i]? = some output →
          output.rows = rows.filter fun row => childOf ctx.kernel centers ends rows row = i := by
  induction after with
  | nil =>
    intro before ranks w w' outputs outputs' hsplit h hok
    cases hok
    rw [append_nil] at hsplit
    exact ⟨rfl, rfl, rfl, hsplit ▸ h.child⟩
  | cons _ _ ih =>
    intro _ _ w w' _ _ hsplit h hok
    simp only [scatter] at hok
    split at hok
    · cases hok
    · rename_i output houtput
      obtain ⟨⟨_, _⟩, happend, hok⟩ := bind_eq_ok.mp hok
      obtain ⟨hoRows, hplans, hwater⟩ := append_ok happend
      obtain ⟨hplans', hwater', hlength, hchildren⟩ := ih (by rw [hsplit]; simp)
        (h.step hsplit hrows hcenters rfl houtput hoRows) hok
      rw [List.length_set] at hlength
      exact ⟨hplans'.trans hplans, hwater'.trans hwater, hlength, hchildren⟩

lemma scattered_nil : Scattered kernel centers ends rows []
      (firstRanks 0 (labelCounts kernel centers rows)) (centers.map fun _ => ⟨[], 0⟩) := by
  refine ⟨length_firstRanks.trans length_labelCounts, fun label hlt => ?_,
    fun i output houtput => ?_⟩
  · rw [getD_firstRanks (by rw [length_labelCounts]; exact hlt), sum_labelCounts_take hlt.le]
    simp
  · rw [List.getElem?_map, map_eq_some_iff] at houtput
    obtain ⟨_, -, rfl⟩ := houtput
    rfl

lemma childSizes_spec {γ : Clustering Vec Dist} (hlarge : γ.config.maxEntries level < rows.length)
    (hok : multiCenters γ.kernel γ.config sample rows.length level = .ok centers) :
    centers ≠ [] ∧ (groupSizes (labelCounts γ.kernel centers rows)
        (γ.config.minPartitionEntries level)).length = centers.length ∧
      (groupSizes (labelCounts γ.kernel centers rows)
        (γ.config.minPartitionEntries level)).sum = rows.length ∧
      (∀ size ∈ groupSizes (labelCounts γ.kernel centers rows) (γ.config.minPartitionEntries level),
        γ.config.minPartitionEntries level ≤ size ∧ size < rows.length) ∧
      ClampsOrdered rows.length (γ.config.minPartitionEntries level)
        (rows.length - (rows.length + 3) / 4) (labelCounts γ.kernel centers rows) 0 0 := by
  have hcount := length_multiCenters γ.kernel hok
  obtain ⟨htwo, hroom⟩ := hcount ▸ centerCount_spec sample.length hlarge
  have hne : centers ≠ [] := by
    rintro rfl
    simp at htwo
  have hlength : (labelCounts γ.kernel centers rows).length = centers.length := length_labelCounts
  have hsum : (labelCounts γ.kernel centers rows).sum = rows.length := sum_labelCounts hne
  obtain ⟨h₁, h₂, h₃, h₄⟩ := groupSizes_spec (γ.config.entries_bounds level).1
    (hlength ▸ htwo) (by rw [hlength, hsum]; exact hroom)
  rw [hsum] at h₂ h₃ h₄
  exact ⟨hne, h₁.trans hlength, h₂, h₃, h₄⟩

lemma scatter_children {runs : List (ScratchRun Vec)} (hrows : Canonical rows)
    (hlarge : ctx.config.maxEntries level < rows.length)
    (hcenters : multiCenters ctx.kernel ctx.config sample rows.length level = .ok centers)
    (hok : scatter ctx centers (childEnds 0 (childSizes ctx level centers rows)) rows
      (firstRanks 0 (labelCounts ctx.kernel centers rows)) (w, centers.map fun _ => ⟨[], 0⟩) =
        .ok (w', runs)) :
    w'.plans = w.plans ∧ w'.report.partitionHighWater = w.report.partitionHighWater ∧
      runs.map ScratchRun.rows = ctx.clustering.children level centers rows := by
  obtain ⟨hne, hsizes, -, -⟩ := childSizes_spec (γ := ctx.clustering) hlarge hcenters
  obtain ⟨hplans, hwater, hlength, hruns⟩ :=
    scatter_ok hrows hne (nil_append rows).symm scattered_nil hok
  rw [length_map] at hlength
  refine ⟨hplans, hwater, ?_⟩
  rw [Clustering.children, slices_eq_filter (nodup_groupKey hrows.nodup _ centers) hrows, hsizes]
  refine List.ext_getElem (by simp [hlength]) fun i hi hi' => ?_
  rw [length_map] at hi
  rw [getElem_map, getElem_map, List.getElem_range, hruns i runs[i] (getElem?_eq_getElem hi)]
  refine filter_congr fun row _ => decide_eq_decide.mpr ?_
  exact (and_iff_right (Nat.zero_le _)).symm

lemma canonical_children {γ : Clustering Vec Dist} (hrows : Canonical rows)
    (hchild : child ∈ γ.children level centers rows) : Canonical child := by
  rw [Clustering.children, slices_eq_filter (nodup_groupKey hrows.nodup _ centers) hrows,
    mem_map] at hchild
  obtain ⟨i, -, rfl⟩ := hchild
  exact hrows.filter _

/-- **Either path emits the clusters of its run.** -/
theorem group_clusters {input : ScratchRun Vec} :
    Canonical input.rows → group ctx level depth s input = .ok s' →
      ∃ groups, clusters ctx.clustering level depth input.rows = .ok groups ∧
        groups.foldlM (emit ctx.kernel level) (s.1.emission s.2) = .ok (s'.1.emission s'.2) := by
  induction depth generalizing input s s' with
  | zero =>
    intro _ hok
    cases hok
  | succ _ ih =>
    intro hrows hok
    simp only [group] at hok
    by_cases hresident : input.rows.length ≤ ctx.residentRows
    · rw [if_pos hresident] at hok
      obtain ⟨w, hremove, hok⟩ := bind_eq_ok.mp hok
      obtain ⟨groups, hgroups, hemits⟩ := residentGroup_clusters hrows.nodup hok
      obtain ⟨hplans, hwater⟩ := remove_ok (ended_eq_ok.mp hremove)
      rw [sortBy_eq_self hrows] at hgroups
      refine ⟨groups, hgroups, ?_⟩
      rwa [show emission w s.2 = s.1.emission s.2 by
        simp only [emission, hplans, hwater]] at hemits
    rw [if_neg hresident] at hok
    simp only [clusters]
    by_cases hfits : input.rows.length ≤ ctx.config.maxEntries level
    · rw [if_pos hfits] at hok
      obtain ⟨⟨w, _⟩, hemit, hok⟩ := bind_eq_ok.mp (ended_eq_ok.mp hok)
      obtain ⟨w', hremove, hok⟩ := bind_eq_ok.mp hok
      cases hok
      obtain ⟨hplans, hwater⟩ := remove_ok hremove
      refine ⟨[input.rows], if_pos hfits, bind_eq_ok.mpr ⟨_, emitPartition_emit hemit, ?_⟩⟩
      simp only [emission, hplans, hwater]
      rfl
    · rw [if_neg hfits] at hok
      obtain ⟨_, hchildren, hok⟩ := bind_eq_ok.mp hok
      obtain ⟨centers, hcenters, hchildren⟩ := bind_eq_ok.mp (ended_eq_ok.mp hchildren)
      obtain ⟨⟨w, runs⟩, hscatter, hchildren⟩ := bind_eq_ok.mp hchildren
      obtain ⟨w', hremove, hchildren⟩ := bind_eq_ok.mp hchildren
      cases hchildren
      rw [trainCenters_eq hrows.nodup (.refl _)] at hcenters
      obtain ⟨hplans, hwater, hruns⟩ := scatter_children hrows (not_le.mp hfits) hcenters hscatter
      obtain ⟨hplans', hwater'⟩ := remove_ok hremove
      have hchildren : ∀ run ∈ runs, Canonical run.rows := fun run hrun =>
        canonical_children hrows (hruns ▸ mem_map_of_mem hrun)
      obtain ⟨groups, hgroups, hemits⟩ := foldlM_clusters ctx.clustering ScratchRun.rows
        (fun run hrun s s' => ih (hchildren run hrun)) hok
      rw [hruns] at hgroups
      refine ⟨groups.flatten, (if_neg hfits).trans ?_, ?_⟩
      · exact bind_eq_ok.mpr ⟨centers, hcenters, bind_eq_ok.mpr ⟨groups, hgroups, rfl⟩⟩
      · rwa [show emission w' s.2 = s.1.emission s.2 by
          simp only [emission, hplans, hwater, hplans', hwater']] at hemits

/-! ### The clusters of a group -/

lemma slices_spec (key : Row Vec → ℕ ×ₗ Bytes) : ∀ start : ℕ, start + sizes.sum = rows.length →
      (slices key rows start sizes).flatten.Perm ((sortBy key rows).drop start) ∧
        (slices key rows start sizes).map List.length = sizes := by
  induction sizes with
  | nil =>
    intro start hsum
    rw [List.sum_nil, add_zero] at hsum
    rw [List.drop_eq_nil_of_le (by rw [length_sortBy]; omega)]
    exact ⟨.nil, rfl⟩
  | cons size sizes ih =>
    intro start hsum
    rw [sum_cons, ← Nat.add_assoc] at hsum
    obtain ⟨hperm, hlengths⟩ := ih _ hsum
    rw [slices, flatten_cons, map_cons, hlengths, length_sortBy, length_take,
      length_drop, length_sortBy]
    refine ⟨?_, by congr 1; omega⟩
    calc (sortBy Row.id (((sortBy key rows).drop start).take size) ++
            (slices key rows (start + size) sizes).flatten).Perm
          (((sortBy key rows).drop start).take size ++ (sortBy key rows).drop (start + size)) :=
            (sortBy_perm Row.id _).append hperm
      _ = (sortBy key rows).drop start := by
        rw [← drop_drop, take_append_drop]

structure Clustered (config : IndexManifest) (level : ℕ) (rows : List (Row Vec))
    (groups : List (List (Row Vec))) : Prop where
  cover : groups.flatten.Perm rows
  canonical : ∀ group ∈ groups, Canonical group
  maximum : ∀ group ∈ groups, group.length ≤ config.maxEntries level
  minimum : ∀ group ∈ groups, config.minPartitionEntries level ≤ group.length

lemma clustered_flatten {config : IndexManifest} {children : List (List (Row Vec))}
    {groups : List (List (List (Row Vec)))}
    (h : List.Forall₂ (Clustered config level) children groups) :
    Clustered config level children.flatten groups.flatten := by
  induction h with
  | nil => exact ⟨.nil, by simp, by simp, by simp⟩
  | cons hone _ ih =>
    rw [flatten_cons, flatten_cons]
    refine ⟨?_, ?_, ?_, ?_⟩
    · rw [List.flatten_append]
      exact hone.cover.append ih.cover
    all_goals
      intro group hgroup
      rcases mem_append.mp hgroup with hgroup | hgroup
    · exact hone.canonical group hgroup
    · exact ih.canonical group hgroup
    · exact hone.maximum group hgroup
    · exact ih.maximum group hgroup
    · exact hone.minimum group hgroup
    · exact ih.minimum group hgroup

/-- **The clusters of enough rows are their rows**, each within the bounds of its level. -/
theorem clusters_spec {γ : Clustering Vec Dist} {groups : List (List (Row Vec))} : Canonical rows →
      γ.config.minPartitionEntries level ≤ rows.length → clusters γ level depth rows = .ok groups →
      Clustered γ.config level rows groups := by
  induction depth generalizing rows groups with
  | zero =>
    intro _ _ hok
    cases hok
  | succ _ ih =>
    intro hrows hleast hok
    simp only [clusters] at hok
    by_cases hfits : rows.length ≤ γ.config.maxEntries level
    · rw [if_pos hfits] at hok
      cases hok
      exact ⟨by simp, by simpa using hrows, by simpa using hfits, by simpa using hleast⟩
    · rw [if_neg hfits] at hok
      obtain ⟨centers, hcenters, hok⟩ := bind_eq_ok.mp hok
      obtain ⟨parts, hparts, hok⟩ := bind_eq_ok.mp hok
      cases hok
      obtain ⟨-, hlength, hsum, hsizes, -⟩ := childSizes_spec (not_le.mp hfits) hcenters
      obtain ⟨hperm, hlengths⟩ := slices_spec (groupKey γ.kernel centers) 0
        ((Nat.zero_add _).trans hsum)
      have hchildren : ∀ child ∈ γ.children level centers rows,
          γ.config.minPartitionEntries level ≤ child.length := fun child hchild =>
        (hsizes _ (hlengths ▸ mem_map_of_mem hchild)).1
      have hall : List.Forall₂ (Clustered γ.config level)
        (γ.children level centers rows) parts := by
        refine ((List.forall₂_and_left _ _).mpr ⟨fun _ h => h, mapM_eq_ok.mp hparts⟩).imp ?_
        rintro child _ ⟨hchild, hpart⟩
        exact ih (canonical_children hrows hchild) (hchildren child hchild) hpart
      have hflat := clustered_flatten hall
      exact ⟨hflat.cover.trans (hperm.trans (sortBy_perm _ rows)), hflat.canonical, hflat.maximum,
        hflat.minimum⟩

end
