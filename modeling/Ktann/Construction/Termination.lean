/-
A construction ends.

A group that is too large for one partition is cut into two children or more, none of
them empty and fewer than its rows; a level therefore hands fewer rows to the next
one.  No order of the rows is assumed here, nor that their IDs are distinct.

* `divides_resident`, `divides_scattered` — either path cuts children of the computed sizes;
* `construction_ends` — **every recursion receives fewer rows, and every level leaves
  fewer, so that no depth runs out**.
-/
import Ktann.Construction.Tree

section

variable {Vec Dist : Type} [LinearOrder Dist] {ctx : ConstructionContext Vec Dist}
  {level depth n i : ℕ} {rows : List (Row Vec)} {centers : List Vec} {sizes ends : List ℕ}
  {s s' : Workspace Vec × ScratchRun Vec} {input : ScratchRun Vec}

/-! ### Sizes -/

/-- Sizes of two or more children, none of them empty and one with two rows. -/
structure Divides (n : ℕ) (sizes : List ℕ) : Prop where
  two : 2 ≤ sizes.length
  fewer : sizes.length < n
  sum : sizes.sum = n
  bounds : ∀ size ∈ sizes, 1 ≤ size ∧ size < n

lemma divides_childSizes (hlarge : ctx.config.maxEntries level < rows.length)
    (hcenters : trainCenters ctx level rows = .ok centers) :
    Divides rows.length (childSizes ctx level centers rows) := by
  obtain ⟨-, hlength, hsum, hsizes, -⟩ : _ ∧ (childSizes ctx level centers rows).length = _ ∧ _ :=
    childSizes_spec (γ := ctx.clustering) hlarge hcenters
  obtain ⟨hpos, hdouble⟩ := ctx.config.entries_bounds level
  have hcount := length_multiCenters ctx.kernel hcenters
  have htwo := (centerCount_spec (ctx.unstable.iter (keepSmallest (sampleKey ctx.kernel)
    ctx.options.sampleItems rows)).length hlarge).1
  refine ⟨by omega, ?_, hsum, fun size hsize => (hsizes size hsize).imp_left hpos.trans⟩
  have hceil : (rows.length + (ctx.config.maxEntries level - 1)) / ctx.config.maxEntries level <
      rows.length := by
    rw [Nat.div_lt_iff_lt_mul (by omega)]
    calc rows.length + (ctx.config.maxEntries level - 1) < rows.length * 2 := by omega
      _ ≤ rows.length * ctx.config.maxEntries level := Nat.mul_le_mul_left _ (by omega)
  rw [hlength, hcount, centerCount]
  omega

lemma cutAll_lengths {unstable : Unstable (Row Vec)} {key : Row Vec → ℕ ×ₗ Bytes} :
    ∀ {rest : List (Row Vec)}, sizes.sum = rest.length →
      (cutAll unstable key sizes rest).map List.length = sizes := by
  induction sizes with
  | nil => exact fun _ => rfl
  | cons size _ ih =>
    intro rest hsum
    rw [sum_cons] at hsum
    have hlength : (if size < rest.length then unstable.select key size rest else rest).length =
        rest.length := by
      split_ifs
      · exact (unstable.select_perm key size rest).length_eq
      · rfl
    rw [cutAll, map_cons, length_take, hlength, ih (by rw [length_drop, hlength]; omega)]
    congr 1
    omega

lemma divides_resident {children : List (List (Row Vec))}
    (hlarge : ctx.config.maxEntries level < rows.length)
    (hok : residentChildren ctx level rows = .ok children) :
    Divides rows.length (children.map List.length) := by
  obtain ⟨_, hcenters, hok⟩ := bind_eq_ok.mp hok
  cases hok
  have h := divides_childSizes hlarge hcenters
  rwa [cutAll_lengths h.sum]

/-! ### Scattered rows -/

/-- How many of some ranks fall into a child. -/
def ranksIn (ends : List ℕ) (i first count : ℕ) : ℕ :=
  (List.range' first count).countP fun rank => (ends.takeWhile (· ≤ rank)).length = i

lemma ranksIn_childEnds : ∀ {start i : ℕ},
    ranksIn (childEnds start sizes) i start sizes.sum = sizes.getD i 0 := by
  induction sizes with
  | nil => simp [ranksIn]
  | cons size sizes ih =>
    intro start i
    have hfirst : (List.range' start size).countP (fun rank =>
        ((childEnds start (size :: sizes)).takeWhile (· ≤ rank)).length = i) =
          if i = 0 then size else 0 := by
      rw [List.countP_congr (q := fun _ => decide (i = 0)) fun rank hrank => by
        rw [List.mem_range'_1] at hrank
        simp [childEnds, not_le.mpr hrank.2, eq_comm]]
      split_ifs with h <;> simp [h]
    have hrest : (List.range' (start + size) sizes.sum).countP (fun rank =>
        ((childEnds start (size :: sizes)).takeWhile (· ≤ rank)).length = i) =
          if i = 0 then 0 else ranksIn (childEnds (start + size) sizes) (i - 1) (start + size)
            sizes.sum := by
      rw [List.countP_congr (q := fun rank => decide
        (((childEnds (start + size) sizes).takeWhile (· ≤ rank)).length + 1 = i))
          fun rank hrank => by
          rw [List.mem_range'_1] at hrank
          simp [childEnds, hrank.1]]
      cases i <;> simp [ranksIn]
    rw [ranksIn, sum_cons, ← List.range'_append_1, List.countP_append, hfirst, hrest]
    cases i with
    | zero => simp
    | succ i => simp [ih]

/-- Every center has the ranks after those of the centers before it. -/
lemma sum_ranksIn {counts : List ℕ} : ∀ {k : ℕ}, k ≤ counts.length →
    ∑ label ∈ Finset.range k, ranksIn ends i ((firstRanks 0 counts).getD label 0)
      (counts.getD label 0) = ranksIn ends i 0 (counts.take k).sum := by
  intro k
  induction k with
  | zero => simp [ranksIn]
  | succ k ih =>
    intro hk
    have hget : counts.getD k 0 = counts[k] := List.getD_eq_getElem _ _ hk
    rw [Finset.sum_range_succ, ih (by omega), getD_firstRanks (by omega), hget,
      List.sum_take_succ _ _ hk, ranksIn, ranksIn, ranksIn, ← List.countP_append, Nat.zero_add,
      ← List.range'_append_1, Nat.zero_add]

lemma getD_labelCounts {kernel : ConstructionKernel Vec Dist} {label : ℕ}
    (h : label < centers.length) : (labelCounts kernel centers rows).getD label 0 =
      rows.countP fun row => nearest kernel centers row.vector = label := by
  simp [labelCounts, h]

/-- A scatter gives every row the next rank of its center. -/
lemma scatter_counts (hcenters : centers ≠ []) : ∀ {ranks : List ℕ} {w w' : Workspace Vec}
    {outputs outputs' : List (ScratchRun Vec)}, ranks.length = centers.length →
      scatter ctx centers ends rows ranks (w, outputs) = .ok (w', outputs') →
      w'.plans = w.plans ∧ ∀ i, outputs'[i]?.map (fun run => run.rows.length) =
        outputs[i]?.map fun run => run.rows.length + ∑ label ∈ Finset.range centers.length,
          ranksIn ends i (ranks.getD label 0)
            (rows.countP fun row => nearest ctx.kernel centers row.vector = label) := by
  induction rows with
  | nil =>
    intro ranks w w' outputs outputs' _ hok
    cases hok
    exact ⟨rfl, fun i => by simp [ranksIn]⟩
  | cons row rest ih =>
    intro ranks w w' _ _ hlength hok
    simp only [scatter] at hok
    split at hok
    · cases hok
    rename_i output houtput
    obtain ⟨⟨_, _⟩, happend, hok⟩ := bind_eq_ok.mp hok
    obtain ⟨hrows, hplans, -⟩ := Workspace.append_ok happend
    obtain ⟨hplans', hcounts⟩ := ih (by rw [List.length_set, hlength]) hok
    refine ⟨hplans'.trans hplans, fun i => (hcounts i).trans ?_⟩
    have hlabel := nearest_lt ctx.kernel hcenters row.vector
    simp only [countP_cons, decide_eq_true_eq]
    generalize nearest ctx.kernel centers row.vector = own at *
    generalize hchild : (ends.takeWhile (· ≤ ranks.getD own 0)).length = child at *
    -- Only the row's own center changes, by the rank it gives.
    have hsum : ∑ label ∈ Finset.range centers.length, ranksIn ends i (ranks.getD label 0)
        ((rest.countP fun row => nearest ctx.kernel centers row.vector = label) +
          if own = label then 1 else 0) = (if child = i then 1 else 0) +
        ∑ label ∈ Finset.range centers.length,
          ranksIn ends i ((ranks.set own (ranks.getD own 0 + 1)).getD label 0)
            (rest.countP fun row => nearest ctx.kernel centers row.vector = label) := by
      have hmem := Finset.mem_range.mpr hlabel
      rw [← Finset.add_sum_erase _ _ hmem, ← Finset.add_sum_erase _ _ hmem, ← Nat.add_assoc]
      congr 1
      · have hset : (ranks.set own (ranks.getD own 0 + 1)).getD own 0 = ranks.getD own 0 + 1 := by
          simp [hlength, hlabel]
        rw [if_pos rfl, ranksIn, List.range'_succ, countP_cons, Nat.add_comm, ranksIn, hset, hchild]
        simp only [decide_eq_true_eq]
      · refine Finset.sum_congr rfl fun label hne => ?_
        rw [if_neg (Finset.ne_of_mem_erase hne).symm, Nat.add_zero, List.getD_eq_getElem?_getD,
          List.getD_eq_getElem?_getD, List.getElem?_set_ne (Finset.ne_of_mem_erase hne).symm]
    rw [hsum, List.getElem?_set]
    by_cases heq : child = i
    · subst heq
      rw [if_pos rfl, if_pos (getElem?_eq_some_iff.mp houtput).1, houtput, map_some, map_some,
        hrows, length_append, if_pos rfl]
      exact congrArg some (Nat.add_assoc _ _ _)
    · simp [heq]

/-- Scattered runs have the computed sizes as well. -/
lemma divides_scattered {w w' : Workspace Vec} {runs : List (ScratchRun Vec)}
    (hlarge : ctx.config.maxEntries level < input.rows.length)
    (hok : scatteredChildren ctx w level input = .ok (w', runs)) :
    w'.plans = w.plans ∧ Divides input.rows.length (runs.map fun run => run.rows.length) := by
  obtain ⟨centers, hcenters, hok⟩ := bind_eq_ok.mp hok
  obtain ⟨⟨_, _⟩, hscatter, hok⟩ := bind_eq_ok.mp hok
  obtain ⟨_, hremove, hok⟩ := bind_eq_ok.mp hok
  cases hok
  obtain ⟨hne, hlength, hsum, -⟩ : _ ∧ (childSizes ctx level centers input.rows).length = _ ∧
      (childSizes ctx level centers input.rows).sum = _ ∧ _ :=
    childSizes_spec (γ := ctx.clustering) hlarge hcenters
  obtain ⟨hplans, hcounts⟩ :=
    scatter_counts hne (length_firstRanks.trans length_labelCounts) hscatter
  refine ⟨(Workspace.remove_ok hremove).1.trans hplans, ?_⟩
  convert divides_childSizes hlarge hcenters
  refine List.ext_getElem? fun i => ?_
  have hall : _ = ranksIn (childEnds 0 (childSizes ctx level centers input.rows)) i 0
      ((labelCounts ctx.kernel centers input.rows).take centers.length).sum :=
    sum_ranksIn length_labelCounts.ge
  rw [List.take_of_length_le length_labelCounts.le, sum_labelCounts hne, ← hsum, ranksIn_childEnds,
    Finset.sum_congr rfl fun label hlabel => by
      rw [getD_labelCounts (Finset.mem_range.mp hlabel)]] at hall
  rw [List.getElem?_map, hcounts, hall, List.getElem?_map]
  by_cases hi : i < centers.length
  · simp [hi, hlength]
  · simp [not_lt.mp hi, hlength]

/-! ### Emitted partitions -/

/-- So many partitions have been emitted, each with a row of its parent. -/
structure Emitted (s s' : Workspace Vec × ScratchRun Vec) (k : ℕ) : Prop where
  plans : s'.1.plans.length = s.1.plans.length + k
  parents : s'.2.rows.length = s.2.rows.length + k

omit [LinearOrder Dist] in
lemma emitted_emitPartition (hok : emitPartition ctx s.1 s.2 level rows = .ok s') :
    Emitted s s' 1 := by
  obtain ⟨w', parents⟩ := s'
  have hemit := emitPartition_emit hok
  simp only [Emission.emit, bind_eq_ok] at hemit
  obtain ⟨key, -, plan, -, hemit⟩ := hemit
  have hplans : w'.plans = s.1.plans ++ [plan] :=
    (congrArg Emission.plans (Except.ok.inj hemit)).symm
  have hparents : parents.rows = s.2.rows ++ [⟨bigEndian 8 key, plan.centroid⟩] :=
    (congrArg Emission.parents (Except.ok.inj hemit)).symm
  exact ⟨by simp [hplans], by simp [hparents]⟩

/-- A group of `n` rows emits `k` partitions: more than one if one does not hold them,
and fewer than its rows if it has two. -/
structure Reduces (most n k : ℕ) : Prop where
  pos : 1 ≤ k
  two : most < n → 2 ≤ k
  fewer : k ≤ max 1 (n - 1)

lemma Reduces.one {most : ℕ} (h : n ≤ most) : Reduces most n 1 :=
  ⟨le_rfl, fun hlarge => absurd h (not_le.mpr hlarge), le_max_left _ _⟩

lemma sum_fewer : ∀ {sizes : List ℕ}, (∀ size ∈ sizes, 1 ≤ size) →
    (sizes.map fun size => max 1 (size - 1)).sum ≤ sizes.sum ∧
      (sizes.length < sizes.sum → (sizes.map fun size => max 1 (size - 1)).sum < sizes.sum)
  | [], _ => by simp
  | size :: _, h => by
    obtain ⟨hsize, h⟩ := forall_mem_cons.mp h
    have ih := sum_fewer h
    simp only [map_cons, sum_cons, length_cons]
    omega

section

variable {χ : Type} {size : χ → ℕ} {children : List χ} {most : ℕ}
  {f : Workspace Vec × ScratchRun Vec → χ → DepthResult (Workspace Vec × ScratchRun Vec)}
  (h : ∀ child ∈ children, ∀ s s', f s child = .ok s' →
    ∃ k, Emitted s s' k ∧ Reduces most (size child) k)
include h

/-- The partitions of the children are those of the group. -/
lemma emitted_foldlM : ∀ {s s'}, children.foldlM f s = .ok s' →
    ∃ k, Emitted s s' k ∧ children.length ≤ k ∧
      k ≤ ((children.map size).map fun n => max 1 (n - 1)).sum := by
  induction children with
  | nil =>
    intro s s' hok
    cases hok
    exact ⟨0, ⟨rfl, rfl⟩, by simp, by simp⟩
  | cons child _ ih =>
    intro s s' hok
    rw [foldlM_cons] at hok
    obtain ⟨_, hfirst, hok⟩ := bind_eq_ok.mp hok
    obtain ⟨k, hk, hreduces⟩ := h child mem_cons_self _ _ hfirst
    obtain ⟨k', hk', hlength, hsum⟩ := ih (fun c hc => h c (mem_cons_of_mem _ hc)) hok
    have hpos := hreduces.pos
    have hfewer := hreduces.fewer
    refine ⟨k + k', ⟨?_, ?_⟩, ?_, ?_⟩
    · rw [hk'.plans, hk.plans, Nat.add_assoc]
    · rw [hk'.parents, hk.parents, Nat.add_assoc]
    · rw [length_cons]
      omega
    · simp only [map_cons, sum_cons]
      omega

lemma emitted_divided (hdivides : Divides n (children.map size))
    (hok : children.foldlM f s = .ok s') : ∃ k, Emitted s s' k ∧ Reduces most n k := by
  obtain ⟨k, hk, hlength, hsum⟩ := emitted_foldlM h hok
  have htwo := hdivides.two
  rw [length_map] at htwo
  have hfewer := (sum_fewer fun size hsize => (hdivides.bounds size hsize).1).2
    (hdivides.sum ▸ hdivides.fewer)
  rw [hdivides.sum] at hfewer
  exact ⟨k, hk, by omega, fun _ => by omega, by omega⟩

end

/-- A depth of the number of rows is enough, and what it emits reduces them. -/
lemma residentGroup_ends (hpos : 1 ≤ rows.length) :
    (rows.length ≤ depth → residentGroup ctx level depth s rows ≠ .error none) ∧
    ∀ s', residentGroup ctx level depth s rows = .ok s' →
      ∃ k, Emitted s s' k ∧ Reduces (ctx.config.maxEntries level) rows.length k := by
  induction depth generalizing rows s with
  | zero => exact ⟨fun hle => by omega, fun s' hok => by cases hok⟩
  | succ _ ih =>
    rw [residentGroup]
    split_ifs with hfits
    · exact ⟨fun _ => ended_ne_none, fun s' hok =>
        ⟨1, emitted_emitPartition (ended_eq_ok.mp hok), .one hfits⟩⟩
    refine ⟨fun hle => bind_ne_none ended_ne_none fun children hchildren =>
      foldlM_ne_none fun child hchild s => ?_, fun s' hok => ?_⟩
    · have hlength := (divides_resident (not_le.mp hfits) (ended_eq_ok.mp hchildren)).bounds _
        (mem_map_of_mem hchild)
      exact (ih hlength.1).1 (by omega)
    · obtain ⟨_, hchildren, hok⟩ := bind_eq_ok.mp hok
      have hdivides := divides_resident (not_le.mp hfits) (ended_eq_ok.mp hchildren)
      exact emitted_divided (fun child hchild s =>
        (ih (hdivides.bounds _ (mem_map_of_mem hchild)).1).2) hdivides hok

lemma group_ends (hpos : 1 ≤ input.rows.length) :
    (input.rows.length ≤ depth → group ctx level depth s input ≠ .error none) ∧
    ∀ s', group ctx level depth s input = .ok s' →
      ∃ k, Emitted s s' k ∧ Reduces (ctx.config.maxEntries level) input.rows.length k := by
  induction depth generalizing input s with
  | zero => exact ⟨fun hle => by omega, fun s' hok => by cases hok⟩
  | succ _ ih =>
    rw [group]
    split_ifs with hresident hfits
    · refine ⟨fun hle => bind_ne_none ended_ne_none fun w _ => (residentGroup_ends hpos).1 hle,
        fun s' hok => ?_⟩
      obtain ⟨w, hremove, hok⟩ := bind_eq_ok.mp hok
      obtain ⟨k, hk, hreduces⟩ := (residentGroup_ends hpos).2 s' hok
      have hplans := (Workspace.remove_ok (ended_eq_ok.mp hremove)).1
      exact ⟨k, ⟨by rw [hk.plans, hplans], hk.parents⟩, hreduces⟩
    · refine ⟨fun _ => ended_ne_none, fun s' hok => ?_⟩
      obtain ⟨_, hemit, hok⟩ := bind_eq_ok.mp (ended_eq_ok.mp hok)
      obtain ⟨w, hremove, hok⟩ := bind_eq_ok.mp hok
      cases hok
      have hk := emitted_emitPartition hemit
      exact ⟨1, ⟨by rw [(Workspace.remove_ok hremove).1, hk.plans], hk.parents⟩, .one hfits⟩
    refine ⟨fun hle => bind_ne_none ended_ne_none fun scattered hchildren =>
      foldlM_ne_none fun run hrun s => ?_, fun s' hok => ?_⟩
    · have hlength := (divides_scattered (not_le.mp hfits) (ended_eq_ok.mp hchildren)).2.bounds _
        (mem_map_of_mem hrun)
      exact (ih hlength.1).1 (by omega)
    · obtain ⟨⟨w, _⟩, hchildren, hok⟩ := bind_eq_ok.mp hok
      obtain ⟨hplans, hdivides⟩ := divides_scattered (not_le.mp hfits) (ended_eq_ok.mp hchildren)
      obtain ⟨k, hk, hreduces⟩ := emitted_divided (fun run hrun s =>
        (ih (hdivides.bounds _ (mem_map_of_mem hrun)).1).2) hdivides hok
      exact ⟨k, ⟨by rw [hk.plans, hplans], hk.parents⟩, hreduces⟩

lemma constructLevels_ends {w : Workspace Vec} (hpos : 1 ≤ input.rows.length)
    (hle : input.rows.length ≤ depth) : constructLevels ctx depth level w input ≠ .error none := by
  induction depth generalizing level w input with
  | zero => omega
  | succ _ ih =>
    rw [constructLevels]
    by_cases hfits : input.rows.length ≤ ctx.config.maxEntries level
    · rw [if_pos hfits]
      exact ended_ne_none
    rw [if_neg hfits]
    refine bind_ne_none ((group_ends hpos).1 le_rfl) fun s' hgroup => ?_
    have hbounds := ctx.config.entries_bounds level
    obtain ⟨k, hk, hreduces⟩ := (group_ends hpos).2 s' hgroup
    have hfewer := hreduces.fewer
    have hparents := hk.parents
    have hone := hreduces.pos
    rw [length_nil] at hparents
    dsimp only
    split_ifs
    · exact ih (by omega) (by omega)
    · exact ended_ne_none

lemma constructTree_ends {config : IndexManifest} {kernel : ConstructionKernel Vec Dist}
    {dimension : ℕ} {options : ConstructionOptions} {unstable : Unstable (Row Vec)}
    {accept : List (PartitionPlan Vec) → PartitionPlan Vec → Except Error Unit}
    {records : List (Row Vec)} :
    constructTree config kernel dimension options unstable accept records ≠ .error none := by
  refine bind_ne_none ended_ne_none fun residentRows _ =>
    bind_ne_none ended_ne_none fun first _ => ?_
  dsimp only
  split_ifs with hempty
  · exact bind_ne_none ended_ne_none fun w _ h => by cases h
  · exact bind_ne_none (constructLevels_ends (Nat.one_le_iff_ne_zero.mpr hempty) le_rfl)
      fun w _ h => by cases h

/-- **A construction ends.**  Every recursive call receives fewer rows than its caller, so
that a depth of the number of rows never runs out; a level that is too large for the root
leaves fewer rows, so that as many levels do not run out either. -/
theorem construction_ends (ctx : ConstructionContext Vec Dist) (level : ℕ) :
    (∀ rows centers, ctx.config.maxEntries level < rows.length →
      trainCenters ctx level rows = .ok centers →
      ClampsOrdered rows.length (ctx.config.minPartitionEntries level)
        (rows.length - (rows.length + 3) / 4) (labelCounts ctx.kernel centers rows) 0 0) ∧
    (∀ rows children, ctx.config.maxEntries level < rows.length →
      residentChildren ctx level rows = .ok children →
      ∀ child ∈ children, 1 ≤ child.length ∧ child.length < rows.length) ∧
    (∀ w w' input runs, ctx.config.maxEntries level < input.rows.length →
      scatteredChildren ctx w level input = .ok (w', runs) →
      ∀ run ∈ runs, 1 ≤ run.rows.length ∧ run.rows.length < input.rows.length) ∧
    (∀ s rows depth, 1 ≤ rows.length → rows.length ≤ depth →
      residentGroup ctx level depth s rows ≠ .error none) ∧
    (∀ s input depth, 1 ≤ input.rows.length → input.rows.length ≤ depth →
      group ctx level depth s input ≠ .error none) ∧
    (∀ s s' input depth, ctx.config.maxEntries level < input.rows.length →
      group ctx level depth s input = .ok s' →
      ∃ k, 2 ≤ k ∧ k ≤ input.rows.length - 1 ∧ Emitted s s' k) ∧
    ∀ dimension records, constructTree ctx.config ctx.kernel dimension ctx.options ctx.unstable
      ctx.accept records ≠ .error none := by
  have hbounds := ctx.config.entries_bounds level
  refine ⟨fun rows centers hlarge hcenters => ?_, fun rows children hlarge hok child hchild => ?_,
    fun w w' input runs hlarge hok run hrun => ?_,
    fun s rows depth hpos hle => (residentGroup_ends hpos).1 hle,
    fun s input depth hpos hle => (group_ends hpos).1 hle,
    fun s s' input depth hlarge hok => ?_, fun _ _ => constructTree_ends⟩
  · obtain ⟨-, -, -, -, hclamps⟩ := childSizes_spec (γ := ctx.clustering) hlarge hcenters
    exact hclamps
  · exact (divides_resident hlarge hok).bounds _ (mem_map_of_mem hchild)
  · exact (divides_scattered hlarge hok).2.bounds _ (mem_map_of_mem hrun)
  · obtain ⟨k, hk, hreduces⟩ := (group_ends (by omega)).2 s' hok
    have hfewer := hreduces.fewer
    exact ⟨k, hreduces.two hlarge, by omega, hk⟩

end

/-- The worked construction, with room for one resident row. -/
def lineContext : ConstructionContext ℤ ℤ :=
  ⟨Index.line.toIndexManifest, lineKernel, smallBudget, 1, .sorting, fun _ _ => .ok ()⟩

/-- Its five rows are too many for one leaf, and become two, three or four. -/
theorem construction_ends_line : ∃ s k,
    group lineContext 1 5 (⟨100, ⟨0, 0, 0, 0, 0⟩, []⟩, ⟨[], 0⟩) ⟨lineRows, 45⟩ = .ok s ∧
      2 ≤ k ∧ k ≤ 4 ∧ s.2.rows.length = k ∧
        lineConstruction smallBudget .sorting ≠ .error none := by
  obtain ⟨s, hok⟩ := exists_of_isOk (show (group lineContext 1 5
    (⟨100, ⟨0, 0, 0, 0, 0⟩, []⟩, ⟨[], 0⟩) ⟨lineRows, 45⟩).isOk = true by decide +kernel)
  obtain ⟨-, -, -, -, -, hemits, hends⟩ := construction_ends lineContext 1
  obtain ⟨k, htwo, hfewer, hk⟩ := hemits _ _ _ _ (by decide) hok
  have hparents := hk.parents
  rw [length_nil, Nat.zero_add] at hparents
  exact ⟨s, k, hok, htwo, hfewer, hparents, hends 1 lineRows⟩
