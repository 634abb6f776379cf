/-
The tree a construction hands out.

`treeLevels` builds the levels from the clusterings alone.  A construction that
succeeds, whatever its budgets, refines it (`constructLevels_treeLevels`), so that
its tree depends on nothing else and is balanced.

* `BalancedTree` — what the plans of a tree are;
* `constructTree_balanced` — **every construction yields a balanced tree**;
* `constructTree_plans_eq` — **its budgets do not change the tree**.
-/
import Ktann.Construction.Clusters
import Ktann.Storage.BigEndian

open List (forall_mem_append)
open Workspace (emission remove_ok)

section

variable {Vec Dist : Type} [LinearOrder Dist]

/-! ### Levels -/

/-- Builds the levels from one on, whose rows are the parents of the level below. -/
def treeLevels (γ : Clustering Vec Dist) : ℕ → ℕ → Emission Vec → Except Error (Emission Vec)
  | 0, _, _ => .error .corrupt
  | depth + 1, level, e =>
    if e.parents.length ≤ γ.config.maxEntries level then do
      let plan ← planPartition γ.kernel level 1 e.parents
      .ok ⟨max e.highWater 1, e.plans ++ [plan], []⟩
    else do
      let groups ← clusters γ level e.parents.length e.parents
      let e ← groups.foldlM (Emission.emit γ.kernel level) { e with parents := [] }
      if level + 1 < 2 ^ 32 then treeLevels γ depth (level + 1) e
      else .error (.new .limitExceeded)

variable {kernel : ConstructionKernel Vec Dist} {γ : Clustering Vec Dist}
  {ctx : ConstructionContext Vec Dist} {level : ℕ}

def PartitionPlan.row (plan : PartitionPlan Vec) : Row Vec := ⟨bigEndian 8 plan.key, plan.centroid⟩

open PartitionPlan (row)

variable {rows : List (Row Vec)} {depth : ℕ}

omit [LinearOrder Dist] in
lemma planPartition_ok {key : ℕ} {plan : PartitionPlan Vec}
    (hok : planPartition kernel level key rows = .ok plan) :
    plan.key = key ∧ plan.level = level ∧ plan.entries = rows.map Row.id := by
  obtain ⟨_, -, hok⟩ := bind_eq_ok.mp hok
  obtain ⟨_, -, hok⟩ := bind_eq_ok.mp hok
  cases hok
  exact ⟨rfl, rfl, rfl⟩

/-- What one level adds to an emission: a plan for every group, with the next keys. -/
structure Emits (level : ℕ) (groups : List (List (Row Vec))) (e e' : Emission Vec)
    (new : List (PartitionPlan Vec)) : Prop where
  plans : e'.plans = e.plans ++ new
  parents : e'.parents = e.parents ++ new.map row
  entries : new.map PartitionPlan.entries = groups.map (List.map Row.id)
  level : ∀ plan ∈ new, plan.level = level
  keys : new.map PartitionPlan.key = List.range' (max e.highWater 1 + 1) new.length
  bound : ∀ plan ∈ new, plan.key < u64Bound
  highWater : max e'.highWater 1 = max e.highWater 1 + new.length

omit [LinearOrder Dist] in
lemma emits_of_foldlM {groups : List (List (Row Vec))} {e e' : Emission Vec} :
    groups.foldlM (Emission.emit kernel level) e = .ok e' → ∃ new, Emits level groups e e' new := by
  induction groups generalizing e with
  | nil =>
    intro hok
    cases hok
    exact ⟨[], by simp, by simp, rfl, by simp, rfl, by simp, by simp⟩
  | cons _ _ ih =>
    intro hok
    rw [foldlM_cons, bind_eq_ok] at hok
    obtain ⟨_, hone, hrest⟩ := hok
    obtain ⟨_, hkey, hone⟩ := bind_eq_ok.mp hone
    obtain ⟨plan, hplan, hone⟩ := bind_eq_ok.mp hone
    cases hone
    obtain ⟨hbound, rfl⟩ := checkedU64_eq_ok.mp hkey
    obtain ⟨hplanKey, hlevel, hentries⟩ := planPartition_ok hplan
    obtain ⟨new, h⟩ := ih hrest
    have hwater : max (max e.highWater 1 + 1) 1 = max e.highWater 1 + 1 := by omega
    refine ⟨plan :: new, ?_, ?_, ?_, ?_, ?_, ?_, ?_⟩
    · rw [h.plans, append_assoc, List.singleton_append]
    · rw [h.parents, append_assoc, List.singleton_append, map_cons, row, hplanKey]
    · rw [map_cons, map_cons, hentries, h.entries]
    · exact forall_mem_cons.mpr ⟨hlevel, h.level⟩
    · rw [map_cons, hplanKey, h.keys, hwater, length_cons, List.range'_succ]
    · exact forall_mem_cons.mpr ⟨hplanKey ▸ hbound, h.bound⟩
    · rw [h.highWater, hwater, length_cons]
      omega

lemma canonical_rows {first : ℕ} {new : List (PartitionPlan Vec)}
    (hkeys : new.map PartitionPlan.key = List.range' first new.length)
    (hbound : ∀ plan ∈ new, plan.key < u64Bound) : Canonical (new.map row) := by
  have hincreasing : new.Pairwise fun a b => a.key < b.key := by
    rw [← pairwise_map (R := fun a b => a < b), hkeys]
    exact List.pairwise_lt_range'
  rw [Canonical, pairwise_map]
  exact hincreasing.imp_of_mem fun _ hb hlt => bigEndian_u64_lt hlt (hbound _ hb)

omit [LinearOrder Dist] in
lemma emitRoot_ok {w w' : Workspace Vec} (hok : emitRoot ctx w level rows = .ok w') :
    ∃ plan, planPartition ctx.kernel level 1 rows = .ok plan ∧ w'.plans = w.plans ++ [plan] ∧
      w'.report.partitionHighWater = max w.report.partitionHighWater 1 := by
  obtain ⟨plan, hplan, hok⟩ := bind_eq_ok.mp hok
  exact ⟨plan, hplan, Workspace.deliver_ok hok⟩

/-- **A construction that succeeds builds the levels of its clustering.** -/
theorem constructLevels_treeLevels :
    ∀ {level : ℕ} {w w' : Workspace Vec} {input : ScratchRun Vec}, Canonical input.rows →
      constructLevels ctx depth level w input = .ok w' →
      treeLevels ctx.clustering depth level (w.emission input) = .ok (w'.emission ⟨[], 0⟩) := by
  induction depth with
  | zero =>
    intro level w w' input _ hok
    cases hok
  | succ _ ih =>
    intro level w w' input hrows hok
    rw [constructLevels] at hok
    rw [treeLevels]
    by_cases hfits : input.rows.length ≤ ctx.config.maxEntries level
    · rw [if_pos hfits] at hok
      obtain ⟨w₁, hroot, hremove⟩ := bind_eq_ok.mp (ended_eq_ok.mp hok)
      obtain ⟨plan, hplan, hplans, hwater⟩ := emitRoot_ok hroot
      obtain ⟨hplans', hwater'⟩ := remove_ok hremove
      refine (if_pos hfits).trans (bind_eq_ok.mpr ⟨plan, hplan, ?_⟩)
      simp only [emission, hplans', hplans, hwater', hwater]
    · rw [if_neg hfits] at hok
      obtain ⟨⟨w₁, parents⟩, hgroup, hok⟩ := bind_eq_ok.mp hok
      obtain ⟨groups, hgroups, hemits⟩ := group_clusters hrows hgroup
      obtain ⟨new, h⟩ := emits_of_foldlM hemits
      have hparents : parents.rows = new.map row := h.parents
      refine (if_neg hfits).trans (bind_eq_ok.mpr ⟨groups, hgroups, ?_⟩)
      refine bind_eq_ok.mpr ⟨w₁.emission parents, hemits, ?_⟩
      dsimp only at hok
      split_ifs at hok ⊢
      · exact ih (hparents ▸ canonical_rows h.keys h.bound) hok
      · cases hok

/-! ### Balanced trees -/

/-- The IDs that the entries of level `level + 1` are to hold: the records, or the
keys of the partitions of the level below. -/
def members (ids : List Bytes) (plans : List (PartitionPlan Vec)) : ℕ → List Bytes
  | 0 => ids
  | level + 1 => (plans.filter fun plan => plan.level = level + 1).map fun plan =>
      bigEndian 8 plan.key

def entriesAt (plans : List (PartitionPlan Vec)) (level : ℕ) : List Bytes :=
  (plans.filter fun plan => plan.level = level).flatMap PartitionPlan.entries

/-- The plans of a balanced tree of records.  The keys are consecutive, and the root
comes last with the first of them; every record is in one leaf, every other
partition in one parent, and every partition but the root has its least occupancy. -/
structure BalancedTree (config : IndexManifest) (ids : List Bytes) (highWater : ℕ)
    (plans : List (PartitionPlan Vec)) : Prop where
  keys : (plans.map PartitionPlan.key).Perm (List.range' 1 highWater)
  root : ∃ others root, plans = others ++ [root] ∧ root.key = 1
  increasing : ∀ plan ∈ plans, plan.entries.Pairwise (· < ·)
  records : ∀ id ∈ ids, ∃! plan, plan ∈ plans ∧ plan.level = 1 ∧ id ∈ plan.entries
  leaves : ∀ plan ∈ plans, plan.level = 1 → ∀ id ∈ plan.entries, id ∈ ids
  parents : ∀ plan ∈ plans, plan.key ≠ 1 →
    ∃! parent, parent ∈ plans ∧ parent.level = plan.level + 1 ∧
      bigEndian 8 plan.key ∈ parent.entries
  children : ∀ parent ∈ plans, parent.level ≠ 1 → ∀ entry ∈ parent.entries,
    ∃ plan ∈ plans, plan.key ≠ 1 ∧ parent.level = plan.level + 1 ∧ entry = bigEndian 8 plan.key
  maximum : ∀ plan ∈ plans, plan.entries.length ≤ config.maxEntries plan.level
  minimum : ∀ plan ∈ plans, plan.key ≠ 1 →
    config.minPartitionEntries plan.level ≤ plan.entries.length

/-- What the levels below one leave: whole levels with the next keys, and the rows
of the level itself. -/
structure BuiltBelow (config : IndexManifest) (ids : List Bytes) (level : ℕ) (e : Emission Vec) :
    Prop where
  keys : e.plans.map PartitionPlan.key = List.range' 2 e.plans.length
  bound : ∀ plan ∈ e.plans, plan.key < u64Bound
  highWater : max e.highWater 1 = e.plans.length + 1
  levels : ∀ plan ∈ e.plans, 1 ≤ plan.level ∧ plan.level ≤ level
  increasing : ∀ plan ∈ e.plans, plan.entries.Pairwise (· < ·)
  maximum : ∀ plan ∈ e.plans, plan.entries.length ≤ config.maxEntries plan.level
  minimum : ∀ plan ∈ e.plans, config.minPartitionEntries plan.level ≤ plan.entries.length
  entries : ∀ below < level, (entriesAt e.plans (below + 1)).Perm (members ids e.plans below)
  rows : e.parents.map Row.id = members ids e.plans level
  canonical : Canonical e.parents

variable {config : IndexManifest} {ids : List Bytes} {plans new : List (PartitionPlan Vec)}
  {e e' : Emission Vec}

lemma entriesAt_eq_nil (h : ∀ plan ∈ new, plan.level ≠ level) : entriesAt new level = [] := by
  rw [entriesAt, filter_eq_nil_iff.mpr fun plan hplan => by simpa using h plan hplan]
  rfl

lemma entriesAt_eq_flatMap (h : ∀ plan ∈ new, plan.level = level) :
    entriesAt new level = new.flatMap PartitionPlan.entries := by
  rw [entriesAt, filter_eq_self.mpr fun plan hplan => by simpa using h plan hplan]

lemma entriesAt_append :
    entriesAt (plans ++ new) level = entriesAt plans level ++ entriesAt new level := by
  rw [entriesAt, filter_append, List.flatMap_append, entriesAt, entriesAt]

lemma mem_entriesAt {entry : Bytes} :
    entry ∈ entriesAt plans level ↔ ∃ plan ∈ plans, plan.level = level ∧ entry ∈ plan.entries := by
  simp only [entriesAt, mem_flatMap, mem_filter, decide_eq_true_eq, and_assoc]

lemma members_append (h : ∀ plan ∈ new, plan.level ≠ level) :
    members ids (plans ++ new) level = members ids plans level := by
  cases level with
  | zero => rfl
  | succ level =>
    have hnone : new.filter (fun plan => plan.level = level + 1) = [] :=
      filter_eq_nil_iff.mpr fun plan hplan => by simpa using h plan hplan
    rw [members, members, filter_append, hnone, append_nil]

lemma members_eq_rows (hold : ∀ plan ∈ plans, plan.level ≠ level + 1)
    (hnew : ∀ plan ∈ new, plan.level = level + 1) :
    members ids (plans ++ new) (level + 1) = (new.map row).map Row.id := by
  rw [members, filter_append,
    filter_eq_nil_iff.mpr fun plan hplan => by simpa using hold plan hplan,
    filter_eq_self.mpr fun plan hplan => by simpa using hnew plan hplan, nil_append, map_map]
  rfl

lemma BuiltBelow.step {groups : List (List (Row Vec))} (h : BuiltBelow config ids level e)
    (hgroups : Clustered config (level + 1) e.parents groups)
    (hnew : Emits (level + 1) groups { e with parents := [] } e' new) :
    BuiltBelow config ids (level + 1) e' := by
  have hgroup : ∀ plan ∈ new, ∃ group ∈ groups, plan.entries = group.map Row.id := by
    intro plan hplan
    have hmem := mem_map_of_mem (f := PartitionPlan.entries) hplan
    rw [hnew.entries] at hmem
    obtain ⟨group, hgroup, heq⟩ := mem_map.mp hmem
    exact ⟨group, hgroup, heq.symm⟩
  have hother : ∀ below ≤ level, ∀ plan ∈ new, plan.level ≠ below := by
    intro below hle plan hplan
    rw [hnew.level plan hplan]
    omega
  have holder : ∀ plan ∈ e.plans, plan.level ≠ level + 1 := by
    intro plan hplan
    have := h.levels plan hplan
    omega
  have hparents : e'.parents = new.map row := hnew.parents
  have hwater : max e.highWater 1 = e.plans.length + 1 := h.highWater
  have hkeys : new.map PartitionPlan.key = List.range' (e.plans.length + 2) new.length := by
    rw [hnew.keys]
    exact congrArg (fun first => List.range' (first + 1) new.length) hwater
  have hplans : e'.plans = e.plans ++ new := hnew.plans
  constructor
  case keys =>
    rw [hplans, map_append, h.keys, hkeys, length_append, Nat.add_comm _ 2, List.range'_append_1]
  case bound =>
    rw [hplans]
    exact forall_mem_append.mpr ⟨h.bound, hnew.bound⟩
  case highWater =>
    rw [hplans, length_append, hnew.highWater]
    change max e.highWater 1 + new.length = _
    omega
  case levels =>
    rw [hplans]
    refine forall_mem_append.mpr ⟨fun plan hplan => ?_, fun plan hplan => ?_⟩
    · have := h.levels plan hplan
      omega
    · rw [hnew.level plan hplan]
      omega
  case increasing =>
    rw [hplans]
    refine forall_mem_append.mpr ⟨h.increasing, fun plan hplan => ?_⟩
    obtain ⟨group, hmem, heq⟩ := hgroup plan hplan
    rw [heq, pairwise_map]
    exact hgroups.canonical group hmem
  case maximum =>
    rw [hplans]
    refine forall_mem_append.mpr ⟨h.maximum, fun plan hplan => ?_⟩
    obtain ⟨group, hmem, heq⟩ := hgroup plan hplan
    rw [heq, length_map, hnew.level plan hplan]
    exact hgroups.maximum group hmem
  case minimum =>
    rw [hplans]
    refine forall_mem_append.mpr ⟨h.minimum, fun plan hplan => ?_⟩
    obtain ⟨group, hmem, heq⟩ := hgroup plan hplan
    rw [heq, length_map, hnew.level plan hplan]
    exact hgroups.minimum group hmem
  case entries =>
    intro below hbelow
    rw [hplans, entriesAt_append, members_append (hother below (by omega))]
    rcases Nat.lt_succ_iff_lt_or_eq.mp hbelow with hlt | rfl
    · rw [entriesAt_eq_nil (hother (below + 1) hlt), append_nil]
      exact h.entries below hlt
    · rw [entriesAt_eq_nil holder, nil_append, entriesAt_eq_flatMap hnew.level,
        List.flatMap_def, hnew.entries, ← List.map_flatten, ← h.rows]
      exact hgroups.cover.map Row.id
  case rows =>
    rw [hplans, hparents, members_eq_rows holder hnew.level]
  case canonical =>
    rw [hparents]
    exact canonical_rows hkeys hnew.bound

lemma existsUnique_of_nodup_flatMap {α β : Type} {l : List α} {f : α → List β} {b : β}
    (h : (l.flatMap f).Nodup) (hb : b ∈ l.flatMap f) : ∃! a, a ∈ l ∧ b ∈ f a := by
  obtain ⟨a, ha, hba⟩ := mem_flatMap.mp hb
  refine ⟨a, ⟨ha, hba⟩, fun a' ⟨ha', hba'⟩ => ?_⟩
  by_contra hne
  have : Std.Symm (Function.onFun List.Disjoint f) := ⟨fun _ _ hd => hd.symm⟩
  exact (List.nodup_flatMap.mp h).2.forall ha' ha hne hba' hba

/-- **The last level completes a balanced tree.** -/
theorem BuiltBelow.balanced {root : PartitionPlan Vec} (h : BuiltBelow config ids level e)
    (hids : ids.Nodup) (hfits : e.parents.length ≤ config.maxEntries (level + 1))
    (hkey : root.key = 1) (hlevel : root.level = level + 1)
    (hentries : root.entries = e.parents.map Row.id) :
    BalancedTree config ids (max e.highWater 1) (e.plans ++ [root]) := by
  have hroot : ∀ below ≤ level, ∀ plan ∈ [root], plan.level ≠ below := by
    intro below hle plan hplan
    rw [mem_singleton.mp hplan, hlevel]
    omega
  have hsame : ∀ plan ∈ [root], plan.level = level + 1 := by simpa using hlevel
  have holder : ∀ plan ∈ e.plans, plan.level ≠ level + 1 := by
    intro plan hplan
    have := h.levels plan hplan
    omega
  -- Every level holds its members, the last one in the root.
  have hall : ∀ below ≤ level,
      (entriesAt (e.plans ++ [root]) (below + 1)).Perm (members ids e.plans below) := by
    intro below hle
    rw [entriesAt_append]
    rcases Nat.lt_or_eq_of_le hle with hlt | rfl
    · rw [entriesAt_eq_nil (hroot (below + 1) hlt), append_nil]
      exact h.entries below hlt
    · rw [entriesAt_eq_nil holder, nil_append, entriesAt_eq_flatMap hsame,
        List.flatMap_singleton, hentries, h.rows]
  have hnodup : ∀ below, (members ids e.plans below).Nodup := by
    intro below
    cases below with
    | zero => exact hids
    | succ below =>
      have hrows := (canonical_rows h.keys h.bound).nodup
      rw [map_map] at hrows
      exact hrows.sublist (List.filter_sublist.map _)
  have hunique : ∀ below ≤ level, ∀ id ∈ members ids e.plans below,
      ∃! plan, plan ∈ e.plans ++ [root] ∧ plan.level = below + 1 ∧ id ∈ plan.entries := by
    intro below hle id hid
    have hperm := hall below hle
    have huniq := existsUnique_of_nodup_flatMap (hperm.nodup_iff.mpr (hnodup below))
      (hperm.mem_iff.mpr hid)
    simpa only [mem_filter, decide_eq_true_eq, and_assoc] using huniq
  have hnonroot : ∀ plan ∈ e.plans ++ [root], plan.key ≠ 1 → plan ∈ e.plans := by
    intro plan hplan hne
    rcases mem_append.mp hplan with hplan | hplan
    · exact hplan
    · exact absurd (mem_singleton.mp hplan ▸ hkey) hne
  have hlater : ∀ plan ∈ e.plans, plan.key ≠ 1 := by
    intro plan hplan
    have hmem := mem_map_of_mem (f := PartitionPlan.key) hplan
    rw [h.keys, List.mem_range'_1] at hmem
    omega
  constructor
  case keys =>
    rw [map_append, h.keys, h.highWater, List.map_singleton, hkey,
      Nat.add_comm _ 1, ← List.range'_append_1]
    exact List.perm_append_comm
  case root => exact ⟨e.plans, root, rfl, hkey⟩
  case increasing =>
    refine forall_mem_append.mpr ⟨h.increasing, ?_⟩
    rw [List.forall_mem_singleton, hentries, pairwise_map]
    exact h.canonical
  case records => exact hunique 0 (Nat.zero_le _)
  case leaves =>
    intro plan hplan hone id hid
    exact (hall 0 (Nat.zero_le _)).mem_iff.mp (mem_entriesAt.mpr ⟨plan, hplan, hone, hid⟩)
  case parents =>
    intro plan hplan hne
    have hold := hnonroot plan hplan hne
    obtain ⟨hpos, hle⟩ := h.levels plan hold
    refine hunique plan.level hle _ ?_
    obtain ⟨below, hbelow⟩ := Nat.exists_eq_add_of_le' hpos
    rw [hbelow, members]
    exact mem_map_of_mem (mem_filter.mpr ⟨hold, decide_eq_true hbelow⟩)
  case children =>
    intro parent hparent hinternal _ hentry
    have hparentLevel : 1 ≤ parent.level ∧ parent.level ≤ level + 1 := by
      rcases mem_append.mp hparent with hparent | hparent
      · have := h.levels parent hparent
        omega
      · rw [mem_singleton.mp hparent, hlevel]
        omega
    obtain ⟨below, hbelow⟩ := Nat.exists_eq_add_of_le' (show 2 ≤ parent.level by omega)
    have hmem := (hall (below + 1) (by omega)).mem_iff.mp
      (mem_entriesAt.mpr ⟨parent, hparent, hbelow, hentry⟩)
    rw [members, mem_map] at hmem
    obtain ⟨plan, hplan, rfl⟩ := hmem
    obtain ⟨hplan, hplanLevel⟩ := mem_filter.mp hplan
    rw [decide_eq_true_eq] at hplanLevel
    exact ⟨plan, mem_append_left _ hplan, hlater plan hplan, by omega, rfl⟩
  case maximum =>
    refine forall_mem_append.mpr ⟨h.maximum, ?_⟩
    rw [List.forall_mem_singleton, hentries, hlevel, length_map]
    exact hfits
  case minimum =>
    intro plan hplan hne
    exact h.minimum plan (hnonroot plan hplan hne)

lemma treeLevels_balanced :
    ∀ {level : ℕ} {e e' : Emission Vec}, BuiltBelow γ.config ids level e → ids.Nodup →
      treeLevels γ depth (level + 1) e = .ok e' →
      BalancedTree γ.config ids e'.highWater e'.plans := by
  induction depth with
  | zero =>
    intro level e e' _ _ hok
    cases hok
  | succ _ ih =>
    intro level e e' h hids hok
    rw [treeLevels] at hok
    by_cases hfits : e.parents.length ≤ γ.config.maxEntries (level + 1)
    · rw [if_pos hfits] at hok
      obtain ⟨_, hplan, hok⟩ := bind_eq_ok.mp hok
      obtain ⟨hkey, hlevel, hentries⟩ := planPartition_ok hplan
      cases hok
      exact h.balanced hids hfits hkey hlevel hentries
    · rw [if_neg hfits] at hok
      obtain ⟨_, hgroups, hok⟩ := bind_eq_ok.mp hok
      obtain ⟨_, hemits, hok⟩ := bind_eq_ok.mp hok
      split_ifs at hok
      have hbounds := γ.config.entries_bounds (level + 1)
      obtain ⟨_, hnew⟩ := emits_of_foldlM hemits
      exact ih (h.step (clusters_spec h.canonical (by omega) hgroups) hnew) hids hok

/-! ### The whole tree -/

def preprocessed (kernel : ConstructionKernel Vec Dist) (record : Row Vec) :
    Except Error (Row Vec) := do
  let vector ← kernel.preprocess record.vector
  .ok ⟨record.id, vector⟩

def buildTree (γ : Clustering Vec Dist) (records : List (Row Vec)) :
    Except Error (Emission Vec) := do
  let rows ← records.mapM (preprocessed γ.kernel)
  if rows.length = 0 then .ok ⟨0, [], []⟩
  else treeLevels γ rows.length 1 ⟨0, [], rows⟩

omit [LinearOrder Dist] in
lemma appendRecords_ok {records : List (Row Vec)} :
    ∀ {w w' : Workspace Vec} {input input' : ScratchRun Vec},
      appendRecords ctx records (w, input) = .ok (w', input') →
      w'.plans = w.plans ∧ w'.report.partitionHighWater = w.report.partitionHighWater ∧
        ∃ rows, records.mapM (preprocessed ctx.kernel) = .ok rows ∧
          input'.rows = input.rows ++ rows := by
  induction records with
  | nil =>
    intro w w' input input' hok
    cases hok
    exact ⟨rfl, rfl, [], rfl, (append_nil _).symm⟩
  | cons record _ ih =>
    intro w w' _ _ hok
    rw [appendRecords] at hok
    split_ifs at hok
    obtain ⟨vector, hvector, hok⟩ := bind_eq_ok.mp hok
    obtain ⟨⟨_, _⟩, happend, hok⟩ := bind_eq_ok.mp hok
    obtain ⟨hrows, hplans, hwater⟩ := Workspace.append_ok happend
    obtain ⟨hplans', hwater', rows, hmap, hrows'⟩ := ih hok
    refine ⟨hplans'.trans hplans, hwater'.trans hwater, ⟨record.id, vector⟩ :: rows, ?_, ?_⟩
    · rw [mapM_eq_ok] at hmap ⊢
      exact .cons (bind_eq_ok.mpr ⟨vector, hvector, rfl⟩) hmap
    · rw [hrows', hrows, append_assoc, List.singleton_append]

omit [LinearOrder Dist] in
lemma ids_preprocessed {records : List (Row Vec)}
    (h : records.mapM (preprocessed kernel) = .ok rows) : rows.map Row.id = records.map Row.id := by
  induction mapM_eq_ok.mp h with
  | nil => rfl
  | cons hone hrest ih =>
    obtain ⟨_, -, hone⟩ := bind_eq_ok.mp hone
    cases hone
    rw [map_cons, map_cons, ih (mapM_eq_ok.mpr hrest)]

omit [LinearOrder Dist] in
lemma canonical_preprocessed {records : List (Row Vec)} (hrecords : Canonical records)
    (h : records.mapM (preprocessed kernel) = .ok rows) : Canonical rows := by
  rw [Canonical, ← pairwise_map (R := fun a b => a < b), ids_preprocessed h, pairwise_map]
  exact hrecords

variable {dimension : ℕ} {options options' : ConstructionOptions}
  {unstable unstable' : Unstable (Row Vec)}
  {accept accept' : List (PartitionPlan Vec) → PartitionPlan Vec → Except Error Unit}
  {records : List (Row Vec)} {report report' : ConstructionReport}
  {plans' : List (PartitionPlan Vec)}

/-- **A construction that succeeds hands out the tree of its clustering**, whatever
its budgets, its unspecified orders and its consumer are. -/
theorem constructTree_buildTree (hrecords : Canonical records)
    (hok : constructTree config kernel dimension options unstable accept records =
      .ok (report, plans)) : buildTree ⟨config, kernel, options.sampleItems⟩ records =
      .ok ⟨report.partitionHighWater, plans, []⟩ := by
  obtain ⟨_, -, hok⟩ := bind_eq_ok.mp hok
  obtain ⟨⟨w, input⟩, happend, hok⟩ := bind_eq_ok.mp hok
  obtain ⟨hplans, hwater, rows, hmap, hrows⟩ := appendRecords_ok (ended_eq_ok.mp happend)
  rw [nil_append] at hrows
  simp only at hok
  refine bind_eq_ok.mpr ⟨rows, hmap, ?_⟩
  by_cases hempty : rows.length = 0
  · rw [hrows, if_pos hempty] at hok
    obtain ⟨w', hremove, hok⟩ := bind_eq_ok.mp hok
    obtain ⟨hplans', hwater'⟩ := remove_ok (ended_eq_ok.mp hremove)
    cases hok
    rw [if_pos hempty, hplans', hwater']
    simp only [hplans, hwater, Workspace.new]
  · rw [hrows, if_neg hempty] at hok
    obtain ⟨_, hlevels, hok⟩ := bind_eq_ok.mp hok
    have hcanonical : Canonical input.rows := hrows ▸ canonical_preprocessed hrecords hmap
    have htree := constructLevels_treeLevels hcanonical hlevels
    cases hok
    rw [if_neg hempty]
    simpa only [emission, ConstructionContext.clustering, hplans, hwater, hrows,
      Workspace.new] using htree

/-- **Every construction yields a balanced tree**: for a non-empty input in strict ID
order, and with any distance, mean and hash functions. -/
theorem constructTree_balanced (hne : records ≠ []) (hrecords : Canonical records)
    (hok : constructTree config kernel dimension options unstable accept records =
      .ok (report, plans)) :
    BalancedTree config (records.map Row.id) report.partitionHighWater plans := by
  obtain ⟨rows, hmap, hok⟩ := bind_eq_ok.mp (constructTree_buildTree hrecords hok)
  have hids := ids_preprocessed hmap
  have hlength : rows.length ≠ 0 := by
    rw [← length_map (f := Row.id), hids, length_map]
    exact List.length_eq_zero_iff.not.mpr hne
  rw [if_neg hlength] at hok
  have hstart : BuiltBelow config (records.map Row.id) 0 ⟨0, [], rows⟩ :=
    ⟨rfl, by simp, rfl, by simp, by simp, by simp, by simp, by simp, hids,
      canonical_preprocessed hrecords hmap⟩
  exact treeLevels_balanced hstart hrecords.nodup hok

/-- **Spill decisions do not change the tree.**  Two constructions of one input with
the same sample size, under any budgets, hand out the same plans; the vectors and
their mean are arbitrary, so the arguments of every mean agree in order too. -/
theorem constructTree_plans_eq (hrecords : Canonical records)
    (hsample : options.sampleItems = options'.sampleItems)
    (hok : constructTree config kernel dimension options unstable accept records =
      .ok (report, plans))
    (hok' : constructTree config kernel dimension options' unstable' accept' records =
      .ok (report', plans')) : plans = plans' := by
  have htree := constructTree_buildTree hrecords hok
  rw [hsample, constructTree_buildTree hrecords hok'] at htree
  simp only [Except.ok.injEq, Emission.mk.injEq] at htree
  exact htree.2.1.symm

end

/-! ### A worked construction -/

/-- Selection by sorting, and a heap that iterates in the order of its list. -/
def Unstable.sorting {α : Type} : Unstable α where
  iter l := l
  select key _ l := sortBy key l
  iter_perm := .refl
  select_perm key _ l := sortBy_perm key l
  select_le key n l a ha b hb := by
    have hsorted : (sortBy key l).Pairwise fun x y => key x ≤ key y :=
      List.pairwise_insertionSort _ l
    rw [← take_append_drop n (sortBy key l), pairwise_append] at hsorted
    exact hsorted.2.2 a ha b hb

/-- A heap that iterates the other way around. -/
def Unstable.reversed {α : Type} : Unstable α :=
  { Unstable.sorting with
    iter := List.reverse
    iter_perm := List.reverse_perm }

/-- Whole numbers as vectors of one component. -/
def lineKernel : ConstructionKernel ℤ ℤ where
  isCosine := false
  preprocess := .ok
  normalizeCentroid := .ok
  routingDistance x y := |x - y|
  minDistance := min
  infinity := 1000
  negInfinity := -1
  mean vectors := vectors.sum / vectors.length
  hash id := (id.map fun b => b.val * 7 % 5).sum
  components _ := 1

/-- Two clusters on a line. -/
def lineRows : List (Row ℤ) := [⟨[1], 0⟩, ⟨[2], 100⟩, ⟨[3], 1⟩, ⟨[4], 101⟩, ⟨[5], 2⟩]

/-- A budget with room for one resident row, and one for all of them. -/
def smallBudget : ConstructionOptions := ⟨2, 137673, 4096⟩
def largeBudget : ConstructionOptions := ⟨2, 200000, 4096⟩

def lineConstruction (options : ConstructionOptions) (unstable : Unstable (Row ℤ)) :
    DepthResult (ConstructionReport × List (PartitionPlan ℤ)) :=
  constructTree Index.line.toIndexManifest lineKernel 1 options unstable
    (fun _ _ => .ok ()) lineRows

lemma exists_of_isOk {ε α : Type} {x : Except ε α} (h : x.isOk = true) : ∃ a, x = .ok a := by
  cases x with
  | error e => cases h
  | ok a => exact ⟨a, rfl⟩

theorem constructTree_balanced_line : ∃ report plans,
    lineConstruction smallBudget .sorting = .ok (report, plans) ∧
      BalancedTree Index.line.toIndexManifest (lineRows.map Row.id) report.partitionHighWater
        plans := by
  obtain ⟨⟨report, plans⟩, hok⟩ :=
    exists_of_isOk (show (lineConstruction smallBudget .sorting).isOk = true by decide +kernel)
  refine ⟨report, plans, hok, ?_⟩
  rw [lineConstruction] at hok
  exact constructTree_balanced (by decide) (by decide +kernel) hok

theorem constructTree_plans_eq_line : ∃ report report' plans,
    lineConstruction smallBudget .sorting = .ok (report, plans) ∧
      lineConstruction largeBudget .reversed = .ok (report', plans) := by
  obtain ⟨⟨report, plans⟩, hok⟩ :=
    exists_of_isOk (show (lineConstruction smallBudget .sorting).isOk = true by decide +kernel)
  obtain ⟨⟨report', plans'⟩, hok'⟩ :=
    exists_of_isOk (show (lineConstruction largeBudget .reversed).isOk = true by decide +kernel)
  have heq : plans = plans' := by
    rw [lineConstruction] at hok hok'
    exact constructTree_plans_eq (by decide +kernel) (by decide) hok hok'
  exact ⟨report, report', plans, hok, heq ▸ hok'⟩
