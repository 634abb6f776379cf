/-
Drain batches and refinement moves commit effects.

A drain attempt moves the candidates of a batch that are still there.  The batch was
read from one committed store, so its candidates are distinct; each is re-read for
update before it moves.

* `DrainBatch.Distinct` — what a batch read from a committed store satisfies;
* `effects_splitDrainAttempt`, `effects_mergeDrainAttempt`, `leafEffects_refineBatch` —
  the attempts, with the exact number of entries a source loses.
-/
import Ktann.Committed.Relocations

open List (filterMap_cons mapM_nil)

open TxnM WriteTxn

section

variable {ix : Index} {C S : Store} {s s' : Txn ValueOf} {t : TreeKey}
  {source : PartitionKey}

/-! ### Distinct candidates -/

def DrainBatch.Distinct : DrainBatch → Prop
  | leaf ids => ids.Nodup
  | child children => children.Nodup

def DrainBatch.IsLeaf : DrainBatch → Prop
  | leaf _ => True
  | child _ => False

lemma leafEntries_ids_nodup (hS : ExactMembership S) (t : TreeKey) (p : PartitionKey) :
    ((S.leafEntries t p).map LeafEntry.recordId).Nodup := by
  rw [Store.leafEntries, List.Nodup, pairwise_map, List.pairwise_filterMap]
  refine (OrderedMap.scan_sorted S (leafRange t p)).imp_of_mem ?_
  rintro ⟨k, v⟩ ⟨k', _⟩ hmem hmem' hlt e he _ he'
  -- An entry's key names its record, and the keys differ.
  obtain ⟨hr, hk⟩ := mem_scan.mp hmem
  obtain ⟨hr', hk'⟩ := mem_scan.mp hmem'
  cases k with
  | leafEntry _ _ _ =>
    cases k' with
    | leafEntry _ _ _ =>
      simp only [leafRange, and_eq_true, decide_eq_true_eq] at hr hr'
      obtain ⟨rfl, rfl⟩ := hr
      obtain ⟨rfl, rfl⟩ := hr'
      cases he
      cases he'
      rintro heq
      rw [(hS.entry hk).2.1, (hS.entry hk').2.1] at heq
      subst heq
      exact lt_irrefl _ hlt
    | _ => cases hr'
  | _ => cases hr

lemma childEntries_nodup (hS : Coherent ix S) (t : TreeKey) (p : PartitionKey) :
    ((S.childEntries t p).map ChildEntry.child).Nodup := by
  rw [Store.childEntries, List.Nodup, pairwise_map, List.pairwise_filterMap]
  refine (OrderedMap.scan_sorted S (childRange t p)).imp_of_mem ?_
  rintro ⟨k, v⟩ ⟨k', _⟩ hmem hmem' hlt e he _ he'
  obtain ⟨hr, hk⟩ := mem_scan.mp hmem
  obtain ⟨hr', hk'⟩ := mem_scan.mp hmem'
  cases k with
  | childEntry _ _ c =>
    cases k' with
    | childEntry _ _ _ =>
      simp only [childRange, and_eq_true, decide_eq_true_eq] at hr hr'
      obtain ⟨rfl, rfl⟩ := hr
      obtain ⟨rfl, rfl⟩ := hr'
      cases he
      cases he'
      rintro heq
      rw [hS.child hk, hS.child hk'] at heq
      subst heq
      exact lt_irrefl _ hlt
    | _ => cases hr'
  | _ => cases hr

variable {page n : ℕ} {batch : DrainBatch} {targets : SplitPair} {candidates : List LevelCandidate}
  {slots : List (Option LeafDrainEntry)} {α : Type} {a b : VectorData} {step : DrainStep}
  {header : PartitionHeader}

lemma nextDrainBatch_distinct (hS : Coherent ix S)
    (hok : nextDrainBatch ix S t source header page = .ok (some batch)) : batch.Distinct := by
  simp only [nextDrainBatch, readDrainBatch] at hok
  split_ifs at hok with hzero hleaf
  · cases hok
  · cases hok
    exact (leafEntries_ids_nodup hS.membership t source).sublist ((take_sublist _ _).map _)
  · cases hok
    exact (childEntries_nodup hS t source).sublist ((take_sublist _ _).map _)

lemma nextDrainBatch_isLeaf (hlevel : ¬ 1 < header.level)
    (hok : nextDrainBatch ix S t source header page = .ok (some batch)) : batch.IsLeaf := by
  have hleaf : header.level = 1 := by have := header.level_pos; omega
  simp only [nextDrainBatch, readDrainBatch, hleaf, if_true] at hok
  split_ifs at hok
  · cases hok
  · cases hok
    trivial

lemma splitDrainPlan_ok (hok : splitDrainPlan ix S t source page = .ok (some (targets, batch))) :
    ∃ header, nextDrainBatch ix S t source header page = .ok (some batch) ∧
      (ix.localGraph = true → ¬ 1 < header.level) := by
  simp only [splitDrainPlan, bind_eq_ok] at hok
  obtain ⟨_, -, hok⟩ := hok
  split at hok
  · split_ifs at hok with hgraph
    obtain ⟨batch', hnext, hok⟩ := bind_eq_ok.mp hok
    cases batch' with
    | none => cases hok
    | some => cases hok; exact ⟨_, hnext, fun hlocal hlevel => hgraph ⟨hlocal, hlevel⟩⟩
  · cases hok

lemma mergeDrainPlan_ok
    (hok : mergeDrainPlan ix S t source page = .ok (some (candidates, batch))) :
    ∃ header, nextDrainBatch ix S t source header page = .ok (some batch) ∧
      (ix.localGraph = true → ¬ 1 < header.level) := by
  simp only [mergeDrainPlan, bind_eq_ok] at hok
  obtain ⟨_, -, hok⟩ := hok
  split at hok
  · split_ifs at hok with hgraph
    obtain ⟨batch', hnext, hok⟩ := bind_eq_ok.mp hok
    cases batch' with
    | none => cases hok
    | some =>
      obtain ⟨_, -, hok⟩ := bind_eq_ok.mp hok
      split_ifs at hok
      · cases hok
        exact ⟨_, hnext, fun hlocal hlevel => hgraph ⟨hlocal, hlevel⟩⟩
      · cases hok
  · cases hok

lemma splitDrainPlan_distinct (hS : Coherent ix S)
    (hok : splitDrainPlan ix S t source page = .ok (some (targets, batch))) : batch.Distinct := by
  obtain ⟨_, hnext, -⟩ := splitDrainPlan_ok hok
  exact nextDrainBatch_distinct hS hnext

lemma mergeDrainPlan_distinct (hS : Coherent ix S)
    (hok : mergeDrainPlan ix S t source page = .ok (some (candidates, batch))) :
    batch.Distinct := by
  obtain ⟨_, hnext, -⟩ := mergeDrainPlan_ok hok
  exact nextDrainBatch_distinct hS hnext

/-! ### Re-read candidates -/

lemma runs_readDrainEntries {candidates : List (PartitionKey × RecordId)} :
    ∀ {entries : List (Option LeafEntry)} {s : Txn ValueOf},
      Runs C (readDrainEntries t candidates) s entries s' →
      s.SameWrites s' ∧ List.Forall₂ (fun c o => Store.leafEntry (s.onto C) t c.1 c.2 = o ∧
        ∀ e, o = some e → e.recordId = c.2) candidates entries := by
  induction candidates with
  | nil =>
    intro entries s hrun
    obtain ⟨rfl, rfl, -⟩ := runs_pure.mp hrun
    exact ⟨.refl _, .nil⟩
  | cons c _ ih =>
    intro _ s hrun
    obtain ⟨p, _⟩ := c
    simp only [readDrainEntries, runs_bind, runs_getLeafEntry, runs_ensure, runs_pure] at hrun
    obtain ⟨o, _, ⟨rfl, rfl, -⟩, -, _, ⟨hid, rfl, -⟩, _, _, hrest, rfl, rfl, -⟩ := hrun
    obtain ⟨hsame, hall⟩ := ih hrest
    exact ⟨⟨hsame.snapshot, hsame.writes⟩, .cons ⟨rfl, fun e he => hid e he⟩ hall⟩

lemma readOnly_readDrainLocations :
    ∀ entries : List (Option LeafEntry), ReadOnly (readDrainLocations entries)
  | [] => readOnly_pure _
  | none :: rest => readOnly_bind (readOnly_readDrainLocations rest) fun _ => readOnly_pure _
  | some _ :: rest => readOnly_bind (readOnly_getForUpdate _) fun _ =>
      readOnly_bind (readOnly_readDrainLocations rest) fun _ => readOnly_pure _

structure Verified (S : Store) (t : TreeKey) (candidates : List (PartitionKey × RecordId))
    (slots : List (Option LeafDrainEntry)) : Prop where
  stored : ∀ d ∈ slots.filterMap id,
    S.leafEntry t d.source d.entry.recordId = some d.entry ∧ d.source ∈ candidates.map Prod.fst
  ids : ((slots.filterMap id).map fun d => d.entry.recordId).Sublist (candidates.map Prod.snd)

lemma drainSlots_verified {S' : Store} {candidates : List (PartitionKey × RecordId)} :
    ∀ {entries : List (Option LeafEntry)} {locations : List (Option RecordLocation)}
      {slots : List (Option LeafDrainEntry)}, List.Forall₂ (fun c o => S.leafEntry t c.1 c.2 = o ∧
        ∀ e, o = some e → e.recordId = c.2) candidates entries →
      drainSlots S' t candidates entries locations = .ok slots → Verified S t candidates slots := by
  induction candidates with
  | nil =>
    intro entries locations slots hall hok
    cases hok
    exact ⟨fun d hd => by simp at hd, by simp⟩
  | cons c _ ih =>
    intro _ locations _ hall hok
    obtain ⟨p, id⟩ := c
    obtain ⟨o, _, hone, hrest, rfl⟩ := List.forall₂_cons_left_iff.mp hall
    cases locations with
    | nil =>
      cases hok
      exact ⟨fun d hd => by simp at hd, by simp⟩
    | cons =>
      simp only [drainSlots, bind_eq_ok] at hok
      obtain ⟨_, hslot, _, hslots, hok⟩ := hok
      cases hok
      obtain ⟨hstored, hids⟩ := ih hrest hslots
      cases o with
      | none =>
        cases hslot
        refine ⟨fun d hd => ?_, hids.trans (List.sublist_cons_self _ _)⟩
        obtain ⟨hd, hmem⟩ := hstored d hd
        exact ⟨hd, mem_cons_of_mem _ hmem⟩
      | some e =>
        simp only [drainSlot] at hslot
        split_ifs at hslot
        split at hslot
        · split_ifs at hslot
          cases hslot
          have hid := hone.2 e rfl
          constructor
          · intro d hd
            simp only [filterMap_cons, id_eq] at hd
            rcases mem_cons.mp hd with rfl | hd
            · exact ⟨by rw [hid]; exact hone.1, mem_cons_self⟩
            · obtain ⟨hd, hmem⟩ := hstored d hd
              exact ⟨hd, mem_cons_of_mem _ hmem⟩
          · simp only [filterMap_cons, id_eq, map_cons, hid]
            exact hids.cons_cons id
        · cases hslot

lemma runs_readLeafDrainCandidates {candidates : List (PartitionKey × RecordId)}
    (hrun : Runs C (readLeafDrainCandidates t candidates) s slots s') :
    s.SameWrites s' ∧ Verified (s.onto C) t candidates slots := by
  simp only [readLeafDrainCandidates, runs_bind, runs_read] at hrun
  obtain ⟨_, _, hentries, _, _, hlocations, hslots, rfl, -⟩ := hrun
  obtain ⟨hsame, hall⟩ := runs_readDrainEntries hentries
  exact ⟨hsame.trans ((readOnly_readDrainLocations _).sameWrites hlocations),
    drainSlots_verified hall hslots⟩

lemma runs_readChildDrainCandidates {children : List PartitionKey} :
    ∀ {entries : List (Option ChildEntry)} {s : Txn ValueOf},
      Runs C (readChildDrainCandidates t source children) s entries s' → s.SameWrites s' ∧
        (∀ e ∈ entries.filterMap id, Store.childEntry (s.onto C) t source e.child = some e) ∧
        ((entries.filterMap id).map ChildEntry.child).Sublist children := by
  induction children with
  | nil =>
    intro entries s hrun
    obtain ⟨rfl, rfl, -⟩ := runs_pure.mp hrun
    exact ⟨.refl _, by simp, by simp⟩
  | cons c _ ih =>
    intro _ s hrun
    simp only [readChildDrainCandidates, runs_bind, runs_getChildEntry, runs_ensure,
      runs_pure] at hrun
    obtain ⟨o, _, ⟨ho, rfl, -⟩, -, _, ⟨hchild, rfl, -⟩, _, _, hrest, rfl, rfl, -⟩ := hrun
    obtain ⟨hsame, hall, hsub⟩ := ih hrest
    refine ⟨⟨hsame.snapshot, hsame.writes⟩, ?_⟩
    cases o with
    | none => exact ⟨hall, hsub.trans (List.sublist_cons_self _ _)⟩
    | some e =>
      have hc := hchild e rfl
      constructor
      · intro e' he'
        simp only [filterMap_cons, id_eq] at he'
        rcases mem_cons.mp he' with rfl | he'
        · rw [hc]
          exact ho.symm
        · exact hall e' he'
      · simp only [filterMap_cons, id_eq, map_cons, hc]
        exact hsub.cons_cons c

/-! ### The attempts -/

variable {routing : α → Except Error VectorData}

lemma chooseTargets_fst {entries : List α} :
    ∀ {balance : SplitBalance} {moves : List (α × PartitionKey)},
      chooseTargets ix targets a b routing balance entries = .ok moves →
        moves.map Prod.fst = entries := by
  induction entries with
  | nil =>
    intro balance moves hok
    cases hok
    rfl
  | cons e _ ih =>
    intro _ _ hok
    simp only [chooseTargets, bind_eq_ok] at hok
    obtain ⟨_, -, ⟨_, _⟩, -, _, hmoves, hok⟩ := hok
    cases hok
    rw [map_cons, ih hmoves]

lemma SplitBalance.choose_names {balance balance' : SplitBalance} {x y : ℤ}
    {target : PartitionKey}
    (hok : balance.choose targets.left x targets.right y = .ok (target, balance')) :
    targets.Names target := by
  simp only [SplitBalance.choose, nearerOfTwo] at hok
  split_ifs at hok <;> cases hok <;> simp_all

lemma chooseTargets_names {entries : List α} :
    ∀ {balance : SplitBalance} {moves : List (α × PartitionKey)},
      chooseTargets ix targets a b routing balance entries = .ok moves →
        ∀ m ∈ moves, targets.Names m.2 := by
  induction entries with
  | nil =>
    intro balance moves hok
    cases hok
    exact fun m hm => by cases hm
  | cons e _ ih =>
    intro _ _ hok m hm
    simp only [chooseTargets, bind_eq_ok] at hok
    obtain ⟨_, -, ⟨_, _⟩, hchoose, _, hmoves, hok⟩ := hok
    cases hok
    rcases mem_cons.mp hm with rfl | hm
    · exact SplitBalance.choose_names hchoose
    · exact ih hmoves m hm

lemma mapM_pair_fst {β : Type} {f : α → Except Error (α × β)} {as : List α}
    (hf : ∀ {a m}, f a = .ok m → m.1 = a) :
    ∀ {moves : List (α × β)}, as.mapM f = .ok moves → moves.map Prod.fst = as := by
  induction as with
  | nil =>
    intro moves hok
    rw [mapM_nil, pure_eq_ok] at hok
    rw [← hok]
    rfl
  | cons a _ ih =>
    intro _ hok
    rw [mapM_cons, bind_eq_ok] at hok
    obtain ⟨m, hm, hok⟩ := hok
    obtain ⟨_, hrest, hok⟩ := bind_eq_ok.mp hok
    rw [pure_eq_ok] at hok
    rw [← hok, map_cons, ih hrest, hf hm]

lemma leafEffects_relocateVerified {candidates : List (PartitionKey × RecordId)}
    {moves : List (LeafDrainEntry × PartitionKey)} {movement : Movement}
    (hverified : Verified (s.onto C) t candidates slots)
    (hdistinct : (candidates.map Prod.snd).Nodup)
    (hmoves : (moves.map Prod.fst).Sublist (slots.filterMap id))
    (hrun : Runs C (relocateLeafEntries ix t moves movement) s n s') :
    LeafEffects ix (s.onto C) (s'.onto C) ∧ ∀ source, (∀ c ∈ candidates, c.1 = source) →
      Drained t source (s.onto C) (s'.onto C) n := by
  have hmem : ∀ m ∈ moves, m.1 ∈ slots.filterMap id := fun m hm =>
    hmoves.subset (mem_map.mpr ⟨m, hm, rfl⟩)
  have hids : (moves.map fun m => m.1.entry.recordId).Sublist (candidates.map Prod.snd) := by
    have hsub := (hmoves.map fun d => d.entry.recordId).trans hverified.ids
    rwa [map_map] at hsub
  obtain ⟨heffects, hdrained⟩ := leafEffects_relocateLeafEntries
    (fun m hm => (hverified.stored m.1 (hmem m hm)).1)
    (hdistinct.sublist hids) hrun
  refine ⟨heffects, fun source hsource => hdrained source fun m hm => ?_⟩
  obtain ⟨c, hc, hcm⟩ := mem_map.mp (hverified.stored m.1 (hmem m hm)).2
  exact hcm.symm.trans (hsource c hc)

lemma effects_drainToTargets {balance : SplitBalance} (hdistinct : batch.Distinct)
    (hfamily : ∀ c, targets.Names c →
      ∃ n, Store.state (s.onto C) t c = some (.receivingSplit source n))
    (hrun : Runs C (drainToTargets ix t source targets a b balance batch) s n s') :
    (Effects ix (s.onto C) (s'.onto C) ∧ Drained t source (s.onto C) (s'.onto C) n) ∧
      (batch.IsLeaf → LeafEffects ix (s.onto C) (s'.onto C)) := by
  cases batch with
  | leaf ids =>
    simp only [drainToTargets, runs_bind, runs_ofExcept] at hrun
    obtain ⟨_, _, hslots, moves, s₁, ⟨hmoves, rfl, -⟩, hrun⟩ := hrun
    obtain ⟨hsame, hverified⟩ := runs_readLeafDrainCandidates hslots
    rw [← hsame.onto_eq C] at hverified ⊢
    have hids : ids.Nodup := hdistinct
    obtain ⟨heffects, hdrained⟩ := leafEffects_relocateVerified hverified
      (by simpa [Function.comp_def] using hids) (chooseTargets_fst hmoves ▸ .refl _) hrun
    exact ⟨⟨heffects.effects, hdrained source (by simp)⟩, fun _ => heffects⟩
  | child =>
    simp only [drainToTargets, runs_bind, runs_ofExcept] at hrun
    obtain ⟨entries, _, hentries, moves, _, ⟨hmoves, rfl, -⟩, hrun⟩ := hrun
    obtain ⟨hsame, hstored, hsub⟩ := runs_readChildDrainCandidates hentries
    rw [← hsame.onto_eq C] at hstored hfamily ⊢
    have hfst := chooseTargets_fst hmoves
    refine ⟨effects_relocateChildEntries (by decide) ?_ ?_
      (fun _ m hm _ _ _ => hfamily m.2 (chooseTargets_names hmoves m hm)) hrun,
        fun hleaf => hleaf.elim⟩
    · exact fun m hm => hstored m.1 (hfst ▸ mem_map.mpr ⟨m, hm, rfl⟩)
    · have hmap : (moves.map fun m => m.1.child) = (entries.filterMap id).map ChildEntry.child := by
        rw [← hfst, map_map]
        rfl
      exact hmap ▸ hdistinct.sublist hsub

def DrainStep.Reports (t : TreeKey) (source : PartitionKey) (S S' : Store) : DrainStep → Prop
  | drained moved remaining => ∃ h h', S.header t source = some h ∧
      S'.header t source = some h' ∧ h.entryCount = h'.entryCount + moved ∧
      h'.entryCount = remaining
  | sourceAdvanced => S' = S

lemma drained_reports {S' : Store} {h : PartitionHeader} (hh : S.header t source = some h)
    (hdrained : Drained t source S S' n) :
    (DrainStep.drained n (h.entryCount - n)).Reports t source S S' := by
  obtain ⟨h', hh', hcount⟩ := hdrained h hh
  exact ⟨h, h', hh, hh', hcount, by omega⟩

/-- A split drain attempt finds its source advanced, or drains it. -/
lemma runs_splitDrainAttempt
    (hrun : Runs C (splitDrainAttempt ix t source targets batch) s step s') :
    (s.SameWrites s' ∧ step = .sourceAdvanced) ∨ ∃ moved h pair began left right a b balance,
      step = .drained moved (h.entryCount - moved) ∧ Store.header (s.onto C) t source = some h ∧
      Store.state (s.onto C) t source = some (.drainingSplit pair began) ∧
      (pair.left = targets.left ∧ pair.right = targets.right) ∧ h.state = .drainingSplit ∧
      Store.header (s.onto C) t targets.left = some left ∧
      Store.header (s.onto C) t targets.right = some right ∧
      Runs C (drainToTargets ix t source targets a b balance batch)
        ((((s.protect (.header t source)).protect (.state t source)).protect
          (.header t targets.left)).protect (.header t targets.right)) moved s' := by
  simp only [splitDrainAttempt, runs_bind, runs_getHeader, runs_getState] at hrun
  obtain ⟨header, _, ⟨hheader, rfl, -⟩, state, _, ⟨hstate, rfl, -⟩, hrun⟩ := hrun
  have hidle (hpure : Runs C (pure .sourceAdvanced : WriteTxn DrainStep)
      ((s.protect (.header t source)).protect (.state t source)) step s') :
      s.SameWrites s' ∧ step = .sourceAdvanced := by
    obtain ⟨rfl, rfl, -⟩ := runs_pure.mp hpure
    exact ⟨⟨rfl, rfl⟩, rfl⟩
  rcases header with _ | h <;> rcases state with _ | state
  · exact .inl (hidle hrun)
  · exact (runs_fail.mp hrun).elim
  · exact (runs_fail.mp hrun).elim
  cases state with
  | drainingSplit pair began =>
    simp only [runs_bind, runs_ensure, runs_requireHeader, runs_read, runs_orFail,
      runs_ofExcept] at hrun
    obtain ⟨-, _, ⟨hpair, rfl, -⟩, -, _, ⟨hdraining, rfl, -⟩, left, _, ⟨hleft, rfl, -⟩, right, _,
      ⟨hright, rfl, -⟩, _, _, ⟨-, rfl, -⟩, a, _, ⟨-, rfl, -⟩, b, _, ⟨-, rfl, -⟩, n, _, hdrain,
      hstep, rfl, -⟩ := hrun
    rw [drainedStep] at hstep
    split_ifs at hstep
    cases hstep
    exact .inr ⟨n, h, pair, began, left, right, a, b, _, rfl, hheader.symm, hstate.symm, hpair,
      hdraining, hleft, hright, hdrain⟩
  | _ => exact .inl (hidle hrun)

/-- **A split drain attempt commits one effect for each entry it moves.** -/
theorem effects_splitDrainAttempt (hstore : Coherent ix (s.onto C)) (hdistinct : batch.Distinct)
    (hrun : Runs C (splitDrainAttempt ix t source targets batch) s step s') :
    (Effects ix (s.onto C) (s'.onto C) ∧ step.Reports t source (s.onto C) (s'.onto C)) ∧
      (batch.IsLeaf → LeafEffects ix (s.onto C) (s'.onto C)) := by
  rcases runs_splitDrainAttempt hrun with ⟨hsame, rfl⟩ |
    ⟨n, h, pair, began, _, _, _, _, _, rfl, hheader, hstate, hpair, -, -, -, hdrain⟩
  · rw [hsame.onto_eq C]
    exact ⟨⟨.refl, rfl⟩, fun _ => .refl⟩
  have hfamily : ∀ c, targets.Names c →
      ∃ n, Store.state (s.onto C) t c = some (.receivingSplit source n) := by
    intro c hc
    refine hstore.receiving_of_draining hstate ?_
    rw [SplitPair.Names, hpair.1, hpair.2]
    exact hc
  obtain ⟨⟨heffects, hdrained⟩, hleaf⟩ := effects_drainToTargets hdistinct (by exact hfamily) hdrain
  exact ⟨⟨heffects, drained_reports hheader hdrained⟩, hleaf⟩

lemma readOnly_revalidateTargets {level : ℕ} :
    ∀ targets : List PartitionKey, ReadOnly (revalidateTargets t level targets)
  | [] => readOnly_pure _
  | target :: rest => by
    refine readOnly_bind (readOnly_getForUpdate _) fun header => ?_
    cases header with
    | none => exact readOnly_pure _
    | some header =>
      exact readOnly_bind (readOnly_ensure _ _) fun _ =>
        readOnly_ite (readOnly_revalidateTargets rest) (readOnly_pure _)

lemma effects_drainToReady {level : ℕ} {o : Option ℕ} (hdistinct : batch.Distinct)
    (hrun : Runs C (drainToReady ix t source level candidates batch) s o s') :
    (Effects ix (s.onto C) (s'.onto C) ∧
      ∀ n, o = some n → Drained t source (s.onto C) (s'.onto C) n) ∧
      (batch.IsLeaf → LeafEffects ix (s.onto C) (s'.onto C)) := by
  cases batch with
  | leaf ids =>
    simp only [drainToReady, runs_bind, runs_ofExcept, runs_ite, runs_pure] at hrun
    obtain ⟨_, s₁, hslots, moves, _, ⟨hmoves, rfl, -⟩, _, s₂, hvalid,
      ⟨-, n, _, hrelocate, rfl, rfl, -⟩ | ⟨-, rfl, rfl, -⟩⟩ := hrun
    all_goals
      obtain ⟨hsame, hverified⟩ := runs_readLeafDrainCandidates hslots
      have hsame₂ := hsame.trans ((readOnly_revalidateTargets _).sameWrites hvalid)
    · rw [← hsame₂.onto_eq C] at hverified ⊢
      have hids : ids.Nodup := hdistinct
      have hfst := mapM_pair_fst (by
        intro entry m hm
        simp only [bind_eq_ok] at hm
        obtain ⟨_, -, _, -, hm⟩ := hm
        cases hm
        rfl) hmoves
      obtain ⟨heffects, hdrained⟩ := leafEffects_relocateVerified hverified
        (by simpa [Function.comp_def] using hids) (hfst ▸ .refl _) hrelocate
      refine ⟨⟨heffects.effects, fun m hm => ?_⟩, fun _ => heffects⟩
      cases hm
      exact hdrained source (by simp)
    · rw [hsame₂.onto_eq C]
      exact ⟨⟨.refl, fun n hn => by cases hn⟩, fun _ => .refl⟩
  | child =>
    simp only [drainToReady, runs_bind, runs_ofExcept, runs_ite, runs_pure] at hrun
    obtain ⟨entries, _, hentries, moves, _, ⟨hmoves, rfl, -⟩, _, _, hvalid,
      ⟨-, n, _, hrelocate, rfl, rfl, -⟩ | ⟨-, rfl, rfl, -⟩⟩ := hrun
    all_goals
      obtain ⟨hsame, hstored, hsub⟩ := runs_readChildDrainCandidates hentries
      have hsame₂ := hsame.trans ((readOnly_revalidateTargets _).sameWrites hvalid)
    · rw [← hsame₂.onto_eq C] at hstored ⊢
      have hfst := mapM_pair_fst (by
        intro _ m hm
        simp only [bind_eq_ok] at hm
        obtain ⟨_, -, hm⟩ := hm
        cases hm
        rfl) hmoves
      have hmap : (moves.map fun m => m.1.child) = (entries.filterMap id).map ChildEntry.child := by
        rw [← hfst, map_map]
        rfl
      obtain ⟨heffects, hdrained⟩ := effects_relocateChildEntries (by decide)
        (fun m hm => hstored m.1 (hfst ▸ mem_map.mpr ⟨m, hm, rfl⟩))
        (hmap ▸ hdistinct.sublist hsub) (fun h => by cases h) hrelocate
      refine ⟨⟨heffects, fun m hm => ?_⟩, fun hleaf => hleaf.elim⟩
      cases hm
      exact hdrained
    · rw [hsame₂.onto_eq C]
      exact ⟨⟨.refl, fun n hn => by cases hn⟩, fun _ => .refl⟩

/-- A merge drain attempt finds its source advanced, or drains it as far as its
targets still take the entries. -/
lemma runs_mergeDrainAttempt {o : Option DrainStep}
    (hrun : Runs C (mergeDrainAttempt ix t source candidates batch) s o s') :
    (s.SameWrites s' ∧ o = some .sourceAdvanced) ∨ ∃ moved h began level,
      (o = moved.map fun n => .drained n (h.entryCount - n)) ∧
      Store.header (s.onto C) t source = some h ∧
      Store.state (s.onto C) t source = some (.merging began) ∧ h.state = .merging ∧
      Runs C (drainToReady ix t source level candidates batch)
        ((s.protect (.header t source)).protect (.state t source)) moved s' := by
  simp only [mergeDrainAttempt, runs_bind, runs_getHeader, runs_getState] at hrun
  obtain ⟨header, _, ⟨hheader, rfl, -⟩, state, _, ⟨hstate, rfl, -⟩, hrun⟩ := hrun
  rcases header with _ | h <;> rcases state with _ | state
  · obtain ⟨rfl, rfl, -⟩ := runs_pure.mp hrun
    exact .inl ⟨⟨rfl, rfl⟩, rfl⟩
  · exact (runs_fail.mp hrun).elim
  · exact (runs_fail.mp hrun).elim
  cases state with
  | merging began =>
    simp only [runs_bind, runs_ensure] at hrun
    obtain ⟨-, _, ⟨hmerging, rfl, -⟩, moved, s₂, hdrain, hrun⟩ := hrun
    have hends : s₂ = s' ∧ o = moved.map fun n => .drained n (h.entryCount - n) := by
      cases moved with
      | none =>
        obtain ⟨rfl, rfl, -⟩ := runs_pure.mp hrun
        exact ⟨rfl, rfl⟩
      | some n =>
        simp only [runs_bind, runs_ofExcept, runs_pure] at hrun
        obtain ⟨_, _, ⟨hstep, rfl, -⟩, rfl, rfl, -⟩ := hrun
        rw [drainedStep] at hstep
        split_ifs at hstep
        cases hstep
        exact ⟨rfl, rfl⟩
    obtain ⟨rfl, ho⟩ := hends
    exact .inr ⟨moved, h, began, _, ho, hheader.symm, hstate.symm, hmerging, hdrain⟩
  | _ => exact (runs_fail.mp hrun).elim

/-- **A merge drain attempt commits one effect for each entry it moves.** -/
theorem effects_mergeDrainAttempt {o : Option DrainStep} (hdistinct : batch.Distinct)
    (hrun : Runs C (mergeDrainAttempt ix t source candidates batch) s o s') :
    (Effects ix (s.onto C) (s'.onto C) ∧
      ∀ step, o = some step → step.Reports t source (s.onto C) (s'.onto C)) ∧
      (batch.IsLeaf → LeafEffects ix (s.onto C) (s'.onto C)) := by
  rcases runs_mergeDrainAttempt hrun with ⟨hsame, rfl⟩ | ⟨_, h, _, _, rfl, hheader, -, -, hdrain⟩
  · rw [hsame.onto_eq C]
    refine ⟨⟨.refl, fun step hstep => ?_⟩, fun _ => .refl⟩
    cases hstep
    rfl
  · obtain ⟨⟨heffects, hdrained⟩, hleaf⟩ := effects_drainToReady hdistinct hdrain
    refine ⟨⟨heffects, fun step hstep => ?_⟩, hleaf⟩
    obtain ⟨n, rfl, rfl⟩ := map_eq_some_iff.mp hstep
    exact drained_reports hheader (hdrained n rfl)

lemma refineMoves_sublist :
    ∀ {planned : List RefineMove} {moves : List (LeafDrainEntry × PartitionKey)},
      ((slots.zip planned).mapM fun (entry, m) => match entry with
        | some entry => Except.ok (entry, m.target)
        | none => .error Error.corrupt) = Except.ok moves →
      (moves.map Prod.fst).Sublist (slots.filterMap id) := by
  induction slots with
  | nil =>
    intro planned moves hok
    rw [List.zip_nil_left, mapM_nil, pure_eq_ok] at hok
    rw [← hok]
    exact List.nil_sublist _
  | cons slot _ ih =>
    intro planned _ hok
    cases planned with
    | nil =>
      rw [List.zip_nil_right, mapM_nil, pure_eq_ok] at hok
      rw [← hok]
      exact List.nil_sublist _
    | cons m =>
      rw [zip_cons_cons, mapM_cons, bind_eq_ok] at hok
      obtain ⟨_, hfirst, hok⟩ := hok
      obtain ⟨_, hrest, hok⟩ := bind_eq_ok.mp hok
      rw [pure_eq_ok] at hok
      cases slot with
      | none => cases hfirst
      | some entry =>
        cases hfirst
        rw [← hok]
        simp only [map_cons, filterMap_cons, id_eq]
        exact (ih hrest).cons_cons entry

lemma leafEffects_refineBatch {batch : RefineBatch} {u : Unit}
    (hrun : Runs C (refineBatch ix t batch) s u s') : LeafEffects ix (s.onto C) (s'.onto C) := by
  simp only [refineBatch, runs_bind, runs_ofExcept, runs_pure] at hrun
  obtain ⟨_, _, hslots, _, _, ⟨hmoves, rfl, -⟩, n, _, hrelocate, -, rfl, -⟩ := hrun
  obtain ⟨hsame, hverified⟩ := runs_readLeafDrainCandidates hslots
  rw [← hsame.onto_eq C] at hverified ⊢
  have hdistinct := batch.distinct
  exact (leafEffects_relocateVerified hverified (by simpa [Function.comp_def] using hdistinct)
    (refineMoves_sublist hmoves) hrelocate).1

end
