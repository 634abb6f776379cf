/-
The occupancy of a graph index.

An index with local graphs rewrites an internal body and its graph in one
transaction, so its internal partitions are bounded: a split threshold, and the two
entries an exposure adds.

* `Occupancy` — the bound on every internal partition, on a split with its two
  targets, and on a merging source;
* `Effect.occupancy` — every effect keeps it.
-/
import Ktann.Committed.Guarantees

open BodyPlan (graphNodes)
open Store (state_put)
open PartitionHeader (adjust removedEntry)

open TxnM WriteTxn

section

variable {ix : Index} {S S' : Store} {t : TreeKey} {p : PartitionKey} {h : PartitionHeader}

/-- The entries of an internal partition; a leaf has none. -/
def Store.nodes (S : Store) (t : TreeKey) (p : PartitionKey) : ℕ := graphNodes (S.header t p)

/-- The greatest number of entries of an internal partition of a graph index. -/
def Index.ceiling (ix : Index) : ℕ := ix.maxInternalPartitionEntries + 2

/-- The bounds on the internal partitions of a graph index. -/
structure Occupancy (ix : Index) (S : Store) : Prop where
  bounded : ∀ t p, S.nodes t p ≤ ix.ceiling
  /-- A draining split and its two targets share one bound. -/
  family : ∀ {t p targets n}, S.state t p = some (.drainingSplit targets n) →
    S.nodes t p + S.nodes t targets.left + S.nodes t targets.right ≤ ix.ceiling
  merging : ∀ {t p h n}, S.header t p = some h → S.state t p = some (.merging n) → 1 < h.level →
    h.entryCount < ix.minInternalPartitionEntries

lemma Store.nodes_internal (hh : S.header t p = some h) (hlevel : 1 < h.level) :
    S.nodes t p = h.entryCount := by
  simp [Store.nodes, graphNodes, hh, hlevel]

lemma Store.nodes_le (hh : S.header t p = some h) : S.nodes t p ≤ h.entryCount := by
  simp only [Store.nodes, graphNodes, hh, elim_some]
  split_ifs <;> omega

/-! ### Stores that have not grown -/

/-- No internal partition of `S'` is new or larger than in `S`, and none has begun to
drain. -/
structure Lower (S S' : Store) : Prop where
  header : ∀ {t p h'}, S'.header t p = some h' → 1 < h'.level →
    ∃ h, S.header t p = some h ∧ h.level = h'.level ∧ h'.entryCount ≤ h.entryCount
  state : ∀ {t p state}, S'.state t p = some state → state.Drains → S.state t p = some state

lemma Lower.nodes_le (hl : Lower S S') : S'.nodes t p ≤ S.nodes t p := by
  by_cases hinternal : ∃ h', S'.header t p = some h' ∧ 1 < h'.level
  · obtain ⟨h', hh', hlevel⟩ := hinternal
    obtain ⟨h, hh, heq, hle⟩ := hl.header hh' hlevel
    rwa [Store.nodes_internal hh' hlevel, Store.nodes_internal hh (by omega)]
  · have hzero : S'.nodes t p = 0 := by
      cases hh' : S'.header t p with
      | none => simp [Store.nodes, graphNodes, hh']
      | some h' => simpa [Store.nodes, graphNodes, hh'] using
          fun hlevel => absurd ⟨h', hh', hlevel⟩ hinternal
    omega

lemma Lower.trans {S'' : Store} (hl : Lower S S') (hl' : Lower S' S'') : Lower S S'' where
  header hh hlevel := by
    obtain ⟨k, hk, hklevel, hle⟩ := hl'.header hh hlevel
    obtain ⟨k', hk', hklevel', hle'⟩ := hl.header hk (by omega)
    exact ⟨k', hk', hklevel'.trans hklevel, hle.trans hle'⟩
  state hs hdrains := hl.state (hl'.state hs hdrains) hdrains

lemma Occupancy.lower (ho : Occupancy ix S) (hl : Lower S S') : Occupancy ix S' where
  bounded t p := hl.nodes_le.trans (ho.bounded t p)
  family {t p targets n} hstate := by
    have hsource := hl.nodes_le (t := t) (p := p)
    have hleft := hl.nodes_le (t := t) (p := targets.left)
    have hright := hl.nodes_le (t := t) (p := targets.right)
    have hfamily := ho.family (hl.state hstate (.inl rfl))
    omega
  merging hh hstate hlevel := by
    obtain ⟨k, hk, hklevel, hle⟩ := hl.header hh hlevel
    exact hle.trans_lt (ho.merging hk (hl.state hstate (.inr rfl)) (by omega))

lemma Lower.of_same (hheader : ∀ t p, S'.header t p = S.header t p)
    (hstate : ∀ t p, S'.state t p = S.state t p) : Lower S S' where
  header {t p h'} hh _ := ⟨h', hheader t p ▸ hh, rfl, le_rfl⟩
  state {t p _} hs _ := hstate t p ▸ hs

variable {k h' : PartitionHeader} {targets : SplitPair} {n remaining : ℕ} {a b : VectorData}
  {source : PartitionKey} {movement : Movement} {build : GraphBuilder} {plan : GraphPlan}
  {moves : List (ChildEntry × PartitionKey)} {other : Option (PartitionKey × PartitionHeader)}
  {e : Error} {candidates : List LevelCandidate} {entries : List ChildEntry}

lemma Lower.put_header (hput : ∀ t' p', S'.header t' p' =
      if t' = t ∧ p' = p then some k else S.header t' p')
    (hstate : ∀ t p, S'.state t p = S.state t p)
    (hk : k.level ≤ 1 ∨ ∃ h, S.header t p = some h ∧ h.level = k.level ∧
      k.entryCount ≤ h.entryCount) : Lower S S' where
  header {t' p' h'} hh' hlevel := by
    rw [hput] at hh'
    split_ifs at hh' with htp
    · obtain ⟨rfl, rfl⟩ := htp
      cases hh'
      rcases hk with hleaf | hk
      · omega
      · exact hk
    · exact ⟨h', hh', rfl, le_rfl⟩
  state {t p _} hs _ := hstate t p ▸ hs

lemma lower_putLeaf {e : LeafEntry} {y : PartitionSynopsis} (leaf : h'.level = 1) :
    Lower S (S.putLeaf t p e h' y) :=
  .put_header (t := t) (p := p) (k := h') (by simp [putLeaf]) (by simp [putLeaf]) (.inl leaf.le)

lemma lower_eraseLeaf (id : RecordId) (header : S.header t p = some h)
    (removed : h.removedEntry = .ok h') : Lower S (S.eraseLeaf t p id h') := by
  obtain ⟨hadj, hcount⟩ := removedEntry_ok removed
  exact .put_header (t := t) (p := p) (k := h') (by simp [eraseLeaf])
    (by simp [eraseLeaf]) (.inr ⟨h, header, hadj.level.symm, by omega⟩)

lemma lower_eraseChild {c : PartitionKey} (header : S.header t p = some h)
    (removed : h.removedEntry = .ok h') : Lower S (S.eraseChild t p c h') := by
  obtain ⟨hadj, hcount⟩ := removedEntry_ok removed
  exact .put_header (t := t) (p := p) (k := h') (by simp [eraseChild])
    (by simp [eraseChild]) (.inr ⟨h, header, hadj.level.symm, by omega⟩)

lemma lower_putRecord {record : VectorRecord} {payload : Option Bytes}
    {location : RecordLocation} : Lower S (S.putRecord record payload location) :=
  .of_same (fun t p => by cases payload <;> simp [putRecord])
    (fun t p => by cases payload <;> simp [putRecord])

lemma lower_restate {state : PartitionTransition} (header : S.header t p = some h)
    (hstate : ¬ state.Drains) : Lower S (S.restate t p h state) where
  header {t' p' k} hk _ := by
    simp only [restate, Store.header_put] at hk
    split_ifs at hk with htp
    · obtain ⟨rfl, rfl⟩ := htp
      cases hk
      exact ⟨h, header, rfl, le_rfl⟩
    · exact ⟨k, hk, rfl, le_rfl⟩
  state {t' p' state'} hs hdrains := by
    simp only [restate, state_put] at hs
    split_ifs at hs with htp
    · cases hs
      exact absurd hdrains hstate
    · exact hs

lemma lower_removePartition : Lower S (S.removePartition t p) where
  header {t' p' k} hk _ := by
    refine ⟨k, ?_, rfl, le_rfl⟩
    simp only [removePartition, Store.header_erase] at hk
    grind
  state {t' p' state} hs _ := by
    simp only [removePartition, Store.state_erase] at hs
    grind

lemma PartitionTransition.ready_not_drains (n : ℕ) : ¬ (PartitionTransition.ready n).Drains := by
  simp [PartitionTransition.Drains]

lemma lower_ready {left right : PartitionHeader} (hleft : S.header t targets.left = some left)
    (hright : S.header t targets.right = some right) :
    Lower S ((S.restate t targets.left left (.ready n)).restate t targets.right right
      (.ready n)) := by
  refine (lower_restate hleft (PartitionTransition.ready_not_drains n)).trans
    (lower_restate ?_ (PartitionTransition.ready_not_drains n))
  simpa [restate, targets.ne.symm] using hright

/-! ### Stores that have grown -/

section
variable (hS : Coherent ix S) (header : S.header t p = some h)
include hS header

lemma Coherent.state_of_header : ∃ state, S.state t p = some state ∧ h.state = state.state := by
  have hphase : (S.topology t).phase p ≠ none := by
    rw [Ne, hS.phase_eq_none, header]
    simp
  obtain ⟨_, hphase⟩ := ne_none_iff_exists'.mp hphase
  obtain ⟨state, hstate, rfl⟩ := map_eq_some_iff.mp hphase
  have hhead : (S.topology t).head p = some h.head := by simp [Store.topology, header]
  exact ⟨state, hstate, ((hS.topology t).agree hhead hphase).trans state.phase_state⟩

lemma Coherent.not_target (hstate : h.state ≠ .receivingSplit) {q : PartitionKey}
    (hq : S.state t q = some (.drainingSplit targets n)) : ¬ targets.Names p := by
  intro hnames
  obtain ⟨m, hm⟩ := hS.receiving_of_draining hq hnames
  obtain ⟨_, hs, heq⟩ := hS.state_of_header header
  cases hs.symm.trans hm
  exact hstate heq

end

lemma Occupancy.put_header (ho : Occupancy ix S)
    (hput : ∀ t' p', S'.header t' p' = if t' = t ∧ p' = p then some k else S.header t' p')
    (hkeep : ∀ t' q, ¬ (t' = t ∧ q = p) → S'.state t' q = S.state t' q)
    (hfits : k.entryCount ≤ ix.ceiling)
    (hsource : ∀ {state}, S'.state t p = some state → ¬ state.Drains)
    (htarget : ∀ {q targets n}, S.state t q = some (.drainingSplit targets n) →
      ¬ targets.Names p) : Occupancy ix S' := by
  have hother {t' : TreeKey} {q : PartitionKey} {state : PartitionTransition}
      (hs : S'.state t' q = some state) (hdrains : state.Drains) :
      ¬ (t' = t ∧ q = p) ∧ S.state t' q = some state := by
    have hne : ¬ (t' = t ∧ q = p) := by
      rintro ⟨rfl, rfl⟩
      exact hsource hs hdrains
    exact ⟨hne, hkeep t' q hne ▸ hs⟩
  have hnodes {t' : TreeKey} {q : PartitionKey} (hne : ¬ (t' = t ∧ q = p)) :
      S'.nodes t' q = S.nodes t' q := by
    rw [Store.nodes, hput, if_neg hne, Store.nodes]
  constructor
  · intro t' q
    by_cases htp : t' = t ∧ q = p
    · have hk : S'.header t' q = some k := by rw [hput, if_pos htp]
      exact (Store.nodes_le hk).trans hfits
    · exact hnodes htp ▸ ho.bounded t' q
  · intro t' q targets n hs
    obtain ⟨hne, hs⟩ := hother hs (.inl rfl)
    have hname {c : PartitionKey} (hc : targets.Names c) : ¬ (t' = t ∧ c = p) := by
      rintro ⟨rfl, rfl⟩
      exact htarget hs hc
    rw [hnodes hne, hnodes (hname targets.names_left), hnodes (hname targets.names_right)]
    exact ho.family hs
  · intro t' q h' n hh' hs hlevel
    obtain ⟨hne, hs⟩ := hother hs (.inr rfl)
    rw [hput, if_neg hne] at hh'
    exact ho.merging hh' hs hlevel

lemma Store.state_createTarget (S : Store) (source q : PartitionKey) (v : VectorData) (n : ℕ)
    (t' : TreeKey) (p' : PartitionKey) : (S.createTarget ix t source h q v n).state t' p' =
      if t' = t ∧ p' = q then some (.receivingSplit source n) else S.state t' p' := by
  by_cases hl : h.level = 1 <;> simp [Store.createTarget, hl]

lemma Occupancy.expose (ho : Occupancy ix S) (hS : Coherent ix S) {began : ℕ}
    (header : S.header t p = some h) (state : S.state t p = some (.splitting targets began)) :
    Occupancy ix (((S.createTarget ix t p h targets.left a n).createTarget ix t p h targets.right b
      n).restate t p h (.drainingSplit targets n)) := by
  set S' := ((S.createTarget ix t p h targets.left a n).createTarget ix t p h targets.right b
    n).restate t p h (.drainingSplit targets n) with hS'
  obtain ⟨hl, hr⟩ := hS.targets_absent state
  have hheader : ∀ t' q, S'.header t' q = if t' = t ∧ q = p then some (h.withState .drainingSplit)
      else if t' = t ∧ targets.Names q then
        some (.fresh h.level .receivingSplit h.level_pos h.level_lt)
      else S.header t' q := by
    intro t' q
    simp only [hS', restate, Store.header_put, header_createTarget, SplitPair.Names,
      PartitionTransition.state_drainingSplit]
    grind
  have hstate : ∀ t' q, S'.state t' q = if t' = t ∧ q = p then some (.drainingSplit targets n)
      else if t' = t ∧ targets.Names q then some (.receivingSplit p n) else S.state t' q := by
    intro t' q
    simp only [hS', restate, state_put, Store.state_createTarget, SplitPair.Names]
    grind
  have hp : ¬ targets.Names p := by
    rintro (rfl | rfl)
    · cases hl.symm.trans header
    · cases hr.symm.trans header
  have hfresh : ∀ {c}, targets.Names c → S'.nodes t c = 0 := by
    intro c hc
    have hcp : c ≠ p := fun heq => hp (heq ▸ hc)
    have hc' : S'.header t c = some (.fresh h.level .receivingSplit h.level_pos h.level_lt) := by
      rw [hheader, if_neg (by simp [hcp]), if_pos ⟨rfl, hc⟩]
    exact Nat.le_zero.mp (Store.nodes_le hc')
  have hnodes : ∀ {t' q}, ¬ (t' = t ∧ targets.Names q) → S'.nodes t' q = S.nodes t' q := by
    intro t' q hq
    rw [Store.nodes, hheader, if_neg hq]
    split_ifs with hsource
    · obtain ⟨rfl, rfl⟩ := hsource
      rw [Store.nodes, header]
      rfl
    · rfl
  -- the targets were absent, so no older split has one of them for its own
  have hother : ∀ {t' q targets' m}, S.state t' q = some (.drainingSplit targets' m) →
      ∀ {c}, targets'.Names c → ¬ (t' = t ∧ targets.Names c) := by
    rintro t' q targets' m hq c hc ⟨rfl, hnames⟩
    obtain ⟨_, hm'⟩ := hS.receiving_of_draining hq hc
    have habsent : S.header t' c = none := by
      rcases hnames with rfl | rfl
      · exact hl
      · exact hr
    have hphase := hS.phase_eq_none.mpr habsent
    simp [topology, hm'] at hphase
  constructor
  · intro t' q
    by_cases hq : t' = t ∧ targets.Names q
    · obtain ⟨rfl, hq⟩ := hq
      rw [hfresh hq]
      exact Nat.zero_le _
    · exact hnodes hq ▸ ho.bounded t' q
  · intro t' q targets' m hs
    rw [hstate] at hs
    split_ifs at hs with hsource htarget
    · cases hs
      obtain ⟨rfl, rfl⟩ := hsource
      rw [hfresh targets.names_left, hfresh targets.names_right, hnodes (by simp [hp])]
      exact ho.bounded t' q
    · cases hs
    · rw [hnodes htarget, hnodes (hother hs targets'.names_left),
        hnodes (hother hs targets'.names_right)]
      exact ho.family hs
  · intro t' q k m hk hs hlevel
    rw [hheader] at hk
    rw [hstate] at hs
    split_ifs at hk hs
    · cases hs
    · cases hs
    · exact ho.merging hk hs hlevel

lemma Coherent.target_header (hS : Coherent ix S) (header : S.header t p = some h)
    (hstate : S.state t p = some (.drainingSplit targets n)) {c : PartitionKey}
    (hc : targets.Names c) : ∃ k, S.header t c = some k ∧ k.level = h.level := by
  obtain ⟨hhead, hphase⟩ := hS.authority header hstate
  obtain ⟨k, hk, heq⟩ := map_eq_some_iff.mp ((hS.topology t).target_head hhead hphase hc)
  exact ⟨k, hk, congrArg Head.level heq⟩

lemma Coherent.receiving_family (hS : Coherent ix S) {target : PartitionKey} {m : ℕ}
    (hreceiving : S.state t target = some (.receivingSplit source m)) :
    ∃ targets n, S.state t source = some (.drainingSplit targets n) ∧ targets.Names target := by
  obtain ⟨targets, hphase, hnames⟩ :=
    (hS.topology t).receiving (phase_receiving.mpr ⟨m, hreceiving⟩)
  obtain ⟨n, hn⟩ := phase_draining.mp hphase
  exact ⟨targets, n, hn, hnames⟩

lemma Occupancy.moveChild (ho : Occupancy ix S) (hS : Coherent ix S) {target : PartitionKey}
    {e : ChildEntry} {h k' : PartitionHeader} (ne : source ≠ target)
    (header : S.header t source = some h) (sourceState : h.state = movement.sourceState)
    (removed : h.removedEntry = .ok h') (targetHeader : S.header t target = some k)
    (targetState : k.state = movement.targetState)
    (family : movement = .split → ∃ n, S.state t target = some (.receivingSplit source n))
    (level : k.level = h.level) (added : k.addedEntry = .ok k')
    (fits : k.entryCount < ix.maxInternalPartitionEntries + 2) :
    Occupancy ix ((S.putChild t target e k').eraseChild t source e.child h') := by
  set S' := (S.putChild t target e k').eraseChild t source e.child h' with hS'
  obtain ⟨hadj, hcount⟩ := removedEntry_ok removed
  obtain ⟨kadj, _⟩ := addedEntry_ok added
  have hheader : ∀ t' q, S'.header t' q = if t' = t ∧ q = source then some h'
      else if t' = t ∧ q = target then some k' else S.header t' q := by
    intro t' q
    simp [hS', eraseChild, putChild]
  have hstate : ∀ t' q, S'.state t' q = S.state t' q := by
    simp [hS', eraseChild, putChild]
  have hsource' : S'.header t source = some h' := by simp [hheader]
  have htarget' : S'.header t target = some k' := by simp [hheader, ne.symm]
  have hsourceNodes : S'.nodes t source ≤ S.nodes t source := by
    simp only [Store.nodes, graphNodes, hsource', header, elim_some, hadj.level]
    split_ifs <;> omega
  have hsum : S'.nodes t source + S'.nodes t target = S.nodes t source + S.nodes t target := by
    simp only [Store.nodes, graphNodes, hsource', htarget', header, targetHeader,
      elim_some, hadj.level, kadj.level, level]
    split_ifs <;> omega
  have hnodes : ∀ {t' q}, ¬ (t' = t ∧ q = source) → ¬ (t' = t ∧ q = target) →
      S'.nodes t' q = S.nodes t' q := by
    intro t' q hs ht
    rw [Store.nodes, hheader, if_neg hs, if_neg ht, Store.nodes]
  have hnotReceiving : h.state ≠ .receivingSplit := by
    rw [sourceState]
    cases movement <;> simp [Movement.sourceState]
  constructor
  · intro t' q
    by_cases hs : t' = t ∧ q = source
    · obtain ⟨rfl, rfl⟩ := hs
      exact hsourceNodes.trans (ho.bounded t' q)
    · by_cases ht : t' = t ∧ q = target
      · obtain ⟨rfl, rfl⟩ := ht
        refine (Store.nodes_le htarget').trans ?_
        rw [Index.ceiling]
        omega
      · exact hnodes hs ht ▸ ho.bounded t' q
  · intro t' q targets m hs
    rw [hstate] at hs
    have hleftSource : ∀ {c}, targets.Names c → ¬ (t' = t ∧ c = source) := by
      rintro c hc ⟨rfl, rfl⟩
      exact hS.not_target header hnotReceiving hs hc
    by_cases hq : t' = t ∧ q = source
    · -- the split whose entry moved: its target gains what it lost
      obtain ⟨rfl, rfl⟩ := hq
      obtain ⟨state, hstate', heq⟩ := hS.state_of_header header
      cases hs.symm.trans hstate'
      have hsplit : movement = .split := by
        rw [sourceState] at heq
        cases movement <;> simp [Movement.sourceState] at heq ⊢
      obtain ⟨n, hn⟩ := family hsplit
      obtain ⟨_, n', htargets, hnames⟩ := hS.receiving_family hn
      cases hs.symm.trans htargets
      have hfamily := ho.family hs
      rcases hnames with rfl | rfl
      · rw [hnodes (q := targets.right) (hleftSource targets.names_right)
          (by simp [targets.ne.symm])]
        omega
      · rw [hnodes (q := targets.left) (hleftSource targets.names_left) (by simp [targets.ne])]
        omega
    · have htarget : ∀ {c}, targets.Names c → ¬ (t' = t ∧ c = target) := by
        rintro c hc ⟨rfl, rfl⟩
        by_cases hsplit : movement = .split
        · obtain ⟨n, hn⟩ := family hsplit
          obtain ⟨_, hn'⟩ := hS.receiving_of_draining hs hc
          cases hn.symm.trans hn'
          exact hq ⟨rfl, rfl⟩
        · refine hS.not_target targetHeader ?_ hs hc
          rw [targetState]
          cases movement <;> simp_all [Movement.targetState]
      have hqt : ¬ (t' = t ∧ q = target) := by
        rintro ⟨rfl, rfl⟩
        obtain ⟨_, hstate', heq⟩ := hS.state_of_header targetHeader
        cases hs.symm.trans hstate'
        rw [targetState] at heq
        cases movement <;> simp [Movement.targetState] at heq
      rw [hnodes hq hqt, hnodes (hleftSource targets.names_left) (htarget targets.names_left),
        hnodes (hleftSource targets.names_right) (htarget targets.names_right)]
      exact ho.family hs
  · intro t' q k₁ m hk hs hlevel
    rw [hstate] at hs
    rw [hheader] at hk
    split_ifs at hk with hsource htarget
    · obtain ⟨rfl, rfl⟩ := hsource
      cases hk
      have hmerging := ho.merging header hs (by rw [← hadj.level]; exact hlevel)
      omega
    · obtain ⟨rfl, rfl⟩ := htarget
      obtain ⟨_, hstate', heq⟩ := hS.state_of_header targetHeader
      cases hs.symm.trans hstate'
      rw [targetState] at heq
      cases movement <;> simp [Movement.targetState] at heq
    · exact ho.merging hk hs hlevel

/-- **Every effect on a graph index keeps its internal partitions within their
bounds.** -/
theorem Effect.occupancy (heffect : Effect ix S S') (hS : Coherent ix S)
    (hgraph : ix.localGraph = true) (ho : Occupancy ix S) : Occupancy ix S' := by
  cases heffect with
  | @createTree t n _ =>
    refine ho.lower ⟨fun {t' q k} hk hlevel => ?_, fun {t' q state} hs hdrains => ?_⟩
    · have hheader : (S.createTree ix t n).header t' q =
          if t' = t ∧ q = rootPartition then some .newRoot else S.header t' q := by
        simp [Store.createTree]
      rw [hheader] at hk
      split_ifs at hk
      · cases hk
        exact absurd hlevel (by decide)
      · exact ⟨k, hk, rfl, le_rfl⟩
    · have hstate : (S.createTree ix t n).state t' q =
          if t' = t ∧ q = rootPartition then some (.ready n) else S.state t' q := by
        simp [Store.createTree]
      rw [hstate] at hs
      split_ifs at hs
      · cases hs
        exact absurd hdrains (PartitionTransition.ready_not_drains n)
      · exact hs
  | insert id fields _ header leaf accepts added synopsis expanded =>
    have hleaf := (addedEntry_ok added).1.level.trans leaf
    exact ho.lower ((lower_putLeaf hleaf).trans lower_putRecord)
  | replace id fields location header leaf accepts touched synopsis expanded =>
    have hleaf := (touchedEntry_ok touched).1.level.trans leaf
    exact ho.lower ((lower_putLeaf hleaf).trans lower_putRecord)
  | replaceAcross id fields location ne sourceHeader removed header leaf accepts added synopsis
      expanded =>
    have hleaf := (addedEntry_ok added).1.level.trans leaf
    exact ho.lower (((lower_eraseLeaf _ sourceHeader removed).trans (lower_putLeaf hleaf)).trans
      lower_putRecord)
  | @delete id _ h h' _ header removed =>
    refine ho.lower ((lower_eraseLeaf id header removed).trans (.of_same ?_ ?_)) <;>
      simp [eraseRecord]
  | @moveLeaf t source target e movement k k' h h' y y' changed entry ne sourceHeader sourceState
      removed header leaf targetState added synopsis expanded =>
    have hleaf := (addedEntry_ok added).1.level.trans leaf
    have hmoved := (lower_eraseLeaf e.recordId sourceHeader removed).trans
      (lower_putLeaf (t := t) (p := target) (e := e) (y := y') hleaf)
    refine ho.lower (hmoved.trans (.of_same ?_ ?_)) <;> simp
  | @beginSplit t p h m m' targets began n header state _ _ left right =>
    have hallocate : Lower S (S.allocate t m') := .of_same (by simp [allocate]) (by simp [allocate])
    refine ho.lower (hallocate.trans (lower_restate (by simpa [allocate] using header) ?_))
    simp [PartitionTransition.Drains]
  | exposeRoot header state => exact ho.expose hS header state
  | @exposeChild t p parent h k k' k'' targets a b began n notRoot header state edge parentHeader
      level accepts once twice =>
    obtain ⟨kadj, kcount⟩ := addedEntry_ok once
    obtain ⟨_, _⟩ := addedEntry_ok twice
    obtain ⟨hl, hr⟩ := hS.targets_absent state
    have hparent : parent ≠ p := by
      rintro rfl
      cases header.symm.trans parentHeader
      omega
    have hnames : ¬ targets.Names parent := by
      rintro (rfl | rfl)
      · cases hl.symm.trans parentHeader
      · cases hr.symm.trans parentHeader
    have hstate : k.state ≠ .receivingSplit ∧ k.state ≠ .drainingSplit ∧ k.state ≠ .merging ∧
        k.entryCount ≤ ix.maxInternalPartitionEntries := by
      simp only [acceptsChildren, hgraph] at accepts
      cases hk : k.state <;> simp_all [PartitionState.acceptsWrites]
    refine (ho.expose (a := a) (b := b) (n := n) hS header state).put_header (t := t) (p := parent)
      (k := k'') ?_ ?_ ?_ ?_ ?_
    · intro t' q
      simp [restate, putChild, header_createTarget]
      grind
    · intro t' q _
      simp [restate, putChild, Store.state_createTarget]
    · rw [Index.ceiling]
      omega
    · intro state' hs hdrains
      simp only [SplitPair.Names, not_or] at hnames
      have hs' : S.state t parent = some state' := by
        simpa [restate, putChild, Store.state_createTarget, hparent, hnames.1, hnames.2] using hs
      obtain ⟨_, hs'', heq⟩ := hS.state_of_header parentHeader
      cases hs'.symm.trans hs''
      rcases hdrains with hdrains | hdrains
      · exact hstate.2.1 (heq.trans hdrains)
      · exact hstate.2.2.1 (heq.trans hdrains)
    · intro q targets' m hs
      simp only [restate, state_put, Store.state_createTarget] at hs
      split_ifs at hs
      · cases hs
        exact hnames
      · cases hs
      · cases hs
      · exact hS.not_target parentHeader hstate.1 hs
  | moveChild movement entry ne header sourceState removed targetHeader targetState family level
      added fits =>
    exact ho.moveChild hS ne header sourceState removed targetHeader targetState family level added
      (fits hgraph)
  | @finishRoot t h h' left right targets a b began n header state drained leftHeader rightHeader
      leftCentroid rightCentroid level ready count epoch =>
    have hlow := lower_ready (n := n) leftHeader rightHeader
    refine (ho.lower hlow).put_header (t := t) (p := rootPartition) (k := h') ?_ ?_ ?_ ?_ ?_
    · intro t' q
      simp [Store.promoteRoot]
    · intro t' q hne
      simp [Store.promoteRoot, hne]
    · rw [count, Index.ceiling]
      omega
    · intro _ hs
      simp only [Store.promoteRoot, state_put, and_self, if_true] at hs
      cases hs
      exact PartitionTransition.ready_not_drains n
    · intro q _ m hs
      have hstate : h.state ≠ .receivingSplit := by
        obtain ⟨_, hs', heq⟩ := hS.state_of_header header
        cases hs'.symm.trans state
        rw [heq]
        simp
      exact hS.not_target header hstate (hlow.state hs (.inl rfl))
  | @finishChild t p parent h k k' left right targets began n notRoot header state drained
      leftHeader rightHeader edge parentHeader removed =>
    obtain ⟨hl, hr⟩ := hS.parent_ne_target header state edge
    have hparent : ((S.restate t targets.left left (.ready n)).restate t targets.right right
        (.ready n)).header t parent = some k := by
      simpa [restate, hl, hr] using parentHeader
    exact ho.lower (((lower_ready leftHeader rightHeader).trans
      (lower_eraseChild hparent removed)).trans lower_removePartition)
  | @beginMerge t p parent h _ n notRoot header state sparse edge =>
    have hheader : ∀ t' q, (S.restate t p h (.merging n)).header t' q =
        if t' = t ∧ q = p then some (h.withState .merging) else S.header t' q := by
      simp [restate]
    have hstate : ∀ t' q, (S.restate t p h (.merging n)).state t' q =
        if t' = t ∧ q = p then some (.merging n) else S.state t' q := by
      simp [restate]
    have hnodes : ∀ t' q, (S.restate t p h (.merging n)).nodes t' q = S.nodes t' q := by
      intro t' q
      rw [Store.nodes, hheader]
      split_ifs with htp
      · obtain ⟨rfl, rfl⟩ := htp
        rw [Store.nodes, header]
        rfl
      · rfl
    constructor
    · intro t' q
      exact hnodes t' q ▸ ho.bounded t' q
    · intro t' q _ m hs
      rw [hstate] at hs
      split_ifs at hs
      · cases hs
      · rw [hnodes, hnodes, hnodes]
        exact ho.family hs
    · intro t' q k m hk hs hlevel
      rw [hheader] at hk
      rw [hstate] at hs
      split_ifs at hk hs
      · cases hk
        rw [IndexManifest.minPartitionEntries, if_neg (by exact hlevel.ne')] at sparse
        exact sparse
      · exact ho.merging hk hs hlevel
  | finishMerge _ header state _ _ parentHeader removed =>
    exact ho.lower ((lower_eraseChild parentHeader removed).trans lower_removePartition)
  | @recenter t p parent h k k' v _ header _ _ parentHeader _ touched =>
    obtain ⟨kadj, kcount⟩ := touchedEntry_ok touched
    refine ho.lower (.put_header (t := t) (p := parent) (k := k') ?_ ?_
      (.inr ⟨k, parentHeader, kadj.level.symm, kcount.le⟩)) <;>
      simp [putCentroid, putChild]
  | graph same =>
    exact ho.lower (.of_same (fun t p => same (.header t p) rfl) fun t p => same (.state t p) rfl)

/-! ### Planned drains -/

lemma nearestReadyCandidate_mem {routing : VectorData} {d : ℤ} {c : LevelCandidate}
    (hc : nearestReadyCandidate ix routing source candidates = some (d, c)) : c ∈ candidates := by
  -- the fold keeps the best candidate so far
  have hfold : ∀ (cs : List LevelCandidate) (best : Option (ℤ × LevelCandidate)),
      cs.foldl (fun best c => some (nearerCandidate best (ix.routingDistance routing
        c.entry.centroid) c)) best = some (d, c) → best = some (d, c) ∨ c ∈ cs := by
    intro cs
    induction cs with
    | nil => exact fun best h => .inl h
    | cons _ _ ih =>
      intro best h
      rcases ih _ h with h | h
      · by_cases hbest : best = some (d, c)
        · exact .inl hbest
        · right
          simp only [nearerCandidate, Option.some.injEq] at h
          grind
      · exact .inr (mem_cons_of_mem _ h)
  rcases hfold _ _ hc with h | h
  · cases h
  · exact List.mem_of_mem_filter h

lemma mergeDrainMoves_fits {ceiling : ℕ} : ∀ {receiver : Option (PartitionKey × ℕ)},
      mergeDrainMoves ix source candidates ceiling receiver entries ≠ [] →
      ∃ target count, (receiver = some (target, count) ∨ receiver = none ∧
          ∃ c ∈ candidates, c.partition = target ∧ c.header.entryCount = count) ∧
        (∀ m ∈ mergeDrainMoves ix source candidates ceiling receiver entries, m.2 = target) ∧
        count + (mergeDrainMoves ix source candidates ceiling receiver entries).length ≤
          ceiling := by
  induction entries with
  | nil => exact fun h => absurd rfl h
  | cons e entries ih =>
    intro receiver hmoves
    cases hnearest : nearestReadyCandidate ix e.centroid source candidates with
    | none => simp [mergeDrainMoves, hnearest] at hmoves
    | some best =>
      obtain ⟨d, c⟩ := best
      obtain ⟨target, count, hgetD⟩ : ∃ target count,
          receiver.getD (c.partition, c.header.entryCount) = (target, count) := ⟨_, _, rfl⟩
      simp only [mergeDrainMoves, hnearest, hgetD] at hmoves ⊢
      have hreceiver : receiver = some (target, count) ∨ receiver = none ∧
          ∃ c ∈ candidates, c.partition = target ∧ c.header.entryCount = count := by
        cases receiver with
        | none =>
          cases hgetD
          exact .inr ⟨rfl, c, nearestReadyCandidate_mem hnearest, rfl, rfl⟩
        | some r => exact .inl (congrArg some hgetD)
      split_ifs at hmoves ⊢ with htarget hfull
      · exact absurd rfl hmoves
      · refine ⟨target, count, hreceiver, ?_⟩
        by_cases hrest : mergeDrainMoves ix source candidates ceiling (some (target, count + 1))
            entries = []
        · simp only [hrest, mem_singleton, forall_eq, length_singleton, true_and]
          omega
        · obtain ⟨_, _, hsome | ⟨hnone, -⟩, hall, hle⟩ := ih hrest
          · cases hsome
            refine ⟨fun m hm => ?_, by rw [length_cons]; omega⟩
            rcases mem_cons.mp hm with rfl | hm
            · rfl
            · exact hall m hm
          · cases hnone
      · exact ih hmoves

lemma splitDrainMoves_receiver : ∀ {balance : SplitBalance} {receiver : Option PartitionKey}
      {moves : List (ChildEntry × PartitionKey)},
      splitDrainMoves ix targets a b balance receiver entries = .ok moves →
        ∃ r, (∀ r' ∈ receiver, r' = r) ∧ ∀ m ∈ moves, m.2 = r := by
  induction entries with
  | nil =>
    intro balance receiver moves hok
    cases hok
    exact ⟨receiver.getD 0, fun r' hr' => by simp [Option.mem_def.mp hr'], nofun⟩
  | cons e _ ih =>
    intro _ _ _ hok
    simp only [splitDrainMoves, bind_eq_ok] at hok
    obtain ⟨⟨target, _⟩, -, hok⟩ := hok
    split_ifs at hok with hsame
    · obtain ⟨_, hmoves, hok⟩ := bind_eq_ok.mp hok
      cases hok
      obtain ⟨r, hr, hall⟩ := ih hmoves
      have htarget : target = r := hr target rfl
      refine ⟨r, fun r' hr' => (hsame r' hr').trans htarget, fun m hm => ?_⟩
      rcases mem_cons.mp hm with rfl | hm
      · exact htarget
      · exact hall m hm
    · exact ih hok

lemma BodyPlan.read_nodes {body : BodyPlan} (hok : BodyPlan.read ix S t p = .ok body) :
    body.children.length = S.nodes t p := by
  rw [BodyPlan.read] at hok
  split_ifs at hok with hinvalid
  cases hok
  simp only [not_or, not_not] at hinvalid
  exact hinvalid.2.2.1

lemma Store.header_of_nodes (hnodes : 0 < S.nodes t p) :
    ∃ h, S.header t p = some h ∧ 1 < h.level ∧ h.entryCount = S.nodes t p := by
  simp only [Store.nodes, graphNodes] at hnodes ⊢
  cases hh : S.header t p with
  | none => simp [hh] at hnodes
  | some h =>
    simp only [hh, elim_some] at hnodes ⊢
    split_ifs at hnodes ⊢ with hlevel
    · exact ⟨h, rfl, hlevel, rfl⟩
    · omega

lemma planSplitDrain_fits (hS : Coherent ix S) (ho : Occupancy ix S)
    (header : S.header t p = some h) (hstate : S.state t p = some (.drainingSplit targets n))
    (hok : planSplitDrain ix build S t p h targets = .ok (some plan))
    (hedit : plan.edit = .drain moves movement remaining other) :
    ∃ receiver k, (∀ m ∈ moves, m.2 = receiver) ∧ S.header t receiver = some k ∧
      graphDrainFits ix movement moves.length h [(receiver, k)] = true := by
  simp only [planSplitDrain, bind_eq_ok] at hok
  obtain ⟨_, -, _, -, a, -, b, -, _, hread, _, hmoves, ⟨_, _⟩, hbodies,
    _, -, _, hgraphs, hok⟩ := hok
  cases hok
  cases hedit
  obtain ⟨receiver, -, hall⟩ := splitDrainMoves_receiver hmoves
  have hsub := ((splitDrainMoves_fst hmoves).trans (take_sublist _ _)).length_le
  rw [length_map, BodyPlan.read_nodes hread] at hsub
  -- a plan moves at least one entry, so the source is internal
  obtain ⟨m, hm⟩ : ∃ m, m ∈ moves := by
    simp only [drainBodies, bind_eq_ok] at hbodies
    obtain ⟨_, hfirst, -⟩ := hbodies
    cases hmoves' : moves with
    | nil => rw [hmoves'] at hfirst; cases hfirst
    | cons m => exact ⟨m, mem_cons_self⟩
  obtain ⟨_, hh', hlevel, hcount⟩ := Store.header_of_nodes
    ((List.length_pos_of_mem hm).trans_le hsub)
  cases header.symm.trans hh'
  have hnames : targets.Names receiver := hall m hm ▸ splitDrainMoves_names hmoves m hm
  obtain ⟨k, hk, hklevel⟩ := hS.target_header header hstate hnames
  have hkcount : k.entryCount = S.nodes t receiver := (Store.nodes_internal hk (by omega)).symm
  have hfamily := ho.family hstate
  refine ⟨receiver, k, hall, hk, ?_⟩
  simp only [graphDrainFits, Index.ceiling] at hfamily ⊢
  rcases hnames with rfl | rfl <;> simp <;> omega

lemma planMergeDrain_fits (ho : Occupancy ix S) (header : S.header t p = some h)
    (hstate : S.state t p = some (.merging n))
    (hok : planMergeDrain ix build S t p h = .ok (some plan))
    (hedit : plan.edit = .drain moves movement remaining other) :
    ∃ receiver k, (∀ m ∈ moves, m.2 = receiver) ∧ S.header t receiver = some k ∧
      graphDrainFits ix movement moves.length h [(receiver, k)] = true := by
  simp only [planMergeDrain, bind_eq_ok] at hok
  obtain ⟨_, hcandidates, body, hread, hok⟩ := hok
  split_ifs at hok with hnone
  · cases hok
  simp only [bind_eq_ok] at hok
  obtain ⟨⟨_, _⟩, hbodies, _, -, _, hgraphs, hok⟩ := hok
  cases hok
  cases hedit
  obtain ⟨_, _, hsome | ⟨-, c, hc, rfl, rfl⟩, hall, hle⟩ := mergeDrainMoves_fits hnone
  · cases hsome
  have hsub : ∀ cs ceiling, (mergeDrainMoves ix p cs ceiling none
      (body.children.take drainBatchInternal)).length ≤ S.nodes t p := by
    intro cs ceiling
    have hsub : ((mergeDrainMoves ix p cs ceiling none
        (body.children.take drainBatchInternal)).map Prod.fst).Sublist body.children :=
      mergeDrainMoves_fst.trans (take_sublist _ _)
    simpa [BodyPlan.read_nodes hread] using hsub.length_le
  obtain ⟨_, hh', hlevel, hcount⟩ := Store.header_of_nodes
    ((List.length_pos_of_ne_nil hnone).trans_le (hsub _ _))
  cases header.symm.trans hh'
  have hmerging := ho.merging header hstate hlevel
  have hk : S.header t c.partition = some c.header := by
    simp only [sameLevelCandidates, bind_eq_ok] at hcandidates
    obtain ⟨_, -, _, -, hcandidates⟩ := hcandidates
    obtain ⟨_, -, hedge⟩ := exists_of_mem_mapM hcandidates (List.mem_of_mem_filter hc)
    rw [levelCandidate] at hedge
    split at hedge
    · rename_i k hk
      split_ifs at hedge
      cases hedge
      exact hk
    · cases hedge
  refine ⟨c.partition, c.header, hall, hk, ?_⟩
  simp only [graphDrainFits]
  simp
  omega

/-- **A drain planned on a store within the bounds fits.** -/
theorem graphPlan_fits {later : Store} (hS : Coherent ix S) (ho : Occupancy ix S)
    (hok : graphPlan ix build S later t p a b = .ok (some plan))
    (hedit : plan.edit = .drain moves movement remaining other) :
    ∃ h receiver k, S.header t p = some h ∧ (∀ m ∈ moves, m.2 = receiver) ∧
      S.header t receiver = some k ∧
      graphDrainFits ix movement moves.length h [(receiver, k)] = true := by
  simp only [graphPlan, bind_eq_ok] at hok
  obtain ⟨authority, hauth, hok⟩ := hok
  rcases authority with _ | ⟨h, state⟩
  · cases hok
  obtain ⟨header, hstate, -⟩ := classifyAuthority_some hauth
  refine ⟨h, ?_⟩
  cases state with
  | splitting _ n =>
    rw [planExpose_edit hok] at hedit
    cases hedit
  | drainingSplit _ n =>
    dsimp only at hok
    split_ifs at hok
    · rw [planComplete_edit hok] at hedit
      cases hedit
    · obtain ⟨receiver, k, hall, hk, hfits⟩ := planSplitDrain_fits hS ho header hstate hok hedit
      exact ⟨receiver, k, header, hall, hk, hfits⟩
  | merging n =>
    dsimp only at hok
    split_ifs at hok
    · rw [planComplete_edit hok] at hedit
      cases hedit
    · obtain ⟨receiver, k, hall, hk, hfits⟩ := planMergeDrain_fits ho header hstate hok hedit
      exact ⟨receiver, k, header, hall, hk, hfits⟩
  | _ => cases hok

/-! ### The errors of a relocation -/

lemma PartitionHeader.adjust_error (herror : h.adjust n = .error e) : e = .corrupt := by
  rw [adjust] at herror
  split_ifs at herror <;> cases herror <;> rfl

lemma PartitionHeader.removedEntry_error (herror : h.removedEntry = .error e) : e = .corrupt := by
  rw [removedEntry] at herror
  split_ifs at herror
  · cases herror
    rfl
  · exact PartitionHeader.adjust_error herror

lemma removedEntries_error : ∀ {h : PartitionHeader},
    removedEntries n h = .error e → e = .corrupt := by
  induction n with
  | zero => exact nofun
  | succ n ih =>
    intro h hok
    rw [removedEntries] at hok
    cases hone : h.removedEntry with
    | error _ =>
      rw [hone] at hok
      cases hok
      exact PartitionHeader.removedEntry_error hone
    | ok _ =>
      rw [hone] at hok
      exact ih hok

lemma addedEntries_error : ∀ {h : PartitionHeader},
    addedEntries n h = .error e → e = .corrupt := by
  induction n with
  | zero => exact nofun
  | succ n ih =>
    intro h hok
    rw [addedEntries] at hok
    cases hone : h.addedEntry with
    | error _ =>
      rw [hone] at hok
      cases hok
      exact PartitionHeader.adjust_error hone
    | ok _ =>
      rw [hone] at hok
      exact ih hok

lemma failsOnly_requireHeader (t : TreeKey) (p : PartitionKey) :
    FailsOnly (· = .corrupt) (requireHeader t p) :=
  failsOnly_bind (failsOnly_getForUpdate _) fun _ =>
    failsOnly_orFail (P := (· = Error.corrupt)) rfl _

lemma failsOnly_readTargetHeaders {movement : Movement} :
    ∀ ps, FailsOnly (· = .corrupt) (readTargetHeaders t movement ps)
  | [] => failsOnly_pure _
  | _ :: ps => failsOnly_bind (failsOnly_requireHeader _ _) fun _ =>
      failsOnly_bind (failsOnly_ensure rfl) fun _ =>
        failsOnly_bind (failsOnly_readTargetHeaders ps) fun _ => failsOnly_pure _

lemma failsOnly_insertUnique (k : LogicalKey) (v : k.ValueOf) :
    FailsOnly (· = .corrupt) (insertUnique k v) :=
  failsOnly_bind (failsOnly_insert k v) fun _ => failsOnly_ensure rfl

lemma failsOnly_moveChildEntries {source : PartitionKey} :
    ∀ moves, FailsOnly (· = .corrupt) (moveChildEntries t source moves)
  | [] => failsOnly_pure _
  | _ :: moves => failsOnly_bind (failsOnly_insertUnique _ _) fun _ =>
      failsOnly_bind (failsOnly_write _) fun _ => failsOnly_moveChildEntries moves

lemma failsOnly_putTargetHeaders {moves : List (ChildEntry × PartitionKey)} :
    ∀ targets, FailsOnly (· = .corrupt) (putTargetHeaders t moves targets)
  | [] => failsOnly_pure _
  | _ :: targets => failsOnly_bind (failsOnly_ofExcept fun _ => addedEntries_error) fun _ =>
      failsOnly_bind (failsOnly_write _) fun _ => failsOnly_putTargetHeaders targets

lemma relocateChildEntries_error {receiver : PartitionKey} {s : Txn ValueOf}
    (hall : ∀ m ∈ moves, m.2 = receiver) (header : Store.header s.view t source = some h)
    (hk : Store.header s.view t receiver = some k)
    (hfits : graphDrainFits ix movement moves.length h [(receiver, k)] = true)
    (herror : (relocateChildEntries ix t source moves movement).run s = .error e) :
    e = .corrupt := by
  rw [relocateChildEntries] at herror
  split_ifs at herror with hempty
  have hpartitions : distinctPartitions (moves.map Prod.snd) = [receiver] := by
    refine List.perm_singleton.mp ((perm_ext_iff_of_nodup (distinctPartitions_nodup _)
      (List.nodup_singleton receiver)).mpr fun q => ?_)
    rw [mem_distinctPartitions, mem_map, mem_singleton]
    constructor
    · rintro ⟨m, hm, rfl⟩
      exact hall m hm
    · rintro rfl
      obtain ⟨m, hm⟩ := List.exists_mem_of_ne_nil moves (by simpa using hempty)
      exact ⟨m, hm, hall m hm⟩
  rw [hpartitions] at herror
  rcases run_bind_eq_error.mp herror with herror | ⟨targets, _, htargets, herror⟩
  · exact failsOnly_readTargetHeaders _ _ _ herror
  obtain ⟨hsame, hfst, hread⟩ := runs_readTargetHeaders (runs_of_run htargets)
  obtain ⟨k', rfl⟩ : ∃ k', targets = [(receiver, k')] := by
    obtain ⟨⟨q, k'⟩, rfl, rfl⟩ := List.map_eq_singleton_iff.mp hfst
    exact ⟨k', rfl⟩
  have hk' := (hread _ mem_cons_self).1
  rw [Txn.onto_snapshot, hk] at hk'
  cases hk'
  rcases run_bind_eq_error.mp herror with herror | ⟨_, _, hheader, herror⟩
  · exact failsOnly_requireHeader _ _ _ _ herror
  obtain ⟨hsource, rfl, -⟩ := runs_requireHeader.mp (runs_of_run hheader)
  rw [Txn.onto_snapshot, hsame.view_eq, header] at hsource
  cases hsource
  -- what is left fails as corruption only, but for the size check that is met
  have hrest : FailsOnly (· = .corrupt) (do
      moveChildEntries t source moves
      let removed ← ofExcept (removedEntries moves.length h)
      put (.header t source) removed
      putTargetHeaders t moves [(receiver, k')]
      pure moves.length : WriteTxn ℕ) :=
    failsOnly_bind (failsOnly_moveChildEntries _) fun _ =>
      failsOnly_bind (failsOnly_ofExcept fun _ => removedEntries_error) fun _ =>
        failsOnly_bind (failsOnly_write _) fun _ =>
          failsOnly_bind (failsOnly_putTargetHeaders _) fun _ => failsOnly_pure _
  rcases run_bind_eq_error.mp herror with herror | ⟨_, _, -, herror⟩
  · exact failsOnly_ensure (P := (· = .corrupt)) rfl _ _ herror
  rcases run_bind_eq_error.mp herror with herror | ⟨_, _, -, herror⟩
  · exact failsOnly_ensure (P := (· = .corrupt)) rfl _ _ herror
  rcases run_bind_eq_error.mp herror with herror | ⟨_, _, -, herror⟩
  · rw [run_ensure fun _ => hfits] at herror
    cases herror
  exact hrest _ _ herror

/-! ### Runs -/

/-- A store the bulk loader published: every partition is `Ready`, and no internal one
is past the split threshold. -/
structure BulkBuilt (ix : Index) (S : Store) : Prop where
  coherent : Coherent ix S
  ready : ∀ {t p state}, S.state t p = some state → state.state = .ready
  bounded : ∀ {t p h}, S.header t p = some h → 1 < h.level →
    h.entryCount ≤ ix.maxInternalPartitionEntries

lemma BulkBuilt.occupancy (hS : BulkBuilt ix S) : Occupancy ix S where
  bounded t p := by
    by_cases hnodes : 0 < S.nodes t p
    · obtain ⟨h, hh, hlevel, hcount⟩ := Store.header_of_nodes hnodes
      have hle := hS.bounded hh hlevel
      rw [Index.ceiling]
      omega
    · omega
  family hstate := by cases hS.ready hstate
  merging _ hstate _ := by cases hS.ready hstate

lemma bulkBuilt_empty (ix : Index) : BulkBuilt ix OrderedMap.empty where
  coherent := coherent_empty ix
  ready h := by cases h
  bounded h := by cases h

/-- The internal partitions of a graph index are within their bounds, and so is every
drain planned on them. -/
structure Bounded (ix : Index) (build : GraphBuilder) (S : Store) : Prop where
  count : ∀ {t p h}, S.header t p = some h → 1 < h.level →
    h.entryCount ≤ ix.maxInternalPartitionEntries + 2
  /-- A draining split has two targets, and shares the bound with them. -/
  split : ∀ {t p h targets n}, S.header t p = some h →
    S.state t p = some (.drainingSplit targets n) → 1 < h.level →
    ∃ left right, S.header t targets.left = some left ∧ S.header t targets.right = some right ∧
      h.entryCount + left.entryCount + right.entryCount ≤ ix.maxInternalPartitionEntries + 2
  merge : ∀ {t p h n}, S.header t p = some h → S.state t p = some (.merging n) → 1 < h.level →
    h.entryCount < ix.minInternalPartitionEntries
  /-- A planned drain has one receiver.  While it and the source have the Headers they
  were planned with, no transaction exceeds a limit moving the entries. -/
  drain : ∀ {t p later a b plan moves movement remaining other},
    graphPlan ix build S later t p a b = .ok (some plan) →
    plan.edit = .drain moves movement remaining other →
    (∃ receiver, ∀ m ∈ moves, m.2 = receiver) ∧
    ∀ {s : Txn ValueOf} {e : Error},
      Store.header s.view t p = S.header t p →
      (∀ m ∈ moves, Store.header s.view t m.2 = S.header t m.2) →
      (relocateChildEntries ix t p moves movement).run s = .error e → e.kind ≠ .limitExceeded

lemma Occupancy.limits (hS : Coherent ix S) (ho : Occupancy ix S) : Bounded ix build S where
  count hh hlevel := Store.nodes_internal hh hlevel ▸ ho.bounded _ _
  split {t p h targets n} hh hstate hlevel := by
    have htarget {c : PartitionKey} (hc : targets.Names c) :
        ∃ k, S.header t c = some k ∧ S.nodes t c = k.entryCount := by
      obtain ⟨k, hk, hklevel⟩ := hS.target_header hh hstate hc
      exact ⟨k, hk, Store.nodes_internal hk (by omega)⟩
    obtain ⟨left, hleft, hleft'⟩ := htarget targets.names_left
    obtain ⟨right, hright, hright'⟩ := htarget targets.names_right
    refine ⟨left, right, hleft, hright, ?_⟩
    have hfamily := ho.family hstate
    rw [Store.nodes_internal hh hlevel, hleft', hright'] at hfamily
    exact hfamily
  merge := ho.merging
  drain {t p later a b plan moves movement remaining other} hok hedit := by
    obtain ⟨h, receiver, k, hh, hall, hk, hfits⟩ := graphPlan_fits hS ho hok hedit
    refine ⟨⟨receiver, hall⟩, fun {s e} hsource htargets herror => ?_⟩
    have hcorrupt : e = .corrupt := by
      cases moves with
      | nil => cases herror
      | cons m =>
        have hm := hall m mem_cons_self
        exact relocateChildEntries_error hall (hsource.trans hh)
          (hm ▸ (htargets m mem_cons_self).trans (hm ▸ hk)) hfits herror
    rw [hcorrupt]
    decide

/-- **In every run of a graph index that began empty or bulk-built, internal partitions
stay within their bounds.** -/
theorem run_occupancy_bounded {build : GraphBuilder} {start : Store} {history : List Store}
    (hgraph : ix.localGraph = true) (hstart : start = OrderedMap.empty ∨ BulkBuilt ix start)
    (hrun : Run ix build start history) : ∀ S ∈ history, Bounded ix build S := by
  have hbuilt : BulkBuilt ix start := by
    rcases hstart with rfl | hbuilt
    · exact bulkBuilt_empty ix
    · exact hbuilt
  intro S hS
  have hcoherent := (hrun.consistent hbuilt.coherent).coherent S hS
  have hoccupancy := hrun.invariant hbuilt.coherent hbuilt.occupancy
    (fun hS ho heffect => heffect.occupancy hS hgraph ho) S hS
  exact hoccupancy.limits hcoherent

/-! ### A run of a graph index -/

def Index.graphLine : Index := { Index.line with localGraph := true }

def flatGraph : GraphBuilder := fun _ header =>
  .ok ⟨⟨header.entryCount, header.cacheEpoch, 0, [], []⟩, []⟩

/-- Three records enter a tree, and its root splits and becomes their grandparent. -/
def graphLineSteps : List Played :=
  [⟨.mutate [.insert (lineRecord 1 0), .insert (lineRecord 2 1), .insert (lineRecord 3 9)]
      none 0 1, 0, 0, 0⟩,
    ⟨.beginSplit lineTree 1 0, 0, 0, 0⟩,
    ⟨.graphStep lineTree 1 [0] [10] 0 .pointDeletes, 0, 0, 0⟩,
    ⟨.drainSplit lineTree 1 10, 0, 0, 0⟩,
    ⟨.drainSplit lineTree 1 10, 0, 0, 0⟩,
    ⟨.graphStep lineTree 1 [0] [10] 0 .pointDeletes, 0, 0, 0⟩]

/-- The stores of that run, newest first. -/
def graphLineHistory (build : GraphBuilder) : List Store :=
  (play .graphLine build graphLineSteps [OrderedMap.empty]).getD []

lemma graphLineHistory_run
    (hplayed : (play .graphLine build graphLineSteps [OrderedMap.empty]).isSome = true) :
    RunFromEmpty .graphLine build (graphLineHistory build) := by
  obtain ⟨history, hplay⟩ := isSome_iff_exists.mp hplayed
  rw [graphLineHistory, hplay]
  exact play_run .start hplay

/-- The bounds hold in every store of that run. -/
theorem run_occupancy_bounded_graphLine : (graphLineHistory flatGraph).length = 7 ∧
      ∀ S ∈ graphLineHistory flatGraph, Bounded .graphLine flatGraph S :=
  ⟨by decide +kernel, run_occupancy_bounded rfl (.inl rfl)
    (graphLineHistory_run (by decide +kernel))⟩

end
