/-
Effects on bodies.

* `BodyChange` — every body agrees with itself, and every partition that stays has
  evolved;
* `Effect.bodies` — what every effect does.
-/
import Ktann.Committed.EffectTopology

section

variable {ix : Index} {S S' : Store} {t : TreeKey} {p : PartitionKey} {h : PartitionHeader}
  {location : RecordLocation}

/-- What an effect does to bodies. -/
structure BodyChange (ix : Index) (S S' : Store) : Prop where
  bodies : Bodies ix S'
  grown : ∀ {t p h h'}, S.header t p = some h → S'.header t p = some h' → Grown S S' t p h h'

lemma BodyStep.change (hstep : BodyStep ix S S') (hb : Bodies ix S) : BodyChange ix S S' := by
  obtain ⟨hb', hkept⟩ := hstep hb
  refine ⟨hb', fun {t p h h'} hh hh' => ?_⟩
  obtain ⟨_, hh'', hgrown⟩ := hkept t p h hh
  cases hh'.symm.trans hh''
  exact hgrown

lemma BodyStep.change_remove (hstep : BodyStep ix S S') (hb : Bodies ix S)
    (header : S'.header t p = some h) (drained : h.entryCount = 0) :
    BodyChange ix S (S'.removePartition t p) := by
  obtain ⟨hb', hkept⟩ := hstep hb
  obtain ⟨hb'', hnone, hsame⟩ := bodies_removePartition header drained hb'
  refine ⟨hb'', fun {t' p' k k'} hk hk' => ?_⟩
  by_cases htp : t' = t ∧ p' = p
  · obtain ⟨rfl, rfl⟩ := htp
    cases hnone.symm.trans hk'
  · obtain ⟨_, hk'', hgrown⟩ := ((hkept t' p').trans (hsame t' p' htp).kept) k hk
    cases hk'.symm.trans hk''
    exact hgrown

lemma bodyStep_putRecord {record : VectorRecord} {payload : Option Bytes} :
    BodyStep ix S (S.putRecord record payload location) := by
  refine .of_same fun t p => ?_
  cases payload <;>
    refine ⟨⟨fun id => ?_, fun c => ?_⟩, ?_, ?_⟩ <;> simp [putRecord]

variable {id : RecordId} {targets : SplitPair} {n : ℕ}

lemma bodyStep_eraseRecord : BodyStep ix S (S.eraseRecord id) := by
  refine .of_same fun t p => ?_
  refine ⟨⟨fun id => ?_, fun c => ?_⟩, ?_, ?_⟩ <;> simp [eraseRecord]

lemma bodyStep_put_location : BodyStep ix S (S.put (.location id) location) := by
  refine .of_same fun t p => ?_
  refine ⟨⟨fun id => ?_, fun c => ?_⟩, ?_, ?_⟩ <;> simp

lemma bodyStep_allocate {m : TreeManifest} : BodyStep ix S (S.allocate t m) := by
  refine .of_same fun t p => ?_
  refine ⟨⟨fun id => ?_, fun c => ?_⟩, ?_, ?_⟩ <;> simp [allocate]

lemma bodyStep_putCentroid {v : VectorData} : BodyStep ix S (S.putCentroid t p v) := by
  refine .of_same fun t p => ?_
  refine ⟨⟨fun id => ?_, fun c => ?_⟩, ?_, ?_⟩ <;> simp [putCentroid]

lemma ExactMembership.no_entry (hm : ExactMembership S) (hid : S.location id ≠ some ⟨t, p⟩) :
    S.leafEntry t p id = none := by
  rw [Option.eq_none_iff_forall_ne_some]
  intro e he
  exact hid (hm.entry he).1

lemma Coherent.root_absent (hS : Coherent ix S) (absent : S.treeManifest t = none) :
    S.header t p = none := by
  rw [Option.eq_none_iff_forall_ne_some]
  intro h hh
  have hhead : (S.topology t).head p = some h.head := by simp [Store.topology, hh]
  refine ((hS.topology t).allocated hhead).1 ?_
  simp [Store.topology, absent]

lemma bodyStep_moveLeaf {l m : RecordLocation} {e : LeafEntry} {k k' h' : PartitionHeader}
    {y y' : PartitionSynopsis} {changed : Bool} (ne : l ≠ m)
    (entry : S.leafEntry l.treeKey l.leaf e.recordId ≠ none)
    (sourceHeader : S.header l.treeKey l.leaf = some k) (removed : k.removedEntry = .ok k')
    (header : S.header m.treeKey m.leaf = some h) (leaf : h.level = 1)
    (added : h.addedEntry = .ok h') (absent : S.leafEntry m.treeKey m.leaf e.recordId = none)
    (synopsis : S.synopsis m.treeKey m.leaf = some y)
    (expanded : y.expand ix e.fields = .ok (y', changed)) :
    BodyStep ix S ((S.eraseLeaf l.treeKey l.leaf e.recordId k').putLeaf m.treeKey
      m.leaf e h' y') := by
  obtain ⟨hadj, hcount⟩ := addedEntry_ok added
  have hne : ¬(m.treeKey = l.treeKey ∧ m.leaf = l.leaf) := by
    rintro ⟨ht, hp⟩
    exact ne (by cases l; cases m; simp_all)
  refine (bodyStep_eraseLeaf sourceHeader entry removed).trans
    (bodyStep_putLeaf (h := h) (y := y) ?_ ?_ leaf hadj ?_ expanded)
  · simpa [eraseLeaf, hne] using header
  · simpa [eraseLeaf] using synopsis
  · rw [if_pos (by simp [eraseLeaf, absent]), hcount]

section
variable (hS : Coherent ix S)
include hS

lemma Coherent.bodyStep_expose (state : S.state t p = some (.splitting targets n))
    (a b : VectorData) (m : ℕ) :
    BodyStep ix S ((S.createTarget ix t p h targets.left a m).createTarget ix t p h targets.right
      b m) ∧
      ∀ q k, S.header t q = some k → ((S.createTarget ix t p h targets.left a m).createTarget ix t
        p h targets.right b m).header t q = some k := by
  obtain ⟨hl, hr⟩ := hS.targets_absent state
  refine ⟨(bodyStep_createTarget hl).trans (bodyStep_createTarget ?_), fun q k hq => ?_⟩
  · rw [header_createTarget, if_neg (by simp [targets.ne.symm]), hr]
  · rw [header_createTarget, if_neg, header_createTarget, if_neg, hq]
    · rintro ⟨-, rfl⟩
      cases hl.symm.trans hq
    · rintro ⟨-, rfl⟩
      cases hr.symm.trans hq

lemma Coherent.childEntry_none {q c : PartitionKey} (absent : S.header t c = none)
    : S.childEntry t q c = none := by
  have hedge := (hS.topology t).edge_none (p := q) (c := c) (by simp [Store.topology, absent])
  simpa [Store.topology] using hedge

lemma Coherent.parent_ne {parent : PartitionKey} (header : S.header t p = some h)
    (edge : S.childEntry t parent p ≠ none) : parent ≠ p := by
  rintro rfl
  obtain ⟨v, hv⟩ := edge_of_childEntry edge
  have hhead : (S.topology t).head parent = some h.head := by simp [Store.topology, header]
  have hlevel := (hS.topology t).edge_level hv hhead hhead
  omega

lemma Coherent.source_ne_target (header : S.header t p = some h)
    (state : S.state t p = some (.drainingSplit targets n)) :
    p ≠ targets.left ∧ p ≠ targets.right := by
  obtain ⟨hhead, hphase⟩ := hS.authority header state
  have hne : ∀ c, targets.Names c → p ≠ c := by
    rintro c hc rfl
    have htarget := (hS.topology t).draining hphase hc
    rw [hphase] at htarget
    cases htarget
  exact ⟨hne _ targets.names_left, hne _ targets.names_right⟩

end

lemma bodyStep_ready {left right : PartitionHeader}
    (leftHeader : S.header t targets.left = some left)
    (rightHeader : S.header t targets.right = some right) :
    BodyStep ix S ((S.restate t targets.left left (.ready n)).restate t targets.right right
      (.ready n)) :=
  (bodyStep_restate leftHeader).trans
    (bodyStep_restate (by simpa [restate, targets.ne.symm] using rightHeader))

/-- **An effect keeps every body's agreement, and evolves every partition that
stays.** -/
theorem Effect.bodies (heffect : Effect ix S S') (hS : Coherent ix S) : BodyChange ix S S' := by
  cases heffect with
  | createTree absent => exact (bodyStep_createTree (hS.root_absent absent)).change hS.bodies
  | @insert record payload t p e h h' y y' changed id fields absent header leaf accepts added
      synopsis expanded =>
    obtain ⟨hadj, hcount⟩ := addedEntry_ok added
    have hnone : S.leafEntry t p e.recordId = none := by
      refine hS.membership.no_entry ?_
      rw [id, (hS.membership.located _).mp absent]
      simp
    have hput := bodyStep_putLeaf header synopsis leaf hadj (by rw [if_pos hnone, hcount]) expanded
    exact (hput.trans bodyStep_putRecord).change hS.bodies
  | @replace record payload t p e h h' y y' changed id fields location header leaf accepts touched
      synopsis expanded =>
    obtain ⟨hadj, hcount⟩ := touchedEntry_ok touched
    have hsome : S.leafEntry t p e.recordId ≠ none := id ▸ hS.membership.stored location
    have hput := bodyStep_putLeaf header synopsis leaf hadj (by rw [if_neg hsome, hcount]) expanded
    exact (hput.trans bodyStep_putRecord).change hS.bodies
  | @replaceAcross record payload source target e k k' h h' y y' changed id fields location ne
      sourceHeader removed header leaf accepts added synopsis expanded =>
    have hnone : S.leafEntry target.treeKey target.leaf e.recordId = none := by
      refine hS.membership.no_entry ?_
      rw [id, location]
      exact fun heq => ne (Option.some.inj heq)
    have hmove := bodyStep_moveLeaf (e := e) ne (id ▸ hS.membership.stored location) sourceHeader
      removed header leaf added hnone synopsis expanded
    exact (hmove.trans bodyStep_putRecord).change hS.bodies
  | @delete id _ h h' stored header removed =>
    have herase : BodyStep ix S _ := bodyStep_eraseLeaf header (hS.membership.stored stored) removed
    exact (herase.trans bodyStep_eraseRecord).change hS.bodies
  | @moveLeaf t source target e movement k k' h h' y y' changed entry ne sourceHeader sourceState
      removed header leaf targetState added synopsis expanded =>
    have hnone : S.leafEntry t target e.recordId = none := by
      refine hS.membership.no_entry ?_
      rw [(hS.membership.entry entry).1]
      simpa using ne
    have hmove := bodyStep_moveLeaf (l := ⟨t, source⟩) (m := ⟨t, target⟩)
      (by simpa using ne) (by simp [entry]) sourceHeader removed header leaf added hnone synopsis
      expanded
    exact (hmove.trans bodyStep_put_location).change hS.bodies
  | @beginSplit t p h m m' targets began startedAt header state _ _ left right =>
    have hrestate : BodyStep ix (S.allocate t m')
        ((S.allocate t m').restate t p h (.splitting targets startedAt)) :=
      bodyStep_restate (by simpa [allocate] using header)
    exact (bodyStep_allocate.trans hrestate).change hS.bodies
  | @exposeRoot t h targets a b began startedAt header state =>
    obtain ⟨hcreate, hkeep⟩ := hS.bodyStep_expose (h := h) state a b startedAt
    exact (hcreate.trans (bodyStep_restate (hkeep _ _ header))).change hS.bodies
  | @exposeChild t p parent h k k' k'' targets a b began startedAt notRoot header state edge
      parentHeader level accepts once twice =>
    obtain ⟨hcreate, hkeep⟩ := hS.bodyStep_expose (h := h) state a b startedAt
    obtain ⟨hl, hr⟩ := hS.targets_absent state
    obtain ⟨hadj, hcount⟩ := addedEntry_ok once
    obtain ⟨hadj', hcount'⟩ := addedEntry_ok twice
    have hne := hS.parent_ne header edge
    refine (((hcreate.trans (bodyStep_putChild (hkeep _ _ parentHeader) hadj ?_)).trans
      (bodyStep_putChild (h := k') (by simp [putChild]) hadj' ?_)).trans
      (bodyStep_restate ?_)).change hS.bodies
    · rw [if_pos, hcount]
      simpa [Store.childEntry_createTarget] using hS.childEntry_none hl
    · rw [if_pos, hcount']
      simpa [putChild, Store.childEntry_createTarget, targets.ne.symm] using hS.childEntry_none hr
    · simpa [putChild, hne.symm] using hkeep _ _ header
  | @moveChild t source target e movement h h' k k' entry ne header sourceState removed
      targetHeader targetState family level added fits =>
    obtain ⟨hadj, hcount⟩ := addedEntry_ok added
    have hnone : S.childEntry t target e.child = none := by
      by_contra hsome
      obtain ⟨v, hv⟩ := edge_of_childEntry hsome
      obtain ⟨w, hw⟩ := edge_of_childEntry (S := S) (t := t) (p := e.child)
        (q := source) (by simp [entry])
      exact ne ((hS.topology t).edge_unique hw hv)
    refine ((bodyStep_putChild targetHeader hadj (by rw [if_pos hnone, hcount])).trans
      (bodyStep_eraseChild (h := h) ?_ ?_ removed)).change hS.bodies
    · simpa [putChild, ne] using header
    · simp [putChild, ne, entry]
  | @finishRoot t h h' left right targets a b began startedAt header state drained leftHeader
      rightHeader leftCentroid rightCentroid level ready count epoch =>
    have hne := hS.source_ne_target header state
    refine ((bodyStep_ready leftHeader rightHeader).trans
      (bodyStep_promoteRoot (h := h) ?_ drained targets.ne level count epoch)).change hS.bodies
    simpa [restate, hne] using header
  | @finishChild t p parent h k k' left right targets began startedAt notRoot header state drained
      leftHeader rightHeader edge parentHeader removed =>
    have hne := hS.source_ne_target header state
    have hne' := hS.parent_ne_target header state edge
    have hparent := hS.parent_ne header edge
    refine ((bodyStep_ready leftHeader rightHeader).trans
      (bodyStep_eraseChild (h := k) ?_ ?_ removed)).change_remove (h := h) hS.bodies ?_ drained
    · simpa [restate, hne'] using parentHeader
    · simpa [restate] using edge
    · simpa [eraseChild, restate, hne, hparent.symm] using header
  | beginMerge notRoot header _ _ edge => exact (bodyStep_restate header).change hS.bodies
  | @finishMerge t p _ h k k' _ _ header _ drained edge parentHeader removed =>
    have hparent := hS.parent_ne header edge
    refine (bodyStep_eraseChild parentHeader edge removed).change_remove (h := h) hS.bodies ?_
      drained
    simpa [eraseChild, hparent.symm] using header
  | @recenter t p _ h k _ v _ header _ edge parentHeader _ touched =>
    obtain ⟨hadj, hcount⟩ := touchedEntry_ok touched
    refine (bodyStep_putCentroid.trans (bodyStep_putChild (h := k) ?_ hadj ?_)).change hS.bodies
    · simpa [putCentroid] using parentHeader
    · rw [if_neg (by simpa [putCentroid] using edge), hcount]
  | graph same _ =>
    refine (BodyStep.of_same fun t p => ?_).change hS.bodies
    exact ⟨⟨fun id => same _ rfl, fun c => same _ rfl⟩, same _ rfl, same _ rfl⟩

end
