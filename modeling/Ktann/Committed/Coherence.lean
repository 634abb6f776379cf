/-
Every effect keeps a committed store coherent, and evolves it.

* `Effect.membership` — an effect keeps exact membership;
* `Evolves.trans` — evolution composes, for a key is not used again;
* `Effects.coherent_evolves` — coherence and evolution along a sequence.
-/
import Ktann.Committed.EffectBodies

open Store (leafEntry_put record_put record_erase location_put location_erase)

section

variable {ix : Index} {S S' S'' : Store} {t : TreeKey} {p : PartitionKey} {h : PartitionHeader}
  {payload : Option Bytes} {record : VectorRecord}

/-! ### Membership -/

structure MembershipWrite (S S' : Store) (r : VectorRecord) (l : RecordLocation) (e : LeafEntry) :
    Prop where
  record : ∀ id, S'.record id = if id = r.recordId then some r else S.record id
  location : ∀ id, S'.location id = if id = r.recordId then some l else S.location id
  payload : ∀ id, id ≠ r.recordId → S'.payload id = S.payload id
  entry : ∀ t p id, S'.leafEntry t p id =
    if id = r.recordId then if l = ⟨t, p⟩ then some e else none else S.leafEntry t p id

lemma MembershipWrite.exact {record : VectorRecord} {location : RecordLocation} {e : LeafEntry}
    (hw : MembershipWrite S S' record location e) (id : e.recordId = record.recordId)
    (fields : e.fields = record.fields) (hm : ExactMembership S) : ExactMembership S' := by
  refine ⟨?_, ?_, ?_, ?_, ?_⟩
  · intro id' r hr
    rw [hw.record] at hr
    split_ifs at hr with hid
    · cases hr
      exact hid.symm
    · exact hm.record_id hr
  · intro id'
    rw [hw.record, hw.location]
    split_ifs
    · simp
    · exact hm.located id'
  · intro id' hr
    rw [hw.record] at hr
    split_ifs at hr with hid
    rw [hw.payload id' hid]
    exact hm.payload hr
  · intro t p id' e' he'
    rw [hw.entry] at he'
    rw [hw.location, hw.record]
    split_ifs at he' ⊢ with hid hloc
    · cases he'
      refine ⟨congrArg some hloc, id.trans hid.symm, fun r hr => ?_⟩
      cases hr
      exact fields
    · exact hm.entry he'
  · intro _ t p hl
    rw [hw.location] at hl
    rw [hw.entry]
    split_ifs at hl ⊢ with hid hloc
    · simp
    · exact absurd (Option.some.inj hl) hloc
    · exact hm.stored hl

structure SameMembership (S S' : Store) : Prop where
  record : ∀ id, S'.record id = S.record id
  location : ∀ id, S'.location id = S.location id
  payload : ∀ id, S'.payload id = S.payload id
  entry : ∀ t p id, S'.leafEntry t p id = S.leafEntry t p id

lemma SameMembership.exact (hs : SameMembership S S') (hm : ExactMembership S) :
    ExactMembership S' := by
  refine ⟨?_, ?_, ?_, ?_, ?_⟩
  · intro id r
    rw [hs.record]
    exact hm.record_id
  · intro id
    rw [hs.record, hs.location]
    exact hm.located id
  · intro id
    rw [hs.record, hs.payload]
    exact hm.payload
  · intro t p id e
    rw [hs.entry, hs.location, hs.record]
    exact hm.entry
  · intro id t p
    rw [hs.location, hs.entry]
    exact hm.stored

lemma SameMembership.trans (h : SameMembership S S') (h' : SameMembership S' S'') :
    SameMembership S S'' :=
  ⟨fun id => (h'.record id).trans (h.record id), fun id => (h'.location id).trans (h.location id),
    fun id => (h'.payload id).trans (h.payload id),
    fun t p id => (h'.entry t p id).trans (h.entry t p id)⟩

lemma sameMembership_createTarget {source : PartitionKey} {v : VectorData} {n : ℕ} :
    SameMembership S (S.createTarget ix t source h p v n) := by
  by_cases hl : h.level = 1 <;> constructor <;> simp [Store.createTarget, hl]

lemma sameMembership_restate {state : PartitionTransition} :
    SameMembership S (S.restate t p h state) := by
  constructor <;> simp [restate]

lemma sameMembership_putChild {e : ChildEntry} : SameMembership S (S.putChild t p e h) := by
  constructor <;> simp [putChild]

lemma membershipWrite_putRecord {e : LeafEntry} {y : PartitionSynopsis}
    (id : e.recordId = record.recordId)
    (hother : ∀ t' p', ¬(t' = t ∧ p' = p) → S.leafEntry t' p' record.recordId = none) :
    MembershipWrite S ((S.putLeaf t p e h y).putRecord record payload ⟨t, p⟩) record ⟨t, p⟩ e := by
  have hentry : ∀ t' p' id', (S.putLeaf t p e h y).leafEntry t' p' id' =
      if id' = record.recordId then if (⟨t, p⟩ : RecordLocation) = ⟨t', p'⟩ then some e else none
      else S.leafEntry t' p' id' := by
    intro t' p' id'
    have hother := hother t' p'
    simp only [putLeaf, leafEntry_put, id]
    grind
  cases payload with
  | none | some b =>
    refine ⟨?_, ?_, ?_, fun t' p' id' => ?_⟩
    · simp [putRecord, putLeaf]
    · simp [putRecord, putLeaf]
    · intro _ hid
      simp [putRecord, putLeaf, hid]
    · rw [← hentry]
      simp [putRecord]

lemma MembershipWrite.of_eraseLeaf {r : VectorRecord} {l : RecordLocation} {e : LeafEntry}
    {k : PartitionHeader} (hw : MembershipWrite (S.eraseLeaf t p r.recordId k) S' r l e) :
    MembershipWrite S S' r l e := by
  refine ⟨fun id => ?_, fun id => ?_, fun id hid => ?_, fun t' p' id => ?_⟩
  · simpa [eraseLeaf] using hw.record id
  · simpa [eraseLeaf] using hw.location id
  · simpa [eraseLeaf] using hw.payload id hid
  · rw [hw.entry]
    split_ifs with hid
    · rfl
    · rfl
    · simp [eraseLeaf, hid]

lemma ExactMembership.eraseRecord {l : RecordLocation} {id : RecordId} {h : PartitionHeader}
    (hm : ExactMembership S) (stored : S.location id = some l) :
    ExactMembership ((S.eraseLeaf l.treeKey l.leaf id h).eraseRecord id) := by
  refine ⟨?_, ?_, ?_, ?_, ?_⟩
  · intro id' r hr
    simp only [Store.eraseRecord, eraseLeaf, record_put, record_erase] at hr
    have hold : S.record id' = some r := by grind
    exact hm.record_id hold
  · intro id'
    have := hm.located id'
    simp only [Store.eraseRecord, eraseLeaf, record_put, record_erase, location_put, location_erase]
    grind
  · intro id' hr
    have hpayload : S.record id' = none → S.payload id' = none := hm.payload
    simp only [Store.eraseRecord, eraseLeaf, record_put, record_erase,
      Store.payload_put, Store.payload_erase] at hr ⊢
    grind
  · intro t' p' id' e he
    simp only [Store.eraseRecord, eraseLeaf, leafEntry_put, Store.leafEntry_erase,
      location_put, location_erase, record_put, record_erase] at he ⊢
    have hne : id' ≠ id := by
      rintro rfl
      have hold : S.leafEntry t' p' id' = some e := by grind
      have hl := (hm.entry hold).1
      rw [stored] at hl
      grind
    have hold : S.leafEntry t' p' id' = some e := by grind
    have := hm.entry hold
    grind
  · intro id' t' p' hl
    simp only [Store.eraseRecord, eraseLeaf, leafEntry_put, Store.leafEntry_erase,
      location_put, location_erase] at hl ⊢
    have hstored : S.location id' = some ⟨t', p'⟩ → S.leafEntry t' p' id' ≠ none := hm.stored
    grind

/-- **An effect keeps exact membership.** -/
theorem Effect.membership (heffect : Effect ix S S') (hS : Coherent ix S) : ExactMembership S' := by
  have hm := hS.membership
  cases heffect with
  | createTree absent =>
    exact SameMembership.exact (by constructor <;> simp [Store.createTree]) hm
  | @insert record payload t p e h h' y y' changed id fields absent header leaf accepts added
      synopsis expanded =>
    refine (membershipWrite_putRecord id fun t' p' _ => hm.no_entry ?_).exact id fields hm
    rw [(hm.located _).mp absent]
    simp
  | @replace record payload t p e h h' y y' changed id fields location header leaf accepts touched
      synopsis expanded =>
    refine (membershipWrite_putRecord id fun t' p' htp => hm.no_entry ?_).exact id fields hm
    rw [location]
    grind
  | @replaceAcross record payload source target e k k' h h' y y' changed id fields location ne
      sourceHeader removed header leaf accepts added synopsis expanded =>
    refine (MembershipWrite.of_eraseLeaf (t := source.treeKey) (p := source.leaf) (k := k')
      (l := target) ?_).exact id fields hm
    rw [id]
    refine membershipWrite_putRecord id fun t' p' htp => ?_
    by_cases hsource : source = ⟨t', p'⟩
    · subst hsource
      simp [eraseLeaf]
    · have hnone : S.leafEntry t' p' record.recordId = none :=
        hm.no_entry (by rw [location]; simpa using hsource)
      simp [eraseLeaf, hnone]
  | delete stored header removed => exact hm.eraseRecord stored
  | @moveLeaf t source target e movement k k' h h' y y' changed entry ne sourceHeader sourceState
      removed header leaf targetState added synopsis expanded =>
    obtain ⟨hlocation, -, hfields⟩ := hm.entry entry
    have hsome : S.record e.recordId ≠ none := by
      rw [Ne, hm.located, hlocation]
      simp
    obtain ⟨r, hr⟩ := ne_none_iff_exists'.mp hsome
    have hid := hm.record_id hr
    suffices hw : MembershipWrite S _ r ⟨t, target⟩ e from hw.exact hid.symm (hfields r hr) hm
    refine ⟨fun id => ?_, fun id => ?_, fun id _ => ?_, fun t' p' id => ?_⟩
    · simp only [putLeaf, eraseLeaf, record_put, record_erase]
      grind
    · simp only [putLeaf, eraseLeaf, location_put, location_erase]
      grind
    · simp [putLeaf, eraseLeaf]
    · have hnone : ¬(t' = t ∧ p' = source) → S.leafEntry t' p' e.recordId = none := by
        intro htp
        refine hm.no_entry ?_
        rw [hlocation]
        grind
      simp only [putLeaf, eraseLeaf, leafEntry_put, Store.leafEntry_erase, hid]
      grind
  | beginSplit header state =>
    exact SameMembership.exact (by constructor <;> simp [allocate, restate]) hm
  | exposeRoot header state =>
    exact ((sameMembership_createTarget.trans sameMembership_createTarget).trans
      sameMembership_restate).exact hm
  | exposeChild notRoot header state edge parentHeader level =>
    exact ((((sameMembership_createTarget.trans sameMembership_createTarget).trans
      sameMembership_putChild).trans sameMembership_putChild).trans
      sameMembership_restate).exact hm
  | moveChild movement entry ne header sourceState removed targetHeader targetState family level
      added fits =>
    exact SameMembership.exact (by constructor <;> simp [putChild, eraseChild]) hm
  | finishRoot header state drained leftHeader rightHeader leftCentroid rightCentroid level ready
      count epoch =>
    exact SameMembership.exact (by constructor <;> simp [restate, Store.promoteRoot]) hm
  | finishChild notRoot header state _ _ _ edge parentHeader _ =>
    exact SameMembership.exact (by constructor <;> simp [restate, eraseChild, removePartition]) hm
  | beginMerge notRoot header _ _ edge => exact sameMembership_restate.exact hm
  | finishMerge _ header _ _ _ _ =>
    exact SameMembership.exact (by constructor <;> simp [eraseChild, removePartition]) hm
  | recenter _ header =>
    exact SameMembership.exact (by constructor <;> simp [putCentroid, putChild]) hm
  | graph same _ =>
    exact SameMembership.exact ⟨fun _ => same _ rfl, fun _ => same _ rfl, fun _ => same _ rfl,
      fun _ _ _ => same _ rfl⟩ hm

/-! ### Sequences of effects -/

lemma Store.childEntry_putRecord {location : RecordLocation} {c : PartitionKey} :
    (S.putRecord record payload location).childEntry t p c = S.childEntry t p c := by
  cases payload <;> simp [putRecord]

section
variable (heffect : Effect ix S S') (hS : Coherent ix S)
include heffect hS

lemma Effect.child {c : PartitionKey} {e : ChildEntry} (he : S'.childEntry t p c = some e)
    : e.child = c := by
  have hold : S.childEntry t p c = some e → e.child = c := hS.child
  cases heffect with
  | graph same _ => exact hold ((same (.childEntry t p c) rfl).symm.trans he)
  | _ =>
    simp only [Store.createTree, putLeaf, eraseLeaf, putChild, eraseChild, restate, allocate,
      putCentroid, Store.promoteRoot, removePartition, eraseRecord, Store.childEntry_put,
      Store.childEntry_erase, Store.childEntry_createTarget, Store.childEntry_putRecord] at he
    grind

lemma Effect.coherent : Coherent ix S' := by
  refine ⟨fun t => ?_, (heffect.bodies hS).bodies, heffect.membership hS, heffect.child hS⟩
  rcases heffect.topology hS with hsame | ⟨t', T, hstep, hupdate⟩
  · rw [hsame]
    exact hS.topology t
  · rw [hupdate]
    by_cases ht : t = t'
    · subst ht
      rw [update_self]
      exact hstep.wellFormed (hS.topology t)
    · rw [update_of_ne ht]
      exact hS.topology t

lemma Effect.evolves : Evolves S S' := by
  refine ⟨fun t => ?_, (heffect.bodies hS).grown⟩
  rcases heffect.topology hS with hsame | ⟨t', T, hstep, hupdate⟩
  · rw [hsame]
    exact .refl _
  · rw [hupdate]
    by_cases ht : t = t'
    · subst ht
      rw [update_self]
      exact hstep.evolves (hS.topology t)
    · rw [update_of_ne ht]
      exact .refl _

end

lemma Evolves.refl (S : Store) : Evolves S S where
  topology _ := .refl _
  grown hh hh' := by
    cases hh.symm.trans hh'
    exact .refl

lemma Coherent.phase_eq_none (hS : Coherent ix S) :
    (S.topology t).phase p = none ↔ S.header t p = none := by
  rw [(hS.topology t).phase_none]
  simp [Store.topology]

lemma Evolves.between (h : Evolves S S') (h' : Evolves S' S'') (hS : Coherent ix S)
    (hS' : Coherent ix S') (hS'' : Coherent ix S'') {k k'' : PartitionHeader}
    (hk : S.header t p = some k) (hk'' : S''.header t p = some k'') :
    ∃ k', S'.header t p = some k' := by
  refine ne_none_iff_exists'.mp fun hnone => ?_
  have hbefore : (S.topology t).phase p ≠ none := by
    rw [Ne, hS.phase_eq_none, hk]
    simp
  have hspent := (h.topology t).removed p hbefore (hS'.phase_eq_none.mpr hnone)
  have habsent := ((h'.topology t).spent p hspent).absent
  rw [hS''.phase_eq_none, hk''] at habsent
  cases habsent

lemma Evolves.trans (h : Evolves S S') (h' : Evolves S' S'') (hS : Coherent ix S)
    (hS' : Coherent ix S') (hS'' : Coherent ix S'') : Evolves S S'' where
  topology t := (h.topology t).trans (h'.topology t)
  grown {t p k k''} hk hk'' := by
    obtain ⟨_, hk'⟩ := h.between h' hS hS' hS'' hk hk''
    exact (h.grown hk hk').trans (h'.grown hk' hk'')

/-- **A sequence of effects keeps a store coherent, and evolves it.** -/
theorem Effects.coherent_evolves (heffects : Effects ix S S') (hS : Coherent ix S) :
    Coherent ix S' ∧ Evolves S S' := by
  induction heffects with
  | refl => exact ⟨hS, .refl S⟩
  | tail _ heffect ih =>
    obtain ⟨hmid, hevolves⟩ := ih
    have hend := heffect.coherent hmid
    exact ⟨hend, hevolves.trans (heffect.evolves hmid) hS hmid hend⟩

lemma Coherent.receiving_of_draining (hS : Coherent ix S) {targets : SplitPair} {n : ℕ}
    (hstate : S.state t p = some (.drainingSplit targets n)) {c : PartitionKey}
    (hc : targets.Names c) : ∃ m, S.state t c = some (.receivingSplit p m) :=
  phase_receiving.mp ((hS.topology t).draining (phase_draining.mpr ⟨n, hstate⟩) hc)

end
