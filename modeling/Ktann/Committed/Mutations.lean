/-
Mutation batches commit effects.

Every item of a batch is one effect on the store the batch is about to leave, and
creating the trees a batch routes into is one effect each; a batch therefore
commits exactly the effects of its items, in input order.

* `itemStep_insert`, `itemStep_replace`, `itemStep_delete` — the three kinds of items;
* `leafEffects_applyAll` — one attempt of a batch.
-/
import Ktann.Committed.Sinks
import Ktann.Committed.Transitions

open WriteSinks (applied_queue_put applied_queue_delete applied_adjustHeader applied)

open TxnM WriteTxn

section

variable {ix : Index} {B C : Store} {done : List RecordId} {sinks sinks' : WriteSinks}
  {s s' : Txn ValueOf}

/-- What one item of a batch does: it writes nothing itself, and its queued writes
are effects on the store the batch is about to leave. -/
structure ItemStep (ix : Index) (B : Store) (done : List RecordId) (id : RecordId)
    (sinks sinks' : WriteSinks) (s s' : Txn ValueOf) : Prop where
  sameWrites : s.SameWrites s'
  batch : Batch B (id :: done) sinks'
  effects : LeafEffects ix (sinks.applied B) (sinks'.applied B)

variable {id : RecordId} {payload : Option Bytes} {h : PartitionHeader} {record : VectorRecord}
  {target expected : RecordLocation} {entry : LeafEntry} {t : TreeKey} {r : ReplacementHeaders}
  {n beam : ℕ} {graphs : Option GraphReads}

lemma runs_queueNewPayload (hrun : Runs C (queueNewPayload sinks id payload) s sinks' s') :
    s.SameWrites s' ∧ sinks' = payload.elim sinks fun b => sinks.queue (.put (.payload id) b) := by
  cases payload with
  | none =>
    obtain ⟨rfl, rfl, -⟩ := runs_pure.mp hrun
    exact ⟨.refl _, rfl⟩
  | some b =>
    simp only [queueNewPayload, runs_bind, runs_expectAbsent, runs_pure] at hrun
    obtain ⟨-, _, ⟨-, rfl, -⟩, rfl, rfl, -⟩ := hrun
    exact ⟨s.sameWrites_protect _, rfl⟩

lemma expectWriteTarget_ok {h' : PartitionHeader} (hok : expectWriteTarget h = .ok h') :
    h' = h ∧ h.level = 1 ∧ h.state.acceptsWrites = true := by
  rw [expectWriteTarget] at hok
  split_ifs at hok with hc
  cases hok
  exact ⟨rfl, hc⟩

/-- An insert whose payload is absent has no payload to remove. -/
lemma putRecord_eq {S : Store} {location : RecordLocation}
    (habsent : S.payload record.recordId = none) : S.putRecord record payload location =
      payload.elim ((S.put (.record record.recordId) record).put
        (.location record.recordId) location)
        fun b => ((S.put (.record record.recordId) record).put (.location record.recordId)
          location).put (.payload record.recordId) b := by
  cases payload with
  | none =>
    refine OrderedMap.erase_eq_self ?_
    rw [lookup_put_ne _ _ (by simp), lookup_put_ne _ _ (by simp)]
    exact habsent
  | some b => rfl

section

variable (S : Store) (record : VectorRecord) (payload : Option Bytes) (location : RecordLocation)
  (t : TreeKey) (p : PartitionKey)

@[simp] lemma header_putRecord :
    (S.putRecord record payload location).header t p = S.header t p := by
  cases payload <;> simp [putRecord]

@[simp] lemma synopsis_putRecord :
    (S.putRecord record payload location).synopsis t p = S.synopsis t p := by
  cases payload <;> simp [putRecord]

lemma putLeaf_putRecord (e : LeafEntry) (h : PartitionHeader) (y : PartitionSynopsis) :
    (S.putLeaf t p e h y).putRecord record payload location =
      (S.putRecord record payload location).putLeaf t p e h y := by
  cases payload <;> apply Store.ext_families <;> intros <;> simp [putRecord, putLeaf]

end

lemma putLeaf_eq (S : Store) (t : TreeKey) (p : PartitionKey) (e : LeafEntry)
    (h : PartitionHeader) (y : PartitionSynopsis) :
    S.putLeaf t p e h y = ((S.put (.header t p) h).put (.synopsis t p) y).put
      (.leafEntry t p e.recordId) e := by
  apply Store.ext_families <;> intros <;> simp [putLeaf]

lemma runs_enterLeaf {f : PartitionHeader → Except Error PartitionHeader} {row : List Value}
    {h₀ : PartitionHeader} {leaves₁ leaves₂ : LeafAccumulator} {s₁ : Txn ValueOf}
    (hb : Batch B done sinks) (hB : s.onto C = B)
    (hheader : Runs C (sinks.leaves.header target) s (h₀, leaves₁) s₁)
    (hadjust : (do f (← expectWriteTarget h₀)) = Except.ok h)
    (hexpand : Runs C ((leaves₁.adjustHeader target h).expandSynopsis ix target row)
      s₁ leaves₂ s') :
    s.SameWrites s' ∧ Batch B done { sinks with leaves := leaves₂ } ∧
      (sinks.applied B).header target.treeKey target.leaf = some h₀ ∧ h₀.level = 1 ∧
      h₀.state.acceptsWrites = true ∧ f h₀ = .ok h ∧
      ∃ y y' changed, (sinks.applied B).synopsis target.treeKey target.leaf = some y ∧
        y.expand ix row = .ok (y', changed) ∧
        applied { sinks with leaves := leaves₂ } B =
          ((sinks.applied B).put (.header target.treeKey target.leaf) h).put
            (.synopsis target.treeKey target.leaf) y' := by
  obtain ⟨hsame, hh₀, happlied, hb₁⟩ := runs_leafHeader hb hB hheader
  obtain ⟨_, hexpect, hok⟩ := bind_eq_ok.mp hadjust
  obtain ⟨rfl, hleaf, haccepts⟩ := expectWriteTarget_ok hexpect
  have hB₁ : s₁.onto C = B := (hsame.onto_eq C).trans hB
  obtain ⟨hsame₁, hb₂, y, y', changed, hy, hexpanded, happlied₁⟩ :=
    runs_expandSynopsis (hb₁.adjustHeader target h) hB₁ hexpand
  rw [applied_adjustHeader, happlied] at hy happlied₁
  refine ⟨hsame.trans hsame₁, hb₂, hh₀, hleaf, haccepts, hok, y, y', changed, ?_, hexpanded,
    happlied₁⟩
  simpa using hy

lemma itemStep_insert (hb : Batch B done sinks) (hB : s.onto C = B)
    (hV : Coherent ix (sinks.applied B)) (hid : record.recordId ∉ done)
    (fields : entry.fields = record.fields)
    (hrun : Runs C (insertRecordWithHeader ix sinks record payload target entry) s (h, sinks') s') :
    ItemStep ix B done record.recordId sinks sinks' s s' := by
  simp only [insertRecordWithHeader, runs_bind, runs_ensure, runs_getRecord, runs_expectAbsent,
    runs_ofExcept, runs_pure, Prod.mk.injEq] at hrun
  obtain ⟨-, _, ⟨hids, rfl, -⟩, _, _, ⟨rfl, rfl, -⟩, -, _, ⟨hstored, rfl, -⟩, -, _, ⟨-, rfl, -⟩,
    sinks₁, _, hpayload, ⟨_, _⟩, _, hheader, _, _, ⟨hadded, rfl, -⟩, _, _, hexpand,
    -, _, ⟨hentry, rfl, -⟩, ⟨rfl, rfl⟩, rfl, -⟩ := hrun
  obtain ⟨hsame₂, hsinks₁⟩ := runs_queueNewPayload hpayload
  have habsent : (sinks.applied B).record record.recordId = none := by
    have hlookup : (sinks.applied B).record record.recordId = B.record record.recordId :=
      hb.lookup_applied rfl hid
    rw [hlookup, ← hB]
    exact hstored
  -- The membership writes, one after the other.
  have hmem : record.recordId ∈ record.recordId :: done := mem_cons_self
  have hb₁ : Batch B (record.recordId :: done) sinks₁ := by
    have hb₀ := ((hb.mono (List.subset_cons_self _ _)).queue hmem
      (w := .put (.record record.recordId) record) rfl).queue hmem
      (w := .put (.location record.recordId) target) rfl
    rw [hsinks₁]
    cases payload with
    | none => exact hb₀
    | some b => exact hb₀.queue hmem rfl
  have hV₁ : sinks₁.applied B = (sinks.applied B).putRecord record payload target := by
    rw [putRecord_eq (hV.membership.payload habsent), hsinks₁]
    cases payload with
    | none =>
      change ((sinks.queue _).queue _).applied B = _
      rw [applied_queue_put, applied_queue_put]
      rfl
    | some b =>
      change (((sinks.queue _).queue _).queue _).applied B = _
      rw [applied_queue_put, applied_queue_put, applied_queue_put]
      rfl
  obtain ⟨hsame₃, hb₂, hh₀, hleaf, haccepts, hadded', y, y', _, hy, hexpanded, happlied⟩ :=
    runs_enterLeaf (f := PartitionHeader.addedEntry) hb₁ ((hsame₂.onto_eq C).trans hB) hheader
      hadded hexpand
  rw [hV₁] at hh₀ hy happlied
  refine ⟨⟨hsame₃.snapshot.trans hsame₂.snapshot, hsame₃.writes.trans hsame₂.writes⟩,
    hb₂.queue hmem rfl, .single ?_⟩
  have heffect : LeafEffect ix (sinks.applied B) (((sinks.applied B).putLeaf target.treeKey
      target.leaf entry h y').putRecord record payload target) :=
    leafEffect_putLeaf (.insert hids.symm fields habsent (by simpa using hh₀) hleaf haccepts hadded'
      (by simpa using hy) hexpanded) (by simpa using hh₀) hleaf
      (addedEntry_ok hadded').1
  rw [putLeaf_putRecord, putLeaf_eq, ← hids] at heffect
  rw [applied_queue_put, happlied]
  exact heffect

lemma applied_queueReplacement
    (stays : target = expected → (sinks.applied B).location record.recordId = some target) :
    (queueReplacement sinks record payload expected target).applied B =
      (sinks.applied B).putRecord record payload target := by
  have hlocated : (if target = expected then sinks.queue (.put (.record record.recordId) record)
      else (sinks.queue (.put (.record record.recordId) record)).queue
        (.put (.location record.recordId) target)).applied B =
      ((sinks.applied B).put (.record record.recordId) record).put (.location record.recordId)
        target := by
    split_ifs with heq
    · -- The Location is not rewritten, and it is the stored one.
      rw [applied_queue_put]
      refine (OrderedMap.put_eq_self ?_).symm
      rw [lookup_put_ne _ _ (by simp)]
      exact stays heq
    · rw [applied_queue_put, applied_queue_put]
  cases payload with
  | none => exact (applied_queue_delete _ _).trans (by rw [hlocated]; rfl)
  | some b => exact (applied_queue_put _ _ _).trans (by rw [hlocated]; rfl)

lemma batch_queueReplacement (payload : Option Bytes) (expected target : RecordLocation)
    (hb : Batch B done sinks) (hid : record.recordId ∈ done) :
    Batch B done (queueReplacement sinks record payload expected target) := by
  have hrecord := hb.queue hid (w := .put (.record record.recordId) record) rfl
  have hlocation := hrecord.queue hid (w := .put (.location record.recordId) target) rfl
  unfold queueReplacement
  cases payload <;> dsimp only <;> split_ifs
  · exact hrecord.queue hid rfl
  · exact hlocation.queue hid rfl
  · exact hrecord.queue hid rfl
  · exact hlocation.queue hid rfl

lemma Batch.location {p : PartitionKey} {e : LeafEntry} (hb : Batch B done sinks)
    (hV : Coherent ix (sinks.applied B)) (hid : id ∉ done) (hentry : B.leafEntry t p id = some e) :
    (sinks.applied B).location id = some ⟨t, p⟩ := by
  have hlookup : (sinks.applied B).leafEntry t p id = B.leafEntry t p id :=
    hb.lookup_applied rfl hid
  exact (hV.membership.entry (hlookup.trans hentry)).1

section

variable (hb : Batch B done sinks) (hB : s.onto C = B) (hV : Coherent ix (sinks.applied B))
  (hid : record.recordId ∉ done)

include hb hB hV hid

section
variable (hids : record.recordId = entry.recordId) (fields : entry.fields = record.fields)
include hids fields

lemma itemStep_replaceInLeaf
    (hrun : Runs C (replaceInLeaf ix (queueReplacement sinks record payload target target) target
      record.recordId entry) s (r, sinks') s') :
    ItemStep ix B done record.recordId sinks sinks' s s' := by
  simp only [replaceInLeaf, runs_bind, runs_requireLeafEntry, runs_ofExcept, runs_pure,
    Prod.mk.injEq] at hrun
  obtain ⟨_, _, ⟨hentry, rfl, -⟩, ⟨_, _⟩, _, hheader, h, _, ⟨htouched, rfl, -⟩, _, _,
    hexpand, ⟨-, rfl⟩, rfl, -⟩ := hrun
  have hlocation := hb.location hV hid (hB ▸ hentry)
  have hmem : record.recordId ∈ record.recordId :: done := mem_cons_self
  have hb₁ := (batch_queueReplacement payload target target
    (hb.mono (List.subset_cons_self _ _)) hmem).queue hmem
      (w := .put (.leafEntry target.treeKey target.leaf record.recordId) entry) rfl
  obtain ⟨hsame, hb₂, hh₀, hleaf, haccepts, htouched', y, y', _, hy, hexpanded, happlied⟩ :=
    runs_enterLeaf (f := PartitionHeader.touchedEntry) hb₁ (by exact hB) hheader htouched hexpand
  rw [applied_queue_put, applied_queueReplacement fun _ => hlocation] at hh₀ hy happlied
  refine ⟨⟨hsame.snapshot, hsame.writes⟩, hb₂, .single ?_⟩
  have heffect : LeafEffect ix (sinks.applied B) (((sinks.applied B).putLeaf target.treeKey
      target.leaf entry h y').putRecord record payload target) :=
    leafEffect_putLeaf (.replace hids.symm fields hlocation (by simpa using hh₀) hleaf haccepts
      htouched' (by simpa using hy) hexpanded) (by simpa using hh₀) hleaf
      (touchedEntry_ok htouched').1
  rw [putLeaf_putRecord, putLeaf, ← hids] at heffect
  rw [happlied]
  exact heffect

lemma itemStep_replaceAcross (hne : expected ≠ target)
    (hrun : Runs C (replaceAcrossLeaves ix (queueReplacement sinks record payload expected target)
      expected target record.recordId entry) s (r, sinks') s') :
    ItemStep ix B done record.recordId sinks sinks' s s' := by
  simp only [replaceAcrossLeaves, runs_bind, runs_requireLeafEntry, runs_expectAbsent,
    runs_ofExcept, runs_pure, Prod.mk.injEq] at hrun
  obtain ⟨_, _, ⟨hentry, rfl, -⟩, -, _, ⟨-, rfl, -⟩, ⟨k, _⟩, _, hsource, k', s₁,
    ⟨hremoved, rfl, -⟩, ⟨h₀, _⟩, _, hheader, h, _, ⟨hadded, rfl, -⟩, _, _, hexpand,
    ⟨-, rfl⟩, rfl, -⟩ := hrun
  have hlocation := hb.location hV hid (hB ▸ hentry)
  have hmem : record.recordId ∈ record.recordId :: done := mem_cons_self
  have hb₁ := ((batch_queueReplacement payload expected target
    (hb.mono (List.subset_cons_self _ _)) hmem).queue hmem
      (w := .delete (.leafEntry expected.treeKey expected.leaf record.recordId)) rfl).queue hmem
      (w := .put (.leafEntry target.treeKey target.leaf record.recordId) entry) rfl
  obtain ⟨hsame₁, hk, happlied₁, hb₂⟩ := runs_leafHeader hb₁ (by exact hB) hsource
  have hB₁ : s₁.onto C = B := (hsame₁.onto_eq C).trans hB
  obtain ⟨hsame₂, hb₃, hh₀, hleaf, haccepts, hadded', y, y', _, hy, hexpanded, happlied⟩ :=
    runs_enterLeaf (f := PartitionHeader.addedEntry) (hb₂.adjustHeader expected k') hB₁
      hheader hadded hexpand
  have hnot : target ≠ expected := hne.symm
  rw [applied_queue_put, applied_queue_delete,
    applied_queueReplacement fun h => absurd h hnot] at hk happlied₁
  rw [applied_adjustHeader, happlied₁] at hh₀ hy happlied
  have hkeys : ¬(target.treeKey = expected.treeKey ∧ target.leaf = expected.leaf) := by
    rintro ⟨ht, hp⟩
    exact hnot (RecordLocation.headerKey_injective (by rw [RecordLocation.headerKey, ht, hp]))
  refine ⟨⟨(hsame₁.trans hsame₂).snapshot, (hsame₁.trans hsame₂).writes⟩, hb₃, .single ?_⟩
  have hsource' : (sinks.applied B).header expected.treeKey expected.leaf = some k := by
    simpa using hk
  have htarget' : (sinks.applied B).header target.treeKey target.leaf = some h₀ := by
    simpa [hkeys] using hh₀
  have heffect : LeafEffect ix (sinks.applied B) ((((sinks.applied B).eraseLeaf expected.treeKey
      expected.leaf entry.recordId k').putLeaf target.treeKey target.leaf entry h y').putRecord
        record payload target) :=
    leafEffect_replaceAcross (.replaceAcross hids.symm fields hlocation hne hsource' hremoved
      htarget' hleaf haccepts hadded' (by simpa using hy) hexpanded) hlocation hne hsource'
      hremoved htarget' hleaf (addedEntry_ok hadded').1
  rw [happlied]
  convert heffect using 1
  rw [putLeaf_putRecord, ← hids]
  cases payload <;> apply Store.ext_families <;> intros <;>
    simp [putRecord, putLeaf, eraseLeaf, ← hids]

end

lemma itemStep_replace (fields : entry.fields = record.fields)
    (hrun : Runs C (replaceRecordWithHeaders ix sinks record payload expected target entry) s
      (r, sinks') s') : ItemStep ix B done record.recordId sinks sinks' s s' := by
  simp only [replaceRecordWithHeaders, runs_bind, runs_ensure, runs_ite] at hrun
  obtain ⟨-, _, ⟨hids, rfl, -⟩, ⟨rfl, hin⟩ | ⟨hne, hacross⟩⟩ := hrun
  · exact itemStep_replaceInLeaf hb hB hV hid hids fields hin
  · exact itemStep_replaceAcross hb hB hV hid hids fields hne hacross

end

lemma runs_deleteLocation {o : Option RecordLocation} {l : RecordLocation}
    (hrun : Runs C (deleteLocation id o) s l s') : s.SameWrites s' := by
  cases o with
  | some _ =>
    obtain ⟨-, rfl, -⟩ := runs_pure.mp hrun
    exact .refl _
  | none =>
    obtain ⟨-, rfl, -⟩ := runs_requireLocation.mp hrun
    exact s.sameWrites_protect _

lemma itemStep_delete {prefetched : Option RecordLocation} {r : DeleteReport}
    (hb : Batch B done sinks) (hB : s.onto C = B) (hV : Coherent ix (sinks.applied B))
    (hid : id ∉ done)
    (hrun : Runs C (deleteRecordWithHeader sinks id prefetched) s (r, sinks') s') :
    ItemStep ix B done id sinks sinks' s s' := by
  simp only [deleteRecordWithHeader, runs_bind, runs_getRecord] at hrun
  obtain ⟨stored, _, ⟨-, rfl, -⟩, hrun⟩ := hrun
  cases stored with
  | none =>
    simp only [runs_pure, Prod.mk.injEq] at hrun
    obtain ⟨⟨-, rfl⟩, rfl, -⟩ := hrun
    exact ⟨s.sameWrites_protect _, hb.mono (List.subset_cons_self _ _), .refl⟩
  | some record =>
    simp only [runs_bind, runs_requireLeafEntry, runs_ofExcept, runs_pure, Prod.mk.injEq] at hrun
    obtain ⟨location, s₁, hlocation, _, _, ⟨hentry, rfl, -⟩, ⟨h, leaves⟩, _, hheader, h', _,
      ⟨hremoved, rfl, -⟩, ⟨-, rfl⟩, rfl, -⟩ := hrun
    have hsame := runs_deleteLocation hlocation
    have hB₁ : s₁.onto C = B := (hsame.onto_eq C).trans hB
    have hmem : id ∈ id :: done := mem_cons_self
    have hb₁ := ((((hb.mono (List.subset_cons_self id done)).queue hmem
      (w := .delete (.record id)) rfl).queue hmem (w := .delete (.location id)) rfl).queue hmem
      (w := .delete (.leafEntry location.treeKey location.leaf id)) rfl).queue hmem
      (w := .delete (.payload id)) rfl
    obtain ⟨hsame₁, hh, happlied, hb₂⟩ := runs_leafHeader hb₁ (by exact hB₁) hheader
    rw [applied_queue_delete, applied_queue_delete,
      applied_queue_delete, applied_queue_delete] at hh happlied
    refine ⟨⟨(hsame₁.snapshot.trans hsame.snapshot), hsame₁.writes.trans hsame.writes⟩,
      hb₂.adjustHeader location h', .single ?_⟩
    have heffect : LeafEffect ix (sinks.applied B) (((sinks.applied B).eraseLeaf location.treeKey
        location.leaf id h').eraseRecord id) :=
      leafEffect_delete (hb.location hV hid (hB₁ ▸ hentry)) (by simpa using hh) hremoved
    rw [applied_adjustHeader ⟨_, leaves⟩, happlied]
    convert heffect using 1
    apply Store.ext_families <;> intros <;> simp [eraseLeaf, eraseRecord]

/-! ### The items of a batch -/

/-- What preparing an item leaves: the projection of the item's own record. -/
def AttemptItem.Prepared (item : AttemptItem) : Prop :=
  ∀ p, item.prepared = some p →
    p.record.recordId = item.mutation.id ∧ p.entry.fields = p.record.fields

lemma itemStep_applyOne {item : AttemptItem} {outcome : MutationOutcome} (hb : Batch B done sinks)
    (hB : s.onto C = B) (hV : Coherent ix (sinks.applied B)) (hprepared : item.Prepared)
    (hid : item.mutation.id ∉ done)
    (hrun : Runs C (applyOne ix sinks item) s (outcome, sinks') s') :
    ItemStep ix B done item.mutation.id sinks sinks' s s' := by
  obtain ⟨mutation, prepared, target, expected⟩ := item
  unfold applyOne at hrun
  cases mutation with
  | delete _ =>
    simp only [runs_bind] at hrun
    obtain ⟨⟨report, sinks₁⟩, s₁, hdelete, hrun⟩ := hrun
    have hstep := itemStep_delete hb hB hV hid hdelete
    cases report <;>
    · simp only [runs_pure, Prod.mk.injEq] at hrun
      obtain ⟨⟨-, rfl⟩, rfl, -⟩ := hrun
      exact hstep
  | insert _ =>
    cases prepared with
    | none => exact (runs_fail.mp hrun).elim
    | some prepared =>
      cases target with
      | none => exact (runs_fail.mp hrun).elim
      | some target =>
        simp only [runs_bind, runs_pure, Prod.mk.injEq] at hrun
        obtain ⟨⟨h, sinks₁⟩, s₁, hinsert, ⟨-, rfl⟩, rfl, -⟩ := hrun
        obtain ⟨hrecord, hfields⟩ := hprepared prepared rfl
        rw [← hrecord] at hid ⊢
        exact itemStep_insert hb hB hV hid hfields hinsert
  | upsert =>
    cases prepared with
    | none => exact (runs_fail.mp hrun).elim
    | some prepared =>
      cases target with
      | none => exact (runs_fail.mp hrun).elim
      | some =>
        obtain ⟨hrecord, hfields⟩ := hprepared prepared rfl
        rw [← hrecord] at hid ⊢
        cases expected with
        | none =>
          simp only [runs_bind, runs_pure, Prod.mk.injEq] at hrun
          obtain ⟨⟨h, _⟩, s₁, hinsert, ⟨-, rfl⟩, rfl, -⟩ := hrun
          exact itemStep_insert hb hB hV hid hfields hinsert
        | some =>
          simp only [runs_bind, runs_pure, Prod.mk.injEq] at hrun
          obtain ⟨⟨h, _⟩, _, hreplace, ⟨-, rfl⟩, rfl, -⟩ := hrun
          exact itemStep_replace hb hB hV hid hfields hreplace

lemma leafEffects_applyItems {items : List AttemptItem} :
    ∀ {position : ℕ} {done : List RecordId} {sinks : WriteSinks} {s : Txn ValueOf}
      {outcomes : List MutationOutcome}, Batch B done sinks → s.onto C = B →
      Coherent ix (sinks.applied B) → (∀ item ∈ items, item.Prepared) →
      (items.map fun item => item.mutation.id).Nodup → (∀ item ∈ items, item.mutation.id ∉ done) →
      Runs C (applyItems ix position sinks items) s (outcomes, sinks') s' →
      s.SameWrites s' ∧ LeafEffects ix (sinks.applied B) (sinks'.applied B) := by
  induction items with
  | nil =>
    intro position done sinks s outcomes _ _ _ _ _ _ hrun
    simp only [applyItems, runs_pure, Prod.mk.injEq] at hrun
    obtain ⟨⟨-, rfl⟩, rfl, -⟩ := hrun
    exact ⟨.refl _, .refl⟩
  | cons item _ ih =>
    intro _ _ _ s _ hb hB hV hprepared hnodup hdone hrun
    simp only [applyItems, runs_bind, runs_mapError, runs_pure, Prod.mk.injEq] at hrun
    obtain ⟨⟨_, _⟩, _, hone, ⟨_, _⟩, _, hrest, ⟨-, rfl⟩, rfl, -⟩ := hrun
    have hstep := itemStep_applyOne hb hB hV (hprepared item mem_cons_self)
      (hdone item mem_cons_self) hone
    obtain ⟨hfirst, hnodup'⟩ := nodup_cons.mp hnodup
    obtain ⟨hsame, heffects⟩ := ih hstep.batch ((hstep.sameWrites.onto_eq C).trans hB)
      (Effects.coherent_evolves hstep.effects.effects hV).1
      (fun item' hmem => hprepared item' (mem_cons_of_mem _ hmem)) hnodup' (by
        intro item' hmem hdone'
        rcases mem_cons.mp hdone' with heq | hold
        · exact hfirst (mem_map.mpr ⟨item', hmem, heq⟩)
        · exact hdone item' (mem_cons_of_mem _ hmem) hold) hrest
    exact ⟨hstep.sameWrites.trans hsame, hstep.effects.trans heffects⟩

/-! ### Routing and reading a batch -/

lemma leafEffects_ensureTree {u : Unit} (hrun : Runs C (ensureTree ix t n) s u s') :
    LeafEffects ix (s.onto C) (s'.onto C) := by
  simp only [ensureTree, runs_bind, runs_read, runs_ite, runs_pure, runs_ensure] at hrun
  obtain ⟨_, _, ⟨-, rfl, -⟩, ⟨-, -, rfl, -⟩ | ⟨-, _, _, hcreate, _, _, ⟨-, rfl, -⟩, -, rfl, -⟩⟩ :=
    hrun
  · exact .refl
  · exact leafEffects_createTree hcreate

lemma readOnly_validateRoute (t : TreeKey) (route : Route) :
    ReadOnly (validateRoute t route) := by
  unfold validateRoute
  refine readOnly_bind (readOnly_getForUpdate _) fun header => ?_
  refine readOnly_bind (readOnly_ensure _ _) fun _ => ?_
  split
  · exact readOnly_pure _
  all_goals exact readOnly_bind (readOnly_getForUpdate _) fun _ => readOnly_ensure _ _

lemma leafEffects_routeLeavesForWrite {routings : List VectorData} {descent : GroupedDescent}
    (hrun : Runs C (routeLeavesForWrite ix t graphs routings n beam) s descent s') :
    LeafEffects ix (s.onto C) (s'.onto C) := by
  simp only [routeLeavesForWrite, runs_bind, runs_ensure, runs_ite, runs_pure, runs_read] at hrun
  obtain ⟨-, _, ⟨-, rfl, -⟩, ⟨-, -, rfl, -⟩ | ⟨-, _, _, htree, found, _, ⟨-, hs₂, -⟩, hrun⟩⟩ :=
    hrun
  · exact .refl
  subst hs₂
  have heffects := leafEffects_ensureTree htree
  cases found with
  | noReadyMergeTarget =>
    obtain ⟨-, rfl, -⟩ := runs_pure.mp hrun
    exact heffects
  | routed =>
    simp only [runs_bind, runs_pure] at hrun
    obtain ⟨_, _, hvalid, -, rfl, -⟩ := hrun
    have hsame := (readOnly_forM (readOnly_validateRoute t) _).sameWrites hvalid
    rwa [hsame.onto_eq C]

lemma leafEffects_routeGroupsFrom {groups : List RouteGroup} :
    ∀ {targets : List (Option RecordLocation)} {o : Option (List (Option RecordLocation))}
      {s : Txn ValueOf}, Runs C (routeGroupsFrom ix graphs n beam groups targets) s o s' →
        LeafEffects ix (s.onto C) (s'.onto C) := by
  induction groups with
  | nil => exact fun hrun => effects_pure hrun
  | cons _ _ ih =>
    intro _ o s hrun
    simp only [routeGroupsFrom, runs_bind, runs_mapError] at hrun
    obtain ⟨descent, _, hroute, hrun⟩ := hrun
    have heffects := leafEffects_routeLeavesForWrite hroute
    cases descent with
    | routed => exact heffects.trans (ih hrun)
    | noReadyMergeTarget =>
      obtain ⟨-, rfl, -⟩ := runs_pure.mp hrun
      exact heffects

lemma readOnly_readLocationsForUpdate :
    ∀ ids : List (ℕ × RecordId), ReadOnly (readLocationsForUpdate ids)
  | [] => readOnly_pure _
  | (_, _) :: rest =>
    readOnly_bind (readOnly_mapError (readOnly_bind (readOnly_getForUpdate _) fun _ =>
      readOnly_bind (readOnly_getForUpdate _) fun _ => readOnly_ofExcept _)) fun _ =>
        readOnly_bind (readOnly_readLocationsForUpdate rest) fun _ => readOnly_pure _

lemma readOnly_warmForUpdate : ∀ ks : List LogicalKey, ReadOnly (warmForUpdate ks)
  | [] => readOnly_pure _
  | _ :: ks => readOnly_bind (readOnly_getForUpdate _) fun _ => readOnly_warmForUpdate ks

lemma readOnly_prefetchDeletes :
    ∀ items : List MembershipPrefetch, ReadOnly (prefetchDeletes items)
  | [] => readOnly_pure _
  | .delete _ :: rest =>
    readOnly_bind (readOnly_getForUpdate _) fun _ =>
      readOnly_bind (readOnly_warmForUpdate _) fun _ =>
        readOnly_bind (readOnly_prefetchDeletes rest) fun _ => readOnly_pure _
  | .insert _ _ _ :: rest => readOnly_prefetchDeletes rest
  | .replace _ _ _ :: rest => readOnly_prefetchDeletes rest

variable (mutations : List Mutation)

lemma readOnly_readLocations : ReadOnly (readLocations mutations) :=
  readOnly_bind (readOnly_readLocationsForUpdate _) fun _ => readOnly_pure _

variable (prepared : List (Option PreparedRecord))

lemma readOnly_prefetchMembership (targets expected : List (Option RecordLocation)) :
    ReadOnly (prefetchMembership mutations prepared targets expected) :=
  readOnly_bind (readOnly_bind (readOnly_warmForUpdate _) fun _ => readOnly_prefetchDeletes _)
    fun _ => readOnly_pure _

/-! ### A whole attempt -/

lemma PreparedRecord.new_ok {record : Record} {p : PreparedRecord}
    (hok : PreparedRecord.new ix record = .ok p) :
    p.record.recordId = record.id ∧ p.entry.fields = p.record.fields := by
  simp only [PreparedRecord.new, bind_eq_ok] at hok
  obtain ⟨_, -, _, -, _, -, _, -, hok⟩ := hok
  cases hok
  exact ⟨rfl, rfl⟩

lemma prepareOne_ok {position : ℕ} {mutation : Mutation} {p : PreparedRecord}
    (hok : prepareOne ix position mutation = .ok (some p)) :
    p.record.recordId = mutation.id ∧ p.entry.fields = p.record.fields := by
  have hnew : ∀ record : Record, prepareOne ix position (.insert record) = .ok (some p) →
      p.record.recordId = record.id ∧ p.entry.fields = p.record.fields := by
    intro record hok
    simp only [prepareOne] at hok
    cases hr : PreparedRecord.new ix record with
    | error e => rw [hr] at hok; cases hok
    | ok _ => rw [hr] at hok; cases hok; exact PreparedRecord.new_ok hr
  cases mutation with
  | insert record | upsert record => exact hnew record hok
  | delete _ => cases hok

lemma attemptItems_prepared {mutations : List Mutation} {prepared : List (Option PreparedRecord)}
    (hok : prepareAll ix mutations = .ok prepared)
    (targets expected : List (Option RecordLocation)) :
    ∀ item ∈ attemptItems mutations prepared targets expected, item.Prepared := by
  have hall : List.Forall₂ (fun m p => ∃ position, prepareOne ix position m = .ok p)
      mutations prepared := by
    rw [← List.zipIdx_map_fst 0 mutations, List.forall₂_map_left_iff]
    exact (mapM_eq_ok.mp hok).imp fun _ _ h => ⟨_, h⟩
  intro _ hitem p hp
  obtain ⟨⟨⟨m, q⟩, _, _⟩, hmem, rfl⟩ := mem_map.mp hitem
  obtain ⟨_, hone⟩ := (List.forall₂_iff_zip.mp hall).2 (List.of_mem_zip hmem).1
  cases hp
  exact prepareOne_ok hone

private lemma map_fst_zip_sublist {α β : Type} :
    ∀ (as : List α) (bs : List β), ((as.zip bs).map Prod.fst).Sublist as
  | [], _ => by simp
  | _ :: _, [] => by simp
  | a :: as, _ :: bs => (map_fst_zip_sublist as bs).cons_cons a

lemma attemptItems_ids (targets expected : List (Option RecordLocation)) :
    ((attemptItems mutations prepared targets expected).map fun item =>
      item.mutation.id).Sublist (mutations.map Mutation.id) := by
  have hfst : ((attemptItems mutations prepared targets expected).map fun item =>
      item.mutation.id) = ((((mutations.zip prepared).zip (targets.zip expected)).map Prod.fst).map
        Prod.fst).map Mutation.id := by
    simp only [attemptItems, map_map]
    rfl
  rw [hfst]
  exact (((map_fst_zip_sublist _ _).map Prod.fst).trans (map_fst_zip_sublist _ _)).map _

/-- **One attempt of a batch commits the effects of its items.** -/
theorem leafEffects_applyAll {mutations : List Mutation} {prepared : List (Option PreparedRecord)}
    {outcome : ApplyOutcome} (hC : Coherent ix (s.onto C))
    (hprepared : prepareAll ix mutations = .ok prepared)
    (hdistinct : (mutations.map Mutation.id).Nodup)
    (hrun : Runs C (applyAll ix graphs mutations prepared n beam) s outcome s') :
    LeafEffects ix (s.onto C) (s'.onto C) := by
  simp only [applyAll, routeAll, runs_bind] at hrun
  obtain ⟨routed, s₁, hroute, hrun⟩ := hrun
  have heffects := leafEffects_routeGroupsFrom hroute
  cases routed with
  | none =>
    obtain ⟨-, rfl, -⟩ := runs_pure.mp hrun
    exact heffects
  | some targets =>
    simp only [runs_bind, runs_pure] at hrun
    obtain ⟨_, _, hread, expected', s₃, hprefetch, ⟨_, _⟩, _, hitems, _, _,
      hstage, -, rfl, -⟩ := hrun
    have hsame := ((readOnly_readLocations _).sameWrites hread).trans
      ((readOnly_prefetchMembership _ _ _ _).sameWrites hprefetch)
    have hB : s₃.onto C = s₁.onto C := hsame.onto_eq C
    have hcoherent := (Effects.coherent_evolves heffects.effects hC).1
    obtain ⟨hsame', hqueued⟩ := leafEffects_applyItems (Batch.new (s₁.onto C)) hB hcoherent
      (attemptItems_prepared hprepared targets expected')
      (hdistinct.sublist (attemptItems_ids _ _ _ _)) nofun hitems
    rw [runs_stageAll hstage, hsame'.onto_eq C, hB]
    exact heffects.trans hqueued

end
