/-
The store a mutation batch is about to leave.

A batch reads the store it began with and queues what it will write.  Its effects
are stated on the store with the queued and gathered writes already applied: there
every queued write and every gathered Header and Synopsis is one plain write.

* `WriteSinks.applied` — that store;
* `Batch` — what the sinks hold, against the store the batch reads;
* `applied_queue`, `applied_adjustHeader`, `runs_expandSynopsis` — every operation
  on the sinks as a write.
-/
import Ktann.Lib.Overlay
import Ktann.Committed.Coherence
import Ktann.Maintenance.Mutation

open Write (applyAll)
open TxnM WriteTxn

namespace RecordLocation

abbrev headerKey (l : RecordLocation) : LogicalKey := .header l.treeKey l.leaf

abbrev synopsisKey (l : RecordLocation) : LogicalKey := .synopsis l.treeKey l.leaf

lemma headerKey_injective : Injective headerKey := by
  rintro ⟨t, p⟩ ⟨_, _⟩ h
  simpa using h

lemma synopsisKey_injective : Injective synopsisKey := by
  rintro ⟨t, p⟩ ⟨_, _⟩ h
  simpa using h

end RecordLocation

/-- The record whose membership a key is part of. -/
@[simp] def LogicalKey.ofRecord : LogicalKey → Option RecordId
  | record id | location id | payload id | leafEntry _ _ id => some id
  | _ => none

open LogicalKey (ofRecord)

/-- A put or a delete of a key of one record's membership. -/
def Write.OnRecord (id : RecordId) : Write ValueOf → Prop
  | .put k _ | .delete k => k.ofRecord = some id
  | .clear _ => False

lemma Write.OnRecord.lookup {id : RecordId} {w : Write ValueOf} (hw : w.OnRecord id)
    {k : LogicalKey} (hk : k.ofRecord ≠ some id) (S : Store) :
    (w.apply S).lookup k = S.lookup k := by
  cases w with
  | put k' v =>
    refine lookup_put_ne _ _ ?_
    rintro rfl
    exact hk hw
  | delete _ =>
    refine lookup_erase_ne _ ?_
    rintro rfl
    exact hk hw
  | clear => exact hw.elim

def dirtySynopsis (y : PartitionSynopsis × Bool) : Option PartitionSynopsis :=
  if y.2 then some y.1 else none

namespace LeafAccumulator

variable (leaves : LeafAccumulator)

def headerWrites : List (Write ValueOf) :=
  overlay leaves.headers RecordLocation.headerKey fun _ h => some h

def synopsisWrites : List (Write ValueOf) :=
  overlay leaves.synopses RecordLocation.synopsisKey fun _ y => dirtySynopsis y

lemma flush_eq : leaves.flush = leaves.headerWrites ++ leaves.synopsisWrites := by
  rw [flush, headerWrites, synopsisWrites, overlay, overlay]
  congr 1
  · simp only [map_some, List.filterMap_eq_map']
  · refine List.filterMap_congr fun e _ => ?_
    simp only [dirtySynopsis]
    split_ifs <;> rfl

end LeafAccumulator

namespace WriteSinks

variable (sinks : WriteSinks) (B : Store)

def applied : Store := applyAll B (sinks.deferred ++ sinks.leaves.flush)

lemma applied_eq : sinks.applied B = applyAll (applyAll (applyAll B sinks.deferred)
      sinks.leaves.headerWrites) sinks.leaves.synopsisWrites := by
  rw [applied, LeafAccumulator.flush_eq, Write.applyAll_append, Write.applyAll_append]

lemma applied_queue {id : RecordId} {w : Write ValueOf} (hw : w.OnRecord id) (sinks : WriteSinks)
    (B : Store) : (sinks.queue w).applied B = w.apply (sinks.applied B) := by
  have hlast : applyAll B (sinks.queue w).deferred =
      w.apply (applyAll B sinks.deferred) := by
    simp [queue]
  rw [applied_eq, applied_eq, hlast]
  simp only [queue, LeafAccumulator.headerWrites, LeafAccumulator.synopsisWrites]
  rw [applyAll_overlay_apply RecordLocation.headerKey_injective,
    applyAll_overlay_apply RecordLocation.synopsisKey_injective]
  · intro S i
    exact hw.lookup (by simp [ofRecord]) S
  · intro S i
    exact hw.lookup (by simp [ofRecord]) S

lemma applied_queue_put {k : LogicalKey} (v : k.ValueOf) (sinks : WriteSinks) (B : Store)
    (hk : k.ofRecord.isSome = true := by rfl) :
    (sinks.queue (.put k v)).applied B = (sinks.applied B).put k v := by
  obtain ⟨_, hid⟩ := isSome_iff_exists.mp hk
  exact applied_queue (w := .put k v) hid sinks B

lemma applied_queue_delete {k : LogicalKey} (hk : k.ofRecord.isSome = true := by rfl) :
    (sinks.queue (.delete k)).applied B = (sinks.applied B).erase k := by
  obtain ⟨_, hid⟩ := isSome_iff_exists.mp hk
  exact applied_queue (w := .delete k) hid sinks B

lemma applied_adjustHeader (l : RecordLocation) (h : PartitionHeader) :
    applied { sinks with leaves := sinks.leaves.adjustHeader l h } B =
      (sinks.applied B).put (.header l.treeKey l.leaf) h := by
  rw [applied_eq, applied_eq]
  simp only [LeafAccumulator.headerWrites, LeafAccumulator.adjustHeader,
    LeafAccumulator.synopsisWrites]
  rw [applyAll_overlay_put RecordLocation.headerKey_injective _ _ rfl]
  refine applyAll_overlay_apply (V := ValueOf) RecordLocation.synopsisKey_injective _ _
    (w := .put (.header l.treeKey l.leaf) h) fun S i => ?_
  exact lookup_put_ne _ _ (by simp)

end WriteSinks

/-! ### A batch against the store it reads -/

/-- What the sinks of a batch hold, after the records in `done`: only writes of
those records' memberships, and Synopses that are stored unless they changed. -/
structure Batch (B : Store) (done : List RecordId) (sinks : WriteSinks) : Prop where
  deferred : ∀ w ∈ sinks.deferred, ∃ id ∈ done, w.OnRecord id
  clean : ∀ l y, sinks.leaves.synopses.lookup l = some (y, false) →
    B.synopsis l.treeKey l.leaf = some y

namespace Batch

variable {B : Store} {done : List RecordId} {sinks : WriteSinks}

lemma new (B : Store) : Batch B [] ⟨[], LeafAccumulator.new⟩ where
  deferred w hw := by cases hw
  clean l y hl := by cases hl

section
variable (hb : Batch B done sinks)
include hb

lemma lookup_deferred {k : LogicalKey} (hk : ∀ id ∈ done, k.ofRecord ≠ some id) :
    (applyAll B sinks.deferred).lookup k = B.lookup k := by
  have hall : ∀ (ws : List (Write ValueOf)) (S : Store),
      (∀ w ∈ ws, ∃ id ∈ done, w.OnRecord id) → (applyAll S ws).lookup k = S.lookup k := by
    intro ws
    induction ws with
    | nil => exact fun S _ => rfl
    | cons w _ ih =>
      intro S hws
      obtain ⟨id, hid, hw⟩ := hws w mem_cons_self
      rw [Write.applyAll_cons, ih _ fun w' hw' => hws w' (mem_cons_of_mem _ hw'),
        hw.lookup (hk id hid)]
  exact hall _ B hb.deferred

lemma lookup_applied {k : LogicalKey} {id : RecordId} (hk : k.ofRecord = some id)
    (hid : id ∉ done) : (sinks.applied B).lookup k = B.lookup k := by
  rw [WriteSinks.applied_eq, LeafAccumulator.synopsisWrites, LeafAccumulator.headerWrites,
    lookup_overlay_ne, lookup_overlay_ne, hb.lookup_deferred]
  · intro _ hid' hk'
    rw [hk] at hk'
    cases hk'
    exact hid hid'
  · rintro l rfl
    cases hk
  · rintro l rfl
    cases hk

lemma header (l : RecordLocation) : (sinks.applied B).header l.treeKey l.leaf =
      (sinks.leaves.headers.lookup l).or (B.header l.treeKey l.leaf) := by
  have hread : (applyAll B sinks.deferred).lookup l.headerKey = B.lookup l.headerKey :=
    hb.lookup_deferred (by simp [ofRecord])
  change (sinks.applied B).lookup l.headerKey = _
  rw [WriteSinks.applied_eq, LeafAccumulator.synopsisWrites, LeafAccumulator.headerWrites,
    lookup_overlay_ne (by simp), lookup_overlay RecordLocation.headerKey_injective, hread]
  simp [Store.header]

lemma synopsis (l : RecordLocation) : (sinks.applied B).synopsis l.treeKey l.leaf =
      ((sinks.leaves.synopses.lookup l).bind dirtySynopsis).or (B.synopsis l.treeKey l.leaf) := by
  have hread : (applyAll B sinks.deferred).lookup l.synopsisKey = B.lookup l.synopsisKey :=
    hb.lookup_deferred (by simp [ofRecord])
  change (sinks.applied B).lookup l.synopsisKey = _
  rw [WriteSinks.applied_eq, LeafAccumulator.synopsisWrites, LeafAccumulator.headerWrites,
    lookup_overlay RecordLocation.synopsisKey_injective, lookup_overlay_ne (by simp), hread]
  rfl

lemma synopsis_gathered {l : RecordLocation} {y : PartitionSynopsis} {changed : Bool}
    (hl : sinks.leaves.synopses.lookup l = some (y, changed)) :
    (sinks.applied B).synopsis l.treeKey l.leaf = some y := by
  rw [hb.synopsis, hl]
  cases changed with
  | true => rfl
  | false =>
    simp only [bind_some, dirtySynopsis]
    exact hb.clean l y hl

lemma queue {id : RecordId} {w : Write ValueOf} (hid : id ∈ done) (hw : w.OnRecord id) :
    Batch B done (sinks.queue w) := by
  refine ⟨fun w' hw' => ?_, hb.clean⟩
  rcases mem_append.mp hw' with hold | hnew
  · exact hb.deferred w' hold
  · cases mem_singleton.mp hnew
    exact ⟨id, hid, hw⟩

lemma mono {done' : List RecordId} (h : done ⊆ done') : Batch B done' sinks :=
  ⟨fun w hw => let ⟨id, hid, hon⟩ := hb.deferred w hw; ⟨id, h hid, hon⟩, hb.clean⟩

lemma adjustHeader (l : RecordLocation) (h : PartitionHeader) :
    Batch B done { sinks with leaves := sinks.leaves.adjustHeader l h } :=
  ⟨hb.deferred, hb.clean⟩

end

end Batch

/-! ### The sinks' programs -/

section

variable {ix : Index} {B C : Store} {done : List RecordId} {sinks : WriteSinks}
  {s s' : Txn ValueOf} {l : RecordLocation} {leaves : LeafAccumulator}

section

variable (hb : Batch B done sinks) (hB : s.onto C = B)

include hb hB

lemma runs_leafHeader {h : PartitionHeader}
    (hrun : Runs C (sinks.leaves.header l) s (h, leaves) s') :
    s.SameWrites s' ∧ (sinks.applied B).header l.treeKey l.leaf = some h ∧
      WriteSinks.applied { sinks with leaves := leaves } B = sinks.applied B ∧
      Batch B done { sinks with leaves := leaves } := by
  rw [LeafAccumulator.header] at hrun
  cases hgathered : sinks.leaves.headers.lookup l with
  | some k =>
    simp only [hgathered, runs_pure, Prod.mk.injEq] at hrun
    obtain ⟨⟨rfl, rfl⟩, rfl, -⟩ := hrun
    refine ⟨.refl _, ?_, rfl, hb⟩
    rw [hb.header, hgathered]
    rfl
  | none =>
    simp only [hgathered, runs_bind, runs_requireHeader, runs_pure, Prod.mk.injEq] at hrun
    obtain ⟨k, _, ⟨hk, rfl, -⟩, ⟨rfl, rfl⟩, rfl, -⟩ := hrun
    rw [hB] at hk
    have hheader : (sinks.applied B).header l.treeKey l.leaf = some h := by
      rw [hb.header, hgathered]
      exact hk
    refine ⟨s.sameWrites_protect _, hheader, ?_, hb.adjustHeader l h⟩
    exact (sinks.applied_adjustHeader B l h).trans (OrderedMap.put_eq_self hheader)

lemma runs_leafSynopsis {y : PartitionSynopsis} {changed : Bool}
    (hrun : Runs C (sinks.leaves.synopsis l) s (y, changed) s') :
    s.SameWrites s' ∧ (sinks.applied B).synopsis l.treeKey l.leaf = some y ∧
      (changed = false → B.synopsis l.treeKey l.leaf = some y ∧
        (sinks.leaves.synopses.lookup l).bind dirtySynopsis = none) := by
  rw [LeafAccumulator.synopsis] at hrun
  cases hgathered : sinks.leaves.synopses.lookup l with
  | some =>
    simp only [hgathered, runs_pure] at hrun
    obtain ⟨rfl, rfl, -⟩ := hrun
    refine ⟨.refl _, hb.synopsis_gathered hgathered, ?_⟩
    rintro rfl
    exact ⟨hb.clean l y hgathered, rfl⟩
  | none =>
    simp only [hgathered, runs_bind, runs_requireSynopsis, runs_pure, Prod.mk.injEq] at hrun
    obtain ⟨k, _, ⟨hk, rfl, -⟩, ⟨rfl, rfl⟩, rfl, -⟩ := hrun
    rw [hB] at hk
    refine ⟨s.sameWrites_protect _, ?_, fun _ => ⟨hk, rfl⟩⟩
    rw [hb.synopsis, hgathered]
    exact hk

lemma runs_expandSynopsis {row : List Value}
    (hrun : Runs C (sinks.leaves.expandSynopsis ix l row) s leaves s') :
    s.SameWrites s' ∧ Batch B done { sinks with leaves := leaves } ∧
      ∃ y y' changed, (sinks.applied B).synopsis l.treeKey l.leaf = some y ∧
        y.expand ix row = .ok (y', changed) ∧
        WriteSinks.applied { sinks with leaves := leaves } B =
          (sinks.applied B).put (.synopsis l.treeKey l.leaf) y' := by
  simp only [LeafAccumulator.expandSynopsis, runs_bind, runs_ofExcept, runs_pure] at hrun
  obtain ⟨⟨y, changed⟩, _, hsyn, ⟨y', changed'⟩, _, ⟨hexpand, rfl, -⟩, rfl, rfl, -⟩ := hrun
  obtain ⟨hsame, hy, hclean⟩ := runs_leafSynopsis hb hB hsyn
  have hspec := PartitionSynopsis.expand_spec hexpand
  refine ⟨hsame, ⟨hb.deferred, ?_⟩, y, y', changed', hy, hexpand, ?_⟩
  · intro l' z hl'
    by_cases hl : l' = l
    · subst hl
      simp only [lookup_put_self, Option.some.injEq, Prod.mk.injEq, or_eq_false_iff] at hl'
      obtain ⟨rfl, hold, hnew⟩ := hl'
      rw [hspec.unchanged hnew]
      exact (hclean hold).1
    · rw [lookup_put_ne _ _ hl] at hl'
      exact hb.clean l' z hl'
  · rw [WriteSinks.applied_eq, WriteSinks.applied_eq]
    simp only [LeafAccumulator.headerWrites, LeafAccumulator.synopsisWrites]
    by_cases hdirty : (changed || changed') = true
    · rw [applyAll_overlay_put RecordLocation.synopsisKey_injective]
      simp [dirtySynopsis, hdirty]
    · -- Nothing changed: the Synopsis is not written, and it is the stored one.
      have hdirty' : (changed || changed') = false := by simpa using hdirty
      obtain ⟨hold, hnew⟩ := or_eq_false_iff.mp hdirty'
      rw [applyAll_overlay_keep RecordLocation.synopsisKey_injective _ _
        (by simp [dirtySynopsis, hdirty']) (hclean hold).2]
      refine (OrderedMap.put_eq_self ?_).symm
      rw [hspec.unchanged hnew]
      rw [WriteSinks.applied_eq] at hy
      exact hy

end

end
