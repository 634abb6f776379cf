/-
Effects that change no internal body.

Mutations, leaf moves and State changes leave every routing graph as it is: they
write no graph record and no Child Entry, and the Headers whose counters they move
are those of leaves.

* `SameGraph` — the internal body of a partition and its graph are the same;
* `LeafEffect`, `LeafEffects` — the effects that keep all of them;
* `LeafEffects.sameGraph` — what a sequence of them keeps.
-/
import Ktann.Committed.Coherence

/-- What the graph of a partition is bound to in its Header: nothing for a leaf or an
empty partition. -/
def Store.graphHead (S : Store) (t : TreeKey) (p : PartitionKey) : Option (ℕ × ℕ × ℕ) :=
  (S.header t p).bind fun h =>
    if 1 < h.level ∧ 0 < h.entryCount then some (h.level, h.entryCount, h.cacheEpoch) else none

structure SameGraph (S S' : Store) (t : TreeKey) (p : PartitionKey) : Prop where
  head : S'.graphHead t p = S.graphHead t p
  child : ∀ c, S'.childEntry t p c = S.childEntry t p c
  descriptor : S'.graphDescriptor t p = S.graphDescriptor t p
  chunk : ∀ n, S'.graphChunk t p n = S.graphChunk t p n

/-- An effect that keeps every internal body of a coherent store. -/
structure LeafEffect (ix : Index) (S S' : Store) : Prop where
  effect : Effect ix S S'
  sameGraph : Coherent ix S → ∀ t p, SameGraph S S' t p

/-- A sequence of them. -/
abbrev LeafEffects (ix : Index) : Store → Store → Prop := Relation.ReflTransGen (LeafEffect ix)

section

variable {ix : Index} {S S' S'' : Store} {t t' : TreeKey} {p p' : PartitionKey}
  {h h' : PartitionHeader}

lemma LeafEffects.effects (heffects : LeafEffects ix S S') : Effects ix S S' :=
  Relation.ReflTransGen.mono (fun _ _ heffect => heffect.effect) _ _ heffects

lemma SameGraph.refl : SameGraph S S t p := ⟨rfl, fun _ => rfl, rfl, fun _ => rfl⟩

lemma SameGraph.trans (hs : SameGraph S S' t p) (hs' : SameGraph S' S'' t p) :
    SameGraph S S'' t p :=
  ⟨hs'.head.trans hs.head, fun c => (hs'.child c).trans (hs.child c),
    hs'.descriptor.trans hs.descriptor, fun n => (hs'.chunk n).trans (hs.chunk n)⟩

/-- **A sequence of leaf effects keeps every internal body.** -/
theorem LeafEffects.sameGraph (heffects : LeafEffects ix S S') (hS : Coherent ix S) :
    SameGraph S S' t p := by
  induction heffects with
  | refl => exact .refl
  | tail hprefix heffect ih =>
    have hmid := (Effects.coherent_evolves (LeafEffects.effects hprefix) hS).1
    exact ih.trans (heffect.sameGraph hmid t p)

/-! ### Units of change -/

lemma graphHead_congr (hheader : S'.header t p = S.header t p) :
    S'.graphHead t p = S.graphHead t p := by
  rw [Store.graphHead, hheader, Store.graphHead]

lemma graphHead_leaf (hh : S.header t p = some h) (leaf : h.level = 1) :
    S.graphHead t p = none := by
  simp [Store.graphHead, hh, leaf]

lemma graphHead_empty (hh : S.header t p = some h) (empty : h.entryCount = 0) :
    S.graphHead t p = none := by
  simp [Store.graphHead, hh, empty]

lemma graphHead_absent (hh : S.header t p = none) : S.graphHead t p = none := by
  simp [Store.graphHead, hh]

variable {e : LeafEntry} {y : PartitionSynopsis} {id : RecordId} {record : VectorRecord}
  {payload : Option Bytes} {location : RecordLocation} {state : PartitionTransition} {n : ℕ}
  {k k' : PartitionHeader}

section

attribute [local simp] putLeaf eraseLeaf putRecord eraseRecord allocate restate Store.createTree
  Store.createTarget

section
variable (header : S.header t p = some h) (leaf : h.level = 1) (leaf' : h'.level = 1)
include header leaf leaf'

lemma sameGraph_putLeaf : SameGraph S (S.putLeaf t p e h' y) t' p' := by
  refine ⟨?_, fun c => by simp, by simp, fun n => by simp⟩
  by_cases htp : t' = t ∧ p' = p
  · obtain ⟨rfl, rfl⟩ := htp
    rw [graphHead_leaf header leaf]
    exact graphHead_leaf (h := h') (by simp) leaf'
  · exact graphHead_congr (by simp [htp])

lemma sameGraph_eraseLeaf : SameGraph S (S.eraseLeaf t p id h') t' p' := by
  refine ⟨?_, fun c => by simp, by simp, fun n => by simp⟩
  by_cases htp : t' = t ∧ p' = p
  · obtain ⟨rfl, rfl⟩ := htp
    rw [graphHead_leaf header leaf]
    exact graphHead_leaf (h := h') (by simp) leaf'
  · exact graphHead_congr (by simp [htp])

end

lemma sameGraph_putRecord : SameGraph S (S.putRecord record payload location) t p := by
  cases payload <;> exact ⟨graphHead_congr (by simp), fun c => by simp, by simp, fun n => by simp⟩

lemma sameGraph_eraseRecord : SameGraph S (S.eraseRecord id) t p :=
  ⟨graphHead_congr (by simp), fun c => by simp, by simp, fun n => by simp⟩

lemma sameGraph_put_location : SameGraph S (S.put (.location id) location) t p :=
  ⟨graphHead_congr (by simp), fun c => by simp, by simp, fun n => by simp⟩

lemma sameGraph_allocate {m : TreeManifest} : SameGraph S (S.allocate t m) t' p' :=
  ⟨graphHead_congr (by simp), fun c => by simp, by simp, fun n => by simp⟩

lemma sameGraph_restate (header : S.header t p = some h) :
    SameGraph S (S.restate t p h state) t' p' := by
  refine ⟨?_, fun c => by simp, by simp, fun n => by simp⟩
  by_cases htp : t' = t ∧ p' = p
  · obtain ⟨rfl, rfl⟩ := htp
    have hheader : (S.restate t' p' h state).header t' p' = some (h.withState state.state) := by
      simp
    rw [Store.graphHead, hheader, Store.graphHead, header]
    rfl
  · exact graphHead_congr (by simp [htp])

lemma sameGraph_createTarget {source : PartitionKey} {v : VectorData}
    (absent : S.header t p = none) : SameGraph S (S.createTarget ix t source h p v n) t' p' := by
  refine ⟨?_, fun c => by rw [Store.childEntry_createTarget], ?_, fun m => ?_⟩
  · by_cases htp : t' = t ∧ p' = p
    · obtain ⟨rfl, rfl⟩ := htp
      rw [graphHead_absent absent]
      refine graphHead_empty (h := .fresh h.level .receivingSplit h.level_pos h.level_lt) ?_ rfl
      rw [header_createTarget, if_pos ⟨rfl, rfl⟩]
    · refine graphHead_congr ?_
      rw [header_createTarget, if_neg htp]
  all_goals by_cases hl : h.level = 1 <;> simp [hl]

lemma sameGraph_createTree (absent : S.header t rootPartition = none) :
    SameGraph S (S.createTree ix t n) t' p' := by
  refine ⟨?_, fun c => by simp, by simp, fun m => by simp⟩
  by_cases htp : t' = t ∧ p' = rootPartition
  · obtain ⟨rfl, rfl⟩ := htp
    rw [graphHead_absent absent]
    exact graphHead_leaf (h := .newRoot) (by simp) rfl
  · exact graphHead_congr (by simp [htp])

end

lemma Coherent.level_of_leafEntry (hS : Coherent ix S) (header : S.header t p = some h)
    (hentry : S.leafEntry t p id ≠ none) : h.level = 1 := by
  by_contra hl
  exact hentry (((hS.bodies t p).internal header hl).2 id)

/-! ### The leaf effects -/

lemma leafEffect_createTree (absent : S.treeManifest t = none) :
    LeafEffect ix S (S.createTree ix t n) :=
  ⟨.createTree absent, fun hS _ _ => sameGraph_createTree (hS.root_absent absent)⟩

lemma leafEffect_putLeaf
    (heffect : Effect ix S ((S.putLeaf t p e h' y).putRecord record payload location))
    (header : S.header t p = some h) (leaf : h.level = 1) (hadj : h.Adjusted h') :
    LeafEffect ix S ((S.putLeaf t p e h' y).putRecord record payload location) :=
  ⟨heffect, fun _ _ _ =>
    (sameGraph_putLeaf header leaf (hadj.level.trans leaf)).trans sameGraph_putRecord⟩

lemma leafEffect_replaceAcross {source target : RecordLocation}
    (heffect : Effect ix S (((S.eraseLeaf source.treeKey source.leaf e.recordId k').putLeaf
      target.treeKey target.leaf e h' y).putRecord record payload target))
    (location : S.location record.recordId = some source) (ne : source ≠ target)
    (sourceHeader : S.header source.treeKey source.leaf = some k)
    (removed : k.removedEntry = .ok k') (header : S.header target.treeKey target.leaf = some h)
    (leaf : h.level = 1) (hadj : h.Adjusted h') :
    LeafEffect ix S (((S.eraseLeaf source.treeKey source.leaf e.recordId k').putLeaf
      target.treeKey target.leaf e h' y).putRecord record payload target) := by
  refine ⟨heffect, fun hS t' p' => ?_⟩
  have hleaf := hS.level_of_leafEntry sourceHeader (hS.membership.stored location)
  have hk' := (removedEntry_ok removed).1.level.trans hleaf
  have hkeys : ¬(target.treeKey = source.treeKey ∧ target.leaf = source.leaf) := by
    rintro ⟨ht, hp⟩
    cases source
    cases target
    simp_all
  refine (sameGraph_eraseLeaf sourceHeader hleaf hk').trans
    ((sameGraph_putLeaf ?_ leaf (hadj.level.trans leaf)).trans sameGraph_putRecord)
  simpa [eraseLeaf, hkeys] using header

lemma leafEffect_delete (stored : S.location id = some location)
    (header : S.header location.treeKey location.leaf = some h)
    (removed : h.removedEntry = .ok h') :
    LeafEffect ix S ((S.eraseLeaf location.treeKey location.leaf id h').eraseRecord id) := by
  refine ⟨.delete stored header removed, fun hS t' p' => ?_⟩
  have hleaf := hS.level_of_leafEntry header (hS.membership.stored stored)
  have hleaf' := (removedEntry_ok removed).1.level.trans hleaf
  exact (sameGraph_eraseLeaf header hleaf hleaf').trans sameGraph_eraseRecord

lemma leafEffect_moveLeaf {source target : PartitionKey}
    (heffect : Effect ix S (((S.eraseLeaf t source e.recordId k').putLeaf t target e h' y).put
      (.location e.recordId) ⟨t, target⟩)) (entry : S.leafEntry t source e.recordId = some e)
    (ne : source ≠ target) (sourceHeader : S.header t source = some k)
    (removed : k.removedEntry = .ok k') (header : S.header t target = some h) (leaf : h.level = 1)
    (added : h.addedEntry = .ok h') :
    LeafEffect ix S (((S.eraseLeaf t source e.recordId k').putLeaf t target e h' y).put
      (.location e.recordId) ⟨t, target⟩) := by
  refine ⟨heffect, fun hS t' p' => ?_⟩
  have hleaf := hS.level_of_leafEntry sourceHeader (by rw [entry]; simp)
  have hk' := (removedEntry_ok removed).1.level.trans hleaf
  have hh' := (addedEntry_ok added).1.level.trans leaf
  refine (sameGraph_eraseLeaf sourceHeader hleaf hk').trans
    ((sameGraph_putLeaf ?_ leaf hh').trans sameGraph_put_location)
  simpa [eraseLeaf, ne.symm] using header

lemma leafEffect_restate (header : S.header t p = some h)
    (heffect : Effect ix S (S.restate t p h state)) : LeafEffect ix S (S.restate t p h state) :=
  ⟨heffect, fun _ _ _ => sameGraph_restate header⟩

lemma leafEffect_beginSplit {m : TreeManifest} (header : S.header t p = some h)
    (heffect : Effect ix S ((S.allocate t m).restate t p h state)) :
    LeafEffect ix S ((S.allocate t m).restate t p h state) :=
  ⟨heffect, fun _ _ _ => sameGraph_allocate.trans
    (sameGraph_restate (by simpa [allocate] using header))⟩

lemma leafEffect_exposeRoot {targets : SplitPair} {a b : VectorData} {began : ℕ}
    (header : S.header t rootPartition = some h)
    (state : S.state t rootPartition = some (.splitting targets began)) :
    LeafEffect ix S (((S.createTarget ix t rootPartition h targets.left a n).createTarget ix
      t rootPartition h targets.right b n).restate t rootPartition h
        (.drainingSplit targets n)) := by
  refine ⟨.exposeRoot header state, fun hS t' p' => ?_⟩
  have hphase : (S.topology t).phase rootPartition = some (.splitting targets) := by
    simp [topology, state, PartitionTransition.phase]
  have habsent {c} (hc : targets.Names c) : S.header t c = none := by
    simpa [topology] using ((hS.topology t).splitting hphase hc).1
  have hne {c} (hc : targets.Names c) : rootPartition ≠ c :=
    ne_of_lt ((hS.topology t).splitting hphase hc).2
  refine (sameGraph_createTarget (habsent targets.names_left)).trans
    ((sameGraph_createTarget ?_).trans (sameGraph_restate ?_))
  · rw [header_createTarget, if_neg (fun h => targets.ne h.2.symm)]
    exact habsent targets.names_right
  · rw [header_createTarget, if_neg (fun h => hne targets.names_right h.2),
      header_createTarget, if_neg (fun h => hne targets.names_left h.2)]
    exact header

end

export Store (graphHead)
