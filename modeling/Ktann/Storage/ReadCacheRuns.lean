/-
Sequences of calls on a write transaction with a read cache.

* `Sim`, `call_sim`, `run_sim` — with and without the cache, calls answer alike and
  leave the same backend transaction;
* `call_guards`, `run_guards` — keys read for update or inserted are guarded, and
  stay guarded;
* `readCache_transparent` — **the cache is transparent over whole sequences of
  calls**.
-/
import Ktann.Storage.ReadCache

namespace ReadCache

open KeySpace (KeyRange)
open WriteLogicalTxn (insertAbsent)

/-! ### With and without the cache -/

/-- Two transactions on the same backend transaction, each with a consistent
cache. -/
structure Sim (a b : WriteLogicalTxn) : Prop where
  raw : a.raw = b.raw
  size : a.size = b.size
  left : Consistent a.readCache a.raw
  right : Consistent b.readCache b.raw

lemma Sim.read {a b a' b' : WriteLogicalTxn} {keys : List Bytes} {forUpdate : Bool} (h : Sim a b)
    (ha : ReadStep a a' keys forUpdate) (hb : ReadStep b b' keys forUpdate) : Sim a' b' :=
  ⟨by rw [ha.raw, hb.raw, h.raw], by rw [ha.size, hb.size, h.size], ha.consistent, hb.consistent⟩

/-- The outcomes of a mutation on both sides. -/
def SimResult (x y : Except Error WriteLogicalTxn) : Prop :=
  (∃ e, x = .error e ∧ y = .error e) ∨ ∃ a b, x = .ok a ∧ y = .ok b ∧ Sim a b

lemma SimResult.bind {α : Type} {x : Except Error α} {f g : α → Except Error WriteLogicalTxn}
    (h : ∀ v, x = .ok v → SimResult (f v) (g v)) : SimResult (x >>= f) (x >>= g) := by
  cases x with
  | error e => exact .inl ⟨e, rfl, rfl⟩
  | ok v => exact h v rfl

section
variable {LogicalKey PersistentValue : Type} {limits : Limits} {refuse : Refusal}
  {codec : Codec LogicalKey PersistentValue} {a b : WriteLogicalTxn}

lemma sim_apply (h : Sim a b) (builder : MutationBuilder) :
    SimResult (a.apply limits refuse builder) (b.apply limits refuse builder) := by
  rw [WriteLogicalTxn.apply, WriteLogicalTxn.apply]
  split_ifs with hcompatible hempty
  · exact .inl ⟨_, rfl, rfl⟩
  · exact .inr ⟨a, b, rfl, rfl, h⟩
  · rw [h.size]
    refine SimResult.bind fun _ _ => SimResult.bind fun _ _ => ?_
    rw [← h.raw, Native.batchMutate]
    cases refuse a.raw.history _ with
    | some e => exact .inl ⟨e, rfl, rfl⟩
    | none =>
      have hright := h.right
      rw [← h.raw] at hright
      exact .inr ⟨_, _, rfl, rfl, rfl, rfl, h.left.cacheWrites _, hright.cacheWrites _⟩

lemma sim_clearRange (h : Sim a b) (valid : Bool) (range : KeyRange) :
    SimResult (a.clearRange limits refuse valid range)
      (b.clearRange limits refuse valid range) := by
  rw [WriteLogicalTxn.clearRange, WriteLogicalTxn.clearRange]
  split_ifs
  · exact .inl ⟨_, rfl, rfl⟩
  · rw [h.size]
    refine SimResult.bind fun _ _ => ?_
    rw [← h.raw, Native.clearRange]
    cases refuse a.raw.history _ with
    | some e => exact .inl ⟨e, rfl, rfl⟩
    | none =>
      -- the cache is dropped as a whole
      have hempty (raw : Native) : Consistent .empty raw := fun _ _ hlookup => by cases hlookup
      exact .inr ⟨_, _, rfl, rfl, rfl, rfl, hempty _, hempty _⟩

/-- The outcomes of a call on both sides. -/
structure CallSim (x y : Except Error (Output PersistentValue) × WriteLogicalTxn) : Prop where
  result : x.1 = y.1
  sim : Sim x.2 y.2

section
variable (h : Sim a b)
include h

lemma callSim_settle {x y : Except Error WriteLogicalTxn} (hxy : SimResult x y) :
    CallSim (settle a x : Except Error (Output PersistentValue) × WriteLogicalTxn)
      (settle b y) := by
  rcases hxy with ⟨e, rfl, rfl⟩ | ⟨_, _, rfl, rfl, h'⟩
  · exact ⟨rfl, h⟩
  · exact ⟨rfl, h'⟩

lemma callSim_readPoint (key : LogicalKey) (forUpdate : Bool) :
    CallSim (readPoint true codec a key forUpdate) (readPoint false codec b key forUpdate) := by
  rw [readPoint, readPoint]
  cases codec.encodeInputKey key with
  | error e => exact ⟨rfl, h⟩
  | ok encoded =>
    obtain ⟨ha, hstepa⟩ := getRaw_spec h.left true encoded forUpdate
    obtain ⟨hb, hstepb⟩ := getRaw_spec h.right false encoded forUpdate
    refine ⟨?_, h.read hstepa hstepb⟩
    dsimp only
    rw [ha, hb, h.raw]

lemma callSim_readBatch (keys : List LogicalKey) (forUpdate : Bool)
    (output : List (Option Bytes) → Except Error (Output PersistentValue)) :
    CallSim (readBatch true codec a keys forUpdate output)
      (readBatch false codec b keys forUpdate output) := by
  rw [readBatch, readBatch]
  cases keys.mapM codec.encodeInputKey with
  | error e => exact ⟨rfl, h⟩
  | ok encoded =>
    obtain ⟨ha, hstepa⟩ := batchGetRaw_spec h.left true encoded forUpdate
    obtain ⟨hb, hstepb⟩ := batchGetRaw_spec h.right false encoded forUpdate
    refine ⟨?_, h.read hstepa hstepb⟩
    dsimp only
    rw [ha, hb, h.raw]

lemma sim_insertAbsent (key value : Bytes) :
    (∃ e, a.insertAbsent limits refuse key value = .error e ∧
      b.insertAbsent limits refuse key value = .error e) ∨
    ∃ inserted a' b', a.insertAbsent limits refuse key value = .ok (inserted, a') ∧
      b.insertAbsent limits refuse key value = .ok (inserted, b') ∧ Sim a' b' := by
  have hright := h.right
  rw [← h.raw] at hright
  have hguard {cache : OrderedMap Bytes fun _ => ReadCacheEntry} (hc : Consistent cache a.raw) :
      Consistent cache { a.raw with reserved := a.raw.reserved ∪ {key} } := by
    have hread := hc.read [key] true
    exact hread
  rw [insertAbsent, insertAbsent, ← h.size, ← h.raw]
  cases hbudget : checkBudget limits.maxMutations limits.maxMutationBytes
      (a.size.add ⟨1, mutationBytes key (some value)⟩) with
  | error e => exact .inl ⟨e, rfl, rfl⟩
  | ok _ =>
    rw [Native.insert]
    cases hview : a.raw.view key with
    | some =>
      exact .inr ⟨false, _, _, rfl, rfl, rfl, rfl, hguard h.left, hguard hright⟩
    | none =>
      cases hrefuse : refuse a.raw.history (.insert key value) with
      | some e => exact .inl ⟨e, rfl, rfl⟩
      | none =>
        exact .inr ⟨true, _, _, rfl, rfl, rfl, rfl, (hguard h.left).cacheWrite key (some value),
          (hguard hright).cacheWrite key (some value)⟩

lemma callSim_insert (key : LogicalKey) (value : PersistentValue) :
    CallSim (callInsert true limits refuse codec a key value)
      (callInsert false limits refuse codec b key value) := by
  rw [callInsert, callInsert]
  cases encodeInsert limits codec key value with
  | error e => exact ⟨rfl, h⟩
  | ok pair =>
    obtain ⟨encodedKey, encodedValue⟩ := pair
    obtain ⟨ha, hstepa⟩ := getRaw_spec h.left true encodedKey true
    obtain ⟨hb, hstepb⟩ := getRaw_spec h.right false encodedKey true
    have hsim := h.read hstepa hstepb
    rw [h.raw] at ha
    dsimp only
    cases hra : a.getRaw true encodedKey true with
    | mk va a' =>
      cases hrb : b.getRaw false encodedKey true with
      | mk vb b' =>
        rw [hra] at ha hsim
        rw [hrb] at hb hsim
        have hvalue : va = vb := ha.trans hb.symm
        subst hvalue
        cases va with
        | some => exact ⟨rfl, hsim⟩
        | none =>
          rcases @sim_insertAbsent limits refuse a' b' hsim encodedKey encodedValue with
            ⟨e, hea, heb⟩ | ⟨inserted, a'', b'', hoka, hokb, hsim'⟩
          · dsimp only
            rw [hea, heb]
            exact ⟨rfl, hsim⟩
          · dsimp only
            rw [hoka, hokb]
            exact ⟨rfl, hsim'⟩

lemma call_sim (c : Call LogicalKey PersistentValue) :
    CallSim (call true limits refuse codec a c) (call false limits refuse codec b c) := by
  have hqueue (key : Bytes) (value : Option Bytes) : a.queue limits key value = b.queue limits
    key value := by
    rw [WriteLogicalTxn.queue, WriteLogicalTxn.queue, h.size]
  cases c with
  | get key => exact callSim_readPoint h key false
  | batchGet keys => exact callSim_readBatch h keys false _
  | getForUpdate key => exact callSim_readPoint h key true
  | batchGetForUpdate keys | warmForUpdate keys => exact callSim_readBatch h keys true _
  | put key value =>
    refine callSim_settle h (SimResult.bind fun _ _ => SimResult.bind fun _ _ => ?_)
    rw [hqueue]
    exact SimResult.bind fun builder _ => sim_apply h builder
  | delete key =>
    refine callSim_settle h (SimResult.bind fun _ _ => ?_)
    rw [hqueue]
    exact SimResult.bind fun builder _ => sim_apply h builder
  | insert key value => exact callSim_insert h key value
  | apply builder => exact callSim_settle h (sim_apply h builder)
  | clearRange valid range => exact callSim_settle h (sim_clearRange h valid range)

lemma run_sim (calls : List (Call LogicalKey PersistentValue)) :
    (run true limits refuse codec a calls).1 = (run false limits refuse codec b calls).1 ∧
      Sim (run true limits refuse codec a calls).2 (run false limits refuse codec b calls).2 := by
  induction calls generalizing a b with
  | nil => exact ⟨rfl, h⟩
  | cons c _ ih =>
    have hcall := @call_sim _ _ limits refuse codec a b h c
    obtain ⟨hresults, hsim⟩ := ih hcall.sim
    refine ⟨?_, hsim⟩
    rw [run, run]
    dsimp only
    rw [hcall.result, hresults]

end

end

/-! ### The keys a transaction guards -/

section
variable {LogicalKey PersistentValue : Type} {limits : Limits} {refuse : Refusal}
  {codec : Codec LogicalKey PersistentValue} {txn : WriteLogicalTxn}

variable {txn' : WriteLogicalTxn}

lemma ReadStep.reserved {keys : List Bytes} {forUpdate : Bool}
    (h : ReadStep txn txn' keys forUpdate) : txn.raw.reserved ⊆ txn'.raw.reserved := by
  rw [h.raw, Native.read]
  cases forUpdate with
  | false => exact Finset.Subset.refl _
  | true => exact Finset.subset_union_left

lemma ReadStep.protected {keys : List Bytes} (h : ReadStep txn txn' keys true) {key : Bytes}
    (hkey : key ∈ keys) : key ∈ txn'.raw.reserved := by
  rw [h.raw]
  exact Finset.mem_union_right _ (List.mem_toFinset.mpr hkey)

lemma reserved_apply {builder : MutationBuilder}
    (h : txn.apply limits refuse builder = .ok txn') : txn'.raw.reserved = txn.raw.reserved := by
  rw [WriteLogicalTxn.apply] at h
  split_ifs at h
  · cases h
    rfl
  · obtain ⟨_, -, h⟩ := bind_eq_ok.mp h
    obtain ⟨_, -, h⟩ := bind_eq_ok.mp h
    obtain ⟨_, hraw, h⟩ := bind_eq_ok.mp h
    cases h
    rw [Native.batchMutate] at hraw
    split at hraw
    · cases hraw
    · cases hraw
      rfl

lemma reserved_clearRange {valid : Bool} {range : KeyRange}
    (h : txn.clearRange limits refuse valid range = .ok txn') :
    txn'.raw.reserved = txn.raw.reserved := by
  rw [WriteLogicalTxn.clearRange] at h
  split_ifs at h
  obtain ⟨_, -, h⟩ := bind_eq_ok.mp h
  obtain ⟨_, hraw, h⟩ := bind_eq_ok.mp h
  cases h
  rw [Native.clearRange] at hraw
  split at hraw
  · cases hraw
  · cases hraw
    rfl

lemma reserved_insertAbsent {key value : Bytes} {inserted : Bool}
    (h : txn.insertAbsent limits refuse key value = .ok (inserted, txn')) :
    txn.raw.reserved ⊆ txn'.raw.reserved := by
  rw [insertAbsent] at h
  obtain ⟨_, -, h⟩ := bind_eq_ok.mp h
  obtain ⟨⟨done, raw⟩, hraw, h⟩ := bind_eq_ok.mp h
  have hgrows : txn.raw.reserved ⊆ raw.reserved := by
    rw [Native.insert] at hraw
    split at hraw
    · cases hraw
      exact Finset.subset_union_left
    · cases hraw
    · cases hraw
      exact Finset.subset_union_left
  cases done with
  | true | false =>
    cases h
    exact hgrows

lemma reserved_settle {result : Except Error WriteLogicalTxn}
    (h : ∀ txn', result = .ok txn' → txn'.raw.reserved = txn.raw.reserved) :
    (settle txn result : Except Error (Output PersistentValue) × _).2.raw.reserved =
      txn.raw.reserved := by
  cases result with
  | error e => rfl
  | ok txn' => exact h txn' rfl

/-- What a call does to the guarded keys: none is lost, and those it has to guard
are guarded. -/
structure Guards (txn txn' : WriteLogicalTxn) (keys : List Bytes) : Prop where
  grows : txn.raw.reserved ⊆ txn'.raw.reserved
  guarded : ∀ key ∈ keys, key ∈ txn'.raw.reserved

lemma Guards.of_eq (h : txn'.raw.reserved = txn.raw.reserved) : Guards txn txn' [] :=
  ⟨h.symm.subset, by simp⟩

variable (useCache : Bool)

section
variable (h : Consistent txn.readCache txn.raw)
include h

lemma guards_readPoint (key : LogicalKey) (forUpdate : Bool) :
    Guards txn (readPoint useCache codec txn key forUpdate).2
      (if forUpdate then (codec.encodeInputKey key).toOption.toList else []) := by
  rw [readPoint]
  cases codec.encodeInputKey key with
  | error e => exact ⟨Finset.Subset.refl _, by simp [Except.toOption]⟩
  | ok encoded =>
    obtain ⟨-, hstep⟩ := getRaw_spec h useCache encoded forUpdate
    refine ⟨hstep.reserved, fun key' hkey => ?_⟩
    cases forUpdate with
    | false => exact absurd hkey (by simp)
    | true => exact hstep.protected (by simpa [Except.toOption] using hkey)

lemma guards_readBatch (keys : List LogicalKey) (forUpdate : Bool)
    (output : List (Option Bytes) → Except Error (Output PersistentValue)) :
    Guards txn (readBatch useCache codec txn keys forUpdate output).2
      (if forUpdate then (keys.mapM codec.encodeInputKey).toOption.getD [] else []) := by
  rw [readBatch]
  cases keys.mapM codec.encodeInputKey with
  | error e => exact ⟨Finset.Subset.refl _, by simp [Except.toOption]⟩
  | ok encoded =>
    obtain ⟨-, hstep⟩ := batchGetRaw_spec h useCache encoded forUpdate
    refine ⟨hstep.reserved, fun key' hkey => ?_⟩
    cases forUpdate with
    | false => exact absurd hkey (by simp)
    | true => exact hstep.protected (by simpa [Except.toOption] using hkey)

lemma guards_insert (key : LogicalKey) (value : PersistentValue) :
    Guards txn (callInsert useCache limits refuse codec txn key value).2
      ((encodeInsert limits codec key value).toOption.toList.map Prod.fst) := by
  rw [callInsert]
  cases encodeInsert limits codec key value with
  | error e => exact ⟨Finset.Subset.refl _, by simp [Except.toOption]⟩
  | ok pair =>
    obtain ⟨encodedKey, encodedValue⟩ := pair
    obtain ⟨-, hstep⟩ := getRaw_spec h useCache encodedKey true
    dsimp only
    -- the key is read for update before anything is inserted under it
    have hread : Guards txn (txn.getRaw useCache encodedKey true).2 [encodedKey] :=
      ⟨hstep.reserved, fun _ hkey => hstep.protected hkey⟩
    cases hraw : txn.getRaw useCache encodedKey true with
    | mk found txn' =>
      rw [hraw] at hread
      cases found with
      | some => exact hread
      | none =>
        dsimp only
        cases hinsert : txn'.insertAbsent limits refuse encodedKey encodedValue with
        | error e => exact hread
        | ok =>
          have hgrows := reserved_insertAbsent hinsert
          exact ⟨hread.grows.trans hgrows, fun key' hkey => hgrows (hread.guarded key' hkey)⟩

lemma call_guards (c : Call LogicalKey PersistentValue) :
    Guards txn (call useCache limits refuse codec txn c).2 (c.protects limits codec) := by
  cases c with
  | get key => exact guards_readPoint useCache h key false
  | batchGet keys => exact guards_readBatch useCache h keys false _
  | getForUpdate key => exact guards_readPoint useCache h key true
  | batchGetForUpdate keys | warmForUpdate keys => exact guards_readBatch useCache h keys true _
  | insert key value => exact guards_insert useCache h key value
  | put key =>
    refine Guards.of_eq (reserved_settle fun txn' happly => ?_)
    obtain ⟨_, -, happly⟩ := bind_eq_ok.mp happly
    obtain ⟨_, -, happly⟩ := bind_eq_ok.mp happly
    obtain ⟨_, -, happly⟩ := bind_eq_ok.mp happly
    exact reserved_apply happly
  | delete _ =>
    refine Guards.of_eq (reserved_settle fun txn' happly => ?_)
    obtain ⟨_, -, happly⟩ := bind_eq_ok.mp happly
    obtain ⟨_, -, happly⟩ := bind_eq_ok.mp happly
    exact reserved_apply happly
  | apply => exact Guards.of_eq (reserved_settle fun txn' happly => reserved_apply happly)
  | clearRange =>
    exact Guards.of_eq (reserved_settle fun txn' hclear => reserved_clearRange hclear)

lemma run_guards (calls : List (Call LogicalKey PersistentValue)) :
    Guards txn (run true limits refuse codec txn calls).2
      (calls.flatMap fun c => c.protects limits codec) := by
  induction calls generalizing txn with
  | nil => exact Guards.of_eq rfl
  | cons c _ ih =>
    have hcall := @call_guards _ _ limits refuse codec _ true h c
    -- the cache stays consistent: the transaction simulates itself
    have hnext := (@call_sim _ _ limits refuse codec _ _ ⟨rfl, rfl, h, h⟩ c).sim.left
    have hrest := ih hnext
    refine ⟨hcall.grows.trans hrest.grows, fun key hkey => ?_⟩
    rw [flatMap_cons, mem_append] at hkey
    rcases hkey with hkey | hkey
    · exact hrest.grows (hcall.guarded key hkey)
    · exact hrest.guarded key hkey

end

/-- A transaction just begun on a backend transaction. -/
def WriteLogicalTxn.begin (raw : Native) : WriteLogicalTxn := ⟨raw, ⟨0, 0⟩, .empty⟩

/-- **The read cache is transparent.**  On every backend transaction and for every
sequence of calls, each call returns with the cache what it returns without it, and
the backend transaction ends the same; every key read for update or inserted has
been guarded on the backend transaction itself. -/
theorem readCache_transparent (limits : Limits) (refuse : Refusal)
    (codec : Codec LogicalKey PersistentValue) (raw : Native)
    (calls : List (Call LogicalKey PersistentValue)) :
    (run true limits refuse codec (.begin raw) calls).1 =
        (run false limits refuse codec (.begin raw) calls).1 ∧
      (run true limits refuse codec (.begin raw) calls).2.raw =
        (run false limits refuse codec (.begin raw) calls).2.raw ∧
      ∀ c ∈ calls, ∀ key ∈ c.protects limits codec,
        key ∈ (run true limits refuse codec (.begin raw) calls).2.raw.reserved := by
  have hempty : Consistent (WriteLogicalTxn.begin raw).readCache raw :=
    fun _ _ hlookup => by cases hlookup
  obtain ⟨hresults, hsim⟩ := run_sim ⟨rfl, rfl, hempty, hempty⟩ calls
  refine ⟨hresults, hsim.raw, fun c hc key hkey => ?_⟩
  exact (run_guards hempty calls).guarded key (mem_flatMap.mpr ⟨c, hc, hkey⟩)

end

end ReadCache
