/-
The store of one index, read family by family.

A committed state is one ordered map over the logical keys.  Each family of
keys has its own reader, and each reader knows what one written or removed key
does to it; proofs about a transaction's writes stay in these terms.

* `record_put` … `state_clear` — a family after a put, an erase and a range clear;
* `mem_childEntries` — a scanned body lists exactly the stored entries;
* `entryCount_put`, `entryCount_erase` — how many entries a partition stores
  after a write;
* `body_congr` — a body depends on the store only through its own entries.
-/
import Ktann.Storage.Keys
import Ktann.Lib.Transaction

/-- The committed contents of one index. -/
abbrev Store := OrderedMap LogicalKey ValueOf

namespace Store

open LogicalKey

variable (S : Store)

/-! ### Reading one family of keys -/

def record (id : RecordId) : Option VectorRecord := S.lookup (.record id)

def location (id : RecordId) : Option RecordLocation := S.lookup (.location id)

/-- The Opaque Payload of an ID. -/
def payload (id : RecordId) : Option Bytes := S.lookup (.payload id)

def treeManifest (t : TreeKey) : Option TreeManifest := S.lookup (.treeManifest t)

def header (t : TreeKey) (p : PartitionKey) : Option PartitionHeader := S.lookup (.header t p)

def synopsis (t : TreeKey) (p : PartitionKey) : Option PartitionSynopsis := S.lookup (.synopsis t p)

def state (t : TreeKey) (p : PartitionKey) : Option PartitionTransition := S.lookup (.state t p)

def centroid (t : TreeKey) (p : PartitionKey) : Option VectorData := S.lookup (.centroid t p)

def leafEntry (t : TreeKey) (p : PartitionKey) (id : RecordId) : Option LeafEntry :=
  S.lookup (.leafEntry t p id)

def childEntry (t : TreeKey) (p c : PartitionKey) : Option ChildEntry :=
  S.lookup (.childEntry t p c)

def graphDescriptor (t : TreeKey) (p : PartitionKey) : Option GraphDescriptor :=
  S.lookup (.graphDescriptor t p)

def graphChunk (t : TreeKey) (p : PartitionKey) (n : ℕ) : Option Bytes :=
  S.lookup (.graphChunk t p n)

def graphChunks (t : TreeKey) (p : PartitionKey) : List ℕ :=
  (S.keysIn (graphChunkRange t p)).filterMap fun
    | .graphChunk _ _ n => some n
    | _ => none

/-! ### One key written or removed, as each family sees it -/

section

variable (k : LogicalKey) (v : k.ValueOf) (range : LogicalKey → Bool) (t : TreeKey)
  (p : PartitionKey) (id : RecordId) (c : PartitionKey) (n : ℕ)

@[simp] lemma record_put : record (S.put k v) id = match k, v with
      | .record id', v => if id = id' then some v else S.record id | _, _ => S.record id := by
  cases k <;> simp [record, lookup_put]
  split_ifs with h
  · subst h; rfl
  · rfl

@[simp] lemma location_put : location (S.put k v) id = match k, v with
      | .location id', v => if id = id' then some v else S.location id | _, _ => S.location id := by
  cases k <;> simp [location, lookup_put]
  split_ifs with h
  · subst h; rfl
  · rfl

@[simp] lemma payload_put : payload (S.put k v) id = match k, v with
      | .payload id', v => if id = id' then some v else S.payload id | _, _ => S.payload id := by
  cases k <;> simp [payload, lookup_put]
  split_ifs with h
  · subst h; rfl
  · rfl

@[simp] lemma treeManifest_put : treeManifest (S.put k v) t = match k, v with
      | .treeManifest t', v => if t = t' then some v else S.treeManifest t
      | _, _ => S.treeManifest t := by
  cases k <;> simp [treeManifest, lookup_put]
  split_ifs with h
  · subst h; rfl
  · rfl

@[simp] lemma header_put : header (S.put k v) t p = match k, v with
      | .header t' p', v => if t = t' ∧ p = p' then some v else S.header t p
      | _, _ => S.header t p := by
  cases k <;> simp [header, lookup_put]
  split_ifs with h
  · obtain ⟨rfl, rfl⟩ := h; rfl
  · rfl

@[simp] lemma synopsis_put : synopsis (S.put k v) t p = match k, v with
      | .synopsis t' p', v => if t = t' ∧ p = p' then some v else S.synopsis t p
      | _, _ => S.synopsis t p := by
  cases k <;> simp [synopsis, lookup_put]
  split_ifs with h
  · obtain ⟨rfl, rfl⟩ := h; rfl
  · rfl

@[simp] lemma state_put : state (S.put k v) t p = match k, v with
      | .state t' p', v => if t = t' ∧ p = p' then some v else S.state t p
      | _, _ => S.state t p := by
  cases k <;> simp [state, lookup_put]
  split_ifs with h
  · obtain ⟨rfl, rfl⟩ := h; rfl
  · rfl

@[simp] lemma centroid_put : centroid (S.put k v) t p = match k, v with
      | .centroid t' p', v => if t = t' ∧ p = p' then some v else S.centroid t p
      | _, _ => S.centroid t p := by
  cases k <;> simp [centroid, lookup_put]
  split_ifs with h
  · obtain ⟨rfl, rfl⟩ := h; rfl
  · rfl

@[simp] lemma leafEntry_put : leafEntry (S.put k v) t p id = match k, v with
      | .leafEntry t' p' id', v => if t = t' ∧ p = p' ∧ id = id' then some v else S.leafEntry t p id
      | _, _ => S.leafEntry t p id := by
  cases k <;> simp [leafEntry, lookup_put]
  split_ifs with h
  · obtain ⟨rfl, rfl, rfl⟩ := h; rfl
  · rfl

@[simp] lemma childEntry_put : childEntry (S.put k v) t p c = match k, v with
      | .childEntry t' p' c', v => if t = t' ∧ p = p' ∧ c = c' then some v else S.childEntry t p c
      | _, _ => S.childEntry t p c := by
  cases k <;> simp [childEntry, lookup_put]
  split_ifs with h
  · obtain ⟨rfl, rfl, rfl⟩ := h; rfl
  · rfl

@[simp] lemma graphDescriptor_put : graphDescriptor (S.put k v) t p = match k, v with
      | .graphDescriptor t' p', v => if t = t' ∧ p = p' then some v else S.graphDescriptor t p
      | _, _ => S.graphDescriptor t p := by
  cases k <;> simp [graphDescriptor, lookup_put]
  split_ifs with h
  · obtain ⟨rfl, rfl⟩ := h; rfl
  · rfl

@[simp] lemma graphChunk_put : graphChunk (S.put k v) t p n = match k, v with
      | .graphChunk t' p' n', v => if t = t' ∧ p = p' ∧ n = n' then some v else S.graphChunk t p n
      | _, _ => S.graphChunk t p n := by
  cases k <;> simp [graphChunk, lookup_put]
  split_ifs with h
  · obtain ⟨rfl, rfl, rfl⟩ := h; rfl
  · rfl

@[simp] lemma record_erase :
    record (S.erase k) id = if .record id = k then none else S.record id :=
  S.lookup_erase k _

@[simp] lemma location_erase :
    location (S.erase k) id = if .location id = k then none else S.location id :=
  S.lookup_erase k _

@[simp] lemma payload_erase :
    payload (S.erase k) id = if .payload id = k then none else S.payload id :=
  S.lookup_erase k _

@[simp] lemma treeManifest_erase :
    treeManifest (S.erase k) t = if .treeManifest t = k then none else S.treeManifest t :=
  S.lookup_erase k _

@[simp] lemma header_erase :
    header (S.erase k) t p = if .header t p = k then none else S.header t p :=
  S.lookup_erase k _

@[simp] lemma synopsis_erase :
    synopsis (S.erase k) t p = if .synopsis t p = k then none else S.synopsis t p :=
  S.lookup_erase k _

@[simp] lemma state_erase :
    state (S.erase k) t p = if .state t p = k then none else S.state t p :=
  S.lookup_erase k _

@[simp] lemma centroid_erase :
    centroid (S.erase k) t p = if .centroid t p = k then none else S.centroid t p :=
  S.lookup_erase k _

@[simp] lemma leafEntry_erase :
    leafEntry (S.erase k) t p id = if .leafEntry t p id = k then none else S.leafEntry t p id :=
  S.lookup_erase k _

@[simp] lemma childEntry_erase :
    childEntry (S.erase k) t p c = if .childEntry t p c = k then none else S.childEntry t p c :=
  S.lookup_erase k _

@[simp] lemma graphDescriptor_erase : graphDescriptor (S.erase k) t p =
      if .graphDescriptor t p = k then none else S.graphDescriptor t p :=
  S.lookup_erase k _

@[simp] lemma graphChunk_erase :
    graphChunk (S.erase k) t p n = if .graphChunk t p n = k then none else S.graphChunk t p n :=
  S.lookup_erase k _

@[simp] lemma header_clear :
    header (S.clear range) t p = if range (.header t p) then none else S.header t p :=
  S.lookup_clear range _

@[simp] lemma state_clear :
    state (S.clear range) t p = if range (.state t p) then none else S.state t p :=
  S.lookup_clear range _

end

lemma ext_families {S S' : Store} (record : ∀ id, S.record id = S'.record id)
    (location : ∀ id, S.location id = S'.location id) (payload : ∀ id, S.payload id = S'.payload id)
    (treeManifest : ∀ t, S.treeManifest t = S'.treeManifest t)
    (header : ∀ t p, S.header t p = S'.header t p)
    (synopsis : ∀ t p, S.synopsis t p = S'.synopsis t p) (state : ∀ t p, S.state t p = S'.state t p)
    (centroid : ∀ t p, S.centroid t p = S'.centroid t p)
    (leafEntry : ∀ t p id, S.leafEntry t p id = S'.leafEntry t p id)
    (childEntry : ∀ t p c, S.childEntry t p c = S'.childEntry t p c)
    (graphDescriptor : ∀ t p, S.graphDescriptor t p = S'.graphDescriptor t p)
    (graphChunk : ∀ t p n, S.graphChunk t p n = S'.graphChunk t p n) : S = S' := by
  ext1 k
  cases k with
  | record id => exact record id
  | location id => exact location id
  | payload id => exact payload id
  | treeManifest t => exact treeManifest t
  | header t p => exact header t p
  | synopsis t p => exact synopsis t p
  | state t p => exact state t p
  | centroid t p => exact centroid t p
  | leafEntry t p id => exact leafEntry t p id
  | childEntry t p c => exact childEntry t p c
  | graphDescriptor t p => exact graphDescriptor t p
  | graphChunk t p n => exact graphChunk t p n

/-! ### The entries of one partition -/

/-- The Leaf and Child Entries stored under a partition, in key order: the part
of a partition a reader caches. -/
def body (t : TreeKey) (p : PartitionKey) : List (Sigma ValueOf) := S.scan (bodyRange t p)

/-- How many Leaf and Child Entries a partition stores. -/
def entryCount (t : TreeKey) (p : PartitionKey) : ℕ := S.count (bodyRange t p)

def leafEntries (t : TreeKey) (p : PartitionKey) : List LeafEntry :=
  (S.scan (leafRange t p)).filterMap fun
    | ⟨.leafEntry _ _ _, e⟩ => some e
    | _ => none

def childEntries (t : TreeKey) (p : PartitionKey) : List ChildEntry :=
  (S.scan (childRange t p)).filterMap fun
    | ⟨.childEntry _ _ _, e⟩ => some e
    | _ => none

variable {t : TreeKey} {p : PartitionKey}

lemma mem_childEntries {S : Store} {e : ChildEntry} :
    e ∈ S.childEntries t p ↔ ∃ c, S.childEntry t p c = some e := by
  rw [childEntries, List.mem_filterMap]
  constructor
  · rintro ⟨⟨k, v⟩, hmem, hv⟩
    obtain ⟨hr, hk⟩ := mem_scan.mp hmem
    cases k <;> simp [childRange] at hr hv
    obtain ⟨rfl, rfl⟩ := hr
    exact ⟨_, hv ▸ hk⟩
  · rintro ⟨c, h⟩
    exact ⟨⟨.childEntry t p c, e⟩, mem_scan.mpr ⟨by simp [childRange], h⟩, rfl⟩

lemma body_congr {S S' : Store} (hleaf : ∀ id, S.leafEntry t p id = S'.leafEntry t p id)
    (hchild : ∀ c, S.childEntry t p c = S'.childEntry t p c) : S.body t p = S'.body t p := by
  refine OrderedMap.scan_congr fun k hk => ?_
  cases k <;> simp [bodyRange, leafRange, childRange] at hk
  · obtain ⟨rfl, rfl⟩ := hk
    exact hleaf _
  · obtain ⟨rfl, rfl⟩ := hk
    exact hchild _

lemma entryCount_eq_length_body (t : TreeKey) (p : PartitionKey) :
    S.entryCount t p = (S.body t p).length := rfl

lemma entryCount_eq_zero {S : Store} : S.entryCount t p = 0 ↔
      (∀ id, S.leafEntry t p id = none) ∧ ∀ c, S.childEntry t p c = none := by
  rw [entryCount, OrderedMap.count_eq_zero]
  constructor
  · intro h
    exact ⟨fun id => h (.leafEntry t p id) (by simp [bodyRange, leafRange]),
      fun c => h (.childEntry t p c) (by simp [bodyRange, childRange])⟩
  · rintro ⟨hleaf, hchild⟩ k hk
    cases k <;> simp [bodyRange, leafRange, childRange] at hk
    · obtain ⟨rfl, rfl⟩ := hk
      exact hleaf _
    · obtain ⟨rfl, rfl⟩ := hk
      exact hchild _

lemma entryCount_put (k : LogicalKey) (v : k.ValueOf) (t : TreeKey) (p : PartitionKey) :
    entryCount (S.put k v) t p =
      if bodyRange t p k = true ∧ S.lookup k = none then S.entryCount t p + 1
      else S.entryCount t p := by
  split_ifs with h
  · exact OrderedMap.count_put_new v h.1 h.2
  · by_cases hk : bodyRange t p k = true
    · exact OrderedMap.count_put_old v fun hnone => h ⟨hk, hnone⟩
    · exact OrderedMap.count_put_out v (by simpa using hk)

lemma entryCount_erase (k : LogicalKey) (t : TreeKey) (p : PartitionKey) : S.entryCount t p =
      if bodyRange t p k = true ∧ S.lookup k ≠ none then entryCount (S.erase k) t p + 1
      else entryCount (S.erase k) t p := by
  split_ifs with h
  · exact OrderedMap.count_erase h.1 h.2
  · by_cases hk : bodyRange t p k = true
    · have hnone : S.lookup k = none := by
        by_contra hne
        exact h ⟨hk, hne⟩
      refine OrderedMap.count_congr fun k' _ => ?_
      by_cases he : k' = k
      · subst he
        simp [hnone]
      · rw [lookup_erase_ne S he]
    · exact (OrderedMap.count_erase_out (by simpa using hk)).symm

end Store

export Store (entryCount_eq_zero mem_childEntries)
