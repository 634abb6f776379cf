/-
The read cache of a write transaction.

Point reads of a logical write transaction are served from a transaction-local
cache.  An entry holds what the transaction last read or wrote under a key, and
whether the native read that made it established a conflict; only such an entry
serves a read for update.

The backend transaction is ideal: it reads its snapshot under its own writes, it
guards the keys read for update or inserted, and it may refuse a mutation for any
reason that depends on the mutations before it.  The transaction without the
cache is the same code with no entry ever served.

* `WriteLogicalTxn`, `Call`, `call`, `run` — the transaction and its calls;
* `Consistent` — what an entry says is what the backend transaction would read, and
  a protected entry is guarded there;
* `getRaw_spec`, `batchGetRaw_spec` — reads return what the backend transaction
  holds and guard all they are asked to guard, whatever the cache serves.
-/
import Ktann.Lib.OrderedMap
import Ktann.Storage.KeySpace

namespace ReadCache

open KeySpace (KeyRange)

/-! ### The backend transaction -/

inductive NativeOp
  | mutate (entries : List (Bytes × Option Bytes))
  | insert (key value : Bytes)
  | clearRange (range : KeyRange)

/-- A native write transaction: what it reads, the keys it guards, and the
mutations it has accepted. -/
structure Native where
  view : Bytes → Option Bytes
  reserved : Finset Bytes
  history : List NativeOp

/-- Which mutations a backend refuses, after which. -/
abbrev Refusal := List NativeOp → NativeOp → Option Error

def setView (view : Bytes → Option Bytes) (key : Bytes) (value : Option Bytes) :
    Bytes → Option Bytes :=
  update view key value

def Native.read (raw : Native) (keys : List Bytes) (forUpdate : Bool) :
    List (Option Bytes) × Native :=
  (keys.map raw.view,
    if forUpdate then { raw with reserved := raw.reserved ∪ keys.toFinset } else raw)

def Native.batchMutate (refuse : Refusal) (raw : Native) (entries : List (Bytes × Option Bytes)) :
    Except Error Native :=
  match refuse raw.history (.mutate entries) with
  | some e => .error e
  | none => .ok { raw with
      view := entries.foldl (fun view entry => setView view entry.1 entry.2) raw.view
      history := raw.history ++ [.mutate entries] }

def Native.insert (refuse : Refusal) (raw : Native) (key value : Bytes) :
    Except Error (Bool × Native) :=
  match raw.view key, refuse raw.history (.insert key value) with
  | some _, _ => .ok (false, { raw with reserved := raw.reserved ∪ {key} })
  | none, some e => .error e
  | none, none => .ok (true, ⟨setView raw.view key (some value), raw.reserved ∪ {key},
      raw.history ++ [.insert key value]⟩)

def Native.clearRange (refuse : Refusal) (raw : Native) (range : KeyRange) : Except Error Native :=
  match refuse raw.history (.clearRange range) with
  | some e => .error e
  | none => .ok { raw with
      view := fun key => if range.start ≤ key ∧ key < range.stop then none else raw.view key
      history := raw.history ++ [.clearRange range] }

/-! ### The logical transaction -/

structure Codec (LogicalKey PersistentValue : Type) where
  encodeInputKey : LogicalKey → Except Error Bytes
  encodeForKey : LogicalKey → PersistentValue → Except Error Bytes
  decode : LogicalKey → Bytes → Except Error PersistentValue

/-- The hard limits and the admission budget. -/
structure Limits where
  maxKeyBytes : ℕ
  maxValueBytes : ℕ
  maxMutations : ℕ
  maxMutationBytes : ℕ

structure TransactionSize where
  mutations : ℕ
  bytes : ℕ

def TransactionSize.add (a b : TransactionSize) : TransactionSize :=
  ⟨a.mutations + b.mutations, a.bytes + b.bytes⟩

structure ReadCacheEntry where
  value : Option Bytes
  updateProtected : Bool

structure WriteLogicalTxn where
  raw : Native
  size : TransactionSize
  readCache : OrderedMap Bytes fun _ => ReadCacheEntry

/-- Validated mutations, one for each key, and whether their binding is that of
the transaction. -/
structure MutationBuilder where
  compatible : Bool
  entries : OrderedMap Bytes fun _ => Option Bytes
  size : TransactionSize

def checkHardLimits (limits : Limits) (key : Bytes) (value : Option Bytes) : Except Error Unit :=
  if limits.maxKeyBytes < key.length ∨ limits.maxValueBytes < (value.map List.length).getD 0 then
    .error (.new .limitExceeded)
  else .ok ()

def checkBudget (maxMutations maxMutationBytes : ℕ) (size : TransactionSize) : Except Error Unit :=
  if maxMutations < size.mutations ∨ maxMutationBytes < size.bytes then
    .error (.new .limitExceeded)
  else .ok ()

def mutationBytes (key : Bytes) (value : Option Bytes) : ℕ :=
  key.length + (value.map List.length).getD 0

section
variable {LogicalKey PersistentValue : Type} (useCache : Bool)

def WriteLogicalTxn.served (txn : WriteLogicalTxn) (forUpdate : Bool) (key : Bytes) :
    Option (Option Bytes) :=
  match txn.readCache.lookup key with
  | some entry =>
    if useCache && (entry.updateProtected || !forUpdate) then some entry.value else none
  | none => none

/-- Reads one raw value, serving repeats from the cache. -/
def WriteLogicalTxn.getRaw (txn : WriteLogicalTxn) (key : Bytes) (forUpdate : Bool) :
    Option Bytes × WriteLogicalTxn :=
  match txn.served useCache forUpdate key with
  | some value => (value, txn)
  | none =>
    let value := txn.raw.view key
    (value, { txn with
      raw := (txn.raw.read [key] forUpdate).2
      readCache := txn.readCache.put key ⟨value, forUpdate⟩ })

/-- Drops repeats next to each other. -/
def dedup : List Bytes → List Bytes
  | [] => []
  | [key] => [key]
  | key :: next :: rest => if key = next then dedup (next :: rest) else key :: dedup (next :: rest)

/-- The keys that have to be fetched, each once. -/
def WriteLogicalTxn.missingKeys (txn : WriteLogicalTxn) (keys : List Bytes) (forUpdate : Bool) :
    List Bytes :=
  dedup ((keys.filter fun key => (txn.served useCache forUpdate key).isNone).insertionSort (· ≤ ·))

/-- Reads raw values in input order, fetching only what the cache cannot serve and
merging cached and native values at their input positions. -/
def WriteLogicalTxn.batchGetRaw (txn : WriteLogicalTxn) (keys : List Bytes) (forUpdate : Bool) :
    Except Error (List (Option Bytes)) × WriteLogicalTxn :=
  let missing := txn.missingKeys useCache keys forUpdate
  if missing = [] then
    (.ok (keys.map fun key => (txn.served useCache forUpdate key).getD none), txn)
  else
    let (fetched, raw) := txn.raw.read missing forUpdate
    if fetched.length ≠ missing.length then (.error (.new .backend), { txn with raw := raw })
    else
      (.ok (keys.map fun key => (txn.served useCache forUpdate key).getD
          (((missing.zip fetched).lookup key).getD none)),
        { txn with
          raw := raw
          readCache := (missing.zip fetched).foldl
            (fun cache pair => cache.put pair.1 ⟨pair.2, forUpdate⟩) txn.readCache })

/-- Records the transaction's own write, keeping the protection of an entry. -/
def cacheWrite (cache : OrderedMap Bytes fun _ => ReadCacheEntry) (key : Bytes)
    (value : Option Bytes) : OrderedMap Bytes fun _ => ReadCacheEntry :=
  match cache.lookup key with
  | some entry => cache.put key { entry with value := value }
  | none => cache.put key ⟨value, false⟩

variable (limits : Limits) (refuse : Refusal)

namespace WriteLogicalTxn

/-- Applies a validated builder in canonical key order. -/
def apply (txn : WriteLogicalTxn) (builder : MutationBuilder) :
    Except Error WriteLogicalTxn := do
  if builder.compatible = false then .error .invalidArgument
  else if builder.entries.entries = [] then .ok txn
  else do
    let written := builder.entries.entries.map fun e => (e.1, e.2)
    let _ ← written.mapM fun (key, value) => checkHardLimits limits key value
    checkBudget limits.maxMutations limits.maxMutationBytes (txn.size.add builder.size)
    let raw ← txn.raw.batchMutate refuse written
    .ok ⟨raw, txn.size.add builder.size,
      written.foldl (fun cache entry => cacheWrite cache entry.1 entry.2) txn.readCache⟩

/-- A builder with one mutation, within the remaining budget. -/
def queue (txn : WriteLogicalTxn) (key : Bytes) (value : Option Bytes) :
    Except Error MutationBuilder := do
  checkHardLimits limits key value
  checkBudget (limits.maxMutations - txn.size.mutations) (limits.maxMutationBytes - txn.size.bytes)
    ⟨1, mutationBytes key value⟩
  .ok ⟨true, OrderedMap.empty.put key value, ⟨1, mutationBytes key value⟩⟩

/-- Clears one range and drops the whole cache. -/
def clearRange (limits : Limits) (refuse : Refusal) (txn : WriteLogicalTxn)
    (valid : Bool) (range : KeyRange) : Except Error WriteLogicalTxn := do
  if valid = false then .error .invalidArgument
  else do
    let next := txn.size.add ⟨1, range.start.length + range.stop.length⟩
    checkBudget limits.maxMutations limits.maxMutationBytes next
    let raw ← txn.raw.clearRange refuse range
    .ok ⟨raw, next, .empty⟩

def insertAbsent (txn : WriteLogicalTxn) (key value : Bytes) :
    Except Error (Bool × WriteLogicalTxn) := do
  let next := txn.size.add ⟨1, mutationBytes key (some value)⟩
  checkBudget limits.maxMutations limits.maxMutationBytes next
  let (inserted, raw) ← txn.raw.insert refuse key value
  if inserted then .ok (true, ⟨raw, next, cacheWrite txn.readCache key (some value)⟩)
  else .ok (false, { txn with raw := raw })

end WriteLogicalTxn

/-- The calls of a transaction.  Whether a range belongs to the binding is given
with it. -/
inductive Call (LogicalKey PersistentValue : Type)
  | get (key : LogicalKey)
  | batchGet (keys : List LogicalKey)
  | getForUpdate (key : LogicalKey)
  | batchGetForUpdate (keys : List LogicalKey)
  | warmForUpdate (keys : List LogicalKey)
  | put (key : LogicalKey) (value : PersistentValue)
  | delete (key : LogicalKey)
  | insert (key : LogicalKey) (value : PersistentValue)
  | apply (builder : MutationBuilder)
  | clearRange (valid : Bool) (range : KeyRange)

/-- What a call returns. -/
inductive Output (PersistentValue : Type)
  | done
  | value (value : Option PersistentValue)
  | values (values : List (Option PersistentValue))
  | inserted (inserted : Bool)

variable (codec : Codec LogicalKey PersistentValue)

def decodeValue (key : LogicalKey) (raw : Option Bytes) : Except Error (Option PersistentValue) :=
  match raw with
  | none => .ok none
  | some bytes => (codec.decode key bytes).map some

variable (txn : WriteLogicalTxn)

def readPoint (key : LogicalKey) (forUpdate : Bool) :
    Except Error (Output PersistentValue) × WriteLogicalTxn :=
  match codec.encodeInputKey key with
  | .error e => (.error e, txn)
  | .ok encoded =>
    let (raw, txn) := txn.getRaw useCache encoded forUpdate
    ((decodeValue codec key raw).map .value, txn)

def readBatch (keys : List LogicalKey) (forUpdate : Bool)
    (output : List (Option Bytes) → Except Error (Output PersistentValue)) :
    Except Error (Output PersistentValue) × WriteLogicalTxn :=
  match keys.mapM codec.encodeInputKey with
  | .error e => (.error e, txn)
  | .ok encoded =>
    let (values, txn) := txn.batchGetRaw useCache encoded forUpdate
    (values >>= output, txn)

def decodeBatch (keys : List LogicalKey) (values : List (Option Bytes)) :
    Except Error (Output PersistentValue) :=
  ((keys.zip values).mapM fun (key, value) => decodeValue codec key value).map .values

/-- A mutation that changes nothing when it fails. -/
def settle (result : Except Error WriteLogicalTxn) :
    Except Error (Output PersistentValue) × WriteLogicalTxn :=
  match result with
  | .error e => (.error e, txn)
  | .ok txn => (.ok .done, txn)

def encodeInsert (codec : Codec LogicalKey PersistentValue) (key : LogicalKey)
    (value : PersistentValue) : Except Error (Bytes × Bytes) := do
  let encodedKey ← codec.encodeInputKey key
  let encodedValue ← codec.encodeForKey key value
  checkHardLimits limits encodedKey (some encodedValue)
  .ok (encodedKey, encodedValue)

def callInsert (codec : Codec LogicalKey PersistentValue) (txn : WriteLogicalTxn) (key : LogicalKey)
    (value : PersistentValue) : Except Error (Output PersistentValue) × WriteLogicalTxn :=
  match encodeInsert limits codec key value with
  | .error e => (.error e, txn)
  | .ok (encodedKey, encodedValue) =>
    match txn.getRaw useCache encodedKey true with
    | (some existing, txn) => ((codec.decode key existing).map fun _ => .inserted false, txn)
    | (none, txn) =>
      match txn.insertAbsent limits refuse encodedKey encodedValue with
      | .error e => (.error e, txn)
      | .ok (inserted, txn) => (.ok (.inserted inserted), txn)

def call (codec : Codec LogicalKey PersistentValue) (txn : WriteLogicalTxn) :
    Call LogicalKey PersistentValue → Except Error (Output PersistentValue) × WriteLogicalTxn
  | .get key => readPoint useCache codec txn key false
  | .getForUpdate key => readPoint useCache codec txn key true
  | .batchGet keys => readBatch useCache codec txn keys false (decodeBatch codec keys)
  | .batchGetForUpdate keys => readBatch useCache codec txn keys true (decodeBatch codec keys)
  | .warmForUpdate keys => readBatch useCache codec txn keys true fun _ => .ok .done
  | .put key value => settle txn do
      let encodedKey ← codec.encodeInputKey key
      let encodedValue ← codec.encodeForKey key value
      let builder ← txn.queue limits encodedKey (some encodedValue)
      txn.apply limits refuse builder
  | .delete key => settle txn do
      let encodedKey ← codec.encodeInputKey key
      let builder ← txn.queue limits encodedKey none
      txn.apply limits refuse builder
  | .insert key value => callInsert useCache limits refuse codec txn key value
  | .apply builder => settle txn (txn.apply limits refuse builder)
  | .clearRange valid range => settle txn (txn.clearRange limits refuse valid range)

/-- A sequence of calls: the results, and the transaction at the end. -/
def run (useCache : Bool) (limits : Limits) (refuse : Refusal)
    (codec : Codec LogicalKey PersistentValue) :
    WriteLogicalTxn → List (Call LogicalKey PersistentValue) →
      List (Except Error (Output PersistentValue)) × WriteLogicalTxn
  | txn, [] => ([], txn)
  | txn, c :: calls =>
    let (result, txn) := call useCache limits refuse codec txn c
    let (results, txn) := run useCache limits refuse codec txn calls
    (result :: results, txn)

/-- The keys a call reads for update or inserts, once its inputs are accepted. -/
def Call.protects (codec : Codec LogicalKey PersistentValue) :
    Call LogicalKey PersistentValue → List Bytes
  | .getForUpdate key => (codec.encodeInputKey key).toOption.toList
  | .batchGetForUpdate keys | .warmForUpdate keys =>
    (keys.mapM codec.encodeInputKey).toOption.getD []
  | .insert key value => (encodeInsert limits codec key value).toOption.toList.map Prod.fst
  | _ => []

end

/-! ### What the cache knows -/

/-- Every entry holds what the backend transaction reads, and a protected one a
key that it guards. -/
def Consistent (cache : OrderedMap Bytes fun _ => ReadCacheEntry) (raw : Native) : Prop :=
  ∀ key entry, cache.lookup key = some entry →
    entry.value = raw.view key ∧ (entry.updateProtected = true → key ∈ raw.reserved)

lemma Consistent.put {cache : OrderedMap Bytes fun _ => ReadCacheEntry} {raw : Native}
    (h : Consistent cache raw) {key : Bytes} {forUpdate : Bool}
    (hkey : forUpdate = true → key ∈ raw.reserved) :
    Consistent (cache.put key ⟨raw.view key, forUpdate⟩) raw := by
  intro key' entry hlookup
  by_cases hk : key' = key
  · subst hk
    rw [lookup_put_self] at hlookup
    cases hlookup
    exact ⟨rfl, hkey⟩
  · rw [lookup_put_ne _ _ hk] at hlookup
    exact h key' entry hlookup

lemma Consistent.cacheWrite {cache : OrderedMap Bytes fun _ => ReadCacheEntry} {raw : Native}
    (h : Consistent cache raw) (key : Bytes) (value : Option Bytes) :
    Consistent (cacheWrite cache key value) { raw with view := setView raw.view key value } := by
  have hput (isProtected : Bool) (hkey : isProtected = true → key ∈ raw.reserved) :
      Consistent (cache.put key ⟨value, isProtected⟩)
        { raw with view := setView raw.view key value } := by
    intro key' entry hlookup
    by_cases hk : key' = key
    · subst hk
      rw [lookup_put_self] at hlookup
      cases hlookup
      exact ⟨(update_self key' value raw.view).symm, hkey⟩
    · rw [lookup_put_ne _ _ hk] at hlookup
      obtain ⟨hvalue, hprotected⟩ := h key' entry hlookup
      refine ⟨?_, hprotected⟩
      rw [hvalue]
      exact (update_of_ne hk value raw.view).symm
  rw [ReadCache.cacheWrite]
  cases hlookup : cache.lookup key with
  | some entry => exact hput entry.updateProtected (h key entry hlookup).2
  | none => exact hput false (fun hfalse => by cases hfalse)

variable {raw : Native} {keys : List Bytes} {forUpdate : Bool} {txn : WriteLogicalTxn} {key : Bytes}
  {cache : OrderedMap Bytes fun _ => ReadCacheEntry}

lemma Consistent.cacheWrites (h : Consistent cache raw) (entries : List (Bytes × Option Bytes)) :
    Consistent (entries.foldl (fun cache entry => ReadCache.cacheWrite cache entry.1 entry.2) cache)
      { raw with
        view := entries.foldl (fun view entry => setView view entry.1 entry.2) raw.view } := by
  induction entries generalizing cache raw with
  | nil => exact h
  | cons entry _ ih => exact ih (h.cacheWrite entry.1 entry.2)

lemma Consistent.read {cache : OrderedMap Bytes fun _ => ReadCacheEntry}
    (h : Consistent cache raw) (keys : List Bytes) (forUpdate : Bool) :
    Consistent cache (raw.read keys forUpdate).2 := by
  intro key entry hlookup
  obtain ⟨hvalue, hprotected⟩ := h key entry hlookup
  cases forUpdate with
  | false => exact ⟨hvalue, hprotected⟩
  | true => exact ⟨hvalue, fun hp => Finset.mem_union_left _ (hprotected hp)⟩

lemma view_read (raw : Native) (keys : List Bytes) (forUpdate : Bool) :
    (raw.read keys forUpdate).2.view = raw.view := by
  cases forUpdate <;> rfl

lemma read_eq_self (h : forUpdate = true → ∀ key ∈ keys, key ∈ raw.reserved) :
    (raw.read keys forUpdate).2 = raw := by
  cases forUpdate with
  | false => rfl
  | true =>
    have hsubset : keys.toFinset ⊆ raw.reserved := fun key hkey =>
      h rfl key (List.mem_toFinset.mp hkey)
    have hunion : raw.reserved ∪ keys.toFinset = raw.reserved := Finset.union_eq_left.mpr hsubset
    change { raw with reserved := raw.reserved ∪ keys.toFinset } = raw
    rw [hunion]

/-- The keys that are not fetched are guarded already. -/
lemma read_eq_of_subset {missing : List Bytes} (hsubset : ∀ key ∈ missing, key ∈ keys)
    (h : forUpdate = true → ∀ key ∈ keys, key ∈ missing ∨ key ∈ raw.reserved) :
    (raw.read missing forUpdate).2 = (raw.read keys forUpdate).2 := by
  cases forUpdate with
  | false => rfl
  | true =>
    have hunion : raw.reserved ∪ missing.toFinset = raw.reserved ∪ keys.toFinset := by
      ext key
      simp only [Finset.mem_union, List.mem_toFinset]
      constructor
      · exact Or.imp_right (hsubset key)
      · rintro (hkey | hkey)
        · exact .inl hkey
        · exact (h rfl key hkey).symm
    change { raw with reserved := raw.reserved ∪ missing.toFinset } = { raw with reserved := _ }
    rw [hunion]

lemma served_spec (h : Consistent txn.readCache txn.raw) {useCache : Bool} {value : Option Bytes}
    (hserved : txn.served useCache forUpdate key = some value) :
    value = txn.raw.view key ∧ (forUpdate = true → key ∈ txn.raw.reserved) := by
  rw [WriteLogicalTxn.served] at hserved
  cases hlookup : txn.readCache.lookup key with
  | none =>
    rw [hlookup] at hserved
    cases hserved
  | some entry =>
    rw [hlookup] at hserved
    dsimp only at hserved
    split_ifs at hserved with hcond
    cases hserved
    obtain ⟨hvalue, hprotected⟩ := h key entry hlookup
    refine ⟨hvalue, fun hforUpdate => hprotected ?_⟩
    subst hforUpdate
    rw [and_eq_true, Bool.not_true, Bool.or_false] at hcond
    exact hcond.2

/-! ### Reads -/

structure ReadStep (txn txn' : WriteLogicalTxn) (keys : List Bytes) (forUpdate : Bool) : Prop where
  raw : txn'.raw = (txn.raw.read keys forUpdate).2
  size : txn'.size = txn.size
  consistent : Consistent txn'.readCache txn'.raw

lemma getRaw_spec (h : Consistent txn.readCache txn.raw) (useCache : Bool) (key : Bytes)
    (forUpdate : Bool) : (txn.getRaw useCache key forUpdate).1 = txn.raw.view key ∧
      ReadStep txn (txn.getRaw useCache key forUpdate).2 [key] forUpdate := by
  rw [WriteLogicalTxn.getRaw]
  cases hserved : txn.served useCache forUpdate key with
  | some =>
    obtain ⟨hvalue, hguarded⟩ := served_spec h hserved
    have hraw : (txn.raw.read [key] forUpdate).2 = txn.raw :=
      read_eq_self fun hu key' hkey' => mem_singleton.mp hkey' ▸ hguarded hu
    exact ⟨hvalue, hraw.symm, rfl, h⟩
  | none =>
    refine ⟨rfl, rfl, rfl, ?_⟩
    have hput := @Consistent.put _ _ (h.read [key] forUpdate) key forUpdate (by
      rintro rfl
      exact Finset.mem_union_right _ (List.mem_toFinset.mpr mem_cons_self))
    rwa [view_read] at hput

lemma mem_dedup : ∀ {keys : List Bytes}, key ∈ dedup keys ↔ key ∈ keys := by
  intro keys
  fun_induction dedup keys with
  | case1 | case2 => exact Iff.rfl
  | case3 _ _ ih =>
    rw [ih, mem_cons, mem_cons, mem_cons]
    tauto
  | case4 _ _ _ hne ih => rw [mem_cons, ih, ← mem_cons]

lemma mem_missingKeys {useCache : Bool} : key ∈ txn.missingKeys useCache keys forUpdate ↔
      key ∈ keys ∧ txn.served useCache forUpdate key = none := by
  rw [WriteLogicalTxn.missingKeys, mem_dedup, List.mem_insertionSort, mem_filter,
    Option.isNone_iff_eq_none]

lemma lookup_zip_map {f : Bytes → Option Bytes} (h : key ∈ keys) :
    (keys.zip (keys.map f)).lookup key = some (f key) := by
  induction keys with
  | nil => cases h
  | cons k _ ih =>
    rw [map_cons, zip_cons_cons, List.lookup_cons]
    by_cases hk : key = k
    · subst hk
      rw [beq_self_eq_true]
    · rw [beq_eq_false_iff_ne.mpr hk]
      exact ih ((mem_cons.mp h).resolve_left hk)

lemma Consistent.putAll {raw : Native} (h : Consistent cache raw) {forUpdate : Bool}
    (keys : List Bytes) (hkeys : forUpdate = true → ∀ key ∈ keys, key ∈ raw.reserved) :
    Consistent ((keys.zip (keys.map raw.view)).foldl
      (fun cache pair => cache.put pair.1 ⟨pair.2, forUpdate⟩) cache) raw := by
  induction keys generalizing cache with
  | nil => exact h
  | cons key _ ih =>
    rw [map_cons, zip_cons_cons, foldl_cons]
    exact ih (h.put fun hu => hkeys hu key mem_cons_self)
      fun hu key' hkey' => hkeys hu key' (mem_cons_of_mem _ hkey')

lemma batchGetRaw_spec (h : Consistent txn.readCache txn.raw) (useCache : Bool)
    (keys : List Bytes) (forUpdate : Bool) :
    (txn.batchGetRaw useCache keys forUpdate).1 = .ok (keys.map txn.raw.view) ∧
      ReadStep txn (txn.batchGetRaw useCache keys forUpdate).2 keys forUpdate := by
  have hmissing : ∀ key ∈ txn.missingKeys useCache keys forUpdate, key ∈ keys :=
    fun key hkey => (mem_missingKeys.mp hkey).1
  have hguarded : forUpdate = true → ∀ key ∈ keys,
      key ∈ txn.missingKeys useCache keys forUpdate ∨ key ∈ txn.raw.reserved := by
    intro hu key hkey
    cases hserved : txn.served useCache forUpdate key with
    | none => exact .inl (mem_missingKeys.mpr ⟨hkey, hserved⟩)
    | some value => exact .inr ((served_spec h hserved).2 hu)
  rw [WriteLogicalTxn.batchGetRaw]
  dsimp only
  split_ifs with hempty hlen
  · -- everything is served
    have hall : ∀ key ∈ keys, txn.served useCache forUpdate key ≠ none := by
      intro key hkey hnone
      have hmem := mem_missingKeys.mpr ⟨hkey, hnone⟩
      rw [hempty] at hmem
      cases hmem
    refine ⟨?_, ?_, rfl, h⟩
    · refine congrArg Except.ok (List.map_congr_left fun key hkey => ?_)
      obtain ⟨_, hvalue⟩ := ne_none_iff_exists'.mp (hall key hkey)
      rw [hvalue]
      exact (served_spec h hvalue).1
    · refine (read_eq_self fun hu key hkey => ?_).symm
      refine (hguarded hu key hkey).resolve_left fun hmem => ?_
      rw [hempty] at hmem
      cases hmem
  · exact absurd (length_map _) hlen
  · have hraw := read_eq_of_subset hmissing hguarded
    refine ⟨?_, hraw, rfl, ?_⟩
    · refine congrArg Except.ok (List.map_congr_left fun key hkey => ?_)
      cases hserved : txn.served useCache forUpdate key with
      | some => exact (served_spec h hserved).1
      | none =>
        have hmem := mem_missingKeys.mpr ⟨hkey, hserved⟩
        change ((List.zip _ (List.map txn.raw.view _)).lookup key).getD none = _
        rw [lookup_zip_map hmem]
        rfl
    · have hput := @Consistent.putAll _ _
        (h.read (txn.missingKeys useCache keys forUpdate) forUpdate) forUpdate
        (txn.missingKeys useCache keys forUpdate) (fun hu key hkey => by
          subst hu
          exact Finset.mem_union_right _ (List.mem_toFinset.mpr hkey))
      rwa [view_read] at hput

end ReadCache
