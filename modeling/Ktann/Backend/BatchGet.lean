/-
Batches of FoundationDB point reads.

In snapshot mode two keys that differ by one in their last byte are read with one
range request.  Extensions of the first key can lie between them, so the page may
end before the second key; a missing key of an incomplete page is read on its own.

* `readSnapshotPair_spec` — a pair read returns both values;
* `batchGet_eq_gets` — **a batch returns what its point reads return**, and reads for
  update make no range request.
-/
import Ktann.Backend.Namespaces

open KeySpace (KeyRange)
open Memory (entriesIn contains)

namespace FoundationDb

inductive ReadMode
  | snapshot
  | forUpdate

def maxConcurrentReads : ℕ := 1024

/-- Equal but for the last byte, which is one more in the second key. -/
def consecutiveKeys (first second : Bytes) : Bool :=
  match first.getLast?, second.getLast? with
  | some left, some right => second.length < AdapterKind.foundationDb.maxPhysicalKeyBytes &&
      left.val + 1 = right.val && first.dropLast = second.dropLast
  | _, _ => false

section
variable (db : Memory.Store)
  (getRange : KeyRange → Except Error (List (Bytes × Bytes) × Bool))

/-- Both values from one page, or from point reads when the page is incomplete. -/
def readSnapshotPair (first second : Bytes) : Except Error (Option Bytes × Option Bytes) := do
  let (rows, more) ← getRange ⟨first, second ++ [0]⟩
  let values := rows.foldl (fun values row =>
    if row.1 = first then (some row.2, values.2)
    else if row.1 = second then (values.1, some row.2) else values) (none, none)
  .ok (if more then (values.1.or (db.lookup first), values.2.or (db.lookup second)) else values)

/-- Reads keys in order, two at a time where they are consecutive. -/
def readPairs : List Bytes → Except Error (List (Option Bytes))
  | [] => .ok []
  | [key] => .ok [db.lookup key]
  | first :: second :: rest =>
    if consecutiveKeys first second then do
      let (a, b) ← readSnapshotPair db getRange first second
      let values ← readPairs rest
      .ok (a :: b :: values)
    else do
      let values ← readPairs (second :: rest)
      .ok (db.lookup first :: values)

def readChunk (mode : ReadMode) (keys : List Bytes) : Except Error (List (Option Bytes)) :=
  match mode with
  | .forUpdate => .ok (keys.map db.lookup)
  | .snapshot =>
    if (keys.zip keys.tail).any fun pair => consecutiveKeys pair.1 pair.2 then
      readPairs db getRange keys
    else .ok (keys.map db.lookup)

def batchGet (p : PhysicalPrefix) (mode : ReadMode) (keys : List Bytes) :
    Except Error (List (Option Bytes)) :=
  if keys = [] then .ok []
  else do
    let chunk ← (keys.take maxConcurrentReads).mapM p.encodeKey
    let values ← readChunk db getRange mode chunk
    let rest ← batchGet p mode (keys.drop maxConcurrentReads)
    .ok (values ++ rest)
termination_by keys.length
decreasing_by
  have := List.length_pos_iff.mpr ‹keys ≠ []›
  simp only [length_drop, maxConcurrentReads]
  omega

/-- What a range read promises: at most the first two rows, and word of any others. -/
def ReadsRanges : Prop :=
  ∀ range, ∃ n ≤ 2, ∃ more, getRange range = .ok ((entriesIn db range).take n, more) ∧
    (more = false → (entriesIn db range).take n = entriesIn db range)

end

variable {db : Memory.Store}
  {getRange : KeyRange → Except Error (List (Bytes × Bytes) × Bool)} {first second : Bytes}

lemma lt_of_consecutiveKeys (h : consecutiveKeys first second = true) : first < second := by
  rw [consecutiveKeys] at h
  split at h
  · rename_i left right hleft hright
    obtain ⟨_, rfl⟩ := List.getLast?_eq_some_iff.mp hleft
    obtain ⟨_, rfl⟩ := List.getLast?_eq_some_iff.mp hright
    simp only [and_eq_true, decide_eq_true_eq, List.dropLast_concat] at h
    rw [h.2, append_lt_append_iff]
    exact cons_lt_cons_iff.mpr (.inl (Fin.lt_def.mpr (by omega)))
  · cases h

/-- Rows of the store fill the slots of the keys among them. -/
lemma foldl_slots {rows : List (Bytes × Bytes)} (hne : first ≠ second)
    (hrows : ∀ row ∈ rows, db.lookup row.1 = some row.2) : ∀ {values : Option Bytes × Option Bytes},
    rows.foldl (fun values row => if row.1 = first then (some row.2, values.2)
      else if row.1 = second then (values.1, some row.2) else values) values =
        (if first ∈ rows.map Prod.fst then db.lookup first else values.1,
          if second ∈ rows.map Prod.fst then db.lookup second else values.2) := by
  induction rows with
  | nil => simp
  | cons row _ ih =>
    intro _
    obtain ⟨hrow, hrest⟩ := forall_mem_cons.mp hrows
    rw [foldl_cons, ih hrest]
    by_cases h₁ : row.1 = first
    · subst h₁
      simp only [map_cons, mem_cons, true_or, if_true, hne.symm, false_or, hrow, ite_self]
    · by_cases h₂ : row.1 = second
      · subst h₂
        simp only [map_cons, mem_cons, true_or, if_true, hne, hne.symm, if_false, false_or, hrow,
          ite_self]
      · simp only [map_cons, mem_cons, h₁, h₂, Ne.symm h₁, Ne.symm h₂, if_false, false_or]

/-- A pair read returns what two point reads return. -/
lemma readSnapshotPair_spec (hread : ReadsRanges db getRange) (h : first < second) :
    readSnapshotPair db getRange first second = .ok (db.lookup first, db.lookup second) := by
  obtain ⟨n, -, more, hpage, hall⟩ := hread ⟨first, second ++ [0]⟩
  have hsub := List.take_subset n (entriesIn db ⟨first, second ++ [0]⟩)
  have hrows : ∀ row ∈ (entriesIn db ⟨first, second ++ [0]⟩).take n,
      db.lookup row.1 = some row.2 := fun row hrow =>
        (PhysicalPrefix.mem_entriesIn_iff.mp (hsub hrow)).2
  -- a key of the range that a complete page does not hold is not in the store
  have hslot (key : Bytes) (hlow : first ≤ key) (hhigh : key ≤ second) (hmore : more = false) :
      (if key ∈ ((entriesIn db ⟨first, second ++ [0]⟩).take n).map Prod.fst then db.lookup key
        else none) = db.lookup key := by
    split_ifs with hkey
    · rfl
    rw [hall hmore] at hkey
    refine (Option.eq_none_iff_forall_ne_some.mpr fun v hv => hkey ?_).symm
    have hin : contains ⟨first, second ++ [0]⟩ key = true := by
      simpa [contains] using ⟨hlow, hhigh.trans_lt (lt_append_zero second)⟩
    exact mem_map.mpr ⟨(key, v), PhysicalPrefix.mem_entriesIn_iff.mpr ⟨hin, hv⟩, rfl⟩
  refine bind_eq_ok.mpr ⟨_, hpage, ?_⟩
  simp only [foldl_slots h.ne hrows]
  cases more with
  | true =>
    rw [if_pos rfl]
    split_ifs <;> simp
  | false => rw [if_neg Bool.false_ne_true, hslot first le_rfl h.le rfl,
    hslot second h.le le_rfl rfl]

lemma readPairs_eq (hread : ReadsRanges db getRange) (keys : List Bytes) :
    readPairs db getRange keys = .ok (keys.map db.lookup) := by
  fun_induction readPairs db getRange keys with
  | case1 | case2 => rfl
  | case3 _ _ _ hpair ih =>
    have hboth := readSnapshotPair_spec hread (lt_of_consecutiveKeys hpair)
    exact bind_eq_ok.mpr ⟨_, hboth, bind_eq_ok.mpr ⟨_, ih, rfl⟩⟩
  | case4 _ _ _ hpair ih => exact bind_eq_ok.mpr ⟨_, ih, rfl⟩

lemma mapM_get (p : PhysicalPrefix) (keys : List Bytes) : keys.mapM (p.get db) =
    keys.mapM p.encodeKey >>= fun chunk => .ok (chunk.map db.lookup) := by
  induction keys with
  | nil => rfl
  | cons key keys ih =>
    rw [mapM_cons, mapM_cons, ih, PhysicalPrefix.get]
    cases p.encodeKey key with
    | error e => rfl
    | ok => cases keys.mapM p.encodeKey <;> rfl

/-- **Coalesced reads equal point reads**, key by key; and a batch read for update makes
no range request, so that it needs no promise of them. -/
theorem batchGet_eq_gets (p : PhysicalPrefix) (keys : List Bytes) (mode : ReadMode)
    (hread : mode = .snapshot → ReadsRanges db getRange) :
    batchGet db getRange p mode keys = keys.mapM (p.get db) := by
  fun_induction batchGet db getRange p mode keys with
  | case1 => rfl
  | case2 keys hne ih =>
    have hchunk (chunk : List Bytes) :
        readChunk db getRange mode chunk = .ok (chunk.map db.lookup) := by
      cases mode with
      | forUpdate => rfl
      | snapshot =>
        rw [readChunk]
        split_ifs
        · exact readPairs_eq (hread rfl) chunk
        · rfl
    conv_rhs => rw [← take_append_drop maxConcurrentReads keys, List.mapM_append, mapM_get, ← ih]
    simp only [hchunk]
    cases (keys.take maxConcurrentReads).mapM p.encodeKey with
    | error e => rfl
    | ok => rfl

/-- Two keys with an extension of the first between them, and pages of one row. -/
theorem batchGet_eq_gets_extension :
    let p : PhysicalPrefix := ⟨.foundationDb, ⟨[], by decide⟩⟩
    let db := ((OrderedMap.empty.put (p.bytes ++ [5]) [1]).put (p.bytes ++ [5, 0]) [2] :
      Memory.Store).put (p.bytes ++ [6]) [3]
    batchGet db (fun range => .ok ((entriesIn db range).take 1, true)) p .snapshot
      [[5], [6], [5]] = .ok [some [1], some [3], some [1]] :=
  (batchGet_eq_gets _ _ _ fun _ _ => ⟨1, by decide, true, rfl, nofun⟩).trans rfl

end FoundationDb
