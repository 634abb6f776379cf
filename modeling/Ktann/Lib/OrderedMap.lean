/-
Finite maps with ordered keys and dependently typed values.

`OrderedMap K V` is a list of key/value pairs in strictly increasing key
order; the order is a field of the structure, so two maps with the same
lookups are equal and a scan of a key range lists its entries in key order.

* `lookup_put`, `lookup_erase`, `lookup_clear` — what an update does to every
  key, the written one and the others;
* `mem_scan` — a scan of a range lists exactly the stored keys of that range;
* `scan_congr` — a scan depends on the map only through the range it reads;
* `count_put_new`, `count_put_old`, `count_erase` — how many keys of a range
  are stored after an update.
-/
import Mathlib

open List (dlookup_cons_ne mem_cons pairwise_cons sum_cons map_cons)

/-- A finite map, kept as its entries in strictly increasing key order. -/
structure OrderedMap (K : Type) [LinearOrder K] (V : K → Type) where
  entries : List (Sigma V)
  sorted : entries.Pairwise (fun a b => a.1 < b.1)

namespace OrderedMap

variable {K : Type} [LinearOrder K] {V : K → Type}

lemma nodupKeys (m : OrderedMap K V) : m.entries.NodupKeys :=
  List.nodupKeys_iff_pairwise.mpr (m.sorted.imp ne_of_lt)

def empty : OrderedMap K V := ⟨[], List.Pairwise.nil⟩

/-- The value stored under `k`. -/
def lookup (m : OrderedMap K V) (k : K) : Option (V k) := m.entries.dlookup k

variable {m m' : OrderedMap K V} {k k' : K} {range : K → Bool} {v : V k}

lemma mem_entries : ⟨k, v⟩ ∈ m.entries ↔ m.lookup k = some v :=
  (List.mem_dlookup_iff m.nodupKeys).symm.trans Option.mem_def

@[simp] lemma lookup_empty (k : K) : (empty : OrderedMap K V).lookup k = none := rfl

/-! ### Writing one key -/

/-- Insertion into a key-ordered entry list, replacing an entry of the same
key. -/
def insertEntry (k : K) (v : V k) : List (Sigma V) → List (Sigma V)
  | [] => [⟨k, v⟩]
  | e :: rest =>
    if k < e.1 then ⟨k, v⟩ :: e :: rest
    else if k = e.1 then ⟨k, v⟩ :: rest
    else e :: insertEntry k v rest

lemma mem_insertEntry {a : Sigma V} {l : List (Sigma V)} (h : a ∈ insertEntry k v l) :
    a = ⟨k, v⟩ ∨ a ∈ l := by
  induction l with
  | nil => simpa [insertEntry] using h
  | cons e _ ih =>
    rw [insertEntry] at h
    split_ifs at h with h1 h2
    · simpa using h
    · rcases mem_cons.mp h with h | h
      · exact Or.inl h
      · exact Or.inr (List.mem_cons_of_mem e h)
    · rcases mem_cons.mp h with h | h
      · exact Or.inr (h ▸ List.mem_cons_self)
      · exact (ih h).imp_right (List.mem_cons_of_mem e)

lemma insertEntry_sorted (k : K) (v : V k) {l : List (Sigma V)}
    (h : l.Pairwise (fun a b => a.1 < b.1)) :
    (insertEntry k v l).Pairwise (fun a b => a.1 < b.1) := by
  induction l with
  | nil => simp [insertEntry]
  | cons e _ ih =>
    obtain ⟨hrest, hpair⟩ := pairwise_cons.mp h
    rw [insertEntry]
    split_ifs with h1 h2
    · refine pairwise_cons.mpr ⟨fun a ha => ?_, h⟩
      rcases mem_cons.mp ha with rfl | ha
      · exact h1
      · exact h1.trans (hrest a ha)
    · exact pairwise_cons.mpr ⟨fun a ha => h2 ▸ hrest a ha, hpair⟩
    · refine pairwise_cons.mpr ⟨fun a ha => ?_, ih hpair⟩
      rcases mem_insertEntry ha with rfl | ha
      · exact lt_of_le_of_ne (not_lt.mp h1) (Ne.symm h2)
      · exact hrest a ha

lemma dlookup_insertEntry_self (k : K) (v : V k) (l : List (Sigma V)) :
    (insertEntry k v l).dlookup k = some v := by
  induction l with
  | nil => simp [insertEntry]
  | cons e _ ih =>
    rw [insertEntry]
    split_ifs with h1 h2
    · simp
    · simp
    · rw [dlookup_cons_ne _ _ h2, ih]

lemma dlookup_insertEntry_ne (v : V k) (h : k' ≠ k) (l : List (Sigma V)) :
    (insertEntry k v l).dlookup k' = l.dlookup k' := by
  induction l with
  | nil => rw [insertEntry, dlookup_cons_ne _ ⟨k, v⟩ h]
  | cons e _ ih =>
    rw [insertEntry]
    split_ifs with h1 h2
    · rw [dlookup_cons_ne _ ⟨k, v⟩ h]
    · rw [dlookup_cons_ne _ ⟨k, v⟩ h, dlookup_cons_ne _ e (h2 ▸ h)]
    · by_cases he : k' = e.1
      · obtain ⟨_, _⟩ := e
        subst he
        simp
      · rw [dlookup_cons_ne _ e he, dlookup_cons_ne _ e he, ih]

/-- Store `v` under `k`. -/
def put (m : OrderedMap K V) (k : K) (v : V k) : OrderedMap K V :=
  ⟨insertEntry k v m.entries, insertEntry_sorted k v m.sorted⟩

@[simp] lemma lookup_put_self (m : OrderedMap K V) (k : K) (v : V k) :
    (m.put k v).lookup k = some v :=
  dlookup_insertEntry_self k v m.entries

lemma lookup_put_ne (m : OrderedMap K V) (v : V k) (h : k' ≠ k) :
    (m.put k v).lookup k' = m.lookup k' :=
  dlookup_insertEntry_ne v h m.entries

lemma lookup_put (m : OrderedMap K V) (k k' : K) (v : V k) :
    (m.put k v).lookup k' = if h : k' = k then some (h ▸ v) else m.lookup k' := by
  split_ifs with h
  · subst h
    exact lookup_put_self m k' v
  · exact lookup_put_ne m v h

/-! ### Removing keys -/

/-- Remove every key of a range. -/
def clear (m : OrderedMap K V) (range : K → Bool) : OrderedMap K V :=
  ⟨m.entries.filter (fun e => !range e.1), m.sorted.filter _⟩

lemma lookup_clear (m : OrderedMap K V) (range : K → Bool) (k : K) :
    (m.clear range).lookup k = if range k then none else m.lookup k := by
  apply Option.ext
  intro v
  rw [← mem_entries]
  change ⟨k, v⟩ ∈ m.entries.filter (fun e => !range e.1) ↔ _
  rw [List.mem_filter, mem_entries]
  cases range k <;> simp

/-- Remove one key. -/
def erase (m : OrderedMap K V) (k : K) : OrderedMap K V := m.clear (fun k' => k' = k)

lemma lookup_erase (m : OrderedMap K V) (k k' : K) :
    (m.erase k).lookup k' = if k' = k then none else m.lookup k' := by
  rw [erase, lookup_clear]
  simp

@[simp] lemma lookup_erase_self (m : OrderedMap K V) (k : K) : (m.erase k).lookup k = none := by
  rw [lookup_erase, if_pos rfl]

lemma lookup_erase_ne (m : OrderedMap K V) (h : k' ≠ k) :
    (m.erase k).lookup k' = m.lookup k' := by
  rw [lookup_erase, if_neg h]

/-! ### Scanning a range -/

/-- The entries of a key range, in key order. -/
def scan (m : OrderedMap K V) (range : K → Bool) : List (Sigma V) :=
  m.entries.filter (fun e => range e.1)

lemma mem_scan : ⟨k, v⟩ ∈ m.scan range ↔ range k = true ∧ m.lookup k = some v := by
  rw [scan, List.mem_filter, mem_entries, and_comm]

lemma scan_sorted (m : OrderedMap K V) (range : K → Bool) :
    (m.scan range).Pairwise (fun a b => a.1 < b.1) :=
  m.sorted.filter _

lemma scan_nodup (m : OrderedMap K V) (range : K → Bool) : (m.scan range).Nodup :=
  (m.scan_sorted range).imp (fun hlt heq => absurd (heq ▸ hlt) (lt_irrefl _))

/-- A scan depends on the map only through the range it reads. -/
lemma scan_congr (h : ∀ k, range k = true → m.lookup k = m'.lookup k) :
    m.scan range = m'.scan range := by
  have hperm : (m.scan range).Perm (m'.scan range) := by
    refine (List.perm_ext_iff_of_nodup (m.scan_nodup range) (m'.scan_nodup range)).mpr ?_
    rintro ⟨k, v⟩
    rw [mem_scan, mem_scan]
    exact and_congr_right fun hk => by rw [h k hk]
  refine hperm.eq_of_pairwise ?_ (m.scan_sorted range) (m'.scan_sorted range)
  intro a b _ _ hab hba
  exact absurd (hab.trans hba) (lt_irrefl _)

@[ext] lemma ext (h : ∀ k, m.lookup k = m'.lookup k) : m = m' := by
  have hscan : m.scan (fun _ => true) = m'.scan (fun _ => true) := scan_congr fun k _ => h k
  cases m
  cases m'
  simpa [scan] using hscan

/-! ### Writes that commute, repeat or do nothing -/

lemma put_comm (m : OrderedMap K V) (v : V k) (v' : V k') (h : k ≠ k') :
    (m.put k v).put k' v' = (m.put k' v').put k v := by
  ext1 j
  by_cases hk : j = k
  · subst hk
    rw [lookup_put_ne _ _ h, lookup_put_self, lookup_put_self]
  · by_cases hk' : j = k'
    · subst hk'
      rw [lookup_put_self, lookup_put_ne _ _ hk, lookup_put_self]
    · rw [lookup_put_ne _ _ hk', lookup_put_ne _ _ hk, lookup_put_ne _ _ hk, lookup_put_ne _ _ hk']

@[simp] lemma put_put (m : OrderedMap K V) (k : K) (v v' : V k) :
    (m.put k v).put k v' = m.put k v' := by
  ext1 j
  by_cases hk : j = k
  · subst hk
    rw [lookup_put_self, lookup_put_self]
  · rw [lookup_put_ne _ _ hk, lookup_put_ne _ _ hk, lookup_put_ne _ _ hk]

lemma put_eq_self (h : m.lookup k = some v) : m.put k v = m := by
  ext1 j
  by_cases hk : j = k
  · subst hk
    rw [lookup_put_self, h]
  · rw [lookup_put_ne _ _ hk]

lemma erase_eq_self (h : m.lookup k = none) : m.erase k = m := by
  ext1 j
  by_cases hk : j = k
  · subst hk
    rw [lookup_erase_self, h]
  · rw [lookup_erase_ne _ hk]

/-! ### Counting a range -/

/-- How many keys of a range are stored. -/
def count (m : OrderedMap K V) (range : K → Bool) : ℕ := (m.scan range).length

lemma count_congr (h : ∀ k, range k = true → m.lookup k = m'.lookup k) :
    m.count range = m'.count range := by
  rw [count, count, scan_congr h]

lemma count_eq_zero : m.count range = 0 ↔ ∀ k, range k = true → m.lookup k = none := by
  rw [count, List.length_eq_zero_iff, List.eq_nil_iff_forall_not_mem]
  constructor
  · intro h k hk
    by_contra hne
    obtain ⟨v, hv⟩ := Option.ne_none_iff_exists'.mp hne
    exact h ⟨k, v⟩ (mem_scan.mpr ⟨hk, hv⟩)
  · rintro h ⟨k, v⟩ hmem
    obtain ⟨hk, hv⟩ := mem_scan.mp hmem
    rw [h k hk] at hv
    cases hv

/-- The keys a scan reads, without their values. -/
def keysIn (m : OrderedMap K V) (range : K → Bool) : List K := (m.scan range).map Sigma.fst

lemma length_keysIn (m : OrderedMap K V) (range : K → Bool) :
    (m.keysIn range).length = m.count range := List.length_map _

lemma mem_keysIn : k ∈ m.keysIn range ↔ range k = true ∧ m.lookup k ≠ none := by
  rw [keysIn, List.mem_map]
  constructor
  · rintro ⟨⟨_, v⟩, hmem, rfl⟩
    obtain ⟨hr, hv⟩ := mem_scan.mp hmem
    exact ⟨hr, by simp [hv]⟩
  · rintro ⟨hr, hne⟩
    obtain ⟨v, hv⟩ := Option.ne_none_iff_exists'.mp hne
    exact ⟨⟨k, v⟩, mem_scan.mpr ⟨hr, hv⟩, rfl⟩

lemma keysIn_nodup (m : OrderedMap K V) (range : K → Bool) : (m.keysIn range).Nodup := by
  rw [keysIn, List.nodup_iff_pairwise_ne, List.pairwise_map]
  exact (m.scan_sorted range).imp ne_of_lt

/-- Two maps that store the same keys of a range have the same count there. -/
lemma count_eq_of_keys (h : ∀ k, range k = true → (m.lookup k ≠ none ↔ m'.lookup k ≠ none)) :
    m.count range = m'.count range := by
  rw [← length_keysIn, ← length_keysIn]
  refine ((List.perm_ext_iff_of_nodup (m.keysIn_nodup range) (m'.keysIn_nodup range)).mpr
    ?_).length_eq
  intro k
  rw [mem_keysIn, mem_keysIn]
  exact and_congr_right fun hk => h k hk

lemma count_put_new (v : V k) (hk : range k = true) (hnew : m.lookup k = none) :
    (m.put k v).count range = m.count range + 1 := by
  rw [← length_keysIn, ← length_keysIn, ← List.length_cons (a := k)]
  have hnot : k ∉ m.keysIn range := fun hmem => (mem_keysIn.mp hmem).2 hnew
  refine ((List.perm_ext_iff_of_nodup (keysIn_nodup _ _)
    (List.nodup_cons.mpr ⟨hnot, m.keysIn_nodup range⟩)).mpr ?_).length_eq
  intro k'
  rw [mem_cons, mem_keysIn, mem_keysIn]
  by_cases he : k' = k
  · subst he
    simp [hk]
  · rw [lookup_put_ne m v he]
    simp [he]

lemma count_put_old (v : V k) (hold : m.lookup k ≠ none) :
    (m.put k v).count range = m.count range := by
  refine count_eq_of_keys fun k' _ => ?_
  by_cases he : k' = k
  · subst he
    simp [hold]
  · rw [lookup_put_ne m v he]

lemma count_put_out (v : V k) (hk : range k = false) :
    (m.put k v).count range = m.count range := by
  refine count_congr fun k' hk' => lookup_put_ne m v ?_
  rintro rfl
  simp [hk] at hk'

lemma count_erase (hk : range k = true) (hold : m.lookup k ≠ none) :
    m.count range = (m.erase k).count range + 1 := by
  rw [← length_keysIn, ← length_keysIn, ← List.length_cons (a := k)]
  have hnot : k ∉ (m.erase k).keysIn range := fun hmem => (mem_keysIn.mp hmem).2 (by simp)
  refine ((List.perm_ext_iff_of_nodup (m.keysIn_nodup range)
    (List.nodup_cons.mpr ⟨hnot, keysIn_nodup _ _⟩)).mpr ?_).length_eq
  intro k'
  rw [mem_cons, mem_keysIn, mem_keysIn]
  by_cases he : k' = k
  · subst he
    simp [hk, hold]
  · rw [lookup_erase_ne m he]
    simp [he]

lemma count_erase_out (hk : range k = false) : (m.erase k).count range = m.count range := by
  refine count_congr fun k' hk' => lookup_erase_ne m ?_
  rintro rfl
  simp [hk] at hk'

/-- The sum of the weights of all entries. -/
def total (m : OrderedMap K V) (weight : ∀ k, V k → ℕ) : ℕ :=
  (m.entries.map fun e => weight e.1 e.2).sum

lemma total_put (m : OrderedMap K V) (weight : ∀ k, V k → ℕ) (k : K) (v : V k) :
    (m.put k v).total weight + (m.lookup k).elim 0 (weight k) = m.total weight + weight k v := by
  obtain ⟨entries, sorted⟩ := m
  induction entries with
  | nil => simp [total, put, insertEntry, lookup]
  | cons e rest ih =>
    have hrest := ih (pairwise_cons.mp sorted).2
    have hkey : ∀ e' ∈ rest, e.1 < e'.1 := (pairwise_cons.mp sorted).1
    simp only [total, put, lookup] at hrest ⊢
    rw [insertEntry]
    split_ifs with hlt heq
    · have hnone : (e :: rest).dlookup k = none := by
        refine List.dlookup_eq_none.mpr fun hmem => ?_
        obtain ⟨_, hv'⟩ := List.mem_keys.mp hmem
        rcases mem_cons.mp hv' with rfl | hv'
        · exact lt_irrefl k hlt
        · exact lt_asymm hlt (hkey _ hv')
      simp [hnone, Nat.add_comm]
    · obtain ⟨_, _⟩ := e
      subst heq
      simp only [map_cons, sum_cons, List.dlookup_cons_eq, Option.elim_some]
      omega
    · rw [dlookup_cons_ne _ _ heq]
      simp only [map_cons, sum_cons]
      omega

end OrderedMap

/-! ### Names used without their namespace -/

export OrderedMap (lookup_put_ne lookup_put_self lookup_clear lookup_erase_ne mem_scan lookup_erase
  lookup_put)
