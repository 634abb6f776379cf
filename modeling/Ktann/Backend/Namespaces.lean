/-
Backend namespaces in one physical database.

A physical key is a header of the adapter, the length of the namespace, the
namespace and the logical key.  The length in front makes the namespaces
self-delimiting, so none of them is seen inside another.

* `mem_encoded_range` — what lies between two keys of a namespace is one of its keys;
* `namespaces_isolated` — **two namespaces share no key and no range, and neither
  reads nor changes the data of the other.**
-/
import Ktann.Backend.Pagination

open KeySpace (KeyRange)
open Memory (ScanLimits ScanPage ScanPage.continued entriesIn contains)
open Except (bind_congr)

/-! ### Physical keys -/

inductive AdapterKind
  | foundationDb
  | rocksDb

/-- The fixed bytes at the front of every physical key. -/
def AdapterKind.header : AdapterKind → Bytes
  | .foundationDb => [0, 107, 116, 97, 110, 110]
  | .rocksDb => [0, 107, 116, 97, 110, 110, 45, 114, 111, 99, 107, 115, 100, 98]

def AdapterKind.maxPhysicalKeyBytes : AdapterKind → ℕ
  | .foundationDb => 10000
  | .rocksDb => 2 ^ 32 - 1

/-- Opaque bytes, at most 255 of them. -/
structure BackendNamespace where
  bytes : Bytes
  bounded : bytes.length ≤ 255

/-- One namespace of an adapter. -/
structure PhysicalPrefix where
  kind : AdapterKind
  space : BackendNamespace

namespace PhysicalPrefix

def bytes (p : PhysicalPrefix) : Bytes :=
  p.kind.header ++ Fin.ofNat 256 p.space.bytes.length :: p.space.bytes

def maxLogicalKeyBytes (p : PhysicalPrefix) : ℕ := p.kind.maxPhysicalKeyBytes - p.bytes.length

def encodeKey (p : PhysicalPrefix) (key : Bytes) : Except Error Bytes :=
  if p.maxLogicalKeyBytes < key.length then .error (Error.new .limitExceeded)
  else .ok (p.bytes ++ key)

def decodeKey (p : PhysicalPrefix) (key : Bytes) : Except Error Bytes :=
  if p.bytes <+: key then .ok (key.drop p.bytes.length) else .error .corrupt

/-! ### Operations -/

variable (p : PhysicalPrefix) (db : Memory.Store)

def get (key : Bytes) : Except Error (Option Bytes) := do
  let key ← p.encodeKey key
  .ok (db.lookup key)

/-- The loop over the rows of a physical range. -/
def pageFrom (limits : ScanLimits) :
    List (Bytes × Bytes) → List (Bytes × Bytes) → ℕ → Except Error ScanPage
  | [], items, _ => .ok ⟨items, none⟩
  | row :: rest, items, itemBytes => do
    let key ← p.decodeKey row.1
    let bytes := key.length + row.2.length
    if items ≠ [] ∧ (limits.itemLimit ≤ items.length ∨
        min limits.byteLimit RocksDb.maxScanPageBytes < itemBytes + bytes) then
      ScanPage.continued items p.maxLogicalKeyBytes
    else pageFrom limits rest (items ++ [(key, row.2)]) (itemBytes + bytes)

/-- One page.  RocksDB encodes the range before it looks at the limits, and
FoundationDB asks for one row more than the page can hold. -/
def scan (range : KeyRange) (limits : ScanLimits) : Except Error ScanPage :=
  match p.kind with
  | .foundationDb =>
    if limits.itemLimit = 0 ∨ limits.byteLimit = 0 then .error .invalidArgument
    else if range.stop ≤ range.start then .ok ⟨[], none⟩
    else do
      let start ← p.encodeKey range.start
      let stop ← p.encodeKey range.stop
      p.pageFrom limits ((entriesIn db ⟨start, stop⟩).take (limits.itemLimit + 1)) [] 0
  | .rocksDb => do
    let start ← p.encodeKey range.start
    let stop ← p.encodeKey range.stop
    if limits.itemLimit = 0 ∨ limits.byteLimit = 0 then .error .invalidArgument
    else if stop ≤ start then .ok ⟨[], none⟩
    else p.pageFrom limits (entriesIn db ⟨start, stop⟩) [] 0

def put (key value : Bytes) : Except Error Memory.Store := do
  let key ← p.encodeKey key
  .ok (db.put key value)

def delete (key : Bytes) : Except Error Memory.Store := do
  let key ← p.encodeKey key
  .ok (db.erase key)

/-- RocksDB has no range clear. -/
def clearRange (range : KeyRange) : Except Error Memory.Store :=
  match p.kind with
  | .foundationDb =>
    if range.stop ≤ range.start then .ok db
    else do
      let start ← p.encodeKey range.start
      let stop ← p.encodeKey range.stop
      .ok (db.clear (contains ⟨start, stop⟩))
  | .rocksDb => .error (Error.new .unsupported)

/-- The data of a namespace, by logical key. -/
def view (key : Bytes) : Option Bytes := db.lookup (p.bytes ++ key)

/-! ### The code -/

variable {p db} {q : PhysicalPrefix} {key key' start stop : Bytes} {db' : Memory.Store}

lemma encodeKey_eq_ok (h : p.encodeKey key = .ok key') : key' = p.bytes ++ key := by
  rw [encodeKey] at h
  split_ifs at h
  cases h
  rfl

/-- Namespaces of one adapter are self-delimiting. -/
lemma eq_of_bytes_append (hkind : p.kind = q.kind) (h : p.bytes ++ key = q.bytes ++ key') :
    p.space.bytes = q.space.bytes := by
  have hp := p.space.bounded
  have hq := q.space.bounded
  rw [bytes, bytes, hkind, append_assoc, append_assoc, List.append_cancel_left_eq,
    cons_append, cons_append, List.cons.injEq] at h
  have hlength : p.space.bytes.length = q.space.bytes.length := by
    have := congrArg Fin.val h.1
    simp only [Fin.ofNat] at this
    omega
  exact (List.append_inj h.2 hlength).1

/-- Between two keys of a namespace there are only its keys, in logical order. -/
lemma mem_encoded_range {x : Bytes} : contains ⟨p.bytes ++ start, p.bytes ++ stop⟩ x = true ↔
      ∃ key, x = p.bytes ++ key ∧ start ≤ key ∧ key < stop := by
  simp only [contains, and_eq_true, decide_eq_true_eq]
  constructor
  · rintro ⟨hlow, hhigh⟩
    obtain ⟨key, rfl⟩ := isPrefix_of_between hlow hhigh
    exact ⟨key, rfl, (append_le_append_iff _).mp hlow, (append_lt_append_iff _).mp hhigh⟩
  · rintro ⟨_, rfl, hlow, hhigh⟩
    exact ⟨(append_le_append_iff _).mpr hlow, (append_lt_append_iff _).mpr hhigh⟩

lemma mem_entriesIn_iff {range : KeyRange} {row : Bytes × Bytes} :
    row ∈ entriesIn db range ↔ contains range row.1 = true ∧ db.lookup row.1 = some row.2 := by
  rw [← mem_scan, entriesIn, mem_map]
  constructor
  · rintro ⟨e, he, rfl⟩
    exact he
  · exact fun he => ⟨_, he, rfl⟩

lemma decodeKey_eq_ok : p.decodeKey key' = .ok key ↔ key' = p.bytes ++ key := by
  rw [decodeKey]
  constructor
  · intro h
    split_ifs at h with hprefix
    obtain ⟨_, rfl⟩ := hprefix
    rw [drop_left] at h
    cases h
    rfl
  · rintro rfl
    rw [if_pos (List.prefix_append _ _), drop_left]

section
variable (h : p.view db = p.view db')
include h

/-- Rows of an encoded range depend on the data of its namespace only. -/
lemma entriesIn_congr : entriesIn db ⟨p.bytes ++ start, p.bytes ++ stop⟩ =
      entriesIn db' ⟨p.bytes ++ start, p.bytes ++ stop⟩ := by
  refine congrArg _ (OrderedMap.scan_congr fun x hx => ?_)
  obtain ⟨key, rfl, -, -⟩ := mem_encoded_range.mp hx
  exact congrFun h key

lemma get_congr : p.get db key = p.get db' key :=
  bind_congr fun physical hkey => by
    rw [encodeKey_eq_ok hkey]
    exact congrArg Except.ok (congrFun h key)

lemma scan_congr (range : KeyRange) (limits : ScanLimits) :
    p.scan db range limits = p.scan db' range limits := by
  have hrows {x y : Bytes} (hx : p.encodeKey range.start = .ok x)
      (hy : p.encodeKey range.stop = .ok y) : entriesIn db ⟨x, y⟩ = entriesIn db' ⟨x, y⟩ := by
    rw [encodeKey_eq_ok hx, encodeKey_eq_ok hy, entriesIn_congr h]
  rw [scan, scan]
  split
  · split_ifs
    · rfl
    · rfl
    · exact bind_congr fun x hx => bind_congr fun y hy => by rw [hrows hx hy]
  · exact bind_congr fun x hx => bind_congr fun y hy => by rw [hrows hx hy]

end

/-- What a write transaction can stage. -/
inductive Write
  | put (key value : Bytes)
  | delete (key : Bytes)
  | clearRange (range : KeyRange)

def write (p : PhysicalPrefix) (db : Memory.Store) : Write → Except Error Memory.Store
  | .put key value => p.put db key value
  | .delete key => p.delete db key
  | .clearRange range => p.clearRange db range

/-- A write changes keys of its own namespace only. -/
lemma write_frame {w : Write} {x : Bytes} (hw : p.write db w = .ok db')
    (hx : ∀ key, x ≠ p.bytes ++ key) : db'.lookup x = db.lookup x := by
  cases w with
  | put key =>
    obtain ⟨_, hkey, hw⟩ := bind_eq_ok.mp hw
    cases hw
    rw [encodeKey_eq_ok hkey, lookup_put_ne _ _ (hx key)]
  | delete key =>
    obtain ⟨_, hkey, hw⟩ := bind_eq_ok.mp hw
    cases hw
    rw [encodeKey_eq_ok hkey, lookup_erase_ne _ (hx key)]
  | clearRange =>
    rw [write, clearRange] at hw
    split at hw
    · split_ifs at hw
      · cases hw
        rfl
      · simp only [bind_eq_ok] at hw
        obtain ⟨_, hstart, _, hstop, hw⟩ := hw
        cases hw
        rw [lookup_clear, if_neg]
        intro hin
        rw [encodeKey_eq_ok hstart, encodeKey_eq_ok hstop] at hin
        obtain ⟨key, rfl, -⟩ := mem_encoded_range.mp hin
        exact hx key rfl
    · cases hw

/-- What one namespace can tell of another one. -/
structure Isolated (p q : PhysicalPrefix) : Prop where
  keys {a b x y : Bytes} : p.encodeKey a = .ok x → q.encodeKey b = .ok y → x ≠ y
  ranges {a b c start stop x : Bytes} : p.encodeKey a = .ok start → p.encodeKey b = .ok stop →
    q.encodeKey c = .ok x → ¬ (start ≤ x ∧ x < stop)
  writes {db db' : Memory.Store} {w : Write} : p.write db w = .ok db' → q.view db' = q.view db
  reads {db db' : Memory.Store} : (∀ x, (∀ key, x ≠ q.bytes ++ key) → db.lookup x = db'.lookup x) →
    (∀ key, p.get db key = p.get db' key) ∧
      ∀ range limits, p.scan db range limits = p.scan db' range limits

/-- Physical keys of a namespace are a code of its logical keys in their order. -/
structure Faithful (p : PhysicalPrefix) : Prop where
  order {a b x y : Bytes} : p.encodeKey a = .ok x → p.encodeKey b = .ok y → (x < y ↔ a < b)
  decode {a x : Bytes} : p.encodeKey a = .ok x → p.decodeKey x = .ok a
  only {a x : Bytes} : p.decodeKey x = .ok a → x = p.bytes ++ a
  page {db : Memory.Store} {a b start stop : Bytes} : p.encodeKey a = .ok start →
    p.encodeKey b = .ok stop → ∀ row, row ∈ entriesIn db ⟨start, stop⟩ ↔
      ∃ key, p.decodeKey row.1 = .ok key ∧ a ≤ key ∧ key < b ∧ p.view db key = some row.2

lemma faithful (p : PhysicalPrefix) : Faithful p := by
  constructor
  case order =>
    intro a b x y hx hy
    rw [encodeKey_eq_ok hx, encodeKey_eq_ok hy, append_lt_append_iff]
  case decode => exact fun hx => decodeKey_eq_ok.mpr (encodeKey_eq_ok hx)
  case only => exact decodeKey_eq_ok.mp
  case page =>
    rintro _ a b _ _ hstart hstop ⟨x, v⟩
    rw [encodeKey_eq_ok hstart, encodeKey_eq_ok hstop]
    simp only [mem_entriesIn_iff, mem_encoded_range, decodeKey_eq_ok, view]
    constructor
    · rintro ⟨⟨key, rfl, hlow, hhigh⟩, hv⟩
      exact ⟨key, rfl, hlow, hhigh, hv⟩
    · rintro ⟨key, rfl, hlow, hhigh, hv⟩
      exact ⟨⟨key, rfl, hlow, hhigh⟩, hv⟩

lemma isolated (hkind : p.kind = q.kind) (hspace : p.space.bytes ≠ q.space.bytes) :
    p.Isolated q := by
  have hne (a b : Bytes) : p.bytes ++ a ≠ q.bytes ++ b := fun h =>
    hspace (eq_of_bytes_append hkind h)
  constructor
  case keys =>
    intro a b x y hx hy
    rw [encodeKey_eq_ok hx, encodeKey_eq_ok hy]
    exact hne a b
  case ranges =>
    rintro a b c _ _ x hstart hstop hx ⟨hlow, hhigh⟩
    rw [encodeKey_eq_ok hstart, encodeKey_eq_ok hx] at hlow
    rw [encodeKey_eq_ok hstop, encodeKey_eq_ok hx] at hhigh
    obtain ⟨key, hkey⟩ := isPrefix_of_between hlow hhigh
    exact hne key c hkey
  case writes => exact fun hw => funext fun key => write_frame hw fun a => (hne a key).symm
  case reads =>
    intro db db' h
    have hview : p.view db = p.view db' := funext fun key => h _ fun b => hne key b
    exact ⟨fun key => get_congr hview, scan_congr hview⟩

end PhysicalPrefix

/-- **Namespaces do not interfere**, and each is a faithful image of its logical keys. -/
theorem namespaces_isolated {p q : PhysicalPrefix} (hkind : p.kind = q.kind)
    (hspace : p.space.bytes ≠ q.space.bytes) :
    p.Isolated q ∧ q.Isolated p ∧ p.Faithful ∧ q.Faithful :=
  ⟨PhysicalPrefix.isolated hkind hspace, PhysicalPrefix.isolated hkind.symm hspace.symm,
    p.faithful, q.faithful⟩

/-- A namespace and one that extends it. -/
theorem namespaces_isolated_extension :
    PhysicalPrefix.Isolated ⟨.rocksDb, ⟨[7], by decide⟩⟩ ⟨.rocksDb, ⟨[7, 0], by decide⟩⟩ :=
  (namespaces_isolated (p := ⟨.rocksDb, ⟨[7], by decide⟩⟩)
    (q := ⟨.rocksDb, ⟨[7, 0], by decide⟩⟩) rfl
    (by decide)).1
