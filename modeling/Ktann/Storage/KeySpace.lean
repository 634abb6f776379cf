/-
The logical key space, byte by byte.

Every logical key begins with a scope tag.  A namespace key holds an allocator, a
name or an index identity; an index key holds the big-endian index identity and a
kind, then the components of the kind.  Tree Keys and escaped Record IDs delimit
themselves, and what follows a fixed-width component is read at its offset, so
the key space is a code and each family of keys is one range of it.

* `Key`, `encodeKey`, `decodeKey` — the keys, grouped by their layout, and the
  two directions of the code;
* `IndexWord` — what a key of an index writes after the index identity;
* `decodeKey_eq_ok` — decoding accepts exactly the code words of conforming keys.
-/
import Ktann.Storage.TreeKeyCode

namespace KeySpace

/-! ### Components -/

/-- A nonzero `u64`, the identity of a Logical Index or of a partition. -/
structure NonZeroU64 where
  val : ℕ
  ne_zero : val ≠ 0
  lt : val < u64Bound
  deriving DecidableEq

/-- A `u32`, the ordinal of a graph chunk. -/
structure U32 where
  val : ℕ
  lt : val < u32Bound
  deriving DecidableEq

/-- A validated Index Name: `1..=255` UTF-8 bytes. -/
structure IndexName where
  name : Str
  ne_nil : name.bytes ≠ []
  length_le : name.bytes.length ≤ 255
  deriving DecidableEq

/-- The values of one Record Group. -/
inductive RecordKind
  | value
  | location
  | payload
  deriving DecidableEq

/-- The local families of one partition. -/
inductive PartitionKind
  | header
  | synopsis
  | state
  | centroid
  | leafEntry (id : Bytes)
  | childEntry (child : NonZeroU64)
  | graphDescriptor
  | graphChunk (chunk : U32)
  deriving DecidableEq

/-- A fully decoded logical key. -/
inductive Key
  | indexIdAllocator
  | indexNameDirectory (name : IndexName)
  | buildWorkspace (index : NonZeroU64)
  | buildSchedule (index : NonZeroU64)
  | manifest (index : NonZeroU64)
  | buildDescriptor (index : NonZeroU64)
  | buildLoad (index : NonZeroU64)
  | buildValidation (index : NonZeroU64)
  | recordGroup (index : NonZeroU64) (id : Bytes) (kind : RecordKind)
  | treeManifest (index : NonZeroU64) (treeKey : TreeKey)
  | partition (index : NonZeroU64) (treeKey : TreeKey) (partition : NonZeroU64)
      (kind : PartitionKind)
  deriving DecidableEq

/-! ### Encoding -/

/-- Rejects an invalid Record ID on the encode path. -/
def checkRecordId (id : Bytes) : Except Error Unit :=
  if id = [] ∨ maxRecordIdBytes < id.length then .error .invalidArgument else .ok ()

def indexPrefix (index : NonZeroU64) : Bytes := 1 :: bigEndian 8 index.val

def partitionPrefix (index : NonZeroU64) (treeKey : TreeKey) (partition : NonZeroU64) : Bytes :=
  indexPrefix index ++ 4 :: (treeKey ++ bigEndian 8 partition.val)

def recordGroupPrefix (index : NonZeroU64) (id : Bytes) : Except Error Bytes := do
  checkRecordId id
  .ok (indexPrefix index ++ 1 :: escapeTerminated id)

def RecordKind.tag : RecordKind → Byte
  | value => 0
  | location => 1
  | payload => 2

/-- The subkind byte of a partition-local family. -/
def PartitionKind.tag : PartitionKind → Byte
  | header => 0
  | synopsis => 1
  | state => 2
  | centroid => 3
  | leafEntry _ => 4
  | childEntry _ => 5
  | graphDescriptor => 6
  | graphChunk _ => 7

/-- What follows the subkind byte. -/
def PartitionKind.terminal : PartitionKind → Except Error Bytes
  | leafEntry id => do
    checkRecordId id
    .ok id
  | childEntry child => .ok (bigEndian 8 child.val)
  | graphChunk chunk => .ok (bigEndian 4 chunk.val)
  | _ => .ok []

def encodeKey : Key → Except Error Bytes
  | .indexIdAllocator => .ok [0, 0]
  | .indexNameDirectory name => .ok (0 :: 1 :: name.name.bytes)
  | .buildWorkspace index => .ok (0 :: 2 :: bigEndian 8 index.val)
  | .buildSchedule index => .ok (0 :: 3 :: bigEndian 8 index.val)
  | .manifest index => .ok (indexPrefix index ++ [0])
  | .buildDescriptor index => .ok (indexPrefix index ++ [5])
  | .buildLoad index => .ok (indexPrefix index ++ [6])
  | .buildValidation index => .ok (indexPrefix index ++ [7])
  | .recordGroup index id kind => do
    let bytes ← recordGroupPrefix index id
    .ok (bytes ++ [kind.tag])
  | .treeManifest index treeKey => .ok (indexPrefix index ++ 3 :: treeKey)
  | .partition index treeKey partition kind => do
    let terminal ← kind.terminal
    .ok (partitionPrefix index treeKey partition ++ kind.tag :: terminal)

/-! ### Decoding -/

/-- A fixed-width identity, rejected as corrupt when it is zero. -/
def decodeId (raw : Bytes) : Except Error NonZeroU64 :=
  if h : fromBigEndian raw ≠ 0 ∧ fromBigEndian raw < u64Bound then
    .ok ⟨fromBigEndian raw, h.1, h.2⟩
  else .error .corrupt

/-- A chunk ordinal.  Four bytes always write one. -/
def decodeChunk (raw : Bytes) : Except Error U32 :=
  if h : fromBigEndian raw < u32Bound then .ok ⟨fromBigEndian raw, h⟩ else .error .corrupt

def decodeName (bytes : Bytes) : Except Error IndexName :=
  if hutf8 : utf8From 0 0x80 0xBF bytes = true then
    if h : bytes ≠ [] ∧ bytes.length ≤ 255 then .ok ⟨⟨bytes, hutf8⟩, h.1, h.2⟩
    else .error .corrupt
  else .error .corrupt

def decodeNamespaceKey : Bytes → Except Error Key
  | [] => .error .corrupt
  | tag :: rest =>
    if tag = 0 ∧ rest = [] then .ok .indexIdAllocator
    else if tag = 2 ∧ rest.length = 8 then do
      let index ← decodeId rest
      .ok (.buildWorkspace index)
    else if tag = 3 ∧ rest.length = 8 then do
      let index ← decodeId rest
      .ok (.buildSchedule index)
    else if tag = 1 then do
      let name ← decodeName rest
      .ok (.indexNameDirectory name)
    else .error .corrupt

/-- The Record ID of a scanned Record Group.  One without a NUL is borrowed from
the key, any other is decoded into a buffer of its own. -/
def scannedId (body : Bytes) (scan : EscapedScan) : Bytes :=
  if scan.escaped then decodeEscapedTerminated body scan else body.take scan.decodedLen

def decodeRecordKind : Bytes → Except Error RecordKind
  | [tag] =>
    if tag = 0 then .ok .value
    else if tag = 1 then .ok .location
    else if tag = 2 then .ok .payload
    else .error .corrupt
  | _ => .error .corrupt

def decodeRecordGroup (index : NonZeroU64) (body : Bytes) : Except Error Key := do
  let scan ← scanEscapedTerminated body maxRecordIdBytes
  if scannedId body scan = [] then .error .corrupt
  else do
    let kind ← decodeRecordKind (body.drop scan.consumed)
    .ok (.recordGroup index (scannedId body scan) kind)

def decodeChild (terminal : Bytes) : Except Error NonZeroU64 := do
  let raw ← takeArray 8 terminal
  let child ← decodeId raw
  if terminal.length ≠ 8 then .error .corrupt else .ok child

def decodePartitionKind (subkind : Byte) (terminal : Bytes) : Except Error PartitionKind :=
  if subkind = 0 ∧ terminal = [] then .ok .header
  else if subkind = 1 ∧ terminal = [] then .ok .synopsis
  else if subkind = 2 ∧ terminal = [] then .ok .state
  else if subkind = 6 ∧ terminal = [] then .ok .graphDescriptor
  else if subkind = 7 ∧ terminal.length = 4 then do
    let chunk ← decodeChunk terminal
    .ok (.graphChunk chunk)
  else if subkind = 3 ∧ terminal = [] then .ok .centroid
  else if subkind = 4 then
    if terminal = [] ∨ maxRecordIdBytes < terminal.length then .error .corrupt
    else .ok (.leafEntry terminal)
  else if subkind = 5 then do
    let child ← decodeChild terminal
    .ok (.childEntry child)
  else .error .corrupt

def decodePartitionKey (types : List DataType) (index : NonZeroU64) (rest : Bytes) :
    Except Error Key := do
  let consumed ← checkFields types rest
  let raw ← takeArray 8 (rest.drop consumed)
  let partition ← decodeId raw
  match (rest.drop consumed).drop 8 with
  | [] => .error .corrupt
  | subkind :: terminal => do
    let kind ← decodePartitionKind subkind terminal
    .ok (.partition index (rest.take consumed) partition kind)

def decodeKind (types : List DataType) (index : NonZeroU64) (kind : Byte) (rest : Bytes) :
    Except Error Key :=
  if kind = 7 ∧ rest = [] then .ok (.buildValidation index)
  else if kind = 6 ∧ rest = [] then .ok (.buildLoad index)
  else if kind = 5 ∧ rest = [] then .ok (.buildDescriptor index)
  else if kind = 0 ∧ rest = [] then .ok (.manifest index)
  else if kind = 1 then decodeRecordGroup index rest
  else if kind = 3 then do
    checkComplete types rest
    .ok (.treeManifest index rest)
  else if kind = 4 then decodePartitionKey types index rest
  else .error .corrupt

def decodeIndexKey (types : List DataType) (body : Bytes) : Except Error Key := do
  let raw ← takeArray 8 body
  let index ← decodeId raw
  match body.drop 8 with
  | [] => .error .corrupt
  | kind :: rest => decodeKind types index kind rest

def decodeKey (types : List DataType) : Bytes → Except Error Key
  | [] => .error .corrupt
  | scope :: body =>
    if scope = 0 then decodeNamespaceKey body
    else if scope = 1 then decodeIndexKey types body
    else .error .corrupt

/-! ### Ranges -/

/-- Strip the trailing `0xFF` bytes of a reversed word and increment the next. -/
def successorRev : Bytes → Bytes
  | [] => []
  | last :: rest => if last = 255 then successorRev rest else (last + 1) :: rest

/-- The smallest byte string above every string with the prefix. -/
def successor (word : Bytes) : Bytes := (successorRev word.reverse).reverse

structure KeyRange where
  start : Bytes
  stop : Bytes

def KeyRange.Contains (range : KeyRange) (key : Bytes) : Prop := range.start ≤ key ∧
    key < range.stop

/-- The range from a prefix to its successor. -/
def rangeOf (word : Bytes) : KeyRange := ⟨word, successor word⟩

def indexRange (index : NonZeroU64) : KeyRange := rangeOf (indexPrefix index)

def treeManifestRange (index : NonZeroU64) : KeyRange := rangeOf (indexPrefix index ++ [3])

def partitionRange (index : NonZeroU64) (treeKey : TreeKey) (partition : NonZeroU64) : KeyRange :=
  rangeOf (partitionPrefix index treeKey partition)

def partitionSubkindRange (index : NonZeroU64) (treeKey : TreeKey) (partition : NonZeroU64)
    (subkind : Byte) : KeyRange :=
  rangeOf (partitionPrefix index treeKey partition ++ [subkind])

def leafEntryRange (index : NonZeroU64) (treeKey : TreeKey) (partition : NonZeroU64) : KeyRange :=
  partitionSubkindRange index treeKey partition 4

def childEntryRange (index : NonZeroU64) (treeKey : TreeKey) (partition : NonZeroU64) : KeyRange :=
  partitionSubkindRange index treeKey partition 5

def graphChunkRange (index : NonZeroU64) (treeKey : TreeKey) (partition : NonZeroU64) : KeyRange :=
  partitionSubkindRange index treeKey partition 7

/-- The Tree Manifests whose leading fields have the given values. -/
def treeManifestPrefixRange (index : NonZeroU64) (types : List DataType) (values : List Value) :
    Except Error KeyRange :=
  if types.length < values.length then .error .invalidArgument
  else do
    let fields ← appendFields (types.take values.length) values
    .ok (rangeOf (indexPrefix index ++ 3 :: fields))

/-! ### Code words -/

def IsTreeKey (types : List DataType) (treeKey : TreeKey) : Prop :=
  ∃ values, TreeKey.encode types values = .ok treeKey

def Key.Conforms (types : List DataType) : Key → Prop
  | .treeManifest _ treeKey => IsTreeKey types treeKey
  | .partition _ treeKey _ _ => IsTreeKey types treeKey
  | _ => True

/-- The Logical Index that owns a key.  The workspace and the schedule of a build
belong to the namespace. -/
def Key.index? : Key → Option NonZeroU64
  | .indexIdAllocator | .indexNameDirectory _ | .buildWorkspace _ | .buildSchedule _ => none
  | .manifest index | .buildDescriptor index | .buildLoad index | .buildValidation index
  | .recordGroup index _ _ | .treeManifest index _ | .partition index _ _ _ => some index

/-- What an index-scope key writes after its index identity. -/
inductive IndexWord (index : NonZeroU64) : Key → Byte → Bytes → Prop
  | manifest : IndexWord index (.manifest index) 0 []
  | buildDescriptor : IndexWord index (.buildDescriptor index) 5 []
  | buildLoad : IndexWord index (.buildLoad index) 6 []
  | buildValidation : IndexWord index (.buildValidation index) 7 []
  | recordGroup {id : Bytes} {kind : RecordKind} : checkRecordId id = .ok () →
      IndexWord index (.recordGroup index id kind) 1 (escapeTerminated id ++ [kind.tag])
  | treeManifest {treeKey : TreeKey} : IndexWord index (.treeManifest index treeKey) 3 treeKey
  | partition {treeKey : TreeKey} {partition : NonZeroU64} {kind : PartitionKind}
      {terminal : Bytes} : kind.terminal = .ok terminal →
      IndexWord index (.partition index treeKey partition kind) 4
        (treeKey ++ (bigEndian 8 partition.val ++ kind.tag :: terminal))

lemma IndexWord.encodeKey {index : NonZeroU64} {k : Key} {kind : Byte} {rest : Bytes}
    (h : IndexWord index k kind rest) : encodeKey k = .ok (indexPrefix index ++ kind :: rest) := by
  cases h with
  | recordGroup hid =>
    rw [KeySpace.encodeKey, recordGroupPrefix, hid]
    simp only [bind, Except.bind, append_assoc, cons_append]
  | partition hterminal =>
    rw [KeySpace.encodeKey, hterminal]
    simp only [partitionPrefix, bind, Except.bind, append_assoc, cons_append]
  | _ => rfl

variable {index : NonZeroU64} {k : Key} {rest bytes body s : Bytes} {types : List DataType}
  {raw terminal : Bytes}

lemma IndexWord.index? {kind : Byte} (h : IndexWord index k kind rest) :
    k.index? = some index := by
  cases h <;> rfl

lemma encodeKey_cases (h : encodeKey k = .ok bytes) :
    (k.index? = none ∧ ∃ body, bytes = 0 :: body) ∨
      ∃ index kind rest, IndexWord index k kind rest ∧ bytes = indexPrefix index ++
        kind :: rest := by
  have index {i : NonZeroU64} {kind : Byte} {rest : Bytes} (hw : IndexWord i k kind rest) :
      (k.index? = none ∧ ∃ body, bytes = 0 :: body) ∨
      ∃ index kind rest, IndexWord index k kind rest ∧ bytes = indexPrefix index ++
        kind :: rest := by
    rw [hw.encodeKey] at h
    exact .inr ⟨i, kind, rest, hw, (Except.ok.inj h).symm⟩
  cases k with
  | indexIdAllocator | indexNameDirectory | buildWorkspace | buildSchedule =>
    exact .inl ⟨rfl, _, (Except.ok.inj h).symm⟩
  | manifest => exact index .manifest
  | buildDescriptor => exact index .buildDescriptor
  | buildLoad => exact index .buildLoad
  | buildValidation => exact index .buildValidation
  | recordGroup i _ _ =>
    obtain ⟨_, hgroup, _⟩ := bind_eq_ok.mp h
    obtain ⟨⟨⟩, hid, _⟩ := bind_eq_ok.mp hgroup
    exact index (.recordGroup hid)
  | treeManifest => exact index .treeManifest
  | partition i t p =>
    obtain ⟨_, hterminal, _⟩ := bind_eq_ok.mp h
    exact index (.partition hterminal)

/-! ### Decoding accepts exactly the code words -/

lemma checkRecordId_eq_ok {id : Bytes} :
    checkRecordId id = .ok () ↔ id ≠ [] ∧ id.length ≤ maxRecordIdBytes := by
  rw [checkRecordId]
  split_ifs with h
  · simp only [false_iff, not_and, not_le]
    exact fun hne => h.resolve_left hne
  · rw [not_or, not_lt] at h
    exact ⟨fun _ => h, fun _ => rfl⟩

lemma NonZeroU64.lt_pow (id : NonZeroU64) : id.val < 256 ^ 8 := by
  have h := id.lt
  norm_num [u64Bound] at h ⊢
  exact h

lemma U32.lt_pow (chunk : U32) : chunk.val < 256 ^ 4 := by
  have h := chunk.lt
  norm_num [u32Bound] at h ⊢
  exact h

lemma decodeId_eq_ok {id : NonZeroU64} (hraw : raw.length = 8) :
    decodeId raw = .ok id ↔ raw = bigEndian 8 id.val := by
  rw [decodeId]
  constructor
  · intro h
    split_ifs at h with hid
    cases h
    rw [← hraw, bigEndian_fromBigEndian]
  · rintro rfl
    have hval : fromBigEndian (bigEndian 8 id.val) = id.val := by
      rw [fromBigEndian_bigEndian, Nat.mod_eq_of_lt id.lt_pow]
    simp only [hval, id.ne_zero, id.lt, ne_eq, not_false_eq_true, and_self, dite_true]

lemma decodeChunk_eq_ok {chunk : U32} (hraw : raw.length = 4) :
    decodeChunk raw = .ok chunk ↔ raw = bigEndian 4 chunk.val := by
  rw [decodeChunk]
  constructor
  · intro h
    split_ifs at h with hchunk
    cases h
    rw [← hraw, bigEndian_fromBigEndian]
  · rintro rfl
    have hval : fromBigEndian (bigEndian 4 chunk.val) = chunk.val := by
      rw [fromBigEndian_bigEndian, Nat.mod_eq_of_lt chunk.lt_pow]
    simp only [hval, chunk.lt, dite_true]

lemma decodeChild_eq_ok {child : NonZeroU64} :
    decodeChild terminal = .ok child ↔ terminal = bigEndian 8 child.val := by
  simp only [decodeChild, bind_eq_ok]
  constructor
  · rintro ⟨_, hraw, _, hid, h⟩
    obtain ⟨hlen, rest, rfl⟩ := takeArray_eq_ok.mp hraw
    split_ifs at h with hterminal
    cases h
    rw [not_not, length_append, hlen] at hterminal
    have hrest : rest = [] := List.length_eq_zero_iff.mp (by omega)
    rw [hrest, append_nil, (decodeId_eq_ok hlen).mp hid]
  · rintro rfl
    exact ⟨_, takeArray_eq_ok.mpr ⟨length_bigEndian _ _, [], (append_nil _).symm⟩, child,
      (decodeId_eq_ok (length_bigEndian _ _)).mpr rfl,
      if_neg (not_not.mpr (length_bigEndian _ _))⟩

lemma decodeName_eq_ok {name : IndexName} :
    decodeName bytes = .ok name ↔ bytes = name.name.bytes := by
  rw [decodeName]
  constructor
  · intro h
    split_ifs at h with hutf8 hlen
    cases h
    rfl
  · rintro rfl
    rw [dif_pos name.name.valid, dif_pos ⟨name.ne_nil, name.length_le⟩]

lemma decodeNamespaceKey_eq_ok :
    decodeNamespaceKey body = .ok k ↔ encodeKey k = .ok (0 :: body) := by
  constructor
  · intro h
    cases body with
    | nil => cases h
    | cons tag _ =>
      rw [decodeNamespaceKey] at h
      split_ifs at h with h0 h2 h3 h1
      · cases h
        rw [h0.1, h0.2]
        rfl
      · obtain ⟨index, hindex, h⟩ := bind_eq_ok.mp h
        cases h
        rw [h2.1, (decodeId_eq_ok h2.2).mp hindex]
        rfl
      · obtain ⟨index, hindex, h⟩ := bind_eq_ok.mp h
        cases h
        rw [h3.1, (decodeId_eq_ok h3.2).mp hindex]
        rfl
      · obtain ⟨_, hname, h⟩ := bind_eq_ok.mp h
        cases h
        rw [h1, decodeName_eq_ok.mp hname]
        rfl
  · intro h
    have hid (index : NonZeroU64) : decodeId (bigEndian 8 index.val) = .ok index :=
      (decodeId_eq_ok (length_bigEndian _ _)).mpr rfl
    rcases encodeKey_cases h with ⟨hnone, _⟩ | ⟨index, _, _, _, hbytes⟩
    · cases k with
      | indexIdAllocator =>
        cases h
        rfl
      | indexNameDirectory =>
        cases h
        rw [decodeNamespaceKey, if_neg (by simp), if_neg (by simp), if_neg (by simp), if_pos rfl,
          decodeName_eq_ok.mpr rfl]
        rfl
      | buildWorkspace index =>
        cases h
        rw [decodeNamespaceKey, if_neg (by simp), if_pos ⟨rfl, length_bigEndian _ _⟩, hid]
        rfl
      | buildSchedule index =>
        cases h
        rw [decodeNamespaceKey, if_neg (by simp), if_neg (by simp),
          if_pos ⟨rfl, length_bigEndian _ _⟩, hid]
        rfl
      | _ => cases hnone
    · -- an index word begins with the other scope tag
      simp [indexPrefix] at hbytes

lemma decodePartitionKind_eq_ok {subkind : Byte} {kind : PartitionKind} :
    decodePartitionKind subkind terminal = .ok kind ↔
      kind.tag = subkind ∧ kind.terminal = .ok terminal := by
  constructor
  · intro h
    rw [decodePartitionKind] at h
    split_ifs at h with h0 h1 h2 h6 h7 h3 h4 hid h5
    · cases h
      exact ⟨h0.1.symm, by rw [h0.2]; rfl⟩
    · cases h
      exact ⟨h1.1.symm, by rw [h1.2]; rfl⟩
    · cases h
      exact ⟨h2.1.symm, by rw [h2.2]; rfl⟩
    · cases h
      exact ⟨h6.1.symm, by rw [h6.2]; rfl⟩
    · obtain ⟨_, hchunk, h⟩ := bind_eq_ok.mp h
      cases h
      exact ⟨h7.1.symm, by rw [(decodeChunk_eq_ok h7.2).mp hchunk]; rfl⟩
    · cases h
      exact ⟨h3.1.symm, by rw [h3.2]; rfl⟩
    · cases h
      rw [not_or, not_lt] at hid
      refine ⟨h4.symm, ?_⟩
      rw [PartitionKind.terminal, checkRecordId_eq_ok.mpr hid]
      rfl
    · obtain ⟨_, hchild, h⟩ := bind_eq_ok.mp h
      cases h
      exact ⟨h5.symm, by rw [decodeChild_eq_ok.mp hchild]; rfl⟩
  · rintro ⟨rfl, h⟩
    cases kind with
    | leafEntry _ =>
      obtain ⟨⟨⟩, hid, h⟩ := bind_eq_ok.mp h
      cases h
      rw [checkRecordId_eq_ok] at hid
      simp [decodePartitionKind, PartitionKind.tag, hid.1, hid.2]
    | childEntry =>
      cases h
      rw [decodePartitionKind, PartitionKind.tag, if_neg (by simp), if_neg (by simp),
        if_neg (by simp), if_neg (by simp), if_neg (by simp), if_neg (by simp), if_neg (by decide),
        if_pos rfl, decodeChild_eq_ok.mpr rfl]
      rfl
    | graphChunk =>
      cases h
      rw [decodePartitionKind, PartitionKind.tag, if_neg (by simp), if_neg (by simp),
        if_neg (by simp), if_neg (by simp), if_pos ⟨rfl, length_bigEndian _ _⟩,
        (decodeChunk_eq_ok (length_bigEndian _ _)).mpr rfl]
      rfl
    | _ =>
      cases h
      rfl

lemma IsTreeKey.eq {treeKey : TreeKey} :
    IsTreeKey types treeKey ↔ treeKey.length ≤ maxTreeKeyBytes ∧
      ∃ values, appendFields types values = .ok treeKey := by
  simp only [IsTreeKey, TreeKey.encode, bind_eq_ok]
  constructor
  · rintro ⟨values, _, hbytes, h⟩
    split_ifs at h with hlen
    cases h
    exact ⟨by omega, values, hbytes⟩
  · rintro ⟨hlen, values, hbytes⟩
    exact ⟨values, treeKey, hbytes, if_neg (by omega)⟩

lemma decodePartitionKey_eq_ok :
    decodePartitionKey types index rest = .ok k ↔ IndexWord index k 4 rest ∧ k.Conforms types := by
  simp only [decodePartitionKey, bind_eq_ok, checkFields_eq_ok]
  constructor
  · rintro ⟨_, ⟨hlen, values, _, _, hword, rfl, rfl⟩, _, hraw, partition, hid, h⟩
    rw [drop_left] at hraw h
    obtain ⟨hraw8, tail, rfl⟩ := takeArray_eq_ok.mp hraw
    rw [decodeId_eq_ok hraw8] at hid
    rw [← hraw8, drop_left] at h
    cases tail with
    | nil => cases h
    | cons _ _ =>
      obtain ⟨_, hkind, h⟩ := bind_eq_ok.mp h
      cases h
      obtain ⟨rfl, hterminal⟩ := decodePartitionKind_eq_ok.mp hkind
      rw [take_left, hid]
      exact ⟨.partition hterminal, IsTreeKey.eq.mpr ⟨hlen, values, hword⟩⟩
  · rintro ⟨hword, hconforms⟩
    cases hword with
    | @partition treeKey partition _ _ hterminal =>
      obtain ⟨hlen, values, hvalues⟩ := IsTreeKey.eq.mp hconforms
      refine ⟨treeKey.length, ⟨hlen, values, treeKey, _, hvalues, rfl, rfl⟩,
        bigEndian 8 partition.val, ?_, partition,
          (decodeId_eq_ok (length_bigEndian _ _)).mpr rfl, ?_⟩
      · rw [drop_left]
        exact takeArray_eq_ok.mpr ⟨length_bigEndian _ _, _, rfl⟩
      · rw [drop_left, take_left, List.drop_left' (length_bigEndian _ _)]
        dsimp only
        rw [decodePartitionKind_eq_ok.mpr ⟨rfl, hterminal⟩]
        rfl

lemma decodeRecordKind_eq_ok {kind : RecordKind} :
    decodeRecordKind bytes = .ok kind ↔ bytes = [kind.tag] := by
  constructor
  · intro h
    cases bytes with
    | nil => cases h
    | cons _ rest =>
      cases rest with
      | cons => cases h
      | nil =>
        rw [decodeRecordKind] at h
        split_ifs at h with h0 h1 h2
        · cases h
          rw [h0]
          rfl
        · cases h
          rw [h1]
          rfl
        · cases h
          rw [h2]
          rfl
  · rintro rfl
    cases kind <;> rfl

lemma escapeTerminated_of_notMem (h : (0 : Byte) ∉ s) : escapeTerminated s = s ++ [0, 0] := by
  induction s with
  | nil => rfl
  | cons b s ih =>
    rw [mem_cons, not_or] at h
    rw [escapeTerminated_ne (Ne.symm h.1), ih h.2, cons_append]

lemma scanEscapedTerminated_escapeTerminated {maximum : ℕ} (h : s.length ≤ maximum) :
    scanEscapedTerminated (escapeTerminated s ++ rest) maximum =
      .ok ⟨s.length, (escapeTerminated s).length, s.contains 0⟩ := by
  have hscan := @scanEscapedFrom_escapeTerminated maximum ⟨0, 0, false⟩ s rest
    (by dsimp only; omega)
  rwa [Nat.zero_add, Nat.zero_add, Bool.false_or] at hscan

lemma scannedId_eq :
    scannedId (escapeTerminated s ++ rest) ⟨s.length, (escapeTerminated s).length, s.contains 0⟩ =
      s := by
  rw [scannedId]
  split_ifs with h
  · exact unescape_take s rest
  · have hmem : (0 : Byte) ∉ s := by simpa using h
    rw [escapeTerminated_of_notMem hmem, append_assoc, take_left]

lemma decodeRecordGroup_eq_ok :
    decodeRecordGroup index body = .ok k ↔ IndexWord index k 1 body := by
  rw [decodeRecordGroup, bind_eq_ok]
  constructor
  · rintro ⟨_, hscan, h⟩
    obtain ⟨s, _, rfl, hlen, _⟩ := scanEscapedTerminated_eq_ok hscan
    rw [scanEscapedTerminated_escapeTerminated hlen] at hscan
    cases hscan
    rw [scannedId_eq, drop_left] at h
    split_ifs at h with hne
    obtain ⟨_, hkind, h⟩ := bind_eq_ok.mp h
    cases h
    rw [decodeRecordKind_eq_ok.mp hkind]
    exact .recordGroup (checkRecordId_eq_ok.mpr ⟨hne, hlen⟩)
  · intro h
    cases h with
    | @recordGroup _ _ hid =>
      obtain ⟨hne, hlen⟩ := checkRecordId_eq_ok.mp hid
      refine ⟨_, scanEscapedTerminated_escapeTerminated hlen, ?_⟩
      rw [scannedId_eq, if_neg hne, drop_left, decodeRecordKind_eq_ok.mpr rfl]
      rfl

lemma decodeKind_eq_ok {kind : Byte} :
    decodeKind types index kind rest = .ok k ↔ IndexWord index k kind rest ∧ k.Conforms types := by
  constructor
  · intro h
    rw [decodeKind] at h
    split_ifs at h with h7 h6 h5 h0 h1 h3 h4
    · cases h
      rw [h7.1, h7.2]
      exact ⟨.buildValidation, trivial⟩
    · cases h
      rw [h6.1, h6.2]
      exact ⟨.buildLoad, trivial⟩
    · cases h
      rw [h5.1, h5.2]
      exact ⟨.buildDescriptor, trivial⟩
    · cases h
      rw [h0.1, h0.2]
      exact ⟨.manifest, trivial⟩
    · rw [h1]
      have hword := decodeRecordGroup_eq_ok.mp h
      refine ⟨hword, ?_⟩
      cases hword
      trivial
    · obtain ⟨⟨⟩, hcheck, h⟩ := bind_eq_ok.mp h
      cases h
      rw [h3]
      exact ⟨.treeManifest, IsTreeKey.eq.mpr (checkComplete_eq_ok.mp hcheck)⟩
    · rw [h4]
      exact decodePartitionKey_eq_ok.mp h
  · rintro ⟨hword, hconforms⟩
    cases hword with
    | recordGroup hid =>
      rw [decodeKind, if_neg (by simp), if_neg (by simp), if_neg (by simp), if_neg (by simp),
        if_pos rfl]
      exact decodeRecordGroup_eq_ok.mpr (.recordGroup hid)
    | treeManifest =>
      rw [decodeKind, if_neg (by simp), if_neg (by simp), if_neg (by simp), if_neg (by simp),
        if_neg (by decide), if_pos rfl, checkComplete_eq_ok.mpr (IsTreeKey.eq.mp hconforms)]
      rfl
    | partition hterminal =>
      rw [decodeKind, if_neg (by simp), if_neg (by simp), if_neg (by simp), if_neg (by simp),
        if_neg (by decide), if_neg (by decide), if_pos rfl]
      exact decodePartitionKey_eq_ok.mpr ⟨.partition hterminal, hconforms⟩
    | _ => rfl

lemma decodeIndexKey_eq_ok :
    decodeIndexKey types body = .ok k ↔ (∃ index kind rest, IndexWord index k kind rest ∧
        body = bigEndian 8 index.val ++ kind :: rest) ∧ k.Conforms types := by
  simp only [decodeIndexKey, bind_eq_ok]
  constructor
  · rintro ⟨_, hraw, index, hindex, h⟩
    obtain ⟨hlen, tail, rfl⟩ := takeArray_eq_ok.mp hraw
    rw [← hlen, drop_left] at h
    cases tail with
    | nil => cases h
    | cons kind rest =>
      obtain ⟨hword, hconforms⟩ := decodeKind_eq_ok.mp h
      rw [(decodeId_eq_ok hlen).mp hindex]
      exact ⟨⟨index, kind, rest, hword, rfl⟩, hconforms⟩
  · rintro ⟨⟨index, _, _, hword, rfl⟩, hconforms⟩
    refine ⟨bigEndian 8 index.val, takeArray_eq_ok.mpr ⟨length_bigEndian _ _, _, rfl⟩, index,
      (decodeId_eq_ok (length_bigEndian _ _)).mpr rfl, ?_⟩
    rw [List.drop_left' (length_bigEndian _ _)]
    exact decodeKind_eq_ok.mpr ⟨hword, hconforms⟩

lemma conforms_of_index?_none (h : k.index? = none) : k.Conforms types := by
  cases k with
  | treeManifest | partition => cases h
  | _ => trivial

lemma decodeKey_eq_ok {types : List DataType} {bytes : Bytes} {k : Key} :
    decodeKey types bytes = .ok k ↔ encodeKey k = .ok bytes ∧ k.Conforms types := by
  constructor
  · intro h
    cases bytes with
    | nil => cases h
    | cons _ _ =>
      rw [decodeKey] at h
      split_ifs at h with h0 h1
      · rw [h0]
        have hencode := decodeNamespaceKey_eq_ok.mp h
        refine ⟨hencode, ?_⟩
        rcases encodeKey_cases hencode with ⟨hnone, _⟩ | ⟨index, kind, rest, _, hbytes⟩
        · exact conforms_of_index?_none hnone
        · simp [indexPrefix] at hbytes
      · obtain ⟨⟨index, kind, rest, hword, rfl⟩, hconforms⟩ := decodeIndexKey_eq_ok.mp h
        rw [h1]
        exact ⟨hword.encodeKey, hconforms⟩
  · rintro ⟨hencode, hconforms⟩
    rcases encodeKey_cases hencode with ⟨_, _, rfl⟩ | ⟨index, kind, rest, hword, rfl⟩
    · rw [decodeKey, if_pos rfl]
      exact decodeNamespaceKey_eq_ok.mpr hencode
    · rw [indexPrefix, cons_append, decodeKey, if_neg (by decide), if_pos rfl]
      exact decodeIndexKey_eq_ok.mpr ⟨⟨index, kind, rest, hword, rfl⟩, hconforms⟩

end KeySpace
