/-
The ranges of the logical key space.

A range runs from a prefix to its byte successor, so it holds exactly the keys
that begin with the prefix.  Inside an index a prefix names the kind, the Tree
Key, the partition and the subkind one after the other, and each of them is
matched as a whole: it has a fixed width or delimits itself.

* `rangeOf_contains` — the range of a prefix;
* `indexRange_contains`, `partitionRange_contains`,
  `partitionSubkindRange_contains`, `treeManifestPrefixRange_contains` — the keys
  of each range;
* `keySpace_faithful` — **the key space is a faithful code with exact ranges**.
-/
import Ktann.Lib.PrefixRange
import Ktann.Storage.KeySpace
import Ktann.Storage.TreeKeyOrder

open List (cons_prefix_cons nil_prefix)

namespace KeySpace

/-! ### Ranges of prefixes -/

variable {word bytes : Bytes} {index partition : NonZeroU64} {k : Key} {types : List DataType}
  {treeKey : TreeKey} {kind : PartitionKind} {values : List Value}

lemma exists_successorRev (h : ∃ b ∈ word, b ≠ 255) :
    ∃ tail b rest, word = tail ++ b :: rest ∧ (∀ a ∈ tail, a = 255) ∧ b ≠ 255 ∧
      successorRev word = (b + 1) :: rest := by
  induction word with
  | nil =>
    obtain ⟨b, hb, _⟩ := h
    cases hb
  | cons last word ih =>
    by_cases hlast : last = 255
    · obtain ⟨b, hb, hne⟩ := h
      rcases mem_cons.mp hb with rfl | hb
      · exact absurd hlast hne
      obtain ⟨tail, c, rest, rfl, htail, hc, hsucc⟩ := ih ⟨b, hb, hne⟩
      refine ⟨last :: tail, c, rest, rfl, ?_, hc, ?_⟩
      · intro a ha
        rcases mem_cons.mp ha with rfl | ha
        · exact hlast
        · exact htail a ha
      · rw [successorRev, if_pos hlast, hsucc]
    · exact ⟨[], last, word, rfl, by simp, hlast, by rw [successorRev, if_neg hlast]⟩

lemma byte_covBy {b : Byte} (h : b ≠ 255) : b ⋖ b + 1 := by
  have hval : (b + 1).val = b.val + 1 := by
    have hb : b.val ≠ 255 := fun heq => h (Fin.ext heq)
    have := b.isLt
    rw [Fin.val_add]
    change (b.val + 1) % 256 = b.val + 1
    omega
  refine ⟨Fin.lt_def.mpr (by omega), fun c hc hc' => ?_⟩
  rw [Fin.lt_def] at hc hc'
  omega

/-- The range of a prefix that is not all `0xFF` holds exactly the keys that begin
with it. -/
lemma rangeOf_contains {key : Bytes} (h : ∃ b ∈ word, b ≠ 255) :
    (rangeOf word).Contains key ↔ word <+: key := by
  obtain ⟨tail, b, rest, hrev, htail, hb, hsucc⟩ :=
    @exists_successorRev word.reverse (by simpa using h)
  have hword : word = rest.reverse ++ b :: tail.reverse := by
    rw [← List.reverse_reverse word, hrev]
    simp
  have hstop : successor word = rest.reverse ++ [b + 1] := by
    rw [successor, hsucc, List.reverse_cons]
  rw [KeyRange.Contains, rangeOf, hstop]
  dsimp only
  rw [hword]
  refine mem_prefix_range_iff (byte_covBy hb) fun a ha c => ?_
  rw [htail a (List.mem_reverse.mp ha)]
  exact Fin.le_last c

lemma rangeOf_indexPrefix_contains {key : Bytes} :
    (rangeOf (indexPrefix index ++ word)).Contains key ↔ indexPrefix index ++ word <+: key :=
  rangeOf_contains ⟨1, mem_append_left _ mem_cons_self, by decide⟩

lemma NonZeroU64.bigEndian_inj {i j : NonZeroU64} :
    bigEndian 8 i.val = bigEndian 8 j.val ↔ i = j := by
  constructor
  · intro h
    have hval := congrArg fromBigEndian h
    rw [fromBigEndian_bigEndian, fromBigEndian_bigEndian, Nat.mod_eq_of_lt i.lt_pow,
      Nat.mod_eq_of_lt j.lt_pow] at hval
    cases i
    cases j
    cases hval
    rfl
  · rintro rfl
    rfl

lemma indexPrefix_append_isPrefix {i j : NonZeroU64} {s t : Bytes} :
    indexPrefix i ++ s <+: indexPrefix j ++ t ↔ i = j ∧ s <+: t := by
  have hlen : (indexPrefix i).length = (indexPrefix j).length := by
    rw [indexPrefix, indexPrefix, length_cons, length_cons, length_bigEndian, length_bigEndian]
  rw [isPrefix_append_of_length hlen, indexPrefix, indexPrefix, List.cons.injEq,
    NonZeroU64.bigEndian_inj]
  simp only [true_and]

section
variable (h : encodeKey k = .ok bytes)
include h

lemma isPrefix_encodeKey : indexPrefix index ++ word <+: bytes ↔
      ∃ kind rest, IndexWord index k kind rest ∧ word <+: kind :: rest := by
  constructor
  · intro hprefix
    rcases encodeKey_cases h with ⟨_, _, rfl⟩ | ⟨j, kind, rest, hword, rfl⟩
    · -- the scope tags differ
      rw [indexPrefix, cons_append, cons_prefix_cons] at hprefix
      exact absurd hprefix.1 (by decide)
    · obtain ⟨rfl, hrest⟩ := indexPrefix_append_isPrefix.mp hprefix
      exact ⟨kind, rest, hword, hrest⟩
  · rintro ⟨_, _, hword, hprefix⟩
    rw [hword.encodeKey] at h
    cases h
    exact indexPrefix_append_isPrefix.mpr ⟨rfl, hprefix⟩

lemma indexRange_contains : (indexRange index).Contains bytes ↔ k.index? = some index := by
  have hrange := @rangeOf_indexPrefix_contains [] index bytes
  rw [append_nil] at hrange
  have hprefix := @isPrefix_encodeKey [] bytes index k h
  rw [append_nil] at hprefix
  rw [indexRange, hrange, hprefix]
  constructor
  · rintro ⟨kind, rest, hword, _⟩
    exact hword.index?
  · intro hindex
    rcases encodeKey_cases h with ⟨hnone, _⟩ | ⟨j, kind, rest, hword, _⟩
    · rw [hnone] at hindex
      cases hindex
    · have hj := hword.index?
      rw [hindex] at hj
      cases hj
      exact ⟨kind, rest, hword, nil_prefix⟩

lemma isPrefix_partition (htree : IsTreeKey types treeKey)
    (hconforms : k.index? = some index → k.Conforms types) :
    partitionPrefix index treeKey partition ++ word <+: bytes ↔
      ∃ kind terminal, k = .partition index treeKey partition kind ∧
        kind.terminal = .ok terminal ∧ word <+: kind.tag :: terminal := by
  rw [partitionPrefix, append_assoc, cons_append, isPrefix_encodeKey h]
  constructor
  · rintro ⟨_, _, hword, hprefix⟩
    obtain ⟨htag, hrest⟩ := cons_prefix_cons.mp hprefix
    subst htag
    have hk := hconforms hword.index?
    cases hword with
    | @partition _ _ kind terminal hterminal =>
      obtain ⟨_, _, hvalues⟩ := IsTreeKey.eq.mp htree
      obtain ⟨_, _, hvalues'⟩ := IsTreeKey.eq.mp hk
      -- the Tree Keys delimit themselves, the partition keys have a fixed width
      obtain ⟨o, _, hdelimited⟩ := delimited_appendFields hvalues hvalues'
      rw [append_assoc, hdelimited.isPrefix_append, isPrefix_append_of_length
        (by rw [length_bigEndian, length_bigEndian]), NonZeroU64.bigEndian_inj] at hrest
      obtain ⟨rfl, rfl, hsuffix⟩ := hrest
      exact ⟨kind, terminal, rfl, hterminal, hsuffix⟩
  · rintro ⟨_, _, rfl, hterminal, hprefix⟩
    refine ⟨4, _, .partition hterminal, cons_prefix_cons.mpr ⟨rfl, ?_⟩⟩
    rw [append_assoc]
    exact (List.prefix_append_right_inj _).mpr ((List.prefix_append_right_inj _).mpr hprefix)

end

section

variable (h : encodeKey k = .ok bytes) (htree : IsTreeKey types treeKey)
  (hconforms : k.index? = some index → k.Conforms types)

include h htree hconforms

lemma partitionRange_contains : (partitionRange index treeKey partition).Contains bytes ↔
      ∃ kind, k = .partition index treeKey partition kind := by
  have hprefix := @isPrefix_partition [] bytes index partition k types treeKey h htree hconforms
  rw [append_nil] at hprefix
  rw [partitionRange, partitionPrefix, rangeOf_indexPrefix_contains, ← partitionPrefix, hprefix]
  constructor
  · rintro ⟨kind, terminal, hk, _⟩
    exact ⟨kind, hk⟩
  · rintro ⟨kind, rfl⟩
    obtain ⟨terminal, hterminal, _⟩ := bind_eq_ok.mp h
    exact ⟨kind, terminal, rfl, hterminal, nil_prefix⟩

lemma partitionSubkindRange_contains {subkind : Byte} :
    (partitionSubkindRange index treeKey partition subkind).Contains bytes ↔
      ∃ kind, k = .partition index treeKey partition kind ∧ kind.tag = subkind := by
  have hprefix := @isPrefix_partition [subkind] bytes index partition k types treeKey h htree
    hconforms
  have hrange := @rangeOf_indexPrefix_contains
    (4 :: (treeKey ++ bigEndian 8 partition.val) ++ [subkind]) index bytes
  rw [← append_assoc] at hrange
  rw [partitionSubkindRange, partitionPrefix, hrange, ← partitionPrefix, hprefix]
  constructor
  · rintro ⟨kind, terminal, hk, _, htag⟩
    exact ⟨kind, hk, (cons_prefix_cons.mp htag).1.symm⟩
  · rintro ⟨kind, rfl, rfl⟩
    obtain ⟨terminal, hterminal, _⟩ := bind_eq_ok.mp h
    exact ⟨kind, terminal, rfl, hterminal, cons_prefix_cons.mpr ⟨rfl, nil_prefix⟩⟩

end

lemma PartitionKind.tag_eq_leafEntry : kind.tag = 4 ↔ ∃ id, kind = .leafEntry id := by
  cases kind <;> simp [tag]

lemma PartitionKind.tag_eq_childEntry : kind.tag = 5 ↔ ∃ child, kind = .childEntry child := by
  cases kind <;> simp [tag]

lemma PartitionKind.tag_eq_graphChunk : kind.tag = 7 ↔ ∃ chunk, kind = .graphChunk chunk := by
  cases kind <;> simp [tag]

/-! ### Tree Manifests by their leading fields -/

lemma appendFields_length (h : appendFields types values = .ok word) :
    types.length = values.length := by
  rw [appendFields] at h
  split_ifs at h with hlen
  exact hlen

lemma appendFields_append {ts us : List DataType} : appendFields (ts ++ us) values = .ok word ↔
      ∃ vs ws a b, values = vs ++ ws ∧ appendFields ts vs = .ok a ∧ appendFields us ws = .ok b ∧
        word = a ++ b := by
  induction ts generalizing values word with
  | nil =>
    constructor
    · intro h
      exact ⟨[], values, [], word, rfl, appendFields_nil.mpr ⟨rfl, rfl⟩, h, rfl⟩
    · rintro ⟨vs, ws, a, b, rfl, hvs, hws, rfl⟩
      obtain ⟨rfl, rfl⟩ := appendFields_nil.mp hvs
      exact hws
  | cons _ _ ih =>
    rw [cons_append, appendFields_cons]
    constructor
    · rintro ⟨v, _, a, b, rfl, hv, hrest, rfl⟩
      obtain ⟨vs, ws, c, d, rfl, hvs, hws, rfl⟩ := ih.mp hrest
      exact ⟨v :: vs, ws, a ++ c, d, rfl, appendFields_cons.mpr ⟨v, vs, a, c, rfl, hv, hvs, rfl⟩,
        hws, (append_assoc ..).symm⟩
    · rintro ⟨vs, ws, a, b, rfl, hvs, hws, rfl⟩
      obtain ⟨v, vs, c, d, rfl, hv, hvs', rfl⟩ := appendFields_cons.mp hvs
      exact ⟨v, vs ++ ws, c, d ++ b, rfl, hv, ih.mpr ⟨vs, ws, d, b, rfl, hvs', hws, rfl⟩,
        append_assoc ..⟩

lemma appendFields_inj {vs ws : List Value} (hvs : appendFields types vs = .ok word)
    (hws : appendFields types ws = .ok word) : vs = ws := by
  have hv := decodeFieldsFrom_eq_ok.mpr ⟨_, (Nat.zero_add _).symm, begins_length.mpr hvs⟩
  have hw := decodeFieldsFrom_eq_ok.mpr ⟨_, (Nat.zero_add _).symm, begins_length.mpr hws⟩
  rw [hv] at hw
  cases hw
  rfl

lemma appendFields_take_isPrefix {fields : List Value} {treeKey : Bytes}
    (hword : appendFields (types.take values.length) values = .ok word)
    (htree : appendFields types fields = .ok treeKey) : word <+: treeKey ↔ values <+: fields := by
  have hsplit := htree
  rw [← take_append_drop values.length types, appendFields_append] at hsplit
  obtain ⟨vs, ws, a, b, rfl, hvs, hws, rfl⟩ := hsplit
  have hlen : values.length = vs.length := by
    rw [← appendFields_length hword, appendFields_length hvs]
  obtain ⟨o, _, hdelimited⟩ := delimited_appendFields hword hvs
  have hbytes := @Delimited.isPrefix_append _ _ o word a [] b hdelimited
  have hvalues : values <+: vs ++ ws ↔ values = vs := by
    constructor
    · intro h
      exact (List.prefix_of_prefix_length_le h (List.prefix_append vs ws) hlen.le).eq_of_length hlen
    · rintro rfl
      exact List.prefix_append _ _
  rw [append_nil] at hbytes
  rw [hbytes, hvalues]
  constructor
  · rintro ⟨rfl, _⟩
    exact appendFields_inj hword hvs
  · rintro rfl
    rw [hword] at hvs
    cases hvs
    exact ⟨rfl, nil_prefix⟩

lemma appendFields_of_encode {fields : List Value}
    (h : TreeKey.encode types fields = .ok treeKey) : appendFields types fields = .ok treeKey := by
  obtain ⟨_, hbytes, h⟩ := bind_eq_ok.mp h
  split_ifs at h
  cases h
  exact hbytes

lemma isPrefix_treeManifest (h : encodeKey k = .ok bytes) :
    indexPrefix index ++ 3 :: word <+: bytes ↔
      ∃ treeKey, k = .treeManifest index treeKey ∧ word <+: treeKey := by
  rw [isPrefix_encodeKey h]
  constructor
  · rintro ⟨_, rest, hword, hprefix⟩
    obtain ⟨htag, hrest⟩ := cons_prefix_cons.mp hprefix
    subst htag
    cases hword with
    | treeManifest => exact ⟨rest, rfl, hrest⟩
  · rintro ⟨treeKey, rfl, hprefix⟩
    exact ⟨3, treeKey, .treeManifest, cons_prefix_cons.mpr ⟨rfl, hprefix⟩⟩

lemma treeManifestPrefixRange_contains {range : KeyRange} (h : encodeKey k = .ok bytes)
    (hconforms : k.index? = some index → k.Conforms types)
    (hrange : treeManifestPrefixRange index types values = .ok range) :
    range.Contains bytes ↔ ∃ treeKey fields, k = .treeManifest index treeKey ∧
      TreeKey.encode types fields = .ok treeKey ∧ values <+: fields := by
  rw [treeManifestPrefixRange] at hrange
  split_ifs at hrange
  obtain ⟨_, hword, hrange⟩ := bind_eq_ok.mp hrange
  cases hrange
  rw [rangeOf_indexPrefix_contains, isPrefix_treeManifest h]
  constructor
  · rintro ⟨treeKey, rfl, hprefix⟩
    obtain ⟨fields, hfields⟩ := hconforms rfl
    refine ⟨treeKey, fields, rfl, hfields, ?_⟩
    exact (appendFields_take_isPrefix hword (appendFields_of_encode hfields)).mp hprefix
  · rintro ⟨treeKey, _, rfl, hfields, hprefix⟩
    exact ⟨treeKey, rfl,
      (appendFields_take_isPrefix hword (appendFields_of_encode hfields)).mpr hprefix⟩

/-! ### Main result -/

/-- The Record ID of a key, if it has one, is within its length limits. -/
def Key.RecordIdValid : Key → Prop
  | .recordGroup _ id _ => id ≠ [] ∧ id.length ≤ maxRecordIdBytes
  | .partition _ _ _ (.leafEntry id) => id ≠ [] ∧ id.length ≤ maxRecordIdBytes
  | _ => True

lemma encodeKey_isOk : (∃ bytes, encodeKey k = .ok bytes) ↔ k.RecordIdValid := by
  cases k with
  | recordGroup _ id kind =>
    simp [encodeKey, recordGroupPrefix, bind_eq_ok, ← checkRecordId_eq_ok,
      Key.RecordIdValid, Unique.exists_iff]
  | partition _ _ _ kind =>
    cases kind with
    | leafEntry _ =>
      simp [encodeKey, PartitionKind.terminal, bind_eq_ok, ← checkRecordId_eq_ok,
        Key.RecordIdValid, Unique.exists_iff]
    | _ => exact ⟨fun _ => trivial, fun _ => ⟨_, rfl⟩⟩
  | _ => exact ⟨fun _ => trivial, fun _ => ⟨_, rfl⟩⟩

/-- The logical key space is a faithful code with exact ranges.  Keys of the index
of a range conform to its field types; keys of other indexes may have any. -/
theorem keySpace_faithful (types : List DataType) :
    (∀ k, (∃ bytes, encodeKey k = .ok bytes) ↔ k.RecordIdValid) ∧
    (∀ k bytes, k.Conforms types → encodeKey k = .ok bytes → decodeKey types bytes = .ok k) ∧
    (∀ k bytes, decodeKey types bytes = .ok k → encodeKey k = .ok bytes ∧ k.Conforms types) ∧
    (∀ k k' bytes, k.Conforms types → k'.Conforms types → encodeKey k = .ok bytes →
      encodeKey k' = .ok bytes → k = k') ∧
    (∀ k bytes index, encodeKey k = .ok bytes → (k.index? = some index → k.Conforms types) →
      ((indexRange index).Contains bytes ↔ k.index? = some index) ∧
      ((treeManifestRange index).Contains bytes ↔ ∃ treeKey, k = .treeManifest index treeKey) ∧
      (∀ values range, treeManifestPrefixRange index types values = .ok range →
        (range.Contains bytes ↔ ∃ treeKey fields, k = .treeManifest index treeKey ∧
          TreeKey.encode types fields = .ok treeKey ∧ values <+: fields)) ∧
      ∀ treeKey partition, IsTreeKey types treeKey →
        ((partitionRange index treeKey partition).Contains bytes ↔
          ∃ kind, k = .partition index treeKey partition kind) ∧
        ((leafEntryRange index treeKey partition).Contains bytes ↔
          ∃ id, k = .partition index treeKey partition (.leafEntry id)) ∧
        ((childEntryRange index treeKey partition).Contains bytes ↔
          ∃ child, k = .partition index treeKey partition (.childEntry child)) ∧
        ((graphChunkRange index treeKey partition).Contains bytes ↔
          ∃ chunk, k = .partition index treeKey partition (.graphChunk chunk))) := by
  refine ⟨fun k => encodeKey_isOk, ?_, ?_, ?_, ?_⟩
  · intro k bytes hconforms hencode
    exact decodeKey_eq_ok.mpr ⟨hencode, hconforms⟩
  · intro k bytes h
    exact decodeKey_eq_ok.mp h
  · intro k k' bytes hk hk' hencode hencode'
    have h := (@decodeKey_eq_ok types bytes k).mpr ⟨hencode, hk⟩
    rw [decodeKey_eq_ok.mpr ⟨hencode', hk'⟩] at h
    cases h
    rfl
  · intro k _ _ h hconforms
    refine ⟨indexRange_contains h, ?_, ?_, ?_⟩
    · rw [treeManifestRange, rangeOf_indexPrefix_contains, isPrefix_treeManifest h]
      simp only [and_true, nil_prefix]
    · intro _ _ hrange
      exact treeManifestPrefixRange_contains h hconforms hrange
    · intro _ _ htree
      refine ⟨partitionRange_contains h htree hconforms, ?_, ?_, ?_⟩
      · rw [leafEntryRange, partitionSubkindRange_contains h htree hconforms]
        simp only [PartitionKind.tag_eq_leafEntry]
        exact ⟨fun ⟨_, hk, id, hid⟩ => ⟨id, hid ▸ hk⟩, fun ⟨id, hk⟩ => ⟨_, hk, id, rfl⟩⟩
      · rw [childEntryRange, partitionSubkindRange_contains h htree hconforms]
        simp only [PartitionKind.tag_eq_childEntry]
        exact ⟨fun ⟨_, hk, c, hc⟩ => ⟨c, hc ▸ hk⟩, fun ⟨c, hk⟩ => ⟨_, hk, c, rfl⟩⟩
      · rw [graphChunkRange, partitionSubkindRange_contains h htree hconforms]
        simp only [PartitionKind.tag_eq_graphChunk]
        exact ⟨fun ⟨_, hk, c, hc⟩ => ⟨c, hc ▸ hk⟩, fun ⟨c, hk⟩ => ⟨_, hk, c, rfl⟩⟩

/-- A Leaf Entry of the greatest partition identity, whose prefix ends in `0xFF`
bytes, in a tree with a Boolean field. -/
theorem keySpace_faithful_last_partition :
    decodeKey [.bool] ((indexPrefix ⟨7, by decide, by decide⟩ ++
        4 :: ([1] ++ List.replicate 8 255)) ++ [4, 9]) =
      .ok (.partition ⟨7, by decide, by decide⟩ [1] ⟨u64Bound - 1, by decide, by decide⟩
        (.leafEntry [9])) :=
  (keySpace_faithful [.bool]).2.1 _ _ ⟨[.bool true], rfl⟩ rfl

end KeySpace
