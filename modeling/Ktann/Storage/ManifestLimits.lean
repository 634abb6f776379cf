/-
The size limits of a configuration and of its Manifest.

Both bound an encoded Partition Synopsis by 64 KiB.  The schema counts two bytes a field
beside its extrema; the codec writes one, three in front, and four before a Bloom
summary.

* `schemaLoop_spec` — the Manifest's sum, field by field;
* `manifest_validate` — which accepted configurations can be created, and
  `manifest_rejected` is one that cannot.
-/
import Ktann.Storage.BigEndian

/-- The greatest length of an encoded Partition Synopsis. -/
def maxSynopsisBytes : ℕ := 65536

def maxBloomFields : ℕ := 4

/-! ### The configuration -/

/-- How a field is summarised.  `shape` is the summary that the expected number of
values and the false-positive rate derive, `none` when they are rejected. -/
inductive SynopsisConfig
  | minMax
  | minMaxBloom (shape : Option BloomParameters)

namespace SynopsisConfig

def bloomShape : SynopsisConfig → Except Error (Option BloomParameters)
  | minMax => .ok none
  | minMaxBloom (some shape) => .ok (some shape)
  | minMaxBloom none => .error .invalidArgument

def bloomBytes (c : SynopsisConfig) : Except Error ℕ := do
  let shape ← c.bloomShape
  .ok (shape.elim 0 BloomParameters.byteCount)

def bloomFields : SynopsisConfig → ℕ
  | minMax => 0
  | minMaxBloom _ => 1

end SynopsisConfig

def BloomParameters.derive (c : SynopsisConfig) : Except Error (Option BloomParameters) := do
  let shape ← c.bloomShape
  if shape.any fun p => maxSynopsisBytes < p.byteCount then .error .invalidArgument else .ok shape

open BloomParameters (derive byteCount)

structure ConfigField extends FieldSchema where
  synopsis : SynopsisConfig

structure IndexConfig where
  dimension : ℕ
  fields : List ConfigField
  treeKeyFields : List ℕ
  minLeafPartitionEntries : ℕ
  maxLeafPartitionEntries : ℕ
  minInternalPartitionEntries : ℕ
  maxInternalPartitionEntries : ℕ

def encodedValueBytes : DataType → ℕ
  | .string => maxStringBytes + 5
  | .bool => 2
  | .i64 => 9
  | .f64 => 9

def schemaLoop (names : List String) (blooms bytes : ℕ) : List ConfigField → Except Error (ℕ × ℕ)
  | [] => .ok (blooms, bytes)
  | f :: rest =>
    if f.name ∈ names then .error .invalidArgument
    else do
      let bloomBytes ← f.synopsis.bloomBytes
      schemaLoop (f.name :: names) (blooms + f.synopsis.bloomFields)
        (bytes + (2 + 2 * encodedValueBytes f.dataType + bloomBytes)) rest

def treeKeyLoop (fields : List ConfigField) (seen : List ℕ) (bytes : ℕ) : List ℕ → Except Error ℕ
  | [] => .ok bytes
  | i :: rest =>
    if i ∈ seen then .error .invalidArgument
    else
      match fields[i]? with
      | none => .error .invalidArgument
      | some f =>
        if f.nullable then .error .invalidArgument
        else treeKeyLoop fields (i :: seen) (bytes + encodedFieldBytes f.dataType) rest

def validatePartitionEntries (minimum maximum : ℕ) : Except Error Unit :=
  if minimum = 0 ∨ maximum < 2 * minimum ∨ maxPartitionEntries < maximum then
    .error .invalidArgument
  else .ok ()

namespace IndexConfig

variable (c : IndexConfig)

def schema : List FieldSchema := c.fields.map (·.toFieldSchema)

def validateSchema : Except Error Unit :=
  if maxFields < c.fields.length then .error .invalidArgument
  else do
    let (blooms, bytes) ← schemaLoop [] 0 0 c.fields
    if maxBloomFields < blooms ∨ maxSynopsisBytes < bytes then .error .invalidArgument else .ok ()

def validateTreeKeyFields : Except Error Unit := do
  let bytes ← treeKeyLoop c.fields [] 0 c.treeKeyFields
  if maxTreeKeyBytes < bytes then .error .invalidArgument else .ok ()

/-- Every immutable and cross-field invariant. -/
def validate : Except Error Unit :=
  if c.dimension = 0 ∨ 16384 < c.dimension then .error .invalidArgument
  else if 16384 < c.maxInternalPartitionEntries ∨ 128 < c.minInternalPartitionEntries then
    .error .invalidArgument
  else do
    c.validateSchema
    c.validateTreeKeyFields
    validatePartitionEntries c.minLeafPartitionEntries c.maxLeafPartitionEntries
    validatePartitionEntries c.minInternalPartitionEntries c.maxInternalPartitionEntries

end IndexConfig

/-! ### The Manifest -/

def maximumTypedValueLen : DataType → ℕ
  | .bool => 2
  | .i64 => 9
  | .f64 => 9
  | .string => 1 + 4 + maxStringBytes

/-- The greatest encoded length of one field synopsis. -/
def maximumFieldLen (field : FieldSchema) (parameters : Option BloomParameters) : ℕ :=
  1 + 2 * maximumTypedValueLen field.dataType + parameters.elim 0 fun p => 4 + p.byteCount

def maximumSynopsisEncodedLen (fields : List FieldSchema)
    (parameters : List (Option BloomParameters)) : ℕ :=
  1 + 2 + (List.zipWith maximumFieldLen fields parameters).sum

/-- The comparison of the stored parameters with the derived ones. -/
def validateParameters : List ConfigField → List (Option BloomParameters) → Except Error Unit
  | f :: fields, p :: parameters => do
    let derived ← derive f.synopsis
    if derived = p then validateParameters fields parameters else .error .invalidArgument
  | _, _ => .ok ()

def IndexManifest.validate (c : IndexConfig) (parameters : List (Option BloomParameters)) :
    Except Error Unit := do
  c.validate
  if parameters.length ≠ c.fields.length then .error .invalidArgument
  else do
    validateParameters c.fields parameters
    if maxSynopsisBytes < maximumSynopsisEncodedLen c.schema parameters then
      .error .invalidArgument
    else .ok ()

/-- What one field can take in a stored synopsis: its flags, two extrema of its type and a
Bloom summary with its length. -/
def ConfigField.storedBytes (f : ConfigField) : ℕ :=
  1 + 2 * (match f.dataType with
    | .bool => 2
    | .i64 | .f64 => 9
    | .string => maxStringBytes + 5) +
  match f.synopsis with
  | .minMaxBloom (some shape) => 4 + shape.byteCount
  | _ => 0

lemma maximumFieldLen_eq {f : ConfigField} {shape : Option BloomParameters}
    (h : f.synopsis.bloomShape = .ok shape) :
    maximumFieldLen f.toFieldSchema shape = f.storedBytes := by
  have hvalue : maximumTypedValueLen f.dataType = match f.dataType with
      | .bool => 2
      | .i64 | .f64 => 9
      | .string => maxStringBytes + 5 := by
    cases f.dataType <;> rfl
  rw [maximumFieldLen, hvalue, ConfigField.storedBytes]
  rcases hc : f.synopsis with _ | (_ | q) <;> rw [hc] at h <;> cases h <;> rfl

/-- The derived parameters pass their comparison, and the Manifest's sum counts each field
by what it can take. -/
lemma schemaLoop_spec {fields : List ConfigField} : ∀ {names : List String}
    {b n blooms bytes : ℕ},
    schemaLoop names b n fields = .ok (blooms, bytes) → bytes ≤ maxSynopsisBytes →
    ∃ ps, fields.mapM (fun f => derive f.synopsis) = .ok ps ∧
      validateParameters fields ps = .ok () ∧ n ≤ bytes ∧
      List.zipWith maximumFieldLen (fields.map (·.toFieldSchema)) ps =
        fields.map ConfigField.storedBytes := by
  induction fields with
  | nil =>
    intro names b n blooms bytes hok _
    cases hok
    exact ⟨[], rfl, rfl, le_rfl, rfl⟩
  | cons f _ ih =>
    intro _ b n _ _ hok hle
    rw [schemaLoop] at hok
    split_ifs at hok
    obtain ⟨_, hbloom, hok⟩ := bind_eq_ok.mp hok
    obtain ⟨shape, hshape, hbytes⟩ := bind_eq_ok.mp hbloom
    cases hbytes
    obtain ⟨ps, hps, hvalid, hmono, hsums⟩ := ih hok hle
    -- a summary the schema has room for is within the limit of one summary
    have hderive : derive f.synopsis = .ok shape := by
      refine bind_eq_ok.mpr ⟨shape, hshape, if_neg ?_⟩
      cases shape <;> simp_all
      omega
    refine ⟨shape :: ps, mapM_eq_ok.mpr (.cons hderive (mapM_eq_ok.mp hps)), ?_, by omega, ?_⟩
    · exact bind_eq_ok.mpr ⟨shape, hderive, by rw [if_pos rfl, hvalid]⟩
    · rw [map_cons, List.zipWith_cons_cons, maximumFieldLen_eq hshape, hsums, map_cons]

/-! ### The synopsis codec -/

/-- The bytes of a Bloom summary, lowest bit first. -/
def packBits (bits : List Bool) : Bytes :=
  (List.range (bits.length / 8)).map fun i => Fin.ofNat 256
    ((List.range 8).map fun j => if bits.getD (8 * i + j) false then 2 ^ j else 0).sum

def encodeTypedValue (field : FieldSchema) (v : Value) : Except Error Bytes :=
  if v = .null ∧ field.nullable ∨ v.InDomain field.dataType then .ok (typedValueBytes v)
  else .error .invalidArgument

def encodeExtrema (field : FieldSchema) (s : FieldSynopsis) : Except Error Bytes :=
  match s.minimum, s.maximum with
  | some minimum, some maximum => do
    let low ← encodeTypedValue field minimum
    let high ← encodeTypedValue field maximum
    .ok (low ++ high)
  | _, _ => .ok []

def encodeBloom (s : FieldSynopsis) : Option BloomParameters → Except Error Bytes
  | none => .ok []
  | some p =>
    match s.bloom with
    | none => .error .invalidArgument
    | some bits =>
      if p.byteCount < (packBits bits).length then .error .invalidArgument
      else .ok (bigEndian 4 (packBits bits).length ++ packBits bits)

/-- The flags, the extrema and the Bloom summary of each field. -/
def encodeFields : List FieldSynopsis → List FieldSchema → List (Option BloomParameters) →
    Except Error Bytes
  | s :: ss, field :: fields, p :: ps => do
    let flags : Fin 256 := (if s.hasNull then 1 else 0) + (if s.minimum.isSome then 2 else 0)
    let extrema ← encodeExtrema field s
    let bloom ← encodeBloom s p
    let rest ← encodeFields ss fields ps
    .ok (flags :: extrema ++ bloom ++ rest)
  | _, _, _ => .ok []

/-- Whether a Bloom summary agrees with the extrema beside it. -/
def bloomAgrees (ix : Index) (s : FieldSynopsis) (parameters : Option BloomParameters) : Bool :=
  match s.bloom, parameters with
  | some bits, some _ =>
    bits.any id == s.minimum.isSome && s.minimum.all (s.bloomMightContain ix · parameters) &&
      s.maximum.all (s.bloomMightContain ix · parameters)
  | _, _ => true

def validateSynopsis (ix : Index) (s : PartitionSynopsis) : Bool :=
  s.hasShapeFor ix && (List.zipWith (bloomAgrees ix) s.fields ix.bloomParameters).all id

/-- The stored form of a synopsis, with its tag. -/
def encodePartitionSynopsis (ix : Index) (s : PartitionSynopsis) : Except Error Bytes :=
  if !validateSynopsis ix s then .error .invalidArgument
  else do
    let fields ← encodeFields s.fields ix.fields ix.bloomParameters
    let bytes := 0x0b :: bigEndian 2 ix.fields.length ++ fields
    if maxSynopsisBytes < bytes.length then .error .invalidArgument else .ok bytes

lemma length_typedValueBytes {t : DataType} {v : Value} (h : v.InDomain t) :
    (typedValueBytes v).length ≤ maximumTypedValueLen t := by
  cases v <;> cases t <;> simp_all [Value.InDomain, typedValueBytes, maximumTypedValueLen]
  omega

section
variable {s : FieldSynopsis} {field : FieldSchema} {p : Option BloomParameters}

lemma encodeExtrema_length (h : s.validate field p = true) : ∃ bytes,
    encodeExtrema field s = .ok bytes ∧ bytes.length ≤ 2 * maximumTypedValueLen field.dataType := by
  unfold FieldSynopsis.validate at h
  unfold encodeExtrema
  split
  · rename_i low high hmin hmax
    simp only [hmin, hmax, and_eq_true, decide_eq_true_eq] at h
    obtain ⟨⟨-, ⟨hlow, hhigh⟩, -⟩, -⟩ := h
    refine ⟨_, bind_eq_ok.mpr ⟨_, if_pos (.inr hlow),
      bind_eq_ok.mpr ⟨_, if_pos (.inr hhigh), rfl⟩⟩, ?_⟩
    have h₁ := length_typedValueBytes hlow
    have h₂ := length_typedValueBytes hhigh
    rw [length_append]
    omega
  · exact ⟨[], rfl, Nat.zero_le _⟩

lemma encodeBloom_length (h : s.validate field p = true) : ∃ bytes,
    encodeBloom s p = .ok bytes ∧ bytes.length = p.elim 0 fun p => 4 + p.byteCount := by
  cases p with
  | none => exact ⟨[], rfl, rfl⟩
  | some p =>
    unfold FieldSynopsis.validate at h
    cases hbloom : s.bloom with
    | none => simp [hbloom] at h
    | some bits =>
      simp only [hbloom, and_eq_true, beq_iff_eq] at h
      -- validation fixes the number of bits, so the packed form has the full size
      have hlen : (packBits bits).length = p.byteCount := by
        rw [packBits, length_map, List.length_range, h.2.1, Nat.mul_div_cancel_left _ (by decide)]
      refine ⟨bigEndian 4 (packBits bits).length ++ packBits bits, ?_, ?_⟩
      · rw [encodeBloom, hbloom]
        exact if_neg (by omega)
      · rw [length_append, length_bigEndian, hlen]
        rfl

end

lemma encodeFields_length {fields : List FieldSchema} :
    ∀ {ss : List FieldSynopsis} {ps : List (Option BloomParameters)},
      PartitionSynopsis.validateFields ss fields ps = true → ∃ bytes,
        encodeFields ss fields ps = .ok bytes ∧
        bytes.length ≤ (List.zipWith maximumFieldLen fields ps).sum := by
  induction fields with
  | nil => exact fun {ss _} _ => ⟨[], by cases ss <;> rfl, Nat.zero_le _⟩
  | cons _ _ ih =>
    intro ss ps h
    rcases ss with _ | ⟨s, _⟩
    · exact ⟨[], rfl, Nat.zero_le _⟩
    rcases ps with _ | ⟨p, _⟩
    · exact ⟨[], rfl, Nat.zero_le _⟩
    rw [PartitionSynopsis.validateFields, and_eq_true] at h
    obtain ⟨extrema, hextrema, hext⟩ := encodeExtrema_length h.1
    obtain ⟨bloom, hbloom, hbl⟩ := encodeBloom_length h.1
    obtain ⟨rest, hrest, hlen⟩ := ih h.2
    refine ⟨_, bind_eq_ok.mpr ⟨extrema, hextrema, bind_eq_ok.mpr
      ⟨bloom, hbloom, bind_eq_ok.mpr ⟨rest, hrest, rfl⟩⟩⟩, ?_⟩
    simp only [List.zipWith_cons_cons, sum_cons, length_append, length_cons, maximumFieldLen]
    omega

/-- A valid synopsis encodes within the maximum of its Manifest. -/
lemma encodePartitionSynopsis_length {ix : Index} {s : PartitionSynopsis}
    (hmax : maximumSynopsisEncodedLen ix.fields ix.bloomParameters ≤
      maxSynopsisBytes) (h : validateSynopsis ix s = true) :
    ∃ bytes, encodePartitionSynopsis ix s = .ok bytes ∧ bytes.length ≤
      maximumSynopsisEncodedLen ix.fields ix.bloomParameters := by
  have hshape := h
  simp only [validateSynopsis, PartitionSynopsis.hasShapeFor, and_eq_true] at hshape
  obtain ⟨fields, hfields, hlen⟩ := encodeFields_length hshape.1.2
  have hbytes : (0x0b :: bigEndian 2 ix.fields.length ++ fields).length ≤
      maximumSynopsisEncodedLen ix.fields ix.bloomParameters := by
    simp only [maximumSynopsisEncodedLen, length_append, length_cons, length_bigEndian]
    omega
  refine ⟨_, ?_, hbytes⟩
  rw [encodePartitionSynopsis, h]
  exact bind_eq_ok.mpr ⟨fields, hfields, if_neg (by omega)⟩

/-! ### The two limits -/

lemma validate_schemaLoop {c : IndexConfig} (hok : c.validate = .ok ()) :
    ∃ blooms bytes, schemaLoop [] 0 0 c.fields = .ok
      (blooms, bytes) ∧ bytes ≤ maxSynopsisBytes := by
  unfold IndexConfig.validate at hok
  split_ifs at hok
  obtain ⟨_, hschema, -⟩ := bind_eq_ok.mp hok
  unfold IndexConfig.validateSchema at hschema
  split_ifs at hschema
  obtain ⟨⟨blooms, bytes⟩, hloop, hlimits⟩ := bind_eq_ok.mp hschema
  refine ⟨blooms, bytes, hloop, ?_⟩
  by_contra hlt
  simp [not_le.mp hlt] at hlimits

/-- An accepted configuration can be created, and every synopsis of its Manifest stored,
exactly when what its fields can take fits one synopsis. -/
theorem manifest_validate {c : IndexConfig} (hok : c.validate = .ok ()) :
    ∃ ps, c.fields.mapM (fun f => BloomParameters.derive f.synopsis) = .ok ps ∧
      ((IndexManifest.validate c ps = .ok () ∧
        ∀ ix : Index, ix.fields = c.schema → ix.bloomParameters = ps →
          ∀ s, validateSynopsis ix s = true → ∃ bytes, encodePartitionSynopsis ix s = .ok bytes ∧
            bytes.length ≤ maximumSynopsisEncodedLen c.schema ps) ↔
      3 + (c.fields.map ConfigField.storedBytes).sum ≤ maxSynopsisBytes) := by
  obtain ⟨_, _, hloop, hle⟩ := validate_schemaLoop hok
  obtain ⟨ps, hps, hparameters, -, hsums⟩ := schemaLoop_spec hloop hle
  have hmax : maximumSynopsisEncodedLen c.schema ps =
      3 + (c.fields.map ConfigField.storedBytes).sum := by
    rw [← hsums]
    rfl
  have hlength : ¬ ps.length ≠ c.fields.length := not_not.mpr (mapM_eq_ok.mp hps).length_eq.symm
  refine ⟨ps, hps, fun ⟨hvalid, _⟩ => ?_, fun hfits => ⟨?_, ?_⟩⟩
  · obtain ⟨_, -, hvalid⟩ := bind_eq_ok.mp hvalid
    rw [if_neg hlength] at hvalid
    obtain ⟨_, -, hvalid⟩ := bind_eq_ok.mp hvalid
    by_contra hlarge
    simp [hmax, not_le.mp hlarge] at hvalid
  · refine bind_eq_ok.mpr ⟨(), hok, ?_⟩
    rw [if_neg hlength]
    exact bind_eq_ok.mpr ⟨(), hparameters, if_neg (by omega)⟩
  · rintro _ hfields rfl s hs
    rw [← hfields] at hmax ⊢
    exact encodePartitionSynopsis_length (by omega) hs

/-- One Boolean field with a Bloom summary of the given size. -/
def bloomConfig (p : BloomParameters) : IndexConfig where
  dimension := 1
  fields := [⟨⟨"flag", .bool, false⟩, .minMaxBloom (some p)⟩]
  treeKeyFields := []
  minLeafPartitionEntries := 16
  maxLeafPartitionEntries := 128
  minInternalPartitionEntries := 64
  maxInternalPartitionEntries := 16384

theorem manifest_validate_small : ∃ ps, (bloomConfig ⟨8, by decide⟩).fields.mapM
      (fun f => BloomParameters.derive f.synopsis) = .ok ps ∧
    IndexManifest.validate (bloomConfig ⟨8, by decide⟩) ps = .ok () := by
  obtain ⟨ps, hps, hvalid⟩ := @manifest_validate (bloomConfig ⟨8, by decide⟩) rfl
  exact ⟨ps, hps, (hvalid.mpr (by decide)).1⟩

/-- A summary of 65530 bytes takes all that the schema's sum may have. -/
def largeBloom : BloomParameters := ⟨524240, by decide⟩

/-- The configuration is accepted, and its Manifest is not. -/
theorem manifest_rejected : (bloomConfig largeBloom).validate = .ok () ∧
    (bloomConfig largeBloom).fields.mapM (fun f => BloomParameters.derive f.synopsis) =
      .ok [some largeBloom] ∧
    IndexManifest.validate (bloomConfig largeBloom) [some largeBloom] = .error .invalidArgument :=
  ⟨rfl, rfl, rfl⟩
