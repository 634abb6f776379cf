/-
Partition Synopses: the conservative per-leaf summaries.

A synopsis records, for each field, whether NULL was seen, the least and
greatest non-NULL value, and optionally a Bloom summary with one probe per
value.  `expand` adds one row; nothing ever removes one.

* `PartitionSynopsis.Covers` — the NULL flag, both extrema and the Bloom bit
  account for a row;
* `PartitionSynopsis.Le` — one synopsis is at least as wide as another;
* `expand_spec` — expansion covers the new row, only widens, and reports `false`
  only when it changed nothing;
* `expandAll_spec` — a synopsis covers every row it was expanded with.
-/
import Ktann.Lib.Except
import Ktann.Storage.Manifest

/-- One field's conservative synopsis state.  `bloom` holds the persisted bits,
lowest bit of the first byte first. -/
structure FieldSynopsis where
  hasNull : Bool
  minimum : Option Value
  maximum : Option Value
  bloom : Option (List Bool)
  deriving DecidableEq

/-- Conservative synopses aligned with the record schema. -/
structure PartitionSynopsis where
  fields : List FieldSynopsis
  deriving DecidableEq

/-- The wire bytes of a typed non-NULL value, which the Bloom hash reads. -/
def typedValueBytes : Value → Bytes
  | .null => [0]
  | .bool b => [1, if b then 1 else 0]
  | .i64 i => 2 :: bigEndian 8 (i.val % 2 ^ 64).toNat
  | .f64 x => 3 :: bigEndian 8 x.canonical.bits
  | .string s => 4 :: bigEndian 4 s.bytes.length ++ s.bytes

/-- The single persisted probe of a value. -/
def bloomBit (ix : Index) (v : Value) (parameters : BloomParameters) : ℕ :=
  ix.bloomHash (typedValueBytes v) % 2 ^ 64 % parameters.bitCount

namespace FieldSynopsis

def bloomMightContain (ix : Index) (s : FieldSynopsis) (v : Value)
    (parameters : Option BloomParameters) : Bool :=
  match parameters, s.bloom with
  | some parameters, some bloom => bloom.getD (bloomBit ix v parameters) false
  | _, _ => true

/-- Whether a non-NULL value replaces an extremum, which it does on the given
side of the stored one. -/
def replaces (side : Ordering) (extremum : Option Value) (v : Value) : Bool :=
  extremum.all fun stored => typedOrder v stored == some side

/-- The extremum after a non-NULL value. -/
def widen (side : Ordering) (extremum : Option Value) (v : Value) : Option Value :=
  if replaces side extremum v then some v.canonical else extremum

/-- Expand one already validated field, reporting whether it changed. -/
def expandField (ix : Index) (s : FieldSynopsis) (v : Value) (parameters : Option BloomParameters) :
    FieldSynopsis × Bool :=
  if v = .null then ({ s with hasNull := true }, !s.hasNull)
  else
    let changed := replaces .lt s.minimum v || replaces .gt s.maximum v
    match parameters, s.bloom with
    | some parameters, some bloom =>
      let bit := bloomBit ix v parameters
      (⟨s.hasNull, widen .lt s.minimum v, widen .gt s.maximum v, some (bloom.set bit true)⟩,
        changed || !bloom.getD bit false)
    -- the summary is taken out before it is matched against its parameters
    | _, _ => (⟨s.hasNull, widen .lt s.minimum v, widen .gt s.maximum v, none⟩, changed)

/-- NULL presence, typed bounds and Bloom shape against the schema. -/
def validate (s : FieldSynopsis) (field : FieldSchema) (parameters : Option BloomParameters) :
    Bool :=
  (!s.hasNull || field.nullable) &&
  (match s.minimum, s.maximum with
    | none, none => true
    | some minimum, some maximum =>
      decide (minimum.InDomain field.dataType) && decide (maximum.InDomain field.dataType) &&
        (typedOrder minimum maximum).any (· != .gt)
    | _, _ => false) &&
  (match parameters, s.bloom with
    | none, none => true
    | some parameters, some bloom =>
      bloom.length == 8 * parameters.byteCount && (bloom.drop parameters.bitCount).all (!·)
    | _, _ => false)

end FieldSynopsis

namespace PartitionSynopsis

def empty (ix : Index) : PartitionSynopsis where
  fields := ix.bloomParameters.map fun parameters =>
    ⟨false, none, none, parameters.map fun p => List.replicate (8 * p.byteCount) false⟩

/-- Whether every field summary passes its check. -/
def validateFields : List FieldSynopsis → List FieldSchema → List (Option BloomParameters) → Bool
  | s :: ss, field :: fields, p :: ps => s.validate field p && validateFields ss fields ps
  | _, _, _ => true

def hasShapeFor (ix : Index) (s : PartitionSynopsis) : Bool :=
  s.fields.length == ix.fields.length && validateFields s.fields ix.fields ix.bloomParameters

def validateProjection (row : List Value) (fields : List FieldSchema) : Bool :=
  row.length == fields.length &&
    (row.zip fields).all fun (v, field) =>
      if v = .null then field.nullable else decide (v.InDomain field.dataType)

def expandFields (ix : Index) :
    List FieldSynopsis → List Value → List (Option BloomParameters) → List FieldSynopsis × Bool
  | s :: ss, v :: vs, p :: ps =>
    let (s, changed) := s.expandField ix v p
    let (ss, rest) := expandFields ix ss vs ps
    (s :: ss, changed || rest)
  | ss, _, _ => (ss, false)

/-- Widen a synopsis by one exact row, reporting whether it changed. -/
def expand (ix : Index) (s : PartitionSynopsis) (row : List Value) :
    Except Error (PartitionSynopsis × Bool) :=
  if !s.hasShapeFor ix then .error .invalidArgument
  else if !validateProjection row ix.fields then .error .invalidArgument
  else
    let (fields, changed) := expandFields ix s.fields row ix.bloomParameters
    .ok (⟨fields⟩, changed)

/-- Widen a synopsis by several rows, first to last. -/
def expandAll (ix : Index) : PartitionSynopsis → List (List Value) → Except Error PartitionSynopsis
  | s, [] => .ok s
  | s, row :: rows => do
    let (s, _) ← s.expand ix row
    expandAll ix s rows

end PartitionSynopsis

/-! ### Coverage and growth of one field -/

namespace FieldSynopsis

variable {ix : Index} {s s' : FieldSynopsis} {v : Value} {field : FieldSchema}
  {parameters : Option BloomParameters}

/-- The summary accounts for a value: NULL by the flag, any other value by both
extrema and by its Bloom bit. -/
structure Covers (ix : Index) (parameters : Option BloomParameters) (s : FieldSynopsis)
    (v : Value) : Prop where
  null : v = .null → s.hasNull = true
  minimum : v ≠ .null → ∃ lo, s.minimum = some lo ∧ lo.sortKey ≤ v.sortKey
  maximum : v ≠ .null → ∃ hi, s.maximum = some hi ∧ v.sortKey ≤ hi.sortKey
  bloom : v ≠ .null → ∀ p, parameters = some p →
    ∃ bits, s.bloom = some bits ∧ bits[bloomBit ix v p]? = some true

/-- The second summary is at least as wide as the first. -/
structure Le (s s' : FieldSynopsis) : Prop where
  null : s.hasNull = true → s'.hasNull = true
  minimum : ∀ lo, s.minimum = some lo → ∃ lo', s'.minimum = some lo' ∧ lo'.sortKey ≤ lo.sortKey
  maximum : ∀ hi, s.maximum = some hi → ∃ hi', s'.maximum = some hi' ∧ hi.sortKey ≤ hi'.sortKey
  bloom : ∀ bits, s.bloom = some bits →
    ∃ bits', s'.bloom = some bits' ∧ ∀ i : ℕ, bits[i]? = some true → bits'[i]? = some true

lemma Le.refl (s : FieldSynopsis) : s.Le s :=
  ⟨id, fun lo h => ⟨lo, h, le_rfl⟩, fun hi h => ⟨hi, h, le_rfl⟩, fun b h => ⟨b, h, fun _ => id⟩⟩

lemma Le.trans {s'' : FieldSynopsis} (h : s.Le s') (h' : s'.Le s'') : s.Le s'' where
  null hn := h'.null (h.null hn)
  minimum lo hlo := by
    obtain ⟨lo', hlo', hle⟩ := h.minimum lo hlo
    obtain ⟨lo'', hlo'', hle'⟩ := h'.minimum lo' hlo'
    exact ⟨lo'', hlo'', hle'.trans hle⟩
  maximum hi hhi := by
    obtain ⟨hi', hhi', hle⟩ := h.maximum hi hhi
    obtain ⟨hi'', hhi'', hle'⟩ := h'.maximum hi' hhi'
    exact ⟨hi'', hhi'', hle.trans hle'⟩
  bloom bits hb := by
    obtain ⟨bits', hb', hsub⟩ := h.bloom bits hb
    obtain ⟨bits'', hb'', hsub'⟩ := h'.bloom bits' hb'
    exact ⟨bits'', hb'', fun i hi => hsub' i (hsub i hi)⟩

lemma Covers.mono (h : s.Covers ix parameters v) (hle : s.Le s') : s'.Covers ix parameters v where
  null hv := hle.null (h.null hv)
  minimum hv := by
    obtain ⟨lo, hlo, hle'⟩ := h.minimum hv
    obtain ⟨lo', hlo', hle''⟩ := hle.minimum lo hlo
    exact ⟨lo', hlo', hle''.trans hle'⟩
  maximum hv := by
    obtain ⟨hi, hhi, hle'⟩ := h.maximum hv
    obtain ⟨hi', hhi', hle''⟩ := hle.maximum hi hhi
    exact ⟨hi', hhi', hle'.trans hle''⟩
  bloom hv p hp := by
    obtain ⟨bits, hb, hbit⟩ := h.bloom hv p hp
    obtain ⟨bits', hb', hsub⟩ := hle.bloom bits hb
    exact ⟨bits', hb', hsub _ hbit⟩

lemma validate_iff : s.validate field parameters = true ↔
    (s.hasNull = true → field.nullable = true) ∧ ((s.minimum = none ∧ s.maximum = none) ∨
      ∃ lo hi, s.minimum = some lo ∧ s.maximum = some hi ∧ lo.InDomain field.dataType ∧
        hi.InDomain field.dataType ∧ lo.sortKey ≤ hi.sortKey) ∧
    ((parameters = none ∧ s.bloom = none) ∨ ∃ p bits, parameters = some p ∧ s.bloom = some bits ∧
        bits.length = 8 * p.byteCount ∧ (bits.drop p.bitCount).all (!·) = true) := by
  unfold validate
  rw [and_eq_true, and_eq_true, and_assoc]
  refine and_congr ?_ (and_congr ?_ ?_)
  · cases s.hasNull <;> simp
  · cases hlo : s.minimum with
    | none => cases s.maximum <;> simp
    | some _ =>
      cases hhi : s.maximum with
      | none => simp
      | some hi =>
        simp only [and_eq_true, decide_eq_true_eq, reduceCtorEq, false_and, false_or,
          Option.some.injEq, exists_eq_left', exists_and_left, and_assoc]
        refine and_congr_right fun hdlo => and_congr_right fun hdhi => ?_
        rw [typedOrder_eq hdlo hdhi]
        simp [not_lt]
  · cases parameters <;> cases s.bloom <;> simp

lemma Covers.extrema (h : s.Covers ix parameters v) (hs : s.validate field parameters = true)
    (hv : v ≠ .null) : ∃ lo hi, s.minimum = some lo ∧ s.maximum = some hi ∧
      lo.InDomain field.dataType ∧ hi.InDomain field.dataType ∧
      lo.sortKey ≤ v.sortKey ∧ v.sortKey ≤ hi.sortKey := by
  obtain ⟨lo, hlo, hlov⟩ := h.minimum hv
  obtain ⟨hi, hhi, hvhi⟩ := h.maximum hv
  obtain ⟨_, hext, _⟩ := validate_iff.mp hs
  rcases hext with ⟨hn, _⟩ | ⟨_, hi', hlo', hhi', hlod, hhid, _⟩
  · rw [hn] at hlo
    cases hlo
  · cases hlo.symm.trans hlo'
    cases hhi.symm.trans hhi'
    exact ⟨lo, hi, hlo, hhi, hlod, hhid, hlov, hvhi⟩

variable {m : Option Value}

lemma widen_lt {dataType : DataType} (hm : ∀ lo, m = some lo → lo.InDomain dataType)
    (hv : v.InDomain dataType) :
    ∃ lo, widen .lt m v = some lo ∧ lo.InDomain dataType ∧ lo.sortKey ≤ v.sortKey ∧
      ∀ lo', m = some lo' → lo.sortKey ≤ lo'.sortKey := by
  rw [widen]
  cases m with
  | none =>
    exact ⟨v.canonical, rfl, hv.canonical, le_of_eq v.sortKey_canonical, fun _ h => by cases h⟩
  | some stored =>
    have hord := typedOrder_eq hv (hm stored rfl)
    by_cases hlt : v.sortKey < stored.sortKey
    · rw [if_pos (by simp [replaces, hord, hlt])]
      refine ⟨v.canonical, rfl, hv.canonical, le_of_eq v.sortKey_canonical, ?_⟩
      intro lo' hlo'
      cases hlo'
      exact (le_of_eq v.sortKey_canonical).trans hlt.le
    · rw [if_neg (by simp [replaces, hord, hlt])]
      exact ⟨stored, rfl, hm stored rfl, not_lt.mp hlt, fun lo' h => by cases h; exact le_rfl⟩

lemma widen_gt {dataType : DataType} (hm : ∀ hi, m = some hi → hi.InDomain dataType)
    (hv : v.InDomain dataType) :
    ∃ hi, widen .gt m v = some hi ∧ hi.InDomain dataType ∧ v.sortKey ≤ hi.sortKey ∧
      ∀ hi', m = some hi' → hi'.sortKey ≤ hi.sortKey := by
  rw [widen]
  cases m with
  | none =>
    exact ⟨v.canonical, rfl, hv.canonical, ge_of_eq v.sortKey_canonical, fun _ h => by cases h⟩
  | some stored =>
    have hord := typedOrder_eq hv (hm stored rfl)
    by_cases hlt : stored.sortKey < v.sortKey
    · rw [if_pos (by simp [replaces, hord, hlt])]
      refine ⟨v.canonical, rfl, hv.canonical, ge_of_eq v.sortKey_canonical, ?_⟩
      intro hi' hhi'
      cases hhi'
      exact hlt.le.trans (ge_of_eq v.sortKey_canonical)
    · rw [if_neg (by simp [replaces, hord, hlt])]
      exact ⟨stored, rfl, hm stored rfl, not_lt.mp hlt, fun hi' h => by cases h; exact le_rfl⟩

lemma widen_eq_self {side : Ordering} (h : replaces side m v = false) : widen side m v = m := by
  rw [widen, if_neg (by simp [h])]

lemma bloomBit_lt (ix : Index) (v : Value) (p : BloomParameters) :
    bloomBit ix v p < p.bitCount := Nat.mod_lt _ p.pos

lemma drop_set_all {bits : List Bool} {n i : ℕ} (hi : i < n) (h : (bits.drop n).all (!·) = true) :
    ((bits.set i true).drop n).all (!·) = true := by
  rwa [List.drop_set_of_lt hi]

/-- What expansion by a value that fits the field does to a well-formed
summary: it stays well formed, covers the value, never narrows, and reports
`false` only when nothing changed. -/
structure ExpandSpec (ix : Index) (field : FieldSchema) (parameters : Option BloomParameters)
    (s : FieldSynopsis) (v : Value) (r : FieldSynopsis × Bool) : Prop where
  valid : r.1.validate field parameters = true
  covers : r.1.Covers ix parameters v
  le : s.Le r.1
  unchanged : r.2 = false → r.1 = s

section
variable (hs : s.validate field parameters = true)
include hs

lemma expandField_null (hnull : field.nullable = true) :
    ExpandSpec ix field parameters s .null (s.expandField ix .null parameters) := by
  rw [expandField, if_pos rfl]
  refine ⟨?_, ?_, ?_, ?_⟩
  · obtain ⟨_, hext, hbloom⟩ := validate_iff.mp hs
    exact validate_iff.mpr ⟨fun _ => hnull, hext, hbloom⟩
  · exact ⟨fun _ => rfl, fun h => absurd rfl h, fun h => absurd rfl h, fun h => absurd rfl h⟩
  · exact ⟨fun _ => rfl, (Le.refl s).minimum, (Le.refl s).maximum, (Le.refl s).bloom⟩
  · intro h
    have hn : s.hasNull = true := by simpa using h
    simp only [← hn]

lemma expandField_value (hv : v.InDomain field.dataType) :
    ExpandSpec ix field parameters s v (s.expandField ix v parameters) := by
  obtain ⟨hnull, hext, hbloom⟩ := validate_iff.mp hs
  have hmin : ∀ lo, s.minimum = some lo → lo.InDomain field.dataType := by
    rintro lo hlo
    rcases hext with ⟨h, _⟩ | ⟨lo', _, h, _, hd, _⟩
    · rw [h] at hlo; cases hlo
    · rw [h] at hlo; cases hlo; exact hd
  have hmax : ∀ hi, s.maximum = some hi → hi.InDomain field.dataType := by
    rintro hi hhi
    rcases hext with ⟨_, h⟩ | ⟨_, hi', _, h, _, hd, _⟩
    · rw [h] at hhi; cases hhi
    · rw [h] at hhi; cases hhi; exact hd
  obtain ⟨lo, hlo, hlod, hlov, hlos⟩ := widen_lt hmin hv
  obtain ⟨hi, hhi, hhid, hvhi, hshi⟩ := widen_gt hmax hv
  have hextrema : (widen .lt s.minimum v = none ∧ widen .gt s.maximum v = none) ∨
      ∃ lo hi, widen .lt s.minimum v = some lo ∧ widen .gt s.maximum v = some hi ∧
        lo.InDomain field.dataType ∧ hi.InDomain field.dataType ∧ lo.sortKey ≤ hi.sortKey :=
    Or.inr ⟨lo, hi, hlo, hhi, hlod, hhid, hlov.trans hvhi⟩
  rw [expandField, if_neg hv.ne_null]
  rcases hbloom with ⟨rfl, hb⟩ | ⟨p, bits, rfl, hb, hlen, hpad⟩
  · rw [hb]
    refine ⟨validate_iff.mpr ⟨hnull, hextrema, Or.inl ⟨rfl, rfl⟩⟩, ?_, ?_, ?_⟩
    · exact ⟨fun h => absurd h hv.ne_null, fun _ => ⟨lo, hlo, hlov⟩, fun _ => ⟨hi, hhi, hvhi⟩,
        fun _ p hp => by cases hp⟩
    · exact ⟨id, fun lo' h => ⟨lo, hlo, hlos lo' h⟩, fun hi' h => ⟨hi, hhi, hshi hi' h⟩,
        fun bits' h => by rw [hb] at h; cases h⟩
    · intro hc
      obtain ⟨h1, h2⟩ := or_eq_false_iff.mp hc
      cases s
      simp only at hb
      simp only [widen_eq_self h1, widen_eq_self h2, hb]
  · rw [hb]
    have hbit : bloomBit ix v p < bits.length := by
      have := bloomBit_lt ix v p
      have := p.bitCount_le
      omega
    refine ⟨validate_iff.mpr ⟨hnull, hextrema, Or.inr ⟨p, bits.set (bloomBit ix v p) true, rfl,
      rfl, by simpa using hlen, drop_set_all (bloomBit_lt ix v p) hpad⟩⟩, ?_, ?_, ?_⟩
    · refine ⟨fun h => absurd h hv.ne_null, fun _ => ⟨lo, hlo, hlov⟩, fun _ => ⟨hi, hhi, hvhi⟩, ?_⟩
      intro _ p' hp'
      cases hp'
      exact ⟨_, rfl, by rw [List.getElem?_set_self hbit]⟩
    · refine ⟨id, fun lo' h => ⟨lo, hlo, hlos lo' h⟩, fun hi' h => ⟨hi, hhi, hshi hi' h⟩, ?_⟩
      intro _ h
      rw [hb] at h
      cases h
      refine ⟨_, rfl, fun i hi => ?_⟩
      rw [List.getElem?_set]
      split_ifs
      · rfl
      · exact hi
    · intro hc
      obtain ⟨hext', hset⟩ := or_eq_false_iff.mp hc
      obtain ⟨h1, h2⟩ := or_eq_false_iff.mp hext'
      have hon : bits[bloomBit ix v p] = true := by
        simpa [List.getD_eq_getElem?_getD, hbit] using hset
      have hsame : bits.set (bloomBit ix v p) true = bits := by
        rw [← hon, List.set_getElem_self]
      cases s
      simp only at hb
      simp only [widen_eq_self h1, widen_eq_self h2, hsame, hb]

end

end FieldSynopsis

/-! ### Coverage and growth of a whole synopsis -/

namespace PartitionSynopsis

variable {ix : Index} {s s' : PartitionSynopsis} {row : List Value}

def Covers (ix : Index) (s : PartitionSynopsis) (row : List Value) : Prop :=
  ∀ (i : ℕ) f p v, s.fields[i]? = some f → ix.bloomParameters[i]? = some p →
    row[i]? = some v → f.Covers ix p v

/-- The second synopsis is at least as wide as the first, field by field. -/
structure Le (s s' : PartitionSynopsis) : Prop where
  length : s.fields.length = s'.fields.length
  field : ∀ (i : ℕ) f f', s.fields[i]? = some f → s'.fields[i]? = some f' → f.Le f'

lemma Le.refl (s : PartitionSynopsis) : s.Le s := by
  refine ⟨rfl, fun i f f' h h' => ?_⟩
  rw [h] at h'
  cases h'
  exact .refl f

lemma Le.exists_field (h : s.Le s') {i : ℕ} {f' : FieldSynopsis} (hf' : s'.fields[i]? = some f') :
    ∃ f, s.fields[i]? = some f := by
  have hi : i < s.fields.length := by
    rw [h.length]
    exact (getElem?_eq_some_iff.mp hf').choose
  exact ⟨_, getElem?_eq_getElem hi⟩

lemma Le.trans {s'' : PartitionSynopsis} (h : s.Le s') (h' : s'.Le s'') : s.Le s'' := by
  refine ⟨h.length.trans h'.length, fun i f f'' hf hf'' => ?_⟩
  obtain ⟨f', hf'⟩ := h'.exists_field hf''
  exact (h.field i f f' hf hf').trans (h'.field i f' f'' hf' hf'')

lemma Covers.mono (h : s.Covers ix row) (hle : s.Le s') : s'.Covers ix row := by
  intro i f' p v hf' hp hv
  obtain ⟨f, hf⟩ := hle.exists_field hf'
  exact (h i f p v hf hp hv).mono (hle.field i f f' hf hf')

lemma validateFields_iff : ∀ {ss : List FieldSynopsis} {fields : List FieldSchema}
    {ps : List (Option BloomParameters)}, validateFields ss fields ps = true ↔
      ∀ (i : ℕ) f field p, ss[i]? = some f → fields[i]? = some field → ps[i]? = some p →
        f.validate field p = true := by
  intro ss
  induction ss with
  | nil => intro fields ps; simp [validateFields]
  | cons s _ ih =>
    intro fields ps
    rcases fields with _ | ⟨field, _⟩
    · simp [validateFields]
    rcases ps with _ | ⟨p, _⟩
    · simp [validateFields]
    rw [validateFields, and_eq_true, ih]
    constructor
    · rintro ⟨h0, hrest⟩ i f field' p' hf hfield hp
      rcases i with _ | i
      · cases hf; cases hfield; cases hp; exact h0
      · exact hrest i f field' p' hf hfield hp
    · intro h
      exact ⟨h 0 s field p rfl rfl rfl, fun i => h (i + 1)⟩

lemma expandFields_length : ∀ (ss : List FieldSynopsis) (vs : List Value)
    (ps : List (Option BloomParameters)), (expandFields ix ss vs ps).1.length = ss.length := by
  intro ss
  induction ss with
  | nil => intro vs ps; rfl
  | cons s _ ih =>
    intro vs ps
    rcases vs with _ | ⟨v, _⟩
    · rfl
    rcases ps with _ | ⟨p, _⟩
    · rfl
    simp only [expandFields, length_cons, ih]

lemma expandFields_getElem? : ∀ {ss : List FieldSynopsis} {vs : List Value}
    {ps : List (Option BloomParameters)} {i : ℕ} {s : FieldSynopsis} {v : Value}
    {p : Option BloomParameters}, ss[i]? = some s → vs[i]? = some v → ps[i]? = some p →
      (expandFields ix ss vs ps).1[i]? = some (s.expandField ix v p).1 := by
  intro ss
  induction ss with
  | nil => intro vs ps i s v p hs; simp at hs
  | cons _ _ ih =>
    intro vs ps i s v p hs hv hp
    rcases vs with _ | ⟨_, _⟩
    · simp at hv
    rcases ps with _ | ⟨_, _⟩
    · simp at hp
    rcases i with _ | i
    · cases hs; cases hv; cases hp; rfl
    · exact ih hs hv hp

lemma expandFields_unchanged : ∀ {ss : List FieldSynopsis} {vs : List Value}
    {ps : List (Option BloomParameters)},
    (∀ (i : ℕ) s v p, ss[i]? = some s → vs[i]? = some v → ps[i]? = some p →
      (s.expandField ix v p).2 = false → (s.expandField ix v p).1 = s) →
    (expandFields ix ss vs ps).2 = false → (expandFields ix ss vs ps).1 = ss := by
  intro ss
  induction ss with
  | nil => intro vs ps _ _; rfl
  | cons s _ ih =>
    intro vs ps hsame hc
    rcases vs with _ | ⟨v, _⟩
    · rfl
    rcases ps with _ | ⟨p, _⟩
    · rfl
    simp only [expandFields, or_eq_false_iff] at hc ⊢
    rw [hsame 0 s v p rfl rfl rfl hc.1, ih (fun i => hsame (i + 1)) hc.2]

lemma validateProjection_spec {fields : List FieldSchema}
    (h : validateProjection row fields = true) :
    row.length = fields.length ∧ ∀ (i : ℕ) v field, row[i]? = some v → fields[i]? = some field →
      (v = .null ∧ field.nullable = true) ∨ v.InDomain field.dataType := by
  rw [validateProjection, and_eq_true, beq_iff_eq, List.all_eq_true] at h
  refine ⟨h.1, fun i v field hv hfield => ?_⟩
  have hmem : (v, field) ∈ row.zip fields :=
    mem_of_getElem? (i := i) (List.getElem?_zip_eq_some.mpr ⟨hv, hfield⟩)
  have hcheck : (if v = .null then field.nullable else decide (v.InDomain field.dataType)) = true :=
    h.2 (v, field) hmem
  by_cases hnull : v = .null
  · rw [if_pos hnull] at hcheck
    exact Or.inl ⟨hnull, hcheck⟩
  · rw [if_neg hnull, decide_eq_true_eq] at hcheck
    exact Or.inr hcheck

lemma hasShapeFor_iff : s.hasShapeFor ix = true ↔ s.fields.length = ix.fields.length ∧
    ∀ (i : ℕ) f field p, s.fields[i]? = some f → ix.fields[i]? = some field →
      ix.bloomParameters[i]? = some p → f.validate field p = true := by
  rw [hasShapeFor, and_eq_true, beq_iff_eq, validateFields_iff]

/-- What one expansion does: the synopsis keeps its shape, covers the row, never
narrows, and is unchanged when it reports so. -/
structure ExpandSpec (ix : Index) (s : PartitionSynopsis) (row : List Value)
    (s' : PartitionSynopsis) (changed : Bool) : Prop where
  shape : s'.hasShapeFor ix = true
  covers : s'.Covers ix row
  le : s.Le s'
  unchanged : changed = false → s' = s

lemma expand_spec {changed : Bool} (h : s.expand ix row = .ok (s', changed)) :
    ExpandSpec ix s row s' changed := by
  rw [expand] at h
  split_ifs at h with hshape hrow
  cases h
  rw [Bool.not_eq_true', not_eq_false] at hshape hrow
  obtain ⟨hlen, hvalid⟩ := hasShapeFor_iff.mp hshape
  obtain ⟨hrowlen, hfits⟩ := validateProjection_spec hrow
  -- every position has a summary, a schema field, parameters and a value
  have hat : ∀ i : ℕ, i < s.fields.length → ∃ f field p v, s.fields[i]? = some f ∧
      ix.fields[i]? = some field ∧ ix.bloomParameters[i]? = some p ∧ row[i]? = some v := by
    intro i hi
    have hp := ix.bloom_length
    exact ⟨_, _, _, _, getElem?_eq_getElem hi, getElem?_eq_getElem (by omega),
      getElem?_eq_getElem (by omega), getElem?_eq_getElem (by omega)⟩
  have hspec : ∀ (i : ℕ) f field p v, s.fields[i]? = some f → ix.fields[i]? = some field →
      ix.bloomParameters[i]? = some p → row[i]? = some v →
      FieldSynopsis.ExpandSpec ix field p f v (f.expandField ix v p) := by
    intro i f field p v hf hfield hp hv
    rcases hfits i v field hv hfield with ⟨rfl, hnull⟩ | hdom
    · exact FieldSynopsis.expandField_null (hvalid i f field p hf hfield hp) hnull
    · exact FieldSynopsis.expandField_value (hvalid i f field p hf hfield hp) hdom
  have hlen' : (expandFields ix s.fields row ix.bloomParameters).1.length = s.fields.length :=
    expandFields_length _ _ _
  -- the summary at a position of the result is the expansion of the old one
  have hresult : ∀ (i : ℕ) f', (expandFields ix s.fields row ix.bloomParameters).1[i]? = some f' →
      ∃ f field p v, s.fields[i]? = some f ∧ ix.fields[i]? = some field ∧
        ix.bloomParameters[i]? = some p ∧ row[i]? = some v ∧ f' = (f.expandField ix v p).1 := by
    intro i f' hf'
    have hi : i < s.fields.length := hlen' ▸ (getElem?_eq_some_iff.mp hf').choose
    obtain ⟨f, field, p, v, hf, hfield, hp, hv⟩ := hat i hi
    refine ⟨f, field, p, v, hf, hfield, hp, hv, ?_⟩
    rw [expandFields_getElem? hf hv hp, some_inj] at hf'
    exact hf'.symm
  refine ⟨hasShapeFor_iff.mpr ⟨hlen'.trans hlen, ?_⟩, ?_, ⟨hlen'.symm, ?_⟩, ?_⟩
  · intro i f' field p hf' hfield hp
    obtain ⟨f, _, p', v, hf, hfield', hp', hv, rfl⟩ := hresult i f' hf'
    cases hfield.symm.trans hfield'
    cases hp.symm.trans hp'
    exact (hspec i f field p v hf hfield hp hv).valid
  · intro i f' p v hf' hp hv
    obtain ⟨f, field, _, _, hf, hfield, hp', hv', rfl⟩ := hresult i f' hf'
    cases hp.symm.trans hp'
    cases hv.symm.trans hv'
    exact (hspec i f field p v hf hfield hp hv).covers
  · intro i f f' hf hf'
    obtain ⟨f₀, field, p, v, hf₀, hfield, hp, hv, rfl⟩ := hresult i f' hf'
    cases hf.symm.trans hf₀
    exact (hspec i f field p v hf hfield hp hv).le
  · intro hc
    have hsame := expandFields_unchanged (fun i f v p hf hv hp hno => by
      obtain ⟨_, field, _, _, hf₀, hfield, _, _⟩ := hat i (getElem?_eq_some_iff.mp hf).choose
      exact (hspec i f field p v hf hfield hp hv).unchanged hno) hc
    rw [hsame]

lemma empty_hasShapeFor (ix : Index) : (empty ix).hasShapeFor ix = true := by
  refine hasShapeFor_iff.mpr ⟨by simp [empty, ix.bloom_length], ?_⟩
  intro i f _ p hf _ hp
  simp only [empty, List.getElem?_map, hp, map_some, some_inj] at hf
  subst hf
  refine FieldSynopsis.validate_iff.mpr ⟨Bool.noConfusion, Or.inl ⟨rfl, rfl⟩, ?_⟩
  cases p with
  | none => exact Or.inl ⟨rfl, rfl⟩
  | some p =>
    exact Or.inr ⟨p, _, rfl, rfl, List.length_replicate, by simp⟩

/-- **Coverage of the rows a synopsis was expanded with**, first to last. -/
theorem expandAll_spec : ∀ {rows : List (List Value)} {s s' : PartitionSynopsis},
    expandAll ix s rows = .ok s' → s.Le s' ∧ ∀ row ∈ rows, s'.Covers ix row := by
  intro rows
  induction rows with
  | nil =>
    intro s s' h
    cases h
    exact ⟨.refl s, fun row hrow => by cases hrow⟩
  | cons _ _ ih =>
    intro s s' h
    obtain ⟨⟨t, _⟩, hexp, hrest⟩ := bind_eq_ok.mp h
    have hspec := expand_spec hexp
    obtain ⟨hle, hcov⟩ := ih hrest
    refine ⟨hspec.le.trans hle, fun row' hrow' => ?_⟩
    rcases mem_cons.mp hrow' with rfl | hrow'
    · exact hspec.covers.mono hle
    · exact hcov row' hrow'

end PartitionSynopsis
