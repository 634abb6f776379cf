/-
Tree Keys are ordered as their values.

The two-byte terminator of a string is below every continuation, an escaped NUL
included, and the sign-flipped integers and floats are ordered as numbers.  So
every scalar is self-delimiting for the typed order, and a tuple of fields with
it.

* `delimited_appendFields` — encodings compare as their values do, field by
  field, whatever follows them;
* `treeKey_code` — **the encoding is an order-preserving self-delimiting code,
  and decoders and validators read it alike**.
-/
import Ktann.Storage.TreeKeyCode

open Delimited (of_lt of_gt)

/-! ### Order -/

def fieldsOrder : List Value → List Value → Option Ordering
  | [], [] => some .eq
  | v :: vs, w :: ws => do
    let o ← typedOrder v w
    let rest ← fieldsOrder vs ws
    some (o.then rest)
  | _, _ => none

lemma delimited_escapeTerminated (s t : Bytes) :
    Delimited (order s t) (escapeTerminated s) (escapeTerminated t) := by
  induction s generalizing t with
  | nil =>
    cases t with
    | nil => exact Delimited.refl _
    | cons c t =>
      have hlt : order ([] : Bytes) (c :: t) = .lt := order_eq_lt.mpr (List.nil_lt_cons c t)
      rw [hlt]
      by_cases hc : c = 0
      · -- the terminator is below the second byte of an escape
        subst hc
        exact Delimited.cons (of_lt (by decide))
      · rw [escapeTerminated_ne hc]
        exact of_lt (Fin.pos_of_ne_zero hc)
  | cons b s ih =>
    cases t with
    | nil =>
      have hgt : order (b :: s) ([] : Bytes) = .gt := order_eq_gt.mpr (List.nil_lt_cons b s)
      rw [hgt]
      by_cases hb : b = 0
      · subst hb
        exact Delimited.cons (of_gt (by decide))
      · rw [escapeTerminated_ne hb]
        exact of_gt (Fin.pos_of_ne_zero hb)
    | cons c t =>
      rw [order_cons_cons]
      by_cases hb : b = 0 <;> by_cases hc : c = 0
      · subst hb hc
        exact Delimited.cons (Delimited.cons (ih t))
      · subst hb
        rw [escapeTerminated_ne hc, order_eq_lt.mpr (Fin.pos_of_ne_zero hc)]
        exact of_lt (Fin.pos_of_ne_zero hc)
      · subst hc
        rw [escapeTerminated_ne hb, order_eq_gt.mpr (Fin.pos_of_ne_zero hb)]
        exact of_gt (Fin.pos_of_ne_zero hb)
      · rw [escapeTerminated_ne hb, escapeTerminated_ne hc]
        exact Delimited.cons (ih t)

lemma order_transformed {x y : F64} (hx : x.bits ≠ 2 ^ 63) (hy : y.bits ≠ 2 ^ 63) :
    order x.rank y.rank = order x.transformed y.transformed := by
  have := x.bound
  have := y.bound
  refine order_congr ?_ ?_ <;>
  · simp only [F64.rank, F64.transformed]
    split_ifs <;> omega

/-- Encoded scalars compare as their values do, whatever follows them. -/
lemma delimited_encodeScalar {ty : DataType} {v w : Value} {a b : Bytes}
    (ha : encodeScalar ty v = .ok a) (hb : encodeScalar ty w = .ok b) :
    ∃ o, typedOrder v w = some o ∧ Delimited o a b := by
  cases ty with
  | bool =>
    obtain ⟨x, rfl, rfl⟩ := encodeScalar_bool.mp ha
    obtain ⟨y, rfl, rfl⟩ := encodeScalar_bool.mp hb
    refine ⟨_, rfl, ?_⟩
    cases x <;> cases y
    · exact Delimited.refl _
    · exact of_lt (by decide)
    · exact of_gt (by decide)
    · exact Delimited.refl _
  | i64 =>
    obtain ⟨x, rfl, rfl⟩ := encodeScalar_i64.mp ha
    obtain ⟨y, rfl, rfl⟩ := encodeScalar_i64.mp hb
    have hflip : order x.val y.val = order (x.val + 2 ^ 63).toNat (y.val + 2 ^ 63).toNat := by
      have := x.lower
      have := y.lower
      exact order_congr (by omega) (by omega)
    refine ⟨_, rfl, ?_⟩
    rw [hflip]
    exact delimited_bigEndian x.flipped_lt y.flipped_lt
  | f64 =>
    obtain ⟨x, rfl, hfx, hx, rfl⟩ := encodeScalar_f64.mp ha
    obtain ⟨y, rfl, hfy, hy, rfl⟩ := encodeScalar_f64.mp hb
    refine ⟨order x.rank y.rank, by rw [typedOrder, hfx, hfy]; rfl, ?_⟩
    rw [order_transformed hx hy]
    exact delimited_bigEndian x.transformed_lt y.transformed_lt
  | string =>
    obtain ⟨s, rfl, _, rfl⟩ := encodeScalar_string.mp ha
    obtain ⟨t, rfl, _, rfl⟩ := encodeScalar_string.mp hb
    exact ⟨_, rfl, delimited_escapeTerminated _ _⟩

/-- Encoded field sequences compare field by field, whatever follows them. -/
lemma delimited_appendFields {types : List DataType} {vs ws : List Value} {a b : Bytes}
    (ha : appendFields types vs = .ok a) (hb : appendFields types ws = .ok b) :
    ∃ o, fieldsOrder vs ws = some o ∧ Delimited o a b := by
  induction types generalizing vs ws a b with
  | nil =>
    obtain ⟨rfl, rfl⟩ := appendFields_nil.mp ha
    obtain ⟨rfl, rfl⟩ := appendFields_nil.mp hb
    exact ⟨.eq, rfl, Delimited.refl _⟩
  | cons _ _ ih =>
    obtain ⟨v, _, _, _, rfl, hv, hvs, rfl⟩ := appendFields_cons.mp ha
    obtain ⟨w, _, _, _, rfl, hw, hws, rfl⟩ := appendFields_cons.mp hb
    obtain ⟨o₁, ho₁, hd₁⟩ := delimited_encodeScalar hv hw
    obtain ⟨o₂, ho₂, hd₂⟩ := ih hvs hws
    exact ⟨o₁.then o₂, by rw [fieldsOrder, ho₁, ho₂]; rfl, hd₁.append hd₂⟩

/-! ### Valid values -/

lemma F64.isFinite_canonical (x : F64) : x.canonical.isFinite = x.isFinite := by
  rw [canonical]
  split_ifs with h
  · obtain ⟨bits, hbits⟩ := x
    -- both zeros are finite
    have h0 : bits = 0 ∨ bits = 2 ^ 63 := by
      simp only [rank] at h
      split_ifs at h <;> omega
    rcases h0 with rfl | rfl
    · rfl
    · simp [isFinite, zero]
  · rfl

lemma F64.canonical_bits_ne (x : F64) : x.canonical.bits ≠ 2 ^ 63 := by
  rw [canonical]
  split_ifs with h
  · decide
  · intro hbits
    refine h ?_
    rw [rank, hbits]
    decide

lemma typedOrder_canonical (v w : Value) : typedOrder v.canonical w.canonical
    = typedOrder v w := by
  cases v <;> cases w <;>
    simp only [Value.canonical, typedOrder, F64.isFinite_canonical, F64.rank_canonical]

lemma fieldsOrder_canonical (vs ws : List Value) :
    fieldsOrder (vs.map Value.canonical) (ws.map Value.canonical) = fieldsOrder vs ws := by
  induction vs generalizing ws with
  | nil => cases ws <;> rfl
  | cons v _ ih =>
    cases ws with
    | nil => rfl
    | cons w _ =>
      rw [map_cons, map_cons, fieldsOrder, fieldsOrder, typedOrder_canonical, ih]

lemma encodeScalar_canonical {ty : DataType} {v : Value} (h : v.InDomain ty) :
    ∃ a, encodeScalar ty v.canonical = .ok a := by
  cases v with
  | null => exact h.elim
  | bool b =>
    obtain rfl : ty = .bool := h
    exact ⟨_, rfl⟩
  | i64 i =>
    obtain rfl : ty = .i64 := h
    exact ⟨_, rfl⟩
  | f64 x =>
    obtain ⟨rfl, hfinite⟩ := h
    exact ⟨_, encodeScalar_f64.mpr ⟨_, rfl, by rw [F64.isFinite_canonical, hfinite],
      x.canonical_bits_ne, rfl⟩⟩
  | string s =>
    obtain ⟨rfl, hlen⟩ := h
    exact ⟨_, encodeScalar_string.mpr ⟨s, rfl, hlen, rfl⟩⟩

lemma appendFields_canonical {types : List DataType} {vs : List Value}
    (h : List.Forall₂ (fun ty v => Value.InDomain ty v) types vs) :
    ∃ a, appendFields types (vs.map Value.canonical) = .ok a := by
  induction h with
  | nil => exact ⟨[], appendFields_nil.mpr ⟨rfl, rfl⟩⟩
  | cons hv _ ih =>
    obtain ⟨a, ha⟩ := encodeScalar_canonical hv
    obtain ⟨b, hb⟩ := ih
    exact ⟨a ++ b, appendFields_cons.mpr ⟨_, _, a, b, rfl, ha, hb, rfl⟩⟩

/-! ### Main results -/

/-- The encoding is order-preserving and self-delimiting, decoding inverts it, and
the validators accept what the decoders accept: scalars and complete Tree Keys on
every byte string, field sequences on every buffer within the limit, and on a
longer buffer exactly when its consumed prefix decodes. -/
theorem treeKey_code (types : List DataType) :
    (∀ vs ws, List.Forall₂ (fun ty v => Value.InDomain ty v) types vs →
      List.Forall₂ (fun ty v => Value.InDomain ty v) types ws →
      ∃ a b, appendFields types (vs.map Value.canonical) = .ok a ∧
        appendFields types (ws.map Value.canonical) = .ok b ∧
        fieldsOrder vs ws = some (order a b) ∧ (a <+: b → a = b)) ∧
    (∀ values key, TreeKey.encode types values = .ok key →
      decodeComplete types key = .ok values ∧ checkComplete types key = .ok ()) ∧
    (∀ ty bytes n, checkScalar ty bytes = .ok n ↔ ∃ value, decodeScalar ty bytes = .ok (value, n)) ∧
    (∀ bytes, checkComplete types bytes = .ok () ↔
      ∃ values, decodeComplete types bytes = .ok values) ∧
    (∀ bytes n, bytes.length ≤ maxTreeKeyBytes →
      (checkFields types bytes = .ok n ↔ ∃ values, decodeFields types bytes = .ok (values, n))) ∧
    (∀ bytes n, checkFields types bytes = .ok n ↔
      n ≤ bytes.length ∧ ∃ values, decodeFields types (bytes.take n) = .ok (values, n)) := by
  refine ⟨?_, ?_, ?_, ?_, ?_, ?_⟩
  · intro vs ws hvs hws
    obtain ⟨a, ha⟩ := appendFields_canonical hvs
    obtain ⟨b, hb⟩ := appendFields_canonical hws
    obtain ⟨o, ho, hd⟩ := delimited_appendFields ha hb
    refine ⟨a, b, ha, hb, ?_, hd.eq_of_isPrefix⟩
    rw [← fieldsOrder_canonical, ho, hd.order_eq]
  · intro values _ h
    obtain ⟨bytes, hbytes, h⟩ := bind_eq_ok.mp h
    split_ifs at h with hlen
    cases h
    exact ⟨decodeComplete_eq_ok.mpr ⟨by omega, hbytes⟩,
      checkComplete_eq_ok.mpr ⟨by omega, values, hbytes⟩⟩
  · intro ty bytes n
    simp only [checkScalar_eq_ok, decodeScalar_eq_ok]
  · intro bytes
    simp only [checkComplete_eq_ok, decodeComplete_eq_ok, exists_and_left]
  · intro bytes n hlen
    simp only [checkFields_eq_ok, decodeFields_eq_ok, exists_and_left]
    constructor
    · rintro ⟨_, values, hbegins⟩
      exact ⟨hlen, values, hbegins⟩
    · rintro ⟨_, values, hbegins⟩
      exact ⟨hbegins.le_length.trans hlen, values, hbegins⟩
  · intro bytes n
    simp only [checkFields_eq_ok, decodeFields_eq_ok, exists_and_left, length_take]
    constructor
    · rintro ⟨hn, values, hbegins⟩
      refine ⟨hbegins.le_length, by omega, values, bytes.take n, [], hbegins.take, ?_, ?_⟩
      · rw [append_nil]
      · rw [List.length_take_of_le hbegins.le_length]
    · rintro ⟨hn, hlen, values, word, rest, hword, htake, hlength⟩
      refine ⟨by omega, values, word, rest ++ bytes.drop n, hword, ?_, hlength⟩
      rw [← append_assoc, ← htake, take_append_drop]

/-- A tuple with a negative zero and a NUL against one with a positive zero. -/
theorem treeKey_code_negative_zero :
    ∃ a b, appendFields [.f64, .string] [.f64 F64.zero, .string ⟨[0], by decide⟩] = .ok a ∧
      appendFields [.f64, .string] [.f64 F64.zero, .string ⟨[], by decide⟩] = .ok b ∧
      some Ordering.gt = some (order a b) ∧ (a <+: b → a = b) := by
  exact (treeKey_code [.f64, .string]).1
    [.f64 ⟨2 ^ 63, by decide⟩, .string ⟨[0], by decide⟩] [.f64 F64.zero, .string ⟨[], by decide⟩]
    (.cons (by decide) (.cons (by decide) .nil)) (.cons (by decide) (.cons (by decide) .nil))

/-- A one-byte Tree Key in a buffer beyond the limit validates, since the limit
applies to the consumed prefix, but does not decode. -/
theorem checkFields_long_buffer : checkFields [.bool] (List.replicate 8193 0) = .ok 1 ∧
      decodeFields [.bool] (List.replicate 8193 0) = .error .corrupt := by
  constructor
  · rw [List.replicate_succ]
    rfl
  · rw [decodeFields, List.length_replicate, if_pos (by decide)]
