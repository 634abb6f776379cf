/-
Fixed-width big-endian numbers.

* `fromBigEndian` — the number a byte string writes, inverse to `bigEndian` on
  numbers of the width (`fromBigEndian_bigEndian`, `bigEndian_fromBigEndian`);
* `delimited_bigEndian` — numbers of one width are ordered as their bytes are,
  whatever follows them;
* `takeArray` — the leading bytes of a key, failing on a shorter one.
-/
import Ktann.Storage.Values

open Nat (mod_eq_of_lt mod_one mod_mul mod_lt)

@[simp] lemma length_bigEndian (width n : ℕ) : (bigEndian width n).length = width := by
  induction width with
  | zero => rfl
  | succ _ ih => rw [bigEndian, length_cons, ih]

variable {m n width : ℕ}

/-- Big-endian numbers are ordered as the numbers they are. -/
lemma bigEndian_lt (h : n % 256 ^ width < m % 256 ^ width) :
    bigEndian width n < bigEndian width m := by
  induction width with
  | zero =>
    rw [pow_zero, mod_one, mod_one] at h
    exact absurd h (lt_irrefl 0)
  | succ width ih =>
    have hpos : 0 < 256 ^ width := by positivity
    have hn := mod_lt n hpos
    have hm := mod_lt m hpos
    rw [pow_succ, mod_mul, mod_mul] at h
    rw [bigEndian, bigEndian, cons_lt_cons_iff]
    -- The first digits decide, unless they are equal.
    rcases lt_trichotomy (n / 256 ^ width % 256) (m / 256 ^ width % 256) with hlt | heq | hgt
    · exact .inl (by rw [Fin.lt_def]; exact hlt)
    · exact .inr ⟨Fin.ext heq, ih (by rw [heq] at h; omega)⟩
    · have hmul : 256 ^ width * (m / 256 ^ width % 256 + 1) ≤
          256 ^ width * (n / 256 ^ width % 256) := Nat.mul_le_mul_left _ hgt
      rw [mul_add, mul_one] at hmul
      omega

lemma bigEndian_u64_lt (h : n < m) (hm : m < u64Bound) : bigEndian 8 n < bigEndian 8 m := by
  have hbound : u64Bound = 256 ^ 8 := by decide
  rw [hbound] at hm
  refine bigEndian_lt ?_
  rwa [mod_eq_of_lt (h.trans hm), mod_eq_of_lt hm]

def fromBigEndian : Bytes → ℕ
  | [] => 0
  | b :: rest => b.val * 256 ^ rest.length + fromBigEndian rest

lemma fromBigEndian_lt (bytes : Bytes) : fromBigEndian bytes < 256 ^ bytes.length := by
  induction bytes with
  | nil => exact Nat.one_pos
  | cons b rest ih =>
    have hb : (b.val + 1) * 256 ^ rest.length ≤ 256 * 256 ^ rest.length :=
      Nat.mul_le_mul_right _ b.isLt
    rw [fromBigEndian, length_cons, pow_succ]
    rw [Nat.add_mul, Nat.one_mul] at hb
    omega

lemma fromBigEndian_bigEndian (width n : ℕ) :
    fromBigEndian (bigEndian width n) = n % 256 ^ width := by
  induction width with
  | zero => rw [pow_zero, mod_one]; rfl
  | succ _ ih =>
    rw [bigEndian, fromBigEndian, ih, length_bigEndian, pow_succ, mod_mul, Nat.add_comm,
      Nat.mul_comm]
    rfl

lemma fromBigEndian_inj {x y : Bytes} (hlen : x.length = y.length)
    (h : fromBigEndian x = fromBigEndian y) : x = y := by
  induction x generalizing y with
  | nil => exact (List.length_eq_zero_iff.mp hlen.symm).symm
  | cons b x ih =>
    cases y with
    | nil => cases hlen
    | cons c y =>
      have hlen' : x.length = y.length := Nat.succ_injective hlen
      have hx := fromBigEndian_lt x
      have hy := fromBigEndian_lt y
      rw [fromBigEndian, fromBigEndian, hlen'] at h
      rw [hlen'] at hx
      have hpos : 0 < 256 ^ y.length := by positivity
      -- the leading digit is the quotient by the weight of the others
      have hdiv := congrArg (· / 256 ^ y.length) h
      simp only [Nat.add_comm (_ * _), Nat.add_mul_div_right _ _ hpos, Nat.div_eq_of_lt hx,
        Nat.div_eq_of_lt hy, Nat.zero_add] at hdiv
      rw [hdiv] at h
      rw [Fin.ext hdiv, ih hlen' (Nat.add_left_cancel h)]

lemma bigEndian_fromBigEndian (bytes : Bytes) :
    bigEndian bytes.length (fromBigEndian bytes) = bytes := by
  refine fromBigEndian_inj (length_bigEndian _ _) ?_
  rw [fromBigEndian_bigEndian, mod_eq_of_lt (fromBigEndian_lt bytes)]

section
variable (hn : n < 256 ^ width) (hm : m < 256 ^ width)
include hn hm

lemma order_bigEndian : order (bigEndian width n) (bigEndian width m) = order n m := by
  rcases lt_trichotomy n m with h | rfl | h
  · rw [order_eq_lt.mpr h, order_eq_lt]
    exact bigEndian_lt (by rwa [mod_eq_of_lt hn, mod_eq_of_lt hm])
  · rw [order_self, order_self]
  · rw [order_eq_gt.mpr h, order_eq_gt]
    exact bigEndian_lt (by rwa [mod_eq_of_lt hn, mod_eq_of_lt hm])

lemma delimited_bigEndian : Delimited (order n m) (bigEndian width n) (bigEndian width m) := by
  rw [← order_bigEndian hn hm]
  exact Delimited.of_length (by rw [length_bigEndian, length_bigEndian])

end

/-- Exactly `width` leading bytes, failing closed on truncation. -/
def takeArray (width : ℕ) (bytes : Bytes) : Except Error Bytes :=
  if bytes.length < width then .error .corrupt else .ok (bytes.take width)

lemma takeArray_eq_ok {bytes raw : Bytes} :
    takeArray width bytes = .ok raw ↔ raw.length = width ∧ ∃ rest, bytes = raw ++ rest := by
  rw [takeArray]
  split_ifs with h
  · constructor
    · intro hok
      cases hok
    · rintro ⟨hlen, _, rfl⟩
      rw [length_append] at h
      omega
  · rw [Except.ok.injEq]
    constructor
    · rintro rfl
      exact ⟨List.length_take_of_le (by omega), bytes.drop width, (take_append_drop _ _).symm⟩
    · rintro ⟨rfl, _, rfl⟩
      exact take_left
