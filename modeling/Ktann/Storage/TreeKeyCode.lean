/-
Tree Keys as a code.

The decoder rebuilds the field values of an encoded Tree Key; the validator
accepts or rejects the same bytes without building anything.  Both are parsers of
the same language: they succeed exactly on the byte strings that begin with an
encoding, and consume that encoding.

* `Begins` — a byte string begins with an encoding of a given length;
* `decodeScalar_eq_ok`, `checkScalar_eq_ok`, `decodeFields_eq_ok`,
  `checkFields_eq_ok` — decoders and validators succeed exactly there;
* `decodeComplete_eq_ok`, `checkComplete_eq_ok` — a complete Tree Key is the
  encoding of the values it decodes to.
-/
import Ktann.Storage.BigEndian
import Ktann.Storage.TreeKey

/-! ### Escaped strings -/

/-- The layout of one tuple-escaped string, scanned without decoding it. -/
structure EscapedScan where
  decodedLen : ℕ
  consumed : ℕ
  escaped : Bool
  deriving DecidableEq

/-- One decoded byte more, within the limit. -/
def EscapedScan.grow (scan : EscapedScan) (maximum : ℕ) : Except Error EscapedScan :=
  if maximum < scan.decodedLen + 1 then .error .corrupt
  else .ok { scan with decodedLen := scan.decodedLen + 1 }

/-- The scan loop over the bytes that remain. -/
def scanEscapedFrom (maximum : ℕ) : Bytes → EscapedScan → Except Error EscapedScan
  | [], _ => .error .corrupt
  | b :: rest, scan =>
    if b = 0 then
      match rest with
      | [] => .error .corrupt
      | c :: rest =>
        if c = 255 then do
          let scan ← { scan with escaped := true, consumed := scan.consumed + 2 : EscapedScan }.grow
            maximum
          scanEscapedFrom maximum rest scan
        else if c = 0 then .ok { scan with consumed := scan.consumed + 2 }
        else .error .corrupt
    else do
      let scan ← { scan with consumed := scan.consumed + 1 : EscapedScan }.grow maximum
      scanEscapedFrom maximum rest scan

/-- Scans one tuple-escaped string without materializing it. -/
def scanEscapedTerminated (bytes : Bytes) (maximum : ℕ) : Except Error EscapedScan :=
  scanEscapedFrom maximum bytes ⟨0, 0, false⟩

/-- The decoding walk over the bytes before the terminator. -/
def unescape : Bytes → Bytes
  | [] => []
  | [b] => [b]
  | b :: c :: rest => if b = 0 then 0 :: unescape rest else b :: unescape (c :: rest)

/-- Decodes one tuple-escaped string whose layout was already scanned. -/
def decodeEscapedTerminated (bytes : Bytes) (scan : EscapedScan) : Bytes :=
  unescape (bytes.take (scan.consumed - 2))

/-- The validation loop of a String field.  `segment` holds the literal bytes
since the last escape, checked as UTF-8 when it ends. -/
def checkStringFrom : Bytes → Bytes → ℕ → ℕ → Except Error ℕ
  | [], _, _, _ => .error .corrupt
  | b :: rest, segment, decoded, offset =>
    if b = 0 then
      if utf8From 0 0x80 0xBF segment = false then .error .corrupt
      else
        match rest with
        | [] => .error .corrupt
        | c :: rest =>
          if c = 255 then
            if maxStringBytes < decoded + 1 then .error .corrupt
            else checkStringFrom rest [] (decoded + 1) (offset + 2)
          else if c = 0 then .ok (offset + 2)
          else .error .corrupt
    else if maxStringBytes < decoded + 1 then .error .corrupt
    else checkStringFrom rest (segment ++ [b]) (decoded + 1) (offset + 1)

/-- Validates one tuple-escaped String field without materializing it. -/
def checkString (bytes : Bytes) : Except Error ℕ := checkStringFrom bytes [] 0 0

/-! ### Fields -/

/-- The integer a sign-flipped `u64` stands for: flipping the sign bit of two's
complement is an offset of `2 ^ 63`. -/
def I64.ofFlipped (n : ℕ) : I64 := ⟨((n % 2 ^ 64 : ℕ) : ℤ) - 2 ^ 63, by omega, by omega⟩

/-- The float a transformed bit pattern stands for. -/
def F64.ofTransformed (n : ℕ) : F64 :=
  ⟨if 2 ^ 63 ≤ n % 2 ^ 64 then n % 2 ^ 64 - 2 ^ 63 else 2 ^ 64 - 1 - n % 2 ^ 64, by
    split_ifs <;> omega⟩

/-- Decodes one scalar Tree Key field, with the number of bytes it consumes. -/
def decodeScalar (ty : DataType) (bytes : Bytes) : Except Error (Value × ℕ) :=
  match ty with
  | .bool =>
    match bytes with
    | [] => .error .corrupt
    | b :: _ =>
      if b = 0 then .ok (.bool false, 1)
      else if b = 1 then .ok (.bool true, 1)
      else .error .corrupt
  | .i64 => do
    let raw ← takeArray 8 bytes
    .ok (.i64 (I64.ofFlipped (fromBigEndian raw)), 8)
  | .f64 => do
    let raw ← takeArray 8 bytes
    let x := F64.ofTransformed (fromBigEndian raw)
    if x.isFinite = false ∨ x.bits = 2 ^ 63 then .error .corrupt else .ok (.f64 x, 8)
  | .string => do
    let scan ← scanEscapedTerminated bytes maxStringBytes
    if h : utf8From 0 0x80 0xBF (decodeEscapedTerminated bytes scan) = true then
      .ok (.string ⟨decodeEscapedTerminated bytes scan, h⟩, scan.consumed)
    else .error .corrupt

/-- Validates one scalar Tree Key field without materializing its value. -/
def checkScalar (ty : DataType) (bytes : Bytes) : Except Error ℕ :=
  match ty with
  | .bool =>
    match bytes with
    | [] => .error .corrupt
    | b :: _ => if b = 0 ∨ b = 1 then .ok 1 else .error .corrupt
  | .i64 => do
    let _ ← takeArray 8 bytes
    .ok 8
  | .f64 => do
    let (_, consumed) ← decodeScalar .f64 bytes
    .ok consumed
  | .string => checkString bytes

def decodeFieldsFrom (bytes : Bytes) : List DataType → ℕ → Except Error (List Value × ℕ)
  | [], offset => .ok ([], offset)
  | ty :: types, offset => do
    let (value, consumed) ← decodeScalar ty (bytes.drop offset)
    let (values, offset) ← decodeFieldsFrom bytes types (offset + consumed)
    .ok (value :: values, offset)

/-- Decodes a Tree Key field sequence and reports the consumed length. -/
def decodeFields (types : List DataType) (bytes : Bytes) : Except Error (List Value × ℕ) :=
  if maxTreeKeyBytes < bytes.length then .error .corrupt
  else decodeFieldsFrom bytes types 0

/-- Decodes a complete Tree Key, rejecting trailing bytes. -/
def decodeComplete (types : List DataType) (bytes : Bytes) : Except Error (List Value) := do
  let (values, consumed) ← decodeFields types bytes
  if consumed ≠ bytes.length then .error .corrupt else .ok values

/-- The field loop of the validator. -/
def checkFieldsFrom (bytes : Bytes) : List DataType → ℕ → Except Error ℕ
  | [], offset => .ok offset
  | ty :: types, offset => do
    let consumed ← checkScalar ty (bytes.drop offset)
    checkFieldsFrom bytes types (offset + consumed)

/-- Validates a Tree Key field sequence and reports the consumed length, which
alone is held to the limit. -/
def checkFields (types : List DataType) (bytes : Bytes) : Except Error ℕ := do
  let offset ← checkFieldsFrom bytes types 0
  if maxTreeKeyBytes < offset then .error .corrupt else .ok offset

/-- Validates a complete Tree Key, rejecting trailing bytes. -/
def checkComplete (types : List DataType) (bytes : Bytes) : Except Error Unit := do
  let consumed ← checkFields types bytes
  if consumed ≠ bytes.length then .error .corrupt else .ok ()

/-! ### The languages of the parsers -/

/-- A byte string begins with an encoding of `n` bytes. -/
def Begins (encoding : Except Error Bytes) (bytes : Bytes) (n : ℕ) : Prop :=
  ∃ word rest, encoding = .ok word ∧ bytes = word ++ rest ∧ n = word.length

variable {encoding : Except Error Bytes} {bytes : Bytes} {n maximum offset : ℕ} {b : Byte}
  {scan : EscapedScan} {value : Value} {ty : DataType} {values : List Value} {types : List DataType}
  {rest segment : Bytes} {need lo hi decoded : ℕ}

lemma Begins.le_length (h : Begins encoding bytes n) : n ≤ bytes.length := by
  obtain ⟨_, _, _, rfl, rfl⟩ := h
  rw [length_append]
  omega

lemma Begins.take (h : Begins encoding bytes n) : encoding = .ok (bytes.take n) := by
  obtain ⟨_, _, hword, rfl, rfl⟩ := h
  rw [take_left, hword]

@[simp] lemma escapeTerminated_nil : escapeTerminated [] = [0, 0] := rfl

@[simp] lemma escapeTerminated_zero (s : Bytes) :
    escapeTerminated (0 :: s) = 0 :: 255 :: escapeTerminated s := rfl

lemma escapeTerminated_ne (h : b ≠ 0) (s : Bytes) :
    escapeTerminated (b :: s) = b :: escapeTerminated s := by
  rw [escapeTerminated, if_neg h]

lemma grow_eq_ok {scan' : EscapedScan} :
    scan.grow maximum = .ok scan' ↔ scan.decodedLen + 1 ≤ maximum ∧
      scan' = { scan with decodedLen := scan.decodedLen + 1 } := by
  rw [EscapedScan.grow]
  split_ifs with h
  · simp only [false_iff, not_and]
    omega
  · rw [Except.ok.injEq, eq_comm]
    exact ⟨fun heq => ⟨by omega, heq⟩, fun heq => heq.2⟩

lemma grow_mk {decodedLen consumed : ℕ} {escaped : Bool} (h : decodedLen + 1 ≤ maximum) :
    (EscapedScan.mk decodedLen consumed escaped).grow maximum =
      .ok ⟨decodedLen + 1, consumed, escaped⟩ :=
  grow_eq_ok.mpr ⟨h, rfl⟩

lemma scanEscapedFrom_escape (h : scan.decodedLen + 1 ≤ maximum) :
    scanEscapedFrom maximum (0 :: 255 :: rest) scan =
      scanEscapedFrom maximum rest ⟨scan.decodedLen + 1, scan.consumed + 2, true⟩ := by
  rw [scanEscapedFrom, if_pos rfl, if_pos rfl, grow_mk h]
  rfl

lemma scanEscapedFrom_literal (hb : b ≠ 0) (h : scan.decodedLen + 1 ≤ maximum) :
    scanEscapedFrom maximum (b :: rest) scan =
      scanEscapedFrom maximum rest ⟨scan.decodedLen + 1, scan.consumed + 1, scan.escaped⟩ := by
  rw [scanEscapedFrom.eq_def]
  dsimp only
  rw [if_neg hb, grow_mk h]
  rfl

lemma scanEscapedFrom_escapeTerminated (s rest : Bytes)
    (h : scan.decodedLen + s.length ≤ maximum) :
    scanEscapedFrom maximum (escapeTerminated s ++ rest) scan =
      .ok ⟨scan.decodedLen + s.length, scan.consumed + (escapeTerminated s).length,
        scan.escaped || s.contains 0⟩ := by
  induction s generalizing scan with
  | nil =>
    rw [List.contains_nil, Bool.or_false]
    rfl
  | cons b s ih =>
    rw [length_cons] at h
    by_cases hb : b = 0
    · subst hb
      rw [escapeTerminated_zero, cons_append, cons_append,
        scanEscapedFrom_escape (by omega), @ih ⟨scan.decodedLen + 1, scan.consumed + 2, true⟩
          (by dsimp only; omega)]
      simp only [length_cons, List.contains_cons, beq_self_eq_true, Bool.true_or, Bool.or_true,
        Except.ok.injEq, EscapedScan.mk.injEq, and_true]
      omega
    · rw [escapeTerminated_ne hb, cons_append, scanEscapedFrom_literal hb (by omega),
        @ih ⟨scan.decodedLen + 1, scan.consumed + 1, scan.escaped⟩ (by dsimp only; omega)]
      have hne : ((0 : Byte) == b) = false := beq_eq_false_iff_ne.mpr (Ne.symm hb)
      simp only [length_cons, List.contains_cons, hne, Bool.false_or, Except.ok.injEq,
        EscapedScan.mk.injEq, and_true]
      omega

lemma exists_of_scanEscapedFrom {scan' : EscapedScan}
    (h : scanEscapedFrom maximum bytes scan = .ok scan') (hscan : scan.decodedLen ≤ maximum) :
    ∃ s rest, bytes = escapeTerminated s ++ rest ∧ scan.decodedLen + s.length ≤ maximum := by
  fun_induction scanEscapedFrom maximum bytes scan with
  | case1 | case2 => cases h
  | case3 scan rest ih =>
    obtain ⟨_, hgrow, h⟩ := bind_eq_ok.mp h
    obtain ⟨hle, rfl⟩ := grow_eq_ok.mp hgrow
    obtain ⟨s, rest', rfl, hs⟩ := ih _ h hle
    refine ⟨0 :: s, rest', rfl, ?_⟩
    rw [length_cons]
    dsimp only at hs
    omega
  | case4 _ rest => exact ⟨[], rest, rfl, hscan⟩
  | case5 => cases h
  | case6 b _ _ hb ih =>
    obtain ⟨_, hgrow, h⟩ := bind_eq_ok.mp h
    obtain ⟨hle, rfl⟩ := grow_eq_ok.mp hgrow
    obtain ⟨s, rest', rfl, hs⟩ := ih _ h hle
    refine ⟨b :: s, rest', by rw [escapeTerminated_ne hb, cons_append], ?_⟩
    rw [length_cons]
    dsimp only at hs
    omega

lemma unescape_ne (hb : b ≠ 0) (rest : Bytes) : unescape (b :: rest) = b :: unescape rest := by
  cases rest with
  | nil => rfl
  | cons c => rw [unescape, if_neg hb]

lemma exists_unescape (s : Bytes) :
    ∃ body, escapeTerminated s = body ++ [0, 0] ∧ unescape body = s := by
  induction s with
  | nil => exact ⟨[], rfl, rfl⟩
  | cons b s ih =>
    obtain ⟨body, hbody, hs⟩ := ih
    by_cases hb : b = 0
    · subst hb
      refine ⟨0 :: 255 :: body, by rw [escapeTerminated_zero, hbody]; rfl, ?_⟩
      rw [unescape, if_pos rfl, hs]
    · refine ⟨b :: body, by rw [escapeTerminated_ne hb, hbody]; rfl, ?_⟩
      rw [unescape_ne hb, hs]

lemma unescape_take (s rest : Bytes) :
    unescape ((escapeTerminated s ++ rest).take ((escapeTerminated s).length - 2)) = s := by
  obtain ⟨body, hbody, hs⟩ := exists_unescape s
  rw [hbody, length_append, append_assoc]
  change unescape ((body ++ ([0, 0] ++ rest)).take (body.length + 2 - 2)) = s
  rw [Nat.add_sub_cancel, take_left, hs]

lemma scanEscapedTerminated_eq_ok (h : scanEscapedTerminated bytes maximum = .ok scan) :
    ∃ s rest, bytes = escapeTerminated s ++ rest ∧ s.length ≤ maximum ∧
      scan.consumed = (escapeTerminated s).length ∧ decodeEscapedTerminated bytes scan = s := by
  obtain ⟨s, rest, rfl, hs⟩ := exists_of_scanEscapedFrom h (Nat.zero_le _)
  rw [scanEscapedTerminated, scanEscapedFrom_escapeTerminated s rest hs, Except.ok.injEq] at h
  rw [Nat.zero_add] at hs
  subst h
  have hconsumed : 0 + (escapeTerminated s).length = (escapeTerminated s).length := Nat.zero_add _
  refine ⟨s, rest, rfl, hs, hconsumed, ?_⟩
  rw [decodeEscapedTerminated, hconsumed, unescape_take]

/-! ### UTF-8 across escapes -/

lemma utf8Lead_low (h : utf8Lead b = some (need, lo, hi)) : 0x80 ≤ lo := by
  unfold utf8Lead at h
  split_ifs at h <;> cases h <;> omega

lemma utf8From_append_zero (segment rest : Bytes) (hlo : 1 ≤ lo) :
    utf8From need lo hi (segment ++ 0 :: rest) =
      (utf8From need lo hi segment && utf8From 0 0x80 0xBF rest) := by
  induction segment generalizing need lo hi with
  | nil =>
    cases need with
    | zero => rfl
    | succ need =>
      have hzero : decide (lo ≤ ((0 : Byte) : ℕ)) = false := by
        simp only [decide_eq_false_iff_not]
        change ¬ lo ≤ 0
        omega
      rw [nil_append, utf8From, utf8From, hzero]
      rfl
  | cons b _ ih =>
    cases need with
    | zero =>
      rw [cons_append, utf8From, utf8From]
      cases hlead : utf8Lead b with
      | none => rfl
      | some next =>
        obtain ⟨_, _, hi'⟩ := next
        exact ih (le_trans (by decide) (utf8Lead_low hlead))
    | succ =>
      rw [cons_append, utf8From, utf8From, ih (by decide), ← Bool.and_assoc]

lemma checkStringFrom_escapeTerminated (s rest : Bytes)
    (hlen : decoded + s.length ≤ maxStringBytes)
    (hutf8 : utf8From 0 0x80 0xBF (segment ++ s) = true) :
    checkStringFrom (escapeTerminated s ++ rest) segment decoded offset =
      .ok (offset + (escapeTerminated s).length) := by
  induction s generalizing segment decoded offset with
  | nil =>
    rw [append_nil] at hutf8
    rw [escapeTerminated_nil, cons_append, cons_append, checkStringFrom, if_pos rfl,
      hutf8, if_neg (by decide), if_neg (by decide), if_pos rfl]
    rfl
  | cons b s ih =>
    rw [length_cons] at hlen
    have hroom : ¬ maxStringBytes < decoded + 1 := by omega
    by_cases hb : b = 0
    · -- the escape closes the segment, and the rest starts a new one
      subst hb
      rw [utf8From_append_zero _ _ (by decide), and_eq_true] at hutf8
      rw [escapeTerminated_zero, cons_append, cons_append, checkStringFrom, if_pos rfl,
        hutf8.1, if_neg (by decide), if_pos rfl, if_neg hroom,
        ih (by omega) (by rw [nil_append]; exact hutf8.2), length_cons, length_cons]
      congr 1
      omega
    · rw [escapeTerminated_ne hb, cons_append, checkStringFrom.eq_def]
      dsimp only
      rw [if_neg hb, if_neg hroom, ih (by omega) (by rw [append_assoc]; exact hutf8), length_cons]
      congr 1
      omega

lemma exists_of_checkStringFrom (h : checkStringFrom bytes segment decoded offset = .ok n)
    (hdecoded : decoded ≤ maxStringBytes) :
    ∃ s rest, bytes = escapeTerminated s ++ rest ∧ decoded + s.length ≤ maxStringBytes ∧
      utf8From 0 0x80 0xBF (segment ++ s) = true := by
  fun_induction checkStringFrom bytes segment decoded offset with
  | case1 | case2 | case3 | case4 => cases h
  | case5 segment decoded offset hutf8 rest hroom ih =>
    obtain ⟨s, rest', rfl, hlen, hs⟩ := ih h (by omega)
    refine ⟨0 :: s, rest', rfl, by rw [length_cons]; omega, ?_⟩
    rw [utf8From_append_zero _ _ (by decide), and_eq_true]
    exact ⟨not_eq_false _ ▸ hutf8, hs⟩
  | case6 _ _ _ hutf8 rest =>
    refine ⟨[], rest, rfl, hdecoded, ?_⟩
    rw [append_nil]
    exact not_eq_false _ ▸ hutf8
  | case7 | case8 => cases h
  | case9 b _ _ _ _ hb hroom ih =>
    obtain ⟨s, rest', rfl, hlen, hs⟩ := ih h (by omega)
    refine ⟨b :: s, rest', by rw [escapeTerminated_ne hb, cons_append],
      by rw [length_cons]; omega, ?_⟩
    rwa [append_assoc] at hs

/-! ### Scalars -/

/-- The transformed bit pattern of a float. -/
def F64.transformed (x : F64) : ℕ := if 2 ^ 63 ≤ x.bits then 2 ^ 64 - 1 - x.bits
    else x.bits + 2 ^ 63

lemma F64.transformed_lt (x : F64) : x.transformed < 256 ^ 8 := by
  have := x.bound
  rw [transformed]
  split_ifs <;> omega

lemma F64.ofTransformed_transformed (x : F64) : F64.ofTransformed x.transformed = x := by
  obtain ⟨_, hbits⟩ := x
  simp only [ofTransformed, transformed, F64.mk.injEq]
  split_ifs <;> omega

lemma F64.transformed_ofTransformed (h : n < 256 ^ 8) :
    (F64.ofTransformed n).transformed = n := by
  simp only [ofTransformed, transformed]
  split_ifs <;> omega

lemma I64.ofFlipped_toNat (i : I64) : I64.ofFlipped (i.val + 2 ^ 63).toNat = i := by
  obtain ⟨_, hlower, hupper⟩ := i
  simp only [ofFlipped, I64.mk.injEq]
  omega

lemma I64.toNat_ofFlipped (h : n < 256 ^ 8) : ((I64.ofFlipped n).val + 2 ^ 63).toNat = n := by
  simp only [ofFlipped]
  omega

lemma I64.flipped_lt (i : I64) : (i.val + 2 ^ 63).toNat < 256 ^ 8 := by
  have := i.lower
  have := i.upper
  omega

section
variable {value : Value} {word : Bytes}

lemma encodeScalar_bool : encodeScalar .bool value = .ok word ↔
      ∃ b : Bool, value = .bool b ∧ word = [if b then 1 else 0] := by
  cases value <;> simp [encodeScalar, eq_comm]

lemma encodeScalar_i64 : encodeScalar .i64 value = .ok word ↔
      ∃ i : I64, value = .i64 i ∧ word = bigEndian 8 (i.val + 2 ^ 63).toNat := by
  cases value <;> simp [encodeScalar, eq_comm]

lemma encodeScalar_f64 : encodeScalar .f64 value = .ok word ↔
      ∃ x : F64, value = .f64 x ∧ x.isFinite = true ∧ x.bits ≠ 2 ^ 63 ∧
        word = bigEndian 8 x.transformed := by
  cases value with
  | f64 x =>
    rw [encodeScalar, ← F64.transformed]
    split_ifs with h
    · constructor
      · intro hok
        cases hok
      · rintro ⟨y, hy, hfinite, hbits, _⟩
        cases hy
        rcases h with h | h
        · rw [h] at hfinite
          cases hfinite
        · exact absurd h hbits
    · rw [not_or, not_eq_false] at h
      rw [Except.ok.injEq, eq_comm]
      constructor
      · intro hword
        exact ⟨x, rfl, h.1, h.2, hword⟩
      · rintro ⟨y, hy, _, _, hword⟩
        cases hy
        exact hword
  | _ => simp [encodeScalar]

lemma encodeScalar_string : encodeScalar .string value = .ok word ↔
      ∃ s : Str, value = .string s ∧ s.bytes.length ≤ maxStringBytes ∧
        word = escapeTerminated s.bytes := by
  cases value with
  | string s =>
    rw [encodeScalar]
    split_ifs with h
    · constructor
      · intro hok
        cases hok
      · rintro ⟨t, ht, hlen, _⟩
        cases ht
        omega
    · rw [Except.ok.injEq, eq_comm]
      constructor
      · exact fun hword => ⟨s, rfl, by omega, hword⟩
      · rintro ⟨t, ht, _, hword⟩
        cases ht
        exact hword
  | _ => simp [encodeScalar]

end

lemma decodeScalar_bool :
    decodeScalar .bool bytes = .ok (value, n) ↔ Begins (encodeScalar .bool value) bytes n := by
  simp only [Begins, encodeScalar_bool]
  constructor
  · intro h
    cases bytes with
    | nil => cases h
    | cons b rest =>
      simp only [decodeScalar] at h
      split_ifs at h with h0 h1
      · cases h
        exact ⟨[0], rest, ⟨false, rfl, rfl⟩, by rw [h0]; rfl, rfl⟩
      · cases h
        exact ⟨[1], rest, ⟨true, rfl, rfl⟩, by rw [h1]; rfl, rfl⟩
  · rintro ⟨_, _, ⟨b, rfl, rfl⟩, rfl, rfl⟩
    cases b <;> rfl

lemma decodeScalar_i64 :
    decodeScalar .i64 bytes = .ok (value, n) ↔ Begins (encodeScalar .i64 value) bytes n := by
  simp only [decodeScalar, bind_eq_ok, takeArray_eq_ok, Begins, encodeScalar_i64,
    Except.ok.injEq, Prod.mk.injEq]
  constructor
  · rintro ⟨raw, ⟨hlen, rest, rfl⟩, rfl, rfl⟩
    have hlt : fromBigEndian raw < 256 ^ 8 := hlen ▸ fromBigEndian_lt raw
    refine ⟨raw, rest, ⟨_, rfl, ?_⟩, rfl, hlen.symm⟩
    rw [I64.toNat_ofFlipped hlt, ← hlen, bigEndian_fromBigEndian]
  · rintro ⟨_, rest, ⟨i, rfl, rfl⟩, rfl, rfl⟩
    refine ⟨_, ⟨length_bigEndian _ _, rest, rfl⟩, ?_, (length_bigEndian _ _).symm⟩
    rw [fromBigEndian_bigEndian, Nat.mod_eq_of_lt i.flipped_lt, I64.ofFlipped_toNat]

lemma decodeScalar_f64 :
    decodeScalar .f64 bytes = .ok (value, n) ↔ Begins (encodeScalar .f64 value) bytes n := by
  simp only [decodeScalar, bind_eq_ok, takeArray_eq_ok, Begins, encodeScalar_f64]
  constructor
  · rintro ⟨raw, ⟨hlen, rest, rfl⟩, h⟩
    have hlt : fromBigEndian raw < 256 ^ 8 := hlen ▸ fromBigEndian_lt raw
    split_ifs at h with hbad
    rw [not_or, not_eq_false] at hbad
    cases h
    refine ⟨raw, rest, ⟨_, rfl, hbad.1, hbad.2, ?_⟩, rfl, hlen.symm⟩
    rw [F64.transformed_ofTransformed hlt, ← hlen, bigEndian_fromBigEndian]
  · rintro ⟨_, rest, ⟨x, rfl, hfinite, hbits, rfl⟩, rfl, rfl⟩
    refine ⟨_, ⟨length_bigEndian _ _, rest, rfl⟩, ?_⟩
    rw [fromBigEndian_bigEndian, Nat.mod_eq_of_lt x.transformed_lt, F64.ofTransformed_transformed,
      if_neg (not_or.mpr ⟨by rw [hfinite]; decide, hbits⟩), length_bigEndian]

lemma decodeScalar_string : decodeScalar .string bytes = .ok (value, n) ↔
      Begins (encodeScalar .string value) bytes n := by
  simp only [decodeScalar, bind_eq_ok, Begins, encodeScalar_string]
  constructor
  · rintro ⟨_, hscan, h⟩
    obtain ⟨s, rest, rfl, hlen, hconsumed, hs⟩ := scanEscapedTerminated_eq_ok hscan
    split_ifs at h with hutf8
    cases h
    refine ⟨escapeTerminated s, rest, ⟨_, rfl, ?_, ?_⟩, rfl, hconsumed⟩
    · dsimp only
      rwa [hs]
    · dsimp only
      rw [hs]
  · rintro ⟨_, rest, ⟨s, rfl, hlen, rfl⟩, rfl, rfl⟩
    refine ⟨_, scanEscapedFrom_escapeTerminated s.bytes rest (by dsimp only; omega), ?_⟩
    simp only [decodeEscapedTerminated, Nat.zero_add, unescape_take, s.valid, dif_pos]

lemma decodeScalar_eq_ok :
    decodeScalar ty bytes = .ok (value, n) ↔ Begins (encodeScalar ty value) bytes n := by
  cases ty with
  | bool => exact decodeScalar_bool
  | i64 => exact decodeScalar_i64
  | f64 => exact decodeScalar_f64
  | string => exact decodeScalar_string

lemma checkString_eq_ok :
    checkString bytes = .ok n ↔ ∃ value, Begins (encodeScalar .string value) bytes n := by
  simp only [Begins, encodeScalar_string]
  constructor
  · intro h
    obtain ⟨s, rest, rfl, hlen, hutf8⟩ := exists_of_checkStringFrom h (Nat.zero_le _)
    rw [checkString, checkStringFrom_escapeTerminated s rest hlen hutf8, Except.ok.injEq,
      Nat.zero_add] at h
    exact ⟨_, escapeTerminated s, rest, ⟨⟨s, hutf8⟩, rfl, by simpa using hlen, rfl⟩, rfl, h.symm⟩
  · rintro ⟨_, _, rest, ⟨s, rfl, hlen, rfl⟩, rfl, rfl⟩
    rw [checkString, checkStringFrom_escapeTerminated s.bytes rest (by omega)
      (by rw [nil_append]; exact s.valid), Nat.zero_add]

lemma checkScalar_eq_ok :
    checkScalar ty bytes = .ok n ↔ ∃ value, Begins (encodeScalar ty value) bytes n := by
  cases ty with
  | bool =>
    simp only [← decodeScalar_bool]
    cases bytes with
    | nil => simp [checkScalar, decodeScalar]
    | cons b =>
      simp only [checkScalar, decodeScalar]
      split_ifs <;> simp_all [eq_comm]
  | i64 =>
    simp only [← decodeScalar_i64, checkScalar, decodeScalar, bind_eq_ok, Except.ok.injEq,
      Prod.mk.injEq]
    constructor
    · rintro ⟨raw, hraw, hn⟩
      exact ⟨_, raw, hraw, rfl, hn⟩
    · rintro ⟨value, raw, hraw, _, hn⟩
      exact ⟨raw, hraw, hn⟩
  | f64 =>
    simp only [← decodeScalar_f64, checkScalar, bind_eq_ok, Except.ok.injEq, Prod.exists]
    constructor
    · rintro ⟨value, _, h, rfl⟩
      exact ⟨value, h⟩
    · rintro ⟨value, h⟩
      exact ⟨value, n, h, rfl⟩
  | string => exact checkString_eq_ok

/-! ### Field sequences -/

lemma appendFields_nil {word : Bytes} :
    appendFields [] values = .ok word ↔ values = [] ∧ word = [] := by
  cases values with
  | nil => simp [appendFields, eq_comm, pure, Except.pure, bind, Except.bind]
  | cons => simp [appendFields]

lemma appendFields_cons {word : Bytes} : appendFields (ty :: types) values = .ok word ↔
      ∃ value rest first second, values = value :: rest ∧ encodeScalar ty value = .ok first ∧
        appendFields types rest = .ok second ∧ word = first ++ second := by
  cases values with
  | nil => simp [appendFields]
  | cons value values =>
    simp only [appendFields, length_cons, Nat.add_right_cancel_iff, zip_cons_cons, mapM_cons]
    split_ifs with hlen
    · simp only [bind_eq_ok, pure_eq_ok, Except.ok.injEq]
      constructor
      · rintro ⟨_, ⟨first, hfirst, others, hothers, rfl⟩, rfl⟩
        refine ⟨value, values, first, others.flatten, rfl, hfirst, ?_, flatten_cons⟩
        rw [if_pos hlen, bind_eq_ok]
        exact ⟨others, hothers, rfl⟩
      · rintro ⟨_, _, first, _, hvalues, hfirst, hsecond, rfl⟩
        cases hvalues
        rw [if_pos hlen, bind_eq_ok] at hsecond
        obtain ⟨others, hothers, hflat⟩ := hsecond
        cases hflat
        exact ⟨first :: others, ⟨first, hfirst, others, hothers, rfl⟩, flatten_cons⟩
    · simp only [false_iff, not_exists, not_and]
      rintro _ _ _ _ hvalues _ hsecond
      cases hvalues
      rw [if_neg hlen] at hsecond
      cases hsecond

lemma begins_cons : Begins (appendFields (ty :: types) values) bytes n ↔
      ∃ value rest consumed m, values = value :: rest ∧
        Begins (encodeScalar ty value) bytes consumed ∧
        Begins (appendFields types rest) (bytes.drop consumed) m ∧ n = consumed + m := by
  simp only [Begins, appendFields_cons]
  constructor
  · rintro ⟨_, tail, ⟨value, rest, first, second, rfl, hfirst, hsecond, rfl⟩, rfl, rfl⟩
    refine ⟨value, rest, _, _, rfl, ⟨first, second ++ tail, hfirst, append_assoc .., rfl⟩,
      ⟨second, tail, hsecond, ?_, rfl⟩, length_append⟩
    rw [append_assoc, drop_left]
  · rintro ⟨value, rest, _, _, rfl, ⟨first, _, hfirst, rfl, rfl⟩,
      ⟨second, tail', hsecond, htail, rfl⟩, rfl⟩
    rw [drop_left] at htail
    refine ⟨first ++ second, tail', ⟨value, rest, first, second, rfl, hfirst, hsecond, rfl⟩, ?_,
      length_append.symm⟩
    rw [htail, append_assoc]

lemma begins_nil : Begins (appendFields [] values) bytes n ↔ values = [] ∧ n = 0 := by
  simp only [Begins, appendFields_nil]
  constructor
  · rintro ⟨_, _, ⟨rfl, rfl⟩, _, rfl⟩
    exact ⟨rfl, rfl⟩
  · rintro ⟨rfl, rfl⟩
    exact ⟨[], bytes, ⟨rfl, rfl⟩, rfl, rfl⟩

lemma decodeFieldsFrom_eq_ok : decodeFieldsFrom bytes types offset = .ok (values, n) ↔
      ∃ m, n = offset + m ∧ Begins (appendFields types values) (bytes.drop offset) m := by
  induction types generalizing offset values n with
  | nil =>
    simp only [decodeFieldsFrom, begins_nil, Except.ok.injEq, Prod.mk.injEq]
    constructor
    · rintro ⟨rfl, rfl⟩
      exact ⟨0, rfl, rfl, rfl⟩
    · rintro ⟨_, rfl, rfl, rfl⟩
      exact ⟨rfl, rfl⟩
  | cons _ _ ih =>
    simp only [decodeFieldsFrom, bind_eq_ok, Prod.exists, decodeScalar_eq_ok, ih,
      begins_cons, Except.ok.injEq, Prod.mk.injEq, drop_drop]
    constructor
    · rintro ⟨value, consumed, hvalue, rest, _, ⟨m, rfl, hrest⟩, rfl, rfl⟩
      exact ⟨consumed + m, Nat.add_assoc .., value, rest, consumed, m, rfl, hvalue, hrest, rfl⟩
    · rintro ⟨_, rfl, value, rest, consumed, m, rfl, hvalue, hrest, rfl⟩
      exact ⟨value, consumed, hvalue, rest, _, ⟨m, rfl, hrest⟩, rfl, Nat.add_assoc ..⟩

lemma checkFieldsFrom_eq_ok : checkFieldsFrom bytes types offset = .ok n ↔
      ∃ m values, n = offset + m ∧ Begins (appendFields types values) (bytes.drop offset) m := by
  induction types generalizing offset n with
  | nil =>
    simp only [checkFieldsFrom, begins_nil, Except.ok.injEq]
    constructor
    · rintro rfl
      exact ⟨0, [], rfl, rfl, rfl⟩
    · rintro ⟨_, _, rfl, rfl, rfl⟩
      rfl
  | cons _ _ ih =>
    simp only [checkFieldsFrom, bind_eq_ok, checkScalar_eq_ok, ih, begins_cons, drop_drop]
    constructor
    · rintro ⟨consumed, ⟨value, hvalue⟩, m, rest, rfl, hrest⟩
      exact ⟨consumed + m, _, Nat.add_assoc .., value, rest, consumed, m, rfl, hvalue, hrest, rfl⟩
    · rintro ⟨_, _, rfl, value, rest, consumed, m, rfl, hvalue, hrest, rfl⟩
      exact ⟨consumed, ⟨value, hvalue⟩, m, rest, (Nat.add_assoc ..).symm, hrest⟩

lemma decodeFields_eq_ok : decodeFields types bytes = .ok (values, n) ↔
      bytes.length ≤ maxTreeKeyBytes ∧ Begins (appendFields types values) bytes n := by
  rw [decodeFields]
  split_ifs with h
  · simp only [false_iff, not_and]
    omega
  · simp only [decodeFieldsFrom_eq_ok, Nat.zero_add, List.drop_zero, exists_eq_left']
    exact ⟨fun hb => ⟨by omega, hb⟩, fun hb => hb.2⟩

lemma checkFields_eq_ok : checkFields types bytes = .ok n ↔
      n ≤ maxTreeKeyBytes ∧ ∃ values, Begins (appendFields types values) bytes n := by
  simp only [checkFields, bind_eq_ok, checkFieldsFrom_eq_ok, Nat.zero_add, List.drop_zero]
  constructor
  · rintro ⟨_, ⟨m, values, rfl, hbegins⟩, h⟩
    split_ifs at h with hlen
    cases h
    exact ⟨by omega, values, hbegins⟩
  · rintro ⟨hlen, values, hbegins⟩
    exact ⟨n, ⟨n, values, rfl, hbegins⟩, if_neg (by omega)⟩

lemma begins_length : Begins encoding bytes bytes.length ↔ encoding = .ok bytes := by
  constructor
  · intro h
    rw [h.take, List.take_length]
  · intro h
    exact ⟨bytes, [], h, (append_nil _).symm, rfl⟩

lemma decodeComplete_eq_ok : decodeComplete types bytes = .ok values ↔
      bytes.length ≤ maxTreeKeyBytes ∧ appendFields types values = .ok bytes := by
  simp only [decodeComplete, bind_eq_ok, Prod.exists, decodeFields_eq_ok]
  constructor
  · rintro ⟨_, n, ⟨hlen, hbegins⟩, h⟩
    split_ifs at h with hn
    cases h
    rw [not_not] at hn
    exact ⟨hlen, begins_length.mp (hn ▸ hbegins)⟩
  · rintro ⟨hlen, hvalues⟩
    exact ⟨values, bytes.length, ⟨hlen, begins_length.mpr hvalues⟩, if_neg (not_not.mpr rfl)⟩

lemma checkComplete_eq_ok : checkComplete types bytes = .ok () ↔
      bytes.length ≤ maxTreeKeyBytes ∧ ∃ values, appendFields types values = .ok bytes := by
  simp only [checkComplete, bind_eq_ok, checkFields_eq_ok]
  constructor
  · rintro ⟨n, ⟨hlen, values, hbegins⟩, h⟩
    split_ifs at h with hn
    rw [not_not] at hn
    subst hn
    exact ⟨hlen, values, begins_length.mp hbegins⟩
  · rintro ⟨hlen, values, hvalues⟩
    exact ⟨bytes.length, ⟨hlen, values, begins_length.mpr hvalues⟩, if_neg (not_not.mpr rfl)⟩
