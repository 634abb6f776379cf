/-
Typed field values, field schemas and Filter Predicates.

The scalars are the ones the code stores: a signed 64-bit integer in range, a
64-bit float by its bit pattern, and a string as its UTF-8 bytes.  The float
order of the code is the order of `F64.rank`, which sends both zeros to `0`.

* `typedOrder` — the order of two non-NULL values of one scalar domain;
* `Value.sortKey`, `typedOrder_eq` — on one domain that order is the linear
  order of a key, so every comparison below is a comparison of keys;
* `Value.validateFor` — the caller-side check, which turns `-0.0` into `0.0`;
* `Predicate.validate` — the bounded structural check of a Filter Predicate.
-/
import Ktann.Lib.Delimited

/-! ### Errors -/

/-- The error categories the modelled code reports. -/
inductive ErrorKind
  | indexBuilding
  | bulkBuildSuperseded
  | bulkBuildBusy
  | invalidArgument
  | indexAlreadyExists
  | indexNotFound
  | indexDropping
  | recordAlreadyExists
  | unsupportedFormat
  | unsupported
  | transactionTooLarge
  | limitExceeded
  | contentionExhausted
  | retryableAbort
  | commitOutcomeUnknown
  | idExhausted
  | deadlineExceeded
  | cancelled
  | runtimeClosed
  | backend
  | other
  | corruption
  deriving DecidableEq, Repr

/-- An error and the batch position it was attributed to. -/
structure Error where
  kind : ErrorKind
  position : Option ℕ := none
  deriving DecidableEq, Repr

namespace Error

def new (kind : ErrorKind) : Error := { kind }
def invalidArgument : Error := new .invalidArgument
def corrupt : Error := new .corruption

def atPosition (e : Error) (position : ℕ) : Error := { e with position := some position }

end Error

/-! ### Scalars -/

abbrev Byte := Fin 256
abbrev Bytes := List Byte

instance byteNeZero : NeZero 256 := ⟨by decide⟩

/-- The low `width` bytes of a number, most significant first. -/
def bigEndian : ℕ → ℕ → Bytes
  | 0, _ => []
  | width + 1, n => Fin.ofNat 256 (n / 256 ^ width) :: bigEndian width n

/-- What a UTF-8 lead byte asks for: the number of continuation bytes, and the
range of the first of them.  `none` when the byte starts no character. -/
def utf8Lead (b : Byte) : Option (ℕ × ℕ × ℕ) :=
  if b.val ≤ 0x7F then some (0, 0x80, 0xBF)
  else if b.val < 0xC2 then none
  else if b.val ≤ 0xDF then some (1, 0x80, 0xBF)
  else if b.val = 0xE0 then some (2, 0xA0, 0xBF)
  else if b.val = 0xED then some (2, 0x80, 0x9F)
  else if b.val ≤ 0xEF then some (2, 0x80, 0xBF)
  else if b.val = 0xF0 then some (3, 0x90, 0xBF)
  else if b.val ≤ 0xF3 then some (3, 0x80, 0xBF)
  else if b.val = 0xF4 then some (3, 0x80, 0x8F)
  else none

/-- UTF-8 validity of the rest of a byte string inside a character that still
owes `need` continuation bytes, the next of them in `lo..=hi`. -/
def utf8From : ℕ → ℕ → ℕ → Bytes → Bool
  | 0, _, _, [] => true
  | 0, _, _, b :: rest =>
    match utf8Lead b with
    | some (need, lo, hi) => utf8From need lo hi rest
    | none => false
  | _ + 1, _, _, [] => false
  | need + 1, lo, hi, b :: rest =>
    decide (lo ≤ b.val) && decide (b.val ≤ hi) && utf8From need 0x80 0xBF rest

/-- A UTF-8 string, as its bytes. -/
structure Str where
  bytes : Bytes
  valid : utf8From 0 0x80 0xBF bytes = true
  deriving DecidableEq

/-- A signed 64-bit integer. -/
structure I64 where
  val : ℤ
  lower : -2 ^ 63 ≤ val
  upper : val < 2 ^ 63
  deriving DecidableEq

/-- A 64-bit float, as its bit pattern. -/
structure F64 where
  bits : ℕ
  bound : bits < 2 ^ 64
  deriving DecidableEq

namespace F64

/-- Neither an infinity nor a NaN: the exponent is not all ones. -/
def isFinite (x : F64) : Bool := x.bits / 2 ^ 52 % 2 ^ 11 != 2 ^ 11 - 1

/-- The sign-magnitude value of the bit pattern.  It orders finite floats as
the float comparison does, and sends both zeros to `0`. -/
def rank (x : F64) : ℤ := if x.bits < 2 ^ 63 then x.bits else -(x.bits - 2 ^ 63 : ℤ)

def zero : F64 := ⟨0, by decide⟩

/-- Negative zero replaced by positive zero. -/
def canonical (x : F64) : F64 := if x.rank = 0 then zero else x

lemma rank_zero : zero.rank = 0 := rfl

lemma rank_canonical (x : F64) : x.canonical.rank = x.rank := by
  rw [canonical]
  split_ifs with h
  · rw [rank_zero, h]
  · rfl

lemma canonical_eq_of_rank {x y : F64} (h : x.rank = y.rank) : x.canonical = y.canonical := by
  rw [canonical, canonical, h]
  split_ifs with h0
  · rfl
  · obtain ⟨_, hx⟩ := x
    obtain ⟨b, hy⟩ := y
    simp only [rank] at h h0
    simp only [mk.injEq]
    -- a nonzero rank determines the sign, and with it the magnitude
    split_ifs at h h0 <;> omega

end F64

/-! ### Values and their order -/

/-- A typed field's value domain. -/
inductive DataType
  | bool
  | i64
  | f64
  | string
  deriving DecidableEq, Repr

/-- A typed Vector Record field value. -/
inductive Value
  | null
  | bool (b : Bool)
  | i64 (i : I64)
  | f64 (x : F64)
  | string (s : Str)
  deriving DecidableEq

/-- The greatest length of a string value, in bytes. -/
def maxStringBytes : ℕ := 1024

/-- The order of two non-NULL values from the same scalar domain. -/
def typedOrder : Value → Value → Option Ordering
  | .bool left, .bool right => some (order left right)
  | .i64 left, .i64 right => some (order left.val right.val)
  | .f64 left, .f64 right =>
    if left.isFinite && right.isFinite then some (order left.rank right.rank) else none
  | .string left, .string right => some (order left.bytes right.bytes)
  | _, _ => none

namespace Value

/-- Whether a value belongs to the scalar domain of a type: the right kind, a
finite float, a string within the size limit. -/
def InDomain (dataType : DataType) : Value → Prop
  | .null => False
  | .bool _ => dataType = .bool
  | .i64 _ => dataType = .i64
  | .f64 x => dataType = .f64 ∧ x.isFinite = true
  | .string s => dataType = .string ∧ s.bytes.length ≤ maxStringBytes

instance (dataType : DataType) : DecidablePred (InDomain dataType) := fun v => by
  cases v <;> unfold InDomain <;> infer_instance

/-- A key whose linear order is the order of the value's domain. -/
def sortKey : Value → List ℤ
  | .null => []
  | .bool b => [if b then 1 else 0]
  | .i64 i => [i.val]
  | .f64 x => [x.rank]
  | .string s => s.bytes.map fun b => (b.val : ℤ)

/-- A value with negative zero replaced by positive zero. -/
def canonical : Value → Value
  | .f64 x => .f64 x.canonical
  | v => v

/-- The check a record field or a predicate literal passes, with the value it
leaves behind. -/
def validateFor (v : Value) (dataType : DataType) (nullable : Bool) : Except Error Value :=
  match v with
  | .null => if nullable then .ok v else .error .invalidArgument
  | v => if v.InDomain dataType then .ok v.canonical else .error .invalidArgument

@[simp] lemma sortKey_canonical (v : Value) : v.canonical.sortKey = v.sortKey := by
  cases v with
  | f64 x => simp only [canonical, sortKey, F64.rank_canonical]
  | _ => rfl

lemma InDomain.ne_null {dataType : DataType} {v : Value} (h : v.InDomain dataType) :
    v ≠ .null := by
  rintro rfl
  exact h

lemma InDomain.canonical {dataType : DataType} {v : Value} (h : v.InDomain dataType) :
    v.canonical.InDomain dataType := by
  cases v with
  | f64 x =>
    refine ⟨h.1, ?_⟩
    rw [F64.canonical]
    split_ifs
    · rfl
    · exact h.2
  | _ => exact h

end Value

lemma order_map_val (s t : Bytes) :
    order (s.map fun b => (b.val : ℤ)) (t.map fun b => (b.val : ℤ)) = order s t := by
  refine order_map (f := fun s : Bytes => s.map fun b => (b.val : ℤ)) ?_ s t
  intro s t h
  induction h with
  | nil => exact List.Lex.nil
  | cons _ ih => exact List.Lex.cons ih
  | rel h => exact List.Lex.rel (Int.ofNat_lt.mpr h)

lemma order_singleton (i j : ℤ) : order [i] [j] = order i j :=
  order_map (f := fun i : ℤ => [i]) (fun _ _ h => List.Lex.rel h) i j

section

variable {dataType : DataType} {v w : Value} (hv : v.InDomain dataType) (hw : w.InDomain dataType)

include hv hw

lemma typedOrder_eq : typedOrder v w = some (order v.sortKey w.sortKey) := by
  cases dataType with
  | bool =>
    cases v <;> cases w <;> simp only [Value.InDomain, reduceCtorEq, false_and] at hv hw
    rename_i b c
    cases b <;> cases c <;> rfl
  | i64 =>
    cases v <;> cases w <;> simp only [Value.InDomain, reduceCtorEq, false_and] at hv hw
    simp only [typedOrder, Value.sortKey, order_singleton]
  | f64 =>
    cases v <;> cases w <;> simp only [Value.InDomain, reduceCtorEq, false_and] at hv hw
    simp only [typedOrder, Value.sortKey, order_singleton, hv.2, hw.2, Bool.and_self, if_true]
  | string =>
    cases v <;> cases w <;> simp only [Value.InDomain, reduceCtorEq, false_and] at hv hw
    simp only [typedOrder, Value.sortKey, order_map_val]

/-- Values of one domain with the same sort key are the same value, up to the
sign of zero. -/
lemma Value.canonical_eq_of_sortKey (h : v.sortKey = w.sortKey) : v.canonical = w.canonical := by
  have hord : typedOrder v w = some .eq := by rw [typedOrder_eq hv hw, order_eq_eq.mpr h]
  cases v <;> cases w <;> simp only [typedOrder, reduceCtorEq] at hord
  case bool b c => rw [order_eq_eq.mp (Option.some.inj hord)]
  case i64 i j =>
    cases i
    cases j
    simpa only [Value.canonical, Value.i64.injEq, I64.mk.injEq] using
      order_eq_eq.mp (Option.some.inj hord)
  case f64 x y =>
    simp only [Value.sortKey, List.cons.injEq, and_true] at h
    simp only [Value.canonical, F64.canonical_eq_of_rank h]
  case string s t =>
    cases s
    cases t
    simpa only [Value.canonical, Value.string.injEq, Str.mk.injEq] using
      order_eq_eq.mp (Option.some.inj hord)

end

/-! ### Field schemas -/

/-- The schema of one positional Vector Record field. -/
structure FieldSchema where
  name : String
  dataType : DataType
  nullable : Bool
  deriving DecidableEq

/-- A value the caller-side check accepts and leaves as it is. -/
def FieldSchema.Accepts (field : FieldSchema) (v : Value) : Prop :=
  v.validateFor field.dataType field.nullable = .ok v

def SchemaValid (fields : List FieldSchema) (row : List Value) : Prop :=
  List.Forall₂ FieldSchema.Accepts fields row

lemma FieldSchema.accepts_iff {field : FieldSchema} {v : Value} : field.Accepts v ↔
      (v = .null ∧ field.nullable = true) ∨ (v.InDomain field.dataType ∧ v.canonical = v) := by
  rw [FieldSchema.Accepts]
  cases v with
  | null => by_cases h : field.nullable = true <;> simp [Value.validateFor, Value.InDomain, h]
  | _ =>
    simp only [Value.validateFor, reduceCtorEq, false_and, false_or]
    split_ifs with h
    · simp only [h, true_and, Except.ok.injEq]
    · simp only [h, false_and]

/-! ### Filter Predicates -/

/-- A typed comparison operator. -/
inductive CompareOp
  | eq
  | notEq
  | lt
  | lessOrEqual
  | gt
  | greaterOrEqual
  deriving DecidableEq, Repr

/-- An exact typed Filter Predicate.  Fields are schema positions. -/
inductive Predicate
  | and (children : List Predicate)
  | or (children : List Predicate)
  | not (child : Predicate)
  | compare (field : ℕ) (op : CompareOp) (value : Value)
  | isIn (field : ℕ) (values : List Value)
  | isNull (field : ℕ)
  | isNotNull (field : ℕ)

namespace Predicate

def maxNodes : ℕ := 1024
def maxDepth : ℕ := 64
def maxInValues : ℕ := 1024

def fieldSchema (field : ℕ) (fields : List FieldSchema) : Except Error FieldSchema :=
  match fields[field]? with
  | some schema => .ok schema
  | none => .error .invalidArgument

/-- The check of one literal, which NULL never passes. -/
def validateLiteral (schema : FieldSchema) (value : Value) : Except Error Value :=
  value.validateFor schema.dataType false

mutual

/-- Validate one subtree at a depth, with the nodes counted so far; the result
carries the subtree with its literals made canonical. -/
def validateAt (fields : List FieldSchema) : Predicate → ℕ → ℕ → Except Error (Predicate × ℕ)
  | p, depth, nodes =>
    let nodes := nodes + 1
    if depth > maxDepth ∨ nodes > maxNodes then .error .invalidArgument
    else
      match p with
      | .and children => do
        let (children, nodes) ← validateChildren fields children (depth + 1) nodes
        return (.and children, nodes)
      | .or children => do
        let (children, nodes) ← validateChildren fields children (depth + 1) nodes
        return (.or children, nodes)
      | .not child => do
        let (child, nodes) ← validateAt fields child (depth + 1) nodes
        return (.not child, nodes)
      | .compare field op value =>
        if value = .null then .error .invalidArgument
        else do
          let value ← validateLiteral (← fieldSchema field fields) value
          return (.compare field op value, nodes)
      | .isIn field values => do
        let schema ← fieldSchema field fields
        if values.length > maxInValues ∨ .null ∈ values then .error .invalidArgument
        else do
          let values ← values.mapM (validateLiteral schema)
          return (.isIn field values, nodes)
      | .isNull field => do
        let _ ← fieldSchema field fields
        return (.isNull field, nodes)
      | .isNotNull field => do
        let _ ← fieldSchema field fields
        return (.isNotNull field, nodes)

/-- Validate the children of a conjunction or disjunction, first to last. -/
def validateChildren (fields : List FieldSchema) :
    List Predicate → ℕ → ℕ → Except Error (List Predicate × ℕ)
  | [], _, nodes => .ok ([], nodes)
  | child :: rest, depth, nodes => do
    let (child, nodes) ← validateAt fields child depth nodes
    let (rest, nodes) ← validateChildren fields rest depth nodes
    return (child :: rest, nodes)

end

def validate (p : Predicate) (fields : List FieldSchema) : Except Error Predicate := do
  let (p, _) ← p.validateAt fields 1 0
  return p

end Predicate
