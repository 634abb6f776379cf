/-
Schema-compiled Filter Predicates: exact evaluation and synopsis pruning.

Exact evaluation is SQL's three-valued logic.  Pruning evaluates the same
expression over sets of truth values: the values some row summarised by a
Partition Synopsis may give.

* `CompiledPredicate.compile` — validation, and the sorted membership sets;
* `CompiledExpression.evaluate` — the truth of one row;
* `CompiledExpression.possibleTruths`, `CompiledPredicate.classify` — the truths
  a summarised leaf allows, and the pruning decision they give.
-/
import Ktann.Storage.Synopsis

/-! ### Truth values and sets of them -/

/-- One exact SQL truth value. -/
inductive TruthValue
  | false
  | true
  | unknown
  deriving DecidableEq, Repr

namespace TruthValue

def ofBool (b : Bool) : TruthValue := if b then .true else .false

def not : TruthValue → TruthValue
  | .false => .true
  | .true => .false
  | .unknown => .unknown

def and : TruthValue → TruthValue → TruthValue
  | .false, _ => .false
  | _, .false => .false
  | .unknown, _ => .unknown
  | _, .unknown => .unknown
  | .true, .true => .true

def or : TruthValue → TruthValue → TruthValue
  | .true, _ => .true
  | _, .true => .true
  | .unknown, _ => .unknown
  | _, .unknown => .unknown
  | .false, .false => .false

def values : List TruthValue := [.false, .true, .unknown]

lemma mem_values (t : TruthValue) : t ∈ values := by cases t <;> decide

end TruthValue

/-- The SQL truth values possible for the entries of one leaf. -/
structure TruthSet where
  hasFalse : Bool
  hasTrue : Bool
  hasUnknown : Bool
  deriving DecidableEq, Repr

namespace TruthSet

def empty : TruthSet := ⟨false, false, false⟩

variable (s : TruthSet)

def contains : TruthValue → Bool
  | .false => s.hasFalse
  | .true => s.hasTrue
  | .unknown => s.hasUnknown

def insert : TruthValue → TruthSet
  | .false => { s with hasFalse := true }
  | .true => { s with hasTrue := true }
  | .unknown => { s with hasUnknown := true }

def insertIf (c : Bool) (t : TruthValue) : TruthSet := if c then s.insert t else s

def ofList (ts : List TruthValue) : TruthSet := ts.foldl insert empty

/-- The set of `FALSE` alone, and of `TRUE` alone. -/
def false : TruthSet := empty.insert .false
def true : TruthSet := empty.insert .true

def not (s : TruthSet) : TruthSet :=
  ofList ((TruthValue.values.filter s.contains).map TruthValue.not)

def mapBinary (operation : TruthValue → TruthValue → TruthValue) (s r : TruthSet) : TruthSet :=
  ofList ((TruthValue.values.filter s.contains).flatMap fun left =>
    (TruthValue.values.filter r.contains).map (operation left))

def and (s r : TruthSet) : TruthSet := mapBinary TruthValue.and s r
def or (s r : TruthSet) : TruthSet := mapBinary TruthValue.or s r

@[simp] lemma contains_empty (t : TruthValue) : empty.contains t = Bool.false := by
  cases t <;> rfl

lemma contains_insert (t u : TruthValue) :
    (s.insert t).contains u = (decide (u = t) || s.contains u) := by
  cases t <;> cases u <;> rfl

lemma contains_insertIf (c : Bool) (t u : TruthValue) :
    (s.insertIf c t).contains u = ((c && decide (u = t)) || s.contains u) := by
  cases c
  · rfl
  · exact contains_insert s t u

lemma contains_ofList {ts : List TruthValue} {t : TruthValue} (h : t ∈ ts) :
    (ofList ts).contains t = Bool.true := by
  suffices ∀ s : TruthSet, t ∈ ts ∨ s.contains t = Bool.true →
      (ts.foldl insert s).contains t = Bool.true from this empty (Or.inl h)
  clear h
  induction ts with
  | nil => simp
  | cons u _ ih =>
    intro s hs
    refine ih _ ?_
    rw [contains_insert]
    rcases hs with hs | hs
    · rcases mem_cons.mp hs with rfl | hs
      · simp
      · exact Or.inl hs
    · simp [hs]

lemma contains_not {s : TruthSet} {t : TruthValue} (h : s.contains t = Bool.true) :
    s.not.contains t.not = Bool.true :=
  contains_ofList (mem_map.mpr ⟨t, mem_filter.mpr ⟨t.mem_values, h⟩, rfl⟩)

lemma contains_mapBinary {s r : TruthSet} {t u : TruthValue}
    {operation : TruthValue → TruthValue → TruthValue} (ht : s.contains t = Bool.true)
    (hu : r.contains u = Bool.true) : (mapBinary operation s r).contains
      (operation t u) = Bool.true :=
  contains_ofList (mem_flatMap.mpr ⟨t, mem_filter.mpr ⟨t.mem_values, ht⟩,
    mem_map.mpr ⟨u, mem_filter.mpr ⟨u.mem_values, hu⟩, rfl⟩⟩)

end TruthSet

/-! ### Compilation -/

/-- The bounded predicate after schema validation.  The values of a membership
test are sorted and without duplicates. -/
inductive CompiledExpression
  | and (children : List CompiledExpression)
  | or (children : List CompiledExpression)
  | not (child : CompiledExpression)
  | compare (field : ℕ) (op : CompareOp) (value : Value)
  | isIn (field : ℕ) (values : List Value)
  | isNull (field : ℕ)
  | isNotNull (field : ℕ)

/-- The schema facts needed to validate one decoded stored value. -/
structure CompiledField where
  index : ℕ
  dataType : DataType
  nullable : Bool
  deriving DecidableEq

/-- A schema-bound Filter Predicate. -/
structure CompiledPredicate where
  expression : CompiledExpression
  fieldCount : ℕ
  referencedFields : List CompiledField

/-- Drop the values equal to the last one kept. -/
def dedupFrom (last : Value) : List Value → List Value
  | [] => [last]
  | v :: rest =>
    if typedOrder v last = some .eq then dedupFrom last rest else last :: dedupFrom v rest

variable (values : List Value)

/-- Sort and deduplicate the values of a membership test. -/
def compileIn : List Value :=
  match values.insertionSort (fun left right => typedOrder left right ≠ some .gt) with
  | [] => []
  | v :: rest => dedupFrom v rest

namespace CompiledExpression

mutual

/-- Convert a validated predicate without changing its shape. -/
def compile : Predicate → CompiledExpression
  | .and children => .and (compileChildren children)
  | .or children => .or (compileChildren children)
  | .not child => .not (compile child)
  | .compare field op value => .compare field op value
  | .isIn field values => .isIn field (compileIn values)
  | .isNull field => .isNull field
  | .isNotNull field => .isNotNull field

def compileChildren : List Predicate → List CompiledExpression
  | [] => []
  | child :: rest => compile child :: compileChildren rest

end

end CompiledExpression

mutual

/-- Whether exact evaluation of the predicate observes a field. -/
def Predicate.references (i : ℕ) : Predicate → Bool
  | .and children => referencesAny i children
  | .or children => referencesAny i children
  | .not child => child.references i
  | .compare field _ _ => field == i
  | .isIn field _ => field == i
  | .isNull field => field == i
  | .isNotNull field => field == i

def referencesAny (i : ℕ) : List Predicate → Bool
  | [] => false
  | child :: rest => child.references i || referencesAny i rest

end

namespace CompiledPredicate

def compile (predicate : Predicate) (fields : List FieldSchema) : Except Error CompiledPredicate :=
    do
  let predicate ← predicate.validate fields
  return {
    expression := .compile predicate
    fieldCount := fields.length
    referencedFields := fields.zipIdx.filterMap fun (field, index) =>
      if predicate.references index then some ⟨index, field.dataType, field.nullable⟩ else none }

end CompiledPredicate

/-! ### Exact evaluation -/

/-- The stored value at a position bounded at compile time. -/
def fieldAt (row : List Value) (field : ℕ) : Except Error Value :=
  match row[field]? with
  | some v => .ok v
  | none => .error .corrupt

/-- One typed comparison after NULL handling. -/
def compareValues (left right : Value) (op : CompareOp) : Except Error Bool :=
  match typedOrder left right with
  | none => .error .corrupt
  | some ordering => .ok <|
    match op with
    | .eq => ordering == .eq
    | .notEq => ordering != .eq
    | .lt => ordering == .lt
    | .lessOrEqual => ordering != .gt
    | .gt => ordering == .gt
    | .greaterOrEqual => ordering != .lt

/-- Whether a sorted membership set holds a value of its domain; the code finds
it by binary search. -/
def inContains (stored : Value) : Bool := values.any fun v => typedOrder v stored == some .eq

/-- A membership test of a stored field. -/
def evaluateIn (stored : Value) : TruthValue :=
  if values.isEmpty then .false
  else if stored = .null then .unknown
  else .ofBool (inContains values stored)

namespace CompiledExpression

mutual

/-- Evaluate one node with the SQL truth tables. -/
def evaluate (row : List Value) : CompiledExpression → Except Error TruthValue
  | .and children => evaluateAnd row .true children
  | .or children => evaluateOr row .false children
  | .not child => do return (← child.evaluate row).not
  | .compare field op value => do
    let stored ← fieldAt row field
    if stored = .null then return .unknown
    else return .ofBool (← compareValues stored value op)
  | .isIn field values => do return evaluateIn values (← fieldAt row field)
  | .isNull field => do return .ofBool ((← fieldAt row field) == .null)
  | .isNotNull field => do return .ofBool ((← fieldAt row field) != .null)

/-- A conjunction, left to right, stopping at the first `FALSE`. -/
def evaluateAnd (row : List Value) : TruthValue → List CompiledExpression → Except Error TruthValue
  | result, [] => .ok result
  | result, child :: rest => do
    match ← child.evaluate row with
    | .false => return .false
    | .unknown => evaluateAnd row .unknown rest
    | .true => evaluateAnd row result rest

/-- A disjunction, left to right, stopping at the first `TRUE`. -/
def evaluateOr (row : List Value) : TruthValue → List CompiledExpression → Except Error TruthValue
  | result, [] => .ok result
  | result, child :: rest => do
    match ← child.evaluate row with
    | .true => return .true
    | .unknown => evaluateOr row .unknown rest
    | .false => evaluateOr row result rest

end

end CompiledExpression

namespace CompiledPredicate

def storedFieldValid (field : CompiledField) : Value → Bool
  | .null => field.nullable
  | v => decide (v.InDomain field.dataType) && decide (v.canonical = v)

variable (c : CompiledPredicate)

/-- Stored fields against the compiled schema; a mismatch is corruption. -/
def validateStoredFields (row : List Value) : Except Error Unit :=
  if row.length ≠ c.fieldCount then .error .corrupt
  else if c.referencedFields.all fun field =>
    row[field.index]?.any (storedFieldValid field) then .ok ()
  else .error .corrupt

def evaluateTruth (row : List Value) : Except Error TruthValue := do
  c.validateStoredFields row
  c.expression.evaluate row

/-- Whether exact stored fields satisfy the predicate: `FALSE` and `UNKNOWN`
both reject. -/
def matchesRow (row : List Value) : Except Error Bool := do
  return (← c.evaluateTruth row) == .true

end CompiledPredicate

/-! ### Pruning by a synopsis -/

/-- A conservative pruning decision for one leaf partition. -/
inductive SynopsisClassification
  | noMatch
  | mayMatch
  | allMatch
  deriving DecidableEq, Repr

/-- One field's summary with its type and Bloom parameters; a summary of no value
at all is corruption. -/
def synopsisField (ix : Index) (synopsis : PartitionSynopsis) (index : ℕ) :
    Except Error (FieldSynopsis × DataType × Option BloomParameters) :=
  match ix.fields[index]?, synopsis.fields[index]?, ix.bloomParameters[index]? with
  | some field, some f, some parameters =>
    if !f.hasNull && f.minimum.isNone then .error .corrupt
    else .ok (f, field.dataType, parameters)
  | _, _, _ => .error .corrupt

/-- `UNKNOWN` is possible exactly when NULL was seen. -/
def nullSeeded (f : FieldSynopsis) : TruthSet := TruthSet.empty.insertIf f.hasNull .unknown

/-- Whether equality with a literal is possible within the extrema and the Bloom
summary. -/
def equalityPossible (ix : Index) (f : FieldSynopsis) (minimumOrder maximumOrder : Ordering)
    (value : Value) (parameters : Option BloomParameters) : Bool :=
  minimumOrder != .gt && maximumOrder != .lt && f.bloomMightContain ix value parameters

/-- Every truth value of a comparison still possible under the summary. -/
def compareTruths (ix : Index) (f : FieldSynopsis) (op : CompareOp) (value : Value)
    (parameters : Option BloomParameters) : Except Error TruthSet :=
  match f.minimum, f.maximum with
  | some minimum, some maximum =>
    match typedOrder minimum value, typedOrder maximum value with
    | some lo, some hi =>
      let possible := equalityPossible ix f lo hi value parameters
      let certain := lo == .eq && hi == .eq
      let (truePossible, falsePossible) :=
        match op with
        | .eq => (possible, !certain)
        | .notEq => (!certain, possible)
        | .lt => (lo == .lt, hi != .lt)
        | .lessOrEqual => (lo != .gt, hi == .gt)
        | .gt => (hi == .gt, lo != .gt)
        | .greaterOrEqual => (hi != .lt, lo == .lt)
      .ok (((nullSeeded f).insertIf truePossible .true).insertIf falsePossible .false)
    | _, _ => .error .corrupt
  | _, _ => .ok (nullSeeded f)

def anyListedPossible (ix : Index) (f : FieldSynopsis) (minimum maximum : Value)
    (parameters : Option BloomParameters) : List Value → Except Error Bool
  | [] => .ok false
  | value :: rest =>
    match typedOrder minimum value, typedOrder maximum value with
    | some lo, some hi =>
      if equalityPossible ix f lo hi value parameters then .ok true
      else anyListedPossible ix f minimum maximum parameters rest
    | _, _ => .error .corrupt

/-- Every truth value of a membership test still possible under the summary. -/
def inTruths (ix : Index) (f : FieldSynopsis) (values : List Value)
    (parameters : Option BloomParameters) : Except Error TruthSet :=
  if values.isEmpty then .ok .false
  else
    match f.minimum, f.maximum with
    | some minimum, some maximum => do
      let truePossible ← anyListedPossible ix f minimum maximum parameters values
      let onlyValueIsListed := typedOrder minimum maximum == some .eq && inContains values minimum
      return ((nullSeeded f).insertIf truePossible .true).insertIf (!onlyValueIsListed) .false
    | _, _ => .ok (nullSeeded f)

/-- The truth values of a NULL test. -/
def presenceTruths (truePossible falsePossible : Bool) : Except Error TruthSet :=
  let truths := (TruthSet.empty.insertIf truePossible .true).insertIf falsePossible .false
  if truths = .empty then .error .corrupt else .ok truths

namespace CompiledExpression

mutual

/-- Evaluate over every truth value a synopsis allows. -/
def possibleTruths (ix : Index) (synopsis : PartitionSynopsis) :
    CompiledExpression → Except Error TruthSet
  | .and children => possibleAnd ix synopsis .true children
  | .or children => possibleOr ix synopsis .false children
  | .not child => do return (← child.possibleTruths ix synopsis).not
  | .compare field op value => do
    let (f, _, parameters) ← synopsisField ix synopsis field
    compareTruths ix f op value parameters
  | .isIn field values => do
    let (f, _, parameters) ← synopsisField ix synopsis field
    inTruths ix f values parameters
  | .isNull field => do
    let (f, _, _) ← synopsisField ix synopsis field
    presenceTruths f.hasNull f.minimum.isSome
  | .isNotNull field => do
    let (f, _, _) ← synopsisField ix synopsis field
    presenceTruths f.minimum.isSome f.hasNull

def possibleAnd (ix : Index) (synopsis : PartitionSynopsis) :
    TruthSet → List CompiledExpression → Except Error TruthSet
  | left, [] => .ok left
  | left, child :: rest => do
    possibleAnd ix synopsis (left.and (← child.possibleTruths ix synopsis)) rest

def possibleOr (ix : Index) (synopsis : PartitionSynopsis) :
    TruthSet → List CompiledExpression → Except Error TruthSet
  | left, [] => .ok left
  | left, child :: rest => do
    possibleOr ix synopsis (left.or (← child.possibleTruths ix synopsis)) rest

end

end CompiledExpression

namespace CompiledPredicate

/-- Whether the manifest's schema is not the one the predicate was compiled
against, as far as the predicate observes it. -/
def schemaDiffers (c : CompiledPredicate) (ix : Index) : Bool :=
  ix.fields.length != c.fieldCount ||
    c.referencedFields.any fun compiled =>
      ix.fields[compiled.index]?.all fun field =>
        field.dataType != compiled.dataType || field.nullable != compiled.nullable

def classify (c : CompiledPredicate) (ix : Index) (synopsis : PartitionSynopsis) (entryCount : ℕ) :
    Except Error SynopsisClassification :=
  if c.schemaDiffers ix || !synopsis.hasShapeFor ix then .error .corrupt
  else if entryCount = 0 then .ok .noMatch
  else if synopsis.fields.any fun f => !f.hasNull && f.minimum.isNone then .error .corrupt
  else do
    let possible ← c.expression.possibleTruths ix synopsis
    if !possible.contains .true then return .noMatch
    else if possible = .true then return .allMatch
    else return .mayMatch

end CompiledPredicate
