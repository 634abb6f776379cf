/-
Compiled predicates follow SQL's three-valued logic.

`Predicate.truth` is the recursive SQL definition on the predicate as it was written:
the Kleene connectives, comparisons in the order of the field's domain, and `IN`
over the list as it was given.

* `compileIn_sorted` — a membership set is strictly sorted, as its binary search
  needs, and loses no value of the list;
* `CompiledExpression.WellTyped`, `compile_faithful` — what compilation establishes
  of every literal and field position, and the truth the compiled form gives;
* `evaluateTruth_eq_truth` — the compiled predicate gives the SQL truth.
-/
import Ktann.Search.Predicate

open Value (sortKey validateFor)

/-! ### What compilation establishes -/

namespace CompiledExpression

mutual

/-- Every literal is a canonical value of its field's domain, and every field
position is one of the schema's. -/
def WellTyped (fields : List FieldSchema) : CompiledExpression → Prop
  | .and children => AllWellTyped fields children
  | .or children => AllWellTyped fields children
  | .not child => child.WellTyped fields
  | .compare i _ value => ∃ field, fields[i]? = some field ∧ value.InDomain field.dataType ∧
    value.canonical = value
  | .isIn i values => ∃ field, fields[i]? = some field ∧
    ∀ v ∈ values, v.InDomain field.dataType ∧ v.canonical = v
  | .isNull i => ∃ field, fields[i]? = some field
  | .isNotNull i => ∃ field, fields[i]? = some field

def AllWellTyped (fields : List FieldSchema) : List CompiledExpression → Prop
  | [] => True
  | child :: rest => child.WellTyped fields ∧ AllWellTyped fields rest

end

end CompiledExpression

variable {field : FieldSchema}

lemma Predicate.fieldSchema_eq_ok {i : ℕ} {fields : List FieldSchema}
    (h : fieldSchema i fields = .ok field) : fields[i]? = some field := by
  rw [fieldSchema] at h
  split at h
  · rename_i schema hi
    cases h
    exact hi
  · cases h

lemma Value.canonical_canonical (v : Value) : v.canonical.canonical = v.canonical := by
  cases v with
  | f64 x => simp only [canonical, F64.canonical_eq_of_rank x.rank_canonical]
  | _ => rfl

variable {v : Value} {row : List Value} {fields : List FieldSchema}

lemma Predicate.validateLiteral_spec {w : Value} (h : validateLiteral field v = .ok w) :
    w.InDomain field.dataType ∧ w.canonical = w := by
  by_cases hdom : v.InDomain field.dataType
  · have hw : w = v.canonical := by
      cases v <;> simp_all [validateLiteral, validateFor, Value.InDomain]
    rw [hw]
    exact ⟨hdom.canonical, v.canonical_canonical⟩
  · cases v <;> simp_all [validateLiteral, validateFor]

lemma mem_dedupFrom {last : Value} : ∀ {l : List Value}, v ∈ dedupFrom last l →
    v = last ∨ v ∈ l := by
  intro l
  induction l generalizing last with
  | nil => simp [dedupFrom]
  | cons w _ ih =>
    rw [dedupFrom]
    split_ifs
    · intro h
      exact (ih h).imp_right (mem_cons_of_mem w)
    · intro h
      rcases mem_cons.mp h with h | h
      · exact Or.inl h
      · rcases ih h with rfl | h
        · exact Or.inr mem_cons_self
        · exact Or.inr (mem_cons_of_mem w h)

lemma mem_compileIn {values : List Value} (h : v ∈ compileIn values) : v ∈ values := by
  rw [compileIn] at h
  split at h
  · cases h
  · rename_i w rest hsort
    rw [← List.mem_insertionSort (r := fun a b => typedOrder a b ≠ some .gt), hsort]
    rcases mem_dedupFrom h with rfl | h
    · exact mem_cons_self
    · exact mem_cons_of_mem w h

lemma TruthValue.foldl_and_false (ts : List TruthValue) : ts.foldl and .false = .false := by
  induction ts with
  | nil => rfl
  | cons t _ ih => exact ih

lemma TruthValue.foldl_or_true (ts : List TruthValue) : ts.foldl or .true = .true := by
  induction ts with
  | nil => rfl
  | cons t _ ih => exact ih

namespace CompiledExpression

lemma evaluateAnd_eq : ∀ {es : List CompiledExpression} {ts : List TruthValue},
    List.Forall₂ (fun e t => e.evaluate row = .ok t) es ts → ∀ {result : TruthValue},
      result ≠ .false → evaluateAnd row result es = .ok (ts.foldl .and result) := by
  intro es ts h
  induction h with
  | nil => intro result _; rw [evaluateAnd]; rfl
  | @cons e t _ _ he _ ih =>
    intro result hresult
    rw [evaluateAnd, he]
    cases t with
    | false =>
      have hstop : result.and .false = .false := by cases result <;> rfl
      rw [foldl_cons, hstop, TruthValue.foldl_and_false]
      rfl
    | unknown =>
      have hunknown : result.and .unknown
        = .unknown := by cases result <;> first | rfl | simp at hresult
      rw [foldl_cons, hunknown]
      exact ih (by decide)
    | true =>
      have hsame : result.and .true = result := by cases result <;> rfl
      rw [foldl_cons, hsame]
      exact ih hresult

lemma evaluateOr_eq : ∀ {es : List CompiledExpression} {ts : List TruthValue},
    List.Forall₂ (fun e t => e.evaluate row = .ok t) es ts → ∀ {result : TruthValue},
      result ≠ .true → evaluateOr row result es = .ok (ts.foldl .or result) := by
  intro es ts h
  induction h with
  | nil => intro result _; rw [evaluateOr]; rfl
  | @cons e t _ _ he _ ih =>
    intro result hresult
    rw [evaluateOr, he]
    cases t with
    | true =>
      have hstop : result.or .true = .true := by cases result <;> rfl
      rw [foldl_cons, hstop, TruthValue.foldl_or_true]
      rfl
    | unknown =>
      have hunknown : result.or .unknown
        = .unknown := by cases result <;> first | rfl | simp at hresult
      rw [foldl_cons, hunknown]
      exact ih (by decide)
    | false =>
      have hsame : result.or .false = result := by cases result <;> rfl
      rw [foldl_cons, hsame]
      exact ih hresult

end CompiledExpression

/-! ### The SQL meaning -/

/-- A comparison in the order of the domain, where `-0.0` and `0.0` have one key. -/
def CompareOp.holds (op : CompareOp) (left right : List ℤ) : Bool :=
  match op with
  | .eq => left = right
  | .notEq => left ≠ right
  | .lt => left < right
  | .lessOrEqual => left ≤ right
  | .gt => right < left
  | .greaterOrEqual => right ≤ left

def compareTruth (stored : Value) (op : CompareOp) (value : Value) : TruthValue :=
  if stored = .null then .unknown else .ofBool (op.holds stored.sortKey value.sortKey)

/-- Membership in the list as it was given.  An empty list has no member, not even
an unknown one. -/
def inTruth (stored : Value) (values : List Value) : TruthValue :=
  if values = [] then .false
  else if stored = .null then .unknown
  else .ofBool (values.any fun v => CompareOp.eq.holds stored.sortKey v.sortKey)

mutual

def Predicate.truth (row : List Value) : Predicate → TruthValue
  | .and children => (truths row children).foldl .and .true
  | .or children => (truths row children).foldl .or .false
  | .not child => (child.truth row).not
  | .compare field op value => compareTruth (row.getD field .null) op value
  | .isIn field values => inTruth (row.getD field .null) values
  | .isNull field => .ofBool (row.getD field .null == .null)
  | .isNotNull field => .ofBool (row.getD field .null != .null)

def truths (row : List Value) : List Predicate → List TruthValue
  | [] => []
  | child :: rest => child.truth row :: truths row rest

end

section
variable {t : DataType} {v w stored : Value} {values : List Value} {field : FieldSchema}

lemma compareValues_eq (hv : v.InDomain t) (hw : w.InDomain t) (op : CompareOp) :
    compareValues v w op = .ok (op.holds v.sortKey w.sortKey) := by
  rw [compareValues, typedOrder_eq hv hw]
  rcases lt_trichotomy v.sortKey w.sortKey with h | h | h
  · rw [order_eq_lt.mpr h]
    cases op <;> simp [CompareOp.holds, h, h.ne, h.le, h.not_gt, h.not_ge]
  · rw [order_eq_eq.mpr h, h]
    cases op <;> simp [CompareOp.holds]
  · rw [order_eq_gt.mpr h]
    cases op <;> simp [CompareOp.holds, h, h.ne', h.le, h.not_gt, h.not_ge]

/-! ### Membership sets -/

lemma typedOrder_eq_some_eq (hv : v.InDomain t) (hw : w.InDomain t) :
    typedOrder v w = some .eq ↔ v.sortKey = w.sortKey := by
  rw [typedOrder_eq hv hw, some_inj, order_eq_eq]

lemma dedupFrom_spec {last : Value} {l : List Value} (hdom : ∀ u ∈ last :: l, u.InDomain t)
    (h : (last :: l).Pairwise fun a b => a.sortKey ≤ b.sortKey) :
    (dedupFrom last l).Pairwise (fun a b => a.sortKey < b.sortKey) ∧
      (∀ u ∈ dedupFrom last l, last.sortKey ≤ u.sortKey) ∧
      ∀ u ∈ last :: l, ∃ u' ∈ dedupFrom last l, u'.sortKey = u.sortKey := by
  induction l generalizing last with
  | nil => simp [dedupFrom]
  | cons a l ih =>
    obtain ⟨hlast, hl⟩ := pairwise_cons.mp h
    have ha := hdom a (by simp)
    rw [dedupFrom]
    split_ifs with heq
    · rw [typedOrder_eq_some_eq ha (hdom last mem_cons_self)] at heq
      -- a is dropped, and its key is that of last
      have hsub : ∀ u ∈ last :: l, u ∈ last :: a :: l := fun u hu => by
        rcases mem_cons.mp hu with rfl | hu <;> simp [*]
      obtain ⟨hs, hle, hall⟩ := ih (fun u hu => hdom u (hsub u hu))
        (h.sublist (.cons_cons _ (List.sublist_cons_self a l)))
      refine ⟨hs, hle, fun u hu => ?_⟩
      rcases mem_cons.mp hu with rfl | hu
      · exact hall u mem_cons_self
      · rcases mem_cons.mp hu with rfl | hu
        · exact heq ▸ hall last mem_cons_self
        · exact hall u (mem_cons_of_mem _ hu)
    · rw [typedOrder_eq_some_eq ha (hdom last mem_cons_self)] at heq
      -- last is kept, below all that follow
      have hlt : last.sortKey < a.sortKey := (hlast a mem_cons_self).lt_of_ne (Ne.symm heq)
      obtain ⟨hs, hle, hall⟩ := ih (fun u hu => hdom u (mem_cons_of_mem _ hu)) hl
      refine ⟨pairwise_cons.mpr ⟨fun u hu => hlt.trans_le (hle u hu), hs⟩, ?_, ?_⟩
      · exact forall_mem_cons.mpr ⟨le_rfl, fun u hu => (hlt.trans_le (hle u hu)).le⟩
      · refine forall_mem_cons.mpr ⟨⟨last, mem_cons_self, rfl⟩, fun u hu => ?_⟩
        obtain ⟨u', hu', hkey⟩ := hall u hu
        exact ⟨u', mem_cons_of_mem _ hu', hkey⟩

lemma compileIn_sorted (hdom : ∀ u ∈ values, u.InDomain t) :
    (compileIn values).Pairwise (fun a b => a.sortKey < b.sortKey) ∧
      ∀ u ∈ values, ∃ u' ∈ compileIn values, u'.sortKey = u.sortKey := by
  -- on values of one type the comparator is the order of the keys
  have hmap := List.map_insertionSort (fun a b => typedOrder a b ≠ some .gt) (· ≤ ·) sortKey
    values fun a ha b hb => by
      rw [typedOrder_eq (hdom a ha) (hdom b hb), Ne, some_inj, order_eq_gt, not_lt]
  have hsorted : ((values.insertionSort fun a b => typedOrder a b ≠ some .gt).map
      sortKey).Pairwise (· ≤ ·) := hmap ▸ List.pairwise_insertionSort _ _
  rw [pairwise_map] at hsorted
  have hmem := fun u =>
    (List.perm_insertionSort (fun a b => typedOrder a b ≠ some .gt) values).mem_iff
    (a := u)
  unfold compileIn
  split
  · rename_i hnil
    rw [hnil] at hmem
    exact ⟨.nil, fun u hu => nomatch (hmem u).mpr hu⟩
  · rename_i last l hcons
    rw [hcons] at hsorted hmem
    obtain ⟨hs, -, hall⟩ := dedupFrom_spec (fun u hu => hdom u ((hmem u).mp hu)) hsorted
    exact ⟨hs, fun u hu => hall u ((hmem u).mpr hu)⟩

lemma inContains_iff (hv : v.InDomain field.dataType)
    (hvalues : ∀ u ∈ values, u.InDomain field.dataType ∧ u.canonical = u) :
    inContains values v = true ↔ ∃ u ∈ values, u.sortKey = v.sortKey := by
  rw [inContains, List.any_eq_true]
  refine exists_congr fun u => and_congr_right fun hu => ?_
  rw [typedOrder_eq (hvalues u hu).1 hv]
  simp

lemma Predicate.validateLiteral_ok (h : validateLiteral field v = .ok w) : w = v.canonical := by
  cases v <;> simp only [validateLiteral, validateFor] at h <;> split_ifs at h <;> cases h <;>
    rfl

lemma evaluateIn_eq {vs : List Value} (h : vs.mapM (Predicate.validateLiteral field) = .ok values)
    (hs : stored = .null ∨ stored.InDomain field.dataType) :
    evaluateIn (compileIn values) stored = inTruth stored vs := by
  have hpairs := mapM_eq_ok.mp h
  have hdom : ∀ u ∈ values, u.InDomain field.dataType ∧ u.canonical = u := fun u hu => by
    obtain ⟨w, -, hw⟩ := exists_of_mem_mapM h hu
    exact Predicate.validateLiteral_spec hw
  obtain ⟨-, hall⟩ := compileIn_sorted fun u hu => (hdom u hu).1
  have hkeys : values.map sortKey = vs.map sortKey := by
    clear h hdom hall
    induction hpairs with
    | nil => rfl
    | cons hw _ ih =>
      rw [map_cons, map_cons, ih, Predicate.validateLiteral_ok hw, Value.sortKey_canonical]
  have hempty : (compileIn values).isEmpty = true ↔ vs = [] := by
    have hvs : vs = [] ↔ values = [] := by
      rw [← List.map_eq_nil_iff (f := sortKey), ← hkeys, List.map_eq_nil_iff]
    rw [List.isEmpty_iff, hvs]
    constructor
    · intro hnil
      refine List.eq_nil_iff_forall_not_mem.mpr fun u hu => ?_
      obtain ⟨u', hu', -⟩ := hall u hu
      rw [hnil] at hu'
      cases hu'
    · rintro rfl
      rfl
  have hmem (hd : stored.InDomain field.dataType) : inContains (compileIn values) stored =
      vs.any fun v => CompareOp.eq.holds stored.sortKey v.sortKey := by
    rw [Bool.eq_iff_iff, inContains_iff hd fun u hu => hdom u (mem_compileIn hu), List.any_eq_true]
    simp only [CompareOp.holds, decide_eq_true_eq]
    constructor
    · rintro ⟨u, hu, hkey⟩
      have hin := hkeys ▸ mem_map_of_mem (f := sortKey) (mem_compileIn hu)
      obtain ⟨x, hx, hxu⟩ := mem_map.mp hin
      exact ⟨x, hx, (hxu.trans hkey).symm⟩
    · rintro ⟨x, hx, hkey⟩
      have hin := hkeys.symm ▸ mem_map_of_mem (f := sortKey) hx
      obtain ⟨u, hu, hux⟩ := mem_map.mp hin
      obtain ⟨u', hu', hkey'⟩ := hall u hu
      exact ⟨u', hu', (hkey'.trans hux).trans hkey.symm⟩
  simp only [evaluateIn, inTruth, hempty]
  split_ifs with hnil hnull
  · rfl
  · rfl
  · rw [hmem (hs.resolve_left hnull)]

end

/-! ### Every predicate -/

lemma SchemaValid.fieldAt_ok (hrow : SchemaValid fields row) {i : ℕ}
    (h : fields[i]? = some field) : fieldAt row i = .ok (row.getD i .null) ∧
      (row.getD i .null = .null ∨ (row.getD i .null).InDomain field.dataType) := by
  obtain ⟨hi, rfl⟩ := getElem?_eq_some_iff.mp h
  have hi' : i < row.length := hrow.length_eq ▸ hi
  have hget : row.getD i .null = row[i] := by simp [hi']
  rw [hget, fieldAt, getElem?_eq_getElem hi']
  exact ⟨rfl, (FieldSchema.accepts_iff.mp (hrow.get hi hi')).imp And.left And.left⟩

namespace CompiledExpression

mutual

lemma compile_faithful : ∀ (p : Predicate) {depth nodes nodes' : ℕ}
    {p' : Predicate}, p.validateAt fields depth nodes = .ok (p', nodes') →
      (compile p').WellTyped fields ∧ ∀ row, SchemaValid fields row →
        (compile p').evaluate row = .ok (p.truth row) := by
  intro p _ _ _ p' h
  rw [Predicate.validateAt.eq_def] at h
  simp only at h
  split_ifs at h
  cases p with
  | and children =>
    obtain ⟨⟨_, n⟩, hc, h⟩ := bind_eq_ok.mp h
    cases h
    obtain ⟨htyped, htruths⟩ := compileChildren_faithful children hc
    exact ⟨htyped, fun row hrow => evaluateAnd_eq (htruths row hrow) (by decide)⟩
  | or children =>
    obtain ⟨⟨_, n⟩, hc, h⟩ := bind_eq_ok.mp h
    cases h
    obtain ⟨htyped, htruths⟩ := compileChildren_faithful children hc
    exact ⟨htyped, fun row hrow => evaluateOr_eq (htruths row hrow) (by decide)⟩
  | not child =>
    obtain ⟨⟨_, n⟩, hc, h⟩ := bind_eq_ok.mp h
    cases h
    obtain ⟨htyped, htruth⟩ := compile_faithful child hc
    exact ⟨htyped, fun row hrow => bind_eq_ok.mpr ⟨_, htruth row hrow, rfl⟩⟩
  | compare i _ value =>
    simp only at h
    split_ifs at h
    obtain ⟨field, hfield, h⟩ := bind_eq_ok.mp h
    obtain ⟨v, hv, h⟩ := bind_eq_ok.mp h
    cases h
    have hi := Predicate.fieldSchema_eq_ok hfield
    have hspec := Predicate.validateLiteral_spec hv
    refine ⟨⟨field, hi, hspec⟩, fun row hrow => ?_⟩
    obtain ⟨hat, hs⟩ := hrow.fieldAt_ok hi
    refine bind_eq_ok.mpr ⟨_, hat, ?_⟩
    rw [Predicate.truth, compareTruth]
    split_ifs with hnull
    · rfl
    -- validation replaces a literal by its canonical form, -0.0 by 0.0
    · have hkey : v.sortKey = value.sortKey := by
        rw [Predicate.validateLiteral_ok hv, Value.sortKey_canonical]
      rw [compareValues_eq (hs.resolve_left hnull) hspec.1, hkey]
      rfl
  | isIn i =>
    obtain ⟨field, hfield, h⟩ := bind_eq_ok.mp h
    split_ifs at h
    obtain ⟨_, hvs, h⟩ := bind_eq_ok.mp h
    cases h
    have hi := Predicate.fieldSchema_eq_ok hfield
    refine ⟨⟨field, hi, fun v hv => ?_⟩, fun row hrow => ?_⟩
    · obtain ⟨w, -, hw⟩ := exists_of_mem_mapM hvs (mem_compileIn hv)
      exact Predicate.validateLiteral_spec hw
    · obtain ⟨hat, hs⟩ := hrow.fieldAt_ok hi
      exact bind_eq_ok.mpr ⟨_, hat, congrArg Except.ok (evaluateIn_eq hvs hs)⟩
  | isNull i | isNotNull i =>
    obtain ⟨field, hfield, h⟩ := bind_eq_ok.mp h
    cases h
    have hi := Predicate.fieldSchema_eq_ok hfield
    exact ⟨⟨field, hi⟩, fun row hrow =>
      bind_eq_ok.mpr ⟨_, (hrow.fieldAt_ok hi).1, rfl⟩⟩

lemma compileChildren_faithful : ∀ (ps : List Predicate)
    {depth nodes nodes' : ℕ} {ps' : List Predicate},
      Predicate.validateChildren fields ps depth nodes = .ok (ps', nodes') →
        AllWellTyped fields (compileChildren ps') ∧ ∀ row, SchemaValid fields row →
          List.Forall₂ (fun (e : CompiledExpression) t => e.evaluate row = .ok t)
            (compileChildren ps') (truths row ps) := by
  intro ps _ _ _ _ h
  cases ps with
  | nil =>
    rw [Predicate.validateChildren] at h
    cases h
    exact ⟨trivial, fun _ _ => .nil⟩
  | cons p ps =>
    rw [Predicate.validateChildren] at h
    obtain ⟨⟨_, n⟩, hp, h⟩ := bind_eq_ok.mp h
    obtain ⟨⟨_, _⟩, hps, h⟩ := bind_eq_ok.mp h
    cases h
    obtain ⟨htyped, htruth⟩ := compile_faithful p hp
    obtain ⟨hrest, htruths⟩ := compileChildren_faithful ps hps
    exact ⟨⟨htyped, hrest⟩, fun row hrow => .cons (htruth row hrow) (htruths row hrow)⟩

end

end CompiledExpression

namespace CompiledPredicate

variable {predicate : Predicate} {fields : List FieldSchema} {c : CompiledPredicate}

lemma compile_spec (h : compile predicate fields = .ok c) :
    c.expression.WellTyped fields ∧ c.fieldCount = fields.length ∧
      ∀ compiled ∈ c.referencedFields, ∃ field, fields[compiled.index]? = some field ∧
        compiled.dataType = field.dataType ∧ compiled.nullable = field.nullable := by
  obtain ⟨p, hp, h⟩ := bind_eq_ok.mp h
  obtain ⟨⟨_, n⟩, hv, hp⟩ := bind_eq_ok.mp hp
  cases hp
  cases h
  refine ⟨(CompiledExpression.compile_faithful predicate hv).1, rfl, fun compiled hmem => ?_⟩
  obtain ⟨⟨field, i⟩, hi, hsome⟩ := List.mem_filterMap.mp hmem
  simp only at hsome
  split_ifs at hsome
  cases hsome
  exact ⟨field, List.mem_zipIdx_iff_getElem?.mp hi, rfl, rfl⟩

lemma validateStoredFields_ok (h : compile predicate fields = .ok c)
    (hrow : SchemaValid fields row) : c.validateStoredFields row = .ok () := by
  obtain ⟨_, hcount, href⟩ := compile_spec h
  have hlen : fields.length = row.length := hrow.length_eq
  rw [validateStoredFields, if_neg (by omega), if_pos]
  rw [List.all_eq_true]
  intro compiled hmem
  obtain ⟨_, hfield, hdt, hnull⟩ := href compiled hmem
  have hi : compiled.index < fields.length := (getElem?_eq_some_iff.mp hfield).choose
  have hacc := hrow.get hi (by omega)
  rw [getElem?_eq_getElem hi, some_inj] at hfield
  rw [getElem?_eq_getElem (by omega), Option.any_some]
  rcases FieldSchema.accepts_iff.mp hacc with ⟨hv, hn⟩ | ⟨hdom, hcan⟩
  · simp only [List.get_eq_getElem] at hv hn
    rw [hv, storedFieldValid, hnull, ← hfield]
    exact hn
  · simp only [List.get_eq_getElem] at hdom hcan
    rw [hfield, ← hdt] at hdom
    unfold storedFieldValid
    split
    · rename_i heq
      rw [heq] at hdom
      exact hdom.elim
    · rw [hcan, decide_eq_true hdom, decide_eq_true rfl]
      rfl

/-- Compiled predicates follow SQL three-valued logic, and every membership set is
strictly sorted in the typed order. -/
theorem evaluateTruth_eq_truth {row : List Value} (hc : compile predicate fields = .ok c)
    (hrow : SchemaValid fields row) :
    c.evaluateTruth row = .ok (predicate.truth row) ∧ ∀ field ∈ fields, ∀ vs values : List Value,
        vs.mapM (Predicate.validateLiteral field) = .ok values →
          (compileIn values).Pairwise fun a b => typedOrder a b = some .lt := by
  constructor
  · have hstored := validateStoredFields_ok hc hrow
    obtain ⟨p, hp, h⟩ := bind_eq_ok.mp hc
    obtain ⟨⟨_, n⟩, hv, hp⟩ := bind_eq_ok.mp hp
    cases hp
    cases h
    exact bind_eq_ok.mpr
      ⟨(), hstored, (CompiledExpression.compile_faithful predicate hv).2 row hrow⟩
  · intro field _ vs values hvs
    have hdom : ∀ u ∈ values, u.InDomain field.dataType := fun u hu => by
      obtain ⟨w, -, hw⟩ := exists_of_mem_mapM hvs hu
      exact (Predicate.validateLiteral_spec hw).1
    refine (compileIn_sorted hdom).1.imp_of_mem fun {a b} ha hb hab => ?_
    rw [typedOrder_eq (hdom a (mem_compileIn ha)) (hdom b (mem_compileIn hb)), order_eq_lt.mpr hab]

/-- `IN` over a list with a duplicate, of a field that is not NULL. -/
theorem evaluateTruth_in_duplicate :
    evaluateTruth ⟨.isIn 0 [.bool false, .bool true], 1, [⟨0, .bool, true⟩]⟩ [.bool true] =
      .ok .true :=
  (@evaluateTruth_eq_truth (.isIn 0 [.bool true, .bool false, .bool true])
    [⟨"flag", .bool, true⟩] _ [.bool true] rfl (.cons rfl .nil)).1

/-- `IN` over an empty list is `FALSE` for a NULL field too, not `UNKNOWN`. -/
theorem evaluateTruth_in_empty :
    compile (.isIn 0 []) [⟨"flag", .bool, true⟩] = .ok ⟨.isIn 0 [], 1, [⟨0, .bool, true⟩]⟩ ∧
      SchemaValid [⟨"flag", .bool, true⟩] [.null] ∧
      evaluateTruth ⟨.isIn 0 [], 1, [⟨0, .bool, true⟩]⟩ [.null] = .ok .false :=
  ⟨rfl, .cons rfl .nil, rfl⟩

end CompiledPredicate
