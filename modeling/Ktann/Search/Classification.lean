/-
Soundness of synopsis pruning.

* `evaluate_mem_possibleTruths` — the exact truth of a covered row is among the
  possible truths of its synopsis;
* `classify_sound` — a synopsis built from any superset of the rows never
  prunes a matching row and never promises a non-matching one.
-/
import Ktann.Search.SqlTruth

attribute [local simp] TruthSet.contains_insertIf TruthValue.ofBool

/-! ### Soundness of pruning -/

section
variable {ix : Index} {f : FieldSynopsis} {field : FieldSchema}
  {parameters : Option BloomParameters} {v w : Value}

lemma equalityPossible_of_covers (hcov : f.Covers ix parameters v) {lo hi : Value}
    (hlo : f.minimum = some lo) (hhi : f.maximum = some hi) (hv : v.InDomain field.dataType)
    (hvc : v.canonical = v) (hw : w.InDomain field.dataType) (hwc : w.canonical = w)
    (heq : v.sortKey = w.sortKey) :
    equalityPossible ix f (order lo.sortKey w.sortKey) (order hi.sortKey w.sortKey) w parameters
      = true := by
  have hvw : v = w := by rw [← hvc, ← hwc, Value.canonical_eq_of_sortKey hv hw heq]
  subst hvw
  obtain ⟨_, hlo', hlov⟩ := hcov.minimum hv.ne_null
  obtain ⟨hi', hhi', hvhi⟩ := hcov.maximum hv.ne_null
  cases hlo.symm.trans hlo'
  cases hhi.symm.trans hhi'
  have hbloom : f.bloomMightContain ix v parameters = true := by
    unfold FieldSynopsis.bloomMightContain
    split
    · rename_i p bits hb
      obtain ⟨_, hb', hbit⟩ := hcov.bloom hv.ne_null p rfl
      cases hb.symm.trans hb'
      rw [List.getD_eq_getElem?_getD, hbit]
      rfl
    · rfl
  simp [equalityPossible, hbloom, not_lt, hlov, hvhi]

lemma compareTruths_sound (hvalid : f.validate field parameters = true)
    (hcov : f.Covers ix parameters v) (hv : v.InDomain field.dataType) (hvc : v.canonical = v)
    (hw : w.InDomain field.dataType) (hwc : w.canonical = w) {op : CompareOp} {truths : TruthSet}
    (h : compareTruths ix f op w parameters = .ok truths) :
    ∃ b, compareValues v w op = .ok b ∧ truths.contains (.ofBool b) = true := by
  obtain ⟨lo, hi, hlo, hhi, hlod, hhid, hlov, hvhi⟩ := hcov.extrema hvalid hv.ne_null
  have hposs := equalityPossible_of_covers hcov hlo hhi hv hvc hw hwc
  rw [compareTruths, hlo, hhi] at h
  simp only [typedOrder_eq hlod hw, typedOrder_eq hhid hw, Except.ok.injEq] at h
  refine ⟨_, by rw [compareValues, typedOrder_eq hv hw], ?_⟩
  rw [← h]
  -- where the value stands to the literal fixes one side of the extrema
  rcases lt_trichotomy v.sortKey w.sortKey with hlt | heq | hgt
  · rw [order_eq_lt.mpr hlt, order_eq_lt.mpr (hlov.trans_lt hlt)]
    cases op <;> cases order hi.sortKey w.sortKey <;>
      simp
  · rw [order_eq_eq.mpr heq, hposs heq]
    have h1 : order lo.sortKey w.sortKey ≠ .gt := by simpa [← heq] using hlov
    have h2 : order hi.sortKey w.sortKey ≠ .lt := by simpa [← heq] using hvhi
    generalize order lo.sortKey w.sortKey = a at h1 ⊢
    generalize order hi.sortKey w.sortKey = b at h2 ⊢
    cases op <;> simp [h1, h2]
  · rw [order_eq_gt.mpr hgt, order_eq_gt.mpr (hgt.trans_le hvhi)]
    cases op <;> cases order lo.sortKey w.sortKey <;>
      simp

variable {values : List Value}

lemma anyListedPossible_true {lo hi : Value} (hlod : lo.InDomain field.dataType)
    (hhid : hi.InDomain field.dataType) {b : Bool} {u : Value}
    (h : anyListedPossible ix f lo hi parameters values = .ok b) (hu : u ∈ values)
    (hud : u.InDomain field.dataType)
    (hposs : equalityPossible ix f (order lo.sortKey u.sortKey) (order hi.sortKey u.sortKey) u
      parameters = true) : b = true := by
  induction values with
  | nil => cases hu
  | cons x _ ih =>
    rw [anyListedPossible] at h
    split at h
    · rename_i olo ohi hlo hhi
      split_ifs at h with hx
      · cases h
        rfl
      · rcases mem_cons.mp hu with rfl | hu
        · rw [typedOrder_eq hlod hud, some_inj] at hlo
          rw [typedOrder_eq hhid hud, some_inj] at hhi
          rw [← hlo, ← hhi] at hx
          exact absurd hposs hx
        · exact ih h hu
    · cases h

lemma inTruths_sound (hvalid : f.validate field parameters = true)
    (hcov : f.Covers ix parameters v) (hv : v.InDomain field.dataType) (hvc : v.canonical = v)
    (hvalues : ∀ u ∈ values, u.InDomain field.dataType ∧ u.canonical = u) {truths : TruthSet}
    (h : inTruths ix f values parameters = .ok truths) :
    truths.contains (evaluateIn values v) = true := by
  obtain ⟨lo, hi, hlo, hhi, hlod, hhid, hlov, hvhi⟩ := hcov.extrema hvalid hv.ne_null
  rw [inTruths] at h
  rw [evaluateIn]
  split_ifs at h ⊢ with hempty hnull
  · cases h
    rfl
  · exact absurd hnull hv.ne_null
  rw [hlo, hhi] at h
  obtain ⟨b, hb, h⟩ := bind_eq_ok.mp h
  rw [pure_eq_ok] at h
  rw [← h]
  cases hin : inContains values v with
  | true =>
    obtain ⟨u, hu, heq⟩ := (inContains_iff hv hvalues).mp hin
    have hb' : b = true := anyListedPossible_true hlod hhid hb hu (hvalues u hu).1
      (equalityPossible_of_covers hcov hlo hhi hv hvc (hvalues u hu).1 (hvalues u hu).2 heq.symm)
    simp [hb']
  | false =>
    -- a single summarised value that is listed would be the covered one
    have hnot : (typedOrder lo hi == some .eq && inContains values lo) = false := by
      by_contra hne
      rw [not_eq_false, and_eq_true, beq_iff_eq, typedOrder_eq hlod hhid,
        some_inj, order_eq_eq] at hne
      obtain ⟨u, hu, heq⟩ := (inContains_iff hlod hvalues).mp hne.2
      have hvlo : v.sortKey = lo.sortKey := le_antisymm (hne.1 ▸ hvhi) hlov
      have : inContains values v = true :=
        (inContains_iff hv hvalues).mpr ⟨u, hu, heq.trans hvlo.symm⟩
      rw [hin] at this
      cases this
    simp [hnot]

end

section
variable {ix : Index} {synopsis : PartitionSynopsis} {row : List Value}

variable {i : ℕ} {f : FieldSynopsis} {truths : TruthSet} {parameters : Option BloomParameters}

lemma exists_coveredField (hshape : synopsis.hasShapeFor ix = true)
    (hcov : synopsis.Covers ix row) (hrow : SchemaValid ix.fields row) {field : FieldSchema}
    (hfield : ix.fields[i]? = some field) :
    ∃ f p v, synopsis.fields[i]? = some f ∧ ix.bloomParameters[i]? = some p ∧
      fieldAt row i = .ok v ∧ f.validate field p = true ∧ f.Covers ix p v ∧ field.Accepts v := by
  obtain ⟨hlen, hvalid⟩ := PartitionSynopsis.hasShapeFor_iff.mp hshape
  have hi : i < ix.fields.length := (getElem?_eq_some_iff.mp hfield).choose
  have hrowlen : ix.fields.length = row.length := hrow.length_eq
  have hbloom := ix.bloom_length
  have hf : synopsis.fields[i]? = some synopsis.fields[i] := getElem?_eq_getElem (by omega)
  have hp : ix.bloomParameters[i]? = some ix.bloomParameters[i] := getElem?_eq_getElem (by omega)
  have hv : row[i]? = some row[i] := getElem?_eq_getElem (by omega)
  refine ⟨_, _, _, hf, hp, by rw [fieldAt, hv], hvalid i _ field _ hf hfield hp,
    hcov i _ _ _ hf hp hv, ?_⟩
  have hget := hrow.get hi (by omega)
  rw [getElem?_eq_getElem hi, some_inj] at hfield
  rw [← hfield]
  exact hget

lemma synopsisField_eq_ok {r : FieldSynopsis × DataType × Option BloomParameters}
    (h : synopsisField ix synopsis i = .ok r) :
    synopsis.fields[i]? = some r.1 ∧ ix.bloomParameters[i]? = some r.2.2 := by
  rw [synopsisField] at h
  split at h
  · rename_i field f p _ hf hp
    split_ifs at h
    cases h
    exact ⟨hf, hp⟩
  · cases h

lemma coveredField_of_synopsisField (hshape : synopsis.hasShapeFor ix = true)
    (hcov : synopsis.Covers ix row) (hrow : SchemaValid ix.fields row) {field : FieldSchema}
    (hfield : ix.fields[i]? = some field) {dt : DataType} {p : Option BloomParameters}
    (hs : synopsisField ix synopsis i = .ok (f, dt, p)) :
    ∃ v, fieldAt row i = .ok v ∧ f.validate field p = true ∧ f.Covers ix p v ∧ field.Accepts v := by
  obtain ⟨_, _, v, hf, hp, hv, hvalid, hc, hacc⟩ := exists_coveredField hshape hcov hrow hfield
  obtain ⟨hf', hp'⟩ := synopsisField_eq_ok hs
  cases hf.symm.trans hf'
  cases hp.symm.trans hp'
  exact ⟨v, hv, hvalid, hc, hacc⟩

lemma nullSeeded_unknown (h : f.hasNull = true) : (nullSeeded f).contains .unknown = true := by
  simp [nullSeeded, h]

lemma compareTruths_null {op : CompareOp} {w : Value} (hnull : f.hasNull = true)
    (h : compareTruths ix f op w parameters = .ok truths) : truths.contains .unknown = true := by
  have hseed := nullSeeded_unknown hnull
  unfold compareTruths at h
  split at h
  · split at h
    · cases h
      simp [hseed]
    · cases h
  · cases h
    exact hseed

lemma inTruths_null {values : List Value} (hnull : f.hasNull = true)
    (h : inTruths ix f values parameters = .ok truths) :
    truths.contains (evaluateIn values .null) = true := by
  have hseed := nullSeeded_unknown hnull
  unfold inTruths at h
  unfold evaluateIn
  split_ifs at h ⊢ with hempty hnull'
  · cases h
    rfl
  · split at h
    · obtain ⟨b, _, h⟩ := bind_eq_ok.mp h
      rw [pure_eq_ok] at h
      rw [← h]
      simp [hseed]
    · cases h
      exact hseed
  · exact absurd rfl hnull'

lemma presenceTruths_contains {t f : Bool} {v : TruthValue} (h : presenceTruths t f = .ok truths)
    (hv : (v = .true ∧ t = true) ∨ (v = .false ∧ f = true)) : truths.contains v = true := by
  rw [presenceTruths] at h
  split_ifs at h
  cases h
  rcases hv with ⟨rfl, rfl⟩ | ⟨rfl, rfl⟩ <;> simp

end

namespace CompiledExpression

variable {ix : Index} {synopsis : PartitionSynopsis} {row : List Value}

mutual

lemma evaluate_mem_possibleTruths (hshape : synopsis.hasShapeFor ix = true)
    (hcov : synopsis.Covers ix row) (hrow : SchemaValid ix.fields row) :
    ∀ (e : CompiledExpression) {truths : TruthSet}, e.WellTyped ix.fields →
      e.possibleTruths ix synopsis = .ok truths →
        ∃ t, e.evaluate row = .ok t ∧ truths.contains t = true := by
  intro e _ htyped h
  cases e with
  | and es =>
    rw [possibleTruths] at h
    obtain ⟨ts, hts, hmem⟩ := possibleAnd_mem hshape hcov hrow es htyped h (a := .true) rfl
    exact ⟨_, by rw [evaluate]; exact evaluateAnd_eq hts (by decide), hmem⟩
  | or es =>
    rw [possibleTruths] at h
    obtain ⟨_, hts, hmem⟩ := possibleOr_mem hshape hcov hrow es htyped h (a := .false) rfl
    exact ⟨_, by rw [evaluate]; exact evaluateOr_eq hts (by decide), hmem⟩
  | not e =>
    rw [possibleTruths] at h
    obtain ⟨s, hs, h⟩ := bind_eq_ok.mp h
    obtain ⟨t, ht, hmem⟩ := evaluate_mem_possibleTruths hshape hcov hrow e htyped hs
    rw [pure_eq_ok] at h
    exact ⟨t.not, by rw [evaluate, ht]; rfl, h ▸ TruthSet.contains_not hmem⟩
  | compare i _ w =>
    rw [possibleTruths] at h
    obtain ⟨field, hfield, hw, hwc⟩ := htyped
    obtain ⟨⟨f, dt, p⟩, hs, h⟩ := bind_eq_ok.mp h
    obtain ⟨v, hv, hvalid, hc, hacc⟩ := coveredField_of_synopsisField hshape hcov hrow hfield hs
    rw [evaluate, hv]
    rcases FieldSchema.accepts_iff.mp hacc with ⟨rfl, _⟩ | ⟨hdom, hcan⟩
    · exact ⟨.unknown, rfl, compareTruths_null (hc.null rfl) h⟩
    · obtain ⟨b, hb, hmem⟩ := compareTruths_sound hvalid hc hdom hcan hw hwc h
      refine ⟨.ofBool b, ?_, hmem⟩
      show (if v = .null then _ else _) = _
      rw [if_neg hdom.ne_null, hb]
      rfl
  | isIn i values =>
    rw [possibleTruths] at h
    obtain ⟨field, hfield, hvalues⟩ := htyped
    obtain ⟨⟨f, dt, p⟩, hs, h⟩ := bind_eq_ok.mp h
    obtain ⟨v, hv, hvalid, hc, hacc⟩ := coveredField_of_synopsisField hshape hcov hrow hfield hs
    refine ⟨evaluateIn values v, by rw [evaluate, hv]; rfl, ?_⟩
    rcases FieldSchema.accepts_iff.mp hacc with ⟨rfl, _⟩ | ⟨hdom, hcan⟩
    · exact inTruths_null (hc.null rfl) h
    · exact inTruths_sound hvalid hc hdom hcan hvalues h
  | isNull i =>
    rw [possibleTruths] at h
    obtain ⟨_, hfield⟩ := htyped
    obtain ⟨⟨f, dt, p⟩, hs, h⟩ := bind_eq_ok.mp h
    obtain ⟨v, hv, -, hc, -⟩ := coveredField_of_synopsisField hshape hcov hrow hfield hs
    refine ⟨.ofBool (v == .null), by rw [evaluate, hv]; rfl, presenceTruths_contains h ?_⟩
    by_cases hnull : v = .null
    · exact Or.inl ⟨by simp [hnull], hc.null hnull⟩
    · obtain ⟨lo, hlo, _⟩ := hc.minimum hnull
      exact Or.inr ⟨by simp [hnull], by rw [hlo]; rfl⟩
  | isNotNull i =>
    rw [possibleTruths] at h
    obtain ⟨_, hfield⟩ := htyped
    obtain ⟨⟨f, _, p⟩, hs, h⟩ := bind_eq_ok.mp h
    obtain ⟨v, hv, -, hc, -⟩ := coveredField_of_synopsisField hshape hcov hrow hfield hs
    refine ⟨.ofBool (v != .null), by rw [evaluate, hv]; rfl, presenceTruths_contains h ?_⟩
    by_cases hnull : v = .null
    · exact Or.inr ⟨by simp [hnull], hc.null hnull⟩
    · obtain ⟨_, hlo, _⟩ := hc.minimum hnull
      exact Or.inl ⟨by simp [hnull], by rw [hlo]; rfl⟩

lemma possibleAnd_mem (hshape : synopsis.hasShapeFor ix = true) (hcov : synopsis.Covers ix row)
    (hrow : SchemaValid ix.fields row) :
    ∀ (es : List CompiledExpression) {left truths : TruthSet}, AllWellTyped ix.fields es →
      possibleAnd ix synopsis left es = .ok truths → ∀ {a : TruthValue},
        left.contains a = true → ∃ ts, List.Forall₂ (fun e t => e.evaluate row = .ok t) es ts ∧
          truths.contains (ts.foldl .and a) = true := by
  intro es _ _ htyped h a ha
  cases es with
  | nil =>
    rw [possibleAnd] at h
    cases h
    exact ⟨[], .nil, ha⟩
  | cons e es =>
    rw [possibleAnd] at h
    obtain ⟨s, hs, h⟩ := bind_eq_ok.mp h
    obtain ⟨t, ht, hmem⟩ := evaluate_mem_possibleTruths hshape hcov hrow e htyped.1 hs
    obtain ⟨ts, hts, hmem'⟩ := possibleAnd_mem hshape hcov hrow es htyped.2 h
      (TruthSet.contains_mapBinary ha hmem)
    exact ⟨t :: ts, .cons ht hts, hmem'⟩

lemma possibleOr_mem (hshape : synopsis.hasShapeFor ix = true) (hcov : synopsis.Covers ix row)
    (hrow : SchemaValid ix.fields row) :
    ∀ (es : List CompiledExpression) {left truths : TruthSet}, AllWellTyped ix.fields es →
      possibleOr ix synopsis left es = .ok truths → ∀ {a : TruthValue},
        left.contains a = true → ∃ ts, List.Forall₂ (fun e t => e.evaluate row = .ok t) es ts ∧
          truths.contains (ts.foldl .or a) = true := by
  intro es _ _ htyped h a ha
  cases es with
  | nil =>
    rw [possibleOr] at h
    cases h
    exact ⟨[], .nil, ha⟩
  | cons e es =>
    rw [possibleOr] at h
    obtain ⟨s, hs, h⟩ := bind_eq_ok.mp h
    obtain ⟨t, ht, hmem⟩ := evaluate_mem_possibleTruths hshape hcov hrow e htyped.1 hs
    obtain ⟨ts, hts, hmem'⟩ := possibleOr_mem hshape hcov hrow es htyped.2 h
      (TruthSet.contains_mapBinary ha hmem)
    exact ⟨t :: ts, .cons ht hts, hmem'⟩

end

end CompiledExpression

/-! ### Classification -/

namespace CompiledPredicate

/-- **Soundness of synopsis classification.**  The synopsis was expanded from the
empty one with a sequence of rows that holds at least the leaf's own: `NoMatch`
means that no row of the leaf matches, `AllMatch` that every one does. -/
theorem classify_sound {ix : Index} {predicate : Predicate} {c : CompiledPredicate}
    (hcompile : compile predicate ix.fields = .ok c) {rows history : List (List Value)}
    (hrows : ∀ row ∈ rows, SchemaValid ix.fields row) (hsub : rows ⊆ history)
    {synopsis : PartitionSynopsis}
    (hsynopsis : (PartitionSynopsis.empty ix).expandAll ix history = .ok synopsis)
    {classification : SynopsisClassification}
    (hclassify : c.classify ix synopsis rows.length = .ok classification) :
    (classification = .noMatch → ∀ row ∈ rows, c.evaluateTruth row ≠ .ok .true) ∧
    (classification = .allMatch → ∀ row ∈ rows, c.evaluateTruth row = .ok .true) := by
  obtain ⟨htyped, -, -⟩ := compile_spec hcompile
  obtain ⟨-, hcov⟩ := PartitionSynopsis.expandAll_spec hsynopsis
  -- exact evaluation of a row is evaluation of the expression
  have heval : ∀ row ∈ rows, c.evaluateTruth row = c.expression.evaluate row := by
    intro row hrow
    rw [evaluateTruth, validateStoredFields_ok hcompile (hrows row hrow)]
    rfl
  rw [classify] at hclassify
  split_ifs at hclassify with hbad hzero hempty
  · cases hclassify
    have hnil : rows = [] := List.length_eq_zero_iff.mp hzero
    subst hnil
    simp
  · obtain ⟨possible, hpossible, hclassify⟩ := bind_eq_ok.mp hclassify
    have hshape : synopsis.hasShapeFor ix = true := by
      simp only [Bool.or_eq_true, Bool.not_eq_true', not_or, not_eq_false] at hbad
      exact hbad.2
    have hmem : ∀ row ∈ rows, ∃ t, c.evaluateTruth row = .ok t ∧ possible.contains t = true := by
      intro row hrow
      rw [heval row hrow]
      exact CompiledExpression.evaluate_mem_possibleTruths hshape (hcov row (hsub hrow))
        (hrows row hrow) c.expression htyped hpossible
    split_ifs at hclassify with hno hall
    · cases hclassify
      refine ⟨fun _ row hrow htrue => ?_, nofun⟩
      obtain ⟨t, ht, hcontains⟩ := hmem row hrow
      cases htrue.symm.trans ht
      simp [hcontains] at hno
    · cases hclassify
      refine ⟨nofun, fun _ row hrow => ?_⟩
      obtain ⟨t, ht, hcontains⟩ := hmem row hrow
      rw [hall] at hcontains
      cases t with
      | true => exact ht
      | false | unknown => cases hcontains
    · cases hclassify
      exact ⟨nofun, nofun⟩

theorem classify_sound_line :
    (SynopsisClassification.allMatch = .noMatch → ∀ row ∈ [[Value.bool true]],
      CompiledPredicate.evaluateTruth ⟨.compare 0 .eq (.bool true), 1, [⟨0, .bool, false⟩]⟩ row
        ≠ .ok .true) ∧
    (SynopsisClassification.allMatch = .allMatch → ∀ row ∈ [[Value.bool true]],
      CompiledPredicate.evaluateTruth ⟨.compare 0 .eq (.bool true), 1, [⟨0, .bool, false⟩]⟩ row
        = .ok .true) :=
  @classify_sound .line (.compare 0 .eq (.bool true)) _ rfl [[.bool true]] [[.bool true]]
    (fun row hrow => by
      rw [mem_singleton.mp hrow]
      exact .cons rfl .nil)
    (List.Subset.refl _)
    ⟨[⟨false, some (.bool true), some (.bool true),
      some [false, false, true, false, false, false, false, false]⟩]⟩ rfl .allMatch rfl

end CompiledPredicate
