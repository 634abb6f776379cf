/-
A gathered map written over a store.

A program that changes the same keys many times may gather their final values in
a map of its own and write each key once at the end.  The writes of such a map put
its values over the store, key by key, and leave every other key alone.

* `overlay` — the writes of a gathered map;
* `lookup_overlay`, `lookup_overlay_ne` — the store they leave;
* `applyAll_overlay_put`, `applyAll_overlay_keep` — gathering one more value is one
  more write, or none;
* `applyAll_overlay_apply` — a write of another key commutes with the gathered ones.
-/
import Ktann.Lib.Transaction

open Write (applyAll)

section

variable {K I : Type} [LinearOrder K] [LinearOrder I] {V : K → Type} {W : I → Type}

/-- The writes of a gathered map: the value `g` gives for an entry, if any, goes to
the key `f` names. -/
def overlay (m : OrderedMap I W) (f : I → K) (g : ∀ i, W i → Option (V (f i))) : List (Write V) :=
  m.entries.filterMap fun e => (g e.1 e.2).map (Write.put (f e.1))

variable {f : I → K} {g : ∀ i, W i → Option (V (f i))}

/-- A key no entry is for keeps its value. -/
lemma lookup_overlay_ne {k : K} (hk : ∀ i, k ≠ f i) (m : OrderedMap I W) (B : OrderedMap K V) :
    (applyAll B (overlay m f g)).lookup k = B.lookup k := by
  rw [overlay]
  induction m.entries generalizing B with
  | nil => rfl
  | cons e l ih =>
    cases hg : g e.1 e.2 with
    | none => simpa [List.filterMap_cons, hg] using ih B
    | some v =>
      simp only [List.filterMap_cons, hg, Option.map_some, Write.applyAll_cons, Write.apply]
      rw [ih, lookup_put_ne _ _ (hk e.1)]

/-- The keys of the entries, one after the other. -/
lemma lookup_overlay_list (hf : Function.Injective f) (i : I) :
    ∀ (l : List (Sigma W)) (B : OrderedMap K V), l.NodupKeys →
      (applyAll B (l.filterMap fun e => (g e.1 e.2).map (Write.put (f e.1)))).lookup (f i) =
        ((l.dlookup i).bind (g i)).or (B.lookup (f i)) := by
  intro l
  induction l with
  | nil => simp
  | cons e l ih =>
    intro B hnodup
    obtain ⟨j, w⟩ := e
    obtain ⟨hj, hl⟩ := List.nodupKeys_cons.mp hnodup
    -- The head's key is not in the tail.
    have hnone : l.dlookup j = none := List.dlookup_eq_none.mpr hj
    by_cases hij : i = j
    · subst hij
      cases hg : g i w with
      | none => simp [hg, ih B hl, hnone, List.dlookup_cons_eq]
      | some v =>
        simp [hg, ih _ hl, hnone, List.dlookup_cons_eq, Write.apply]
    · cases hg : g j w with
      | none => simp [hg, ih B hl, List.dlookup_cons_ne _ ⟨j, w⟩ hij]
      | some v =>
        have hne : f i ≠ f j := fun h => hij (hf h)
        simp [hg, ih _ hl, List.dlookup_cons_ne _ ⟨j, w⟩ hij, Write.apply, lookup_put_ne _ _ hne]

/-- **A gathered value stands over the stored one.** -/
theorem lookup_overlay (hf : Function.Injective f) (m : OrderedMap I W) (B : OrderedMap K V)
    (i : I) : (applyAll B (overlay m f g)).lookup (f i) =
      ((m.lookup i).bind (g i)).or (B.lookup (f i)) :=
  lookup_overlay_list hf i m.entries B m.nodupKeys

omit [LinearOrder I] in
/-- Two stores agree when they agree on the gathered keys and on all others. -/
lemma overlay_ext {S S' : OrderedMap K V} (hkey : ∀ i, S.lookup (f i) = S'.lookup (f i))
    (hother : ∀ k, (∀ i, k ≠ f i) → S.lookup k = S'.lookup k) : S = S' := by
  ext1 k
  by_cases hk : ∀ i, k ≠ f i
  · exact hother k hk
  · push Not at hk
    obtain ⟨i, rfl⟩ := hk
    exact hkey i

section

variable (hf : Function.Injective f) (m : OrderedMap I W) (B : OrderedMap K V)

include hf

/-- Gathering one more value is one more write. -/
lemma applyAll_overlay_put {i : I} {w : W i} {v : V (f i)} (hg : g i w = some v) :
    applyAll B (overlay (m.put i w) f g) = (applyAll B (overlay m f g)).put (f i) v := by
  refine overlay_ext (f := f) (fun j => ?_) (fun k hk => ?_)
  · rw [lookup_overlay hf]
    by_cases hj : j = i
    · subst hj
      simp [hg]
    · rw [lookup_put_ne _ _ hj, lookup_put_ne _ _ fun h => hj (hf h), lookup_overlay hf]
  · rw [lookup_overlay_ne hk, lookup_put_ne _ _ (hk i), lookup_overlay_ne hk]

/-- Gathering a value that is not written changes nothing. -/
lemma applyAll_overlay_keep {i : I} {w : W i} (hg : g i w = none)
    (hold : (m.lookup i).bind (g i) = none) :
    applyAll B (overlay (m.put i w) f g) = applyAll B (overlay m f g) := by
  refine overlay_ext (f := f) (fun j => ?_) (fun k hk => ?_)
  · rw [lookup_overlay hf, lookup_overlay hf]
    by_cases hj : j = i
    · subst hj
      simp [hg, hold]
    · rw [lookup_put_ne _ _ hj]
  · rw [lookup_overlay_ne hk, lookup_overlay_ne hk]

/-- A write that leaves the gathered keys alone commutes with the gathered ones. -/
lemma applyAll_overlay_apply {w : Write V}
    (hw : ∀ (S : OrderedMap K V) i, (w.apply S).lookup (f i) = S.lookup (f i)) :
    applyAll (w.apply B) (overlay m f g) = w.apply (applyAll B (overlay m f g)) := by
  refine overlay_ext (f := f) (fun j => ?_) (fun k hk => ?_)
  · rw [hw, lookup_overlay hf, lookup_overlay hf, hw]
  · rw [lookup_overlay_ne hk]
    exact Write.lookup_apply_congr (lookup_overlay_ne hk m B).symm w

end

end
