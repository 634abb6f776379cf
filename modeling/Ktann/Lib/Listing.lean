/-
Sorted listings of a finite partial function.

A listing has the values of a partial function in the order of their keys, so it is
determined by the function.

* `Enumerates.eq` — a function has one listing;
* `Enumerates.insert`, `Enumerates.erase`, `Enumerates.replace` — the listing after one value is
  added, removed or replaced.
-/
import Mathlib

open Function (update update_self update_of_ne)

section

variable {κ α : Type} [LinearOrder κ] {key : α → κ} {f : κ → Option α} {l l' : List α}

/-- The list `l` has the values of `f`, each under its own key, in key order. -/
structure Enumerates (key : α → κ) (f : κ → Option α) (l : List α) : Prop where
  sorted : l.Pairwise fun a b => key a < key b
  mem : ∀ {k a}, f k = some a ↔ a ∈ l ∧ key a = k

/-- **A function has one listing.** -/
theorem Enumerates.eq (hl : Enumerates key f l) (hl' : Enumerates key f l') : l = l' := by
  have hmem : ∀ a, a ∈ l ↔ a ∈ l' := by
    intro a
    constructor
    · intro ha
      exact (hl'.mem.mp (hl.mem.mpr ⟨ha, rfl⟩)).1
    · intro ha
      exact (hl.mem.mp (hl'.mem.mpr ⟨ha, rfl⟩)).1
  have hnodup {l : List α} (hs : l.Pairwise fun a b => key a < key b) : l.Nodup :=
    hs.imp fun {a b} hlt heq => absurd (heq ▸ hlt) (lt_irrefl _)
  have hperm := (List.perm_ext_iff_of_nodup (hnodup hl.sorted) (hnodup hl'.sorted)).mpr hmem
  exact hperm.eq_of_pairwise (fun a b _ _ hab hba => absurd (hab.trans hba) (lt_irrefl _))
    hl.sorted hl'.sorted

lemma Enumerates.congr {f' : κ → Option α} (hl : Enumerates key f l) (hf : ∀ k, f' k = f k) :
    Enumerates key f' l :=
  ⟨hl.sorted, fun {k _} => hf k ▸ hl.mem⟩

/-- No value is listed under a key without one. -/
lemma Enumerates.none_iff (hl : Enumerates key f l) {k : κ} : f k = none ↔ ∀ a ∈ l,
    key a ≠ k := by
  constructor
  · intro hnone a ha heq
    cases hnone.symm.trans (hl.mem.mpr ⟨ha, heq⟩)
  · intro hall
    by_contra hsome
    obtain ⟨a, ha⟩ := Option.ne_none_iff_exists'.mp hsome
    exact hall a (hl.mem.mp ha).1 (hl.mem.mp ha).2

lemma pairwise_orderedInsert {a : α} (hs : l.Pairwise fun a b => key a < key b)
    (hne : ∀ b ∈ l, key b ≠ key a) :
    (l.orderedInsert (fun a b => key a ≤ key b) a).Pairwise fun a b => key a < key b := by
  induction l with
  | nil => exact List.pairwise_singleton _ _
  | cons b l ih =>
    obtain ⟨hb, hs⟩ := List.pairwise_cons.mp hs
    have hba := hne b List.mem_cons_self
    rw [List.orderedInsert_cons]
    split_ifs with hle
    · have hlt : key a < key b := lt_of_le_of_ne hle (Ne.symm hba)
      refine List.pairwise_cons.mpr ⟨fun c hc => ?_, List.pairwise_cons.mpr ⟨hb, hs⟩⟩
      rcases List.mem_cons.mp hc with rfl | hc
      · exact hlt
      · exact hlt.trans (hb c hc)
    · refine List.pairwise_cons.mpr ⟨fun c hc => ?_,
        ih hs fun c hc => hne c (List.mem_cons_of_mem _ hc)⟩
      rw [List.mem_orderedInsert] at hc
      rcases hc with rfl | hc
      · exact lt_of_not_ge hle
      · exact hb c hc

lemma Enumerates.insert (hl : Enumerates key f l) {a : α} (hnew : f (key a) = none) :
    Enumerates key (update f (key a) (some a)) (l.orderedInsert (fun a b => key a ≤ key b) a) := by
  have hne := hl.none_iff.mp hnew
  refine ⟨pairwise_orderedInsert hl.sorted hne, fun {k b} => ?_⟩
  rw [List.mem_orderedInsert]
  by_cases hk : k = key a
  · subst hk
    rw [update_self, Option.some.injEq]
    constructor
    · rintro rfl
      exact ⟨.inl rfl, rfl⟩
    · rintro ⟨rfl | hb, heq⟩
      · rfl
      · exact absurd heq (hne b hb)
  · rw [update_of_ne hk, hl.mem]
    constructor
    · rintro ⟨hb, heq⟩
      exact ⟨.inr hb, heq⟩
    · rintro ⟨rfl | hb, heq⟩
      · exact absurd heq.symm hk
      · exact ⟨hb, heq⟩

lemma Enumerates.erase (hl : Enumerates key f l) (k : κ) :
    Enumerates key (update f k none) (l.filter fun a => key a ≠ k) := by
  refine ⟨hl.sorted.filter _, fun {k' a} => ?_⟩
  rw [List.mem_filter, decide_eq_true_eq]
  by_cases hk : k' = k
  · subst hk
    rw [update_self]
    constructor
    · intro h
      cases h
    · rintro ⟨⟨-, hne⟩, heq⟩
      exact absurd heq hne
  · rw [update_of_ne hk, hl.mem]
    constructor
    · rintro ⟨ha, rfl⟩
      exact ⟨⟨ha, hk⟩, rfl⟩
    · rintro ⟨⟨ha, -⟩, heq⟩
      exact ⟨ha, heq⟩

lemma Enumerates.replace [DecidableEq κ] (hl : Enumerates key f l) {a : α}
    (hold : f (key a) ≠ none) : Enumerates key (update f (key a) (some a))
      (l.map fun b => if key b = key a then a else b) := by
  have hkey : ∀ b, key (if key b = key a then a else b) = key b := by
    intro b
    split_ifs with hb
    · exact hb.symm
    · rfl
  refine ⟨?_, fun {k b} => ?_⟩
  · rw [List.pairwise_map]
    exact hl.sorted.imp fun hlt => by rwa [hkey, hkey]
  · rw [List.mem_map]
    by_cases hk : k = key a
    · subst hk
      rw [update_self, Option.some.injEq]
      obtain ⟨old, hold⟩ := Option.ne_none_iff_exists'.mp hold
      obtain ⟨hmem, heq⟩ := hl.mem.mp hold
      constructor
      · rintro rfl
        exact ⟨⟨old, hmem, if_pos heq⟩, rfl⟩
      · rintro ⟨⟨c, hc, rfl⟩, hkc⟩
        rw [hkey] at hkc
        rw [if_pos hkc]
    · rw [update_of_ne hk, hl.mem]
      constructor
      · rintro ⟨hb, rfl⟩
        exact ⟨⟨b, hb, if_neg hk⟩, rfl⟩
      · rintro ⟨⟨c, hc, rfl⟩, hkc⟩
        rw [hkey] at hkc
        subst hkc
        rw [if_neg hk]
        exact ⟨hc, rfl⟩

end
