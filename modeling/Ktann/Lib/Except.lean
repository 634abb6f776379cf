/-
Inversion of computations that may fail.

* `Except.bind_eq_ok` — a sequence succeeds exactly when both parts do;
* `Except.mapM_eq_ok`, `Except.exists_of_mem_mapM` — a traversal succeeds exactly
  when every element does, and each result comes from an element.
-/
import Mathlib

namespace Except

variable {ε α β : Type} {f : α → Except ε β}

lemma bind_eq_ok {x : Except ε α} {b : β} : (x >>= f) = .ok b ↔ ∃ a, x = .ok a ∧ f a = .ok b := by
  cases x with
  | error e =>
    constructor
    · intro h
      cases h
    · rintro ⟨a, h, _⟩
      cases h
  | ok a =>
    constructor
    · exact fun h => ⟨a, rfl, h⟩
    · rintro ⟨_, h, hf⟩
      cases h
      exact hf

lemma bind_congr {x : Except ε α} {g : α → Except ε β} (h : ∀ a, x = .ok a → f a = g a) :
    (x >>= f) = x >>= g := by
  cases x with
  | error e => rfl
  | ok a => exact h a rfl

@[simp] lemma pure_eq_ok {a b : α} : (pure a : Except ε α) = .ok b ↔ a = b := by
  change Except.ok a = .ok b ↔ a = b
  exact Except.ok.injEq a b ▸ Iff.rfl

lemma mapM_eq_ok : ∀ {l : List α} {l' : List β},
    l.mapM f = .ok l' ↔ List.Forall₂ (fun a b => f a = .ok b) l l' := by
  intro l
  induction l with
  | nil =>
    intro l'
    rw [List.mapM_nil, pure_eq_ok, List.forall₂_nil_left_iff, eq_comm]
  | cons a l ih =>
    intro l'
    rw [List.mapM_cons, bind_eq_ok, List.forall₂_cons_left_iff]
    constructor
    · rintro ⟨b, hb, h⟩
      obtain ⟨bs, hbs, h⟩ := bind_eq_ok.mp h
      exact ⟨b, bs, hb, ih.mp hbs, (pure_eq_ok.mp h).symm⟩
    · rintro ⟨b, bs, hb, hbs, rfl⟩
      exact ⟨b, hb, bind_eq_ok.mpr ⟨bs, ih.mpr hbs, rfl⟩⟩

lemma exists_of_mem_mapM {l : List α} {l' : List β} {b : β} (h : l.mapM f = .ok l')
    (hb : b ∈ l') : ∃ a ∈ l, f a = .ok b := by
  induction mapM_eq_ok.mp h with
  | nil => cases hb
  | cons hab hrest ih =>
    rcases List.mem_cons.mp hb with rfl | hb
    · exact ⟨_, List.mem_cons_self, hab⟩
    · obtain ⟨a, ha, hfa⟩ := ih (mapM_eq_ok.mpr hrest) hb
      exact ⟨a, List.mem_cons_of_mem _ ha, hfa⟩

end Except

/-! ### Names used without their namespace -/

export Except (bind_eq_ok mapM_eq_ok pure_eq_ok exists_of_mem_mapM)
export List (mem_cons_self mem_cons mem_map mem_cons_of_mem mem_singleton length_cons map_cons
  forall_mem_cons append_nil length_append foldl_cons append_assoc cons_append pairwise_cons
  mem_append nil_append mem_map_of_mem not_mem_nil length_map mem_flatMap nodup_cons mem_filter
  drop_left foldlM_cons pairwise_map map_map take_sublist length_nil flatten_cons take_append_drop
  filter_eq_nil_iff filter_congr mapM_cons flatMap_cons filter_append mem_append_left length_take
  take_left filter_eq_self length_drop zip_cons_cons drop_drop countP_cons cons_lt_cons_iff
  prefix_rfl map_append mem_of_getElem? getElem?_eq_getElem take_take sum_cons
  dlookup_cons_ne perm_ext_iff_of_nodup mem_of_mem_head? take_succ_cons pairwise_append
  length_singleton)
export Option (ne_none_iff_exists' map_some bind_eq_some_iff map_eq_some_iff some_inj elim_some
  isSome_iff_exists any_eq_true bind_some)

export Function (update update_self update_of_ne update_apply Injective)
export Bool (and_eq_true or_eq_false_iff not_eq_false)
