/-
Words compared behind self-delimiting codes.

Two code words of a self-delimiting order-preserving code decide the comparison
of any two messages that begin with them, and pass it on to the rest of the
messages exactly when they are the same word.  Written for two words at a time,
this composes field by field.

* `Delimited o x y` — the words `x` and `y` settle the comparison as `o`;
* `Delimited.append` — a tuple of fields compares field by field;
* `Delimited.order_eq`, `Delimited.eq_of_isPrefix` — the words themselves compare
  as `o`, and neither is a proper prefix of the other.
-/
import Mathlib

open List (cons_append append_nil)

/-- Three-way comparison in a linear order. -/
def order {α : Type} [LinearOrder α] (a b : α) : Ordering := cmp a b

section
variable {α β : Type} [LinearOrder α] [LinearOrder β] {a b : α}

@[simp] lemma order_eq_lt : order a b = .lt ↔ a < b := cmp_eq_lt_iff a b
@[simp] lemma order_eq_eq : order a b = .eq ↔ a = b := cmp_eq_eq_iff a b
@[simp] lemma order_eq_gt : order a b = .gt ↔ b < a := cmp_eq_gt_iff a b

@[simp] lemma order_self (a : α) : order a a = .eq := cmp_self_eq_eq a

lemma order_congr {c d : β} (hlt : a < b ↔ c < d) (hgt : b < a ↔ d < c) :
    order a b = order c d := by
  rcases lt_trichotomy a b with h | rfl | h
  · rw [order_eq_lt.mpr h, order_eq_lt.mpr (hlt.mp h)]
  · have h : c = d := le_antisymm (not_lt.mp fun h => lt_irrefl a (hgt.mpr h))
      (not_lt.mp fun h => lt_irrefl a (hlt.mpr h))
    rw [order_self, order_eq_eq.mpr h]
  · rw [order_eq_gt.mpr h, order_eq_gt.mpr (hgt.mp h)]

lemma order_map {f : α → β} (hf : StrictMono f) (a b : α) : order (f a) (f b) = order a b :=
  hf.cmp_map_eq a b

end

section
variable {A : Type} [LinearOrder A]

lemma order_cons_cons (a b : A) (x y : List A) :
    order (a :: x) (b :: y) = (order a b).then (order x y) := by
  rcases lt_trichotomy a b with h | rfl | h
  · rw [order_eq_lt.mpr h]
    exact order_eq_lt.mpr (List.cons_lt_cons_iff.mpr (Or.inl h))
  · rw [order_self]
    have hmono : StrictMono (List.cons a) := fun u v h =>
      List.cons_lt_cons_iff.mpr (Or.inr ⟨rfl, h⟩)
    exact order_map hmono x y
  · rw [order_eq_gt.mpr h]
    exact order_eq_gt.mpr (List.cons_lt_cons_iff.mpr (Or.inl h))

/-- Whatever follows them, messages that begin with `x` and with `y` compare as
`o`, and as what follows when `o` is a tie. -/
def Delimited (o : Ordering) (x y : List A) : Prop :=
  ∀ s t, order (x ++ s) (y ++ t) = o.then (order s t)

namespace Delimited
variable {o o' : Ordering} {x y x' y' : List A}

lemma refl (x : List A) : Delimited .eq x x := by
  intro s t
  induction x with
  | nil => rfl
  | cons a x ih =>
    rw [cons_append, cons_append, order_cons_cons, order_self, ih]
    rfl

lemma append (h : Delimited o x y) (h' : Delimited o' x' y') :
    Delimited (o.then o') (x ++ x') (y ++ y') := by
  intro s t
  rw [List.append_assoc, List.append_assoc, h, h', Ordering.then_assoc]

lemma cons {a b : A} (h : Delimited o x y) :
    Delimited ((order a b).then o) (a :: x) (b :: y) := by
  intro s t
  rw [cons_append, cons_append, order_cons_cons, h, Ordering.then_assoc]

/-- A smaller first letter decides, whatever follows it. -/
lemma of_lt {a b : A} (h : a < b) : Delimited .lt (a :: x) (b :: y) := by
  intro s t
  rw [cons_append, cons_append, order_cons_cons, order_eq_lt.mpr h]
  rfl

lemma of_gt {a b : A} (h : b < a) : Delimited .gt (a :: x) (b :: y) := by
  intro s t
  rw [cons_append, cons_append, order_cons_cons, order_eq_gt.mpr h]
  rfl

lemma order_eq (h : Delimited o x y) : order x y = o := by
  have h0 := h [] []
  rwa [append_nil, append_nil, order_self, Ordering.then_eq] at h0

lemma eq_of_isPrefix (h : Delimited o x y) (hp : x <+: y) : x = y := by
  obtain ⟨r, rfl⟩ := hp
  -- both messages below are the longer word, so the words tie
  have h0 := h r []
  rw [append_nil, order_self] at h0
  cases o with
  | eq => exact order_eq_eq.mp h.order_eq
  | lt | gt => cases h0

/-- Words of one length are self-delimiting. -/
lemma of_length (h : x.length = y.length) : Delimited (order x y) x y := by
  intro s t
  induction x generalizing y with
  | nil =>
    obtain rfl := List.length_eq_zero_iff.mp h.symm
    rfl
  | cons a x ih =>
    cases y with
    | nil => cases h
    | cons b y =>
      rw [cons_append, cons_append, order_cons_cons, order_cons_cons,
        ih (Nat.succ_injective h), Ordering.then_assoc]

end Delimited
end
