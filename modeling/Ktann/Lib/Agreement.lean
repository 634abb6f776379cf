/-
Lists that agree on their first elements, and queues kept in order.

A consumer that takes at most `n` elements from the front of a queue cannot tell two
queues apart that agree on their first `n` elements.  Every operation of an ordered
queue respects such agreement, and keeping only the first `limit` elements at each
insertion does not disturb it below `limit`.

* `AgreeUpTo` — two lists have the same first `n` elements;
* `AgreeUpTo.insert`, `AgreeUpTo.merge`, `AgreeUpTo.drop` — operations on both;
* `insertBounded_agree` — a bounded insertion against an unbounded one.
-/
import Mathlib.Data.List.Basic
import Mathlib.Data.List.Induction
import Mathlib.Data.List.Forall2
import Mathlib.Order.Lattice

open List (take_take pairwise_cons mem_cons take_succ_cons)

namespace Agreement

variable {α : Type*}

/-- The first `n` elements are the same. -/
def AgreeUpTo (n : ℕ) (l l' : List α) : Prop := l.take n = l'.take n

namespace AgreeUpTo

@[refl] lemma refl (n : ℕ) (l : List α) : AgreeUpTo n l l := rfl

variable {n : ℕ}

lemma symm {l l' : List α} (h : AgreeUpTo n l l') : AgreeUpTo n l' l := Eq.symm h

lemma trans {l l' l'' : List α} (h : AgreeUpTo n l l') (h' : AgreeUpTo n l' l'') :
    AgreeUpTo n l l'' := Eq.trans h h'

lemma zero (l l' : List α) : AgreeUpTo 0 l l' := by
  rw [AgreeUpTo, List.take_zero, List.take_zero]

variable {l l' : List α}

lemma mono {m : ℕ} (h : AgreeUpTo n l l') (hm : m ≤ n) : AgreeUpTo m l l' := by
  have htake := congrArg (List.take m) h
  rwa [take_take, take_take, Nat.min_eq_left hm] at htake

lemma cons {n : ℕ} (a : α) (h : AgreeUpTo n l l') : AgreeUpTo (n + 1) (a :: l) (a :: l') := by
  rw [AgreeUpTo, take_succ_cons, take_succ_cons, h]

/-- With one element the same, a list in agreement is also a cons. -/
lemma cons_left {a : α} (h : AgreeUpTo (n + 1) (a :: l) l') :
    ∃ t, l' = a :: t ∧ AgreeUpTo n l t := by
  cases l' with
  | nil => exact absurd h (by simp [AgreeUpTo])
  | cons b t =>
    rw [AgreeUpTo, take_succ_cons, take_succ_cons, List.cons.injEq] at h
    obtain ⟨rfl, ht⟩ := h
    exact ⟨t, rfl, ht⟩

lemma nil_left (h : AgreeUpTo (n + 1) [] l') : l' = [] := by
  cases l' with
  | nil => rfl
  | cons b t => exact absurd h (by simp [AgreeUpTo])

lemma eq_nil_iff (h : AgreeUpTo (n + 1) l l') : l = [] ↔ l' = [] := by
  constructor
  · rintro rfl
    exact h.nil_left
  · rintro rfl
    exact h.symm.nil_left

/-- A list shorter than the agreement is all of it. -/
lemma eq_of_length (h : AgreeUpTo n l l') (hl : l.length < n) : l = l' := by
  rw [AgreeUpTo, List.take_of_length_le hl.le] at h
  have hlength := congrArg List.length h
  rw [List.length_take] at hlength
  rw [h, List.take_of_length_le (by omega)]

lemma drop {l l' : List α} (w : ℕ) (h : AgreeUpTo (n + w) l l') :
    AgreeUpTo n (l.drop w) (l'.drop w) := by
  have hdrop := congrArg (List.drop w) h
  rwa [List.drop_take, List.drop_take, Nat.add_sub_cancel] at hdrop

lemma take {l l' : List α} (w : ℕ) (h : AgreeUpTo n l l') :
    AgreeUpTo n (l.take w) (l'.take w) := by
  have htake := congrArg (List.take w) h
  rw [take_take, take_take] at htake
  rwa [AgreeUpTo, take_take, take_take, Nat.min_comm]

end AgreeUpTo

/-! ### Ordered queues -/

section
variable {κ : Type*} [LinearOrder κ] (key : α → κ)

/-- Inserts an element in order, unless one with its key is there. -/
def insertByKey (x : α) : List α → List α
  | [] => [x]
  | b :: l =>
    if key x < key b then x :: b :: l
    else if key b < key x then b :: insertByKey x l
    else b :: l

/-- Merges two ordered queues. -/
def mergeByKey (l l' : List α) : List α := l.merge l' fun a b => decide (key a ≤ key b)

/-- The queue is strictly in order. -/
def Ordered (l : List α) : Prop := l.Pairwise fun a b => key a < key b

/-- Inserts, keeping a full queue at its length: the farthest element gives way. -/
def insertBounded (limit : ℕ) (x : α) (l : List α) : List α :=
  if l.length = limit then
    match l.getLast? with
    | some worst => if key worst ≤ key x then l else insertByKey key x l.dropLast
    | none => insertByKey key x l.dropLast
  else insertByKey key x l

variable {key} {n limit : ℕ}

lemma AgreeUpTo.insert {n : ℕ} {l l' : List α} (x : α) (h : AgreeUpTo n l l') :
    AgreeUpTo n (insertByKey key x l) (insertByKey key x l') := by
  induction n generalizing l l' with
  | zero => exact .zero _ _
  | succ n ih =>
    cases l with
    | nil =>
      rw [h.nil_left]
    | cons b t =>
      obtain ⟨_, rfl, ht⟩ := h.cons_left
      rw [insertByKey, insertByKey]
      split_ifs
      · exact ((ht.cons b).mono n.le_succ).cons x
      · exact (ih ht).cons b
      · exact ht.cons b

/-- The first elements of a merge come from the first elements of its parts. -/
lemma AgreeUpTo.merge {l m l' m' : List α} (hl : AgreeUpTo n l l') (hm : AgreeUpTo n m m') :
    AgreeUpTo n (mergeByKey key l m) (mergeByKey key l' m') := by
  induction n generalizing l m l' m' with
  | zero => exact .zero _ _
  | succ n ih =>
    cases l with
    | nil =>
      rw [hl.nil_left, mergeByKey, mergeByKey, List.nil_merge, List.nil_merge]
      exact hm
    | cons a t =>
      obtain ⟨_, rfl, ht⟩ := hl.cons_left
      cases m with
      | nil =>
        rw [hm.nil_left, mergeByKey, mergeByKey, List.merge_right, List.merge_right]
        exact hl
      | cons b s =>
        obtain ⟨_, rfl, hs⟩ := hm.cons_left
        rw [mergeByKey, mergeByKey, List.cons_merge_cons, List.cons_merge_cons]
        split_ifs
        · exact (ih ht ((hs.cons b).mono n.le_succ)).cons a
        · exact (ih ((ht.cons a).mono n.le_succ) hs).cons b

lemma length_mergeByKey (l l' : List α) :
    (mergeByKey key l l').length = l.length + l'.length := by
  rw [mergeByKey, List.length_merge]

variable {l : List α} {x a worst : α}

lemma mem_insertByKey (h : a ∈ insertByKey key x l) : a = x ∨ a ∈ l := by
  induction l with
  | nil => exact .inl (List.mem_singleton.mp h)
  | cons b l ih =>
    rw [insertByKey] at h
    split_ifs at h
    · rwa [mem_cons] at h
    · rcases mem_cons.mp h with rfl | h
      · exact .inr (List.mem_cons_self ..)
      · exact (ih h).imp_right (List.mem_cons_of_mem b)
    · exact .inr h

lemma mem_insertBounded (h : a ∈ insertBounded key limit x l) : a = x ∨ a ∈ l := by
  have hdrop (h : a ∈ insertByKey key x l.dropLast) : a = x ∨ a ∈ l :=
    (mem_insertByKey h).imp_right fun h => (List.dropLast_sublist l).mem h
  rw [insertBounded] at h
  split_ifs at h
  · split at h
    · split_ifs at h
      · exact .inr h
      · exact hdrop h
    · exact hdrop h
  · exact mem_insertByKey h

lemma Ordered.insert (h : Ordered key l) (x : α) : Ordered key (insertByKey key x l) := by
  induction l with
  | nil => exact List.pairwise_singleton _ _
  | cons b l ih =>
    obtain ⟨hb, hl⟩ := pairwise_cons.mp h
    rw [insertByKey]
    split_ifs with hx hlt
    · refine pairwise_cons.mpr ⟨fun a ha => ?_, h⟩
      rcases mem_cons.mp ha with rfl | ha
      · exact hx
      · exact hx.trans (hb a ha)
    · refine pairwise_cons.mpr ⟨fun a ha => ?_, ih hl⟩
      rcases mem_insertByKey ha with rfl | ha
      · exact hlt
      · exact hb a ha
    · exact h

lemma Ordered.insertBounded {l : List α} (h : Ordered key l) (limit : ℕ) (x : α) :
    Ordered key (insertBounded key limit x l) := by
  have hdrop : Ordered key l.dropLast := List.Pairwise.sublist (List.dropLast_sublist l) h
  rw [Agreement.insertBounded]
  split_ifs
  · split
    · split_ifs
      · exact h
      · exact hdrop.insert x
    · exact hdrop.insert x
  · exact h.insert x

/-- An element past all others goes to the end, or is there already. -/
lemma insertByKey_agree_of_last (h : Ordered key (l ++ [worst])) (hx : key worst ≤ key x) :
    AgreeUpTo (l.length + 1) (l ++ [worst]) (insertByKey key x (l ++ [worst])) := by
  induction l with
  | nil =>
    rw [List.nil_append, insertByKey, if_neg (not_lt.mpr hx)]
    split_ifs
    · exact (AgreeUpTo.zero [] _).cons worst
    · rfl
  | cons b l ih =>
    obtain ⟨hb, hl⟩ := pairwise_cons.mp h
    have hbx : key b < key x :=
      (hb worst (List.mem_append_right l (List.mem_singleton_self worst))).trans_le hx
    rw [List.cons_append, insertByKey, if_neg (not_lt.mpr hbx.le), if_pos hbx]
    exact (ih hl).cons b

/-- An element before the last one leaves it the last. -/
lemma insertByKey_append (hx : key x < key worst) :
    insertByKey key x (l ++ [worst]) = insertByKey key x l ++ [worst] := by
  induction l with
  | nil => exact if_pos hx
  | cons b l ih =>
    rw [List.cons_append, insertByKey, insertByKey, ih]
    split_ifs <;> rfl

lemma length_insertByKey (h : ∀ b ∈ l, key b ≠ key x) :
    (insertByKey key x l).length = l.length + 1 := by
  induction l with
  | nil => rfl
  | cons b l ih =>
    obtain ⟨hb, hl⟩ := List.forall_mem_cons.mp h
    rw [insertByKey]
    split_ifs with hx hlt
    · rfl
    · rw [List.length_cons, ih hl, List.length_cons]
    · exact absurd (le_antisymm (not_lt.mp hx) (not_lt.mp hlt)) hb

/-- **Bounded insertion keeps the front**: the first `limit` elements are those of the
unbounded insertion. -/
theorem insertBounded_agree (h : Ordered key l) (hn : n ≤ limit) (hnew : ∀ b ∈ l, key b ≠ key x) :
    AgreeUpTo n (insertBounded key limit x l) (insertByKey key x l) := by
  rw [insertBounded]
  split_ifs with hfull
  · cases l using List.reverseRecOn with
    | nil =>
      have hzero : n = 0 := by simp at hfull; omega
      subst hzero
      exact .zero _ _
    | append_singleton l =>
      rw [List.length_append, List.length_singleton] at hfull
      rw [List.getLast?_concat, List.dropLast_concat]
      dsimp only
      split_ifs with hx
      · exact (insertByKey_agree_of_last h hx).mono (by omega)
      · -- the farthest element is past the first `limit` ones
        have hlength := length_insertByKey fun b hb => hnew b (List.mem_append_left _ hb)
        rw [insertByKey_append (not_le.mp hx), AgreeUpTo, List.take_append_of_le_length (by omega)]
  · rfl

end

end Agreement
