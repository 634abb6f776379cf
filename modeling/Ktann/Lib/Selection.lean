/-
Sorting by a key, and the ways to find a part of the sorted list without sorting.

Elements have distinct keys in a linear order, so the sorted list depends only on
which elements there are.  Three algorithms find parts of it:

* `keepSmallest` — a bounded max-heap over a stream keeps the smallest elements
  (`keepSmallest_perm`);
* a selection puts the `n` smallest elements first, in any order (`Split.perm_take`,
  `Split.perm_drop`);
* a stream sorted by another key is scattered by rank: the elements of one slice of
  the sorted list are those whose rank lies in the slice (`sortBy_slice`).
-/
import Mathlib.Data.List.Induction
import Mathlib.Data.List.Sort
import Mathlib.Data.Prod.Lex
import Mathlib.Order.MinMax

open List (map_append mem_cons nodup_append length_append length_cons)

section

variable {α κ ι : Type} [LinearOrder κ] [LinearOrder ι] (key : α → κ)

def sortBy (l : List α) : List α := l.insertionSort fun a b => key a ≤ key b

instance total_key : Std.Total fun a b : α => key a ≤ key b := ⟨fun a b => le_total (key a) (key b)⟩

instance isTrans_key : IsTrans α fun a b : α => key a ≤ key b := ⟨fun _ _ _ => le_trans⟩

lemma sortBy_perm (l : List α) : (sortBy key l).Perm l := List.perm_insertionSort _ l

variable {l : List α}

@[simp] lemma mem_sortBy {a : α} : a ∈ sortBy key l ↔ a ∈ l := (sortBy_perm key l).mem_iff

@[simp] lemma length_sortBy (l : List α) : (sortBy key l).length = l.length :=
  (sortBy_perm key l).length_eq

variable {key} {l' low high : List α}

/-- Strictly increasing keys are distinct. -/
lemma nodup_of_strict (h : l.Pairwise fun a b => key a < key b) : (l.map key).Nodup := by
  rw [List.Nodup, List.pairwise_map]
  exact h.imp fun hab => ne_of_lt hab

/-- With distinct keys the sorted list is strictly increasing. -/
lemma sortBy_strict (h : (l.map key).Nodup) :
    (sortBy key l).Pairwise fun a b => key a < key b := by
  have hle : (sortBy key l).Pairwise fun a b => key a ≤ key b := List.pairwise_insertionSort _ l
  have hne : (sortBy key l).Pairwise fun a b => key a ≠ key b := by
    rw [← List.pairwise_map (R := fun a b => a ≠ b)]
    exact ((sortBy_perm key l).map key).nodup_iff.mpr h
  exact (hle.and hne).imp fun h => lt_of_le_of_ne h.1 h.2

/-- Two strictly increasing lists of the same elements are one. -/
lemma eq_of_strict (h : l.Pairwise fun a b => key a < key b)
    (h' : l'.Pairwise fun a b => key a < key b) (hperm : l.Perm l') : l = l' :=
  hperm.eq_of_pairwise (fun _ _ _ _ hab hba => absurd hba (lt_asymm hab)) h h'

lemma sortBy_eq_of_perm (hl : (l.map key).Nodup) (h' : l'.Pairwise fun a b => key a < key b)
    (hperm : l.Perm l') : sortBy key l = l' :=
  eq_of_strict (sortBy_strict hl) h' ((sortBy_perm key l).trans hperm)

lemma sortBy_congr (hl : (l.map key).Nodup) (hperm : l.Perm l') : sortBy key l = sortBy key l' :=
  sortBy_eq_of_perm hl (sortBy_strict ((hperm.map key).nodup_iff.mp hl))
    (hperm.trans (sortBy_perm key l').symm)

lemma sortBy_eq_self (h : l.Pairwise fun a b => key a < key b) : sortBy key l = l :=
  sortBy_eq_of_perm (nodup_of_strict h) h (.refl l)

/-! ### Splits -/

/-- A list split in two, every key of the first part below every key of the second. -/
structure Split (key : α → κ) (l low high : List α) : Prop where
  perm : (low ++ high).Perm l
  below : ∀ a ∈ low, ∀ b ∈ high, key a < key b

section

variable (hl : (l.map key).Nodup) (h : Split key l low high)

include hl h

lemma Split.sortBy_eq : sortBy key l = sortBy key low ++ sortBy key high := by
  have hnodup := (h.perm.map key).nodup_iff.mpr hl
  rw [map_append, nodup_append] at hnodup
  refine sortBy_eq_of_perm hl ?_ ?_
  · refine List.pairwise_append.mpr ⟨sortBy_strict hnodup.1, sortBy_strict hnodup.2.1, ?_⟩
    intro a ha b hb
    exact h.below a ((mem_sortBy key).mp ha) b ((mem_sortBy key).mp hb)
  · exact h.perm.symm.trans ((sortBy_perm key low).append (sortBy_perm key high)).symm

lemma Split.perm_take : low.Perm ((sortBy key l).take low.length) := by
  rw [h.sortBy_eq hl, List.take_left' (length_sortBy key low)]
  exact (sortBy_perm key low).symm

lemma Split.perm_drop : high.Perm ((sortBy key l).drop low.length) := by
  rw [h.sortBy_eq hl, List.drop_left' (length_sortBy key low)]
  exact (sortBy_perm key high).symm

end

/-! ### A bounded heap -/

variable (key)

/-- Adds one element to a heap, greatest first, or drops the greatest of the two. -/
def keepStep (limit : ℕ) (heap : List α) (a : α) : List α :=
  if heap.length < limit then heap.orderedInsert (fun x y => key y ≤ key x) a
  else
    match heap with
    | [] => []
    | greatest :: rest =>
      if key a < key greatest then rest.orderedInsert (fun x y => key y ≤ key x) a else heap

/-- The heap after a stream. -/
def keepSmallest (limit : ℕ) (l : List α) : List α := l.foldl (keepStep key limit) []

variable {key}

/-- What a heap of the elements `seen` holds. -/
structure Keeps (key : α → κ) (limit : ℕ) (seen heap : List α) : Prop where
  ordered : heap.Pairwise fun a b => key b ≤ key a
  split : ∃ dropped, Split key seen heap dropped
  length : heap.length = min limit seen.length

lemma Keeps.step {limit : ℕ} {seen heap : List α} {a : α} (h : Keeps key limit seen heap)
    (hnodup : ((seen ++ [a]).map key).Nodup) :
    Keeps key limit (seen ++ [a]) (keepStep key limit heap a) := by
  obtain ⟨hordered, ⟨dropped, hperm, hbelow⟩, hlength⟩ := h
  have hlen := hperm.length_eq
  rw [length_append] at hlen
  have hfresh : ∀ x ∈ seen, key x ≠ key a := by
    rw [map_append, nodup_append] at hnodup
    exact fun x hx => hnodup.2.2 _ (List.mem_map_of_mem hx) _ (by simp)
  rw [keepStep.eq_def]
  split_ifs with hroom
  · -- There is room, so nothing was dropped so far.
    have hinsert := List.perm_orderedInsert (fun x y => key y ≤ key x) a heap
    have hnone : dropped = [] := by
      rw [← List.length_eq_zero_iff]
      omega
    refine ⟨List.Pairwise.orderedInsert a heap hordered, ⟨[], ?_, by simp⟩, ?_⟩
    · rw [hnone, List.append_nil] at hperm
      rw [List.append_nil]
      exact (hinsert.trans (hperm.cons a)).trans (List.perm_append_singleton a seen).symm
    · rw [hinsert.length_eq, length_cons, length_append, List.length_singleton]
      omega
  cases heap with
  | nil =>
    refine ⟨List.Pairwise.nil, ⟨a :: dropped, ?_, by simp⟩, ?_⟩
    · exact (hperm.cons a).trans (List.perm_append_singleton a seen).symm
    · simp only [List.length_nil] at hlength hroom ⊢
      omega
  | cons greatest rest =>
    obtain ⟨hgreatest, hrest⟩ := List.pairwise_cons.mp hordered
    have hdistinct : ∀ x ∈ rest, key x ≠ key greatest := by
      have hseen : (seen.map key).Nodup := by
        rw [map_append, nodup_append] at hnodup
        exact hnodup.1
      have := (hperm.map key).nodup_iff.mpr hseen
      simp only [List.cons_append, List.map_cons, List.nodup_cons, map_append,
        List.mem_append, not_or] at this
      exact fun x hx heq => this.1.1 (heq ▸ List.mem_map_of_mem hx)
    simp only
    split_ifs with hless
    · have hinsert := List.perm_orderedInsert (fun x y => key y ≤ key x) a rest
      refine ⟨List.Pairwise.orderedInsert a rest hrest, ⟨greatest :: dropped, ?_, ?_⟩, ?_⟩
      · have hswap : (a :: rest ++ greatest :: dropped).Perm (a :: (greatest :: rest ++ dropped)) :=
          List.Perm.cons a List.perm_middle
        exact ((hinsert.append_right _).trans hswap).trans
          ((hperm.cons a).trans (List.perm_append_singleton a seen).symm)
      · intro x hx y hy
        have hxg : key x < key greatest := by
          rcases mem_cons.mp (hinsert.mem_iff.mp hx) with rfl | hx
          · exact hless
          · exact lt_of_le_of_ne (hgreatest x hx) (hdistinct x hx)
        rcases mem_cons.mp hy with rfl | hy
        · exact hxg
        · exact hxg.trans (hbelow greatest List.mem_cons_self y hy)
      · rw [hinsert.length_eq, length_append, List.length_singleton]
        simp only [length_cons] at hlength hroom ⊢
        omega
    · refine ⟨hordered, ⟨a :: dropped, ?_, ?_⟩, ?_⟩
      · exact (List.perm_middle.trans (hperm.cons a)).trans (List.perm_append_singleton a seen).symm
      · intro x hx y hy
        rcases mem_cons.mp hy with rfl | hy
        · have hxg : key x ≤ key greatest := by
            rcases mem_cons.mp hx with rfl | hx
            · exact le_rfl
            · exact hgreatest x hx
          exact lt_of_le_of_ne (hxg.trans (not_lt.mp hless))
            (hfresh x (hperm.mem_iff.mp (List.mem_append_left _ hx)))
        · exact hbelow x hx y hy
      · rw [length_append, List.length_singleton]
        simp only [length_cons] at hlength hroom ⊢
        omega

lemma keeps_keepSmallest (limit : ℕ) (h : (l.map key).Nodup) :
    Keeps key limit l (keepSmallest key limit l) := by
  induction l using List.reverseRecOn with
  | nil => exact ⟨List.Pairwise.nil, ⟨[], .nil, by simp⟩, by simp [keepSmallest]⟩
  | append_singleton l a ih =>
    have hl : (l.map key).Nodup := by
      rw [map_append, nodup_append] at h
      exact h.1
    rw [keepSmallest, List.foldl_append]
    exact (ih hl).step h

/-- **A bounded heap keeps the smallest elements of its stream.** -/
theorem keepSmallest_perm {limit : ℕ} (h : (l.map key).Nodup) :
    (keepSmallest key limit l).Perm ((sortBy key l).take limit) := by
  obtain ⟨-, ⟨_, hsplit⟩, hlength⟩ := keeps_keepSmallest limit h
  have htake := hsplit.perm_take h
  rwa [hlength, ← List.take_take, ← length_sortBy key l, List.take_length] at htake

/-! ### Ranks -/

variable (key)

/-- The number of elements with a smaller key. -/
def rank (l : List α) (a : α) : ℕ := l.countP fun b => key b < key a

variable {key}

lemma rank_perm (h : l.Perm l') (a : α) : rank key l a = rank key l' a := h.countP_eq _

/-- In a strictly increasing list the rank is the position. -/
lemma rank_getElem (h : l.Pairwise fun a b => key a < key b) {i : ℕ} (hi : i < l.length) :
    rank key l l[i] = i := by
  have hsplit : l = l.take i ++ l[i] :: l.drop (i + 1) := by simp
  have hpair := h
  rw [hsplit] at hpair
  obtain ⟨-, hright, hleft⟩ := List.pairwise_append.mp hpair
  have hlow : ∀ b ∈ l.take i, key b < key l[i] := fun b hb => hleft b hb _ List.mem_cons_self
  have hhigh : ∀ b ∈ l.drop (i + 1), ¬ key b < key l[i] := fun b hb =>
    lt_asymm ((List.pairwise_cons.mp hright).1 b hb)
  generalize hx : l[i] = x at hsplit hlow hhigh
  rw [rank, hsplit, List.countP_append, List.countP_cons]
  rw [List.countP_eq_length.mpr (by simpa using hlow),
    List.countP_eq_zero.mpr (by simpa using hhigh)]
  simp [hi.le]

/-- The elements of one slice of the sorted list are those with their rank in it. -/
lemma mem_slice (h : (l.map key).Nodup) {start size : ℕ} {a : α} :
    a ∈ ((sortBy key l).drop start).take size ↔
      a ∈ l ∧ start ≤ rank key l a ∧ rank key l a < start + size := by
  have hstrict := sortBy_strict h
  have hrank (a : α) : rank key l a = rank key (sortBy key l) a :=
    rank_perm (sortBy_perm key l).symm a
  rw [hrank, List.mem_take_iff_getElem, ← mem_sortBy key (l := l), List.mem_iff_getElem]
  constructor
  · rintro ⟨j, hj, rfl⟩
    rw [List.length_drop, lt_min_iff] at hj
    rw [List.getElem_drop, rank_getElem hstrict]
    exact ⟨⟨start + j, by omega, rfl⟩, by omega, by omega⟩
  · rintro ⟨⟨i, hi, rfl⟩, hlow, hhigh⟩
    rw [rank_getElem hstrict] at hlow hhigh
    refine ⟨i - start, by rw [List.length_drop, lt_min_iff]; omega, ?_⟩
    rw [List.getElem_drop]
    congr 1
    omega

/-- **A slice of the list sorted by one key, sorted by another, is what the second
order lists of the slice's ranks.** -/
theorem sortBy_slice {other : α → ι} (h : (l.map key).Nodup)
    (hother : l.Pairwise fun a b => other a < other b) (start size : ℕ) :
    sortBy other (((sortBy key l).drop start).take size) =
      l.filter fun a => start ≤ rank key l a ∧ rank key l a < start + size := by
  have hsub : (((sortBy key l).drop start).take size).Sublist (sortBy key l) :=
    (List.take_sublist _ _).trans (List.drop_sublist _ _)
  have hnodup := nodup_of_strict hother
  have hslice : ((((sortBy key l).drop start).take size).map other).Nodup :=
    (((sortBy_perm key l).map other).nodup_iff.mpr hnodup).sublist (hsub.map other)
  refine sortBy_eq_of_perm hslice (hother.sublist (List.filter_sublist)) ?_
  refine (List.perm_ext_iff_of_nodup hslice.of_map (hnodup.of_map.filter _)).mpr fun a => ?_
  rw [mem_slice h, List.mem_filter]
  simp

end
