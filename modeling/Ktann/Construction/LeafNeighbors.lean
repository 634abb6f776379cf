/-
The nearest leaves of every leaf.

Every unordered pair of leaves is scored once, and both ends keep the score among
their 32 best.  A list starts with sentinels, which every candidate precedes.

* `retainNeighbor_take` — a bounded list takes a candidate as the sorted list does;
* `leafNeighbors_nearest` — **every list begins with the nearest other leaves**, by
  distance and ordinal.
-/
import Ktann.Lib.Except
import Ktann.Lib.Selection

open List (range replicate)

section
variable {D : Type} [LinearOrder D] [OrderTop D]

/-- `usize::MAX`, which no leaf ordinal reaches. -/
def usizeMax : ℕ := 2 ^ 64 - 1

/-- A distance with a leaf ordinal, which breaks ties. -/
abbrev Neighbor (D : Type) := D ×ₗ ℕ

/-- Inserts only improving candidates, and drops the last slot for them. -/
def retainNeighbor (last : ℕ) (slots : List (Neighbor D)) (candidate : Neighbor D) :
    List (Neighbor D) :=
  if ∃ worst ∈ slots[last]?, worst ≤ candidate then slots
  else
    let position := (slots.takeWhile (· < candidate)).length
    slots.take position ++ candidate :: (slots.take last).drop position

/-- A scored pair, which both of its ends see. -/
def retainPair (source target : ℕ) (score : D) (neighbors : List (List (Neighbor D))) :
    List (List (Neighbor D)) :=
  (neighbors.modify source (retainNeighbor 31 · (toLex (score, target)))).modify target
    (retainNeighbor 31 · (toLex (score, source)))

/-- The lists of all leaves, by the distance of their centers.  Whole batches of four
are scored against the source, and the source against the candidates of the tail. -/
def leafNeighbors (distance : ℕ → ℕ → D) (leaves : ℕ) : List (List (Neighbor D)) :=
  (range leaves).foldl (fun neighbors source =>
    (range (leaves - (source + 1))).foldl (fun neighbors offset =>
      let target := source + 1 + offset
      let score := if offset < (leaves - (source + 1)) / 4 * 4 then distance target source
        else distance source target
      retainPair source target score neighbors) neighbors)
    (replicate leaves (replicate 32 (toLex (⊤, usizeMax))))

/-- The other leaves, nearest first. -/
def nearestOthers (distance : ℕ → ℕ → D) (leaves i : ℕ) : List (Neighbor D) :=
  sortBy id (((range leaves).erase i).map fun j => toLex (distance i j, j))

/-! ### One list -/

omit [OrderTop D] in
/-- The front of a sorted list takes a new candidate as the list does. -/
lemma retainNeighbor_take {l : List (Neighbor D)} {c : Neighbor D} {last : ℕ}
    (hl : l.Pairwise (· ≤ ·)) (hlast : last < l.length) (hc : c ∉ l) :
    retainNeighbor last (l.take (last + 1)) c =
      (l.orderedInsert (fun a b => id a ≤ id b) c).take (last + 1) := by
  induction l generalizing last with
  | nil => cases hlast
  | cons a l ih =>
    obtain ⟨ha, hl⟩ := pairwise_cons.mp hl
    obtain ⟨hca, hc⟩ := not_or.mp (mem_cons.not.mp hc)
    rw [List.orderedInsert]
    split_ifs with hle
    · -- the candidate comes first, so the last slot gives way
      have hlt : c < a := lt_of_le_of_ne hle hca
      have hnone : ((a :: l).take (last + 1)).takeWhile (· < c) = [] := by simp [hlt.le]
      rw [retainNeighbor, if_neg]
      · simp only [hnone, length_nil, List.drop_zero, take_take, Nat.min_eq_left (Nat.le_succ last)]
        rfl
      · rintro ⟨worst, hworst, hwc⟩
        rw [Option.mem_def, List.getElem?_take_of_lt (Nat.lt_succ_self _)] at hworst
        rcases mem_cons.mp (mem_of_getElem? hworst) with rfl | hmem
        · exact absurd hwc (not_le.mpr hlt)
        · exact absurd hwc (not_le.mpr (hlt.trans_le (ha worst hmem)))
    · have hlt : a < c := not_le.mp hle
      cases last with
      | zero => simp [retainNeighbor, hlt.le]
      | succ =>
        have hwhile (t : List (Neighbor D)) :
            (a :: t).takeWhile (· < c) = a :: t.takeWhile (· < c) :=
          List.takeWhile_cons_of_pos (decide_eq_true hlt)
        rw [take_succ_cons, take_succ_cons, ← ih hl (Nat.lt_of_succ_lt_succ hlast) hc,
          retainNeighbor, retainNeighbor]
        simp only [List.getElem?_cons_succ, hwhile, length_cons, take_succ_cons,
          List.drop_succ_cons]
        split_ifs <;> rfl

/-- The best of the leaves seen so far, and sentinels. -/
def Retains (distance : ℕ → ℕ → D) (i : ℕ) (seen : ℕ → Prop) (slots : List (Neighbor D)) : Prop :=
  ∃ kept : List ℕ, kept.Nodup ∧ (∀ j, j ∈ kept ↔ seen j) ∧ (∀ j ∈ kept, j < usizeMax) ∧
    slots = (sortBy id (kept.map (fun j => toLex (distance i j, j)) ++
      replicate 32 (toLex (⊤, usizeMax)))).take 32

variable {distance : ℕ → ℕ → D} {i j leaves : ℕ} {seen seen' : ℕ → Prop} {slots : List (Neighbor D)}
  {neighbors : List (List (Neighbor D))}

lemma Retains.retain (h : Retains distance i seen slots) (hj : ¬ seen j) (hmax : j < usizeMax)
    (hseen : ∀ k, seen' k ↔ seen k ∨ k = j) :
    Retains distance i seen' (retainNeighbor 31 slots (toLex (distance i j, j))) := by
  obtain ⟨kept, hnodup, hkept, hbound, rfl⟩ := h
  refine ⟨j :: kept, nodup_cons.mpr ⟨fun hmem => hj ((hkept j).mp hmem), hnodup⟩, fun k => ?_,
    forall_mem_cons.mpr ⟨hmax, hbound⟩, ?_⟩
  · rw [mem_cons, hkept, hseen, or_comm]
  · refine retainNeighbor_take (List.pairwise_insertionSort _ _) (by simp) ?_
    simp only [mem_sortBy, mem_append, mem_map, List.mem_replicate, not_or]
    refine ⟨?_, fun heq => hmax.ne (congrArg Prod.snd (toLex.injective heq.2))⟩
    rintro ⟨k, hk, heq⟩
    have hkj : k = j := congrArg Prod.snd (toLex.injective heq)
    exact hj ((hkept j).mp (hkj ▸ hk))

omit [OrderTop D] in
/-- A sorted list is the sorting of what it holds. -/
lemma sortBy_id_eq {l l' : List (Neighbor D)} (h : l.Perm l') (hl' : l'.Pairwise (· ≤ ·)) :
    sortBy id l = l' :=
  ((sortBy_perm id l).trans h).eq_of_pairwise (fun _ _ _ _ => le_antisymm)
    (List.pairwise_insertionSort _ l) hl'

/-- A list that has seen every other leaf. -/
lemma Retains.nearest (h : Retains distance i (fun j => j < leaves ∧ j ≠ i) slots)
    (hi : i < leaves) : slots.length = 32 ∧
      slots.take (min 32 (leaves - 1)) = (nearestOthers distance leaves i).take 32 := by
  obtain ⟨kept, hnodup, hkept, hbound, rfl⟩ := h
  have hperm : kept.Perm ((range leaves).erase i) := by
    refine (perm_ext_iff_of_nodup hnodup (List.nodup_range.erase i)).mpr fun j => ?_
    rw [hkept, List.nodup_range.mem_erase_iff, List.mem_range, and_comm]
  have hlength : (nearestOthers distance leaves i).length = leaves - 1 := by
    rw [nearestOthers, length_sortBy, length_map,
      List.length_erase_of_mem (List.mem_range.mpr hi), List.length_range]
  have hsorted : sortBy id (kept.map (fun j => toLex (distance i j, j)) ++
      replicate 32 (toLex (⊤, usizeMax))) =
        nearestOthers distance leaves i ++ replicate 32 (toLex (⊤, usizeMax)) := by
    refine sortBy_id_eq (((hperm.map _).trans (sortBy_perm id _).symm).append_right _) ?_
    refine pairwise_append.mpr ⟨List.pairwise_insertionSort _ _,
      List.pairwise_replicate.mpr (.inr le_rfl), fun a ha b hb => ?_⟩
    rw [List.eq_of_mem_replicate hb]
    obtain ⟨k, hk, rfl⟩ := mem_map.mp ((mem_sortBy id).mp ha)
    have hk := hbound k (hperm.mem_iff.mpr hk)
    exact Prod.Lex.toLex_le_toLex.mpr (le_top.lt_or_eq.imp_right fun heq => ⟨heq, hk.le⟩)
  rw [hsorted, take_take]
  refine ⟨by simp, ?_⟩
  rcases le_total 32 (leaves - 1) with hle | hle
  · rw [min_eq_left hle, min_self, List.take_append_of_le_length (hlength ▸ hle)]
  · rw [min_eq_right hle, min_eq_left hle, List.take_left' hlength,
      List.take_of_length_le (hlength ▸ hle)]

/-! ### All lists -/

lemma foldl_range_induction {σ : Type} {P : ℕ → σ → Prop} {f : σ → ℕ → σ} {s : σ} {n : ℕ}
    (hzero : P 0 s) (hstep : ∀ k < n, ∀ s, P k s → P (k + 1) (f s k)) :
    P n ((range n).foldl f s) := by
  induction n with
  | zero => exact hzero
  | succ n ih =>
    rw [List.range_succ, List.foldl_append]
    exact hstep n (Nat.lt_succ_self n) _ (ih fun k hk => hstep k (Nat.lt_succ_of_lt hk))

/-- Every leaf has the best of those it has been paired with. -/
def AllRetain (distance : ℕ → ℕ → D) (leaves : ℕ) (seen : ℕ → ℕ → Prop)
    (neighbors : List (List (Neighbor D))) : Prop :=
  ∀ i < leaves, ∃ slots, neighbors[i]? = some slots ∧
    Retains distance i (fun j => j < leaves ∧ j ≠ i ∧ seen i j) slots

lemma AllRetain.congr {seen seen' : ℕ → ℕ → Prop} (h : AllRetain distance leaves seen neighbors)
    (hseen : ∀ i j, i < leaves → j < leaves → j ≠ i → (seen i j ↔ seen' i j)) :
    AllRetain distance leaves seen' neighbors := by
  intro i hi
  obtain ⟨slots, hslots, kept, hnodup, hkept, hrest⟩ := h i hi
  refine ⟨slots, hslots, kept, hnodup, fun j => (hkept j).trans ?_, hrest⟩
  exact and_congr_right fun hj => and_congr_right fun hne => hseen i j hi hj hne

/-- A new pair is seen by both of its ends. -/
lemma AllRetain.pair {seen : ℕ → ℕ → Prop} {s t : ℕ}
    (h : AllRetain distance leaves seen neighbors) (hsymm : ∀ i j, distance i j = distance j i)
    (hmax : leaves ≤ usizeMax) (hs : s < leaves) (ht : t < leaves) (hne : s ≠ t) (hst : ¬ seen s t)
    (hts : ¬ seen t s) :
    AllRetain distance leaves (fun i j => seen i j ∨ i = s ∧ j = t ∨ i = t ∧ j = s)
      (retainPair s t (distance s t) neighbors) := by
  intro i hi
  obtain ⟨slots, hslots, hretains⟩ := h i hi
  simp only [retainPair, List.getElem?_modify]
  by_cases his : i = s
  · subst his
    refine ⟨_, by simp [hne.symm, hslots],
      hretains.retain (fun h => hst h.2.2) (ht.trans_le hmax) ?_⟩
    grind
  · by_cases hit : i = t
    · subst hit
      rw [hsymm s i]
      refine ⟨_, by simp [hne, hslots], hretains.retain (fun h => hts h.2.2) (hs.trans_le hmax) ?_⟩
      grind
    · refine ⟨slots, by simp [Ne.symm his, Ne.symm hit, hslots], ?_⟩
      simpa [his, hit] using hretains

/-- **Every list begins with the nearest other leaves.** -/
theorem leafNeighbors_nearest (hsymm : ∀ i j, distance i j = distance j i)
    (leaves : Fin (usizeMax + 1)) (hi : i < leaves) :
    ∃ slots, (leafNeighbors distance leaves)[i]? = some slots ∧ slots.length = 32 ∧
      slots.take (min 32 (leaves - 1)) = (nearestOthers distance leaves i).take 32 := by
  have hall : AllRetain distance leaves (fun i j => j < leaves ∨ i < leaves)
      (leafNeighbors distance leaves) := by
    refine foldl_range_induction (P := fun source => AllRetain distance leaves fun i j =>
      j < source ∨ i < source) ?_ fun source hsource neighbors h => ?_
    · refine fun i hi => ⟨_, List.getElem?_replicate_of_lt hi, [], .nil, by simp, by simp, ?_⟩
      rw [List.map_nil, nil_append, sortBy_id_eq (.refl _)
        (List.pairwise_replicate.mpr (.inr le_rfl))]
      rfl
    · -- the inner loop pairs the source with the leaves after it
      refine (foldl_range_induction (P := fun offset => AllRetain distance leaves fun i j =>
        (j < source ∨ i < source) ∨ i = source ∧ j < source + 1 + offset ∨
          j = source ∧ i < source + 1 + offset) ?_ fun offset hoffset neighbors h => ?_).congr ?_
      · exact h.congr fun i j _ _ _ => by omega
      · have hscore : (if offset < (leaves.val - (source + 1)) / 4 * 4 then
            distance (source + 1 + offset) source else distance source (source + 1 + offset)) =
              distance source (source + 1 + offset) := by
          rw [hsymm (source + 1 + offset), ite_self]
        simp only [hscore]
        refine (h.pair hsymm (Nat.le_of_lt_succ leaves.isLt) hsource (by omega) (by omega)
          (by omega) (by omega)).congr ?_
        exact fun i j _ _ _ => by omega
      · exact fun i j _ _ _ => by omega
  obtain ⟨slots, hslots, hretains⟩ := hall i hi
  refine ⟨slots, hslots, Retains.nearest ?_ hi⟩
  simpa [hi] using hretains

/-- Three leaves, the last of them far from the others. -/
theorem leafNeighbors_nearest_three : ∃ slots,
    (leafNeighbors (fun i j => decide (i = 2 ∨ j = 2)) 3)[1]? = some slots ∧ slots.length = 32 ∧
      slots.take 2 = (nearestOthers (fun i j => decide (i = 2 ∨ j = 2)) 3 1).take 32 :=
  leafNeighbors_nearest (fun i j => decide_eq_decide.mpr or_comm) 3 (by decide)

end
