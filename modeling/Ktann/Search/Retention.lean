/-
Retaining only as many pending branches as can be visited.

A filtered exact traversal keeps, of the pending entries of a tree and level, only as
many as its budget of visits.  Against complete retention the queues agree on their
first entries, and the operations on them keep that.

* `Kept` — the pending branches of both, in agreement on `k` entries;
* `Kept.push` — an entry that gave way has as many nearer ones as the limit before it;
* `Kept.select` — promoting a level spends the agreement only on what becomes active.
-/
import Ktann.Search.Traverse

namespace Traverse

open Agreement
open Continuation (hasWork deepest promoted treeComplete insertLimited)
open FrontierEntry (key)

section
variable {D : Type} [LinearOrder D]

/-! ### Pending branches -/

/-- The queues of two group lists agree on `k` entries. -/
def GroupsAgree (k : ℕ) (gs gs' : Groups D) : Prop :=
  List.Forall₂ (fun g g' => g.1 = g'.1 ∧ AgreeUpTo k g.2 g'.2) gs gs'

variable {g : (ℕ ×ₗ ℕ) × List (FrontierEntry D)}

omit [LinearOrder D] in
lemma mem_update {group : ℕ ×ₗ ℕ} {f : List (FrontierEntry D) → List (FrontierEntry D)}
    {gs : Groups D} (h : g ∈ Groups.update group f gs) :
    g ∈ gs ∨ g.2 = f [] ∨ ∃ g' ∈ gs, g.2 = f g'.2 := by
  induction gs with
  | nil =>
    rw [Groups.update, mem_singleton] at h
    exact .inr (.inl (by rw [h]))
  | cons head _ ih =>
    obtain ⟨_, _⟩ := head
    rw [Groups.update] at h
    split_ifs at h
    · rcases mem_cons.mp h with rfl | h
      · exact .inr (.inl rfl)
      · exact .inl h
    · rcases mem_cons.mp h with rfl | h
      · exact .inr (.inr ⟨_, mem_cons_self .., rfl⟩)
      · exact .inl (mem_cons_of_mem _ h)
    · rcases mem_cons.mp h with rfl | h
      · exact .inl (mem_cons_self ..)
      · rcases ih h with h | h | ⟨g₀, hg₀, h⟩
        · exact .inl (mem_cons_of_mem _ h)
        · exact .inr (.inl h)
        · exact .inr (.inr ⟨g₀, mem_cons_of_mem _ hg₀, h⟩)

omit [LinearOrder D] in
lemma GroupsAgree.update {k : ℕ} {gs gs' : Groups D} (h : GroupsAgree k gs gs') {group : ℕ ×ₗ ℕ}
    {f f' : List (FrontierEntry D) → List (FrontierEntry D)} (hnil : AgreeUpTo k (f []) (f' []))
    (hf : ∀ g ∈ gs, ∀ queue, AgreeUpTo k g.2 queue → AgreeUpTo k (f g.2) (f' queue)) :
    GroupsAgree k (Groups.update group f gs) (Groups.update group f' gs') := by
  induction h with
  | nil => exact .cons ⟨rfl, hnil⟩ .nil
  | @cons head head' _ _ hhead hrest ih =>
    obtain ⟨g, _⟩ := head
    obtain ⟨_, queue'⟩ := head'
    obtain ⟨rfl, hqueue⟩ := hhead
    obtain ⟨hfhead, hfrest⟩ := forall_mem_cons.mp hf
    rw [Groups.update, Groups.update]
    split_ifs
    · exact .cons ⟨rfl, hnil⟩ (.cons ⟨rfl, hqueue⟩ hrest)
    · exact .cons ⟨rfl, hfhead queue' hqueue⟩ hrest
    · exact .cons ⟨rfl, hqueue⟩ (ih hfrest)

omit [LinearOrder D] in
lemma GroupsAgree.deepest_eq {k : ℕ} {gs gs' : Groups D} (h : GroupsAgree k gs gs')
    (p : ℕ ×ₗ ℕ → Bool) : ((gs.find? fun g => p g.1).map fun g => (ofLex g.1).1) =
      (gs'.find? fun g => p g.1).map fun g => (ofLex g.1).1 := by
  induction h with
  | nil => rfl
  | @cons head head' _ _ hhead _ ih =>
    rw [List.find?_cons, List.find?_cons, ← hhead.1]
    cases p head.1 with
    | true => exact congrArg some (congrArg (fun g => (ofLex g).1) hhead.1)
    | false => exact ih

variable {k : ℕ} {gs gs' : Groups D}

omit [LinearOrder D] in
lemma GroupsAgree.any_eq (h : GroupsAgree k gs gs') (p : ℕ ×ₗ ℕ → Bool) :
    (gs.any fun g => p g.1) = gs'.any fun g => p g.1 := by
  induction h with
  | nil => rfl
  | cons hhead _ ih => rw [List.any_cons, List.any_cons, ih, hhead.1]

/-- Bounded against complete retention: what both decide by is the same, and the
queues agree on `k` entries.  The bounded queues are in order and hold partitions
referred to. -/
structure Kept (limit k : ℕ) (referenced : List (ℕ × PartitionKey)) (c c' : Continuation D) :
    Prop where
  effective : c.effective = c'.effective
  leafBeam : c.leafBeam = c'.leafBeam
  visitLimit : c.visitLimit = some limit
  unlimited : c'.visitLimit = none
  pending : k = 0 ∨ GroupsAgree k c.pending c'.pending
  ordered : ∀ g ∈ c.pending, Ordered key g.2
  known : ∀ g ∈ c.pending, ∀ e ∈ g.2, e.identity ∈ referenced

lemma mem_push {limit : ℕ} {c : Continuation D} (h : c.visitLimit = some limit)
    {entry e : FrontierEntry D} {level : ℕ} (hg : g ∈ (c.push entry level).pending) (he : e ∈ g.2) :
    e = entry ∨ ∃ g' ∈ c.pending, e ∈ g'.2 := by
  rcases mem_update hg with hg | hg | ⟨g', hg', hg⟩
  · exact .inr ⟨g, hg, he⟩
  · rw [hg, h] at he
    exact (mem_insertBounded he).imp_right fun he => absurd he not_mem_nil
  · rw [hg, h] at he
    exact (mem_insertBounded he).imp_right fun he => ⟨g', hg', he⟩

namespace Kept

variable {limit k : ℕ} {referenced : List (ℕ × PartitionKey)} {c c' : Continuation D}

section
variable (h : Kept limit k referenced c c')
include h

lemma mono {k' : ℕ} (hk : k' ≤ k) : Kept limit k' referenced c c' where
  effective := h.effective
  leafBeam := h.leafBeam
  visitLimit := h.visitLimit
  unlimited := h.unlimited
  pending := by
    rcases h.pending with _ | hp
    · exact .inl (by omega)
    · exact .inr (hp.imp fun _ _ hg => ⟨hg.1, hg.2.mono hk⟩)
  ordered := h.ordered
  known := h.known

lemma reference (id : ℕ × PartitionKey) : Kept limit k (id :: referenced) c c' :=
  { h with known := fun g hg e he => mem_cons_of_mem _ (h.known g hg e he) }

lemma recordEffectiveLeaf (tree : ℕ) :
    Kept limit k referenced (c.recordEffectiveLeaf tree) (c'.recordEffectiveLeaf tree) where
  effective := by
    rw [Continuation.recordEffectiveLeaf, Continuation.recordEffectiveLeaf, h.effective]
  leafBeam := h.leafBeam
  visitLimit := h.visitLimit
  unlimited := h.unlimited
  pending := h.pending
  ordered := h.ordered
  known := h.known

lemma push (hk : k ≤ limit) {entry : FrontierEntry D}
    (hnew : ∀ g ∈ c.pending, ∀ e ∈ g.2, e.identity ≠ entry.identity)
    (hknown : entry.identity ∈ referenced) (level : ℕ) :
    Kept limit k referenced (c.push entry level) (c'.push entry level) where
  effective := h.effective
  leafBeam := h.leafBeam
  visitLimit := h.visitLimit
  unlimited := h.unlimited
  pending := by
    refine h.pending.imp_right fun hp => ?_
    have hbounded : insertLimited c.visitLimit entry =
        insertBounded key limit entry := by
      rw [h.visitLimit]
      rfl
    have hfull : insertLimited c'.visitLimit entry =
        insertByKey key entry := by
      rw [h.unlimited]
      rfl
    rw [Continuation.push, Continuation.push, hbounded, hfull]
    refine hp.update ?_ fun g hg queue hqueue => ?_
    · exact insertBounded_agree List.Pairwise.nil hk fun b hb => absurd hb not_mem_nil
    · -- keys that are equal name one partition
      have hfresh : ∀ b ∈ g.2, b.key ≠ entry.key := by
        intro b hb heq
        have hlex := congrArg ofLex heq
        have hsecond := congrArg ofLex (congrArg Prod.snd hlex)
        exact hnew g hg b hb hsecond
      exact (insertBounded_agree (h.ordered g hg) hk hfresh).trans (hqueue.insert entry)
  ordered := by
    intro g hg
    rcases mem_update hg with hg | hg | ⟨g', hg', hg⟩
    · exact h.ordered g hg
    · rw [hg, h.visitLimit]
      exact Ordered.insertBounded List.Pairwise.nil limit entry
    · rw [hg, h.visitLimit]
      exact (h.ordered g' hg').insertBounded limit entry
  known := by
    intro g hg e he
    rcases mem_push h.visitLimit hg he with rfl | ⟨g', hg', he⟩
    · exact hknown
    · exact h.known g' hg' e he

end

/-! ### Promotion -/

section
variable (h : Kept limit k referenced c c')
include h

lemma treeComplete_eq : c.treeComplete = c'.treeComplete := by
  funext tree
  rw [treeComplete, treeComplete, h.effective, h.leafBeam]

lemma promoted_eq : c.promoted = c'.promoted := by
  funext level group
  rw [promoted, promoted, h.treeComplete_eq, Continuation.width,
    Continuation.width, h.effective, h.leafBeam]

lemma deepest_eq (hk : k ≠ 0) : c.deepest = c'.deepest := by
  rw [deepest, deepest, ← h.treeComplete_eq]
  exact (h.pending.resolve_left hk).deepest_eq fun g => !c.treeComplete (ofLex g).2

lemma hasWork_eq (hk : k ≠ 0) : c.hasWork = c'.hasWork := by
  rw [hasWork, hasWork, ← h.treeComplete_eq]
  exact (h.pending.resolve_left hk).any_eq fun g => !c.treeComplete (ofLex g).2

end

end Kept

lemma foldl_merge_agree {n : ℕ} (hn : n ≤ k) (h : GroupsAgree k gs gs') (width : ℕ ×ₗ ℕ → ℕ)
    {active active' : List (FrontierEntry D)} (hactive : AgreeUpTo n active active') : AgreeUpTo n
      (gs.foldl (fun active g => mergeByKey key active (g.2.take (width g.1))) active)
      (gs'.foldl (fun active g => mergeByKey key active (g.2.take (width g.1))) active') := by
  induction h generalizing active active' with
  | nil => exact hactive
  | @cons head head' _ _ hhead _ ih =>
    rw [foldl_cons, foldl_cons, ← hhead.1]
    exact ih (hactive.merge ((hhead.2.mono hn).take _))

lemma length_le_foldl_merge {gs : Groups D} (width : ℕ ×ₗ ℕ → ℕ)
    (active : List (FrontierEntry D)) : active.length ≤ (gs.foldl (fun active g =>
        mergeByKey key active (g.2.take (width g.1))) active).length ∧
      ∀ g ∈ gs, (g.2.take (width g.1)).length ≤ (gs.foldl (fun active g =>
        mergeByKey key active (g.2.take (width g.1))) active).length := by
  induction gs generalizing active with
  | nil => exact ⟨le_refl _, fun g hg => absurd hg not_mem_nil⟩
  | cons head _ ih =>
    obtain ⟨hactive, hrest⟩ := ih (mergeByKey key active (head.2.take (width head.1)))
    rw [length_mergeByKey] at hactive
    rw [foldl_cons]
    refine ⟨by omega, fun g hg => ?_⟩
    rcases mem_cons.mp hg with rfl | hg
    · omega
    · exact hrest g hg

omit [LinearOrder D] in
lemma drop_agree {a w : ℕ} {queue queue' : List (FrontierEntry D)} (h : AgreeUpTo k queue queue')
    (htaken : (queue.take w).length ≤ a) (ha : a < k) :
    AgreeUpTo (k - a) (queue.drop w) (queue'.drop w) := by
  rw [length_take] at htaken
  by_cases hw : w ≤ a
  · exact AgreeUpTo.drop w (h.mono (by omega))
  · -- the queue is exhausted, so it is all of the other
    rw [h.eq_of_length (by omega)]

omit [LinearOrder D] in
lemma GroupsAgree.dropAll {a : ℕ} (h : GroupsAgree k gs gs') (width : ℕ ×ₗ ℕ → ℕ)
    (htaken : ∀ g ∈ gs, (g.2.take (width g.1)).length ≤ a) (ha : a < k) :
    GroupsAgree (k - a) ((gs.map fun g => (g.1, g.2.drop (width g.1))).filter fun g => !g.2.isEmpty)
      ((gs'.map fun g => (g.1, g.2.drop (width g.1))).filter fun g => !g.2.isEmpty) := by
  induction h with
  | nil => exact .nil
  | @cons head head' _ _ hhead _ ih =>
    obtain ⟨hheadTaken, hrest⟩ := forall_mem_cons.mp htaken
    have hdrop := drop_agree hhead.2 hheadTaken ha
    have hempty : (head.2.drop (width head.1)).isEmpty =
        (head'.2.drop (width head.1)).isEmpty := by
      obtain ⟨j, hj⟩ : ∃ j, k - a = j + 1 := ⟨k - a - 1, by omega⟩
      rw [hj] at hdrop
      rw [Bool.eq_iff_iff, List.isEmpty_iff, List.isEmpty_iff, hdrop.eq_nil_iff]
    rw [map_cons, map_cons, List.filter_cons, List.filter_cons, ← hhead.1]
    dsimp only
    rw [← hempty]
    split_ifs
    · exact .cons ⟨rfl, hdrop⟩ (ih hrest)
    · exact ih hrest

lemma Kept.select {limit : ℕ} {referenced : List (ℕ × PartitionKey)} {c c' : Continuation D}
    (h : Kept limit k referenced c c') (hk : k ≠ 0) : AgreeUpTo k (c.select []).1 (c'.select []).1 ∧
      Kept limit (k - (c.select []).1.length) referenced (c.select []).2 (c'.select []).2 := by
  have hdeepest := h.deepest_eq hk
  have hpending := h.pending.resolve_left hk
  cases hlevel : c.deepest with
  | none =>
    rw [hlevel] at hdeepest
    rw [Continuation.select, Continuation.select, hlevel, ← hdeepest]
    exact ⟨rfl, h⟩
  | some level =>
    rw [hlevel] at hdeepest
    rw [Continuation.select, Continuation.select, hlevel, ← hdeepest, ← h.promoted_eq]
    dsimp only
    refine ⟨foldl_merge_agree (le_refl k) hpending (c.promoted level) rfl, ?_⟩
    obtain ⟨-, htaken⟩ := @length_le_foldl_merge _ _ c.pending (c.promoted level) []
    refine ⟨h.effective, h.leafBeam, h.visitLimit, h.unlimited, ?_, ?_, ?_⟩
    · by_cases ha : (c.pending.foldl (fun active g => mergeByKey key active
          (g.2.take (c.promoted level g.1))) []).length < k
      · exact .inr (hpending.dropAll (c.promoted level) htaken ha)
      · exact .inl (by omega)
    · intro g hg
      obtain ⟨g', hg', rfl⟩ := mem_map.mp (List.mem_of_mem_filter hg)
      exact List.Pairwise.sublist (List.drop_sublist _ _) (h.ordered g' hg')
    · intro g hg e he
      obtain ⟨g', hg', rfl⟩ := mem_map.mp (List.mem_of_mem_filter hg)
      exact h.known g' hg' e (List.mem_of_mem_drop he)

end

end Traverse
