/-
Transactions that look alike.

Two open transactions on one snapshot look alike over a store `C` if they protect
the same keys, show the same view, and leave the same store when they commit onto
`C`.  They may have staged different writes.

* `Respects m` — program `m` does not tell alike transactions apart;
* `SameFrom C s m m'` — from `s`, what `m` does over `C` can be done by `m'`, with
  the same result and an alike transaction.  The two programs share a beginning
  (`SameFrom.bind`), differ in one step, and share an end (`SameFrom.then_same`);
* `Commits.congr` — programs that do the same from every snapshot commit alike.
-/
import Ktann.Lib.Transaction

section

variable {K : Type} [LinearOrder K] {V : K → Type} {ε α β : Type} {m m' : TxnM V ε α}

namespace Txn

/-- Two states of transactions on one snapshot that look alike over `C`. -/
structure Alike (C : OrderedMap K V) (s s' : Txn V) : Prop where
  snapshot : s'.snapshot = s.snapshot
  protectedKeys : ∀ k, k ∈ s'.protectedKeys ↔ k ∈ s.protectedKeys
  view : s'.view = s.view
  onto : s'.onto C = s.onto C

variable {C : OrderedMap K V} {s s' : Txn V}

lemma Alike.refl : s.Alike C s := ⟨rfl, fun _ => Iff.rfl, rfl, rfl⟩

lemma Alike.protect (h : s.Alike C s') (k : K) : (s.protect k).Alike C (s'.protect k) where
  snapshot := h.snapshot
  protectedKeys k' := by
    simp only [Txn.protect, List.mem_cons, h.protectedKeys]
  view := h.view
  onto := h.onto

lemma Alike.stage (h : s.Alike C s') (w : Write V) : (s.stage w).Alike C (s'.stage w) where
  snapshot := h.snapshot
  protectedKeys := h.protectedKeys
  view := by rw [view_stage, view_stage, h.view]
  onto := by rw [onto_stage, onto_stage, h.onto]

lemma Alike.agrees (h : s.Alike C s') (hs : s.Agrees C) : s'.Agrees C := by
  intro k hk
  rw [hs k ((h.protectedKeys k).mp hk), h.snapshot]

end Txn

namespace TxnM

/-- The same result, up to alike transactions. -/
inductive SameResult (C : OrderedMap K V) :
    Except ε (α × Txn V) → Except ε (α × Txn V) → Prop
  | ok (a : α) {s s' : Txn V} (alike : s.Alike C s') : SameResult C (.ok (a, s)) (.ok (a, s'))
  | error (e : ε) : SameResult C (.error e) (.error e)

/-- A program that does not tell alike transactions apart. -/
def Respects (m : TxnM V ε α) : Prop := ∀ C s s', s.Alike C s' → SameResult C (m.run s) (m.run s')

lemma respects_pure (a : α) : Respects (pure a : TxnM V ε α) := fun _ _ _ h => .ok a h

lemma respects_fail (e : ε) : Respects (fail e : TxnM V ε α) := fun _ _ _ _ => .error e

lemma respects_bind {f : α → TxnM V ε β} (hm : Respects m) (hf : ∀ a, Respects (f a)) :
    Respects (m >>= f) := by
  intro C s s' h
  have hres := hm C s s' h
  rw [run_bind, run_bind]
  revert hres
  generalize m.run s = r
  generalize m.run s' = r'
  rintro (⟨a, alike⟩ | e)
  · exact hf a C _ _ alike
  · exact .error e

lemma respects_getForUpdate (k : K) : Respects (TxnM.getForUpdate k : TxnM V ε _) := by
  intro C s s' h
  simp only [TxnM.getForUpdate, h.view]
  exact .ok _ (h.protect k)

lemma respects_write (w : Write V) : Respects (write w : TxnM V ε _) :=
  fun _ _ _ h => .ok () (h.stage w)

lemma respects_ensure (c : Prop) [Decidable c] (e : ε) :
    Respects (ensure c e : TxnM V ε Unit) := by
  rw [ensure]
  split_ifs
  · exact respects_pure ()
  · exact respects_fail e

/-- From `s`, what `m` does over `C` can be done by `m'`. -/
def SameFrom (C : OrderedMap K V) (s : Txn V) (m m' : TxnM V ε α) : Prop :=
  ∀ a t, Runs C m s a t → ∃ t', Runs C m' s a t' ∧ t.Alike C t'

section

variable {C : OrderedMap K V} {s : Txn V}

lemma SameFrom.refl {m : TxnM V ε α} : SameFrom C s m m := fun _ t h => ⟨t, h, .refl⟩

/-- A common first step. -/
lemma SameFrom.bind {f f' : α → TxnM V ε β}
    (h : ∀ a t, Runs C m s a t → SameFrom C t (f a) (f' a)) :
    SameFrom C s (m >>= f) (m >>= f') := by
  intro b t hrun
  obtain ⟨a, s₁, hm, hf⟩ := runs_bind.mp hrun
  obtain ⟨t', hf', halike⟩ := h a s₁ hm b t hf
  exact ⟨t', runs_bind.mpr ⟨a, s₁, hm, hf'⟩, halike⟩

/-- A common end. -/
lemma SameFrom.then_same {f : α → TxnM V ε β} (h : SameFrom C s m m') (hf : ∀ a, Respects (f a)) :
    SameFrom C s (m >>= f) (m' >>= f) := by
  intro b t hrun
  obtain ⟨a, s₁, hm, hrest, hagrees⟩ := runs_bind.mp hrun
  obtain ⟨s₁', hm', halike⟩ := h a s₁ hm
  have hres := hf a C s₁ s₁' halike
  rw [hrest] at hres
  generalize hr : (f a).run s₁' = r at hres
  cases hres with
  | ok _ halike' => exact ⟨_, runs_bind.mpr ⟨a, s₁', hm', hr, halike'.agrees hagrees⟩, halike'⟩

end

end TxnM

/-- Programs that do the same from every snapshot of a history commit alike. -/
lemma Commits.congr {a : α} {history : List (OrderedMap K V)} {store : OrderedMap K V}
    (h : ∀ snapshot ∈ history, ∀ C, history.head? = some C →
      TxnM.SameFrom C (Txn.start snapshot) m m') (hcommits :
    Commits m a history store) : Commits m' a history store := by
  obtain @⟨newer, older, snapshot, current, s, hrun, hcurrent, hunchanged⟩ := hcommits
  have hhead : (newer ++ snapshot :: older).head? = some current := by
    cases newer <;> simpa using hcurrent
  have hagrees : s.Agrees current := by
    intro k hk
    rw [(m.run_extends hrun).snapshot]
    cases newer with
    | nil =>
      cases hcurrent
      rfl
    | cons S =>
      cases hcurrent
      exact hunchanged _ List.mem_cons_self k hk
  obtain ⟨_, ⟨hrun', -⟩, halike⟩ := h snapshot (by simp) current hhead a s ⟨hrun, hagrees⟩
  rw [← halike.onto]
  exact .intro hrun' hcurrent fun S hS k hk =>
    hunchanged S hS k ((halike.protectedKeys k).mp hk)

end
