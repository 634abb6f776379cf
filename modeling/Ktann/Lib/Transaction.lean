/-
Optimistic transactions over an ordered map.

A transaction reads a snapshot under its own writes.  A key read for update
(or inserted) is protected: the transaction commits only onto a store in which
every protected key still has its snapshot value.  `TxnM` is the monad of
transaction programs; the field `run_extends` keeps the snapshot fixed and the
protected keys growing along every program, so both hold without a proof per
program.

* `Runs C m s a s'` — program `m` takes `s` to `s'` and returns `a`, and the
  store `C` agrees with the snapshot on every protected key;
* `runs_bind` and the `runs_*` lemmas — the inversion of a program, step by
  step.  A protected read is an exact read of `s.onto C`, the store `C` under
  the transaction's writes: a committed transaction acts on the store it
  commits onto as if it had run there;
* `Commits.runs` — what a commit on a history of stores says in these terms.
-/
import Ktann.Lib.OrderedMap

section

variable {K : Type} [LinearOrder K] {V : K → Type} {ε α β : Type}

/-! ### Writes -/

inductive Write (V : K → Type)
  | put (k : K) (v : V k)
  | delete (k : K)
  | clear (range : K → Bool)

namespace Write

variable (m : OrderedMap K V)

/-- The effect of one write on a store. -/
def apply : Write V → OrderedMap K V
  | put k v => m.put k v
  | delete k => m.erase k
  | clear range => m.clear range

/-- The effect of staged writes, first to last. -/
def applyAll (ws : List (Write V)) : OrderedMap K V := ws.foldl apply m

@[simp] lemma applyAll_nil : applyAll m [] = m := rfl

@[simp] lemma applyAll_cons (w : Write V) (ws : List (Write V)) :
    applyAll m (w :: ws) = applyAll (w.apply m) ws := rfl

@[simp] lemma applyAll_append (ws ws' : List (Write V)) :
    applyAll m (ws ++ ws') = applyAll (applyAll m ws) ws' := List.foldl_append

/-- A write acts key by key: the value of `k` afterwards depends only on its
value before. -/
lemma lookup_apply_congr {m m' : OrderedMap K V} {k : K} (h : m.lookup k = m'.lookup k)
    (w : Write V) : (w.apply m).lookup k = (w.apply m').lookup k := by
  cases w with
  | put k' v => simp only [apply, lookup_put, h]
  | delete _ => simp only [apply, lookup_erase, h]
  | clear => simp only [apply, lookup_clear, h]

lemma lookup_applyAll_congr {k : K} (ws : List (Write V)) :
    ∀ {m m' : OrderedMap K V}, m.lookup k = m'.lookup k →
      (applyAll m ws).lookup k = (applyAll m' ws).lookup k := by
  induction ws with
  | nil => exact fun h => h
  | cons w _ ih => exact fun h => ih (lookup_apply_congr h w)

end Write

/-! ### Transactions and their programs -/

/-- An open transaction.  `view` is the snapshot under the staged writes. -/
structure Txn (V : K → Type) where
  snapshot : OrderedMap K V
  writes : List (Write V)
  protectedKeys : List K
  view : OrderedMap K V
  view_eq : view = Write.applyAll snapshot writes

namespace Txn

/-- A fresh transaction on a snapshot. -/
def start (snapshot : OrderedMap K V) : Txn V := ⟨snapshot, [], [], snapshot, rfl⟩

def protect (s : Txn V) (k : K) : Txn V := { s with protectedKeys := k :: s.protectedKeys }

def stage (s : Txn V) (w : Write V) : Txn V where
  snapshot := s.snapshot
  writes := s.writes ++ [w]
  protectedKeys := s.protectedKeys
  view := w.apply s.view
  view_eq := by rw [Write.applyAll_append, ← s.view_eq]; rfl

variable (C : OrderedMap K V)

/-- The store `C` under the transaction's writes. -/
def onto (s : Txn V) : OrderedMap K V := Write.applyAll C s.writes

@[simp] lemma onto_start (C snapshot : OrderedMap K V) : (start snapshot).onto C = C := rfl
@[simp] lemma onto_protect (s : Txn V) (k : K) : (s.protect k).onto C = s.onto C := rfl
@[simp] lemma onto_stage (s : Txn V) (w : Write V) : (s.stage w).onto C = w.apply (s.onto C) := by
  rw [onto, stage, Write.applyAll_append]; rfl
lemma onto_snapshot (s : Txn V) : s.onto s.snapshot = s.view := s.view_eq.symm
@[simp] lemma view_start (snapshot : OrderedMap K V) : (start snapshot).view = snapshot := rfl
@[simp] lemma view_protect (s : Txn V) (k : K) : (s.protect k).view = s.view := rfl
@[simp] lemma view_stage (s : Txn V) (w : Write V) : (s.stage w).view = w.apply s.view := rfl

/-- A later state of the same transaction. -/
structure Extends (s s' : Txn V) : Prop where
  snapshot : s'.snapshot = s.snapshot
  protectedKeys : s.protectedKeys ⊆ s'.protectedKeys

lemma Extends.refl (s : Txn V) : s.Extends s := ⟨rfl, fun _ h => h⟩

variable {s s' : Txn V}

lemma Extends.trans {s'' : Txn V} (h : s.Extends s') (h' : s'.Extends s'') : s.Extends s'' :=
  ⟨h'.snapshot.trans h.snapshot, fun _ hk => h'.protectedKeys (h.protectedKeys hk)⟩

lemma extends_protect (s : Txn V) (k : K) : s.Extends (s.protect k) :=
  ⟨rfl, List.subset_cons_self _ _⟩

lemma extends_stage (s : Txn V) (w : Write V) : s.Extends (s.stage w) := ⟨rfl, fun _ h => h⟩

/-- A later state of the same transaction with nothing more written. -/
structure SameWrites (s s' : Txn V) : Prop where
  snapshot : s'.snapshot = s.snapshot
  writes : s'.writes = s.writes

lemma SameWrites.refl (s : Txn V) : s.SameWrites s := ⟨rfl, rfl⟩

lemma SameWrites.trans {s'' : Txn V} (h : s.SameWrites s') (h' : s'.SameWrites s'') :
    s.SameWrites s'' :=
  ⟨h'.snapshot.trans h.snapshot, h'.writes.trans h.writes⟩

lemma sameWrites_protect (s : Txn V) (k : K) : s.SameWrites (s.protect k) := ⟨rfl, rfl⟩

lemma SameWrites.onto_eq (h : s.SameWrites s') (C : OrderedMap K V) : s'.onto C = s.onto C := by
  rw [onto, h.writes, onto]

lemma SameWrites.view_eq (h : s.SameWrites s') : s'.view = s.view := by
  rw [s'.view_eq, s.view_eq, h.writes, h.snapshot]

/-- `C` has the snapshot value of every protected key. -/
def Agrees (s : Txn V) : Prop := ∀ k ∈ s.protectedKeys, C.lookup k = s.snapshot.lookup k

lemma Agrees.of_extends {C : OrderedMap K V} (h : s'.Agrees C) (he : s.Extends s') :
    s.Agrees C := by
  intro k hk
  rw [h k (he.protectedKeys hk), he.snapshot]

/-- On a protected key the transaction's view is exact for the store it
agrees with. -/
lemma Agrees.lookup_view {C : OrderedMap K V} (h : s.Agrees C) {k : K}
    (hk : k ∈ s.protectedKeys) : s.view.lookup k = (s.onto C).lookup k := by
  rw [s.view_eq, onto]
  exact (Write.lookup_applyAll_congr s.writes (h k hk)).symm

end Txn

/-- A transaction program with errors in `ε`. -/
structure TxnM (V : K → Type) (ε α : Type) where
  run : Txn V → Except ε (α × Txn V)
  run_extends : ∀ {s a s'}, run s = .ok (a, s') → s.Extends s'

namespace TxnM

/-- Sequencing: the second program continues from the state of the first. -/
def bind (m : TxnM V ε α) (f : α → TxnM V ε β) : TxnM V ε β where
  run s :=
    match m.run s with
    | .error e => .error e
    | .ok (a, s') => (f a).run s'
  run_extends := by
    intro s b s'' h
    cases hm : m.run s with
    | error e => rw [hm] at h; cases h
    | ok r =>
      rw [hm] at h
      exact (m.run_extends hm).trans ((f r.1).run_extends h)

instance : Monad (TxnM V ε) where
  pure a := ⟨fun s => .ok (a, s), fun h => by cases h; exact Txn.Extends.refl _⟩
  bind := bind

/-- Abandon the transaction. -/
def fail (e : ε) : TxnM V ε α := ⟨fun _ => .error e, fun h => by cases h⟩

/-- Plain reads: a function of the transaction's view, with no protection. -/
def read (f : OrderedMap K V → Except ε α) : TxnM V ε α where
  run s :=
    match f s.view with
    | .error e => .error e
    | .ok a => .ok (a, s)
  run_extends := by
    intro s a s' h
    cases hf : f s.view with
    | error e => rw [hf] at h; cases h
    | ok a' => rw [hf] at h; cases h; exact Txn.Extends.refl _

variable (k : K)

/-- Read one key and protect it. -/
protected def getForUpdate : TxnM V ε (Option (V k)) where
  run s := .ok (s.view.lookup k, s.protect k)
  run_extends := by
    intro s a s' h
    cases h
    exact s.extends_protect k

def write (w : Write V) : TxnM V ε Unit where
  run s := .ok ((), s.stage w)
  run_extends := by
    intro s a s' h
    cases h
    exact s.extends_stage w

/-- Insert a key that must be absent, protecting it either way; `false` when it
exists. -/
protected def insert (v : V k) : TxnM V ε Bool where
  run s :=
    match s.view.lookup k with
    | none => .ok (true, (s.protect k).stage (.put k v))
    | some _ => .ok (false, s.protect k)
  run_extends := by
    intro s a s' h
    cases hk : s.view.lookup k with
    | none => rw [hk] at h; cases h; exact (s.extends_protect k).trans (Txn.extends_stage _ _)
    | some v' => rw [hk] at h; cases h; exact s.extends_protect k

/-- The value of an option, or abandon. -/
def orFail (e : ε) : Option α → TxnM V ε α
  | some a => pure a
  | none => fail e

/-- The value of a pure computation, or abandon with its error. -/
def ofExcept (x : Except ε α) : TxnM V ε α := read fun _ => x

/-- Continue only under a condition. -/
def ensure (c : Prop) [Decidable c] (e : ε) : TxnM V ε Unit := if c then pure () else fail e

/-- Change the error a program abandons with. -/
def mapError (f : ε → ε) (m : TxnM V ε α) : TxnM V ε α where
  run s :=
    match m.run s with
    | .error e => .error (f e)
    | .ok r => .ok r
  run_extends := by
    intro s a s' h
    cases hm : m.run s with
    | error e => rw [hm] at h; cases h
    | ok r => rw [hm] at h; cases h; exact m.run_extends hm

@[ext] lemma ext {m m' : TxnM V ε α} (h : ∀ s, m.run s = m'.run s) : m = m' := by
  cases m
  cases m'
  congr
  exact funext h

@[simp] lemma run_pure (a : α) (s : Txn V) : (pure a : TxnM V ε α).run s = .ok (a, s) := rfl

lemma run_bind (m : TxnM V ε α) (f : α → TxnM V ε β) (s : Txn V) : (m >>= f).run s =
      match m.run s with | .error e => .error e | .ok (a, s') => (f a).run s' := rfl

variable {m : TxnM V ε α} {f : α → TxnM V ε β} {a : α}

lemma run_bind_ok {s s' : Txn V} (h : m.run s = .ok (a, s')) :
    (m >>= f).run s = (f a).run s' := by
  rw [run_bind, h]

lemma run_bind_error {s : Txn V} {e : ε} (h : m.run s = .error e) :
    (m >>= f).run s = .error e := by
  rw [run_bind, h]

variable {c : Prop} {e : ε} {x : Except ε α}

lemma run_ensure [Decidable c] {s : Txn V} (h : c) :
    (ensure c e : TxnM V ε Unit).run s = .ok ((), s) := by
  rw [ensure, if_pos h, run_pure]

lemma run_ensure_not [Decidable c] {s : Txn V} (h : ¬ c) :
    (ensure c e : TxnM V ε Unit).run s = .error e := by
  rw [ensure, if_neg h]
  rfl

instance : LawfulMonad (TxnM V ε) := by
  refine LawfulMonad.mk' (TxnM V ε) ?_ ?_ ?_
  · intro α m
    apply ext
    intro s
    change (match m.run s with | .error e => .error e | .ok (a, s') => .ok (id a, s')) = m.run s
    cases m.run s <;> rfl
  · intro α β a f
    rfl
  · intro α β γ m f g
    apply ext
    intro s
    simp only [run_bind]
    cases m.run s <;> rfl

/-! ### The errors of a program -/

lemma run_bind_eq_error {s : Txn V} : (m >>= f).run s = .error e ↔
      m.run s = .error e ∨ ∃ a s', m.run s = .ok (a, s') ∧ (f a).run s' = .error e := by
  rw [run_bind]
  cases hm : m.run s with
  | error _ => simp
  | ok r =>
    obtain ⟨a, _⟩ := r
    simp

/-- A program that abandons with errors in `P` only. -/
def FailsOnly (P : ε → Prop) (m : TxnM V ε α) : Prop := ∀ s e, m.run s = .error e → P e

section

variable {P : ε → Prop}

lemma failsOnly_pure (a : α) : FailsOnly P (pure a : TxnM V ε α) := by
  intro s e h
  cases h

lemma failsOnly_bind (hm : FailsOnly P m) (hf : ∀ a, FailsOnly P (f a)) :
    FailsOnly P (m >>= f) := by
  intro s e h
  rcases run_bind_eq_error.mp h with h | ⟨a, s', -, h⟩
  · exact hm s e h
  · exact hf a s' e h

lemma failsOnly_fail (he : P e) : FailsOnly P (fail e : TxnM V ε α) := by
  intro s e' h
  cases h
  exact he

lemma failsOnly_getForUpdate : FailsOnly P (TxnM.getForUpdate k : TxnM V ε _) := by
  intro s e h
  cases h

lemma failsOnly_write (w : Write V) : FailsOnly P (write w : TxnM V ε _) := by
  intro s e h
  cases h

lemma failsOnly_insert (v : V k) : FailsOnly P (TxnM.insert k v : TxnM V ε _) := by
  intro s e h
  simp only [TxnM.insert] at h
  split at h <;> cases h

lemma failsOnly_orFail (he : P e) (o : Option α) : FailsOnly P (orFail e o : TxnM V ε α) := by
  cases o with
  | none => exact failsOnly_fail he
  | some a => exact failsOnly_pure a

lemma failsOnly_ofExcept (hx : ∀ e, x = .error e → P e) :
    FailsOnly P (ofExcept x : TxnM V ε α) := by
  intro s e h
  simp only [ofExcept, read] at h
  cases hx' : x with
  | error _ =>
    rw [hx'] at h
    cases h
    exact hx e hx'
  | ok a =>
    rw [hx'] at h
    cases h

lemma failsOnly_ensure [Decidable c] (he : P e) : FailsOnly P (ensure c e : TxnM V ε Unit) := by
  rw [ensure]
  split_ifs
  · exact failsOnly_pure ()
  · exact failsOnly_fail he

end

/-! ### Programs that find nothing to write -/

/-- Program `m` returns `a` on the store `S` and stages nothing. -/
def Reads (S : OrderedMap K V) (m : TxnM V ε α) (a : α) : Prop :=
  ∀ s : Txn V, s.view = S → ∃ s', m.run s = .ok (a, s') ∧ s'.writes = s.writes ∧ s'.view = S

section

variable {S : OrderedMap K V}

lemma reads_pure (a : α) : Reads S (pure a : TxnM V ε α) a := fun s hs => ⟨s, rfl, rfl, hs⟩

lemma Reads.bind {b : β} (hm : Reads S m a) (hf : Reads S (f a) b) : Reads S (m >>= f) b := by
  intro s hs
  obtain ⟨s₁, hrun, hwrites, hview⟩ := hm s hs
  obtain ⟨s₂, hrun', hwrites', hview'⟩ := hf s₁ hview
  exact ⟨s₂, (run_bind_ok hrun).trans hrun', hwrites'.trans hwrites, hview'⟩

lemma reads_read {f : OrderedMap K V → Except ε α} (h : f S = .ok a) : Reads S (read f) a := by
  rintro s rfl
  exact ⟨s, by simp [read, h], rfl, rfl⟩

lemma reads_ofExcept (h : x = .ok a) : Reads S (ofExcept x : TxnM V ε α) a := reads_read h

lemma reads_getForUpdate : Reads S (TxnM.getForUpdate k : TxnM V ε _) (S.lookup k) := by
  rintro s rfl
  exact ⟨s.protect k, rfl, rfl, rfl⟩

lemma reads_ensure [Decidable c] (h : c) :
    Reads S (ensure c e : TxnM V ε Unit) () := fun s hs => ⟨s, run_ensure h, rfl, hs⟩

lemma Reads.run {m : TxnM V ε α} {a : α} (h : Reads S m a) :
    ∃ s, m.run (Txn.start S) = .ok (a, s) ∧ s.writes = [] := by
  obtain ⟨s, hrun, hwrites, -⟩ := h (Txn.start S) rfl
  exact ⟨s, hrun, hwrites⟩

end

/-! ### Programs read on the store they commit onto -/

/-- Program `m` takes `s` to `s'` and returns `a`, and `C` agrees with the
snapshot on every key protected by then. -/
def Runs (C : OrderedMap K V) (m : TxnM V ε α) (s : Txn V) (a : α) (s' : Txn V) : Prop :=
  m.run s = .ok (a, s') ∧ s'.Agrees C

variable {C : OrderedMap K V} {s s' : Txn V}

/-- A program that succeeds ran on its own snapshot. -/
lemma runs_of_run (h : m.run s = .ok (a, s')) : Runs s.snapshot m s a s' :=
  ⟨h, fun k _ => by rw [(m.run_extends h).snapshot]⟩

lemma Runs.agrees (h : Runs C m s a s') : s'.Agrees C := h.2

lemma runs_pure {b : α} : Runs C (pure a : TxnM V ε α) s b s' ↔ b = a ∧ s' = s ∧ s.Agrees C := by
  constructor
  · rintro ⟨h, hC⟩
    cases h
    exact ⟨rfl, rfl, hC⟩
  · rintro ⟨rfl, rfl, hC⟩
    exact ⟨rfl, hC⟩

lemma runs_bind {b : β} :
    Runs C (m >>= f) s b s' ↔ ∃ a t, Runs C m s a t ∧ Runs C (f a) t b s' := by
  constructor
  · rintro ⟨h, hC⟩
    rw [run_bind] at h
    cases hm : m.run s with
    | error e => rw [hm] at h; cases h
    | ok r =>
      rw [hm] at h
      exact ⟨r.1, r.2, ⟨hm, hC.of_extends ((f r.1).run_extends h)⟩, h, hC⟩
  · rintro ⟨a, t, ⟨hm, _⟩, hf, hC⟩
    exact ⟨by rw [run_bind, hm]; exact hf, hC⟩

/-- The rule of composition: the second program starts where the first one ends. -/
lemma runs_then {b : β} {P : α → Txn V → Prop} (hm : ∀ {a t}, Runs C m s a t → P a t)
    (h : Runs C (m >>= f) s b s') : ∃ a t, P a t ∧ Runs C (f a) t b s' := by
  obtain ⟨a, t, hrun, h⟩ := runs_bind.mp h
  exact ⟨a, t, hm hrun, h⟩

lemma runs_fail : Runs C (fail e : TxnM V ε α) s a s' ↔ False := by
  constructor
  · rintro ⟨h, _⟩
    cases h
  · exact False.elim

lemma runs_read {f : OrderedMap K V → Except ε α} :
    Runs C (read f) s a s' ↔ f s.view = .ok a ∧ s' = s ∧ s.Agrees C := by
  constructor
  · rintro ⟨h, hC⟩
    simp only [read] at h
    cases hf : f s.view with
    | error e => rw [hf] at h; cases h
    | ok _ => rw [hf] at h; cases h; exact ⟨rfl, rfl, hC⟩
  · rintro ⟨hf, rfl, hC⟩
    exact ⟨by simp only [read, hf], hC⟩

protected lemma runs_getForUpdate {k : K} {v : Option (V k)} : Runs C
    (TxnM.getForUpdate k : TxnM V ε _) s v s' ↔
      v = (s.onto C).lookup k ∧ s' = s.protect k ∧ (s.protect k).Agrees C := by
  constructor
  · rintro ⟨h, hC⟩
    cases h
    exact ⟨hC.lookup_view List.mem_cons_self, rfl, hC⟩
  · rintro ⟨rfl, rfl, hC⟩
    exact ⟨congrArg (fun v => Except.ok (v, s.protect k))
      (hC.lookup_view (s := s.protect k) List.mem_cons_self), hC⟩

lemma runs_write {w : Write V} {u : Unit} :
    Runs C (write w : TxnM V ε _) s u s' ↔ s' = s.stage w ∧ s.Agrees C := by
  constructor
  · rintro ⟨h, hC⟩
    cases h
    exact ⟨rfl, hC.of_extends (s.extends_stage w)⟩
  · rintro ⟨rfl, hC⟩
    exact ⟨rfl, hC⟩

protected lemma runs_insert {k : K} {v : V k} {b : Bool} :
    Runs C (TxnM.insert k v : TxnM V ε _) s b s' ↔ (s.protect k).Agrees C ∧
      ((b = true ∧ (s.onto C).lookup k = none ∧ s' = (s.protect k).stage (.put k v)) ∨
        (b = false ∧ (s.onto C).lookup k ≠ none ∧ s' = s.protect k)) := by
  have hview (hC : (s.protect k).Agrees C) : s.view.lookup k = (s.onto C).lookup k :=
    hC.lookup_view (s := s.protect k) List.mem_cons_self
  constructor
  · rintro ⟨h, hC⟩
    simp only [TxnM.insert] at h
    cases hk : s.view.lookup k with
    | none =>
      rw [hk] at h
      cases h
      have hC' : (s.protect k).Agrees C := hC.of_extends (Txn.extends_stage _ _)
      exact ⟨hC', Or.inl ⟨rfl, (hview hC').symm.trans hk, rfl⟩⟩
    | some v' =>
      rw [hk] at h
      cases h
      exact ⟨hC, Or.inr ⟨rfl, by rw [← hview hC, hk]; simp, rfl⟩⟩
  · rintro ⟨hC, ⟨rfl, hk, rfl⟩ | ⟨rfl, hk, rfl⟩⟩
    · exact ⟨by simp only [TxnM.insert, (hview hC).trans hk], hC⟩
    · obtain ⟨_, hv'⟩ := Option.ne_none_iff_exists'.mp hk
      exact ⟨by simp only [TxnM.insert, (hview hC).trans hv'], hC⟩

lemma runs_orFail {o : Option α} :
    Runs C (orFail e o : TxnM V ε α) s a s' ↔ o = some a ∧ s' = s ∧ s.Agrees C := by
  cases o with
  | none => simp [orFail, runs_fail]
  | some b => simp [orFail, runs_pure, eq_comm]

lemma runs_ofExcept : Runs C (ofExcept x : TxnM V ε α) s a s' ↔ x = .ok a ∧ s' = s ∧ s.Agrees C :=
  runs_read

lemma runs_ensure [Decidable c] {u : Unit} :
    Runs C (ensure c e : TxnM V ε Unit) s u s' ↔ c ∧ s' = s ∧ s.Agrees C := by
  by_cases hc : c <;> simp [ensure, hc, runs_pure, runs_fail]

lemma runs_mapError {f : ε → ε} : Runs C (mapError f m) s a s' ↔ Runs C m s a s' := by
  refine and_congr_left fun _ => ?_
  simp only [mapError]
  cases m.run s <;> simp

lemma runs_ite [Decidable c] {m' : TxnM V ε α} :
    Runs C (if c then m else m') s a s' ↔ (c ∧ Runs C m s a s') ∨ (¬c ∧ Runs C m' s a s') := by
  by_cases hc : c <;> simp [hc]

/-! ### Programs that only read -/

/-- A program that stages no write. -/
def ReadOnly (m : TxnM V ε α) : Prop := ∀ s a s', m.run s = .ok (a, s') → s.SameWrites s'

lemma ReadOnly.sameWrites (hm : ReadOnly m) (h : Runs C m s a s') : s.SameWrites s' :=
  hm _ _ _ h.1

lemma readOnly_pure (a : α) : ReadOnly (pure a : TxnM V ε α) := by
  intro s b s' h
  cases h
  exact .refl _

lemma readOnly_bind (hm : ReadOnly m) (hf : ∀ a, ReadOnly (f a)) : ReadOnly (m >>= f) := by
  intro s b _ h
  rw [run_bind] at h
  cases hr : m.run s with
  | error e => rw [hr] at h; cases h
  | ok r =>
    rw [hr] at h
    exact (hm _ _ _ hr).trans (hf r.1 _ _ _ h)

lemma readOnly_fail (e : ε) : ReadOnly (fail e : TxnM V ε α) := by
  intro s a s' h
  cases h

lemma readOnly_read (f : OrderedMap K V → Except ε α) : ReadOnly (read f) := by
  intro s a s' h
  simp only [read] at h
  cases hf : f s.view with
  | error e => rw [hf] at h; cases h
  | ok b => rw [hf] at h; cases h; exact .refl _

lemma readOnly_getForUpdate : ReadOnly (TxnM.getForUpdate k : TxnM V ε _) := by
  intro s a s' h
  cases h
  exact s.sameWrites_protect k

lemma readOnly_ofExcept (x : Except ε α) : ReadOnly (ofExcept x : TxnM V ε α) := readOnly_read _

lemma readOnly_ite [Decidable c] {m' : TxnM V ε α} (hm : ReadOnly m) (hm' : ReadOnly m') :
    ReadOnly (if c then m else m') := by
  split_ifs
  · exact hm
  · exact hm'

lemma readOnly_ensure (c : Prop) [Decidable c] (e : ε) : ReadOnly (ensure c e : TxnM V ε Unit) :=
  readOnly_ite (readOnly_pure ()) (readOnly_fail e)

lemma readOnly_mapError {f : ε → ε} (hm : ReadOnly m) : ReadOnly (mapError f m) := by
  intro s a s' h
  simp only [mapError] at h
  cases hr : m.run s with
  | error e => rw [hr] at h; cases h
  | ok r => rw [hr] at h; cases h; exact hm _ _ _ hr

lemma readOnly_forM {f : β → TxnM V ε PUnit} (hf : ∀ b, ReadOnly (f b)) :
    ∀ bs : List β, ReadOnly (bs.forM f)
  | [] => readOnly_pure _
  | b :: bs => readOnly_bind (hf b) fun _ => readOnly_forM hf bs

end TxnM

/-! ### Commits on a history -/

/-- A transaction on some store of a history (newest first) commits: no key it
protected has changed since its snapshot, and its writes take the newest store
to `store`. -/
inductive Commits (m : TxnM V ε α) (a : α) : List (OrderedMap K V) → OrderedMap K V → Prop
  | intro {newer older : List (OrderedMap K V)} {snapshot current : OrderedMap K V} {s : Txn V}
      (hrun : m.run (Txn.start snapshot) = .ok (a, s))
      (hcurrent : (newer ++ [snapshot]).head? = some current)
      (hunchanged : ∀ S ∈ newer, ∀ k ∈ s.protectedKeys, S.lookup k = snapshot.lookup k) :
      Commits m a (newer ++ snapshot :: older) (s.onto current)

/-- A committed transaction ran on the newest store, as far as its protected
reads go; its plain reads saw the store of an earlier commit. -/
lemma Commits.runs {m : TxnM V ε α} {a : α} {history : List (OrderedMap K V)}
    {store : OrderedMap K V} (h : Commits m a history store) :
    ∃ snapshot ∈ history, ∃ current s, history.head? = some current ∧
      TxnM.Runs current m (Txn.start snapshot) a s ∧ store = s.onto current := by
  obtain @⟨newer, _, snapshot, current, s, hrun, hcurrent, hunchanged⟩ := h
  refine ⟨snapshot, by simp, current, s, ?_, ⟨hrun, ?_⟩, rfl⟩
  · cases newer <;> simpa using hcurrent
  · have hsnap : s.snapshot = snapshot := (m.run_extends hrun).snapshot
    intro k hk
    rw [hsnap]
    cases newer with
    | nil => simp only [List.nil_append, List.head?_cons, Option.some.injEq] at hcurrent
             rw [hcurrent]
    | cons S =>
      simp only [List.cons_append, List.head?_cons, Option.some.injEq] at hcurrent
      exact hcurrent ▸ hunchanged S List.mem_cons_self k hk

end

export Txn (onto_stage onto_protect)
