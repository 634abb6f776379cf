/-
Coalescing the mutations of a transaction.

A builder keeps one mutation for each key and is charged for what is left after earlier ones
are superseded.  Its budget is what the transaction has left, and the transaction is
charged for a builder as a whole when it is applied.

* `queue_spec` — what a queued mutation changes;
* `Accounts.run` — the size of a builder is that of its entries after any calls;
* `mutations_accounted` — **both layers account exactly and stay within their budgets**.
-/
import Ktann.Storage.ReadCache

namespace ReadCache

/-! ### The builder -/

/-- A builder with the hard limits and the budget it was made for. -/
structure Builder extends MutationBuilder where
  limits : Limits

def Builder.new (compatible : Bool) (limits : Limits) : Builder :=
  ⟨⟨compatible, .empty, ⟨0, 0⟩⟩, limits⟩

/-- A builder bounded by the remaining budget of the transaction. -/
def WriteLogicalTxn.mutations (limits : Limits) (txn : WriteLogicalTxn) : Builder :=
  .new true { limits with
    maxMutations := limits.maxMutations - txn.size.mutations
    maxMutationBytes := limits.maxMutationBytes - txn.size.bytes }

/-- Calls on a builder, which keeps what was written before an error. -/
abbrev BuilderM := ExceptT Error (StateM Builder)

/-- A `usize` result, or the error of an overflow. -/
def checked (n : ℕ) : Except Error ℕ := if n < u64Bound then .ok n else .error (.new .limitExceeded)

def checkedSub (a b : ℕ) : Except Error ℕ :=
  if b ≤ a then .ok (a - b) else .error (.new .limitExceeded)

def TransactionSize.checkedAdd (a b : TransactionSize) : Except Error TransactionSize := do
  .ok ⟨← checked (a.mutations + b.mutations), ← checked (a.bytes + b.bytes)⟩

/-- Coalesces by key, charging only the final footprint. -/
def queue (key : Bytes) (value : Option Bytes) : BuilderM Unit := do
  let self ← get
  checkHardLimits self.limits key value
  let newBytes ← checked (mutationBytes key value)
  let next ← match self.entries.lookup key with
    | some old => do
      let oldBytes ← checked (mutationBytes key old)
      let bytes ← checkedSub self.size.bytes oldBytes
      let bytes ← checked (bytes + newBytes)
      let next : TransactionSize := ⟨self.size.mutations, bytes⟩
      checkBudget self.limits.maxMutations self.limits.maxMutationBytes next
      modify fun self => { self with entries := self.entries.put key value }
      pure next
    | none => do
      let next ← self.size.checkedAdd ⟨1, newBytes⟩
      checkBudget self.limits.maxMutations self.limits.maxMutationBytes next
      modify fun self => { self with entries := self.entries.put key value }
      pure next
  modify fun self => { self with size := next }

variable {K V : Type}

/-- The calls of a builder. -/
inductive Op (K V : Type)
  | put (key : K) (value : V)
  | delete (key : K)

variable (codec : Codec K V) (op : Op K V) (ops : List (Op K V))

/-- The encoded mutation of a call. -/
def Op.encode : Op K V → Except Error (Bytes × Option Bytes)
  | .put key value => do .ok (← codec.encodeInputKey key, some (← codec.encodeForKey key value))
  | .delete key => do .ok (← codec.encodeInputKey key, none)

def Op.call : BuilderM Unit := do
  let (key, value) ← op.encode codec
  queue key value

/-- The calls that succeed, in order, and the builder at the end. -/
def Builder.run (b : Builder) : List (Op K V) × Builder :=
  ops.foldl (fun (queued, b) op =>
    match (op.call codec).run b with
    | (.ok (), b) => (queued ++ [op], b)
    | (.error _, b) => (queued, b)) ([], b)

def lastMutation (key : Bytes) : Option (Option Bytes) :=
  (ops.filterMap fun op => (op.encode codec).toOption).reverse.lookup key

/-- Applies builders in turn; one that fails leaves the transaction as it is. -/
def WriteLogicalTxn.applyAll (limits : Limits) (refuse : Refusal) (txn : WriteLogicalTxn)
    (builders : List MutationBuilder) : WriteLogicalTxn :=
  builders.foldl (fun txn builder => (txn.apply limits refuse builder).toOption.getD txn) txn

/-! ### What a call leaves -/

def TransactionSize.Within (size : TransactionSize) (limits : Limits) : Prop :=
  size.mutations ≤ limits.maxMutations ∧ size.bytes ≤ limits.maxMutationBytes

/-- A call that fails and changes nothing, or leaves a builder with `P`. -/
def Atomic (P : Builder → Prop) (call : BuilderM Unit) (b : Builder) : Prop :=
  (∃ e, call.run b = (.error e, b)) ∨ ∃ b', call.run b = (.ok (), b') ∧ P b'

/-- What changes when `value` is queued under `key`; the sizes are free of subtraction. -/
structure Queued (b : Builder) (key : Bytes) (value : Option Bytes) (b' : Builder) : Prop where
  entries : b'.entries = b.entries.put key value
  limits : b'.limits = b.limits
  mutations : b'.size.mutations + (b.entries.lookup key).elim 0 (fun _ => 1) = b.size.mutations + 1
  bytes : b'.size.bytes + (b.entries.lookup key).elim 0 (mutationBytes key) =
    b.size.bytes + mutationBytes key value
  within : b'.size.Within b'.limits

variable {codec op ops} {P : Builder → Prop} {b b' : Builder} {key : Bytes} {value : Option Bytes}
  {limits : Limits}

lemma Atomic.check {α : Type} {x : Except Error α} {f : α → BuilderM Unit}
    (h : ∀ a, x = .ok a → Atomic P (f a) b) : Atomic P (liftM x >>= f) b := by
  cases x with
  | error e => exact .inl ⟨e, rfl⟩
  | ok a => exact h a rfl

lemma checkBudget_ok {m n : ℕ} {size : TransactionSize} (h : checkBudget m n size = .ok ()) :
    size.mutations ≤ m ∧ size.bytes ≤ n := by
  rw [checkBudget] at h
  split_ifs at h
  omega

lemma checked_ok {n m : ℕ} (h : checked n = .ok m) : m = n := by
  rw [checked] at h
  split_ifs at h
  cases h
  rfl

lemma queue_spec (hP : ∀ b', Queued b key value b' → P b') : Atomic P (queue key value) b := by
  have hget {f : Builder → BuilderM Unit} (h : Atomic P (f b) b) : Atomic P (get >>= f) b := h
  refine hget (.check fun _ _ => .check fun newBytes hnew => ?_)
  cases checked_ok hnew
  -- every check stands before the first write
  cases hlookup : b.entries.lookup key with
  | some old =>
    refine .check fun oldBytes hold => .check fun rest hrest => .check fun bytes hbytes =>
      .check fun _ hbudget => .inr ⟨_, rfl, hP _ ⟨rfl, rfl, ?_, ?_, checkBudget_ok hbudget⟩⟩
    · rw [hlookup]
      rfl
    · cases checked_ok hold
      cases checked_ok hbytes
      rw [checkedSub] at hrest
      split_ifs at hrest with hle
      cases hrest
      rw [hlookup, elim_some]
      change b.size.bytes - mutationBytes key old + mutationBytes key value + _ = _
      omega
  | none =>
    refine .check fun next hnext => .check fun _ hbudget =>
      .inr ⟨_, rfl, hP _ ⟨rfl, rfl, ?_, ?_, checkBudget_ok hbudget⟩⟩
    all_goals
      obtain ⟨_, hmutations, hnext⟩ := bind_eq_ok.mp hnext
      obtain ⟨_, hbytes, hnext⟩ := bind_eq_ok.mp hnext
      cases hnext
      cases checked_ok hmutations
      cases checked_ok hbytes
      rw [hlookup]
      rfl

lemma call_spec (codec : Codec K V) (op : Op K V) (b : Builder) :
    Atomic (fun b' => ∃ m, op.encode codec = .ok m ∧ Queued b m.1 m.2 b') (op.call codec) b :=
  .check fun m hm => queue_spec fun _ h => ⟨m, hm, h⟩

/-! ### Whole runs -/

/-- A builder that has queued `ops`. -/
structure Accounts (codec : Codec K V) (limits : Limits) (ops : List (Op K V)) (b : Builder) :
    Prop where
  mutations : b.size.mutations = b.entries.total fun _ _ => 1
  bytes : b.size.bytes = b.entries.total mutationBytes
  last : ∀ key, b.entries.lookup key = lastMutation codec ops key
  within : b.size.Within limits
  limits_eq : b.limits = limits

lemma Accounts.queued (h : Accounts codec limits ops b) (hm : op.encode codec = .ok (key, value))
    (hb : Queued b key value b') : Accounts codec limits (ops ++ [op]) b' := by
  have hlimits := hb.limits.trans h.limits_eq
  refine ⟨?_, ?_, fun key' => ?_, hlimits ▸ hb.within, hlimits⟩
  · have hput := b.entries.total_put (fun _ _ => 1) key value
    rw [← hb.entries, ← h.mutations, ← hb.mutations] at hput
    exact (Nat.add_right_cancel hput).symm
  · have hput := b.entries.total_put mutationBytes key value
    rw [← hb.entries, ← h.bytes, ← hb.bytes] at hput
    exact (Nat.add_right_cancel hput).symm
  · rw [hb.entries, lastMutation, List.filterMap_append, List.reverse_append]
    simp only [List.filterMap_cons, hm, Except.toOption, List.filterMap_nil, List.reverse_singleton,
      List.singleton_append, List.lookup_cons]
    by_cases hkey : key' = key
    · subst hkey
      simp
    · rw [lookup_put_ne _ _ hkey, beq_false_of_ne hkey, h.last]
      rfl

lemma Accounts.run (codec : Codec K V) (limits : Limits) (compatible : Bool)
    (ops : List (Op K V)) : Accounts codec limits ((Builder.new compatible limits).run codec ops).1
      ((Builder.new compatible limits).run codec ops).2 := by
  induction ops using List.reverseRecOn with
  | nil => exact ⟨rfl, rfl, fun _ => rfl, ⟨Nat.zero_le _, Nat.zero_le _⟩, rfl⟩
  | append_singleton _ op ih =>
    rw [Builder.run, List.foldl_concat]
    dsimp only
    rcases call_spec codec op _ with ⟨e, hcall⟩ | ⟨_, hcall, m, hm, hb⟩
    · rw [hcall]
      exact ih
    · rw [hcall]
      exact ih.queued hm hb

lemma within_applyAll {refuse : Refusal} {txn : WriteLogicalTxn} (h : txn.size.Within limits)
    (builders : List MutationBuilder) :
    (txn.applyAll limits refuse builders).size.Within limits := by
  induction builders generalizing txn with
  | nil => exact h
  | cons builder _ ih =>
    refine ih ?_
    dsimp only
    cases hok : txn.apply limits refuse builder with
    | error e => exact h
    | ok =>
      rw [WriteLogicalTxn.apply] at hok
      split_ifs at hok
      · cases hok
        exact h
      · obtain ⟨_, -, hok⟩ := bind_eq_ok.mp hok
        obtain ⟨_, hbudget, hok⟩ := bind_eq_ok.mp hok
        obtain ⟨_, -, hok⟩ := bind_eq_ok.mp hok
        cases hok
        exact checkBudget_ok hbudget

/-- **Both layers account exactly and stay within their budgets**: after any calls a builder
is charged its final entries, each the last mutation queued under its key; a rejected call
changes nothing; what a transaction's own builder queues fits the transaction; and no builders
take a transaction over its budget. -/
theorem mutations_accounted (codec : Codec K V) (limits : Limits) :
    (∀ compatible ops, let r := (Builder.new compatible limits).run codec ops
      r.2.size = ⟨r.2.entries.entries.length,
        (r.2.entries.entries.map fun e => mutationBytes e.1 e.2).sum⟩ ∧
      ∀ key, r.2.entries.lookup key = lastMutation codec r.1 key) ∧
    (∀ (b b' : Builder) (op : Op K V) e, (op.call codec).run b = (.error e, b') → b' = b) ∧
    ∀ txn : WriteLogicalTxn, txn.size.Within limits →
      (∀ ops : List (Op K V),
        (txn.size.add ((txn.mutations limits).run codec ops).2.size).Within limits) ∧
      ∀ refuse builders, (txn.applyAll limits refuse builders).size.Within limits := by
  refine ⟨fun compatible ops => ?_, fun b b' op e hcall => ?_,
    fun txn h => ⟨fun ops => ?_, fun refuse => within_applyAll h⟩⟩
  · have h := Accounts.run codec limits compatible ops
    refine ⟨?_, h.last⟩
    have hcount := h.mutations
    rw [OrderedMap.total, List.map_const', List.sum_replicate, smul_eq_mul, mul_one] at hcount
    rw [← hcount]
    exact congrArg (TransactionSize.mk _) h.bytes
  · rcases call_spec codec op b with ⟨_, h⟩ | ⟨_, h, -⟩
    · cases h.symm.trans hcall
      rfl
    · cases h.symm.trans hcall
  · obtain ⟨hmutations, hbytes⟩ :=
      (Accounts.run codec (txn.mutations limits).limits true ops).within
    exact ⟨(Nat.add_le_add_left hmutations _).trans_eq (Nat.add_sub_of_le h.1),
      (Nat.add_le_add_left hbytes _).trans_eq (Nat.add_sub_of_le h.2)⟩

end ReadCache
