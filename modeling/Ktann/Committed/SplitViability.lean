/-
Split drains keep both targets viable.

Every batch takes its reservation from the counts it finds.  As long as the two
targets together lack no more entries than the source holds, each choice keeps it
so, whatever the distances are; an entry that a graph batch skips uses up nothing.

* `SplitBalance.choose_attainable` — one choice;
* `DrainBatching.fills` — one batch of either kind;
* `splitDrain_viable` — any sequence of batches.
-/
import Ktann.Committed.GraphSteps

section
variable {α : Type} {targets : SplitPair} {balance : SplitBalance}

/-- The source still has what the two targets lack together. -/
def SplitBalance.Attainable (balance : SplitBalance) : Prop :=
  balance.leftNeeded + balance.rightNeeded ≤ balance.sourceRemaining

/-- How many of the moves go to one target. -/
def received (target : PartitionKey) (moves : List (α × PartitionKey)) : ℕ :=
  moves.countP fun m => m.2 = target

@[simp] lemma received_cons {target : PartitionKey} {m : α × PartitionKey}
    {moves : List (α × PartitionKey)} :
    received target (m :: moves) = received target moves + if m.2 = target then 1 else 0 := by
  simp [received, countP_cons]

/-- After the moves, the source still has what the targets lack. -/
def Fills (targets : SplitPair) (balance : SplitBalance) (moves : List (α × PartitionKey)) : Prop :=
  (balance.leftNeeded - received targets.left moves) +
    (balance.rightNeeded - received targets.right moves) + moves.length ≤ balance.sourceRemaining

lemma SplitBalance.Attainable.fills_nil (h : balance.Attainable) :
    Fills targets balance ([] : List (α × PartitionKey)) := by
  simpa [Fills, received, SplitBalance.Attainable] using h

/-- A choice from an attainable reservation leaves an attainable one. -/
lemma SplitBalance.choose_attainable {x y : ℤ} (h : balance.Attainable)
    (hpos : 0 < balance.sourceRemaining) :
    ∃ target balance', balance.choose targets.left x targets.right y = .ok (target, balance') ∧
      balance'.Attainable ∧ balance'.sourceRemaining + 1 = balance.sourceRemaining ∧
      ∀ (e : α) (moves : List (α × PartitionKey)),
        Fills targets balance' moves → Fills targets balance ((e, target) :: moves) := by
  obtain ⟨source, left, right⟩ := balance
  obtain ⟨remaining, rfl⟩ : ∃ r, source = r + 1 := ⟨source - 1, (Nat.sub_add_cancel hpos).symm⟩
  have hsum : left + right ≤ remaining + 1 := h
  have hne := targets.ne
  unfold SplitBalance.choose nearerOfTwo
  dsimp only
  rw [if_neg (Nat.succ_ne_zero remaining), Nat.add_sub_cancel]
  -- an entry of the reservation goes to the target that needs all the rest, any other
  -- to the nearer one
  split_ifs <;> refine ⟨_, _, rfl, ?_, rfl, fun e moves hfills => ?_⟩ <;>
    simp_all only [SplitBalance.Attainable, Fills, received_cons, length_cons, if_true,
      if_false, hne.symm, not_lt, true_and] <;> omega

/-! ### One batch -/

lemma chooseTargets_fills {ix : Index} {a b : VectorData} {routing : α → Except Error VectorData}
    {page : List α} :
    ∀ {balance : SplitBalance}, balance.Attainable → page.length ≤ balance.sourceRemaining →
      (∀ e ∈ page, ∃ v, routing e = .ok v) →
      ∃ moves, chooseTargets ix targets a b routing balance page = .ok moves ∧
        Fills targets balance moves := by
  induction page with
  | nil => exact fun h _ _ => ⟨[], rfl, h.fills_nil⟩
  | cons e _ ih =>
    intro balance h hlen hrouting
    rw [length_cons] at hlen
    obtain ⟨v, hv⟩ := hrouting e mem_cons_self
    obtain ⟨target, _, hchoose, hatt, hrem, hcons⟩ :=
      @SplitBalance.choose_attainable α targets balance
      (ix.routingDistance v a) (ix.routingDistance v b) h (by omega)
    obtain ⟨moves, hmoves, hfills⟩ := ih hatt (by omega)
      fun e' he' => hrouting e' (mem_cons_of_mem e he')
    refine ⟨(e, target) :: moves, ?_, hcons e moves hfills⟩
    simp only [chooseTargets, bind_eq_ok]
    exact ⟨v, hv, _, hchoose, moves, hmoves, rfl⟩

/-- A graph batch moves its first entry, and what it skips uses up no
reservation. -/
lemma splitDrainMoves_fills {ix : Index} {a b : VectorData} {page : List ChildEntry} :
    ∀ {balance : SplitBalance} {receiver : Option PartitionKey}, balance.Attainable →
      page.length ≤ balance.sourceRemaining →
      ∃ moves, splitDrainMoves ix targets a b balance receiver page = .ok moves ∧
        Fills targets balance moves ∧ (receiver = none → page ≠ [] → moves ≠ []) := by
  induction page with
  | nil => exact fun h _ => ⟨[], rfl, h.fills_nil, fun _ hne => absurd rfl hne⟩
  | cons e _ ih =>
    intro balance receiver h hlen
    rw [length_cons] at hlen
    obtain ⟨target, balance', hchoose, hatt, hrem, hcons⟩ :=
      @SplitBalance.choose_attainable ChildEntry targets balance (ix.routingDistance e.centroid a)
        (ix.routingDistance e.centroid b) h (by omega)
    simp only [splitDrainMoves, bind_eq_ok]
    by_cases hsame : ∀ r ∈ receiver, r = target
    · obtain ⟨moves, hmoves, hfills, -⟩ := @ih balance' (some target) hatt (by omega)
      refine ⟨(e, target) :: moves, ⟨_, hchoose, ?_⟩, hcons e moves hfills, by simp⟩
      rw [if_pos hsame]
      exact bind_eq_ok.mpr ⟨moves, hmoves, rfl⟩
    · obtain ⟨moves, hmoves, hfills, -⟩ := @ih balance receiver h (by omega)
      refine ⟨moves, ⟨_, hchoose, ?_⟩, hfills, ?_⟩
      · rwa [if_neg hsame]
      · rintro rfl
        exact absurd (by simp) hsame

end

/-- How a batch chooses its moves: in order for every entry read, or to the
receiver of the first child only. -/
inductive DrainBatching (ix : Index) (targets : SplitPair) (a b : VectorData) : {α : Type} →
    (α → Except Error VectorData) →
      (SplitBalance → List α → Except Error (List (α × PartitionKey))) → Prop
  | ordinary {α : Type} (routing : α → Except Error VectorData) :
    DrainBatching ix targets a b routing (chooseTargets ix targets a b routing)
  | graph : DrainBatching ix targets a b (fun e : ChildEntry => .ok e.centroid)
      fun balance page => splitDrainMoves ix targets a b balance none page

section
variable {ix : Index} {targets : SplitPair} {a b : VectorData} {α : Type}
  {routing : α → Except Error VectorData} {minimum : ℕ}

/-- A batch of either kind succeeds on entries that have distances, moves some of
them, and keeps the reservation. -/
lemma DrainBatching.fills {batch : SplitBalance → List α → Except Error (List (α × PartitionKey))}
    (h : DrainBatching ix targets a b routing batch) {balance : SplitBalance} {page : List α}
    (hatt : balance.Attainable) (hlen : page.length ≤ balance.sourceRemaining)
    (hrouting : ∀ e ∈ page, ∃ v, routing e = .ok v) :
    ∃ moves, batch balance page = .ok moves ∧ Fills targets balance moves ∧
      (moves.map Prod.fst).Sublist page ∧ (page ≠ [] → moves ≠ []) := by
  cases h with
  | ordinary =>
    obtain ⟨moves, hok, hfills⟩ := chooseTargets_fills hatt hlen hrouting
    have hfst := chooseTargets_fst hok
    refine ⟨moves, hok, hfills, by rw [hfst], fun hne hnil => hne ?_⟩
    rw [← hfst, hnil, List.map_nil]
  | graph =>
    obtain ⟨moves, hok, hfills, hne⟩ := splitDrainMoves_fills hatt hlen
    exact ⟨moves, hok, hfills, splitDrainMoves_fst hok, hne rfl⟩

/-! ### The whole drain -/

/-- The entries a split source still has, and the counts of its targets. -/
structure SplitDrain (α : Type) where
  source : List α
  left : ℕ
  right : ℕ

namespace SplitDrain

/-- The reservation of a batch, from exact counts. -/
def balance (d : SplitDrain α) (minimum : ℕ) : SplitBalance :=
  .new d.source.length d.left d.right minimum

/-- One batch: it reads some entries of the source and moves them, or some of
them; the others stay. -/
inductive Step (ix : Index) (targets : SplitPair) (a b : VectorData)
    (routing : α → Except Error VectorData) (minimum : ℕ) : SplitDrain α → SplitDrain α → Prop
  | batch {d : SplitDrain α} {page rest : List α} {moves : List (α × PartitionKey)}
      {batch : SplitBalance → List α → Except Error (List (α × PartitionKey))}
      (hbatch : DrainBatching ix targets a b routing batch) (hpage : page.Subperm d.source)
      (hok : batch (d.balance minimum) page = .ok moves)
      (hrest : d.source.Perm (moves.map Prod.fst ++ rest)) :
      Step ix targets a b routing minimum d
        ⟨rest, d.left + received targets.left moves, d.right + received targets.right moves⟩

/-- A drain that can go on until both targets are large enough. -/
structure Viable (ix : Index) (targets : SplitPair) (a b : VectorData)
    (routing : α → Except Error VectorData) (minimum : ℕ) (d : SplitDrain α) : Prop where
  moves {batch : SplitBalance → List α → Except Error (List (α × PartitionKey))} {page : List α} :
    DrainBatching ix targets a b routing batch → page ≠ [] → page.Subperm d.source →
      ∃ moves, batch (d.balance minimum) page = .ok moves ∧ moves ≠ [] ∧
        (moves.map Prod.fst).Sublist page
  filled : d.source = [] → minimum ≤ d.left ∧ minimum ≤ d.right

/-- What every batch of a drain preserves. -/
def Fillable (routing : α → Except Error VectorData) (minimum : ℕ) (d : SplitDrain α) :
    Prop :=
  (d.balance minimum).Attainable ∧ ∀ e ∈ d.source, ∃ v, routing e = .ok v

lemma Step.fillable {d d' : SplitDrain α}
    (h : d.Step ix targets a b routing minimum d') (hd : d.Fillable routing minimum) :
    d'.Fillable routing minimum := by
  cases h with
  | @batch _ rest moves _ hbatch hpage hok hrest =>
    obtain ⟨hatt, hrouting⟩ := hd
    obtain ⟨_, hok', hfills, -⟩ := hbatch.fills hatt hpage.length_le
      fun e he => hrouting e (hpage.subset he)
    cases hok.symm.trans hok'
    refine ⟨?_, fun e he => hrouting e (hrest.mem_iff.mpr (List.mem_append_right _ he))⟩
    have hlen : d.source.length = moves.length + rest.length := by
      rw [hrest.length_eq, length_append, length_map]
    -- what the targets still need shrinks with what they receive
    have hcounts : minimum - d.left - received targets.left moves +
        (minimum - d.right - received targets.right moves) + moves.length ≤
          d.source.length := hfills
    show minimum - (d.left + received targets.left moves) +
      (minimum - (d.right + received targets.right moves)) ≤ rest.length
    omega

end SplitDrain

/-- Split drains keep both targets viable, however the drain is cut into
batches. -/
theorem splitDrain_viable {d d' : SplitDrain α}
    (hshort : (minimum - d.left) + (minimum - d.right) ≤ d.source.length)
    (hrouting : ∀ e ∈ d.source, ∃ v, routing e = .ok v)
    (hrun : Relation.ReflTransGen (SplitDrain.Step ix targets a b routing minimum) d d') :
    d'.Viable ix targets a b routing minimum := by
  have hinv : d'.Fillable routing minimum := by
    induction hrun with
    | refl => exact ⟨hshort, hrouting⟩
    | tail _ hstep ih => exact hstep.fillable ih
  obtain ⟨hatt, hall⟩ := hinv
  constructor
  · intro _ _ hbatch hne hpage
    obtain ⟨moves, hok, -, hsub, hmoves⟩ := hbatch.fills hatt hpage.length_le
      fun e he => hall e (hpage.subset he)
    exact ⟨moves, hok, hmoves hne, hsub⟩
  · intro hnil
    -- with an empty source nothing is needed any more
    have hneeded : minimum - d'.left + (minimum - d'.right) ≤ d'.source.length := hatt
    rw [hnil, length_nil] at hneeded
    omega

/-- Two batches of one entry; the second is nearer to the target that has enough. -/
theorem splitDrain_viable_two :
    (⟨[], 1, 1⟩ : SplitDrain VectorData).Viable .line ⟨2, 3, by decide⟩ [0] [9] .ok 1 :=
  @splitDrain_viable .line ⟨2, 3, by decide⟩ [0] [9] VectorData .ok 1 ⟨[[0], [1]], 0, 0⟩
    ⟨[], 1, 1⟩ (by decide) (fun e _ => ⟨e, rfl⟩)
    (.tail (.single (@SplitDrain.Step.batch _ .line ⟨2, 3, by decide⟩ [0] [9] .ok 1
        ⟨[[0], [1]], 0, 0⟩ [[0]] [[1]] [([0], 2)] _ (.ordinary .ok)
        (List.singleton_subperm_iff.mpr List.mem_cons_self) rfl (.refl _)))
      (@SplitDrain.Step.batch _ .line ⟨2, 3, by decide⟩ [0] [9] .ok 1
        ⟨[[1]], 1, 0⟩ [[1]] [] [([1], 3)] _ (.ordinary .ok) (.refl _) rfl (.refl _)))

end
