/-
The queue of Structure Maintenance.

A key has one slot while its work is pending or running.  A run gives its slot back when
its guard is dropped, however it ended; the drop returns the key to the tail of the queue,
or exchanges the slot for follow-on offers in one transition.

* `Balanced` — the slots are the pending and the running keys, within the capacity;
* `fixups_balanced` — **no run of the queue duplicates or leaks a slot**.
-/
import Ktann.Storage.Values

namespace Fixups

structure FixupKey where
  index : ℕ
  treeKey : TreeKey
  partition : PartitionKey
  deriving DecidableEq

/-- An admitted key with the Manifest of the handle that offered it. -/
structure FixupOffer (M : Type) where
  key : FixupKey
  manifest : M
  continuing : Bool

structure FixupStats where
  enqueued : ℕ := 0
  duplicate : ℕ := 0
  saturated : ℕ := 0

inductive FixupAdmission
  | enqueued
  | duplicate
  | saturated

structure FixupQueue (M : Type) where
  pending : List (FixupOffer M)
  admitted : Finset FixupKey
  capacity : ℕ
  stats : FixupStats

/-- Adds one to a `u64` counter. -/
def saturatingSucc (n : ℕ) : ℕ := min (n + 1) (u64Bound - 1)

variable {M : Type}

/-! ### The queue -/

namespace FixupQueue

def new (capacity : ℕ) : FixupQueue M := ⟨[], ∅, capacity, {}⟩

variable (q : FixupQueue M)

/-- Pending plus running work. -/
def backlog : ℕ := q.admitted.card

def offer (key : FixupKey) (manifest : M) : FixupAdmission × FixupQueue M :=
  if key ∈ q.admitted then
    (.duplicate, { q with stats.duplicate := saturatingSucc q.stats.duplicate })
  else if q.capacity ≤ q.backlog then
    (.saturated, { q with stats.saturated := saturatingSucc q.stats.saturated })
  else
    (.enqueued, { q with
      admitted := insert key q.admitted
      pending := q.pending ++ [⟨key, manifest, false⟩]
      stats.enqueued := saturatingSucc q.stats.enqueued })

/-- The oldest pending offer, which keeps its slot. -/
def pop : Option (FixupOffer M × FixupQueue M) :=
  match q.pending with
  | [] => none
  | offer :: pending => some (offer, { q with pending })

def finish (key : FixupKey) : FixupQueue M := { q with admitted := q.admitted.erase key }

def yieldBack (offer : FixupOffer M) : FixupQueue M :=
  { q with pending := q.pending ++ [{ offer with continuing := true }] }

/-- Drops what is pending; the backlog that remains is running. -/
def drainPending : FixupQueue M :=
  { q with
    pending := []
    admitted := q.pending.foldl (fun admitted offer => admitted.erase offer.key) q.admitted }

/-- Offers made under one lock. -/
def offerAll (manifest : M) (keys : List FixupKey) : FixupQueue M :=
  keys.foldl (fun q key => (q.offer key manifest).2) q

end FixupQueue

/-! ### Workers -/

/-- How a run ends: what its guard holds, `false` and `none` for a run that failed or was
aborted, and what it reads of the runtime.  Other threads may close the runtime between
two readings. -/
structure Ending where
  yieldBack : Bool
  splitFollowups : Option ((PartitionKey × PartitionKey) × Option PartitionKey)
  accepting : Bool
  cancelled : Bool
  cancelledLater : Bool

/-- The drop of a running guard, under one lock. -/
def dropRunning (q : FixupQueue M) (offer : FixupOffer M) (e : Ending) :
    FixupQueue M :=
  let splitFollowups := if e.accepting then e.splitFollowups else none
  if e.yieldBack && !e.cancelled then q.yieldBack offer
  else
    let q := q.finish offer.key
    if e.cancelledLater then q
    else match splitFollowups with
    | none => q
    | some (targets, parent) =>
      q.offerAll offer.manifest ((targets.1 :: targets.2 :: parent.toList).map
        fun partition => { offer.key with partition })

/-- The queue and what its workers run. -/
structure Maintenance (M : Type) where
  queue : FixupQueue M
  running : List (FixupOffer M)

/-- What a thread does to the queue, with what it reads of the runtime. -/
inductive Event (M : Type)
  | offerFixups (workers : ℕ) (accepting : Bool) (manifest : M)
      (partitions : List (TreeKey × PartitionKey))
  | nextFixup (cancelled : Bool)
  | ended (run : ℕ) (ending : Ending)
  | stopMaintenance

variable (logicalIndexId : M → ℕ)

def Maintenance.step (m : Maintenance M) : Event M → Maintenance M
  | .offerFixups workers accepting manifest partitions =>
    if workers = 0 then m
    else if accepting = false then m
    else
      let index := logicalIndexId manifest
      { m with queue := m.queue.offerAll manifest (partitions.map fun (t, p) => ⟨index, t, p⟩) }
  | .nextFixup cancelled =>
    if cancelled then { m with queue := m.queue.drainPending }
    else match m.queue.pop with
    | some (offer, queue) => ⟨queue, offer :: m.running⟩
    | none => m
  | .ended run ending =>
    match m.running[run]? with
    | some offer => ⟨dropRunning m.queue offer ending, m.running.eraseIdx run⟩
    | none => m
  | .stopMaintenance => { m with queue := m.queue.drainPending }

def Maintenance.run (capacity : ℕ) (events : List (Event M)) : Maintenance M :=
  events.foldl (Maintenance.step logicalIndexId) ⟨.new capacity, []⟩

/-! ### The slots -/

/-- The slots are those of the pending and the running offers.  The right side counts a key
as often as it occurs, and a set has it at most once. -/
structure Balanced (q : FixupQueue M) (running : List (FixupOffer M))
    (capacity : ℕ) : Prop where
  slots : q.admitted.val = ↑((q.pending ++ running).map FixupOffer.key)
  bounded : q.admitted.card ≤ capacity
  capacity_eq : q.capacity = capacity

variable {q : FixupQueue M} {running : List (FixupOffer M)} {capacity : ℕ}
  {o : FixupOffer M}

namespace Balanced

lemma offer (h : Balanced q running capacity) (key : FixupKey) (manifest : M) :
    Balanced (q.offer key manifest).2 running capacity := by
  rw [FixupQueue.offer]
  split_ifs with hadmitted hfull
  · exact ⟨h.slots, h.bounded, h.capacity_eq⟩
  · exact ⟨h.slots, h.bounded, h.capacity_eq⟩
  · refine ⟨?_, ?_, h.capacity_eq⟩
    · simpa [Finset.insert_val_of_notMem hadmitted, h.slots] using List.perm_middle.symm
    · rw [Finset.card_insert_of_notMem hadmitted, ← h.capacity_eq]
      exact Nat.lt_of_not_le hfull

lemma offerAll (h : Balanced q running capacity) (manifest : M) (keys : List FixupKey) :
    Balanced (q.offerAll manifest keys) running capacity := by
  induction keys generalizing q with
  | nil => exact h
  | cons key _ ih => exact ih (h.offer key manifest)

lemma pop {q' : FixupQueue M} (h : Balanced q running capacity)
    (hpop : q.pop = some (o, q')) : Balanced q' (o :: running) capacity := by
  obtain ⟨pending, _, _, _⟩ := q
  cases pending with
  | nil => cases hpop
  | cons =>
    cases hpop
    refine ⟨h.slots.trans ?_, h.bounded, h.capacity_eq⟩
    simpa using List.perm_middle.symm

section
variable (h : Balanced q (o :: running) capacity)
include h

lemma finish : Balanced (q.finish o.key) running capacity := by
  refine ⟨?_, (Finset.card_erase_le).trans h.bounded, h.capacity_eq⟩
  rw [FixupQueue.finish, Finset.erase_val, h.slots,
    Multiset.coe_eq_coe.mpr (List.perm_middle.map FixupOffer.key), List.map_cons,
    ← Multiset.cons_coe, Multiset.erase_cons_head]

lemma yieldBack : Balanced (q.yieldBack o) running capacity := by
  refine ⟨?_, h.bounded, h.capacity_eq⟩
  simpa [FixupQueue.yieldBack] using h.slots

end

lemma drainPending (h : Balanced q running capacity) :
    Balanced q.drainPending running capacity := by
  obtain ⟨pending, admitted, _, _⟩ := q
  -- one offer at a time is taken and finished
  induction pending generalizing admitted with
  | nil => exact h
  | cons _ _ ih => exact ih _ (h.pop rfl).finish

lemma dropRunning (h : Balanced q (o :: running) capacity) (e : Ending) :
    Balanced (dropRunning q o e) running capacity := by
  unfold Fixups.dropRunning
  dsimp only
  split_ifs
  · exact h.yieldBack
  · exact h.finish
  all_goals
    split
    · exact h.finish
    · exact h.finish.offerAll _ _

lemma step {m : Maintenance M} (h : Balanced m.queue m.running capacity) (event : Event M) :
    Balanced (m.step logicalIndexId event).queue (m.step logicalIndexId event).running
      capacity := by
  cases event with
  | offerFixups =>
    simp only [Maintenance.step]
    split_ifs
    · exact h
    · exact h
    · exact h.offerAll _ _
  | nextFixup =>
    simp only [Maintenance.step]
    split_ifs
    · exact h.drainPending
    · split
      · exact h.pop ‹_›
      · exact h
  | ended run ending =>
    simp only [Maintenance.step]
    split
    next offer hrun =>
      -- the run that ends is moved to the front of the others
      obtain ⟨hlt, rfl⟩ := List.getElem?_eq_some_iff.mp hrun
      refine dropRunning ⟨h.slots.trans ?_, h.bounded, h.capacity_eq⟩ ending
      have hfront := (List.getElem_cons_eraseIdx_perm hlt).symm
      exact Multiset.coe_eq_coe.mpr ((hfront.append_left _).map _)
    · exact h
  | stopMaintenance => exact h.drainPending

lemma run (capacity : ℕ) (events : List (Event M)) :
    Balanced (Maintenance.run logicalIndexId capacity events).queue
      (Maintenance.run logicalIndexId capacity events).running capacity := by
  induction events using List.reverseRecOn with
  | nil => exact ⟨rfl, Nat.zero_le _, rfl⟩
  | append_singleton _ event ih =>
    rw [Maintenance.run, List.foldl_concat]
    exact ih.step logicalIndexId event

end Balanced

/-- **No run of the queue duplicates or leaks a slot**: after any events the admitted keys are
the pending and the running ones, no key is among them twice, and they are at most as
many as the capacity. -/
theorem fixups_balanced (capacity : ℕ) (events : List (Event M)) :
    let m := Maintenance.run logicalIndexId capacity events
    m.queue.admitted =
        (m.queue.pending.map FixupOffer.key).toFinset ∪ (m.running.map FixupOffer.key).toFinset ∧
      (m.queue.pending.map FixupOffer.key ++ m.running.map FixupOffer.key).Nodup ∧
      m.queue.admitted.card ≤ capacity := by
  intro m
  have h : Balanced m.queue m.running capacity := .run logicalIndexId capacity events
  rw [← List.toFinset_append, ← List.map_append]
  refine ⟨?_, ?_, h.bounded⟩
  · ext key
    rw [List.mem_toFinset, ← Finset.mem_val, h.slots, Multiset.mem_coe]
  · rw [← Multiset.coe_nodup, ← h.slots]
    exact m.queue.admitted.nodup

end Fixups
