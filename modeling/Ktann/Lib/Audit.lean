/-
Bounded audits.

An audit is a program that reports findings and notes and charges a ledger of limits.
It may ask whether a limit was reached; once one was, nothing is reported any more.

* `Audit` — programs, and `Ledger.apply` — what one request does;
* `run_stopped` — a stopped audit reports nothing;
* `run_complete` — an audit that no limit stopped ran as if there were none;
* `run_cut` — what a stopped audit reported, the audit without limits reports first.
-/
import Mathlib.Order.Basic
import Mathlib.Data.List.Infix

open List (prefix_rfl)

/-- What an audit asks of its ledger. -/
inductive AuditRequest (F N : Type)
  | poll
  | chargeObject
  | chargeMemory (bytes : ℕ)
  | releaseMemory (bytes : ℕ)
  -- Work that needs some of the memory that is left, but keeps none of it.
  | requireMemory (bytes : ℕ)
  | stop
  | issue (bytes : ℕ) (finding : F)
  | note (n : N)

/-- Programs over a ledger.  A request is answered with whether a limit was reached. -/
inductive Audit (F N ε α : Type)
  | done (a : α)
  | fail (e : ε)
  | request (r : AuditRequest F N) (next : Bool → Audit F N ε α)

variable {F N ε α β : Type}

namespace Audit

def bind : Audit F N ε α → (α → Audit F N ε β) → Audit F N ε β
  | done a, f => f a
  | fail e, _ => fail e
  | request r next, f => request r fun truncated => (next truncated).bind f

instance : Monad (Audit F N ε) where
  pure := done
  bind := bind

def perform (r : AuditRequest F N) : Audit F N ε Unit := request r fun _ => done ()

def truncated : Audit F N ε Bool := request .poll done

/-- Visits one element after the other, until a limit was reached. -/
def forEach {ι : Type} (body : ι → Audit F N ε Unit) : List ι → Audit F N ε Unit
  | [] => pure ()
  | x :: rest => do
    if ← truncated then pure ()
    else do
      body x
      forEach body rest

end Audit

/-- The limits of an audit and what it reported.  An absent limit is no limit. -/
structure Ledger (F N : Type) where
  objects : Option ℕ
  slots : Option ℕ
  memory : Option ℕ
  used : ℕ
  truncated : Bool
  issues : List F
  notes : List N

namespace Ledger

/-- A fresh ledger under limits. -/
def start (objects slots memory : Option ℕ) : Ledger F N :=
    ⟨objects, slots, memory, 0, false, [], []⟩

def stop (l : Ledger F N) : Ledger F N := { l with truncated := true }

/-- One less of what may be left. -/
def takeOne : Option ℕ → Option (Option ℕ)
  | none => some none
  | some 0 => none
  | some (n + 1) => some (some n)

/-- Whether `bytes` more fit the memory limit. -/
def fits (l : Ledger F N) (bytes : ℕ) : Bool := l.memory.all fun limit => l.used + bytes ≤ limit

def apply (l : Ledger F N) : AuditRequest F N → Ledger F N
  | .poll => l
  | .chargeObject =>
    if l.truncated then l
    else
      match takeOne l.objects with
      | none => l.stop
      | some objects => { l with objects := objects }
  | .chargeMemory bytes =>
    if l.truncated then l
    else if l.fits bytes then { l with used := l.used + bytes } else l.stop
  | .releaseMemory bytes => { l with used := l.used - bytes }
  | .requireMemory bytes => if l.fits bytes then l else l.stop
  | .stop => l.stop
  | .issue bytes finding =>
    if l.truncated then l
    else if l.fits bytes then
      match takeOne l.slots with
      | none => { l with used := l.used + bytes, truncated := true }
      | some slots =>
        { l with slots := slots, used := l.used + bytes, issues := l.issues ++ [finding] }
    else l.stop
  | .note n => { l with notes := l.notes ++ [n] }

/-- A ledger that no limit can stop. -/
structure Unlimited (l : Ledger F N) : Prop where
  objects : l.objects = none
  slots : l.slots = none
  memory : l.memory = none
  open_ : l.truncated = false

variable {l : Ledger F N}

lemma fits_of_memory (h : l.memory = none) (bytes : ℕ) : l.fits bytes = true := by
  rw [fits, h]
  rfl

lemma apply_stopped (h : l.truncated = true) (r : AuditRequest F N) :
    (l.apply r).truncated = true ∧ (l.apply r).issues = l.issues := by
  cases r with
  | poll | releaseMemory | note => exact ⟨h, rfl⟩
  | chargeObject | chargeMemory | issue =>
    rw [apply, if_pos h]
    exact ⟨h, rfl⟩
  | requireMemory =>
    rw [apply]
    split_ifs
    · exact ⟨h, rfl⟩
    · exact ⟨rfl, rfl⟩
  | stop => exact ⟨rfl, rfl⟩

/-- A request that stops an audit reports nothing. -/
lemma apply_stops {r : AuditRequest F N} (h : (l.apply r).truncated = true) :
    (l.apply r).issues = l.issues := by
  by_cases hl : l.truncated = true
  · exact (apply_stopped hl r).2
  cases r with
  | poll | releaseMemory | note | stop => rfl
  | chargeObject =>
    rw [apply, if_neg hl]
    split <;> rfl
  | chargeMemory bytes =>
    rw [apply, if_neg hl]
    split_ifs <;> rfl
  | requireMemory _ =>
    rw [apply]
    split_ifs <;> rfl
  | issue =>
    rw [apply, if_neg hl] at h ⊢
    split_ifs at h ⊢ with hfits
    · cases hslots : takeOne l.slots with
      | none => rfl
      | some =>
        rw [hslots] at h
        exact absurd h hl
    · rfl

/-- A request keeps what was reported. -/
lemma issues_apply (l : Ledger F N) (r : AuditRequest F N) : l.issues <+: (l.apply r).issues := by
  cases r with
  | poll | releaseMemory | note | stop => exact prefix_rfl
  | chargeObject =>
    rw [apply]
    split_ifs
    · exact prefix_rfl
    · split <;> exact prefix_rfl
  | chargeMemory bytes | requireMemory bytes =>
    rw [apply]
    split_ifs <;> exact prefix_rfl
  | issue =>
    rw [apply]
    split_ifs
    · exact prefix_rfl
    · split
      · exact prefix_rfl
      · exact List.prefix_append _ _
    · exact prefix_rfl

/-- A request that does not stop an audit does the same without limits. -/
lemma apply_unlimited {u : Ledger F N} (hu : u.Unlimited) (hissues : u.issues = l.issues)
    {r : AuditRequest F N} (h : (l.apply r).truncated = false) :
    (u.apply r).Unlimited ∧ (u.apply r).issues = (l.apply r).issues := by
  have hl : l.truncated = false := by
    by_contra hl
    exact absurd (apply_stopped (by simpa using hl) r).1 (by simp [h])
  have hnot : ¬ l.truncated = true := by simp [hl]
  have hunot : ¬ u.truncated = true := by simp [hu.open_]
  cases r with
  | poll | releaseMemory | note => exact ⟨⟨hu.objects, hu.slots, hu.memory, hu.open_⟩, hissues⟩
  | chargeObject =>
    rw [apply, if_neg hunot, hu.objects, apply, if_neg hnot]
    refine ⟨⟨rfl, hu.slots, hu.memory, hu.open_⟩, ?_⟩
    cases takeOne l.objects <;> exact hissues
  | chargeMemory bytes =>
    rw [apply, if_neg hunot, if_pos (fits_of_memory hu.memory _), apply, if_neg hnot]
    refine ⟨⟨hu.objects, hu.slots, hu.memory, hu.open_⟩, ?_⟩
    split_ifs <;> exact hissues
  | requireMemory _ =>
    rw [apply, if_pos (fits_of_memory hu.memory _), apply]
    refine ⟨hu, ?_⟩
    split_ifs <;> exact hissues
  | stop => cases h
  | issue _ finding =>
    rw [apply, if_neg hnot] at h
    rw [apply, if_neg hunot, if_pos (fits_of_memory hu.memory _), hu.slots, apply, if_neg hnot]
    refine ⟨⟨hu.objects, rfl, hu.memory, hu.open_⟩, ?_⟩
    split_ifs at h ⊢ with hfits
    · cases hslots : takeOne l.slots with
      | none =>
        rw [hslots] at h
        cases h
      | some => exact congrArg (· ++ [finding]) hissues
    · cases h

end Ledger

namespace Audit

def run : Audit F N ε α → Ledger F N → Except ε (α × Ledger F N)
  | done a, l => .ok (a, l)
  | fail e, _ => .error e
  | request r next, l => (next (l.apply r).truncated).run (l.apply r)

variable {p : Audit F N ε α}

/-- A stopped audit stays stopped and reports nothing. -/
lemma run_stopped : ∀ {l l' : Ledger F N} {a : α}, l.truncated = true →
    p.run l = .ok (a, l') → l'.truncated = true ∧ l'.issues = l.issues := by
  induction p with
  | done a =>
    intro l l' a' hl hrun
    cases hrun
    exact ⟨hl, rfl⟩
  | fail e =>
    intro l l' a' _ hrun
    cases hrun
  | request r _ ih =>
    intro l l' a' hl hrun
    obtain ⟨hstopped, hissues⟩ := Ledger.apply_stopped hl r
    obtain ⟨hl', hissues'⟩ := ih _ hstopped hrun
    exact ⟨hl', hissues'.trans hissues⟩

/-- An audit keeps what was reported. -/
lemma issues_run : ∀ {l l' : Ledger F N} {a : α},
    p.run l = .ok (a, l') → l.issues <+: l'.issues := by
  induction p with
  | done a =>
    intro l l' a' hrun
    cases hrun
    exact prefix_rfl
  | fail e =>
    intro l l' a' hrun
    cases hrun
  | request r _ ih =>
    intro l l' a' hrun
    exact (l.issues_apply r).trans (ih _ hrun)

/-- An audit that no limit stopped runs the same without limits. -/
lemma run_complete : ∀ {l l' u : Ledger F N} {a : α}, u.Unlimited →
    u.issues = l.issues → p.run l = .ok (a, l') → l'.truncated = false →
    ∃ u', p.run u = .ok (a, u') ∧ u'.Unlimited ∧ u'.issues = l'.issues := by
  induction p with
  | done a =>
    intro l l' u a' hu hissues hrun _
    cases hrun
    exact ⟨u, rfl, hu, hissues⟩
  | fail e =>
    intro l l' u a' _ _ hrun
    cases hrun
  | request r _ ih =>
    intro l l' u a' hu hissues hrun hcomplete
    have hopen : (l.apply r).truncated = false := by
      by_contra hstopped
      have hstopped : (l.apply r).truncated = true := by simpa using hstopped
      rw [run] at hrun
      have htrue := (run_stopped hstopped hrun).1
      rw [hcomplete] at htrue
      cases htrue
    obtain ⟨hu', hissues'⟩ := Ledger.apply_unlimited hu hissues hopen
    rw [run, hu'.open_]
    rw [run, hopen] at hrun
    exact ih false hu' hissues' hrun hcomplete

/-- What an audit reports under limits, it reports first without limits. -/
lemma run_cut : ∀ {l l' u u' : Ledger F N} {a b : α}, u.Unlimited →
    u.issues = l.issues → p.run l = .ok (a, l') → p.run u = .ok (b, u') →
    l'.issues <+: u'.issues := by
  induction p with
  | done a =>
    intro l l' u u' a' b hu hissues hrun hrun'
    cases hrun
    cases hrun'
    exact hissues ▸ prefix_rfl
  | fail e =>
    intro l l' u u' a' b _ _ hrun
    cases hrun
  | request r _ ih =>
    intro l l' u u' a' b hu hissues hrun hrun'
    cases hopen : (l.apply r).truncated with
    | true =>
      -- From here on the limited audit reports nothing, and the other one keeps what it has.
      rw [(run_stopped hopen hrun).2, Ledger.apply_stops hopen, ← hissues]
      exact issues_run hrun'
    | false =>
      obtain ⟨hu', hissues'⟩ := Ledger.apply_unlimited hu hissues hopen
      rw [run, hopen] at hrun
      rw [run, hu'.open_] at hrun'
      exact ih false hu' hissues' hrun hrun'

end Audit
