/-
Results of two programs that fail alike and otherwise return related values.

* `Except.Related` — both fail with one error, or both return, related by `R`;
* `Except.Related.bind`, `Except.Related.bind_same` — sequencing, after related steps
  and after one step the programs share.
-/
import Mathlib.Logic.Relation

namespace Except

variable {ε α β γ : Type}

/-- The same error, or values related by `R`. -/
inductive Related (R : α → β → Prop) : Except ε α → Except ε β → Prop
  | ok {a : α} {b : β} (h : R a b) : Related R (.ok a) (.ok b)
  | error (e : ε) : Related R (.error e) (.error e)

variable {R : α → β → Prop} {α' β' : Type} {S : α' → β' → Prop} {f : α → Except ε α'}
  {g : β → Except ε β'}

lemma Related.bind {x : Except ε α} {y : Except ε β} (h : Related R x y)
    (hfg : ∀ a b, R a b → Related S (f a) (g b)) : Related S (x >>= f) (y >>= g) := by
  cases h with
  | ok hab => exact hfg _ _ hab
  | error e => exact .error e

/-- As `bind`, with the first step at hand. -/
lemma Related.bind_ok {x : Except ε α} {y : Except ε β} (h : Related R x y)
    (hfg : ∀ a b, x = .ok a → R a b → Related S (f a) (g b)) : Related S (x >>= f) (y >>= g) := by
  cases h with
  | ok hab => exact hfg _ _ rfl hab
  | error e => exact .error e

/-- The step before is the same. -/
lemma Related.bind_same {x : Except ε γ} {f : γ → Except ε α'} {g : γ → Except ε β'}
    (hfg : ∀ c, x = .ok c → Related S (f c) (g c)) : Related S (x >>= f) (x >>= g) := by
  cases x with
  | ok c => exact hfg c rfl
  | error e => exact .error e

lemma Related.eq {x y : Except ε α} (h : Related Eq x y) : x = y := by
  cases h with
  | ok hab => rw [hab]
  | error e => rfl

end Except

export Except (Related)
