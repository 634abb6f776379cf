/-
The words with a given prefix.

In the lexicographic order the words that begin with `p` are a half-open range:
it starts at `p` and ends at the word that increments the last letter of `p`
below the greatest one and drops the greatest letters after it.

* `mem_prefix_range_iff` — that range holds exactly the words with the prefix;
* `Delimited.isPrefix_append` — a self-delimiting word at the front of a prefix
  is matched as a whole;
* `isPrefix_append_of_length` — so is a word of fixed length.
-/
import Ktann.Lib.Delimited

open List (nil_lt_cons cons_append not_lt_nil cons_prefix_cons cons_lt_cons_iff)

section
variable {A : Type} [LinearOrder A] {x y tail s t : List A}

lemma cons_le_cons_iff_lex {a b : A} : a :: x ≤ b :: y ↔ a < b ∨ a = b ∧ x ≤ y := by
  rw [← not_lt, cons_lt_cons_iff, not_or, not_and, not_lt, not_lt]
  constructor
  · rintro ⟨hle, htail⟩
    rcases hle.lt_or_eq with hlt | heq
    · exact .inl hlt
    · exact .inr ⟨heq, htail heq.symm⟩
  · rintro (hlt | ⟨rfl, hle⟩)
    · exact ⟨hlt.le, fun heq => absurd heq hlt.ne'⟩
    · exact ⟨le_rfl, fun _ => hle⟩

lemma le_of_isPrefix (h : x <+: y) : x ≤ y := by
  obtain ⟨r, rfl⟩ := h
  induction x with
  | nil => exact not_lt.mp (not_lt_nil r)
  | cons a x ih => exact cons_le_cons_iff_lex.mpr (.inr ⟨rfl, ih⟩)

lemma isPrefix_of_top_le (htop : ∀ a ∈ tail, ∀ b : A, b ≤ a) (h : tail ≤ x) : tail <+: x := by
  induction tail generalizing x with
  | nil => exact List.nil_prefix
  | cons t tail ih =>
    cases x with
    | nil => exact absurd (nil_lt_cons t tail) (not_lt.mpr h)
    | cons a x =>
      have ha : a ≤ t := htop t List.mem_cons_self a
      rcases cons_le_cons_iff_lex.mp h with hlt | ⟨rfl, hle⟩
      · exact absurd ha (not_le.mpr hlt)
      · exact cons_prefix_cons.mpr
          ⟨rfl, ih (fun a' ha' => htop a' (List.mem_cons_of_mem _ ha')) hle⟩

/-- The words with the prefix `q ++ b :: tail`, where `c` comes right after `b`
and `tail` has only the greatest letter. -/
lemma mem_prefix_range_iff {q : List A} {b c : A} (hbc : b ⋖ c)
    (htop : ∀ a ∈ tail, ∀ b : A, b ≤ a) :
    q ++ b :: tail ≤ x ∧ x < q ++ [c] ↔ q ++ b :: tail <+: x := by
  induction q generalizing x with
  | nil =>
    rw [List.nil_append, List.nil_append]
    cases x with
    | nil =>
      have hlt := nil_lt_cons b tail
      simp only [List.prefix_nil, reduceCtorEq, iff_false, not_and]
      exact fun h => absurd hlt (not_lt.mpr h)
    | cons a x =>
      rw [cons_le_cons_iff_lex, cons_lt_cons_iff, cons_prefix_cons]
      constructor
      · rintro ⟨hba | ⟨rfl, hle⟩, hac | ⟨_, hnil⟩⟩
        · exact absurd hac (hbc.2 hba)
        · exact absurd hnil (not_lt_nil x)
        · exact ⟨rfl, isPrefix_of_top_le htop hle⟩
        · exact absurd hnil (not_lt_nil x)
      · rintro ⟨rfl, hprefix⟩
        exact ⟨.inr ⟨rfl, le_of_isPrefix hprefix⟩, .inl hbc.1⟩
  | cons d q ih =>
    rw [cons_append, cons_append]
    cases x with
    | nil =>
      have hlt := nil_lt_cons d (q ++ b :: tail)
      simp only [List.prefix_nil, reduceCtorEq, iff_false, not_and]
      exact fun h => absurd hlt (not_lt.mpr h)
    | cons a x =>
      rw [cons_le_cons_iff_lex, cons_lt_cons_iff, cons_prefix_cons, ← ih]
      constructor
      · rintro ⟨hda | ⟨rfl, hle⟩, had | ⟨h, hlt⟩⟩
        · exact absurd had hda.asymm
        · exact absurd h hda.ne'
        · exact absurd had (lt_irrefl _)
        · exact ⟨rfl, hle, hlt⟩
      · rintro ⟨rfl, hle, hlt⟩
        exact ⟨.inr ⟨rfl, hle⟩, .inr ⟨rfl, hlt⟩⟩

lemma append_lt_append_iff (p : List A) : p ++ s < p ++ t ↔ s < t := by
  rw [← order_eq_lt, Delimited.refl p s t, Ordering.eq_then, order_eq_lt]

lemma append_le_append_iff (p : List A) : p ++ s ≤ p ++ t ↔ s ≤ t := by
  rw [← not_lt, append_lt_append_iff, not_lt]

/-- Between two words with a prefix there are only words with it. -/
lemma isPrefix_of_between {p : List A} (hlow : p ++ s ≤ x) (hhigh : x < p ++ t) : p <+: x := by
  induction p generalizing x with
  | nil => exact List.nil_prefix
  | cons a p ih =>
    cases x with
    | nil => exact absurd (nil_lt_cons a (p ++ s)) (not_lt.mpr hlow)
    | cons b x =>
      rw [cons_append, cons_le_cons_iff_lex] at hlow
      rw [cons_append, cons_lt_cons_iff] at hhigh
      rcases hlow with hlt | ⟨rfl, hlow⟩
      · rcases hhigh with hgt | ⟨rfl, -⟩
        · exact absurd hgt hlt.asymm
        · exact absurd hlt (lt_irrefl _)
      · rcases hhigh with hgt | ⟨-, hhigh⟩
        · exact absurd hgt (lt_irrefl _)
        · exact cons_prefix_cons.mpr ⟨rfl, ih hlow hhigh⟩

lemma Delimited.isPrefix_append {o : Ordering} {x y s t : List A} (h : Delimited o x y) :
    x ++ s <+: y ++ t ↔ x = y ∧ s <+: t := by
  constructor
  · rintro ⟨r, hr⟩
    rw [List.append_assoc] at hr
    -- equal messages begin with equal words
    have ho := h (s ++ r) t
    rw [hr, order_self] at ho
    have hxy : x = y := by
      cases o with
      | eq => exact order_eq_eq.mp h.order_eq
      | lt | gt => cases ho
    subst hxy
    exact ⟨rfl, r, List.append_cancel_left hr⟩
  · rintro ⟨rfl, r, rfl⟩
    exact ⟨r, List.append_assoc ..⟩

lemma isPrefix_append_of_length (h : x.length = y.length) : x ++ s <+: y ++ t ↔ x = y ∧ s <+: t :=
  (Delimited.of_length h).isPrefix_append

end
