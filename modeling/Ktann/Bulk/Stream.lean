/-
The stream of a loader over a sealed artifact.

A chunk ends by the mutation limit, by the byte limit or with the artifact.  The byte
limit leaves one look-ahead pair, whose digest enters the checkpoint only with the
chunk that writes the pair.

* `nextChunk` — the next chunk after a committed prefix;
* `nextChunk_spec` — **a chunk is the next slice of the artifact**, with the digest of
  what it completes.
-/
import Ktann.Bulk.Effects

namespace Bulk

/-- The limits of one transaction. -/
structure AdmissionBudget where
  maxMutations : ℕ
  maxMutationBytes : ℕ
  mutationKeyOverheadBytes : ℕ

/-- Reader state of a loader: what the reader yielded, the look-ahead, and what was
consumed with its digest. -/
structure Stream where
  position : ℕ
  pending : Option (Entry × Digest)
  prefixSha256 : Digest
  consumed : ℕ

variable (A : Artifacts) (artifact : ArtifactManifest)

def Stream.start : Stream := ⟨0, none, A.prefixDigest artifact 0, 0⟩

/-- The look-ahead, or the next pair of the reader. -/
def Stream.take (s : Stream) : Option ((Entry × Digest) × Stream) :=
  match s.pending with
  | some pending => some (pending, { s with pending := none })
  | none =>
    match (A.entries artifact)[s.position]? with
    | none => none
    | some entry => some ((entry, A.prefixDigest artifact (s.position + 1)),
        { s with position := s.position + 1 })

/-- The loop of one chunk, with the pairs and bytes taken so far. -/
def chunkLoop (committed : ℕ) (expected : Digest) (budget : AdmissionBudget) :
    ℕ → Stream → List Entry → ℕ → Except ErrorKind (Stream × List Entry × Bool)
  | 0, s, entries, _ => .ok (s, entries, false)
  | remaining + 1, s, entries, bytes =>
    match s.take A artifact with
    | none => if s.consumed < committed then .error .corruption else .ok (s, entries, true)
    | some ((entry, digest), s) =>
      if s.consumed < committed then
        let s := { s with consumed := s.consumed + 1, prefixSha256 := digest }
        if s.consumed = committed ∧ digest ≠ expected then .error .corruption
        else chunkLoop committed expected budget remaining s entries bytes
      else
        let nextBytes := bytes + (entry.1.length + entry.2.length + budget.mutationKeyOverheadBytes)
        if budget.maxMutationBytes < nextBytes then
          if entries = [] then .error .limitExceeded
          else .ok ({ s with pending := some (entry, digest) }, entries, false)
        else
          chunkLoop committed expected budget remaining
            { s with prefixSha256 := digest, consumed := s.consumed + 1 } (entries ++ [entry])
            nextBytes

/-- The next chunk after `committed` pairs, and whether it completes the load. -/
def nextChunk (committed : ℕ) (expected : Digest) (budget : AdmissionBudget) (checkpointBytes : ℕ)
    (s : Stream) : Except ErrorKind (Stream × List Entry × Bool) :=
  if s.consumed = committed ∧ s.prefixSha256 ≠ expected then .error .corruption
  else chunkLoop A artifact committed expected budget (budget.maxMutations - 1) s [] checkpointBytes

variable {A artifact}

/-- A stream stands at what it consumed, with at most one pair of look-ahead. -/
structure Stream.Valid (A : Artifacts) (artifact : ArtifactManifest) (s : Stream) : Prop where
  digest : s.prefixSha256 = A.prefixDigest artifact s.consumed
  reader : s.pending = none → s.position = s.consumed
  lookahead : ∀ p ∈ s.pending, s.position = s.consumed + 1 ∧
    (A.entries artifact)[s.consumed]? = some p.1 ∧ p.2 = A.prefixDigest artifact (s.consumed + 1)

lemma Stream.valid_start : (Stream.start A artifact).Valid A artifact :=
  ⟨rfl, fun _ => rfl, fun _ h => by cases h⟩

variable {s : Stream} {committed : ℕ} {budget : AdmissionBudget}

lemma Stream.Valid.take_some {s' : Stream} {entry : Entry} {digest : Digest}
    (h : s.Valid A artifact) (htake : s.take A artifact = some ((entry, digest), s')) :
    (A.entries artifact)[s.consumed]? = some entry ∧
      digest = A.prefixDigest artifact (s.consumed + 1) ∧
      s'.consumed = s.consumed ∧ s'.prefixSha256 = s.prefixSha256 ∧ s'.pending = none ∧
      s'.position = s.consumed + 1 := by
  rw [Stream.take] at htake
  cases hpending : s.pending with
  | some p =>
    rw [hpending] at htake
    cases htake
    obtain ⟨hposition, hentry, hdigest⟩ := h.lookahead _ hpending
    exact ⟨hentry, hdigest, rfl, rfl, rfl, hposition⟩
  | none =>
    rw [hpending] at htake
    have hposition := h.reader hpending
    cases hentry : (A.entries artifact)[s.position]? with
    | none =>
      rw [hentry] at htake
      cases htake
    | some e =>
      rw [hentry] at htake
      cases htake
      exact ⟨hposition ▸ hentry, by rw [hposition], rfl, rfl, rfl, by rw [hposition]⟩

lemma Stream.Valid.take_none (h : s.Valid A artifact) (htake : s.take A artifact = none) :
    (A.entries artifact).length ≤ s.consumed := by
  rw [Stream.take] at htake
  cases hpending : s.pending with
  | some p =>
    rw [hpending] at htake
    cases htake
  | none =>
    rw [hpending] at htake
    cases hentry : (A.entries artifact)[s.position]? with
    | none => exact h.reader hpending ▸ List.getElem?_eq_none_iff.mp hentry
    | some e =>
      rw [hentry] at htake
      cases htake

/-- The result of a chunk after `committed` pairs: the stream is still behind them, or
it read the slice past them. -/
structure ChunkResult (A : Artifacts) (artifact : ArtifactManifest) (committed : ℕ) (s : Stream)
    (entries : List Entry) (complete : Bool) : Prop where
  valid : s.Valid A artifact
  behind : s.consumed < committed → entries = []
  ahead : committed ≤ s.consumed → s.consumed = committed + entries.length
  slice : ((A.entries artifact).drop committed).take entries.length = entries
  complete : complete = true → committed ≤ s.consumed ∧ (A.entries artifact).length ≤ s.consumed

lemma slice_append {pairs entries : List Entry} {entry : Entry}
    (h : (pairs.drop committed).take entries.length = entries)
    (hentry : pairs[committed + entries.length]? = some entry) :
    (pairs.drop committed).take (entries ++ [entry]).length = entries ++ [entry] := by
  rw [length_append, length_singleton, List.take_add_one, h, List.getElem?_drop, hentry]
  rfl

lemma chunkLoop_spec {expected : Digest} {remaining : ℕ} :
    ∀ {s s' : Stream} {entries entries' : List Entry} {bytes : ℕ}
      {complete : Bool}, ChunkResult A artifact committed s entries false →
      chunkLoop A artifact committed expected budget remaining s entries bytes =
        .ok (s', entries', complete) → ChunkResult A artifact committed s' entries' complete := by
  induction remaining with
  | zero =>
    intro s s' entries entries' bytes complete h hok
    cases hok
    exact h
  | succ _ ih =>
    intro s s' _ _ _ _ h hok
    rw [chunkLoop] at hok
    cases htake : s.take A artifact with
    | none =>
      rw [htake] at hok
      have hend := h.valid.take_none htake
      simp only at hok
      split at hok
      · cases hok
      · rename_i hcommitted
        cases hok
        exact ⟨h.valid, h.behind, h.ahead, h.slice, fun _ => ⟨not_lt.mp hcommitted, hend⟩⟩
    | some taken =>
      obtain ⟨⟨_, digest⟩, s₁⟩ := taken
      obtain ⟨hentry, hdigest, hconsumed, htaken, hpending, hposition⟩ := h.valid.take_some htake
      rw [htake] at hok
      simp only [hconsumed] at hok
      -- The stream after one more pair.
      have hstep : ({ s₁ with consumed := s.consumed + 1, prefixSha256 := digest } : Stream).Valid A
          artifact := ⟨hdigest, fun _ => hposition, fun p hp => by cases hpending.symm.trans hp⟩
      by_cases hreplay : s.consumed < committed
      · rw [if_pos hreplay] at hok
        split at hok
        · cases hok
        · have hempty := h.behind hreplay
          subst hempty
          refine ih ⟨hstep, fun _ => rfl, fun hle => ?_, rfl, fun hc => by cases hc⟩ hok
          change committed ≤ s.consumed + 1 at hle
          change s.consumed + 1 = committed + 0
          omega
      · rw [if_neg hreplay] at hok
        have hahead := h.ahead (not_lt.mp hreplay)
        split at hok
        · split at hok
          · cases hok
          · cases hok
            refine ⟨⟨?_, fun hnone => (by cases hnone), fun p hp => ?_⟩, ?_, ?_, h.slice,
              fun hc => (by cases hc)⟩
            · rw [htaken]
              exact h.valid.digest
            · cases hp
              exact ⟨hposition, hentry, hdigest⟩
            · exact h.behind
            · exact h.ahead
        · refine ih ⟨hstep, fun hlt => ?_, fun _ => ?_, slice_append h.slice (hahead ▸ hentry),
            fun hc => by cases hc⟩ hok
          · change s.consumed + 1 < committed at hlt
            omega
          · change s.consumed + 1 = _
            rw [length_append, length_singleton]
            omega

/-- **A chunk is the next slice of the artifact.** -/
theorem nextChunk_spec {expected : Digest} {checkpointBytes : ℕ} {s' : Stream}
    {entries : List Entry} {complete : Bool} (h : s.Valid A artifact) (hle : s.consumed ≤ committed)
    (hok : nextChunk A artifact committed expected budget checkpointBytes s =
      .ok (s', entries, complete)) : ChunkResult A artifact committed s' entries complete := by
  rw [nextChunk] at hok
  split at hok
  · cases hok
  · exact chunkLoop_spec ⟨h, fun _ => rfl, fun hge => by rw [length_nil]; omega, rfl,
      fun hc => by cases hc⟩ hok

end Bulk
