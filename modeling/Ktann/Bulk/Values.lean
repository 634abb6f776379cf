/-
The keys and values of one bulk build.

A Building index has its Manifest, the descriptor of its build, the checkpoints of
loading and validation, and the data keys loaded so far.  The workspace of the
preparation and the schedule lie outside the range of the index.

* `BuildKey`, `BuildStore` — the store of one build;
* `Artifacts` — sealed serving artifacts and their running digest;
* `HoldsExactly` — which pairs the data keys of a store are
  (`HoldsExactly.putAll`, `HoldsExactly.scanData`).
-/
import Ktann.Lib.Transaction
import Ktann.Lib.Selection
import Ktann.Api.Schema

namespace Bulk

/-! ### Values -/

abbrev Entry := Bytes × Bytes
abbrev Digest := Bytes
abbrev Token := Bytes

/-- The identity of a sealed artifact. -/
abbrev ArtifactManifest := Bytes

inductive IndexLifecycle
  | building
  | active
  | dropping
  deriving DecidableEq

/-- The immutable request of a build. -/
structure BuildDescriptor where
  source : Bytes
  input : Bytes
  deriving DecidableEq

/-- Durable load progress; the epoch fences superseded loaders. -/
structure BuildLoad where
  artifact : ArtifactManifest
  epoch : ℕ
  entries : ℕ
  prefixSha256 : Digest
  complete : Bool
  deriving DecidableEq

/-- Durable validation progress; an empty cursor is the start of the range. -/
structure BuildValidation where
  artifact : ArtifactManifest
  cursor : Bytes
  entries : ℕ
  prefixSha256 : Digest
  complete : Bool
  deriving DecidableEq

/-- An accepted artifact and the attempt that built it. -/
structure PreparedArtifact where
  epoch : ℕ
  manifest : ArtifactManifest
  deriving DecidableEq

structure BulkLoadOptions where
  maxMutations : ℕ
  maxBytes : ℕ
  deriving DecidableEq

structure BulkWorkerOptions where
  workspace : Bytes
  load : BulkLoadOptions
  deriving DecidableEq

/-- A worker takes an absolute path, and room for a checkpoint and one pair. -/
def BulkWorkerOptions.validate (options : BulkWorkerOptions) : Except ErrorKind Unit :=
  if options.workspace.head? ≠ some 47 ∨ 3900 < options.workspace.length ∨ 0 ∈ options.workspace ∨
      options.load.maxMutations < 2 ∨ options.load.maxBytes = 0 then .error .invalidArgument
  else .ok ()

structure HardLimits where
  maxKeyBytes : ℕ
  maxValueBytes : ℕ
  deriving DecidableEq

/-- Preparation state; `epoch` fences the acceptance of outputs. -/
structure BuildWorkspace where
  options : BulkWorkerOptions
  hardLimits : HardLimits
  token : Token
  epoch : ℕ
  forest : Option PreparedArtifact
  serving : Option PreparedArtifact
  failure : Option ErrorKind
  deriving DecidableEq

/-- A queued build; expiry enables takeover. -/
structure BuildSchedule where
  options : BulkWorkerOptions
  owner : Token
  expiresMs : ℕ
  deriving DecidableEq

/-- The owner of a schedule nobody has claimed. -/
def unclaimed : Token := List.replicate 32 0

/-! ### Keys -/

inductive BuildKey
  | manifest
  | descriptor
  | load
  | validation
  | workspace
  | schedule
  | data (key : Bytes)
  deriving DecidableEq

namespace BuildKey

def code : BuildKey → ℕ ×ₗ Bytes
  | manifest => toLex (0, [])
  | descriptor => toLex (1, [])
  | load => toLex (2, [])
  | validation => toLex (3, [])
  | workspace => toLex (4, [])
  | schedule => toLex (5, [])
  | data key => toLex (6, key)

lemma code_injective : Function.Injective code := by
  intro k k' h
  cases k <;> cases k' <;> simp_all [code]

instance : LinearOrder BuildKey := LinearOrder.lift' code code_injective

lemma data_lt {k k' : Bytes} : data k < data k' ↔ k < k' := by
  change toLex (6, k) < toLex (6, k') ↔ k < k'
  rw [Prod.Lex.toLex_lt_toLex]
  simp

def inIndexRange : BuildKey → Bool
  | workspace | schedule => false
  | _ => true

@[reducible] def Value : BuildKey → Type
  | manifest => IndexLifecycle
  | descriptor => BuildDescriptor
  | load => BuildLoad
  | validation => BuildValidation
  | workspace => BuildWorkspace
  | schedule => BuildSchedule
  | data _ => Bytes

end BuildKey

open BuildKey (Value)

abbrev BuildStore := OrderedMap BuildKey Value
abbrev BuildTxn := TxnM Value ErrorKind

/-! ### Artifacts -/

/-- The sealed artifacts: the pairs of each, in strict key order, and the running
digest of its reader. -/
structure Artifacts where
  entries : ArtifactManifest → List Entry
  digest : ArtifactManifest → List Entry → Digest
  sorted : ∀ artifact, (entries artifact).Pairwise fun a b => a.1 < b.1

/-- The digest through the first `n` pairs. -/
def Artifacts.prefixDigest (A : Artifacts) (artifact : ArtifactManifest) (n : ℕ) : Digest :=
  A.digest artifact ((A.entries artifact).take n)

/-! ### Data keys -/

def HoldsExactly (S : BuildStore) (pairs : List Entry) : Prop :=
  ∀ key value, S.lookup (.data key) = some value ↔ (key, value) ∈ pairs

/-- Writes pairs in order. -/
def putAll (S : BuildStore) (pairs : List Entry) : BuildStore :=
  pairs.foldl (fun S e => S.put (.data e.1) e.2) S

lemma lookup_putAll {pairs : List Entry} : ∀ {S : BuildStore} {k : BuildKey},
    (∀ key, k ≠ .data key) → (putAll S pairs).lookup k = S.lookup k := by
  induction pairs with
  | nil => exact fun _ => rfl
  | cons e _ ih =>
    intro S k hk
    rw [putAll, List.foldl_cons]
    exact (ih hk).trans (lookup_put_ne S (k := .data e.1) e.2 (hk e.1))

lemma HoldsExactly.putAll {pairs : List Entry} : ∀ {S : BuildStore} {held : List Entry},
    HoldsExactly S held → ((held ++ pairs).map Prod.fst).Nodup →
      HoldsExactly (putAll S pairs) (held ++ pairs) := by
  induction pairs with
  | nil =>
    intro S held h _
    rw [List.append_nil]
    exact h
  | cons e _ ih =>
    intro S held h hnodup
    have hnew : ∀ value, (e.1, value) ∉ held := by
      intro value hmem
      rw [List.map_append, List.nodup_append] at hnodup
      exact hnodup.2.2 e.1 (List.mem_map.mpr ⟨_, hmem, rfl⟩) e.1 (by simp) rfl
    have hone : HoldsExactly (S.put (.data e.1) e.2) (held ++ [e]) := by
      intro key value
      by_cases hkey : key = e.1
      · subst hkey
        rw [lookup_put_self, Option.some.injEq, List.mem_append, List.mem_singleton]
        constructor
        · rintro rfl
          exact .inr rfl
        · rintro (hmem | heq)
          · exact absurd hmem (hnew value)
          · exact congrArg Prod.snd heq.symm
      · rw [lookup_put_ne S (k := .data e.1) e.2 (by simpa using hkey), h key value,
          List.mem_append,
          List.mem_singleton]
        constructor
        · exact .inl
        · rintro (hmem | heq)
          · exact hmem
          · exact absurd (congrArg Prod.fst heq) hkey
    rw [List.append_cons] at hnodup ⊢
    exact ih hone hnodup

/-- The pairs of a page: those from the cursor on, up to the next page. -/
def scanData (S : BuildStore) (cursor : Bytes) (next : Option Bytes) : List Entry :=
  (S.scan fun
    | .data key => cursor ≤ key ∧ ∀ n ∈ next, key < n
    | _ => false).filterMap fun
    | ⟨.data key, value⟩ => some (key, value)
    | _ => none

lemma mem_scanData {S : BuildStore} {cursor : Bytes} {next : Option Bytes} {e : Entry} :
    e ∈ scanData S cursor next ↔
      (cursor ≤ e.1 ∧ ∀ n ∈ next, e.1 < n) ∧ S.lookup (.data e.1) = some e.2 := by
  obtain ⟨key, value⟩ := e
  rw [scanData, List.mem_filterMap]
  constructor
  · rintro ⟨⟨k, v⟩, hscan, hpair⟩
    cases k with
    | data k =>
      cases hpair
      have hmem := mem_scan.mp hscan
      exact ⟨of_decide_eq_true hmem.1, hmem.2⟩
    | _ => cases hpair
  · rintro ⟨hrange, hlookup⟩
    exact ⟨⟨.data key, value⟩, mem_scan.mpr ⟨decide_eq_true hrange, hlookup⟩, rfl⟩

lemma scanData_sorted {S : BuildStore} {cursor : Bytes} {next : Option Bytes} :
    (scanData S cursor next).Pairwise fun a b => a.1 < b.1 := by
  refine List.Pairwise.filterMap _ ?_ (OrderedMap.scan_sorted S _)
  rintro ⟨k, v⟩ ⟨k', _⟩ hlt e he _ he'
  cases k with
  | data _ =>
    cases k' with
    | data =>
      cases he
      cases he'
      exact BuildKey.data_lt.mp hlt
    | _ => cases he'
  | _ => cases he

lemma HoldsExactly.scanData {S : BuildStore} {pairs : List Entry} (h : HoldsExactly S pairs)
    (hsorted : pairs.Pairwise fun a b => a.1 < b.1) (cursor : Bytes) (next : Option Bytes) :
    Bulk.scanData S cursor next = pairs.filter fun e => cursor ≤ e.1 ∧ ∀ n ∈ next, e.1 < n := by
  refine eq_of_strict scanData_sorted (hsorted.filter _) ?_
  refine (List.perm_ext_iff_of_nodup ?_ ?_).mpr fun e => ?_
  · exact scanData_sorted.imp fun hlt heq => absurd (heq ▸ hlt) (lt_irrefl _)
  · exact (hsorted.filter _).imp fun hlt heq => absurd (heq ▸ hlt) (lt_irrefl _)
  · rw [mem_scanData, h, List.mem_filter, decide_eq_true_eq, and_comm]

end Bulk
