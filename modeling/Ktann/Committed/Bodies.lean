/-
What is stored for one partition, and how it changes.

A partition's Header, Synopsis and entries are written together: the count is the
number of stored entries, a leaf's Synopsis covers its entries, and every change
of the entries moves the cache epoch forward.  The operations below are the units
all committed writes are made of.

* `Body` — the agreement of one partition's keys;
* `Kept` — how a partition that stays may change: its level and epoch do not go
  back, an unchanged epoch means unchanged entries, and the Synopsis of a leaf only
  grows;
* `bodyStep_putLeaf` … `bodyStep_promoteRoot` — every unit keeps both.
-/
import Ktann.Storage.TreeManifest

open LogicalKey (bodyRange)

/-! ### Units of change -/

namespace Store

variable (S : Store) (t : TreeKey) (p : PartitionKey)

def putLeaf (entry : LeafEntry) (header : PartitionHeader) (synopsis : PartitionSynopsis) : Store :=
  ((S.put (.leafEntry t p entry.recordId) entry).put (.header t p) header).put
    (.synopsis t p) synopsis

def eraseLeaf (id : RecordId) (header : PartitionHeader) : Store :=
  (S.erase (.leafEntry t p id)).put (.header t p) header

def putChild (entry : ChildEntry) (header : PartitionHeader) : Store :=
  (S.put (.childEntry t p entry.child) entry).put (.header t p) header

def eraseChild (p child : PartitionKey) (header : PartitionHeader) : Store :=
  (S.erase (.childEntry t p child)).put (.header t p) header

/-- A State written with the discriminator its Header repeats. -/
def restate (header : PartitionHeader) (state : PartitionTransition) : Store :=
  (S.put (.state t p) state).put (.header t p) (header.withState state.state)

def allocate (manifest : TreeManifest) : Store := S.put (.treeManifest t) manifest

def putCentroid (centroid : VectorData) : Store := S.put (.centroid t p) centroid

/-- A new split target of `source`, whose Header is `header`. -/
def createTarget (ix : Index) (S : Store) (t : TreeKey) (source : PartitionKey)
    (header : PartitionHeader) (p : PartitionKey) (centroid : VectorData) (startedAt : ℕ) : Store :=
  let created := ((S.put (.header t p) (PartitionHeader.fresh header.level .receivingSplit
    header.level_pos header.level_lt)).put (.state t p) (.receivingSplit source startedAt)).put
      (.centroid t p) centroid
  if header.level = 1 then created.put (.synopsis t p) (PartitionSynopsis.empty ix) else created

/-- A new tree with its empty root. -/
def createTree (ix : Index) (S : Store) (t : TreeKey) (startedAt : ℕ) : Store :=
  (((S.put (.treeManifest t) TreeManifest.initial).put (.header t rootPartition)
    PartitionHeader.newRoot).put (.synopsis t rootPartition) (PartitionSynopsis.empty ix)).put
      (.state t rootPartition) (.ready startedAt)

/-- A drained root that became the parent of its two targets. -/
def promoteRoot (left right : ChildEntry) (header : PartitionHeader) (startedAt : ℕ) : Store :=
  ((((S.put (.childEntry t rootPartition left.child) left).put
    (.childEntry t rootPartition right.child) right).erase (.synopsis t rootPartition)).put
      (.header t rootPartition) header).put (.state t rootPartition) (.ready startedAt)

def removePartition : Store :=
  (((S.erase (.synopsis t p)).erase (.centroid t p)).erase (.state t p)).erase (.header t p)

section

variable (ix : Index) (S : Store) (t : TreeKey) (source : PartitionKey) (h : PartitionHeader)
  (p : PartitionKey) (v : VectorData) (n : ℕ) (t' : TreeKey)

lemma header_createTarget (q : PartitionKey) : (S.createTarget ix t source h p v n).header t' q =
      if t' = t ∧ q = p then some (.fresh h.level .receivingSplit h.level_pos h.level_lt)
      else S.header t' q := by
  by_cases hl : h.level = 1 <;> simp [createTarget, hl]

lemma childEntry_createTarget (q c : PartitionKey) :
    (S.createTarget ix t source h p v n).childEntry t' q c = S.childEntry t' q c := by
  by_cases hl : h.level = 1 <;> simp [createTarget, hl]

end

end Store

/-! ### Agreement and evolution of one partition -/

structure Body (ix : Index) (S : Store) (t : TreeKey) (p : PartitionKey) : Prop where
  /-- The count is exact. -/
  count : ∀ {h}, S.header t p = some h → h.entryCount = S.entryCount t p
  absent : S.header t p = none → S.entryCount t p = 0 ∧ S.synopsis t p = none
  /-- A leaf has a Synopsis that covers its entries. -/
  leaf : ∀ {h}, S.header t p = some h → h.level = 1 → ∃ y, S.synopsis t p = some y ∧
    y.hasShapeFor ix = true ∧ ∀ id e, S.leafEntry t p id = some e → y.Covers ix e.fields
  /-- Any other partition has none, and no Leaf Entry. -/
  internal : ∀ {h}, S.header t p = some h → h.level ≠ 1 → S.synopsis t p = none ∧
    ∀ id, S.leafEntry t p id = none

structure SameEntries (S S' : Store) (t : TreeKey) (p : PartitionKey) : Prop where
  leaf : ∀ id, S'.leafEntry t p id = S.leafEntry t p id
  child : ∀ c, S'.childEntry t p c = S.childEntry t p c

/-- How a partition with Header `h` may have changed when it has Header `h'`. -/
structure Grown (S S' : Store) (t : TreeKey) (p : PartitionKey) (h h' : PartitionHeader) :
    Prop where
  level_le : h.level ≤ h'.level
  epoch_le : h.cacheEpoch ≤ h'.cacheEpoch
  same : h'.cacheEpoch = h.cacheEpoch → h'.level = h.level ∧ SameEntries S S' t p
  synopsis : h'.level = 1 → ∀ y, S.synopsis t p = some y → ∃ y', S'.synopsis t p = some y' ∧ y.Le y'

/-- The partition stays, and evolves. -/
def Kept (S S' : Store) (t : TreeKey) (p : PartitionKey) : Prop :=
  ∀ h, S.header t p = some h → ∃ h', S'.header t p = some h' ∧ Grown S S' t p h h'

structure SameBody (S S' : Store) (t : TreeKey) (p : PartitionKey) : Prop
    extends SameEntries S S' t p where
  header : S'.header t p = S.header t p
  synopsis : S'.synopsis t p = S.synopsis t p

section

variable {ix : Index} {S S' S'' : Store} {t : TreeKey} {p : PartitionKey}

lemma SameEntries.refl : SameEntries S S t p := ⟨fun _ => rfl, fun _ => rfl⟩

section
variable (h : SameEntries S S' t p)
include h

lemma SameEntries.trans (h' : SameEntries S' S'' t p) : SameEntries S S'' t p :=
  ⟨fun id => (h'.leaf id).trans (h.leaf id), fun c => (h'.child c).trans (h.child c)⟩

lemma SameEntries.body_eq : S'.body t p = S.body t p := Store.body_congr h.leaf h.child

lemma SameEntries.entryCount_eq : S'.entryCount t p = S.entryCount t p := by
  rw [Store.entryCount_eq_length_body, Store.entryCount_eq_length_body, h.body_eq]

end

lemma Grown.refl {h : PartitionHeader} : Grown S S t p h h :=
  ⟨le_rfl, le_rfl, fun _ => ⟨rfl, .refl⟩, fun _ y hy => ⟨y, hy, .refl y⟩⟩

lemma Grown.trans {h h' h'' : PartitionHeader} (hg : Grown S S' t p h h')
    (hg' : Grown S' S'' t p h' h'') : Grown S S'' t p h h'' where
  level_le := hg.level_le.trans hg'.level_le
  epoch_le := hg.epoch_le.trans hg'.epoch_le
  same he := by
    have hle := hg.epoch_le
    have hle' := hg'.epoch_le
    obtain ⟨hlevel, hsame⟩ := hg.same (by omega)
    obtain ⟨hlevel', hsame'⟩ := hg'.same (by omega)
    exact ⟨hlevel'.trans hlevel, hsame.trans hsame'⟩
  synopsis hl y hy := by
    have hl' : h'.level = 1 := by
      have hle := hg'.level_le
      have hpos := h'.level_pos
      omega
    obtain ⟨y', hy', hle⟩ := hg.synopsis hl' y hy
    obtain ⟨y'', hy'', hle'⟩ := hg'.synopsis hl y' hy'
    exact ⟨y'', hy'', hle.trans hle'⟩

lemma Kept.trans (h : Kept S S' t p) (h' : Kept S' S'' t p) : Kept S S'' t p := by
  intro k hk
  obtain ⟨k', hk', hg⟩ := h k hk
  obtain ⟨k'', hk'', hg'⟩ := h' k' hk'
  exact ⟨k'', hk'', hg.trans hg'⟩

lemma SameBody.kept (h : SameBody S S' t p) : Kept S S' t p := by
  intro k hk
  refine ⟨k, h.header.trans hk, le_rfl, le_rfl, fun _ => ⟨rfl, h.toSameEntries⟩, ?_⟩
  exact fun _ y hy => ⟨y, h.synopsis.trans hy, .refl y⟩

lemma SameBody.body (h : SameBody S S' t p) (hb : Body ix S t p) : Body ix S' t p := by
  refine ⟨?_, ?_, ?_, ?_⟩
  · rw [h.header, h.toSameEntries.entryCount_eq]
    exact hb.count
  · rw [h.header, h.toSameEntries.entryCount_eq, h.synopsis]
    exact hb.absent
  · simp only [h.header, h.synopsis, h.leaf]
    exact hb.leaf
  · simp only [h.header, h.synopsis, h.leaf]
    exact hb.internal

/-- Every body agrees with itself. -/
def Bodies (ix : Index) (S : Store) : Prop := ∀ t p, Body ix S t p

/-- A change that keeps every partition and every agreement. -/
def BodyStep (ix : Index) (S S' : Store) : Prop := Bodies ix S → Bodies ix S' ∧ ∀ t p, Kept S S' t p

lemma BodyStep.trans (h : BodyStep ix S S') (h' : BodyStep ix S' S'') : BodyStep ix S S'' := by
  intro hb
  obtain ⟨hb', hk⟩ := h hb
  obtain ⟨hb'', hk'⟩ := h' hb'
  exact ⟨hb'', fun t p => (hk t p).trans (hk' t p)⟩

lemma BodyStep.of_local (hframe : ∀ t' p', ¬(t' = t ∧ p' = p) → SameBody S S' t' p')
    (hlocal : Body ix S t p → Body ix S' t p ∧ Kept S S' t p) : BodyStep ix S S' := by
  intro hb
  have hboth : ∀ t' p', Body ix S' t' p' ∧ Kept S S' t' p' := by
    intro t' p'
    by_cases htp : t' = t ∧ p' = p
    · obtain ⟨rfl, rfl⟩ := htp
      exact hlocal (hb t' p')
    · exact ⟨(hframe t' p' htp).body (hb t' p'), (hframe t' p' htp).kept⟩
  exact ⟨fun t p => (hboth t p).1, fun t p => (hboth t p).2⟩

lemma BodyStep.of_same (h : ∀ t p, SameBody S S' t p) : BodyStep ix S S' :=
  fun hb => ⟨fun t p => (h t p).body (hb t p), fun t p => (h t p).kept⟩

end

/-! ### Every unit is a body step -/

namespace Store

variable (S : Store) (t : TreeKey) (p : PartitionKey) (h : PartitionHeader)

lemma entryCount_putLeaf (e : LeafEntry) (y : PartitionSynopsis) :
    (S.putLeaf t p e h y).entryCount t p =
      if S.leafEntry t p e.recordId = none then S.entryCount t p + 1 else S.entryCount t p := by
  have hlookup : S.lookup (.leafEntry t p e.recordId) = S.leafEntry t p e.recordId := rfl
  by_cases hid : S.leafEntry t p e.recordId = none <;>
    simp [putLeaf, entryCount_put, bodyRange, leafRange, childRange, hlookup, hid]

lemma entryCount_putChild (e : ChildEntry) : (S.putChild t p e h).entryCount t p =
      if S.childEntry t p e.child = none then S.entryCount t p + 1 else S.entryCount t p := by
  have hlookup : S.lookup (.childEntry t p e.child) = S.childEntry t p e.child := rfl
  by_cases hid : S.childEntry t p e.child = none <;>
    simp [putChild, entryCount_put, bodyRange, leafRange, childRange, hlookup, hid]

lemma entryCount_eraseLeaf {id : RecordId} (hid : S.leafEntry t p id ≠ none) :
    S.entryCount t p = (S.eraseLeaf t p id h).entryCount t p + 1 := by
  rw [S.entryCount_erase (.leafEntry t p id), if_pos ⟨by simp [bodyRange, leafRange], hid⟩]
  simp [eraseLeaf, entryCount_put, bodyRange, leafRange, childRange]

lemma entryCount_eraseChild {c : PartitionKey} (hc : S.childEntry t p c ≠ none) :
    S.entryCount t p = (S.eraseChild t p c h).entryCount t p + 1 := by
  rw [S.entryCount_erase (.childEntry t p c), if_pos ⟨by simp [bodyRange, childRange], hc⟩]
  simp [eraseChild, entryCount_put, bodyRange, leafRange, childRange]

end Store

section

attribute [local simp] Store.restate Store.createTarget Store.createTree Store.promoteRoot
  Store.removePartition

variable {ix : Index} {S S' : Store} {t : TreeKey} {p : PartitionKey} {h h' : PartitionHeader}

lemma bodyStep_adjust (hframe : ∀ t' p', ¬(t' = t ∧ p' = p) → SameBody S S' t' p')
    (header : S.header t p = some h) (header' : S'.header t p = some h') (adjusted : h.Adjusted h')
    (count : h.entryCount = S.entryCount t p → h'.entryCount = S'.entryCount t p)
    (synopsis : S'.synopsis t p = S.synopsis t p ∨ h.level = 1 ∧ ∃ y y', S.synopsis t p = some y ∧
      S'.synopsis t p = some y' ∧ y'.hasShapeFor ix = true ∧ y.Le y')
    (entries : ∀ id e, S'.leafEntry t p id = some e → S.leafEntry t p id = some e ∨
      h.level = 1 ∧ ∀ y', S'.synopsis t p = some y' → y'.Covers ix e.fields) :
    BodyStep ix S S' := by
  refine .of_local hframe fun hb => ⟨⟨?_, ?_, ?_, ?_⟩, ?_⟩
  · intro k hk
    cases header'.symm.trans hk
    exact count (hb.count header)
  · intro hnone
    cases header'.symm.trans hnone
  · intro k hk hl
    cases header'.symm.trans hk
    have hl' : h.level = 1 := adjusted.level ▸ hl
    obtain ⟨y, hy, hshape, hcov⟩ := hb.leaf header hl'
    obtain ⟨y', hy', hshape', hle⟩ : ∃ y', S'.synopsis t p = some y' ∧
        y'.hasShapeFor ix = true ∧ y.Le y' := by
      rcases synopsis with hsame | ⟨-, y₀, y', hy₀, hy', hshape', hle⟩
      · exact ⟨y, hsame.trans hy, hshape, .refl y⟩
      · cases hy.symm.trans hy₀
        exact ⟨y', hy', hshape', hle⟩
    refine ⟨y', hy', hshape', fun id e he => ?_⟩
    rcases entries id e he with hold | ⟨-, hnew⟩
    · exact (hcov id e hold).mono hle
    · exact hnew y' hy'
  · intro k hk hl
    cases header'.symm.trans hk
    have hl' : h.level ≠ 1 := adjusted.level ▸ hl
    obtain ⟨hsyn, hnone⟩ := hb.internal header hl'
    refine ⟨?_, fun id => ?_⟩
    · rcases synopsis with hsame | ⟨hleaf, -⟩
      · exact hsame.trans hsyn
      · exact absurd hleaf hl'
    · rw [Option.eq_none_iff_forall_ne_some]
      intro e he
      rcases entries id e he with hold | ⟨hleaf, -⟩
      · rw [hnone id] at hold
        cases hold
      · exact hl' hleaf
  · intro k hk
    cases header.symm.trans hk
    have hepoch := adjusted.cacheEpoch
    refine ⟨h', header', adjusted.level.ge, by omega, fun he => by omega, fun _ y hy => ?_⟩
    rcases synopsis with hsame | ⟨-, _, y', hy₀, hy', -, hle⟩
    · exact ⟨y, hsame.trans hy, .refl y⟩
    · cases hy.symm.trans hy₀
      exact ⟨y', hy', hle⟩

section
variable (header : S.header t p = some h)
include header

lemma bodyStep_putLeaf {e : LeafEntry} {y y' : PartitionSynopsis} {changed : Bool}
    (synopsis : S.synopsis t p = some y) (leaf : h.level = 1) (adjusted : h.Adjusted h')
    (count : h'.entryCount =
      if S.leafEntry t p e.recordId = none then h.entryCount + 1 else h.entryCount)
    (expanded : y.expand ix e.fields = .ok (y', changed)) :
    BodyStep ix S (S.putLeaf t p e h' y') := by
  have hspec := PartitionSynopsis.expand_spec expanded
  have hsyn : (S.putLeaf t p e h' y').synopsis t p = some y' := by simp [Store.putLeaf]
  refine bodyStep_adjust ?_ header (by simp [Store.putLeaf]) adjusted ?_
    (.inr ⟨leaf, y, y', synopsis, hsyn, hspec.shape, hspec.le⟩) ?_
  · intro t' p' htp
    refine ⟨⟨fun id => ?_, fun c => ?_⟩, ?_, ?_⟩ <;> simp [Store.putLeaf] <;> tauto
  · intro hcount
    rw [count, S.entryCount_putLeaf, hcount]
  · intro id e' he'
    simp only [Store.putLeaf, Store.leafEntry_put] at he'
    split_ifs at he' with hid
    · cases he'
      refine .inr ⟨leaf, fun y'' hy'' => ?_⟩
      cases hsyn.symm.trans hy''
      exact hspec.covers
    · exact .inl he'

lemma bodyStep_eraseLeaf {id : RecordId} (entry : S.leafEntry t p id ≠ none)
    (removed : h.removedEntry = .ok h') : BodyStep ix S (S.eraseLeaf t p id h') := by
  obtain ⟨adjusted, hcount⟩ := removedEntry_ok removed
  refine bodyStep_adjust ?_ header (by simp [Store.eraseLeaf]) adjusted ?_
    (.inl (by simp [Store.eraseLeaf])) ?_
  · intro t' p' htp
    refine ⟨⟨fun id => ?_, fun c => ?_⟩, ?_, ?_⟩ <;> simp [Store.eraseLeaf] <;> tauto
  · have := S.entryCount_eraseLeaf t p h' entry
    omega
  · intro _ e he
    simp only [Store.eraseLeaf, Store.leafEntry_put, Store.leafEntry_erase] at he
    split_ifs at he
    exact .inl he

lemma bodyStep_putChild {e : ChildEntry} (adjusted : h.Adjusted h') (count : h'.entryCount =
      if S.childEntry t p e.child = none then h.entryCount + 1 else h.entryCount) :
    BodyStep ix S (S.putChild t p e h') := by
  refine bodyStep_adjust ?_ header (by simp [Store.putChild]) adjusted ?_
    (.inl (by simp [Store.putChild])) ?_
  · intro t' p' htp
    refine ⟨⟨fun id => ?_, fun c => ?_⟩, ?_, ?_⟩ <;> simp [Store.putChild] <;> tauto
  · intro hcount
    rw [count, S.entryCount_putChild, hcount]
  · exact fun id e' he' => .inl (by simpa [Store.putChild] using he')

lemma bodyStep_eraseChild {c : PartitionKey} (entry : S.childEntry t p c ≠ none)
    (removed : h.removedEntry = .ok h') : BodyStep ix S (S.eraseChild t p c h') := by
  obtain ⟨adjusted, hcount⟩ := removedEntry_ok removed
  refine bodyStep_adjust ?_ header (by simp [Store.eraseChild]) adjusted ?_
    (.inl (by simp [Store.eraseChild])) ?_
  · intro t' p' htp
    refine ⟨⟨fun id => ?_, fun c => ?_⟩, ?_, ?_⟩ <;> simp [Store.eraseChild] <;> tauto
  · have := S.entryCount_eraseChild t p h' entry
    omega
  · exact fun id e he => .inl (by simpa [Store.eraseChild] using he)

lemma bodyStep_restate {state : PartitionTransition} : BodyStep ix S (S.restate t p h state) := by
  have hsame : SameEntries S (S.restate t p h state) t p := by
    constructor <;> intro <;> simp
  have hheader : (S.restate t p h state).header t p = some (h.withState state.state) := by
    simp
  have hsyn : (S.restate t p h state).synopsis t p = S.synopsis t p := by simp
  refine .of_local (t := t) (p := p) ?_ fun hb => ⟨⟨?_, ?_, ?_, ?_⟩, ?_⟩
  · intro t' p' htp
    refine ⟨⟨fun id => ?_, fun c => ?_⟩, ?_, ?_⟩ <;> simp
    tauto
  · intro k hk
    cases hheader.symm.trans hk
    have hcount := hb.count header
    rwa [hsame.entryCount_eq]
  · intro hnone
    cases hheader.symm.trans hnone
  · intro k hk hl
    cases hheader.symm.trans hk
    simpa only [hsyn, hsame.leaf] using hb.leaf header hl
  · intro k hk hl
    cases hheader.symm.trans hk
    simpa only [hsyn, hsame.leaf] using hb.internal header hl
  · intro k hk
    cases header.symm.trans hk
    exact ⟨_, hheader, le_rfl, le_rfl, fun _ => ⟨rfl, hsame⟩,
      fun _ y hy => ⟨y, hsyn.trans hy, .refl y⟩⟩

end

lemma bodyStep_create {k : PartitionHeader}
    (hframe : ∀ t' p', ¬(t' = t ∧ p' = p) → SameBody S S' t' p') (hsame : SameEntries S S' t p)
    (absent : S.header t p = none) (header' : S'.header t p = some k) (count : k.entryCount = 0)
    (leaf : k.level = 1 → S'.synopsis t p = some (PartitionSynopsis.empty ix))
    (internal : k.level ≠ 1 → S'.synopsis t p = S.synopsis t p) : BodyStep ix S S' := by
  refine .of_local hframe fun hb => ?_
  obtain ⟨hcount, hsyn⟩ := hb.absent absent
  have hnone : ∀ id, S'.leafEntry t p id = none := fun id =>
    (hsame.leaf id).trans ((entryCount_eq_zero.mp hcount).1 id)
  refine ⟨⟨?_, ?_, ?_, ?_⟩, ?_⟩
  · intro k' hk
    cases header'.symm.trans hk
    rw [count, hsame.entryCount_eq, hcount]
  · intro hno
    cases header'.symm.trans hno
  · intro k' hk hl
    cases header'.symm.trans hk
    refine ⟨_, leaf hl, PartitionSynopsis.empty_hasShapeFor ix, fun id e he => ?_⟩
    rw [hnone id] at he
    cases he
  · intro k' hk hl
    cases header'.symm.trans hk
    exact ⟨(internal hl).trans hsyn, hnone⟩
  · intro k' hk
    cases absent.symm.trans hk

lemma bodyStep_createTarget {source : PartitionKey} {v : VectorData} {n : ℕ}
    (absent : S.header t p = none) : BodyStep ix S (S.createTarget ix t source h p v n) := by
  by_cases hl : h.level = 1
  all_goals
    refine bodyStep_create (t := t) (p := p) (k := .fresh h.level .receivingSplit h.level_pos
      h.level_lt) ?_ ?_ absent (by simp [hl]) rfl ?_ ?_
    · intro t' p' htp
      refine ⟨⟨fun id => ?_, fun c => ?_⟩, ?_, ?_⟩ <;> simp [hl] <;> tauto
    · constructor <;> intro <;> simp [hl]
    all_goals simp [hl]

lemma bodyStep_createTree {n : ℕ} (absent : S.header t rootPartition = none) :
    BodyStep ix S (S.createTree ix t n) := by
  refine bodyStep_create (t := t) (p := rootPartition) (k := .newRoot) ?_ ?_ absent
    (by simp) rfl ?_ ?_
  · intro t' p' htp
    refine ⟨⟨fun id => ?_, fun c => ?_⟩, ?_, ?_⟩ <;> simp <;> tauto
  · constructor <;> intro <;> simp
  · simp
  · intro hl
    exact absurd rfl hl

lemma bodyStep_promoteRoot {left right : ChildEntry} {n : ℕ}
    (header : S.header t rootPartition = some h) (drained : h.entryCount = 0)
    (ne : left.child ≠ right.child) (level : h'.level = h.level + 1) (count : h'.entryCount = 2)
    (epoch : h.cacheEpoch < h'.cacheEpoch) : BodyStep ix S (S.promoteRoot t left right h' n) := by
  have hheader : (S.promoteRoot t left right h' n).header t rootPartition = some h' := by
    simp
  have hpos := h.level_pos
  refine .of_local (t := t) (p := rootPartition) ?_ fun hb => ?_
  · intro t' p' htp
    refine ⟨⟨fun id => ?_, fun c => ?_⟩, ?_, ?_⟩ <;> simp <;> grind
  have hzero : S.entryCount t rootPartition = 0 := (hb.count header).symm.trans drained
  obtain ⟨hleaf, hchild⟩ := entryCount_eq_zero.mp hzero
  refine ⟨⟨?_, ?_, ?_, ?_⟩, ?_⟩
  · intro k hk
    cases hheader.symm.trans hk
    have hsame : SameEntries ((S.put (.childEntry t rootPartition left.child) left).put
        (.childEntry t rootPartition right.child) right) (S.promoteRoot t left right h' n) t
        rootPartition := by
      constructor <;> intro <;> simp
    have hl : S.lookup (.childEntry t rootPartition left.child) = none := hchild _
    have hr : S.lookup (.childEntry t rootPartition right.child) = none := hchild _
    rw [hsame.entryCount_eq, count]
    simp [Store.entryCount_put, lookup_put, bodyRange,
      childRange, leafRange, ne.symm, hl, hr, hzero]
  · intro hno
    cases hheader.symm.trans hno
  · intro k hk hl
    cases hheader.symm.trans hk
    omega
  · intro k hk hl
    cases hheader.symm.trans hk
    exact ⟨by simp, fun id => by simpa using hleaf id⟩
  · intro k hk
    cases header.symm.trans hk
    exact ⟨h', hheader, by omega, epoch.le, fun he => by omega, fun hl => by omega⟩

lemma bodies_removePartition (header : S.header t p = some h) (drained : h.entryCount = 0)
    (hb : Bodies ix S) : Bodies ix (S.removePartition t p) ∧
      (S.removePartition t p).header t p = none ∧
      ∀ t' p', ¬(t' = t ∧ p' = p) → SameBody S (S.removePartition t p) t' p' := by
  have hframe : ∀ t' p', ¬(t' = t ∧ p' = p) → SameBody S (S.removePartition t p) t' p' := by
    intro t' p' htp
    refine ⟨⟨fun id => ?_, fun c => ?_⟩, ?_, ?_⟩ <;> simp <;> tauto
  have hnone : (S.removePartition t p).header t p = none := by simp
  refine ⟨fun t' p' => ?_, hnone, hframe⟩
  by_cases htp : t' = t ∧ p' = p
  · obtain ⟨rfl, rfl⟩ := htp
    have hsame : SameEntries S (S.removePartition t' p') t' p' := by
      constructor <;> intro <;> simp
    refine ⟨fun hk => ?_, fun _ => ⟨?_, by simp⟩, fun hk => ?_, fun hk => ?_⟩
    · cases hnone.symm.trans hk
    · rw [hsame.entryCount_eq, ← (hb t' p').count header, drained]
    all_goals cases hnone.symm.trans hk
  · exact (hframe t' p' htp).body (hb t' p')

end

/-! ### Names used without their namespace -/

export Store (eraseChild restate putChild eraseLeaf putLeaf header_createTarget putCentroid
  removePartition allocate)
