/-
The cache epoch identifies the body.

Every writer of entries moves the epoch of the partition in the same commit, and a removed
partition never comes back.  Two stores of one run with the same epoch of a partition then
have the same entries there, so that a body that was read at one of them serves the other.

* `CacheRun` — a cache and its readers, at any snapshots of a run;
* `cached_body_current` — a hit is what a scan would have read.
-/
import Ktann.Committed.GraphBodies
import Ktann.Committed.Guarantees
import Ktann.Search.PartitionCache

section

variable {G : Type} {ix : Index} {build : GraphBuilder} {history : List Store} {S S' : Store}
  {t : TreeKey} {p : PartitionKey} {h h' : PartitionHeader} {id : ℕ} {c : PartitionCache G}

/-! ### Epochs -/

lemma SameEntries.symm (hs : SameEntries S S' t p) : SameEntries S' S t p :=
  ⟨fun id => (hs.leaf id).symm, fun c => (hs.child c).symm⟩

lemma Consistent.same_entries (hh : Consistent ix history) (hS : S ∈ history) (hS' : S' ∈ history)
    (hh₁ : S.header t p = some h) (hh₂ : S'.header t p = some h')
    (hepoch : h.cacheEpoch = h'.cacheEpoch) : SameEntries S S' t p := by
  obtain ⟨i, hi, rfl⟩ := List.getElem_of_mem hS
  obtain ⟨j, hj, rfl⟩ := List.getElem_of_mem hS'
  rcases lt_trichotomy i j with hlt | rfl | hlt
  · -- The first store is the newer one.
    have hevolves := List.pairwise_iff_getElem.mp hh.evolves i j hi hj hlt
    exact ((hevolves.grown hh₂ hh₁).same hepoch).2.symm
  · exact .refl
  · have hevolves := List.pairwise_iff_getElem.mp hh.evolves j i hj hi hlt
    exact ((hevolves.grown hh₁ hh₂).same hepoch.symm).2

lemma SameEntries.leafEntries_eq (hs : SameEntries S S' t p) :
    S'.leafEntries t p = S.leafEntries t p := by
  rw [Store.leafEntries, Store.leafEntries]
  refine congrArg (List.filterMap _) (OrderedMap.scan_congr fun k hk => ?_)
  cases k <;> simp [leafRange] at hk
  obtain ⟨rfl, rfl⟩ := hk
  exact hs.leaf _

lemma Consistent.read_eq (hh : Consistent ix history) (hS : S ∈ history) (hS' : S' ∈ history)
    (hh₁ : S.header t p = some h) (hh₂ : S'.header t p = some h')
    (hepoch : h.cacheEpoch = h'.cacheEpoch)
    (hkind : PartitionKind.fromLevel h.level = PartitionKind.fromLevel h'.level) :
    BodyScan.read G S t p h = BodyScan.read G S' t p h' := by
  have hsame := hh.same_entries hS hS' hh₁ hh₂ hepoch
  have hcount : h'.entryCount = h.entryCount := by
    rw [((hh.coherent S hS).bodies t p).count hh₁, ((hh.coherent S' hS').bodies t p).count hh₂,
      hsame.entryCount_eq]
  rw [BodyScan.read, BodyScan.read, hkind, hsame.leafEntries_eq,
    childEntries_congr hsame.child, hcount]

/-! ### Readers and a cache -/

def bodyKey (id : ℕ) (t : TreeKey) (p : PartitionKey) (header : PartitionHeader) : CacheKey :=
  ⟨id, t, p, .fromLevel header.level⟩

/-- A cache after any lookups and installs of readers, each at its own snapshot of the run.
What a reader installs it read before, when the cache was another one. -/
inductive CacheRun (id : ℕ) (history : List Store) : PartitionCache G → Prop
  | new (capacity : ℕ) : CacheRun id history (.new capacity)
  | lookup {c : PartitionCache G} (run : CacheRun id history c) (key : CacheKey) (epoch : ℕ) :
      CacheRun id history (c.lookup key epoch).2
  /-- A scanned body. -/
  | scanned {c : PartitionCache G} {S : Store} {t : TreeKey} {p : PartitionKey}
      {header : PartitionHeader} {entries : BodyEntries G} (run : CacheRun id history c)
      (snapshot : S ∈ history) (stored : S.header t p = some header)
      (read : BodyScan.read G S t p header = .ok entries) (bytes : ℕ) :
      CacheRun id history (c.install (bodyKey id t p header) ⟨header.cacheEpoch, bytes, entries⟩)
  /-- A graph over scanned children. -/
  | restored {c : PartitionCache G} {S : Store} {t : TreeKey} {p : PartitionKey}
      {header : PartitionHeader} {children : List ChildEntry} (run : CacheRun id history c)
      (snapshot : S ∈ history) (stored : S.header t p = some header)
      (read : BodyScan.read G S t p header = .ok (.internal children)) (graph : G) (bytes : ℕ) :
      CacheRun id history (c.install (bodyKey id t p header)
        ⟨header.cacheEpoch, bytes, .internalGraph children graph⟩)
  /-- A graph over the children of a hit. -/
  | upgraded {c before : PartitionCache G} {S : Store} {t : TreeKey} {p : PartitionKey}
      {header : PartitionHeader} {body : CachedBody G} {children : List ChildEntry}
      (run : CacheRun id history c) (runBefore : CacheRun id history before)
      (snapshot : S ∈ history) (stored : S.header t p = some header)
      (hit : (before.lookup (bodyKey id t p header) header.cacheEpoch).1 = some body)
      (projections : body.entries = .internal children) (graph : G) (bytes : ℕ) :
      CacheRun id history (c.install (bodyKey id t p header)
        ⟨header.cacheEpoch, bytes, .internalGraph children graph⟩)
  /-- A body of another index. -/
  | other {c : PartitionCache G} (run : CacheRun id history c) {key : CacheKey}
      (foreign : key.index ≠ id) (body : CachedBody G) : CacheRun id history (c.install key body)

/-- A slot holds what was read under some Header of its epoch and kind. -/
def Sourced (id : ℕ) (history : List Store) (key : CacheKey) (body : CachedBody G) : Prop :=
  key.index = id → ∃ S ∈ history, ∃ header, S.header key.treeKey key.partition = some header ∧
    key.kind = .fromLevel header.level ∧ body.epoch = header.cacheEpoch ∧
    BodyScan.read G S key.treeKey key.partition header = .ok body.entries.scanned

lemma scanned_of_read {entries : BodyEntries G} (hread : BodyScan.read G S t p h = .ok entries) :
    entries.scanned = entries := by
  rw [BodyScan.read] at hread
  split at hread <;> split_ifs at hread <;> cases hread <;> rfl

lemma Sourced.hit (hh : Consistent ix history) (hS : S ∈ history)
    (hstored : S.header t p = some h) {body : CachedBody G}
    (hsourced : Sourced id history (bodyKey id t p h) body) (hepoch : body.epoch = h.cacheEpoch) :
    BodyScan.read G S t p h = .ok body.entries.scanned := by
  obtain ⟨_, hS', _, hstored', hkind, hepoch', hread⟩ := hsourced rfl
  rw [← hread]
  exact hh.read_eq hS hS' hstored hstored' (hepoch.symm.trans hepoch') hkind

lemma CacheRun.sourced (hh : Consistent ix history) (hrun : CacheRun id history c) :
    ∀ x ∈ c.inner.slots, Sourced id history x.1 x.2.body := by
  -- What is installed is sourced, and what was there is.
  have hinstall {c : PartitionCache G} {key : CacheKey} {body : CachedBody G}
      (hc : ∀ x ∈ c.inner.slots, Sourced id history x.1 x.2.body)
      (hbody : Sourced id history key body) :
      ∀ x ∈ (c.install key body).inner.slots, Sourced id history x.1 x.2.body := by
    intro x hx
    rcases PartitionCache.install_kept hx with ⟨hkey, heq⟩ | ⟨y, hy, hkey, heq⟩
    · rw [hkey, heq]
      exact hbody
    · rw [← hkey, ← heq]
      exact hc y hy
  induction hrun with
  | new => exact nofun
  | lookup _ _ _ ih =>
    intro x hx
    obtain ⟨y, hy, hkey, heq⟩ := PartitionCache.lookup_kept x hx
    rw [← hkey, ← heq]
    exact ih y hy
  | @scanned c S t p header _ _ snapshot stored read bytes ih =>
    refine hinstall ih fun _ => ⟨S, snapshot, header, stored, rfl, rfl, ?_⟩
    exact read.trans (congrArg Except.ok (scanned_of_read read).symm)
  | @restored c S t p header children _ snapshot stored read graph bytes ih =>
    exact hinstall ih fun _ => ⟨S, snapshot, header, stored, rfl, rfl, read⟩
  | @upgraded c before S t p header body children _ _ snapshot stored hit projections graph bytes ih
      ihBefore =>
    obtain ⟨x, hx, hkey, heq, hepoch⟩ := PartitionCache.lookup_hit hit
    have hsourced := ihBefore x hx
    rw [hkey, heq] at hsourced
    have hread := hsourced.hit hh snapshot stored hepoch
    rw [projections] at hread
    exact hinstall ih fun _ => ⟨S, snapshot, header, stored, rfl, rfl, hread⟩
  | other _ foreign _ ih => exact hinstall ih fun heq => absurd heq foreign

/-- **The cache epoch identifies the body.**  Two committed stores with one epoch of a
partition have the same entries there, and a hit at a snapshot is what a scan of that
snapshot reads. -/
theorem cached_body_current (hrun : RunFromEmpty ix build history) :
    (∀ S ∈ history, ∀ S' ∈ history, ∀ t p h h', S.header t p = some h →
      S'.header t p = some h' → h.cacheEpoch = h'.cacheEpoch →
      PartitionKind.fromLevel h.level = PartitionKind.fromLevel h'.level →
        S.body t p = S'.body t p) ∧
    ∀ (G : Type) (id : ℕ) (c : PartitionCache G), CacheRun id history c →
      ∀ S ∈ history, ∀ t p h body, S.header t p = some h →
        (c.lookup (bodyKey id t p h) h.cacheEpoch).1 = some body →
          BodyScan.read G S t p h = .ok body.entries.scanned := by
  have hh := hrun.consistent (coherent_empty ix)
  refine ⟨fun S hS S' hS' t p h h' hh₁ hh₂ hepoch _ => ?_,
    fun G id c hcache S hS t p h body hstored hhit => ?_⟩
  · exact (hh.same_entries hS hS' hh₁ hh₂ hepoch).body_eq.symm
  · obtain ⟨x, hx, hkey, heq, hepoch⟩ := PartitionCache.lookup_hit hhit
    have hsourced := hcache.sourced hh x hx
    rw [hkey, heq] at hsourced
    exact hsourced.hit hh hS hstored hepoch

def hitsRoot (read hit : Store) : Option (PartitionHeader × PartitionHeader × CachedBody Unit) := do
  let header ← read.header lineTree rootPartition
  let entries ← (BodyScan.read Unit read lineTree rootPartition header).toOption
  let header' ← hit.header lineTree rootPartition
  let cache := (PartitionCache.new 100).install (bodyKey 1 lineTree rootPartition header)
    ⟨header.cacheEpoch, 10, entries⟩
  let body ← (cache.lookup (bodyKey 1 lineTree rootPartition header') header'.cacheEpoch).1
  some (header, header', body)

lemma hitsRoot_run {read hit : Store} {header header' : PartitionHeader} {body : CachedBody Unit}
    (hread : read ∈ history) (h : hitsRoot read hit = some (header, header', body)) :
    hit.header lineTree rootPartition = some header' ∧ ∃ c, CacheRun 1 history c ∧
      (c.lookup (bodyKey 1 lineTree rootPartition header') header'.cacheEpoch).1 = some body := by
  obtain ⟨k, hk, h⟩ := bind_eq_some_iff.mp h
  obtain ⟨_, hentries, h⟩ := bind_eq_some_iff.mp h
  obtain ⟨_, hk', h⟩ := bind_eq_some_iff.mp h
  obtain ⟨_, hfound, h⟩ := bind_eq_some_iff.mp h
  cases h
  refine ⟨hk', _, .scanned (.new 100) hread hk ?_ 10, hfound⟩
  cases hok : BodyScan.read Unit read lineTree rootPartition header with
  | error e =>
    rw [hok] at hentries
    cases hentries
  | ok =>
    rw [hok] at hentries
    cases hentries
    rfl

theorem cached_body_current_line : ∃ S ∈ lineHistory, ∃ h body,
    S.header lineTree rootPartition = some h ∧
    (∃ c : PartitionCache Unit, CacheRun 1 lineHistory c ∧
      (c.lookup (bodyKey 1 lineTree rootPartition h) h.cacheEpoch).1 = some body) ∧
    BodyScan.read Unit S lineTree rootPartition h = .ok body.entries.scanned := by
  have hhit : (lineHistory[8]?.bind fun read => lineHistory[7]?.bind fun hit =>
      hitsRoot read hit).isSome = true := by
    decide +kernel
  obtain ⟨⟨k, k', body⟩, hsome⟩ := isSome_iff_exists.mp hhit
  obtain ⟨_, hread, hsome⟩ := bind_eq_some_iff.mp hsome
  obtain ⟨hit, hhit, hsome⟩ := bind_eq_some_iff.mp hsome
  obtain ⟨hheader, c, hc, hlookup⟩ := hitsRoot_run (mem_of_getElem? hread) hsome
  exact ⟨hit, mem_of_getElem? hhit, k', body, hheader, ⟨c, hc, hlookup⟩,
    (cached_body_current lineHistory_run).2 Unit 1 c hc hit (mem_of_getElem? hhit) lineTree
      rootPartition k' body hheader hlookup⟩

end
