/-
The cache of partition bodies.

A body is kept under its partition and kind, with the epoch of the Header it was read
under.  A lookup hits at that epoch only: an older body is dropped, a newer one stays for
other readers.  What is evicted follows S3-FIFO: a small queue on probation, a main queue
with second chances, and a history of keys that left the small queue.

* `BodyScan.read` — a complete scan of a body, with its exact count;
* `PartitionCache.lookup`, `PartitionCache.install` — the two operations;
* `install_kept`, `lookup_kept`, `lookup_hit` — whatever is evicted, a slot holds a body
  that was installed under its key.
-/
import Ktann.Lib.Selection
import Ktann.Storage.Store

/-! ### Bodies -/

inductive PartitionKind
  | leaf
  | internal
  deriving DecidableEq

def PartitionKind.fromLevel (level : ℕ) : PartitionKind := if level = 1 then leaf else internal

structure CacheKey where
  index : ℕ
  treeKey : TreeKey
  partition : PartitionKey
  kind : PartitionKind
  deriving DecidableEq

/-- The decoded body of a partition; `G` are restored graphs.  A Leaf Entry stands for its
expanded form, which is computed from it alone. -/
inductive BodyEntries (G : Type)
  | leaf (entries : List LeafEntry)
  | internal (children : List ChildEntry)
  | internalGraph (children : List ChildEntry) (graph : G)

def BodyEntries.scanned {G : Type} : BodyEntries G → BodyEntries G
  | internalGraph children _ => internal children
  | entries => entries

/-- A body with the epoch it was read under. -/
structure CachedBody (G : Type) where
  epoch : ℕ
  bytes : ℕ
  entries : BodyEntries G

def BodyScan.read (G : Type) (S : Store) (t : TreeKey) (p : PartitionKey)
    (header : PartitionHeader) : Except Error (BodyEntries G) :=
  match PartitionKind.fromLevel header.level with
  | .leaf =>
    if (S.leafEntries t p).length = header.entryCount then .ok (.leaf (S.leafEntries t p))
    else .error .corrupt
  | .internal =>
    if (S.childEntries t p).length = header.entryCount then .ok (.internal (S.childEntries t p))
    else .error .corrupt

/-! ### Slots and queues -/

inductive QueueKind
  | small
  | main
  deriving DecidableEq

structure CacheSlot (G : Type) where
  body : CachedBody G
  frequency : ℕ
  queue : QueueKind
  queueTick : ℕ

/-- One enqueue; it is stale once its slot was requeued, replaced or removed. -/
structure QueueRecord where
  key : CacheKey
  tick : ℕ

/-- The contents of a cache.  The set of ghosts and their order hold the same keys. -/
structure CacheInner (G : Type) where
  slots : List (CacheKey × CacheSlot G)
  small : List QueueRecord
  main : List QueueRecord
  ghosts : List CacheKey
  queueTick : ℕ
  smallBytes : ℕ
  mainBytes : ℕ

structure PartitionCache (G : Type) where
  capacityBytes : ℕ
  inner : CacheInner G

def maxFrequency : ℕ := 3

def smallQueueDivisor : ℕ := 10

namespace CacheInner

variable {G : Type} (c : CacheInner G) (key : CacheKey)

def get : Option (CacheSlot G) := (c.slots.find? fun x => x.1 = key).map Prod.snd

/-- Changes the bookkeeping of a slot. -/
def update (f : CacheSlot G → CacheSlot G) : CacheInner G :=
  { c with slots := c.slots.map fun x => if x.1 = key then (x.1, f x.2) else x }

variable (queue : QueueKind)

def records : List QueueRecord :=
  (c.slots.filter fun x => x.2.queue = queue).map fun x => ⟨x.1, x.2.queueTick⟩

/-- Numbers the slots again, with one record each. -/
def renumber : CacheInner G :=
  let c : CacheInner G := { c with
    slots := c.slots.zipIdx.map fun x => (x.1.1, { x.1.2 with queueTick := x.2 + 1 })
    queueTick := c.slots.length }
  { c with small := c.records .small, main := c.records .main }

/-- The next tick; ticks are numbered again before they overflow. -/
def nextQueueTick : CacheInner G :=
  let c := if c.queueTick = u64Bound - 1 then c.renumber else c
  { c with queueTick := c.queueTick + 1 }

/-- Ghosts and bodies too large for the small queue enter the main one. -/
def insert (body : CachedBody G) (smallCapacity : ℕ) : CacheInner G :=
  let queue := if key ∈ c.ghosts ∨ smallCapacity < body.bytes then QueueKind.main else .small
  let c := c.nextQueueTick
  let record : QueueRecord := ⟨key, c.queueTick⟩
  let c := match queue with
    | .small => { c with smallBytes := c.smallBytes + body.bytes, small := c.small ++ [record] }
    | .main => { c with mainBytes := c.mainBytes + body.bytes, main := c.main ++ [record] }
  { c with slots := (c.slots.filter fun x => x.1 ≠ key) ++ [(key, ⟨body, 0, queue, c.queueTick⟩)] }

def remove : CacheInner G :=
  match c.get key with
  | none => c
  | some slot =>
    let c := { c with slots := c.slots.filter fun x => x.1 ≠ key }
    match slot.queue with
    | .small => { c with smallBytes := c.smallBytes - slot.body.bytes }
    | .main => { c with mainBytes := c.mainBytes - slot.body.bytes }

def live (record : QueueRecord) : Bool :=
  (c.get record.key).any fun slot => slot.queue = queue ∧ slot.queueTick = record.tick

def queued : QueueKind → List QueueRecord
  | .small => c.small
  | .main => c.main

def setQueue (records : List QueueRecord) : QueueKind → CacheInner G
  | .small => { c with small := records }
  | .main => { c with main := records }

/-- Pops the oldest live record of a queue, and the stale ones before it. -/
def popLive : Option CacheKey × CacheInner G :=
  match (c.queued queue).dropWhile fun record => !c.live queue record with
  | [] => (none, c.setQueue [] queue)
  | record :: rest => (some record.key, c.setQueue rest queue)

/-- Remembers a key that left the small queue, within a bound. -/
def ghostInsert : CacheInner G :=
  let ghosts := if key ∈ c.ghosts then c.ghosts else c.ghosts ++ [key]
  { c with ghosts := ghosts.drop (ghosts.length - (2 * c.slots.length + 1024)) }

/-- Puts a slot at the end of the main queue, with the marks it has left. -/
def requeue (frequency : ℕ) : CacheInner G :=
  let c := c.nextQueueTick
  let tick := c.queueTick
  let c := c.update key fun slot => ⟨slot.body, frequency, .main, tick⟩
  { c with main := c.main ++ [⟨key, tick⟩] }

/-- The front of the small queue graduates if it was hit, and leaves otherwise. -/
def evictSmallFront : CacheInner G :=
  match c.get key with
  | none => c
  | some slot =>
    if 0 < slot.frequency then
      let c := c.requeue key 0
      { c with
        smallBytes := c.smallBytes - slot.body.bytes
        mainBytes := c.mainBytes + slot.body.bytes }
    else (c.remove key).ghostInsert key

/-- The front of the main queue spends a mark, and leaves without one. -/
def evictMainFront : CacheInner G :=
  match c.get key with
  | none => c
  | some slot => if 0 < slot.frequency then c.requeue key (slot.frequency - 1) else c.remove key

def evictFront : QueueKind → CacheInner G
  | .small => c.evictSmallFront key
  | .main => c.evictMainFront key

/-- Evicts from one queue, or goes on if it has no live record. -/
def evictFrom (otherwise : CacheInner G → CacheInner G) : CacheInner G :=
  match c.popLive queue with
  | (some key, c) => c.evictFront key queue
  | (none, c) => otherwise c

/-- No record is left, and so no slot. -/
def drain : CacheInner G := { c with slots := [], ghosts := [], smallBytes := 0, mainBytes := 0 }

/-- One round of eviction.  The small queue is first while it is over its share. -/
def evictOne (smallCapacity : ℕ) : CacheInner G :=
  let fromMain := fun c : CacheInner G => c.evictFrom .main fun c => c.evictFrom .small drain
  if smallCapacity < c.smallBytes then c.evictFrom .small fromMain else fromMain c

/-- Evicts until the bytes fit.  A round spends a mark, moves a slot to the main queue or
removes it, so that the rounds are bounded. -/
def evictWithinCapacity (capacity smallCapacity : ℕ) : ℕ → CacheInner G → CacheInner G
  | 0, c => c
  | rounds + 1, c =>
    if capacity < c.smallBytes + c.mainBytes then
      evictWithinCapacity capacity smallCapacity rounds (c.evictOne smallCapacity)
    else c

/-- How many rounds the slots can take. -/
def rounds : ℕ := (c.slots.map fun x => x.2.frequency + 2).sum + 1

/-- Rebuilds the queues when stale records dominate them. -/
def compactQueues : CacheInner G :=
  if c.small.length + c.main.length ≤ 2 * c.slots.length + 64 then c
  else
    { c with
      small := sortBy QueueRecord.tick (c.records .small)
      main := sortBy QueueRecord.tick (c.records .main) }

end CacheInner

namespace PartitionCache

variable {G : Type}

def new (capacityBytes : ℕ) : PartitionCache G := ⟨capacityBytes, ⟨[], [], [], [], 0, 0, 0⟩⟩

/-- A body at the epoch of a Header.  An older one is dropped. -/
def lookup (c : PartitionCache G) (key : CacheKey) (epoch : ℕ) :
    Option (CachedBody G) × PartitionCache G :=
  match c.inner.get key with
  | some slot =>
    if slot.body.epoch = epoch then
      (some slot.body, { c with inner := c.inner.update key fun slot =>
        { slot with frequency := min (slot.frequency + 1) maxFrequency } })
    else if slot.body.epoch < epoch then (none, { c with inner := c.inner.remove key })
    else (none, c)
  | none => (none, c)

/-- Whether an existing body stays: it is newer, or it has the graph that the new one
lacks. -/
def outranks (existing body : CachedBody G) : Bool :=
  decide (body.epoch < existing.epoch) || decide (existing.epoch = body.epoch) &&
    match existing.entries, body.entries with
    | .internalGraph _ _, .internal _ => true
    | _, _ => false

/-- Publishes a body and evicts until it fits. -/
def install (c : PartitionCache G) (key : CacheKey) (body : CachedBody G) : PartitionCache G :=
  if c.capacityBytes < body.bytes then c
  else if (c.inner.get key).any fun slot => outranks slot.body body then c
  else
    let smallCapacity := c.capacityBytes / smallQueueDivisor
    let inner := (c.inner.remove key).insert key body smallCapacity
    { c with
      inner := (inner.evictWithinCapacity c.capacityBytes smallCapacity inner.rounds).compactQueues
        }

end PartitionCache

/-! ### What is kept -/

namespace CacheInner

variable {G : Type} {c c' c'' : CacheInner G} {key : CacheKey} {body : CachedBody G}

/-- Every body was there before, under its key. -/
def Within (c' c : CacheInner G) : Prop :=
  ∀ x ∈ c'.slots, ∃ y ∈ c.slots, y.1 = x.1 ∧ y.2.body = x.2.body

lemma Within.refl (c : CacheInner G) : Within c c := fun x hx => ⟨x, hx, rfl, rfl⟩

lemma Within.trans (h' : Within c'' c') (h : Within c' c) : Within c'' c := by
  intro x hx
  obtain ⟨y, hy, hkey, hbody⟩ := h' x hx
  obtain ⟨z, hz, hkey', hbody'⟩ := h y hy
  exact ⟨z, hz, hkey'.trans hkey, hbody'.trans hbody⟩

lemma within_of_subset (h : ∀ x ∈ c'.slots, x ∈ c.slots) : Within c' c :=
  fun x hx => ⟨x, h x hx, rfl, rfl⟩

lemma update_within {f : CacheSlot G → CacheSlot G} (hf : ∀ slot, (f slot).body = slot.body) :
    Within (c.update key f) c := by
  intro x hx
  obtain ⟨y, hy, rfl⟩ := mem_map.mp hx
  refine ⟨y, hy, ?_⟩
  split_ifs
  · exact ⟨rfl, (hf _).symm⟩
  · exact ⟨rfl, rfl⟩

lemma nextQueueTick_within : Within c.nextQueueTick c := by
  have hrenumber : Within c.renumber c := by
    intro x hx
    obtain ⟨⟨⟨key, slot⟩, n⟩, hy, rfl⟩ := mem_map.mp hx
    exact ⟨(key, slot), List.fst_mem_of_mem_zipIdx hy, rfl, rfl⟩
  rw [nextQueueTick]
  split_ifs
  · exact hrenumber
  · exact Within.refl c

lemma remove_within : Within (c.remove key) c := by
  refine within_of_subset fun x hx => ?_
  rw [remove] at hx
  split at hx
  · exact hx
  · split at hx <;> exact List.mem_of_mem_filter hx

lemma popLive_within {queue : QueueKind} : Within (c.popLive queue).2 c := by
  rw [popLive]
  split
  all_goals cases queue <;> exact Within.refl c

lemma requeue_within {frequency : ℕ} : Within (c.requeue key frequency) c := by
  have hupdate : Within (c.nextQueueTick.update key fun slot =>
      ⟨slot.body, frequency, .main, c.nextQueueTick.queueTick⟩) c.nextQueueTick :=
    update_within fun _ => rfl
  exact hupdate.trans nextQueueTick_within

lemma ghostInsert_within : Within (c.ghostInsert key) c := by
  rw [ghostInsert]
  exact fun x hx => ⟨x, hx, rfl, rfl⟩

lemma evictSmallFront_within : Within (c.evictSmallFront key) c := by
  rw [evictSmallFront]
  split
  · exact Within.refl c
  · split_ifs
    · exact requeue_within
    · exact ghostInsert_within.trans remove_within

lemma evictMainFront_within : Within (c.evictMainFront key) c := by
  rw [evictMainFront]
  split
  · exact Within.refl c
  · split_ifs
    · exact requeue_within
    · exact remove_within

lemma evictFrom_within {queue : QueueKind} {otherwise : CacheInner G → CacheInner G}
    (h : ∀ c, Within (otherwise c) c) : Within (c.evictFrom queue otherwise) c := by
  have hpop := @popLive_within _ c queue
  rw [evictFrom]
  split
  · rename_i key popped heq
    rw [heq] at hpop
    cases queue with
    | small => exact evictSmallFront_within.trans hpop
    | main => exact evictMainFront_within.trans hpop
  · rename_i popped heq
    rw [heq] at hpop
    exact (h popped).trans hpop

variable {smallCapacity : ℕ}

lemma evictOne_within : Within (c.evictOne smallCapacity) c := by
  have hdrain (c : CacheInner G) : Within c.drain c := fun x hx => by cases hx
  have hmain (c : CacheInner G) : Within (c.evictFrom .main fun c => c.evictFrom .small drain) c :=
    evictFrom_within fun _ => evictFrom_within hdrain
  rw [evictOne]
  split_ifs
  · exact evictFrom_within hmain
  · exact hmain c

lemma evictWithinCapacity_within {capacity : ℕ} : ∀ {n : ℕ} {c : CacheInner G},
    Within (c.evictWithinCapacity capacity smallCapacity n) c := by
  intro n
  induction n with
  | zero => exact fun {c} => Within.refl c
  | succ n ih =>
    intro c
    rw [evictWithinCapacity]
    split_ifs
    · exact ih.trans evictOne_within
    · exact Within.refl c

lemma compactQueues_within : Within c.compactQueues c := by
  rw [compactQueues]
  split_ifs
  all_goals exact Within.refl c

lemma mem_insert {x : CacheKey × CacheSlot G} (hx : x ∈ (c.insert key body smallCapacity).slots) :
    (x.1 = key ∧ x.2.body = body) ∨ ∃ y ∈ c.slots, y.1 = x.1 ∧ y.2.body = x.2.body := by
  have hslots : (c.insert key body smallCapacity).slots =
      (c.nextQueueTick.slots.filter fun x => x.1 ≠ key) ++ [(key, ⟨body, 0,
        if key ∈ c.ghosts ∨ smallCapacity < body.bytes then QueueKind.main else .small,
        c.nextQueueTick.queueTick⟩)] := by
    rw [insert]
    split_ifs <;> rfl
  rw [hslots] at hx
  rcases mem_append.mp hx with hx | hx
  · exact .inr (nextQueueTick_within x (List.mem_of_mem_filter hx))
  · cases mem_singleton.mp hx
    exact .inl ⟨rfl, rfl⟩

lemma mem_of_get {slot : CacheSlot G} (h : c.get key = some slot) : (key, slot) ∈ c.slots := by
  obtain ⟨⟨k, s⟩, hfind, rfl⟩ := map_eq_some_iff.mp h
  have hkey : k = key := by simpa using List.find?_some hfind
  exact hkey ▸ List.mem_of_find?_eq_some hfind

end CacheInner

namespace PartitionCache

variable {G : Type} {c : PartitionCache G} {key : CacheKey} {body : CachedBody G} {epoch : ℕ}

open CacheInner (Within)

lemma lookup_kept : Within (c.lookup key epoch).2.inner c.inner := by
  rw [lookup]
  split
  · split_ifs
    · exact CacheInner.update_within fun _ => rfl
    · exact CacheInner.remove_within
    · exact Within.refl _
  · exact Within.refl _

lemma lookup_hit (h : (c.lookup key epoch).1 = some body) :
    ∃ x ∈ c.inner.slots, x.1 = key ∧ x.2.body = body ∧ body.epoch = epoch := by
  rw [lookup] at h
  split at h
  · rename_i slot hget
    split_ifs at h with hepoch
    cases h
    exact ⟨_, CacheInner.mem_of_get hget, rfl, rfl, hepoch⟩
  · cases h

lemma install_kept {x : CacheKey × CacheSlot G} (hx : x ∈ (c.install key body).inner.slots) :
    (x.1 = key ∧ x.2.body = body) ∨ ∃ y ∈ c.inner.slots, y.1 = x.1 ∧ y.2.body = x.2.body := by
  rw [install] at hx
  split_ifs at hx
  · exact .inr ⟨x, hx, rfl, rfl⟩
  · exact .inr ⟨x, hx, rfl, rfl⟩
  · obtain ⟨y, hy, hkey, hbody⟩ :=
      (CacheInner.compactQueues_within.trans CacheInner.evictWithinCapacity_within :
        Within _ _) x hx
    rcases CacheInner.mem_insert hy with ⟨hykey, hybody⟩ | ⟨z, hz, hzkey, hzbody⟩
    · exact .inl ⟨hkey.symm.trans hykey, hbody.symm.trans hybody⟩
    · obtain ⟨w, hw, hwkey, hwbody⟩ := CacheInner.remove_within z hz
      exact .inr ⟨w, hw, hwkey.trans (hzkey.trans hkey), hwbody.trans (hzbody.trans hbody)⟩

end PartitionCache
