/-
Runs of the in-memory backend.

Any number of read and write transactions call the backend in any interleaving.
Beside the backend's own state a run records what the statement needs: the
operations of every published commit in commit order, and for every writer the
operations it has staged and the keys it has read for update or inserted.

The history is pruned and its floor raised at any commit and any release.  What
remains is still evidence of every commit above the floor (`Evidence`), and a
transaction whose snapshot is below the floor does not pass the conflict check.

* `Evidence`, `Evidence.evict`, `Evidence.committed` — what the history knows;
* `not_conflict` — a transaction that passes the conflict check lost no protected
  key to a later commit;
* `inv_run` — the invariant of a run;
* `memory_serializable` — **the backend is serializable on protected keys**.
-/
import Ktann.Backend.MemoryCalls

namespace Memory

/-! ### The system -/

/-- A write transaction, the operations it has staged, and the keys it has read
for update or inserted. -/
structure Session where
  txn : WriteTxn
  staged : List Op
  promised : Finset Bytes

/-- A transaction of a run.  A reader records the number of commits it began
after; a writer that has ended still holds its snapshot until it is dropped. -/
inductive Slot
  | reader (data : Store) (begun : ℕ)
  | writer (session : Session)
  | ended (revision : ℕ)
  | gone

/-- The backend, its transactions, and the published commits in order. -/
structure System where
  state : State
  slots : List Slot
  log : List (List Op)

def System.new : System := ⟨.new, [], []⟩

/-- What a client does.  Any opening or call may fail before it starts, as an
injected fault or an admission limit makes it. -/
inductive Action
  | beginRead (fault : Option Error)
  | beginWrite (fault : Option Error)
  | call (i : ℕ) (c : Call) (fault : Option Error)
  | commit (i : ℕ) (claimed : Bool) (fault : CommitFault)
  | release (i : ℕ)

/-- The answer to an action on a transaction that is not there. -/
def noTransaction : Error := Error.new .other

def Session.after (session : Session) (c : Call) (result : Except Error Output) (txn : WriteTxn) :
    Session :=
  match result with
  | .error _ => { session with txn := txn }
  | .ok output => ⟨txn, session.staged ++ c.ops output, session.promised ∪ c.reserves.toFinset⟩

def stepCall (config : Config) (sys : System) (i : ℕ) (c : Call) : Except Error Output × System :=
  match sys.slots[i]? with
  | some (.reader data _) => (readCall config data c, sys)
  | some (.writer session) =>
    let (result, txn) := session.txn.call config c
    (result, { sys with slots := sys.slots.set i (.writer (session.after c result txn)) })
  | _ => (.error noTransaction, sys)

def stepCommit (config : Config) (sys : System) (i : ℕ) (claimed : Bool) (fault : CommitFault) :
    Except Error Output × System :=
  match sys.slots[i]? with
  | some (.writer session) =>
    let (result, state) := commitWith config sys.state session.txn claimed fault
    (result.map fun _ => .done,
      ⟨state, sys.slots.set i (.ended session.txn.revision),
        if state.revision = sys.state.revision then sys.log else sys.log ++ [session.staged]⟩)
  | _ => (.error noTransaction, sys)

/-- A drop or a rollback releases the snapshot of a writer. -/
def stepRelease (config : Config) (sys : System) (i : ℕ) : Except Error Output × System :=
  match sys.slots[i]? with
  | some (.reader _ _) => (.ok .done, { sys with slots := sys.slots.set i .gone })
  | some (.writer session) =>
    (.ok .done, { sys with
      state := sys.state.releaseWriter config session.txn.revision
      slots := sys.slots.set i .gone })
  | some (.ended revision) =>
    (.ok .done, { sys with
      state := sys.state.releaseWriter config revision
      slots := sys.slots.set i .gone })
  | _ => (.error noTransaction, sys)

def step (config : Config) (sys : System) : Action → Except Error Output × System
  | .beginRead none =>
    (.ok .done, { sys with slots := sys.slots ++ [.reader sys.state.data sys.state.revision] })
  | .beginWrite none =>
    (.ok .done, { sys with
      state := (beginWrite sys.state).1
      slots := sys.slots ++ [.writer ⟨(beginWrite sys.state).2, [], ∅⟩] })
  | .call i c none => stepCall config sys i c
  | .commit i claimed fault => stepCommit config sys i claimed fault
  | .release i => stepRelease config sys i
  | .beginRead (some e) | .beginWrite (some e) | .call _ _ (some e) => (.error e, sys)

def run (config : Config) (actions : List Action) : System :=
  actions.foldl (fun sys action => (step config sys action).2) .new

/-- The contents after a list of commits. -/
def replay (log : List (List Op)) : Store := log.foldl (fun data ops => replayOps ops data) .empty

lemma replay_append (log : List (List Op)) (ops : List Op) :
    replay (log ++ [ops]) = replayOps ops (replay log) := by
  rw [replay, List.foldl_append]
  rfl

/-! ### Conflict evidence -/

/-- The history is evidence of every commit above the floor: the keys it wrote are
known with their last revision, the others it changed are in its cleared
ranges. -/
structure Evidence (s : State) (log : List (List Op)) : Prop where
  floor : s.conflictFloor ≤ log.length
  sorted : s.history.Pairwise fun a b => a.number < b.number
  bound : ∀ r ∈ s.history, s.conflictFloor < r.number ∧ r.number ≤ log.length
  numbers : ∀ n, s.conflictFloor < n → n ≤ log.length → ∃ r ∈ s.history, r.number = n
  keys : ∀ r ∈ s.history, ∀ ops, log[r.number - 1]? = some ops → ∀ key, latest ops key ≠ none →
    key ∈ r.keys ∨ covers r.cleared key = true
  modified : ∀ r ∈ s.history, ∀ key ∈ r.keys, ∃ m, s.modified.lookup key = some m ∧ r.number ≤ m

namespace Evidence
variable {config : Config} {s : State} {log : List (List Op)}
  {modified : OrderedMap Bytes fun _ => ℕ}

lemma forget_lookup {number m : ℕ} {keys : List Bytes} {key : Bytes}
    (h : modified.lookup key = some m) (hm : m ≠ number) :
    (keys.foldl (forget number) modified).lookup key = some m := by
  induction keys generalizing modified with
  | nil => exact h
  | cons k _ ih =>
    refine ih ?_
    rw [forget]
    split_ifs with hk
    · have hne : key ≠ k := by
        rintro rfl
        rw [h] at hk
        exact hm (Option.some.inj hk)
      rw [lookup_erase_ne _ hne, h]
    · exact h

lemma evict {front : Revision} {rest : List Revision} (h : Evidence s log)
    (hs : s.history = front :: rest) : Evidence (s.evict front rest) log := by
  have hsorted := h.sorted
  rw [hs, pairwise_cons] at hsorted
  have hmem : ∀ r ∈ rest, r ∈ s.history := fun r hr => hs ▸ mem_cons_of_mem _ hr
  refine ⟨(h.bound front (hs ▸ mem_cons_self)).2, hsorted.2,
    fun r hr => ⟨hsorted.1 r hr, (h.bound r (hmem r hr)).2⟩, ?_,
    fun r hr => h.keys r (hmem r hr), ?_⟩
  · intro n hn hlen
    have hfront := (h.bound front (hs ▸ mem_cons_self)).1
    obtain ⟨r, hr, rfl⟩ := h.numbers n (hfront.trans hn) hlen
    rw [hs] at hr
    rcases mem_cons.mp hr with rfl | hr
    · exact absurd hn (lt_irrefl _)
    · exact ⟨r, hr, rfl⟩
  · intro r hr key hkey
    obtain ⟨m, hm, hle⟩ := h.modified r (hmem r hr) key hkey
    have hlt := hsorted.1 r hr
    exact ⟨m, forget_lookup hm (by omega), hle⟩

lemma pruneFrom {oldest : ℕ} {history : List Revision} (h : Evidence s log)
    (hs : s.history = history) : Evidence (pruneFrom config oldest history s) log := by
  induction history generalizing s with
  | nil => exact h
  | cons _ _ ih =>
    rw [Memory.pruneFrom]
    split_ifs
    · exact ih (h.evict hs) rfl
    · exact h

lemma pruneHistory (h : Evidence s log) : Evidence (s.pruneHistory config) log := h.pruneFrom rfl

lemma congr {s' : State} (h : Evidence s log) (hhistory : s'.history = s.history)
    (hfloor : s'.conflictFloor = s.conflictFloor) (hmodified : s'.modified = s.modified) :
    Evidence s' log := by
  obtain ⟨_, _, _, _, _, _⟩ := h
  exact ⟨by rwa [hfloor], by rwa [hhistory], by rwa [hhistory, hfloor], by rwa [hhistory, hfloor],
    by rwa [hhistory], by rwa [hhistory, hmodified]⟩

lemma releaseWriter (h : Evidence s log) (revision : ℕ) :
    Evidence (s.releaseWriter config revision) log := by
  have h' : Evidence { s with writers := s.writers.erase revision } log := h.congr rfl rfl rfl
  exact h'.pruneHistory

lemma lookup_foldl_put {keys : List Bytes} {number : ℕ} (key : Bytes) :
    (keys.foldl (fun modified k => modified.put k number) modified).lookup key =
      if key ∈ keys then some number else modified.lookup key := by
  induction keys generalizing modified with
  | nil => simp
  | cons k keys ih =>
    rw [foldl_cons, ih]
    by_cases hkeys : key ∈ keys
    · simp [hkeys]
    · by_cases hk : key = k
      · subst hk
        simp [hkeys]
      · simp [hkeys, hk, lookup_put_ne _ _ hk]

lemma committed {txn : WriteTxn} {ops : List Op} {data : Store} (h : Evidence s log)
    (hrevision : s.revision = log.length) (hpending : ∀ key, txn.pending key = latest ops key) :
    Evidence (s.committed txn data) (log ++ [ops]) := by
  have hold : ∀ r ∈ s.history, (log ++ [ops])[r.number - 1]? = log[r.number - 1]? := by
    intro r hr
    have := h.bound r hr
    exact List.getElem?_append_left (by omega)
  have hfloor := h.floor
  refine ⟨?_, ?_, ?_, ?_, ?_, ?_⟩
  · rw [length_append]
    exact Nat.le_add_right_of_le hfloor
  · refine pairwise_append.mpr ⟨h.sorted, List.pairwise_singleton _ _, ?_⟩
    intro a ha b hb
    obtain rfl := mem_singleton.mp hb
    have := (h.bound a ha).2
    change a.number < s.revision + 1
    omega
  · intro r hr
    rw [length_append, length_singleton]
    rcases mem_append.mp hr with hr | hr
    · have := h.bound r hr
      exact ⟨this.1, by omega⟩
    · obtain rfl := mem_singleton.mp hr
      change s.conflictFloor < s.revision + 1 ∧ s.revision + 1 ≤ log.length + 1
      omega
  · intro n hn hlen
    rw [length_append, length_singleton] at hlen
    rcases Nat.lt_or_ge log.length n with hlt | hle
    · exact ⟨_, List.mem_append_right _ (List.mem_singleton_self _),
        show s.revision + 1 = n by omega⟩
    · obtain ⟨r, hr, hrn⟩ := h.numbers n hn hle
      exact ⟨r, mem_append_left _ hr, hrn⟩
  · intro r hr ops' hops key hkey
    rcases mem_append.mp hr with hr | hr
    · rw [hold r hr] at hops
      exact h.keys r hr ops' hops key hkey
    · obtain rfl := mem_singleton.mp hr
      have hindex : s.revision + 1 - 1 = log.length := by omega
      dsimp only at hops ⊢
      rw [hindex, List.getElem?_concat_length] at hops
      cases hops
      rw [← hpending, WriteTxn.pending] at hkey
      cases hwrites : txn.writes.lookup key with
      | some value =>
        exact .inl (mem_map.mpr ⟨⟨key, value⟩, OrderedMap.mem_entries.mpr hwrites, rfl⟩)
      | none =>
        rw [hwrites] at hkey
        by_cases hcovers : covers txn.clears key = true
        · exact .inr hcovers
        · rw [if_neg hcovers] at hkey
          exact absurd rfl hkey
  · intro r hr key hkey
    change ∃ m, (List.foldl _ s.modified _).lookup key = some m ∧ _
    rw [lookup_foldl_put]
    split_ifs with hmem
    · refine ⟨_, rfl, ?_⟩
      rcases mem_append.mp hr with hr | hr
      · have := (h.bound r hr).2
        omega
      · obtain rfl := mem_singleton.mp hr
        exact le_rfl
    · rcases mem_append.mp hr with hr | hr
      · exact h.modified r hr key hkey
      · obtain rfl := mem_singleton.mp hr
        exact absurd hkey hmem

end Evidence

variable {log : List (List Op)} {sys : System} {i : ℕ}

/-- A transaction that passes the conflict check lost no protected key to a commit
after its snapshot. -/
lemma not_conflict {s : State} {txn : WriteTxn} (h : Evidence s log)
    (hconflict : s.conflict txn = false) {key : Bytes} (hkey : key ∈ txn.reserved) {n : ℕ}
    {ops : List Op} (hn : txn.revision ≤ n) (hops : log[n]? = some ops) :
    ∀ op ∈ ops, ¬ op.Touches key := by
  intro op hop htouches
  have hreserved : txn.reserved ≠ ∅ := Finset.ne_empty_of_mem hkey
  simp only [State.conflict, hreserved, ne_eq, not_false_eq_true, decide_true, Bool.true_and,
    or_eq_false_iff, decide_eq_false_iff_not, not_lt, not_exists, not_and] at hconflict
  obtain ⟨⟨hfloor, hmodified⟩, hcleared⟩ := hconflict
  have hlen : n < log.length := (getElem?_eq_some_iff.mp hops).1
  -- the commit is above the floor, so the history still knows it
  obtain ⟨r, hr, hrn⟩ := h.numbers (n + 1) (by omega) (by omega)
  have hops' : log[r.number - 1]? = some ops := by
    rw [hrn]
    exact hops
  rcases h.keys r hr ops hops' key (latest_ne_none.mpr ⟨op, hop, htouches⟩) with hwritten | hcovers
  · obtain ⟨m, hm, hle⟩ := h.modified r hr key hwritten
    refine hmodified key hkey ?_
    rw [hm]
    exact decide_eq_true (by omega)
  · rw [List.any_eq_false] at hcleared
    refine hcleared r hr ?_
    rw [and_eq_true]
    exact ⟨decide_eq_true (by omega), decide_eq_true ⟨key, hkey, hcovers⟩⟩

/-! ### The invariant of a run -/

/-- What a transaction of a run is, against the commits so far. -/
def Slot.Valid (log : List (List Op)) : Slot → Prop
  | reader data begun => begun ≤ log.length ∧ data = replay (log.take begun)
  | writer session => session.txn.revision ≤ log.length ∧
      Staged session.txn (replay (log.take session.txn.revision)) session.staged ∧
      session.promised ⊆ session.txn.reserved
  | ended _ | gone => True

variable {slot : Slot}

lemma Slot.Valid.append (h : slot.Valid log) (ops : List Op) : slot.Valid (log ++ [ops]) := by
  cases slot with
  | reader =>
    obtain ⟨hlen, hdata⟩ := h
    refine ⟨by rw [length_append]; omega, ?_⟩
    rwa [List.take_append_of_le_length hlen]
  | writer =>
    obtain ⟨hlen, hstaged, hpromised⟩ := h
    refine ⟨by rw [length_append]; omega, ?_, hpromised⟩
    rwa [List.take_append_of_le_length hlen]
  | ended | gone => trivial

structure Inv (sys : System) : Prop where
  revision : sys.state.revision = sys.log.length
  data : sys.state.data = replay sys.log
  evidence : Evidence sys.state sys.log
  slots : ∀ slot ∈ sys.slots, slot.Valid sys.log

lemma pruneFrom_data (config : Config) (oldest : ℕ) (history : List Revision) (s : State) :
    (pruneFrom config oldest history s).data = s.data ∧
      (pruneFrom config oldest history s).revision = s.revision := by
  induction history generalizing s with
  | nil => exact ⟨rfl, rfl⟩
  | cons _ _ ih =>
    rw [pruneFrom]
    split_ifs
    · exact ih _
    · exact ⟨rfl, rfl⟩

lemma pruneHistory_data (config : Config) (s : State) :
    (s.pruneHistory config).data = s.data ∧ (s.pruneHistory config).revision = s.revision :=
  pruneFrom_data config _ _ s

variable {fault : CommitFault} {claimed : Bool}

lemma commitWith_cases {config : Config} {s : State} {txn : WriteTxn} :
    ((∃ e, (commitWith config s txn claimed fault).1 = .error e) ∧
      (commitWith config s txn claimed fault).2 = s) ∨
    (s.conflict txn = false ∧ (commitWith config s txn claimed fault).2 =
      (s.committed txn (publish s.data txn)).pruneHistory config ∧
      ((commitWith config s txn claimed fault).1 = .ok () ∨
        (commitWith config s txn claimed fault).1 = .error (.new .commitOutcomeUnknown))) := by
  simp only [commitWith]
  split_ifs with h1 h2 h3 h4 h5 h6 h7
  · exact .inl ⟨⟨_, rfl⟩, rfl⟩
  · exact .inl ⟨⟨_, rfl⟩, rfl⟩
  · exact .inl ⟨⟨_, rfl⟩, rfl⟩
  · exact .inl ⟨⟨_, rfl⟩, rfl⟩
  · exact .inl ⟨⟨_, rfl⟩, rfl⟩
  · exact .inl ⟨⟨_, rfl⟩, rfl⟩
  · exact .inr ⟨Bool.eq_false_of_not_eq_true h4, rfl, .inr rfl⟩
  · exact .inr ⟨Bool.eq_false_of_not_eq_true h4, rfl, .inl rfl⟩

lemma valid_set {slots : List Slot} {log : List (List Op)} {i : ℕ} (h : ∀ s ∈ slots, s.Valid log)
    (hslot : slot.Valid log) : ∀ s ∈ slots.set i slot, s.Valid log := by
  intro s hs
  rcases List.mem_or_eq_of_mem_set hs with hs | rfl
  · exact h s hs
  · exact hslot

lemma valid_getElem? (h : Inv sys) (hslot : sys.slots[i]? = some slot) : slot.Valid sys.log :=
  h.slots slot (mem_of_getElem? hslot)

lemma inv_new : Inv .new where
  revision := rfl
  data := rfl
  evidence := ⟨le_rfl, List.Pairwise.nil, nofun, fun n hn hlen => by
    simp only [System.new, State.new, length_nil] at hn hlen
    omega, nofun, nofun⟩
  slots := nofun

lemma valid_after {session : Session} {c : Call} {result : Except Error Output} {txn' : WriteTxn}
    (h : (Slot.writer session).Valid log)
    (hspec : CallSpec session.txn (replay (log.take session.txn.revision)) session.staged c
      (result, txn')) : (Slot.writer (session.after c result txn')).Valid log := by
  obtain ⟨hlen, hstaged, hpromised⟩ := h
  cases result with
  | error e =>
    obtain ⟨hview, hwrites, hclears⟩ := hspec.error e rfl
    refine ⟨hspec.revision.symm ▸ hlen, ?_, hpromised.trans hspec.reserved⟩
    change Staged txn' (replay (log.take txn'.revision)) session.staged
    rw [hspec.revision]
    exact hstaged.congr hview hwrites hclears
  | ok output =>
    obtain ⟨hstaged', hreserves, _⟩ := hspec.ok output rfl
    refine ⟨hspec.revision.symm ▸ hlen, ?_,
      Finset.union_subset (hpromised.trans hspec.reserved) hreserves⟩
    change Staged txn' (replay (log.take txn'.revision)) (session.staged ++ c.ops output)
    rwa [hspec.revision]

section
variable {config : Config} {sys : System}

variable {i : ℕ} {session : Session}

lemma stepCall_reader {begun : ℕ} {data : Store} (c : Call)
    (h : sys.slots[i]? = some (.reader data begun)) :
    stepCall config sys i c = (readCall config data c, sys) := by
  rw [stepCall, h]

lemma stepCall_writer (c : Call) (h : sys.slots[i]? = some (.writer session)) :
    stepCall config sys i c = ((session.txn.call config c).1,
      { sys with slots := sys.slots.set i (.writer (session.after c
        (session.txn.call config c).1 (session.txn.call config c).2)) }) := by
  rw [stepCall, h]

lemma stepCommit_writer (claimed : Bool) (fault : CommitFault)
    (h : sys.slots[i]? = some (.writer session)) : stepCommit config sys i claimed fault =
      ((commitWith config sys.state session.txn claimed fault).1.map fun _ => .done,
        ⟨(commitWith config sys.state session.txn claimed fault).2,
          sys.slots.set i (.ended session.txn.revision),
          if (commitWith config sys.state session.txn claimed fault).2.revision =
            sys.state.revision then sys.log else sys.log ++ [session.staged]⟩) := by
  rw [stepCommit, h]

lemma inv_stepCall (h : Inv sys) (i : ℕ) (c : Call) : Inv (stepCall config sys i c).2 := by
  cases hslot : sys.slots[i]? with
  | none =>
    rw [stepCall, hslot]
    exact h
  | some slot =>
    cases slot with
    | reader data =>
      rw [stepCall_reader c hslot]
      exact h
    | writer =>
      have hvalid := valid_getElem? h hslot
      rw [stepCall_writer c hslot]
      exact ⟨h.revision, h.data, h.evidence,
        valid_set h.slots (valid_after hvalid (call_spec hvalid.2.1 c))⟩
    | ended revision | gone =>
      rw [stepCall, hslot]
      exact h

lemma stepCommit_cases {i : ℕ} {session : Session} (claimed : Bool) (fault : CommitFault)
    (hslot : sys.slots[i]? = some (.writer session)) :
    ((∃ e, (stepCommit config sys i claimed fault).1 = .error e) ∧
      (stepCommit config sys i claimed fault).2 =
        { sys with slots := sys.slots.set i (.ended session.txn.revision) }) ∨
    (sys.state.conflict session.txn = false ∧
      (stepCommit config sys i claimed fault).2 =
        ⟨(sys.state.committed session.txn (publish sys.state.data session.txn)).pruneHistory config,
          sys.slots.set i (.ended session.txn.revision), sys.log ++ [session.staged]⟩ ∧
      ((stepCommit config sys i claimed fault).1 = .ok .done ∨
        (stepCommit config sys i claimed fault).1 = .error (.new .commitOutcomeUnknown))) := by
  rw [stepCommit_writer claimed fault hslot]
  rcases @commitWith_cases fault claimed config sys.state session.txn with
    ⟨⟨e, herror⟩, hstate⟩ | ⟨hconflict, hstate, hresult⟩
  · refine .inl ⟨⟨e, by rw [herror]; rfl⟩, ?_⟩
    rw [hstate, if_pos rfl]
  · refine .inr ⟨hconflict, ?_, ?_⟩
    rotate_left
    · exact hresult.imp (fun h => by rw [h]; rfl) (fun h => by rw [h]; rfl)
    have hrevision := (pruneHistory_data config
      (sys.state.committed session.txn (publish sys.state.data session.txn))).2
    have hne : (sys.state.committed session.txn (publish sys.state.data session.txn)).revision ≠
        sys.state.revision := Nat.succ_ne_self _
    rw [hstate, hrevision, if_neg hne]

lemma publish_eq {snapshot : Store} (data : Store)
    (h : Staged session.txn snapshot session.staged) :
    publish data session.txn = replayOps session.staged data :=
  OrderedMap.ext fun key => by rw [lookup_publish, lookup_replayOps, h.pending]

lemma inv_stepCommit (h : Inv sys) (i : ℕ) (claimed : Bool) (fault : CommitFault) :
    Inv (stepCommit config sys i claimed fault).2 := by
  cases hslot : sys.slots[i]? with
  | none =>
    rw [stepCommit, hslot]
    exact h
  | some slot =>
    cases slot with
    | writer session =>
      obtain ⟨hlen, hstaged, hpromised⟩ := valid_getElem? h hslot
      rcases @stepCommit_cases config sys i session claimed fault hslot with
        ⟨_, hstep⟩ | ⟨_, hstep, _⟩
      · rw [hstep]
        exact ⟨h.revision, h.data, h.evidence, valid_set h.slots trivial⟩
      · rw [hstep]
        obtain ⟨hdata, hrevision⟩ := pruneHistory_data config
          (sys.state.committed session.txn (publish sys.state.data session.txn))
        refine ⟨?_, ?_, (h.evidence.committed h.revision hstaged.pending).pruneHistory, ?_⟩
        · rw [hrevision, length_append]
          exact congrArg (· + 1) h.revision
        · rw [hdata, replay_append, ← h.data]
          exact publish_eq _ hstaged
        · intro slot hmem
          exact @valid_set (.ended session.txn.revision) _ _ i
            (fun s hs => (h.slots s hs).append session.staged) trivial slot hmem
    | reader data begun | ended revision | gone =>
      rw [stepCommit, hslot]
      exact h

lemma inv_release (h : Inv sys) (i revision : ℕ) : Inv { sys with
      state := sys.state.releaseWriter config revision
      slots := sys.slots.set i .gone } := by
  obtain ⟨hdata, hrevision⟩ := pruneHistory_data config
    { sys.state with writers := sys.state.writers.erase revision }
  exact ⟨hrevision.trans h.revision, hdata.trans h.data, h.evidence.releaseWriter revision,
    valid_set h.slots trivial⟩

lemma inv_stepRelease (h : Inv sys) (i : ℕ) : Inv (stepRelease config sys i).2 := by
  cases hslot : sys.slots[i]? with
  | none =>
    rw [stepRelease, hslot]
    exact h
  | some slot =>
    rw [stepRelease, hslot]
    cases slot with
    | reader data => exact ⟨h.revision, h.data, h.evidence, valid_set h.slots trivial⟩
    | writer session => exact inv_release h i session.txn.revision
    | ended revision => exact inv_release h i revision
    | gone => exact h

lemma staged_begin (s : State) (snapshot : Store) (hsnapshot : snapshot = s.data) :
    Staged (beginWrite s).2 snapshot [] where
  ordered := ⟨nofun, List.Pairwise.nil⟩
  pending _ := rfl
  view key := by rw [hsnapshot]; rfl

lemma valid_append {slots : List Slot} (h : ∀ s ∈ slots, s.Valid log) (hslot : slot.Valid log) :
    ∀ s ∈ slots ++ [slot], s.Valid log := by
  intro s hs
  rcases mem_append.mp hs with hs | hs
  · exact h s hs
  · obtain rfl := mem_singleton.mp hs
    exact hslot

lemma inv_step (h : Inv sys) (action : Action) : Inv (step config sys action).2 := by
  have htake : replay (sys.log.take sys.state.revision) = sys.state.data := by
    rw [h.revision, List.take_length, h.data]
  cases action with
  | beginRead fault =>
    cases fault with
    | some e => exact h
    | none =>
      exact ⟨h.revision, h.data, h.evidence, valid_append h.slots ⟨h.revision.le, htake.symm⟩⟩
  | beginWrite fault =>
    cases fault with
    | some e => exact h
    | none =>
      exact ⟨h.revision, h.data, h.evidence.congr rfl rfl rfl, valid_append h.slots
        ⟨h.revision.le, staged_begin sys.state _ htake, subset_rfl⟩⟩
  | call i c fault =>
    cases fault with
    | some e => exact h
    | none => exact inv_stepCall h i c
  | commit i claimed fault => exact inv_stepCommit h i claimed fault
  | release i => exact inv_stepRelease h i

end

lemma inv_run (config : Config) (actions : List Action) : Inv (run config actions) := by
  have hrun : ∀ sys, Inv sys →
    Inv (actions.foldl (fun sys action => (step config sys action).2) sys) := by
    induction actions with
    | nil => exact fun _ h => h
    | cons action _ ih => exact fun _ h => ih _ (inv_step h action)
  exact hrun _ inv_new

/-! ### Main result -/

lemma step_cases {config : Config} {sys : System} (action : Action) :
    ((step config sys action).2.log = sys.log ∧
      (step config sys action).2.state.data = sys.state.data) ∨
    ∃ i claimed fault session, action = .commit i claimed fault ∧
      sys.slots[i]? = some (.writer session) ∧ sys.state.conflict session.txn = false ∧
      (step config sys action).2.log = sys.log ++ [session.staged] := by
  cases action with
  | beginRead fault | beginWrite fault => cases fault <;> exact .inl ⟨rfl, rfl⟩
  | call i c fault =>
    refine .inl ?_
    cases fault with
    | some e => exact ⟨rfl, rfl⟩
    | none =>
      rw [step, stepCall]
      split <;> exact ⟨rfl, rfl⟩
  | commit i claimed fault =>
    cases hslot : sys.slots[i]? with
    | none =>
      rw [step, stepCommit, hslot]
      exact .inl ⟨rfl, rfl⟩
    | some slot =>
      cases slot with
      | writer session =>
        rcases @stepCommit_cases config sys i session claimed fault hslot with
          ⟨_, hstep⟩ | ⟨hconflict, hstep, _⟩
        · rw [step, hstep]
          exact .inl ⟨rfl, rfl⟩
        · rw [step, hstep]
          exact .inr ⟨i, claimed, fault, session, rfl, hslot, hconflict, rfl⟩
      | _ =>
        rw [step, stepCommit, hslot]
        exact .inl ⟨rfl, rfl⟩
  | release i =>
    refine .inl ?_
    have hrelease (revision : ℕ) :
        (sys.state.releaseWriter config revision).data = sys.state.data :=
      (pruneHistory_data config { sys.state with writers := sys.state.writers.erase _ }).1
    rw [step, stepRelease]
    split
    · exact ⟨rfl, rfl⟩
    · exact ⟨rfl, hrelease _⟩
    · exact ⟨rfl, hrelease _⟩
    · exact ⟨rfl, rfl⟩

lemma commit_error_log {config : Config} {e : Error}
    (h : (step config sys (.commit i claimed fault)).1 = .error e)
    (he : e.kind ≠ .commitOutcomeUnknown) :
    (step config sys (.commit i claimed fault)).2.log = sys.log := by
  rw [step] at h ⊢
  cases hslot : sys.slots[i]? with
  | none => rw [stepCommit, hslot]
  | some slot =>
    cases slot with
    | writer session =>
      rcases @stepCommit_cases config sys i session claimed fault hslot with
        ⟨_, hstep⟩ | ⟨_, _, hok | hunknown⟩
      · rw [hstep]
      · rw [hok] at h
        cases h
      · rw [hunknown] at h
        cases h
        exact absurd rfl he
    | _ => rw [stepCommit, hslot]

lemma commit_ok_log {config : Config}
    (h : (step config sys (.commit i claimed fault)).1 = .ok .done) :
    (step config sys (.commit i claimed fault)).2.log ≠ sys.log := by
  rw [step] at h ⊢
  cases hslot : sys.slots[i]? with
  | none =>
    rw [stepCommit, hslot] at h
    cases h
  | some slot =>
    cases slot with
    | writer session =>
      rcases @stepCommit_cases config sys i session claimed fault hslot with
        ⟨⟨e, herror⟩, _⟩ | ⟨_, hstep, _⟩
      · rw [herror] at h
        cases h
      · rw [hstep]
        simp
    | _ =>
      rw [stepCommit, hslot] at h
      cases h

/-- The in-memory backend is serializable on protected keys, along every run and
whatever its history has dropped. -/
theorem memory_serializable (config : Config) (actions : List Action) (action : Action) :
    let sys := run config actions
    let result := (step config sys action).1
    let sys' := (step config sys action).2
    sys.state.data = replay sys.log ∧ sys.state.revision = sys.log.length ∧
    ((sys'.log = sys.log ∧ sys'.state.data = sys.state.data) ∨
      ∃ i claimed fault session, action = .commit i claimed fault ∧
        sys.slots[i]? = some (.writer session) ∧ sys'.log = sys.log ++ [session.staged] ∧
        ∀ key ∈ session.promised, ∀ n ops, session.txn.revision ≤ n → sys.log[n]? = some ops →
          ∀ op ∈ ops, ¬ op.Touches key) ∧
    (∀ i claimed fault, action = .commit i claimed fault →
      (result = .ok .done → sys'.log ≠ sys.log) ∧
      ∀ e, result = .error e → e.kind ≠ .commitOutcomeUnknown → sys'.log = sys.log) ∧
    (∀ i c output, action = .call i c none → result = .ok output →
      (∀ data begun, sys.slots[i]? = some (.reader data begun) →
        Answers (replay (sys.log.take begun)) [] c output) ∧
      ∀ session, sys.slots[i]? = some (.writer session) →
        Answers (replay (sys.log.take session.txn.revision)) session.staged c output) ∧
    ∀ i c fault e session, action = .call i c fault → result = .error e →
      sys.slots[i]? = some (.writer session) → ∃ session',
        sys'.slots[i]? = some (.writer session') ∧
        session'.staged = session.staged ∧ session'.txn.view = session.txn.view ∧
        session'.txn.writes = session.txn.writes ∧ session'.txn.clears = session.txn.clears := by
  intro sys _ sys'
  have hinv : Inv sys := inv_run config actions
  refine ⟨hinv.data, hinv.revision, ?_, ?_, ?_, ?_⟩
  · rcases @step_cases config sys action with h | ⟨i, claimed, fault, session, hact,
      hslot, hconf, hlog⟩
    · exact .inl h
    · refine .inr ⟨i, claimed, fault, session, hact, hslot, hlog, ?_⟩
      intro _ hkey n _ hn hops
      have hreserved := (valid_getElem? hinv hslot).2.2 hkey
      exact not_conflict hinv.evidence hconf hreserved hn hops
  · rintro i _ fault rfl
    exact ⟨commit_ok_log, fun e herror hkind => commit_error_log herror hkind⟩
  · rintro i c output rfl hok
    have hcall : (stepCall config sys i c).1 = .ok output := hok
    constructor
    · intro _ _ hslot
      rw [stepCall_reader c hslot] at hcall
      rw [(valid_getElem? hinv hslot).2] at hcall
      exact readCall_answers hcall
    · intro session hslot
      rw [stepCall_writer c hslot] at hcall
      exact ((call_spec (valid_getElem? hinv hslot).2.1 c).ok output hcall).2.2
  · rintro i c fault e session rfl herror hslot
    cases fault with
    | some _ => exact ⟨session, hslot, rfl, rfl, rfl, rfl⟩
    | none =>
      have hcall : (stepCall config sys i c).1 = .error e := herror
      have hlt : i < sys.slots.length := (getElem?_eq_some_iff.mp hslot).1
      have hset : sys'.slots[i]? = some (.writer (session.after c (session.txn.call config c).1
          (session.txn.call config c).2)) := by
        change (stepCall config sys i c).2.slots[i]? = _
        rw [stepCall_writer c hslot]
        exact List.getElem?_set_self hlt
      rw [stepCall_writer c hslot] at hcall
      obtain ⟨hview, hwrites, hclears⟩ :=
        (call_spec (valid_getElem? hinv hslot).2.1 c).error e hcall
      rw [hcall] at hset
      exact ⟨_, hset, rfl, hview, hwrites, hclears⟩

/-- A writer reads back its own write, and its commit is in the log. -/
theorem memory_serializable_read_back :
    let config : Config :=
      ⟨8, 8, 8, 64, 8, 64, false, none, none, none, none, none, none, none, none⟩
    let sys := run config [.beginWrite none, .call 0 (.put [1] [2]) none]
    some [2] = seen (replay []) [.write [1] (some [2])] [1] ∧
      (step config sys (.commit 0 true .normal)).2.log ≠ sys.log := by
  intro config sys
  have hspec := memory_serializable config [.beginWrite none, .call 0 (.put [1] [2]) none]
  refine ⟨?_, ?_⟩
  · exact ((hspec (.call 0 (.get [1]) none)).2.2.2.2.1 0 (.get [1]) (.value (some [2])) rfl rfl).2
      _ rfl
  · exact ((hspec (.commit 0 true .normal)).2.2.2.1 0 true .normal rfl).1 rfl

end Memory
