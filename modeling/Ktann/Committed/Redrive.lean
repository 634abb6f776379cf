/-
Re-driving a committed step.

After a commit whose outcome is unknown a worker runs the same step again.  Every
step leaves the values it reads first in a state that a second run recognises: it
returns the outcome of a step already done, and stages no write.

* `Redriven` — what that means for one step;
* `runs_finalizeSplit_source`, `MergeFinished.source_gone` — what a completed step leaves of
  its source;
* `reads_readLeafDrainCandidates` — a drained batch is found gone;
* `run_redriven` — every step, along every run.
-/
import Ktann.Committed.Guarantees

open TxnM WriteTxn

section

variable {ix : Index} {build : GraphBuilder} {history : List Store} {S C : Store} {t : TreeKey}
  {p : PartitionKey} {s s' : Txn ValueOf}

/-- A step `m`, run again on the store a completed run of it left, writes nothing and
returns what `again` says; a run that completes nothing writes nothing either. -/
structure Redriven {α : Type} (history : List Store) (m : WriteTxn α)
    (again : Store → α → Option α) : Prop where
  completed : ∀ a b S', Commits m a history S' → again S' a = some b →
    ∃ s, m.run (Txn.start S') = .ok (b, s) ∧ s.writes = []
  idle : ∀ a (S : Store) s, m.run (Txn.start S) = .ok (a, s) → again (s.onto S) a = none →
    s.writes = []

/-- The two obligations at once: a run writes nothing and completes nothing, or its
store is read again with the answer. -/
lemma Redriven.of_runs {α : Type} {m : WriteTxn α} {again : Store → α → Option α}
    (h : ∀ {C snapshot : Store} {s a}, Runs C m (Txn.start snapshot) a s →
      ((Txn.start snapshot).SameWrites s ∧ again (s.onto C) a = none) ∨
        ∃ b, again (s.onto C) a = some b ∧ (C ∈ history → Reads (s.onto C) m b)) :
    Redriven history m again where
  completed a b S' hcommits hagain := by
    obtain ⟨snapshot, -, C, s, hC, hrun, rfl⟩ := hcommits.runs
    obtain ⟨-, hnone⟩ | ⟨_, hb, hreads⟩ := h hrun
    · cases hnone.symm.trans hagain
    · cases hb.symm.trans hagain
      exact (hreads (mem_of_mem_head? hC)).run
  idle a S s hrun hagain := by
    have hagrees : s.Agrees S := fun k _ => by rw [(m.run_extends hrun).snapshot]; rfl
    obtain ⟨hsame, -⟩ | ⟨b, hb, -⟩ := h ⟨hrun, hagrees⟩
    · exact hsame.writes
    · cases hb.symm.trans hagain

/-! ### What a step reads first -/

lemma reads_authorityPair {o : Option (PartitionHeader × PartitionTransition)}
    (h : readAuthorityPair S t p = .ok o) : Reads S (authorityPair t p) o :=
  (reads_getForUpdate _).bind ((reads_getForUpdate _).bind (reads_ofExcept h))

variable {h : PartitionHeader} {n : ℕ} {known : Option PartitionKey} {removal : SourceRemoval}
  {moves : List (LeafDrainEntry × PartitionKey)} {source : PartitionKey}
  {candidates : List (PartitionKey × RecordId)} {ids : List RecordId} {targets : SplitPair}
  {state : PartitionTransition} {slots : List (Option LeafDrainEntry)} {a b : VectorData}
  {balance : SplitBalance}

lemma reads_authorityPair_some (hheader : S.header t p = some h)
    (hstate : S.state t p = some state) (hagree : h.state = state.state) :
    Reads S (authorityPair t p) (some (h, state)) :=
  reads_authorityPair (by simp [readAuthorityPair, hheader, hstate, classifyAuthority, hagree])

lemma reads_restate (hagree : (h.withState state.state).state = state.state) :
    Reads (S.restate t p h state) (authorityPair t p) (some (h.withState state.state, state)) :=
  reads_authorityPair_some (by simp [restate]) (by simp [restate]) hagree

lemma reads_authorityPair_none (hheader : S.header t p = none) (hstate : S.state t p = none) :
    Reads S (authorityPair t p) none :=
  reads_authorityPair (by simp [readAuthorityPair, hheader, hstate, classifyAuthority])

lemma reads_get {k : LogicalKey} {o : Option k.ValueOf} (h : S.lookup k = o) :
    Reads S (WriteTxn.getForUpdate k) o := h ▸ reads_getForUpdate k

lemma reads_requireForUpdate {k : LogicalKey} {v : k.ValueOf} (h : S.lookup k = some v) :
    Reads S (requireForUpdate k) v := (reads_get h).bind (reads_pure v)

/-! ### Starts -/

def SplitStart.again : Store → SplitStart → Option SplitStart
  | _, started targets => some (.alreadySplitting targets)
  | _, _ => none

lemma redriven_beginSplit : Redriven history (beginSplit ix t p n) SplitStart.again := by
  refine .of_runs fun {C _ s a} hrun => ?_
  rcases runs_beginSplit hrun with ⟨hsame, hne⟩ |
    ⟨targets, h, m, m', began, rfl, -, -, -, -, -, -, -, hstore⟩
  · cases a with
    | started targets => exact absurd rfl (hne targets)
    | _ => exact .inl ⟨hsame, rfl⟩
  · refine .inr ⟨_, rfl, fun _ => ?_⟩
    rw [hstore]
    exact (reads_restate (by rfl)).bind (reads_pure _)

def MergeStart.again : Store → MergeStart → Option MergeStart
  | _, started => some .alreadyMerging
  | _, _ => none

lemma redriven_beginMerge : Redriven history (beginMerge ix t p n) MergeStart.again := by
  refine .of_runs fun {C _ s a} hrun => ?_
  rcases runs_beginMerge hrun with ⟨hsame, hne⟩ | ⟨rfl, -, h, hstore⟩
  · cases a with
    | started => exact absurd rfl hne
    | _ => exact .inl ⟨hsame, rfl⟩
  · refine .inr ⟨_, rfl, fun _ => ?_⟩
    rw [hstore]
    exact (reads_restate (by rfl)).bind (reads_pure _)

/-! ### Exposures -/

def SplitExposure.again : Store → SplitExposure → Option SplitExposure
  | _, exposed => some .alreadyExposed
  | _, _ => none

lemma redriven_exposeSplitTargets {left right : PartitionKey} :
    Redriven history (exposeSplitTargets ix t p left a right b n known) SplitExposure.again := by
  refine .of_runs fun {C _ s o} hrun => ?_
  rcases runs_exposeSplitTargets hrun with ⟨hsame, hne⟩ | ⟨rfl, _, htargets, hexposed⟩
  · cases o with
    | exposed => exact absurd rfl hne
    | _ => exact .inl ⟨hsame, rfl⟩
  · refine .inr ⟨_, rfl, fun _ => ?_⟩
    obtain ⟨B, h, hstore⟩ := hexposed.restated
    rw [hstore]
    exact (reads_restate (by rfl)).bind ((reads_ensure htargets).bind (reads_pure _))

/-! ### Completions -/

lemma runs_removeSourcePrefix_gone {u : Unit}
    (hrun : Runs C (removeSourcePrefix t p removal) s u s') :
    Store.header (s'.onto C) t p = none ∧ Store.state (s'.onto C) t p = none := by
  cases removal with
  | transactionalClear =>
    obtain ⟨rfl, -⟩ := runs_clearRange.mp hrun
    simp [Write.apply, LogicalKey.partitionRange]
  | pointDeletes =>
    simp only [removeSourcePrefix, runs_bind, runs_delete] at hrun
    obtain ⟨-, _, ⟨rfl, -⟩, -, _, ⟨rfl, -⟩, -, _, ⟨rfl, -⟩, rfl, -⟩ := hrun
    simp [Write.apply]

/-- What a completed split leaves of its source: nothing, or a promoted root. -/
lemma runs_finalizeSplit_source {outcome : SplitCompletion}
    (hrun : Runs C (finalizeSplit t p n removal known) s outcome s') :
    (s.SameWrites s' ∧ ∀ parent, outcome ≠ .completed parent) ∨
      ((∃ parent, outcome = .completed parent) ∧
        ((Store.header (s'.onto C) t p = none ∧ Store.state (s'.onto C) t p = none) ∨
          ∃ h, Store.header (s'.onto C) t p = some h ∧ h.state = .ready ∧
            Store.state (s'.onto C) t p = some (.ready n))) := by
  rw [finalizeSplit, runs_bind] at hrun
  obtain ⟨authority, s₁, hauth, hrun⟩ := hrun
  obtain ⟨hsame, -, -⟩ := runs_authorityPair hauth
  have hidle {o : SplitCompletion}
    (hpure : Runs C (pure o : WriteTxn SplitCompletion) s₁ outcome s')
      (ho : ∀ parent, o ≠ .completed parent) :
      s.SameWrites s' ∧ ∀ parent, outcome ≠ .completed parent := by
    obtain ⟨rfl, rfl, -⟩ := runs_pure.mp hpure
    exact ⟨hsame, ho⟩
  rcases authority with _ | ⟨h, state⟩
  · obtain ⟨rfl, rfl, -⟩ := runs_pure.mp hrun
    refine .inr ⟨⟨none, rfl⟩, .inl ?_⟩
    rw [hsame.onto_eq C]
    exact runs_authorityPair_none hauth
  cases state with
  | drainingSplit =>
    simp only [runs_ite, runs_bind] at hrun
    rcases hrun with ⟨-, hrun⟩ | ⟨-, _, _, -, _, _, -, _, _, -, _, _, -, _, _, -, _, _, -, hrun⟩
    · exact .inl (hidle hrun (by simp))
    rcases hrun with ⟨rfl, _, _, hroot, hrun⟩ | ⟨-, parent, _, -, _, _, hremove, hrun⟩
    · obtain ⟨rfl, rfl, -⟩ := runs_pure.mp hrun
      obtain ⟨a, b, h', -, -, -, hready, -, -, hstore⟩ := runs_promoteRoot hroot
      refine .inr ⟨⟨none, rfl⟩, .inr ⟨h', ?_, hready, ?_⟩⟩
      · rw [hstore]
        simp [Store.promoteRoot]
      · rw [hstore]
        simp [Store.promoteRoot]
    · obtain ⟨rfl, rfl, -⟩ := runs_pure.mp hrun
      exact .inr ⟨⟨some parent, rfl⟩, .inl (runs_removeSourcePrefix_gone hremove)⟩
  | _ => exact .inl (hidle hrun (by simp))

/-- A completed split is found completed, or at a promoted root not draining any
more. -/
def SplitCompletion.again (t : TreeKey) (p : PartitionKey) (S : Store) :
    SplitCompletion → Option SplitCompletion
  | completed _ => some (if S.header t p = none then .completed none else .notDraining)
  | _ => none

lemma redriven_finalizeSplit :
    Redriven history (finalizeSplit t p n removal known) (SplitCompletion.again t p) := by
  refine .of_runs fun {C _ s o} hrun => ?_
  rcases runs_finalizeSplit_source hrun with ⟨hsame, hne⟩ |
    ⟨⟨parent, rfl⟩, ⟨hheader, hstate⟩ | ⟨h, hheader, hready, hstate⟩⟩
  · cases o with
    | completed parent => exact absurd rfl (hne parent)
    | _ => exact .inl ⟨hsame, rfl⟩
  · refine .inr ⟨.completed none, by simp [SplitCompletion.again, hheader], fun _ => ?_⟩
    exact (reads_authorityPair_none hheader hstate).bind (reads_pure _)
  · refine .inr ⟨.notDraining, by simp [SplitCompletion.again, hheader], fun _ => ?_⟩
    exact (reads_authorityPair_some hheader hstate hready).bind (reads_pure _)

lemma MergeFinished.source_gone (hfinished : MergeFinished t p removal known S S') :
    S'.header t p = none ∧ S'.state t p = none := by
  obtain ⟨-, -, -, -, -, -, -, -⟩ := hfinished
  cases removal with
  | transactionalClear => simp [removeSource, LogicalKey.partitionRange]
  | pointDeletes => simp [removeSource, removePartition]

def MergeCompletion.again : Store → MergeCompletion → Option MergeCompletion
  | _, completed => some .completed
  | _, _ => none

lemma redriven_finalizeMerge :
    Redriven history (finalizeMerge t p removal known) MergeCompletion.again := by
  refine .of_runs fun {C _ s o} hrun => ?_
  have hgone (hsource : Store.header (s.onto C) t p = none ∧ Store.state (s.onto C) t p = none) :
      Reads (s.onto C) (finalizeMerge t p removal known) .completed :=
    (reads_authorityPair_none hsource.1 hsource.2).bind (reads_pure _)
  rcases runs_finalizeMerge hrun with ⟨hsame, hidle⟩ | ⟨rfl, hfinished⟩
  · cases o with
    | completed => exact .inr ⟨_, rfl, fun _ => hgone (hsame.onto_eq C ▸ hidle rfl)⟩
    | _ => exact .inl ⟨hsame, rfl⟩
  · exact .inr ⟨_, rfl, fun _ => hgone hfinished.source_gone⟩

/-! ### Drain batches -/

/-- What a batch of leaf moves leaves of the source: its State, and no moved entry. -/
structure Emptied (t : TreeKey) (source : PartitionKey) (ids : List RecordId) (S S' : Store) :
    Prop where
  state : ∀ q, S'.state t q = S.state t q
  centroid : ∀ q, S'.centroid t q = S.centroid t q
  header : ∀ q h, S.header t q = some h → ∃ h', S'.header t q = some h' ∧ h'.state = h.state
  gone : ∀ id, S.leafEntry t source id = none ∨ id ∈ ids → S'.leafEntry t source id = none

lemma runs_moveLeafEntries {u : Unit} :
    ∀ {s : Txn ValueOf}, Runs C (moveLeafEntries t moves) s u s' →
      s'.onto C = moves.foldl (fun B m => moveEntry B t m) (s.onto C) := by
  induction moves with
  | nil =>
    intro s hrun
    obtain ⟨-, rfl, -⟩ := runs_pure.mp hrun
    rfl
  | cons m _ ih =>
    intro s hrun
    obtain ⟨_, _⟩ := m
    simp only [moveLeafEntries, runs_bind, runs_insertUnique, runs_delete, runs_put] at hrun
    obtain ⟨-, _, ⟨-, rfl, -⟩, -, _, ⟨rfl, -⟩, -, _, ⟨rfl, -⟩, hrun⟩ := hrun
    rw [ih hrun, foldl_cons]
    simp [moveEntry, Write.apply]

lemma emptied_moveEntries : ∀ {B : Store}, (∀ m ∈ moves, m.1.source = source ∧ m.1.source ≠ m.2) →
      Emptied t source (moves.map fun m => m.1.entry.recordId) B
        (moves.foldl (fun B m => moveEntry B t m) B) := by
  induction moves with
  | nil => exact fun _ => ⟨fun _ => rfl, fun _ => rfl, fun q h hh => ⟨h, hh, rfl⟩, by simp⟩
  | cons m _ ih =>
    intro B hmoves
    obtain ⟨drain, target⟩ := m
    obtain ⟨hsource, hne⟩ := hmoves _ mem_cons_self
    obtain ⟨hstate, hcentroid, hheader, hgone⟩ :=
      ih (B := moveEntry B t (drain, target)) fun m hm => hmoves m (mem_cons_of_mem _ hm)
    simp only at hsource hne
    refine ⟨fun q => ?_, fun q => ?_, fun q h hh => ?_, fun id hid => ?_⟩
    · rw [foldl_cons, hstate]
      simp [moveEntry]
    · rw [foldl_cons, hcentroid]
      simp [moveEntry]
    · rw [foldl_cons]
      exact hheader q h (by simpa [moveEntry] using hh)
    · rw [foldl_cons]
      refine hgone id ?_
      rw [map_cons, mem_cons] at hid
      simp only [moveEntry, Store.leafEntry_put, Store.leafEntry_erase]
      have hne' : source ≠ target := hsource ▸ hne
      grind

lemma foldLeafMoves_states {H' : HeaderMap} {Y' : SynopsisMap} :
    ∀ {H : HeaderMap} {Y : SynopsisMap}, foldLeafMoves ix moves (H, Y) = .ok (H', Y') →
      ∀ q, (H'.lookup q).map PartitionHeader.state = (H.lookup q).map PartitionHeader.state := by
  induction moves with
  | nil =>
    intro H Y hfold q
    cases hfold
    rfl
  | cons m _ ih =>
    intro H Y hfold q
    obtain ⟨drain, target⟩ := m
    simp only [foldLeafMoves, bind_eq_ok] at hfold
    obtain ⟨k, hk, _, hremoved, h, hh, _, hadded, _, -, _, -, hfold⟩ := hfold
    have hk' := elim_eq_ok hk
    have hh' := elim_eq_ok hh
    have hremoved' := (removedEntry_ok hremoved).1.state
    have hadded' := (addedEntry_ok hadded).1.state
    rw [ih hfold q]
    by_cases hqt : q = target
    · subst hqt
      rw [lookup_put_self, map_some, hadded', ← map_some, ← hh']
      by_cases hqs : q = drain.source
      · subst hqs
        rw [lookup_put_self, hk', map_some, map_some, hremoved']
      · rw [lookup_put_ne _ _ hqs]
    · rw [lookup_put_ne _ _ hqt]
      by_cases hqs : q = drain.source
      · subst hqs
        rw [lookup_put_self, hk', map_some, map_some, hremoved']
      · rw [lookup_put_ne _ _ hqs]

lemma emptied_relocateLeafEntries {movement : Movement}
    (hsource : ∀ m ∈ moves, m.1.source = source)
    (hrun : Runs C (relocateLeafEntries ix t moves movement) s n s') :
    Emptied t source (moves.map fun m => m.1.entry.recordId) (s.onto C) (s'.onto C) ∧
      Drained t source (s.onto C) (s'.onto C) n := by
  refine ⟨?_, drained_relocateLeafEntries hrun hsource⟩
  obtain ⟨rfl, ⟨rfl, rfl⟩ | ⟨-, ⟨batch⟩⟩⟩ := runs_relocateLeafEntries hrun
  · exact ⟨fun _ => rfl, fun _ => rfl, fun q h hh => ⟨h, hh, rfl⟩, by simp⟩
  have hmoved : Emptied t source (moves.map fun m => m.1.entry.recordId) (s.onto C)
      (batch.moved.onto C) := by
    rw [runs_moveLeafEntries batch.run, batch.sameWrites.onto_eq C]
    exact emptied_moveEntries fun m hm => ⟨hsource m hm, batch.ne m hm⟩
  have hkey {k : LogicalKey} (hheader : ∀ q, k ≠ .header t q) (hsynopsis : ∀ q, k ≠ .synopsis t q) :
      (s'.onto C).lookup k = (batch.moved.onto C).lookup k := by
    rw [batch.written]
    exact lookup_gathered hheader hsynopsis
  refine ⟨fun q => ?_, fun q => ?_, fun q h hh => ?_, fun id hid => ?_⟩
  · exact (hkey (by simp) (by simp)).trans (hmoved.state q)
  · exact (hkey (by simp) (by simp)).trans (hmoved.centroid q)
  · -- A gathered Header was read from the store, and keeps its state.
    rw [batch.written, header_gathered]
    have hstates := foldLeafMoves_states batch.folded q
    cases hafter : batch.after.1.lookup q with
    | none =>
      obtain ⟨h', hh', hstate⟩ := hmoved.header q h hh
      exact ⟨h', hh', hstate⟩
    | some h' =>
      rw [hafter, map_some, eq_comm, map_eq_some_iff] at hstates
      obtain ⟨k, hk, hkstate⟩ := hstates
      obtain ⟨hstored, -⟩ := batch.header q k hk
      rw [hh, Option.some.injEq] at hstored
      exact ⟨h', rfl, by rw [hstored, hkstate]⟩
  · exact (hkey (by simp) (by simp)).trans (hmoved.gone id hid)

lemma readDrainLocations_length {entries : List (Option LeafEntry)} :
    ∀ {locations : List (Option RecordLocation)} {s : Txn ValueOf},
      Runs C (readDrainLocations entries) s locations s' → locations.length = entries.length := by
  induction entries with
  | nil =>
    intro locations s hrun
    obtain ⟨rfl, -, -⟩ := runs_pure.mp hrun
    rfl
  | cons o _ ih =>
    intro _ s hrun
    cases o with
    | none =>
      simp only [readDrainLocations, runs_bind, runs_pure] at hrun
      obtain ⟨_, _, hrest, rfl, rfl, -⟩ := hrun
      simp [ih hrest]
    | some e =>
      simp only [readDrainLocations, runs_bind, runs_pure] at hrun
      obtain ⟨_, _, -, _, _, hrest, rfl, rfl, -⟩ := hrun
      simp [ih hrest]

lemma runs_readLeafDrainCandidates_all
    (hrun : Runs C (readLeafDrainCandidates t candidates) s slots s') :
    ∀ c ∈ candidates, Store.leafEntry (s.onto C) t c.1 c.2 = none ∨
      c.2 ∈ (slots.filterMap id).map fun d => d.entry.recordId := by
  simp only [readLeafDrainCandidates, runs_bind, runs_read] at hrun
  obtain ⟨entries, _, hentries, locations, s₂, hlocations, hslots, -, -⟩ := hrun
  have hlength : locations.length = entries.length := readDrainLocations_length hlocations
  have hall := (runs_readDrainEntries hentries).2
  generalize s.onto C = B at hall
  generalize s₂.view = V at hslots
  clear hentries hlocations
  induction candidates generalizing entries locations slots with
  | nil => exact fun c hc => by cases hc
  | cons c _ ih =>
    obtain ⟨o, _, ho, hrest, rfl⟩ := List.forall₂_cons_left_iff.mp hall
    cases locations with
    | nil => cases hlength
    | cons =>
      simp only [drainSlots, bind_eq_ok] at hslots
      obtain ⟨slot, hslot, _, hslots, hok⟩ := hslots
      cases hok
      have hih := ih _ _ (by simpa using hlength) hrest hslots
      intro c' hc'
      rcases mem_cons.mp hc' with rfl | hc'
      · cases o with
        | none => exact .inl ho.1
        | some e =>
          right
          simp only [drainSlot] at hslot
          split_ifs at hslot
          split at hslot
          · split_ifs at hslot
            cases hslot
            simp [ho.2 e rfl]
          · cases hslot
      · refine (hih c' hc').imp_right fun hmem => ?_
        cases slot with
        | none => exact hmem
        | some d => exact mem_cons_of_mem _ hmem

lemma reads_readDrainLocations_none : ∀ candidates : List (PartitionKey × RecordId),
    Reads S (readDrainLocations (candidates.map fun _ => none)) (candidates.map fun _ => none)
  | [] => reads_pure _
  | _ :: candidates => (reads_readDrainLocations_none candidates).bind (reads_pure _)

lemma drainSlots_none : ∀ candidates : List (PartitionKey × RecordId),
    drainSlots S t candidates (candidates.map fun _ => none) (candidates.map fun _ => none) =
      .ok (candidates.map fun _ => none)
  | [] => rfl
  | (q, id) :: candidates => by
    simp only [map_cons, drainSlots, drainSlots_none candidates]
    rfl

lemma reads_readLeafDrainCandidates (hgone : ∀ c ∈ candidates, S.leafEntry t c.1 c.2 = none) :
    Reads S (readLeafDrainCandidates t candidates) (candidates.map fun _ => none) := by
  have hentries : Reads S (readDrainEntries t candidates) (candidates.map fun _ => none) := by
    induction candidates with
    | nil => exact reads_pure _
    | cons c candidates ih =>
      obtain ⟨q, id⟩ := c
      have hget : Reads S (getLeafEntry t q id) none :=
        hgone (q, id) mem_cons_self ▸ reads_getForUpdate _
      exact hget.bind ((reads_ensure (by simp)).bind
        ((ih fun c hc => hgone c (mem_cons_of_mem _ hc)).bind (reads_pure _)))
  exact hentries.bind ((reads_readDrainLocations_none candidates).bind
    (reads_read (drainSlots_none candidates)))

/-- A drained batch moves nothing again. -/
def DrainStep.again : Store → DrainStep → Option DrainStep
  | _, drained _ remaining => some (.drained 0 remaining)
  | _, sourceAdvanced => none

lemma reads_goneCandidates (hgone : ∀ id ∈ ids, S.leafEntry t source id = none) :
    Reads S (readLeafDrainCandidates t (ids.map fun id => (source, id)))
      ((ids.map fun id => (source, id)).map fun _ => none) :=
  reads_readLeafDrainCandidates (by simpa using hgone)

lemma filterMap_goneCandidates (source : PartitionKey) (ids : List RecordId) :
    ((ids.map fun id => (source, id)).map fun _ =>
      (none : Option LeafDrainEntry)).filterMap id = [] := by
  simp

lemma reads_drainToTargets (hgone : ∀ id ∈ ids, S.leafEntry t source id = none) :
    Reads S (drainToTargets ix t source targets a b balance (.leaf ids)) 0 := by
  refine (reads_goneCandidates hgone).bind ?_
  rw [filterMap_goneCandidates]
  exact (reads_ofExcept rfl).bind (reads_pure _)

lemma reads_drainToReady {level : ℕ} {candidates : List LevelCandidate}
    (hgone : ∀ id ∈ ids, S.leafEntry t source id = none) :
    Reads S (drainToReady ix t source level candidates (.leaf ids)) (some 0) := by
  refine (reads_goneCandidates hgone).bind ?_
  rw [filterMap_goneCandidates]
  exact (reads_ofExcept rfl).bind ((reads_pure true).bind ((reads_pure 0).bind (reads_pure _)))

lemma reads_drainedStep :
    Reads S (TxnM.ofExcept (drainedStep h 0) : WriteTxn DrainStep) (.drained 0 h.entryCount) :=
  reads_ofExcept (by simp [drainedStep])

lemma emptied_verified {movement : Movement} {s₁ s₂ : Txn ValueOf}
    (hslots : Runs C (readLeafDrainCandidates t (ids.map fun id => (source, id))) s slots s₁)
    (hsame : s₁.SameWrites s₂) (hfst : moves.map Prod.fst = slots.filterMap id)
    (hrun : Runs C (relocateLeafEntries ix t moves movement) s₂ n s') :
    Emptied t source ids (s.onto C) (s'.onto C) ∧ Drained t source (s.onto C) (s'.onto C) n := by
  have hall := runs_readLeafDrainCandidates_all hslots
  obtain ⟨hsame₁, hverified⟩ := runs_readLeafDrainCandidates hslots
  have hsource : ∀ m ∈ moves, m.1.source = source := by
    intro m hm
    have hmem : m.1 ∈ slots.filterMap id := hfst ▸ mem_map.mpr ⟨m, hm, rfl⟩
    obtain ⟨c, hc, hsource⟩ := mem_map.mp (hverified.stored m.1 hmem).2
    obtain ⟨id, -, rfl⟩ := mem_map.mp hc
    exact hsource.symm
  have hids : (moves.map fun m => m.1.entry.recordId) =
      (slots.filterMap id).map fun d => d.entry.recordId := by
    rw [← hfst, map_map]
    rfl
  obtain ⟨hemptied, hdrained⟩ := emptied_relocateLeafEntries hsource hrun
  rw [(hsame₁.trans hsame).onto_eq C] at hemptied hdrained
  refine ⟨⟨hemptied.state, hemptied.centroid, hemptied.header, fun id hid => ?_⟩, hdrained⟩
  refine hemptied.gone id ?_
  rcases hid with hnone | hid
  · exact .inl hnone
  · rw [hids]
    exact hall (source, id) (mem_map.mpr ⟨id, hid, rfl⟩)

/-- What a completed split drain of leaf entries leaves. -/
lemma emptied_drainToTargets
    (hrun : Runs C (drainToTargets ix t source targets a b balance (.leaf ids)) s n s') :
    Emptied t source ids (s.onto C) (s'.onto C) ∧ Drained t source (s.onto C) (s'.onto C) n := by
  simp only [drainToTargets, runs_bind, runs_ofExcept] at hrun
  obtain ⟨_, _, hslots, _, _, ⟨hmoves, rfl, -⟩, hrelocate⟩ := hrun
  exact emptied_verified hslots (.refl _) (chooseTargets_fst hmoves) hrelocate

lemma redriven_splitDrainAttempt (hh : Consistent ix history) :
    Redriven history (splitDrainAttempt ix t source targets (.leaf ids)) DrainStep.again := by
  refine .of_runs fun {C _ s step} hrun => ?_
  rcases runs_splitDrainAttempt hrun with ⟨hsame, rfl⟩ | ⟨moved, h, pair, began, left,
    right, _, _, _,
    rfl, hheader, hstate, hpair, hdraining, hleft, hright, hdrain⟩
  · exact .inl ⟨hsame, rfl⟩
  · refine .inr ⟨_, rfl, fun hC => ?_⟩
    obtain ⟨hemptied, hdrained⟩ := emptied_drainToTargets hdrain
    simp only [Txn.onto_start, onto_protect] at hheader hstate hleft hright hemptied hdrained
    obtain ⟨h', hheader', hcount⟩ := hdrained h hheader
    obtain ⟨_, hk', hsame⟩ := hemptied.header source h hheader
    cases hheader'.symm.trans hk'
    obtain ⟨_, hleft', -⟩ := hemptied.header targets.left left hleft
    obtain ⟨_, hright', -⟩ := hemptied.header targets.right right hright
    -- The targets of a draining split are partitions with centroids.
    have hcentroid {c : PartitionKey} {k : PartitionHeader} (hc : pair.Names c)
        (hk : C.header t c = some k) : ∃ v, Store.centroid (s.onto C) t c = some v := by
      rw [hemptied.centroid c]
      have hroot : c ≠ rootPartition := by
        rintro rfl
        obtain ⟨m, hm⟩ := (((hh.coherent C hC).treeShape t).receiving rootPartition source).mpr
          ⟨pair, began, hstate, hc⟩
        exact (((hh.coherent C hC).treeShape t).root m source).2 hm
      refine ne_none_iff_exists'.mp (((hh.coherent C hC).topology t).centroid
        (h := k.head) ?_ hroot)
      simp [topology, hk]
    obtain ⟨a, ha⟩ := hcentroid (hpair.1 ▸ pair.names_left) hleft
    obtain ⟨b, hb⟩ := hcentroid (hpair.2 ▸ pair.names_right) hright
    have hremaining : h.entryCount - moved = h'.entryCount := by omega
    rw [hremaining]
    have hgetHeader : Reads (s.onto C) (getHeader t source) (some h') := reads_get hheader'
    have hgetState : Reads (s.onto C) (getState t source) (some (.drainingSplit pair began)) :=
      reads_get ((hemptied.state source).trans hstate)
    refine hgetHeader.bind (hgetState.bind ?_)
    refine (reads_ensure hpair).bind ((reads_ensure (hsame.trans hdraining)).bind ?_)
    refine (reads_requireForUpdate hleft').bind ((reads_requireForUpdate hright').bind ?_)
    refine (reads_read (a := (some a, some b)) (by rw [ha, hb])).bind ?_
    refine (reads_pure a).bind ((reads_pure b).bind ?_)
    exact (reads_drainToTargets fun id hid => hemptied.gone id (.inr hid)).bind reads_drainedStep

lemma emptied_drainToReady {level : ℕ} {candidates : List LevelCandidate} {o : Option ℕ}
    (hrun : Runs C (drainToReady ix t source level candidates (.leaf ids)) s o s') :
    (o = none ∧ s.SameWrites s') ∨ ∃ n, o = some n ∧
      Emptied t source ids (s.onto C) (s'.onto C) ∧ Drained t source (s.onto C) (s'.onto C) n := by
  simp only [drainToReady, runs_bind, runs_ofExcept, runs_ite, runs_pure] at hrun
  obtain ⟨_, _, hslots, _, _, ⟨hmoves, rfl, -⟩, _, _, hvalid,
    ⟨-, n, _, hrelocate, rfl, rfl, -⟩ | ⟨-, rfl, rfl, -⟩⟩ := hrun
  · have hfst := mapM_pair_fst (by
      intro _ m hm
      simp only [bind_eq_ok] at hm
      obtain ⟨_, -, _, -, hm⟩ := hm
      cases hm
      rfl) hmoves
    exact .inr ⟨n, rfl, emptied_verified hslots
      ((readOnly_revalidateTargets _).sameWrites hvalid) hfst hrelocate⟩
  · exact .inl ⟨rfl, (runs_readLeafDrainCandidates hslots).1.trans
      ((readOnly_revalidateTargets _).sameWrites hvalid)⟩

def DrainStep.mergeAgain : Store → Option DrainStep → Option (Option DrainStep)
  | _, some (drained _ remaining) => some (some (.drained 0 remaining))
  | _, _ => none

lemma redriven_mergeDrainAttempt {candidates : List LevelCandidate} :
    Redriven history (mergeDrainAttempt ix t source candidates (.leaf ids))
      DrainStep.mergeAgain := by
  refine .of_runs fun {C _ s step} hrun => ?_
  rcases runs_mergeDrainAttempt hrun with ⟨hsame, rfl⟩ | ⟨_, h, began, _, rfl, hheader, hstate,
    hmerging, hdrain⟩
  · exact .inl ⟨hsame, rfl⟩
  rcases emptied_drainToReady hdrain with ⟨rfl, hsame⟩ | ⟨moved, rfl, hemptied, hdrained⟩
  · exact .inl ⟨⟨hsame.snapshot, hsame.writes⟩, rfl⟩
  · refine .inr ⟨_, rfl, fun _ => ?_⟩
    simp only [Txn.onto_start, onto_protect] at hheader hstate hemptied hdrained
    obtain ⟨h', hheader', hcount⟩ := hdrained h hheader
    obtain ⟨_, hk', hsame⟩ := hemptied.header source h hheader
    cases hheader'.symm.trans hk'
    have hremaining : h.entryCount - moved = h'.entryCount := by omega
    rw [hremaining]
    have hgetHeader : Reads (s.onto C) (getHeader t source) (some h') := reads_get hheader'
    have hgetState : Reads (s.onto C) (getState t source) (some (.merging began)) :=
      reads_get ((hemptied.state source).trans hstate)
    refine hgetHeader.bind (hgetState.bind ((reads_ensure (hsame.trans hmerging)).bind ?_))
    exact (reads_drainToReady fun id hid => hemptied.gone id (.inr hid)).bind
      (reads_drainedStep.bind (reads_pure _))

/-- **Re-driving a committed step changes nothing.**  On the store a completed step
left, the same step stages no write and reports itself done: a split start its
persisted targets, an exposure that it is there, a completion that its source is gone
or, for a promoted root, not draining any more, and a drain batch no moved entry. -/
theorem run_redriven (hrun : RunFromEmpty ix build history) :
    (∀ t p n, Redriven history (beginSplit ix t p n) SplitStart.again) ∧
    (∀ t p left a right b n parent,
      Redriven history (exposeSplitTargets ix t p left a right b n parent) SplitExposure.again) ∧
    (∀ t p n removal parent,
      Redriven history (finalizeSplit t p n removal parent) (SplitCompletion.again t p)) ∧
    (∀ t p n, Redriven history (beginMerge ix t p n) MergeStart.again) ∧
    (∀ t p removal parent,
      Redriven history (finalizeMerge t p removal parent) MergeCompletion.again) ∧
    (∀ t p targets ids,
      Redriven history (splitDrainAttempt ix t p targets (.leaf ids)) DrainStep.again) ∧
    ∀ t p candidates ids,
      Redriven history (mergeDrainAttempt ix t p candidates (.leaf ids)) DrainStep.mergeAgain :=
  ⟨fun _ _ _ => redriven_beginSplit, fun _ _ _ _ _ _ _ _ => redriven_exposeSplitTargets,
    fun _ _ _ _ _ => redriven_finalizeSplit, fun _ _ _ => redriven_beginMerge,
    fun _ _ _ _ => redriven_finalizeMerge,
    fun _ _ _ _ => redriven_splitDrainAttempt (hrun.consistent (coherent_empty ix)),
    fun _ _ _ _ => redriven_mergeDrainAttempt⟩

theorem run_redriven_line : lineHistory.length = 10 ∧
    (∀ t p n, Redriven lineHistory (beginSplit .line t p n) SplitStart.again) ∧
    ∀ t p targets ids,
      Redriven lineHistory (splitDrainAttempt .line t p targets (.leaf ids)) DrainStep.again :=
  ⟨lineHistory_length, (run_redriven lineHistory_run).1, (run_redriven lineHistory_run).2.2.2.2.2.1⟩

end
