/-
Relocations commit effects.

A batch of moves writes its entries one by one and gathers the Headers and Synopses
they touch.  Every move is one effect on the store with the gathered values written,
so a batch commits one effect for each entry it moves.

* `gathered` — the store with the gathered Headers and Synopses written;
* `leafEffects_relocateLeafEntries`, `effects_relocateChildEntries` — one batch.
-/
import Ktann.Committed.Sinks
import Ktann.Committed.Transitions
import Ktann.Maintenance.Drain

open Write (applyAll)

open TxnM WriteTxn

section

variable {ix : Index} {B C : Store} {s s' : Txn ValueOf} {t : TreeKey}
  {H H' : HeaderMap} {Y Y' : SynopsisMap}

/-! ### Gathered Headers and Synopses -/

def gathered (t : TreeKey) (B : Store) (H : HeaderMap) (Y : SynopsisMap) : Store :=
  applyAll (applyAll B (headerWrites t H)) (synopsisWrites t Y)

lemma header_injective (t : TreeKey) : Injective fun p => LogicalKey.header t p := by
  intro p q h
  cases h
  rfl

lemma synopsis_injective (t : TreeKey) : Injective fun p => LogicalKey.synopsis t p := by
  intro p q h
  cases h
  rfl

lemma headerWrites_eq (t : TreeKey) (H : HeaderMap) : headerWrites t H =
    overlay H (fun p => LogicalKey.header t p) fun _ h => some h := by
  simp only [headerWrites, overlay, map_some, List.filterMap_eq_map']

lemma synopsisWrites_eq (t : TreeKey) (Y : SynopsisMap) : synopsisWrites t Y =
    overlay Y (fun p => LogicalKey.synopsis t p) fun _ y => dirtySynopsis y := by
  refine List.filterMap_congr fun e _ => ?_
  simp only [dirtySynopsis]
  split_ifs <;> rfl

lemma gathered_eq (t : TreeKey) (B : Store) (H : HeaderMap) (Y : SynopsisMap) :
    gathered t B H Y = applyAll (applyAll B
      (overlay H (fun p => LogicalKey.header t p) fun _ h => some h))
      (overlay Y (fun p => LogicalKey.synopsis t p) fun _ y => dirtySynopsis y) := by
  rw [gathered, headerWrites_eq, synopsisWrites_eq]

lemma header_gathered (p : PartitionKey) :
    (gathered t B H Y).header t p = (H.lookup p).or (B.header t p) := by
  change (gathered t B H Y).lookup (.header t p) = _
  rw [gathered_eq, lookup_overlay_ne (by simp)]
  refine (lookup_overlay (header_injective t) H B p).trans ?_
  simp [Store.header]

lemma synopsis_gathered (p : PartitionKey) : (gathered t B H Y).synopsis t p =
    ((Y.lookup p).bind dirtySynopsis).or (B.synopsis t p) := by
  change (gathered t B H Y).lookup (.synopsis t p) = _
  rw [gathered_eq]
  refine (lookup_overlay (synopsis_injective t) Y _ p).trans ?_
  rw [lookup_overlay_ne (by simp)]
  rfl

lemma lookup_gathered {k : LogicalKey} (hheader : ∀ p, k ≠ .header t p)
    (hsynopsis : ∀ p, k ≠ .synopsis t p) : (gathered t B H Y).lookup k = B.lookup k := by
  rw [gathered_eq, lookup_overlay_ne hsynopsis, lookup_overlay_ne hheader]

def Clean (t : TreeKey) (B : Store) (Y : SynopsisMap) : Prop :=
  ∀ p y, Y.lookup p = some (y, false) → B.synopsis t p = some y

variable {p source : PartitionKey} {y y' : PartitionSynopsis} {changed changed' : Bool}
  {movement : Movement} {moves : List (LeafDrainEntry × PartitionKey)} {u : Unit}
  {ps : List PartitionKey} {n : ℕ} {m : LeafDrainEntry × PartitionKey}

lemma Clean.synopsis (hclean : Clean t B Y) (hp : Y.lookup p = some (y, changed)) :
    (gathered t B H Y).synopsis t p = some y := by
  rw [synopsis_gathered, hp]
  cases changed with
  | true => rfl
  | false =>
    simp only [bind_some, dirtySynopsis]
    exact hclean p y hp

lemma gathered_apply {w : Write ValueOf}
    (hheader : ∀ (S : Store) p, (w.apply S).lookup (.header t p) = S.lookup (.header t p))
    (hsynopsis : ∀ (S : Store) p, (w.apply S).lookup (.synopsis t p) = S.lookup (.synopsis t p)) :
    gathered t (w.apply B) H Y = w.apply (gathered t B H Y) := by
  rw [gathered_eq, gathered_eq, applyAll_overlay_apply (header_injective t) H B hheader,
    applyAll_overlay_apply (synopsis_injective t) Y _ hsynopsis]

lemma gathered_header (p : PartitionKey) (h : PartitionHeader) :
    gathered t B (H.put p h) Y = (gathered t B H Y).put (.header t p) h := by
  have hwrite : applyAll B
      (overlay (H.put p h) (fun p => LogicalKey.header t p) fun _ h => some h) =
      (applyAll B (overlay H (fun p => LogicalKey.header t p) fun _ h => some h)).put
        (.header t p) h :=
    applyAll_overlay_put (header_injective t) H B rfl
  rw [gathered_eq, gathered_eq, hwrite]
  exact applyAll_overlay_apply (V := ValueOf) (synopsis_injective t) Y _
    (w := .put (.header t p) h) fun S q => lookup_put_ne _ _ (by simp)

lemma gathered_synopsis (hclean : Clean t B Y) {row : List Value}
    (hp : Y.lookup p = some (y, changed)) (hexpand : y.expand ix row = .ok (y', changed')) :
    gathered t B H (Y.put p (y', changed || changed')) =
      (gathered t B H Y).put (.synopsis t p) y' := by
  have hspec := PartitionSynopsis.expand_spec hexpand
  by_cases hdirty : (changed || changed') = true
  · rw [gathered_eq, gathered_eq]
    exact applyAll_overlay_put (synopsis_injective t) Y _ (by simp [dirtySynopsis, hdirty])
  · -- Nothing changed: the Synopsis is not written, and it is the stored one.
    obtain ⟨hold, hnew⟩ := or_eq_false_iff.mp (Bool.eq_false_iff.mpr hdirty)
    have hkeep : gathered t B H (Y.put p (y', changed || changed')) = gathered t B H Y := by
      rw [gathered_eq, gathered_eq]
      refine applyAll_overlay_keep (synopsis_injective t) Y _ ?_ ?_
      · simp [dirtySynopsis, hold, hnew]
      · simp [hp, dirtySynopsis, hold]
    rw [hkeep, hspec.unchanged hnew]
    exact (OrderedMap.put_eq_self (hclean.synopsis hp)).symm

lemma Clean.put (hclean : Clean t B Y) {row : List Value} (hp : Y.lookup p = some (y, changed))
    (hexpand : y.expand ix row = .ok (y', changed')) :
    Clean t B (Y.put p (y', changed || changed')) := by
  intro q z hq
  by_cases hqp : q = p
  · subst hqp
    simp only [lookup_put_self, Option.some.injEq, Prod.mk.injEq, or_eq_false_iff] at hq
    obtain ⟨rfl, rfl, hnew⟩ := hq
    rw [(PartitionSynopsis.expand_spec hexpand).unchanged hnew]
    exact hclean q y hp
  · rw [lookup_put_ne _ _ hqp] at hq
    exact hclean q z hq

/-! ### Moves of Leaf Entries -/

/-- The roles the Headers of a batch were checked for. -/
structure LeafRoles (movement : Movement) (moves : List (LeafDrainEntry × PartitionKey))
    (H : HeaderMap) : Prop where
  leaf : ∀ {p h}, H.lookup p = some h → h.level = 1
  source : ∀ {m h}, m ∈ moves → H.lookup m.1.source = some h → h.state = movement.sourceState
  target : ∀ {m h}, m ∈ moves → H.lookup m.2 = some h → h.state = movement.targetState

lemma LeafRoles.put (hroles : LeafRoles movement moves H) {h h' : PartitionHeader}
    (hp : H.lookup p = some h) (hadjusted : h.Adjusted h') :
    LeafRoles movement moves (H.put p h') := by
  -- An adjusted Header keeps its level and its state.
  have hlookup : ∀ {q k}, (H.put p h').lookup q = some k → ∃ k', H.lookup q = some k' ∧
      k.level = k'.level ∧ k.state = k'.state := by
    intro q k hq
    by_cases hqp : q = p
    · subst hqp
      rw [lookup_put_self, Option.some.injEq] at hq
      exact ⟨h, hp, hq ▸ hadjusted.level, hq ▸ hadjusted.state⟩
    · rw [lookup_put_ne _ _ hqp] at hq
      exact ⟨k, hq, rfl, rfl⟩
  constructor
  · intro q k hq
    obtain ⟨k', hk', hlevel, -⟩ := hlookup hq
    exact hlevel.trans (hroles.leaf hk')
  · intro m k hm hq
    obtain ⟨k', hk', -, hstate⟩ := hlookup hq
    exact hstate.trans (hroles.source hm hk')
  · intro m k hm hq
    obtain ⟨_, hk', -, hstate⟩ := hlookup hq
    exact hstate.trans (hroles.target hm hk')

lemma LeafRoles.tail (hroles : LeafRoles movement (m :: moves) H) : LeafRoles movement moves H :=
  ⟨hroles.leaf, fun hm => hroles.source (mem_cons_of_mem _ hm),
    fun hm => hroles.target (mem_cons_of_mem _ hm)⟩

def moveEntry (B : Store) (t : TreeKey) (m : LeafDrainEntry × PartitionKey) : Store :=
  ((B.put (.leafEntry t m.2 m.1.entry.recordId) m.1.entry).erase
    (.leafEntry t m.1.source m.1.entry.recordId)).put (.location m.1.entry.recordId) ⟨t, m.2⟩

lemma gathered_moveEntry (m : LeafDrainEntry × PartitionKey) :
    gathered t (moveEntry B t m) H Y = moveEntry (gathered t B H Y) t m := by
  have hput := gathered_apply (t := t) (H := H) (Y := Y) (B := B)
    (w := .put (.leafEntry t m.2 m.1.entry.recordId) m.1.entry)
    (fun S p => lookup_put_ne _ _ (by simp))
    (fun S p => lookup_put_ne _ _ (by simp))
  have herase := gathered_apply (t := t) (H := H) (Y := Y)
    (B := B.put (.leafEntry t m.2 m.1.entry.recordId) m.1.entry)
    (w := .delete (.leafEntry t m.1.source m.1.entry.recordId))
    (fun S p => lookup_erase_ne _ (by simp))
    (fun S p => lookup_erase_ne _ (by simp))
  have hlocation := gathered_apply (t := t) (H := H) (Y := Y)
    (B := (B.put (.leafEntry t m.2 m.1.entry.recordId) m.1.entry).erase
      (.leafEntry t m.1.source m.1.entry.recordId))
    (w := .put (.location m.1.entry.recordId) ⟨t, m.2⟩)
    (fun S p => lookup_put_ne _ _ (by simp))
    (fun S p => lookup_put_ne _ _ (by simp))
  exact hlocation.trans (congrArg (fun S : Store => S.put _ _)
    (herase.trans (congrArg (fun S : Store => S.erase _) hput)))

lemma leafEffect_move {k k' h h' : PartitionHeader} (hroles : LeafRoles movement moves H)
    (hm : m ∈ moves) (hclean : Clean t B Y)
    (hentry : B.leafEntry t m.1.source m.1.entry.recordId = some m.1.entry) (hne : m.1.source ≠ m.2)
    (hsource : H.lookup m.1.source = some k) (hremoved : k.removedEntry = .ok k')
    (htarget : H.lookup m.2 = some h) (hadded : h.addedEntry = .ok h')
    (hsynopsis : Y.lookup m.2 = some (y, changed))
    (hexpand : y.expand ix m.1.entry.fields = .ok (y', changed')) :
    LeafEffect ix (gathered t B H Y) (gathered t (moveEntry B t m)
      ((H.put m.1.source k').put m.2 h') (Y.put m.2 (y', changed || changed'))) := by
  have hentry' : (gathered t B H Y).leafEntry t m.1.source m.1.entry.recordId = some m.1.entry := by
    refine Eq.trans ?_ hentry
    exact lookup_gathered (by simp) (by simp)
  have hk : (gathered t B H Y).header t m.1.source = some k := by
    rw [header_gathered, hsource]
    rfl
  have hh : (gathered t B H Y).header t m.2 = some h := by
    rw [header_gathered, htarget]
    rfl
  have heffect : LeafEffect ix (gathered t B H Y) _ :=
    leafEffect_moveLeaf (.moveLeaf movement hentry' hne hk (hroles.source hm hsource) hremoved hh
      (hroles.leaf htarget) (hroles.target hm htarget) hadded (hclean.synopsis hsynopsis) hexpand)
      hentry' hne hk hremoved hh (hroles.leaf htarget) hadded
  have hclean' : Clean t (moveEntry B t m) Y := by
    intro p z hp
    simpa [moveEntry] using hclean p z hp
  rw [gathered_synopsis hclean' hsynopsis hexpand, gathered_header, gathered_header,
    gathered_moveEntry]
  convert heffect using 1
  have hkeys : ¬(m.2 = m.1.source) := fun h => hne h.symm
  apply Store.ext_families <;> intros <;>
    simp [moveEntry, eraseLeaf, putLeaf]
  grind

lemma elim_eq_ok {α : Type} {e : Error} {o : Option α} {a : α}
    (hok : o.elim (.error e) Except.ok = .ok a) : o = some a := by
  cases o with
  | none => cases hok
  | some b => cases hok; rfl

lemma leafEffects_moves : ∀ {H : HeaderMap} {Y : SynopsisMap} {s : Txn ValueOf},
      LeafRoles movement moves H → Clean t (s.onto C) Y → (∀ m ∈ moves, m.1.source ≠ m.2) →
      (∀ m ∈ moves, Store.leafEntry (s.onto C) t m.1.source m.1.entry.recordId = some m.1.entry) →
      (moves.map fun m => m.1.entry.recordId).Nodup →
      Runs C (moveLeafEntries t moves) s u s' → foldLeafMoves ix moves (H, Y) = .ok (H', Y') →
      LeafEffects ix (gathered t (s.onto C) H Y) (gathered t (s'.onto C) H' Y') := by
  induction moves with
  | nil =>
    intro H Y s _ _ _ _ _ hrun hfold
    obtain ⟨-, rfl, -⟩ := runs_pure.mp hrun
    cases hfold
    exact .refl
  | cons m _ ih =>
    intro H Y s hroles hclean hne hentries hnodup hrun hfold
    obtain ⟨drain, target⟩ := m
    simp only [moveLeafEntries, runs_bind, runs_insertUnique, runs_delete, runs_put] at hrun
    obtain ⟨-, _, ⟨-, rfl, -⟩, -, _, ⟨rfl, -⟩, -, s₁, ⟨hs₁, -⟩, hrun⟩ := hrun
    have hstore : s₁.onto C = moveEntry (s.onto C) t (drain, target) := by
      subst hs₁
      simp [moveEntry, Write.apply]
    simp only [foldLeafMoves, bind_eq_ok] at hfold
    obtain ⟨k, hk, _, hremoved, h, hh, _, hadded, ⟨y, _⟩, hy, ⟨_, _⟩, hexpand,
      hfold⟩ := hfold
    have hne' : drain.source ≠ target := hne _ mem_cons_self
    have hk' := elim_eq_ok hk
    have hh' := elim_eq_ok hh
    have hy' := elim_eq_ok hy
    rw [lookup_put_ne _ _ hne'.symm] at hh'
    have heffect := leafEffect_move hroles mem_cons_self hclean
      (hentries _ mem_cons_self) hne' hk' hremoved hh' hadded hy' hexpand
    rw [← hstore] at heffect
    obtain ⟨hfirst, hnodup'⟩ := nodup_cons.mp hnodup
    refine Relation.ReflTransGen.head heffect (ih ?_ ?_ ?_ ?_ hnodup' hrun hfold)
    · refine ((hroles.put hk' (removedEntry_ok hremoved).1).put ?_ (addedEntry_ok hadded).1).tail
      rw [lookup_put_ne _ _ hne'.symm, hh']
    · have hclean' : Clean t (s₁.onto C) Y := by
        intro p z hp
        rw [hstore]
        simpa [moveEntry] using hclean p z hp
      exact hclean'.put hy' hexpand
    · exact fun m hm => hne m (mem_cons_of_mem _ hm)
    · -- The other entries are of other records.
      intro m hm
      have hid : m.1.entry.recordId ≠ drain.entry.recordId := fun heq =>
        hfirst (mem_map.mpr ⟨m, hm, heq⟩)
      rw [hstore, ← hentries m (mem_cons_of_mem _ hm)]
      simp [moveEntry, hid]

/-- The source a batch leaves has as many entries fewer as it moved. -/
def Drained (t : TreeKey) (source : PartitionKey) (S S' : Store) (n : ℕ) : Prop :=
  ∀ h, S.header t source = some h →
    ∃ h', S'.header t source = some h' ∧ h.entryCount = h'.entryCount + n

lemma foldLeafMoves_source : ∀ {H : HeaderMap} {Y : SynopsisMap} {h : PartitionHeader},
      (∀ m ∈ moves, m.1.source = source ∧ m.1.source ≠ m.2) →
      foldLeafMoves ix moves (H, Y) = .ok (H', Y') → H.lookup source = some h →
      ∃ h', H'.lookup source = some h' ∧ h.entryCount = h'.entryCount + moves.length := by
  induction moves with
  | nil =>
    intro H Y h _ hfold hh
    cases hfold
    exact ⟨h, hh, rfl⟩
  | cons m _ ih =>
    intro H Y h hmoves hfold hh
    obtain ⟨_, _⟩ := m
    obtain ⟨hsource, hne⟩ := hmoves _ mem_cons_self
    simp only [foldLeafMoves, bind_eq_ok] at hfold
    obtain ⟨k, hk, _, hremoved, -, -, _, -, _, -, _, -, hfold⟩ := hfold
    have hk' := elim_eq_ok hk
    subst hsource
    rw [hh, Option.some.injEq] at hk'
    subst hk'
    obtain ⟨h', hh', hcount⟩ := ih (fun m hm => hmoves m (mem_cons_of_mem _ hm)) hfold
      (by rw [lookup_put_ne _ _ hne, lookup_put_self])
    have hone := (removedEntry_ok hremoved).2
    refine ⟨h', hh', ?_⟩
    rw [length_cons]
    omega

lemma runs_readLeafHeaders {sources targets : List PartitionKey} :
    ∀ {H : HeaderMap} {s : Txn ValueOf},
      Runs C (readLeafHeaders t sources targets movement ps H) s H' s' →
      (∀ p h, H.lookup p = some h → Store.header (s.onto C) t p = some h ∧ h.level = 1 ∧
        (p ∈ sources → h.state = movement.sourceState) ∧
        (p ∈ targets → h.state = movement.targetState)) →
      s.SameWrites s' ∧ ∀ p h, H'.lookup p = some h →
        Store.header (s.onto C) t p = some h ∧ h.level = 1 ∧
        (p ∈ sources → h.state = movement.sourceState) ∧
        (p ∈ targets → h.state = movement.targetState) := by
  induction ps with
  | nil =>
    intro H s hrun hH
    obtain ⟨rfl, rfl, -⟩ := runs_pure.mp hrun
    exact ⟨.refl _, hH⟩
  | cons q _ ih =>
    intro H s hrun hH
    simp only [readLeafHeaders, runs_bind, runs_requireHeader, runs_ensure] at hrun
    obtain ⟨k, _, ⟨hk, rfl, -⟩, -, _, ⟨hroles, rfl, -⟩, hrun⟩ := hrun
    obtain ⟨hsame, hall⟩ := ih hrun (by
      intro p h hp
      by_cases hpq : p = q
      · subst hpq
        rw [lookup_put_self, Option.some.injEq] at hp
        subst hp
        exact ⟨hk, hroles⟩
      · rw [lookup_put_ne _ _ hpq] at hp
        exact hH p h hp)
    exact ⟨⟨hsame.snapshot, hsame.writes⟩, hall⟩

lemma runs_readSynopses :
    ∀ {Y : SynopsisMap} {s : Txn ValueOf}, Runs C (readSynopses t ps Y) s Y' s' →
      (∀ p y, Y.lookup p = some y → Store.synopsis (s.onto C) t p = some y.1 ∧ y.2 = false) →
      s.SameWrites s' ∧ ∀ p y, Y'.lookup p = some y →
        Store.synopsis (s.onto C) t p = some y.1 ∧ y.2 = false := by
  induction ps with
  | nil =>
    intro Y s hrun hY
    obtain ⟨rfl, rfl, -⟩ := runs_pure.mp hrun
    exact ⟨.refl _, hY⟩
  | cons q _ ih =>
    intro Y s hrun hY
    simp only [readSynopses, runs_bind, runs_requireSynopsis] at hrun
    obtain ⟨z, _, ⟨hz, rfl, -⟩, hrun⟩ := hrun
    obtain ⟨hsame, hall⟩ := ih hrun (by
      intro p y hp
      by_cases hpq : p = q
      · subst hpq
        rw [lookup_put_self, Option.some.injEq] at hp
        subst hp
        exact ⟨hz, rfl⟩
      · rw [lookup_put_ne _ _ hpq] at hp
        exact hY p y hp)
    exact ⟨⟨hsame.snapshot, hsame.writes⟩, hall⟩

lemma gathered_stored (hH : ∀ p h, H.lookup p = some h → B.header t p = some h)
    (hY : ∀ p y, Y.lookup p = some y → y.2 = false) : gathered t B H Y = B := by
  ext1 k
  by_cases hheader : ∀ p, k ≠ .header t p
  · by_cases hsynopsis : ∀ p, k ≠ .synopsis t p
    · exact lookup_gathered hheader hsynopsis
    · push Not at hsynopsis
      obtain ⟨p, rfl⟩ := hsynopsis
      refine (synopsis_gathered p).trans ?_
      cases hp : Y.lookup p with
      | none => rfl
      | some y => simp [dirtySynopsis, hY p y hp, Store.synopsis]
  · push Not at hheader
    obtain ⟨p, rfl⟩ := hheader
    refine (header_gathered p).trans ?_
    cases hp : H.lookup p with
    | none => rfl
    | some h => exact (hH p h hp).symm

structure LeafBatch (ix : Index) (t : TreeKey) (C : Store) (s s' : Txn ValueOf)
    (moves : List (LeafDrainEntry × PartitionKey)) (movement : Movement) where
  read : Txn ValueOf
  moved : Txn ValueOf
  before : HeaderMap × SynopsisMap
  after : HeaderMap × SynopsisMap
  sameWrites : s.SameWrites read
  ne : ∀ m ∈ moves, m.1.source ≠ m.2
  header : ∀ p h, before.1.lookup p = some h → Store.header (s.onto C) t p = some h ∧
    h.level = 1 ∧ (p ∈ moves.map (fun m => m.1.source) → h.state = movement.sourceState) ∧
    (p ∈ moves.map Prod.snd → h.state = movement.targetState)
  synopsis : ∀ p y, before.2.lookup p = some y →
    Store.synopsis (s.onto C) t p = some y.1 ∧ y.2 = false
  run : Runs C (moveLeafEntries t moves) read () moved
  folded : foldLeafMoves ix moves before = .ok after
  written : s'.onto C = gathered t (moved.onto C) after.1 after.2

section
variable (hrun : Runs C (relocateLeafEntries ix t moves movement) s n s')
include hrun

lemma runs_relocateLeafEntries : n = moves.length ∧ ((moves = [] ∧ s' = s) ∨
      (moves ≠ [] ∧ Nonempty (LeafBatch ix t C s s' moves movement))) := by
  rw [relocateLeafEntries] at hrun
  split_ifs at hrun with hempty
  · obtain ⟨rfl, rfl, -⟩ := runs_pure.mp hrun
    obtain rfl := List.isEmpty_iff.mp hempty
    exact ⟨rfl, .inl ⟨rfl, rfl⟩⟩
  · simp only [runs_bind, runs_ensure, runs_ofExcept, runs_pure] at hrun
    obtain ⟨-, _, ⟨hne, rfl, -⟩, H, _, hheaders, Y, s₂, hsynopses, _, _, hmoves, folded, s₃,
      ⟨hfold, rfl, -⟩, _, _, hstage, _, _, hstage', rfl, rfl, -⟩ := hrun
    obtain ⟨hsame₁, hH⟩ := runs_readLeafHeaders hheaders (fun p h hp => by cases hp)
    obtain ⟨hsame₂, hY⟩ := runs_readSynopses hsynopses (fun p h hp => by cases hp)
    refine ⟨rfl, .inr ⟨fun hnil => hempty (List.isEmpty_iff.mpr hnil), ⟨⟨s₂, s₃, (H, Y), folded,
      hsame₁.trans hsame₂, hne, hH, fun p y hp => ?_, hmoves, hfold, ?_⟩⟩⟩⟩
    · rw [← hsame₁.onto_eq C]
      exact hY p y hp
    · rw [runs_stageAll hstage', runs_stageAll hstage, gathered]

lemma drained_relocateLeafEntries (hsource : ∀ m ∈ moves, m.1.source = source)
    : Drained t source (s.onto C) (s'.onto C) n := by
  intro h hh
  obtain ⟨rfl, ⟨rfl, rfl⟩ | ⟨hne, ⟨batch⟩⟩⟩ := runs_relocateLeafEntries hrun
  · exact ⟨h, hh, rfl⟩
  -- The first move found the source's Header among the gathered ones.
  have hgathered : batch.before.1.lookup source = some h := by
    have hfold : foldLeafMoves ix moves batch.before = .ok batch.after := batch.folded
    cases moves with
    | nil => exact absurd rfl hne
    | cons m =>
      obtain ⟨drain, _⟩ := m
      rw [← Prod.eta batch.before] at hfold
      simp only [foldLeafMoves, bind_eq_ok] at hfold
      obtain ⟨k, hk, -⟩ := hfold
      have hk' := elim_eq_ok hk
      have hdrain : drain.source = source := hsource _ mem_cons_self
      rw [hdrain] at hk'
      rw [hk', ← (batch.header _ _ hk').1, hh]
  obtain ⟨h', hh', hcount⟩ := foldLeafMoves_source
    (fun m hm => ⟨hsource m hm, batch.ne m hm⟩) batch.folded hgathered
  exact ⟨h', by rw [batch.written, header_gathered, hh']; rfl, hcount⟩

end

/-- **A batch of leaf moves commits one effect for each entry.** -/
theorem leafEffects_relocateLeafEntries
    (hentries : ∀ m ∈ moves, Store.leafEntry (s.onto C) t m.1.source m.1.entry.recordId =
      some m.1.entry) (hnodup : (moves.map fun m => m.1.entry.recordId).Nodup)
    (hrun : Runs C (relocateLeafEntries ix t moves movement) s n s') :
    LeafEffects ix (s.onto C) (s'.onto C) ∧ ∀ source, (∀ m ∈ moves, m.1.source = source) →
      Drained t source (s.onto C) (s'.onto C) n := by
  refine ⟨?_, fun source => drained_relocateLeafEntries hrun⟩
  obtain ⟨rfl, ⟨rfl, rfl⟩ | ⟨-, ⟨batch⟩⟩⟩ := runs_relocateLeafEntries hrun
  · exact .refl
  have hbase : batch.read.onto C = s.onto C := batch.sameWrites.onto_eq C
  have hroles : LeafRoles movement moves batch.before.1 :=
    ⟨fun hp => (batch.header _ _ hp).2.1,
      fun hm hp => (batch.header _ _ hp).2.2.1 (mem_map.mpr ⟨_, hm, rfl⟩),
      fun hm hp => (batch.header _ _ hp).2.2.2 (mem_map.mpr ⟨_, hm, rfl⟩)⟩
  have hclean : Clean t (batch.read.onto C) batch.before.2 := by
    intro p y hp
    rw [hbase]
    exact (batch.synopsis p _ hp).1
  have heffects := leafEffects_moves hroles hclean batch.ne (hbase ▸ hentries) hnodup batch.run
    batch.folded
  have hstart : gathered t (batch.read.onto C) batch.before.1 batch.before.2 = s.onto C := by
    rw [hbase]
    exact gathered_stored (fun p h hp => (batch.header p h hp).1)
      (fun p y hp => (batch.synopsis p y hp).2)
  rwa [hstart, ← batch.written] at heffects

/-! ### Moves of Child Entries -/

def moveChildren (t : TreeKey) (source : PartitionKey) (B : Store)
    (moves : List (ChildEntry × PartitionKey)) : Store :=
  moves.foldl (fun S m => (S.put (.childEntry t m.2 m.1.child) m.1).erase
    (.childEntry t source m.1.child)) B

variable {moves : List (ChildEntry × PartitionKey)}

lemma moveChildren_congr {k : LogicalKey} :
    ∀ {B B' : Store}, B.lookup k = B'.lookup k →
      (moveChildren t source B moves).lookup k = (moveChildren t source B' moves).lookup k := by
  induction moves with
  | nil => exact fun h => h
  | cons m _ ih =>
    intro B B' h
    exact ih (by simp only [lookup_erase, lookup_put, h])

lemma header_moveChildren {t' : TreeKey} :
    ∀ {B : Store}, (moveChildren t source B moves).lookup (.header t' p) =
      B.lookup (.header t' p) := by
  induction moves with
  | nil => exact rfl
  | cons m _ ih =>
    intro B
    refine ih.trans ?_
    rw [lookup_erase_ne _ (by simp), lookup_put_ne _ _ (by simp)]

lemma runs_moveChildEntries :
    ∀ {s : Txn ValueOf}, Runs C (moveChildEntries t source moves) s u s' →
      s'.onto C = moveChildren t source (s.onto C) moves := by
  induction moves with
  | nil =>
    intro s hrun
    obtain ⟨-, rfl, -⟩ := runs_pure.mp hrun
    rfl
  | cons m _ ih =>
    intro s hrun
    obtain ⟨_, _⟩ := m
    simp only [moveChildEntries, runs_bind, runs_insertUnique, runs_delete] at hrun
    obtain ⟨-, _, ⟨-, rfl, -⟩, -, _, ⟨rfl, -⟩, hrun⟩ := hrun
    rw [ih hrun]
    simp [moveChildren, Write.apply]

/-- The Headers a batch of child moves leaves: `n` entries fewer in the source, and
the moved ones more in each target. -/
structure MovedHeaders (t : TreeKey) (source : PartitionKey)
    (moves : List (ChildEntry × PartitionKey)) (S S' : Store) (h' : PartitionHeader) : Prop where
  drained : S'.header t source = some h'
  target : ∀ {p k}, p ≠ source → S.header t p = some k →
    ∃ k', addedEntries (moves.countP fun m => m.2 = p) k = .ok k' ∧ S'.header t p = some k'
  absent : ∀ {p}, p ≠ source → S.header t p = none → S'.header t p = none
  other : ∀ {k : LogicalKey}, (∀ p, k ≠ .header t p) →
    S'.lookup k = (moveChildren t source S moves).lookup k

lemma effects_childMoves :
    ∀ {S : Store} {h h' : PartitionHeader}, S.header t source = some h →
      h.state = movement.sourceState → removedEntries moves.length h = .ok h' →
      (∀ m ∈ moves, m.2 ≠ source ∧ S.childEntry t source m.1.child = some m.1 ∧
        (movement = .split → ∃ n, S.state t m.2 = some (.receivingSplit source n)) ∧
        ∃ k k', S.header t m.2 = some k ∧ k.state = movement.targetState ∧ k.level = h.level ∧
          addedEntries (moves.countP fun m' => m'.2 = m.2) k = .ok k' ∧
          (ix.localGraph = true → k.entryCount + (moves.countP fun m' => m'.2 = m.2) ≤
            ix.maxInternalPartitionEntries + 2)) → (moves.map fun m => m.1.child).Nodup →
      ∃ S', Effects ix S S' ∧ MovedHeaders t source moves S S' h' := by
  induction moves with
  | nil =>
    intro S h h' hsource _ hremoved _ _
    cases hremoved
    exact ⟨S, .refl, hsource, fun _ hp => ⟨_, rfl, hp⟩, fun _ hp => hp, fun _ => rfl⟩
  | cons m moves ih =>
    intro S h h' hsource hstate hremoved hmoves hnodup
    obtain ⟨e, target⟩ := m
    obtain ⟨h₁, hremoved₁, hremoved'⟩ := bind_eq_ok.mp hremoved
    obtain ⟨hne, hentry, hfamily, k, k', hk, hkstate, hlevel, hadded, hfits⟩ :=
      hmoves _ mem_cons_self
    simp only [countP_cons, decide_true, if_true] at hadded hfits
    obtain ⟨k₁, hadded₁, hadded'⟩ := bind_eq_ok.mp hadded
    obtain ⟨hfirst, hnodup'⟩ := nodup_cons.mp hnodup
    have heffect : Effect ix S ((S.putChild t target e k₁).eraseChild t source e.child h₁) :=
      .moveChild movement hentry hne.symm hsource hstate hremoved₁ hk hkstate hfamily hlevel hadded₁
        fun hgraph => by have := hfits hgraph; omega
    obtain ⟨hadj, -⟩ := removedEntry_ok hremoved₁
    obtain ⟨hadj', hcount'⟩ := addedEntry_ok hadded₁
    have hheader : ∀ p, ((S.putChild t target e k₁).eraseChild t source e.child h₁).header t p =
        if p = source then some h₁ else if p = target then some k₁ else S.header t p := by
      intro p
      simp [eraseChild, putChild]
    obtain ⟨S', heffects, hmoved⟩ := ih (by rw [hheader, if_pos rfl]) (hadj.state.trans hstate)
      hremoved' (by
        intro m hm
        obtain ⟨hne', hentry', hfamily', q, q', hq, hqstate, hqlevel, hqadded, hqfits⟩ :=
          hmoves m (mem_cons_of_mem _ hm)
        have hchild : m.1.child ≠ e.child := fun heq => hfirst (mem_map.mpr ⟨m, hm, heq⟩)
        refine ⟨hne', ?_, fun hsplit => ?_, ?_⟩
        · rw [← hentry']
          simp [eraseChild, putChild, hchild]
        · simpa [eraseChild, putChild] using hfamily' hsplit
        · rw [hheader, if_neg hne']
          by_cases htarget : m.2 = target
          · rw [if_pos htarget, htarget]
            exact ⟨k₁, k', rfl, hadj'.state.trans hkstate,
              (hadj'.level.trans hlevel).trans hadj.level.symm, hadded',
              fun hgraph => by have := hfits hgraph; omega⟩
          · rw [if_neg htarget]
            have hcount : ((e, target) :: moves).countP (fun m' => m'.2 = m.2) =
                moves.countP fun m' => m'.2 = m.2 := by
              simp [Ne.symm htarget]
            rw [hcount] at hqadded hqfits
            exact ⟨q, q', hq, hqstate, hqlevel.trans hadj.level.symm, hqadded, hqfits⟩) hnodup'
    refine ⟨S', .head heffect heffects, hmoved.drained, ?_, ?_, ?_⟩
    · intro p q hp hq
      by_cases htarget : p = target
      · subst htarget
        rw [hk, Option.some.injEq] at hq
        subst hq
        obtain ⟨q', hq', hS'⟩ := hmoved.target hp (by rw [hheader, if_neg hp, if_pos rfl])
        refine ⟨q', ?_, hS'⟩
        simp only [countP_cons, decide_true, if_true]
        exact bind_eq_ok.mpr ⟨k₁, hadded₁, hq'⟩
      · obtain ⟨q', hq', hS'⟩ := hmoved.target hp (by rw [hheader, if_neg hp, if_neg htarget, hq])
        refine ⟨q', ?_, hS'⟩
        simpa [Ne.symm htarget] using hq'
    · intro p hp hnone
      have htarget : p ≠ target := by
        rintro rfl
        rw [hk] at hnone
        cases hnone
      exact hmoved.absent hp (by rw [hheader, if_neg hp, if_neg htarget, hnone])
    · intro k hkey
      refine (hmoved.other hkey).trans ?_
      refine moveChildren_congr (t := t) ?_
      simp only [eraseChild, putChild]
      rw [lookup_put_ne _ _ (hkey source), lookup_erase,
        lookup_put_ne _ _ (hkey target), lookup_erase]

lemma removedEntries_ok :
    ∀ {h h' : PartitionHeader}, removedEntries n h = .ok h' → h.entryCount = h'.entryCount + n := by
  induction n with
  | zero =>
    intro h h' hok
    cases hok
    rfl
  | succ n ih =>
    intro h h' hok
    obtain ⟨_, hone, hrest⟩ := bind_eq_ok.mp hok
    have hcount := (removedEntry_ok hone).2
    have hcount' := ih hrest
    omega

lemma runs_readTargetHeaders :
    ∀ {targets : List (PartitionKey × PartitionHeader)} {s : Txn ValueOf},
      Runs C (readTargetHeaders t movement ps) s targets s' →
      s.SameWrites s' ∧ targets.map Prod.fst = ps ∧ ∀ q ∈ targets,
        Store.header (s.onto C) t q.1 = some q.2 ∧ q.2.state = movement.targetState := by
  induction ps with
  | nil =>
    intro targets s hrun
    obtain ⟨rfl, rfl, -⟩ := runs_pure.mp hrun
    exact ⟨.refl _, rfl, fun q hq => by cases hq⟩
  | cons p _ ih =>
    intro _ s hrun
    simp only [readTargetHeaders, runs_bind, runs_requireHeader, runs_ensure, runs_pure] at hrun
    obtain ⟨k, _, ⟨hk, rfl, -⟩, -, _, ⟨hstate, rfl, -⟩, _, _, hrest, rfl, rfl, -⟩ := hrun
    obtain ⟨hsame, hfst, hall⟩ := ih hrest
    refine ⟨⟨hsame.snapshot, hsame.writes⟩, by simp [hfst], ?_⟩
    intro q hq
    rcases mem_cons.mp hq with rfl | hq
    · exact ⟨hk, hstate⟩
    · exact hall q hq

variable {targets : List (PartitionKey × PartitionHeader)}

lemma runs_putTargetHeaders :
    ∀ {s : Txn ValueOf}, (targets.map Prod.fst).Nodup →
      Runs C (putTargetHeaders t moves targets) s u s' →
      (∀ k : LogicalKey, (∀ p ∈ targets.map Prod.fst, k ≠ .header t p) →
        OrderedMap.lookup (s'.onto C) k = OrderedMap.lookup (s.onto C) k) ∧
      ∀ q ∈ targets, ∃ k', addedEntries (moves.countP fun m => m.2 = q.1) q.2 = .ok k' ∧
        Store.header (s'.onto C) t q.1 = some k' := by
  induction targets with
  | nil =>
    intro s _ hrun
    obtain ⟨-, rfl, -⟩ := runs_pure.mp hrun
    exact ⟨fun _ _ => rfl, fun q hq => by cases hq⟩
  | cons q _ ih =>
    intro s hnodup hrun
    obtain ⟨p, k⟩ := q
    simp only [putTargetHeaders, runs_bind, runs_ofExcept, runs_put] at hrun
    obtain ⟨k', _, ⟨hadded, rfl, -⟩, -, _, ⟨rfl, -⟩, hrun⟩ := hrun
    obtain ⟨hfirst, hnodup'⟩ := nodup_cons.mp hnodup
    obtain ⟨hother, hall⟩ := ih hnodup' hrun
    constructor
    · intro key hkey
      rw [hother key fun p' hp' => hkey p' (mem_cons_of_mem _ hp'), onto_stage]
      exact lookup_put_ne _ _ (hkey p mem_cons_self)
    · intro q hq
      rcases mem_cons.mp hq with rfl | hq
      · refine ⟨k', hadded, ?_⟩
        refine (hother (.header t p) ?_).trans ?_
        · rintro _ hp' heq
          cases heq
          exact hfirst hp'
        · rw [onto_stage]
          exact lookup_put_self _ _ _
      · exact hall q hq

lemma distinctPartitions_nodup (ps : List PartitionKey) : (distinctPartitions ps).Nodup :=
  (List.perm_insertionSort _ _).nodup_iff.mpr (List.nodup_dedup ps)

lemma mem_distinctPartitions : p ∈ distinctPartitions ps ↔ p ∈ ps := by
  rw [distinctPartitions, (List.perm_insertionSort _ _).mem_iff, List.mem_dedup]

lemma Movement.sourceState_ne (h : movement ≠ .refine) :
    movement.sourceState ≠ movement.targetState := by
  cases movement with
  | refine => exact absurd rfl h
  | _ => decide

lemma graphDrainFits_target {moved : ℕ} {source : PartitionHeader}
    (hfits : graphDrainFits ix movement moved source targets = true) :
    ∃ q, targets = [q] ∧ q.2.entryCount + moved ≤ ix.maxInternalPartitionEntries + 2 := by
  unfold graphDrainFits at hfits
  split at hfits
  · simp only [and_eq_true, decide_eq_true_eq] at hfits
    exact ⟨_, rfl, hfits.1.2⟩
  · cases hfits

section
variable (hmovement : movement ≠ .refine)
  (hentries : ∀ m ∈ moves, Store.childEntry (s.onto C) t source m.1.child = some m.1)
  (hnodup : (moves.map fun m => m.1.child).Nodup)
  (hfamily : movement = .split → ∀ m ∈ moves, ∀ k, Store.header (s.onto C) t m.2 = some k →
    k.state = movement.targetState →
      ∃ n, Store.state (s.onto C) t m.2 = some (.receivingSplit source n))
  (hrun : Runs C (relocateChildEntries ix t source moves movement) s n s')

include hmovement hentries hnodup hfamily hrun

/-- **A batch of child moves commits one effect for each entry**, and leaves the moved
Headers. -/
theorem runs_relocateChildEntries : n = moves.length ∧ ((moves = [] ∧ s'.onto C = s.onto C) ∨
      ∃ h h', Store.header (s.onto C) t source = some h ∧
        removedEntries moves.length h = .ok h' ∧ (∀ m ∈ moves, m.2 ≠ source) ∧
        Effects ix (s.onto C) (s'.onto C) ∧
        MovedHeaders t source moves (s.onto C) (s'.onto C) h') := by
  rw [relocateChildEntries] at hrun
  split_ifs at hrun with hempty
  · obtain ⟨rfl, rfl, -⟩ := runs_pure.mp hrun
    rw [List.isEmpty_iff] at hempty
    rw [hempty]
    exact ⟨rfl, .inl ⟨rfl, rfl⟩⟩
  · simp only [runs_bind, runs_ensure, runs_requireHeader, runs_ofExcept, runs_put,
      runs_pure] at hrun
    obtain ⟨targets, s₁, htargets, h, _, ⟨hh, rfl, -⟩, -, _, ⟨hstate, rfl, -⟩, -, _,
      ⟨hlevels, rfl, -⟩, -, _, ⟨hfits, rfl, -⟩, _, _, hmoves, h', s₂, ⟨hremoved, rfl, -⟩, -, _,
      ⟨rfl, -⟩, _, _, hput, rfl, rfl, -⟩ := hrun
    obtain ⟨hsame, hfst, hread⟩ := runs_readTargetHeaders htargets
    have hbase : s₁.onto C = s.onto C := hsame.onto_eq C
    have hmoved : s₂.onto C = moveChildren t source (s.onto C) moves :=
      (runs_moveChildEntries hmoves).trans (congrArg (moveChildren t source · moves) hbase)
    have hnodup' : (targets.map Prod.fst).Nodup := hfst ▸ distinctPartitions_nodup _
    obtain ⟨hother, hadded⟩ := runs_putTargetHeaders hnodup' hput
    have hh' : Store.header (s.onto C) t source = some h := hbase ▸ hh
    have hne : ∀ q ∈ targets, q.1 ≠ source := by
      intro q hq heq
      obtain ⟨hq', hqstate⟩ := hread q hq
      rw [heq, hh', Option.some.injEq] at hq'
      exact Movement.sourceState_ne hmovement (hstate.symm.trans (hq' ▸ hqstate))
    have hmem : ∀ m ∈ moves, ∃ q ∈ targets, q.1 = m.2 := by
      intro m hm
      have : m.2 ∈ targets.map Prod.fst := by
        rw [hfst, mem_distinctPartitions]
        exact mem_map.mpr ⟨m, hm, rfl⟩
      simpa using this
    have hroom : ix.localGraph = true → ∀ q ∈ targets, q.2.entryCount +
        (moves.countP fun m => m.2 = q.1) ≤ ix.maxInternalPartitionEntries + 2 := by
      intro hgraph q hq
      obtain ⟨_, rfl, hle⟩ := graphDrainFits_target (hfits hgraph)
      cases mem_singleton.mp hq
      have hcount : (moves.countP fun m => m.2 = q.1) ≤ moves.length := List.countP_le_length
      omega
    have hready : ∀ m ∈ moves, m.2 ≠ source ∧
        Store.childEntry (s.onto C) t source m.1.child = some m.1 ∧
        (movement = .split → ∃ n, Store.state (s.onto C) t m.2 = some (.receivingSplit source n)) ∧
        ∃ k k', Store.header (s.onto C) t m.2 = some k ∧ k.state = movement.targetState ∧
          k.level = h.level ∧ addedEntries (moves.countP fun m' => m'.2 = m.2) k = .ok k' ∧
          (ix.localGraph = true → k.entryCount + (moves.countP fun m' => m'.2 = m.2) ≤
            ix.maxInternalPartitionEntries + 2) := by
      intro m hm
      obtain ⟨q, hq, hqm⟩ := hmem m hm
      obtain ⟨k', hk', -⟩ := hadded q hq
      refine ⟨hqm ▸ hne q hq, hentries m hm, fun hsplit => hfamily hsplit m hm q.2
        (hqm ▸ (hread q hq).1) (hread q hq).2, ?_⟩
      rw [← hqm]
      exact ⟨q.2, k', (hread q hq).1, (hread q hq).2, hlevels q hq, hk',
        fun hgraph => hroom hgraph q hq⟩
    obtain ⟨S', heffects, hS'⟩ : ∃ S', Effects ix (s.onto C) S' ∧
        MovedHeaders t source moves (s.onto C) S' h' :=
      effects_childMoves hh' hstate hremoved hready hnodup
    have hend : s'.onto C = S' := ?_
    · rw [hend]
      exact ⟨rfl, .inr ⟨h, h', hh', hremoved, fun m hm => (hready m hm).1, heffects, hS'⟩⟩
    -- The Headers are the folded ones, and every other key is as the moves left it.
    ext1 key
    by_cases hkey : ∀ p, key ≠ .header t p
    · rw [hS'.other hkey, hother key fun p _ => hkey p, onto_stage, ← hmoved]
      exact lookup_put_ne _ _ (hkey source)
    · push Not at hkey
      obtain ⟨p, rfl⟩ := hkey
      by_cases hp : p ∈ targets.map Prod.fst
      · obtain ⟨q, hq, rfl⟩ := mem_map.mp hp
        obtain ⟨k', hk', hheader⟩ := hadded q hq
        obtain ⟨_, hk'', hheader'⟩ := hS'.target (hne q hq) (hread q hq).1
        rw [hk', Except.ok.injEq] at hk''
        subst hk''
        exact hheader.trans hheader'.symm
      · have hkept : OrderedMap.lookup (s'.onto C) (.header t p) =
            OrderedMap.lookup ((s₂.stage (.put (.header t source) h')).onto C) (.header t p) := by
          refine hother _ ?_
          rintro _ hp' heq
          cases heq
          exact hp hp'
        rw [hkept, onto_stage]
        by_cases hps : p = source
        · subst hps
          exact (lookup_put_self _ _ _).trans hS'.drained.symm
        · have hsame' : OrderedMap.lookup (s₂.onto C) (.header t p) =
              Store.header (s.onto C) t p := by
            rw [hmoved]
            exact header_moveChildren
          refine (lookup_put_ne _ _ (by simpa using hps)).trans (hsame'.trans ?_)
          cases hnone : Store.header (s.onto C) t p with
          | none => exact (hS'.absent hps hnone).symm
          | some k =>
            obtain ⟨_, hk', hheader⟩ := hS'.target hps hnone
            have hcount : (moves.countP fun m => m.2 = p) = 0 := by
              rw [List.countP_eq_zero]
              intro m hm hmp
              obtain ⟨q, hq, hqm⟩ := hmem m hm
              exact hp (mem_map.mpr ⟨q, hq, hqm.trans (of_decide_eq_true hmp)⟩)
            rw [hcount] at hk'
            cases hk'
            exact hheader.symm

lemma effects_relocateChildEntries :
    Effects ix (s.onto C) (s'.onto C) ∧ Drained t source (s.onto C) (s'.onto C) n := by
  obtain ⟨rfl, ⟨rfl, hsame⟩ | ⟨h, h', hh, hremoved, -, heffects, hmoved⟩⟩ :=
    runs_relocateChildEntries hmovement hentries hnodup hfamily hrun
  · rw [hsame]
    exact ⟨.refl, fun h hh => ⟨h, hh, rfl⟩⟩
  · refine ⟨heffects, fun k hk => ⟨h', hmoved.drained, ?_⟩⟩
    rw [hh, Option.some.injEq] at hk
    rw [← hk]
    exact removedEntries_ok hremoved

end

end
