/-
Topology transitions commit effects.

Each transition of a split, a merge or a centroid, run as part of a transaction,
takes the store the transaction commits onto by a sequence of effects.  A plain
read sees the transaction's own snapshot instead; what it says about the present
store follows from how stores evolve.

* `Reading` — a transaction between its snapshot and the store it commits onto;
* `leafEffects_beginSplit` … `effects_updateCentroid` — one lemma for each transition.
-/
import Ktann.Committed.LeafEffects

open LogicalKey (partitionRange)
open TxnM WriteTxn

section

variable {ix : Index} {C : Store} {s s' : Txn ValueOf} {t : TreeKey}
  {p : PartitionKey}

/-- A transaction whose view is coherent, and an earlier state of the store it
commits onto. -/
structure Reading (ix : Index) (C : Store) (s : Txn ValueOf) : Prop where
  view : Coherent ix s.view
  store : Coherent ix (s.onto C)
  evolves : Evolves s.view (s.onto C)

lemma Reading.of_sameWrites (hr : Reading ix C s) (h : s.SameWrites s') : Reading ix C s' := by
  obtain ⟨hv, hs, he⟩ := hr
  constructor
  · rwa [h.view_eq]
  · rwa [h.onto_eq C]
  · rwa [h.view_eq, h.onto_eq C]

lemma effects_pure {α : Type} {a b : α} {r : Store → Store → Prop}
    (hrun : Runs C (pure a : WriteTxn α) s b s') :
    Relation.ReflTransGen r (s.onto C) (s'.onto C) := by
  obtain ⟨-, rfl, -⟩ := runs_pure.mp hrun
  exact .refl

/-! ### Authority reads -/

variable {h k : PartitionHeader} {n level : ℕ} {S : Store} {known : Option PartitionKey}
  {parent source target : PartitionKey} {v a b : VectorData} {u : Unit} {outcome : SplitExposure}
  {targets : SplitPair} {removal : SourceRemoval} {state : Option PartitionTransition}
  {header : Option PartitionHeader} {left right : PartitionKey}

lemma classifyAuthority_some {st : PartitionTransition}
    (hok : classifyAuthority header state = .ok (some (h, st))) :
    header = some h ∧ state = some st ∧ h.state = st.state := by
  cases header <;> cases state <;> simp only [classifyAuthority] at hok
  case some.some =>
    split_ifs at hok with hagree
    cases hok
    exact ⟨rfl, rfl, hagree⟩
  all_goals cases hok

lemma runs_authorityPair {o : Option (PartitionHeader × PartitionTransition)}
    (hrun : Runs C (authorityPair t p) s o s') :
    s.SameWrites s' ∧ (∀ k ∈ s.protectedKeys ++ [.header t p, .state t p], k ∈ s'.protectedKeys) ∧
      ∀ h st, o = some (h, st) → Store.header (s.onto C) t p = some h ∧
        Store.state (s.onto C) t p = some st ∧ h.state = st.state := by
  simp only [authorityPair, runs_bind, runs_getHeader, runs_getState, runs_ofExcept] at hrun
  obtain ⟨header, _, ⟨rfl, rfl, -⟩, _, _, ⟨rfl, rfl, -⟩, hclass, rfl, -⟩ := hrun
  refine ⟨⟨rfl, rfl⟩, ?_, ?_⟩
  · simp [Txn.protect]
    tauto
  · rintro h _ rfl
    exact classifyAuthority_some hclass

lemma runs_authorityPair_none (hrun : Runs C (authorityPair t p) s none s') :
    Store.header (s.onto C) t p = none ∧ Store.state (s.onto C) t p = none := by
  simp only [authorityPair, runs_bind, runs_getHeader, runs_getState, runs_ofExcept] at hrun
  obtain ⟨header, _, ⟨rfl, rfl, -⟩, state, _, ⟨rfl, rfl, -⟩, hclass, rfl, -⟩ := hrun
  rw [onto_protect] at hclass
  cases hh : Store.header (s.onto C) t p with
  | none =>
    cases hs : Store.state (s.onto C) t p with
    | none => exact ⟨rfl, rfl⟩
    | some state => simp [hh, hs, classifyAuthority] at hclass
  | some h =>
    cases hs : Store.state (s.onto C) t p with
    | none => simp [hh, hs, classifyAuthority] at hclass
    | some =>
      simp only [hh, hs, classifyAuthority] at hclass
      split_ifs at hclass
      cases hclass

/-! ### Trees -/

lemma leafEffects_createTree {outcome : TreeCreation}
    (hrun : Runs C (createTree ix t n) s outcome s') : LeafEffects ix (s.onto C) (s'.onto C) := by
  simp only [createTree, runs_bind, runs_insert, runs_ite, runs_put, runs_pure] at hrun
  obtain ⟨_, _, ⟨-, ⟨rfl, habsent, rfl⟩ | ⟨rfl, -, rfl⟩⟩, hrun⟩ := hrun
  · simp only [true_and, not_true_eq_false, false_and, or_false] at hrun
    obtain ⟨-, _, ⟨rfl, -⟩, -, _, ⟨rfl, -⟩, -, _, ⟨rfl, -⟩, -, rfl, -⟩ := hrun
    refine .single ?_
    simp only [onto_stage, onto_protect, Write.apply]
    exact leafEffect_createTree habsent
  · simp only [Bool.false_eq_true, false_and, not_false_eq_true, true_and, false_or] at hrun
    obtain ⟨-, rfl, -⟩ := hrun
    exact .refl

/-! ### Splits -/

lemma runs_reservePartitionKeys {r : PartitionKeyReservation}
    (hrun : Runs C (reservePartitionKeys t n) s r s') :
    ∃ m m', Store.treeManifest (s.onto C) t = some m ∧ r.next = m.partitionKeyHighWater + 1 ∧
      r.last = m'.partitionKeyHighWater ∧ s'.onto C = allocate (s.onto C) t m' := by
  simp only [reservePartitionKeys, runs_bind, runs_ensure, runs_getTreeManifest, runs_orFail,
    runs_ite, runs_fail, and_false, false_or] at hrun
  obtain ⟨-, _, ⟨-, rfl, -⟩, _, _, ⟨rfl, rfl, -⟩, m, _, ⟨hm, rfl, -⟩, -, hrun⟩ := hrun
  split_ifs at hrun with hlast
  · simp only [runs_bind, runs_put, runs_pure] at hrun
    obtain ⟨-, _, ⟨rfl, -⟩, rfl, rfl, -⟩ := hrun
    exact ⟨m, ⟨_, hlast.1, hlast.2⟩, hm, rfl, rfl, by simp [allocate, Write.apply]⟩
  · exact (runs_fail.mp hrun).elim

lemma runs_beginSplit {outcome : SplitStart} (hrun : Runs C (beginSplit ix t p n) s outcome s') :
    (s.SameWrites s' ∧ ∀ targets, outcome ≠ .started targets) ∨
      ∃ targets h m m' began, outcome = .started targets ∧ Store.header (s.onto C) t p = some h ∧
        Store.state (s.onto C) t p = some (.ready began) ∧ ix.maxEntries h.level < h.entryCount ∧
        Store.treeManifest (s.onto C) t = some m ∧ targets.left = m.partitionKeyHighWater + 1 ∧
        targets.right = m.partitionKeyHighWater + 2 ∧
        m'.partitionKeyHighWater = m.partitionKeyHighWater + 2 ∧
        s'.onto C = (allocate (s.onto C) t m').restate t p h (.splitting targets n) := by
  rw [beginSplit, runs_bind] at hrun
  obtain ⟨authority, s₁, hauth, hrun⟩ := hrun
  obtain ⟨hsame, -, hauth⟩ := runs_authorityPair hauth
  have hidle {o : SplitStart} (hpure : Runs C (pure o : WriteTxn SplitStart) s₁ outcome s')
      (ho : ∀ targets, o ≠ .started targets) :
      s.SameWrites s' ∧ ∀ targets, outcome ≠ .started targets := by
    obtain ⟨rfl, rfl, -⟩ := runs_pure.mp hpure
    exact ⟨hsame, ho⟩
  rcases authority with _ | ⟨h, state⟩
  · exact .inl (hidle hrun (by simp))
  obtain ⟨hheader, hstate, -⟩ := hauth h state rfl
  cases state with
  | ready began =>
    simp only [runs_ite, runs_bind, runs_ensure] at hrun
    rcases hrun with ⟨-, hrun⟩ | ⟨hfull, r, _, hreserve, -, _, ⟨hcount, rfl, -⟩, hrun⟩
    · exact .inl (hidle hrun (by simp))
    obtain ⟨m, m', hm, hnext, hlast, hstore⟩ := runs_reservePartitionKeys hreserve
    rw [hsame.onto_eq C] at hm hstore
    split_ifs at hrun with hne
    · simp only [runs_bind, runs_put, runs_pure] at hrun
      obtain ⟨-, _, ⟨rfl, -⟩, -, _, ⟨rfl, -⟩, rfl, rfl, -⟩ := hrun
      have hlast' : m'.partitionKeyHighWater = m.partitionKeyHighWater + 2 := by
        simp only [PartitionKeyReservation.count, splitTargets] at hcount
        grind
      refine .inr ⟨_, h, m, m', began, rfl, hheader, hstate, not_le.mp hfull, hm, hnext,
        hlast.trans hlast', hlast', ?_⟩
      simp only [onto_stage, Write.apply, hstore]
      rfl
    · exact (runs_fail.mp hrun).elim
  | _ => exact .inl (hidle hrun (by simp))

lemma leafEffects_beginSplit {outcome : SplitStart}
    (hrun : Runs C (beginSplit ix t p n) s outcome s') : LeafEffects ix (s.onto C) (s'.onto C) := by
  rcases runs_beginSplit hrun with ⟨hsame, -⟩ |
    ⟨targets, h, m, m', began, -, header, state, full, manifest, left, right, reserved, hstore⟩
  · rw [hsame.onto_eq C]
  · rw [hstore]
    exact .single (leafEffect_beginSplit header
      (.beginSplit header state full manifest left right reserved))

lemma run_reservePartitionKeys_short {m : TreeManifest} {count : ℕ} (hcount : count ≠ 0)
    (manifest : Store.treeManifest s.view t = some m)
    (short : u64Bound ≤ m.partitionKeyHighWater + count) :
    (reservePartitionKeys t count).run s = .error (.new .idExhausted) ∨
      ∃ r s', (reservePartitionKeys t count).run s = .ok (r, s') ∧ r.count < count := by
  have hlt := m.highWater_lt
  have hroot := m.root_le
  have hlast : min (m.partitionKeyHighWater + count) (u64Bound - 1) = u64Bound - 1 := by grind
  have hget : (getTreeManifest t).run s = .ok (some m, s.protect (.treeManifest t)) := by
    rw [← manifest]
    rfl
  rw [reservePartitionKeys, run_bind_ok (run_ensure hcount), run_bind_ok hget,
    run_bind_ok (a := m) rfl]
  by_cases hfull : m.partitionKeyHighWater + 1 = u64Bound
  · left
    rw [if_pos hfull]
    rfl
  · right
    rw [if_neg hfull, dif_pos (by rw [hlast]; exact ⟨by grind, by grind⟩)]
    refine ⟨_, _, run_bind_ok rfl, ?_⟩
    simp only [PartitionKeyReservation.count, hlast]
    grind

lemma beginSplit_exhausted {began : ℕ} {m : TreeManifest} (header : S.header t p = some h)
    (state : S.state t p = some (.ready began)) (ready : h.state = .ready)
    (full : ix.maxEntries h.level < h.entryCount) (manifest : S.treeManifest t = some m)
    (exhausted : u64Bound ≤ m.partitionKeyHighWater + 2) :
    (beginSplit ix t p n).run (Txn.start S) = .error (.new .idExhausted) := by
  have hauth : readAuthorityPair (Txn.start S).view t p = .ok (some (h, .ready began)) := by
    simp [readAuthorityPair, header, state, classifyAuthority, ready, PartitionTransition.state]
  rw [beginSplit, run_bind_ok (run_authorityPair hauth)]
  simp only [not_le.mpr full, if_false]
  rcases run_reservePartitionKeys_short (show splitTargets ≠ 0 by decide)
      (s := ((Txn.start S).protect (.header t p)).protect (.state t p)) manifest exhausted with
        herror | ⟨r, _, hok, hshort⟩
  · exact run_bind_error herror
  · rw [run_bind_ok hok]
    exact run_bind_error (run_ensure_not hshort.ne)

lemma runs_lockIncomingEdge (hrun : Runs C (lockIncomingEdge t p level known) s parent s') :
    s.SameWrites s' ∧ Store.childEntry (s.onto C) t parent p ≠ none ∧ ∀ q ∈ known, q = parent := by
  simp only [lockIncomingEdge] at hrun
  cases known with
  | none =>
    simp only [runs_bind, runs_read, runs_orFail, runs_pure, runs_requireChildEntry] at hrun
    obtain ⟨_, _, ⟨-, rfl, -⟩, _, _, ⟨-, rfl, -⟩, _, _, ⟨rfl, rfl, -⟩, e, _, ⟨he, rfl, -⟩, rfl, rfl,
      -⟩ := hrun
    exact ⟨⟨rfl, rfl⟩, by simp [he], by simp⟩
  | some q =>
    simp only [runs_bind, runs_pure, runs_requireChildEntry] at hrun
    obtain ⟨_, _, ⟨rfl, rfl, -⟩, e, _, ⟨he, rfl, -⟩, rfl, rfl, -⟩ := hrun
    exact ⟨⟨rfl, rfl⟩, by simp [he], by simp⟩

lemma parentLevel_ok {l : ℕ} (hok : parentLevel level = .ok l) : l = level + 1 := by
  rw [parentLevel] at hok
  split_ifs at hok
  cases hok
  rfl

lemma runs_acceptingParent_same {o : Option (PartitionKey × PartitionHeader)}
    (hrun : Runs C (acceptingParent ix t p level known) s o s') : s.SameWrites s' := by
  simp only [acceptingParent, runs_bind, runs_requireHeader, runs_ofExcept, runs_ensure, runs_ite,
    runs_pure] at hrun
  obtain ⟨q, s₁, hlock, k, _, ⟨-, rfl, -⟩, l, _, ⟨-, rfl, -⟩, -, _, ⟨-, rfl, -⟩,
    ⟨-, -, rfl, -⟩ | ⟨-, -, rfl, -⟩⟩ := hrun
  all_goals exact (runs_lockIncomingEdge hlock).1.trans (s₁.sameWrites_protect _)

lemma runs_acceptingParent
    (hrun : Runs C (acceptingParent ix t p level known) s (some (parent, k)) s') :
    (∀ q ∈ known, q = parent) ∧ Store.childEntry (s.onto C) t parent p ≠ none ∧
      Store.header (s.onto C) t parent = some k ∧ k.level = level + 1 ∧
      acceptsChildren ix k = true := by
  simp only [acceptingParent, runs_bind, runs_requireHeader, runs_ofExcept, runs_ensure, runs_ite,
    runs_pure, Option.some.injEq, Prod.mk.injEq, reduceCtorEq, false_and, and_false,
    or_false] at hrun
  obtain ⟨q, _, hlock, _, _, ⟨hk, rfl, -⟩, l, _, ⟨hl, rfl, -⟩, -, _, ⟨hlevel, rfl, -⟩, haccepts,
    ⟨rfl, rfl⟩, rfl, -⟩ := hrun
  obtain ⟨hsame, hedge, hknown⟩ := runs_lockIncomingEdge hlock
  rw [hsame.onto_eq C] at hk
  exact ⟨hknown, hedge, hk, hlevel.trans (parentLevel_ok hl), haccepts⟩

lemma runs_createTarget {parent : Option PartitionKey}
    (hrun : Runs C (createTarget ix t source h target v n parent) s u s') :
    s'.onto C = parent.elim (Store.createTarget ix (s.onto C) t source h target v n)
      fun parent => (Store.createTarget ix (s.onto C) t source h target v n).put
        (.childEntry t parent target) ⟨target, v⟩ := by
  unfold createTarget at hrun
  by_cases hl : h.level = 1
  · simp only [if_pos hl, runs_bind, runs_insertUnique] at hrun
    obtain ⟨-, _, ⟨-, rfl, -⟩, -, _, ⟨-, rfl, -⟩, -, _, ⟨-, rfl, -⟩, -, _,
      ⟨-, rfl, -⟩, hrun⟩ := hrun
    cases parent with
    | none =>
      obtain ⟨-, rfl, -⟩ := runs_pure.mp hrun
      simp [Write.apply, Store.createTarget, hl]
    | some parent =>
      obtain ⟨-, rfl, -⟩ := runs_insertUnique.mp hrun
      simp [Write.apply, Store.createTarget, hl]
  · simp only [if_neg hl, runs_bind, runs_insertUnique] at hrun
    obtain ⟨-, _, ⟨-, rfl, -⟩, -, _, ⟨-, rfl, -⟩, -, _, ⟨-, rfl, -⟩, hrun⟩ := hrun
    cases parent with
    | none =>
      obtain ⟨-, rfl, -⟩ := runs_pure.mp hrun
      simp [Write.apply, Store.createTarget, hl]
    | some =>
      obtain ⟨-, rfl, -⟩ := runs_insertUnique.mp hrun
      simp [Write.apply, Store.createTarget, hl]

lemma Store.createTarget_put_childEntry {q c : PartitionKey} {e : ChildEntry} :
    Store.createTarget ix (S.put (.childEntry t q c) e) t source h target v n =
      (S.createTarget ix t source h target v n).put (.childEntry t q c) e := by
  by_cases hl : h.level = 1
  · simp only [Store.createTarget, hl, if_true]
    iterate 4 rw [OrderedMap.put_comm _ (k := LogicalKey.childEntry t q c)]
    all_goals simp
  · simp only [Store.createTarget, hl, if_false]
    iterate 3 rw [OrderedMap.put_comm _ (k := LogicalKey.childEntry t q c)]
    all_goals simp

lemma Store.putChild_putChild {e e' : ChildEntry} {k' : PartitionHeader} :
    (S.putChild t p e k).putChild t p e' k' =
      ((S.put (.childEntry t p e.child) e).put (.childEntry t p e'.child) e').put
        (.header t p) k' := by
  simp only [putChild]
  rw [OrderedMap.put_comm (V := ValueOf) _ (k := .header t p) k, OrderedMap.put_put]
  simp

/-- What an exposure leaves: both targets of the source, and their edges in its
parent unless it is the root. -/
inductive Exposed (ix : Index) (t : TreeKey) (p : PartitionKey) (targets : SplitPair)
    (a b : VectorData) (n : ℕ) (known : Option PartitionKey) (S : Store) : Store → Prop
  | root {h : PartitionHeader} {began : ℕ} (isRoot : p = rootPartition)
      (header : S.header t p = some h) (state : S.state t p = some (.splitting targets began)) :
      Exposed ix t p targets a b n known S (((S.createTarget ix t p h targets.left a n).createTarget
        ix t p h targets.right b n).restate t p h (.drainingSplit targets n))
  | child {parent : PartitionKey} {h k k' k'' : PartitionHeader} {began : ℕ}
      (notRoot : p ≠ rootPartition) (found : ∀ q ∈ known, q = parent)
      (header : S.header t p = some h) (state : S.state t p = some (.splitting targets began))
      (edge : S.childEntry t parent p ≠ none) (parentHeader : S.header t parent = some k)
      (level : k.level = h.level + 1) (accepts : acceptsChildren ix k = true)
      (once : k.addedEntry = .ok k') (twice : k'.addedEntry = .ok k'') :
      Exposed ix t p targets a b n known S (((((S.createTarget ix t p h targets.left a
        n).createTarget ix t p h targets.right b n).putChild t parent ⟨targets.left, a⟩ k').putChild
          t parent ⟨targets.right, b⟩ k'').restate t p h (.drainingSplit targets n))

section

variable {S S' : Store} {targets : SplitPair} {a b : VectorData} {n : ℕ}
  {known : Option PartitionKey}

section
variable (hexposed : Exposed ix t p targets a b n known S S')
include hexposed

lemma Exposed.effect : Effect ix S S' := by
  cases hexposed with
  | root isRoot header state =>
    subst isRoot
    exact .exposeRoot header state
  | child notRoot _ header state edge parentHeader level accepts once twice =>
    exact .exposeChild notRoot header state edge parentHeader level accepts once twice

lemma Exposed.restated :
    ∃ (B : Store) (h : PartitionHeader), S' = B.restate t p h (.drainingSplit targets n) := by
  cases hexposed with
  | root | child => exact ⟨_, _, rfl⟩

end

end

lemma runs_exposeInto_root (hrun : Runs C (exposeInto ix t p h targets a b n none) s outcome s') :
    outcome = .exposed ∧ s'.onto C = ((Store.createTarget ix (s.onto C) t p h targets.left a
      n).createTarget ix t p h targets.right b n).restate t p h (.drainingSplit targets n) := by
  simp only [exposeInto, runs_bind, Option.map_none, runs_pure, runs_put] at hrun
  obtain ⟨_, _, hleft, _, _, hright, -, _, ⟨rfl, -⟩, -, _, ⟨rfl, -⟩, rfl, rfl, -⟩ := hrun
  have hl := runs_createTarget hleft
  have hr := runs_createTarget hright
  refine ⟨rfl, ?_⟩
  simp only [onto_stage, Write.apply, hr, hl, Option.elim_none]
  rfl

lemma runs_exposeInto_child
    (hrun : Runs C (exposeInto ix t p h targets a b n (some (parent, k))) s outcome s') :
    outcome = .exposed ∧ ∃ k' k'', k.addedEntry = .ok k' ∧ k'.addedEntry = .ok k'' ∧
      s'.onto C = ((((Store.createTarget ix (s.onto C) t p h targets.left a n).createTarget ix t p h
        targets.right b n).putChild t parent ⟨targets.left, a⟩ k').putChild t parent
          ⟨targets.right, b⟩ k'').restate t p h (.drainingSplit targets n) := by
  simp only [exposeInto, runs_bind, map_some, runs_pure, runs_put, runs_ofExcept] at hrun
  obtain ⟨_, _, hleft, _, _, hright, k', _, ⟨hk', rfl, -⟩, k'', _, ⟨hk'', rfl, -⟩, -, _,
    ⟨rfl, -⟩, -, _, ⟨rfl, -⟩, -, _, ⟨rfl, -⟩, rfl, rfl, -⟩ := hrun
  have hl := runs_createTarget hleft
  have hr := runs_createTarget hright
  refine ⟨rfl, k', k'', hk', hk'', ?_⟩
  simp only [onto_stage, Write.apply, hr, hl, elim_some,
    Store.createTarget_put_childEntry, Store.putChild_putChild]
  rfl

section
variable (hrun : Runs C (exposeSplitTargets ix t p left a right b n known) s outcome s')
include hrun

lemma runs_exposeSplitTargets :
    (s.SameWrites s' ∧ outcome ≠ .exposed) ∨ (outcome = .exposed ∧ ∃ targets : SplitPair,
      (left = targets.left ∧ right = targets.right) ∧
        Exposed ix t p targets a b n known (s.onto C) (s'.onto C)) := by
  rw [exposeSplitTargets, runs_bind] at hrun
  obtain ⟨authority, _, hauth, hrun⟩ := hrun
  obtain ⟨hsame, -, hauth⟩ := runs_authorityPair hauth
  have hidle {s₂ : Txn ValueOf} {o : SplitExposure} (hsame₂ : s.SameWrites s₂)
      (hpure : Runs C (pure o : WriteTxn SplitExposure) s₂ outcome s') (ho : o ≠ .exposed) :
      s.SameWrites s' ∧ outcome ≠ .exposed := by
    obtain ⟨rfl, rfl, -⟩ := runs_pure.mp hpure
    exact ⟨hsame₂, ho⟩
  rcases authority with _ | ⟨h, state⟩
  · exact .inl (hidle hsame hrun (by decide))
  obtain ⟨hheader, hstate, -⟩ := hauth h state rfl
  rw [← hsame.onto_eq C] at hheader hstate ⊢
  cases state with
  | splitting targets _ =>
    simp only [runs_bind, runs_ensure] at hrun
    obtain ⟨-, s₂, ⟨htargets, hs₂, -⟩, hrun⟩ := hrun
    rw [hs₂] at hrun
    split_ifs at hrun with hroot
    · obtain ⟨rfl, hstore⟩ := runs_exposeInto_root hrun
      rw [hstore]
      exact .inr ⟨rfl, targets, htargets, .root hroot hheader hstate⟩
    · rw [runs_bind] at hrun
      obtain ⟨parent, _, hparent, hrun⟩ := hrun
      have hsame₃ := runs_acceptingParent_same hparent
      cases parent with
      | none => exact .inl (hidle (hsame.trans hsame₃) hrun (by decide))
      | some parent =>
        obtain ⟨q, k⟩ := parent
        obtain ⟨hknown, hedge, hk, hlevel, haccepts⟩ := runs_acceptingParent hparent
        obtain ⟨rfl, _, _, hk', hk'', hstore⟩ := runs_exposeInto_child hrun
        rw [hstore, hsame₃.onto_eq C]
        exact .inr ⟨rfl, targets, htargets,
          .child hroot hknown hheader hstate hedge hk hlevel haccepts hk' hk''⟩
  | drainingSplit =>
    simp only [runs_bind, runs_ensure] at hrun
    obtain ⟨-, _, ⟨-, hs₂, -⟩, hrun⟩ := hrun
    rw [hs₂] at hrun
    exact .inl (hidle hsame hrun (by decide))
  | _ => exact .inl (hidle hsame hrun (by decide))

lemma effects_exposeSplitTargets : Effects ix (s.onto C) (s'.onto C) := by
  rcases runs_exposeSplitTargets hrun with ⟨hsame, -⟩ | ⟨-, _, -, hexposed⟩
  · rw [hsame.onto_eq C]
  · exact .single hexposed.effect

end

/-! ### Completions -/

lemma runs_removeIncomingEdge (hrun : Runs C (removeIncomingEdge t p level known) s parent s') :
    ∃ k k', (∀ q ∈ known, q = parent) ∧ Store.childEntry (s.onto C) t parent p ≠ none ∧
      Store.header (s.onto C) t parent = some k ∧ k.removedEntry = .ok k' ∧
      s'.onto C = eraseChild (s.onto C) t parent p k' := by
  simp only [removeIncomingEdge, runs_bind, runs_requireHeader, runs_ofExcept, runs_ensure,
    runs_delete, runs_put, runs_pure] at hrun
  obtain ⟨q, _, hlock, k, _, ⟨hk, rfl, -⟩, l, _, ⟨-, rfl, -⟩, -, _, ⟨-, rfl, -⟩, -, _, ⟨rfl, -⟩,
    k', _, ⟨hk', rfl, -⟩, -, _, ⟨rfl, -⟩, rfl, rfl, -⟩ := hrun
  obtain ⟨hsame, hedge, hknown⟩ := runs_lockIncomingEdge hlock
  rw [hsame.onto_eq C] at hk
  refine ⟨k, k', hknown, hedge, hk, hk', ?_⟩
  simp only [onto_stage, onto_protect, Write.apply, hsame.onto_eq C, eraseChild]

lemma effect_clear (hempty : S.entryCount t p = 0) :
    Effect ix (S.removePartition t p) (S.clear (partitionRange t p)) := by
  obtain ⟨hleaf, hchild⟩ := entryCount_eq_zero.mp hempty
  refine .graph (fun k hk => ?_) (.inr fun k _ => ?_)
  swap
  · simp only [lookup_clear, removePartition, lookup_erase]
    cases k <;> simp [partitionRange] <;> tauto
  simp only [lookup_clear, removePartition, lookup_erase]
  cases k with
  | leafEntry t' p' id =>
    simp only [partitionRange, and_eq_true, decide_eq_true_eq, reduceCtorEq, if_false]
    split_ifs with htp
    · obtain ⟨rfl, rfl⟩ := htp
      exact (hleaf id).symm
    · rfl
  | childEntry _ _ c =>
    simp only [partitionRange, and_eq_true, decide_eq_true_eq, reduceCtorEq, if_false]
    split_ifs with htp
    · obtain ⟨rfl, rfl⟩ := htp
      exact (hchild c).symm
    · rfl
  | graphDescriptor | graphChunk => cases hk
  | _ => simp [partitionRange]

def Store.removeSource (S : Store) (t : TreeKey) (p : PartitionKey) : SourceRemoval → Store
  | .transactionalClear => S.clear (partitionRange t p)
  | .pointDeletes => S.removePartition t p

lemma runs_removeSourcePrefix : Runs C (removeSourcePrefix t p removal) s u s' →
      s'.onto C = Store.removeSource (s.onto C) t p removal := by
  intro hrun
  cases removal with
  | transactionalClear =>
    obtain ⟨rfl, -⟩ := runs_clearRange.mp hrun
    simp only [onto_stage, Write.apply, Store.removeSource]
  | pointDeletes =>
    simp only [removeSourcePrefix, runs_bind, runs_delete] at hrun
    obtain ⟨-, _, ⟨rfl, -⟩, -, _, ⟨rfl, -⟩, -, _, ⟨rfl, -⟩, rfl, -⟩ := hrun
    simp only [onto_stage, Write.apply, Store.removeSource, removePartition]

lemma effects_removeSource (hempty : S.entryCount t p = 0) :
    Effects ix (S.removePartition t p) (S.removeSource t p removal) := by
  cases removal with
  | transactionalClear => exact .single (effect_clear hempty)
  | pointDeletes => exact .refl

lemma runs_promoteTarget
    (hrun : Runs C (promoteTarget t source level target n state header) s u s') :
    ∃ h m, header = some h ∧ state = some (.receivingSplit source m) ∧
      s' = (s.stage (.put (.state t target) (.ready n))).stage
        (.put (.header t target) (h.withState .ready)) := by
  simp only [promoteTarget, runs_bind, runs_orFail] at hrun
  obtain ⟨state', _, ⟨hstate, rfl, -⟩, hrun⟩ := hrun
  cases state' with
  | receivingSplit q m =>
    simp only [runs_bind, runs_ensure, runs_orFail, runs_put] at hrun
    obtain ⟨-, _, ⟨rfl, rfl, -⟩, h, _, ⟨hheader, rfl, -⟩, -, _, ⟨-, rfl, -⟩, -, _,
      ⟨-, rfl, -⟩, -, _,
      ⟨rfl, -⟩, rfl, -⟩ := hrun
    exact ⟨h, m, hheader, hstate, rfl⟩
  | _ => exact (runs_fail.mp hrun).elim

lemma runs_promoteRoot (hrun : Runs C (promoteRoot t h targets n) s u s') :
    ∃ a b h', Store.centroid s.view t targets.left = some a ∧
      Store.centroid s.view t targets.right = some b ∧ h'.level = h.level + 1 ∧
      h'.state = .ready ∧ h'.entryCount = h.entryCount + 2 ∧ h.cacheEpoch < h'.cacheEpoch ∧
      s'.onto C = Store.promoteRoot (s.onto C) t ⟨targets.left, a⟩ ⟨targets.right, b⟩ h' n := by
  simp only [promoteRoot, runs_bind, runs_read, runs_orFail, runs_insertUnique, runs_ofExcept,
    runs_delete, runs_put] at hrun
  obtain ⟨_, _, ⟨hread, rfl, -⟩, a, _, ⟨ha, rfl, -⟩, -, _, ⟨-, rfl, -⟩, k, _, ⟨hk, rfl, -⟩,
    b, _, ⟨hb, rfl, -⟩, -, _, ⟨-, rfl, -⟩, _, _, ⟨hk', rfl, -⟩, -, _, ⟨rfl, -⟩, h', _,
    ⟨hpromoted, rfl, -⟩, -, _, ⟨rfl, -⟩, rfl, -⟩ := hrun
  cases hread
  obtain ⟨hadj, hcount⟩ := addedEntry_ok hk
  obtain ⟨hadj', hcount'⟩ := addedEntry_ok hk'
  obtain ⟨hlevel, hcount'', hepoch, hready⟩ := PartitionHeader.promoted_ok hpromoted
  refine ⟨a, b, h', ha, hb, ?_, hready, by omega, ?_, ?_⟩
  · rw [hlevel, hadj'.level, hadj.level]
  · rw [hepoch, hadj'.cacheEpoch, hadj.cacheEpoch]
    omega
  · simp only [onto_stage, onto_protect, Write.apply, Store.promoteRoot]

lemma Reading.centroid_receiving (hr : Reading ix C s) {m : ℕ}
    (hview : Store.state s.view t p = some (.receivingSplit source m))
    (hstate : Store.state (s.onto C) t p = some (.receivingSplit source m))
    (ha : Store.centroid s.view t p = some a) : Store.centroid (s.onto C) t p = some a := by
  have hsome : (topology s.view t).phase p ≠ none := by
    simp [topology, hview]
  have hphase : (topology (s.onto C) t).phase p = some (.receiving source) := by
    simp [topology, hstate, PartitionTransition.phase]
  exact ((hr.evolves.topology t).receiving p source hsome hphase).2.trans ha

/-- What a completed split leaves: a root over its two targets, or no source. -/
inductive SplitFinished (t : TreeKey) (p : PartitionKey) (n : ℕ) (removal : SourceRemoval)
    (known : Option PartitionKey) (S : Store) : SplitCompletion → Store → Prop
  | root {h h' left right : PartitionHeader} {targets : SplitPair} {a b : VectorData} {began : ℕ}
      (isRoot : p = rootPartition) (header : S.header t p = some h)
      (state : S.state t p = some (.drainingSplit targets began)) (drained : h.entryCount = 0)
      (leftHeader : S.header t targets.left = some left)
      (rightHeader : S.header t targets.right = some right)
      (leftCentroid : S.centroid t targets.left = some a)
      (rightCentroid : S.centroid t targets.right = some b)
      (level : h'.level = h.level + 1) (ready : h'.state = .ready) (count : h'.entryCount = 2)
      (epoch : h.cacheEpoch < h'.cacheEpoch) :
      SplitFinished t p n removal known S (.completed none) (((S.restate t targets.left left
        (.ready n)).restate t targets.right right (.ready n)).promoteRoot t ⟨targets.left, a⟩
          ⟨targets.right, b⟩ h' n)
  | child {parent : PartitionKey} {h k k' left right : PartitionHeader} {targets : SplitPair}
      {began : ℕ} (notRoot : p ≠ rootPartition) (found : ∀ q ∈ known, q = parent)
      (header : S.header t p = some h)
      (state : S.state t p = some (.drainingSplit targets began)) (drained : h.entryCount = 0)
      (leftHeader : S.header t targets.left = some left)
      (rightHeader : S.header t targets.right = some right)
      (edge : S.childEntry t parent p ≠ none) (parentHeader : S.header t parent = some k)
      (removed : k.removedEntry = .ok k') :
      SplitFinished t p n removal known S (.completed (some parent)) ((((S.restate t targets.left
        left (.ready n)).restate t targets.right right (.ready n)).eraseChild t parent p
          k').removeSource t p removal)

inductive MergeFinished (t : TreeKey) (p : PartitionKey) (removal : SourceRemoval)
    (known : Option PartitionKey) (S : Store) : Store → Prop
  | child {parent : PartitionKey} {h k k' : PartitionHeader} {began : ℕ}
      (notRoot : p ≠ rootPartition) (found : ∀ q ∈ known, q = parent)
      (header : S.header t p = some h) (state : S.state t p = some (.merging began))
      (drained : h.entryCount = 0) (edge : S.childEntry t parent p ≠ none)
      (parentHeader : S.header t parent = some k) (removed : k.removedEntry = .ok k') :
      MergeFinished t p removal known S ((S.eraseChild t parent p k').removeSource t p removal)

section

variable {S S' : Store} {n : ℕ} {removal : SourceRemoval} {known : Option PartitionKey}

lemma Coherent.entryCount_unlinked (hS : Coherent ix S) {k' : PartitionHeader}
    (header : S.header t p = some h) (drained : h.entryCount = 0)
    (edge : S.childEntry t parent p ≠ none) {B : Store} (hB : SameEntries S B t p) :
    (B.eraseChild t parent p k').entryCount t p = 0 := by
  have hne := hS.parent_ne header edge
  have hentries : SameEntries B (B.eraseChild t parent p k') t p := by
    constructor <;> intro <;> simp [eraseChild, hne.symm]
  rw [(hB.trans hentries).entryCount_eq, ← (hS.bodies t p).count header, drained]

lemma SplitFinished.effects {outcome : SplitCompletion} (hS : Coherent ix S)
    (hfinished : SplitFinished t p n removal known S outcome S') : Effects ix S S' := by
  cases hfinished with
  | root isRoot header state drained leftHeader rightHeader leftCentroid rightCentroid level ready
      count epoch =>
    subst isRoot
    exact .single (.finishRoot header state drained leftHeader rightHeader leftCentroid
      rightCentroid level ready count epoch)
  | child notRoot _ header state drained leftHeader rightHeader edge parentHeader removed =>
    refine .head (.finishChild notRoot header state drained leftHeader rightHeader edge
      parentHeader removed) (effects_removeSource (hS.entryCount_unlinked header drained edge ?_))
    constructor <;> intro <;> simp [restate]

lemma MergeFinished.effects (hS : Coherent ix S)
    (hfinished : MergeFinished t p removal known S S') : Effects ix S S' := by
  obtain ⟨notRoot, _, header, state, drained, edge, parentHeader, removed⟩ := hfinished
  exact .head (.finishMerge notRoot header state drained edge parentHeader removed)
    (effects_removeSource (hS.entryCount_unlinked header drained edge .refl))

end

section

variable {outcome : SplitCompletion} (hr : Reading ix C s)
  (hrun : Runs C (finalizeSplit t p n removal known) s outcome s')

include hr hrun

lemma runs_finalizeSplit :
    (s.SameWrites s' ∧ ((outcome = .completed none ∧ Store.header (s.onto C) t p = none ∧
        Store.state (s.onto C) t p = none) ∨ ∀ parent, outcome ≠ .completed parent)) ∨
      SplitFinished t p n removal known (s.onto C) outcome (s'.onto C) := by
  rw [finalizeSplit, runs_bind] at hrun
  obtain ⟨authority, s₁, hread, hrun⟩ := hrun
  obtain ⟨hsame, -, hauth⟩ := runs_authorityPair hread
  have hr₁ := hr.of_sameWrites hsame
  have hidle {o : SplitCompletion}
    (hpure : Runs C (pure o : WriteTxn SplitCompletion) s₁ outcome s')
      (ho : ∀ parent, o ≠ .completed parent) :
      s.SameWrites s' ∧ ((outcome = .completed none ∧ Store.header (s.onto C) t p = none ∧
        Store.state (s.onto C) t p = none) ∨ ∀ parent, outcome ≠ .completed parent) := by
    obtain ⟨rfl, rfl, -⟩ := runs_pure.mp hpure
    exact ⟨hsame, .inr ho⟩
  rcases authority with _ | ⟨h, state⟩
  · obtain ⟨rfl, rfl, -⟩ := runs_pure.mp hrun
    exact .inl ⟨hsame, .inl ⟨rfl, runs_authorityPair_none hread⟩⟩
  obtain ⟨hheader, hstate, -⟩ := hauth h state rfl
  cases state with
  | drainingSplit targets =>
    simp only [runs_ite, runs_bind, runs_getState, runs_getHeader] at hrun
    rcases hrun with ⟨-, hrun⟩ | ⟨hcount, _, _, ⟨rfl, rfl, hls⟩, _, _, ⟨rfl, rfl, -⟩, _, _,
      ⟨rfl, rfl, hrs⟩, _, _, ⟨rfl, rfl, -⟩, _, _, hleft, _, _, hright, hrun⟩
    · exact .inl (hidle hrun (by simp))
    rw [← hsame.onto_eq C] at hheader hstate ⊢
    have hdrained : h.entryCount = 0 := by simpa using hcount
    obtain ⟨left, m, hl, hlstate, rfl⟩ := runs_promoteTarget hleft
    obtain ⟨right, _, hrh, hrstate, rfl⟩ := runs_promoteTarget hright
    simp only [onto_protect] at hl hlstate hrh hrstate
    right
    rcases hrun with ⟨rfl, _, _, hroot, hrun⟩ | ⟨hroot, parent, _, hparent, _, _, hremove, hrun⟩
    · obtain ⟨rfl, rfl, -⟩ := runs_pure.mp hrun
      obtain ⟨a, b, _, ha, hb, hlevel, hready, hcount', hepoch, hstore⟩ := runs_promoteRoot hroot
      have hlview : Store.state s₁.view t targets.left = Store.state (s₁.onto C) t targets.left :=
        hls.lookup_view mem_cons_self
      have hrview : Store.state s₁.view t targets.right =
          Store.state (s₁.onto C) t targets.right := hrs.lookup_view mem_cons_self
      have ha' := hr₁.centroid_receiving (hlview.trans hlstate) hlstate
        (by simpa [Write.apply] using ha)
      have hb' := hr₁.centroid_receiving (hrview.trans hrstate) hrstate
        (by simpa [Write.apply] using hb)
      rw [hstore]
      simp only [onto_stage, onto_protect, Write.apply]
      exact .root rfl hheader hstate hdrained hl hrh ha' hb' hlevel hready (by omega) hepoch
    · obtain ⟨rfl, rfl, -⟩ := runs_pure.mp hrun
      obtain ⟨k, _, hknown, hedge, hk, hk', hstore⟩ := runs_removeIncomingEdge hparent
      simp only [onto_stage, onto_protect, Write.apply] at hedge hk hstore
      have hedge' : Store.childEntry (s₁.onto C) t parent p ≠ none := by simpa using hedge
      have hne := hr₁.store.parent_ne_target hheader hstate hedge'
      rw [runs_removeSourcePrefix hremove, hstore]
      exact .child hroot hknown hheader hstate hdrained hl hrh hedge' (by simpa [hne] using hk) hk'
  | _ => exact .inl (hidle hrun (by simp))

lemma effects_finalizeSplit : Effects ix (s.onto C) (s'.onto C) := by
  rcases runs_finalizeSplit hr hrun with ⟨hsame, -⟩ | hfinished
  · rw [hsame.onto_eq C]
  · exact hfinished.effects hr.store

end

/-! ### Merges -/

/-- A committed `beginMerge` marks its source, or writes nothing. -/
lemma runs_beginMerge {outcome : MergeStart} (hrun : Runs C (beginMerge ix t p n) s outcome s') :
    (s.SameWrites s' ∧ outcome ≠ .started) ∨
      (outcome = .started ∧ LeafEffects ix (s.onto C) (s'.onto C) ∧
        ∃ h, s'.onto C = restate (s.onto C) t p h (.merging n)) := by
  rw [beginMerge, runs_bind] at hrun
  obtain ⟨authority, s₁, hauth, hrun⟩ := hrun
  obtain ⟨hsame, -, hauth⟩ := runs_authorityPair hauth
  have hidle {o : MergeStart} (hpure : Runs C (pure o : WriteTxn MergeStart) s₁ outcome s')
      (ho : o ≠ .started) : s.SameWrites s' ∧ outcome ≠ .started := by
    obtain ⟨rfl, rfl, -⟩ := runs_pure.mp hpure
    exact ⟨hsame, ho⟩
  rcases authority with _ | ⟨h, state⟩
  · exact .inl (hidle hrun (by decide))
  obtain ⟨hheader, hstate, -⟩ := hauth h state rfl
  cases state with
  | ready =>
    simp only [runs_ite, runs_bind, runs_read] at hrun
    rcases hrun with ⟨-, hrun⟩ | ⟨hroot, ⟨-, hrun⟩ | ⟨hsparse, _, _, ⟨-, rfl, -⟩, hrun⟩⟩
    · exact .inl (hidle hrun (by decide))
    · exact .inl (hidle hrun (by decide))
    split at hrun
    · simp only [runs_bind, runs_requireChildEntry, runs_ite, runs_put] at hrun
      obtain ⟨e, _, ⟨hedge, rfl, -⟩, ⟨-, -, _, ⟨rfl, -⟩, -, _, ⟨rfl, -⟩, hrun⟩ | ⟨-, hrun⟩⟩ := hrun
      · obtain ⟨rfl, rfl, -⟩ := runs_pure.mp hrun
        rw [hsame.onto_eq C] at hedge
        simp only [onto_stage, onto_protect, Write.apply, hsame.onto_eq C]
        exact .inr ⟨trivial, .single (leafEffect_restate hheader (.beginMerge hroot hheader hstate
          (not_le.mp hsparse) (ne_none_iff_exists'.mpr ⟨e, hedge⟩))), h, rfl⟩
      · obtain ⟨rfl, rfl, -⟩ := runs_pure.mp hrun
        exact .inl ⟨hsame.trans (Txn.sameWrites_protect _ _), by decide⟩
    · exact (runs_fail.mp hrun).elim
  | _ => exact .inl (hidle hrun (by decide))

lemma leafEffects_beginMerge {outcome : MergeStart}
    (hrun : Runs C (beginMerge ix t p n) s outcome s') : LeafEffects ix (s.onto C) (s'.onto C) := by
  rcases runs_beginMerge hrun with ⟨hsame, -⟩ | ⟨-, heffects, -⟩
  · rw [hsame.onto_eq C]
  · exact heffects

lemma runs_finalizeMerge {outcome : MergeCompletion}
    (hrun : Runs C (finalizeMerge t p removal known) s outcome s') :
    (s.SameWrites s' ∧ (outcome = .completed → Store.header (s.onto C) t p = none ∧
        Store.state (s.onto C) t p = none)) ∨
      (outcome = .completed ∧ MergeFinished t p removal known (s.onto C) (s'.onto C)) := by
  rw [finalizeMerge, runs_bind] at hrun
  obtain ⟨authority, s₁, hread, hrun⟩ := hrun
  obtain ⟨hsame, -, hauth⟩ := runs_authorityPair hread
  have hidle {o : MergeCompletion}
    (hpure : Runs C (pure o : WriteTxn MergeCompletion) s₁ outcome s')
      (ho : o ≠ .completed) : s.SameWrites s' ∧ (outcome = .completed →
        Store.header (s.onto C) t p = none ∧ Store.state (s.onto C) t p = none) := by
    obtain ⟨rfl, rfl, -⟩ := runs_pure.mp hpure
    exact ⟨hsame, fun h => absurd h ho⟩
  rcases authority with _ | ⟨h, state⟩
  · obtain ⟨rfl, rfl, -⟩ := runs_pure.mp hrun
    exact .inl ⟨hsame, fun _ => runs_authorityPair_none hread⟩
  obtain ⟨hheader, hstate, -⟩ := hauth h state rfl
  cases state with
  | merging =>
    simp only [runs_ite, runs_bind, runs_fail, and_false, false_or] at hrun
    obtain ⟨hroot, ⟨-, hrun⟩ | ⟨hcount, _, _, hparent, _, _, hremove, hrun⟩⟩ := hrun
    · exact .inl (hidle hrun (by decide))
    obtain ⟨rfl, rfl, -⟩ := runs_pure.mp hrun
    rw [← hsame.onto_eq C] at hheader hstate ⊢
    have hdrained : h.entryCount = 0 := by simpa using hcount
    obtain ⟨k, _, hknown, hedge, hk, hk', hs₂⟩ := runs_removeIncomingEdge hparent
    rw [runs_removeSourcePrefix hremove, hs₂]
    exact .inr ⟨rfl, .child hroot hknown hheader hstate hdrained hedge hk hk'⟩
  | _ => exact .inl (hidle hrun (by decide))

lemma effects_finalizeMerge {outcome : MergeCompletion} (hstore : Coherent ix (s.onto C))
    (hrun : Runs C (finalizeMerge t p removal known) s outcome s') :
    Effects ix (s.onto C) (s'.onto C) := by
  rcases runs_finalizeMerge hrun with ⟨hsame, -⟩ | ⟨-, hfinished⟩
  · rw [hsame.onto_eq C]
  · exact hfinished.effects hstore

/-! ### Centroids -/

lemma effects_updateCentroid (hrun : Runs C (updateCentroid t p parent v) s u s') :
    Effects ix (s.onto C) (s'.onto C) := by
  simp only [updateCentroid, runs_bind, runs_ensure, runs_requireHeader, runs_requireCentroid,
    runs_requireChildEntry, runs_ite, runs_ofExcept, runs_put] at hrun
  obtain ⟨-, _, ⟨hroot, rfl, -⟩, h, _, ⟨hh, rfl, -⟩, k, _, ⟨hk, rfl, -⟩, _, _, ⟨-, rfl, -⟩, e, _,
    ⟨he, rfl, -⟩, -, _, ⟨hready, rfl, -⟩, ⟨-, hrun⟩ | ⟨-, _, _, ⟨hk', rfl, -⟩, -, _, ⟨rfl, -⟩, -, _,
    ⟨rfl, -⟩, rfl, -⟩⟩ := hrun
  · obtain ⟨-, rfl, -⟩ := runs_pure.mp hrun
    exact .refl
  · simp only [onto_protect] at hk he
    refine .single ?_
    simp only [onto_stage, onto_protect, Write.apply]
    exact .recenter hroot.1 hh hready.1 (by simp [he]) hk hready.2.1 hk'

end

export Store (removeSource)
