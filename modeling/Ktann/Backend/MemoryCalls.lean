/-
What a call of a write transaction does.

The changes a transaction has staged are a list of operations, in the order of
its calls.  Its private view is that list replayed on its snapshot, and its net
effect is that of the list (`Staged`).  Every call keeps this, a failed one with
the same list (`call_spec`), and every answer is that of the view.

* `Op`, `replayOps`, `latest` — operations, their replay and the last one on a
  key;
* `Call`, `WriteTxn.call` — the calls of a transaction;
* `Answers` — what an answer says about the snapshot and the staged operations.
-/
import Ktann.Backend.Memory

namespace Memory

open KeySpace (KeyRange)

/-! ### Operations -/

/-- One staged change. -/
inductive Op
  | write (key : Bytes) (value : Option Bytes)
  | clear (range : KeyRange)

/-- An operation changes a key. -/
def Op.Touches (key : Bytes) : Op → Prop
  | write key' _ => key = key'
  | clear range => contains range key = true

/-- What an operation does to one key. -/
def Op.effect (key : Bytes) : Op → Option (Option Bytes)
  | write key' value => if key = key' then some value else none
  | clear range => if contains range key then some none else none

def Op.apply (data : Store) : Op → Store
  | write key value => setKey data key value
  | clear range => data.clear (contains range)

/-- Operations, one after the other. -/
def replayOps (ops : List Op) (data : Store) : Store := ops.foldl Op.apply data

/-- The effect of the last operation on a key. -/
def latest (ops : List Op) (key : Bytes) : Option (Option Bytes) :=
  ops.foldl (fun last op => (op.effect key).or last) none

lemma latest_append (ops : List Op) (op : Op) (key : Bytes) :
    latest (ops ++ [op]) key = (op.effect key).or (latest ops key) := by
  rw [latest, List.foldl_append]
  rfl

variable {key : Bytes} {config : Config} {data : Store}

lemma effect_ne_none {op : Op} : op.effect key ≠ none ↔ op.Touches key := by
  cases op with
  | write key' => by_cases h : key = key' <;> simp [Op.effect, Op.Touches, h]
  | clear range => by_cases h : contains range key = true <;> simp [Op.effect, Op.Touches, h]

lemma latest_ne_none {ops : List Op} : latest ops key ≠ none ↔ ∃ op ∈ ops, op.Touches key := by
  induction ops using List.reverseRecOn with
  | nil => simp [latest]
  | append_singleton _ op ih =>
    rw [latest_append, ne_eq, Option.or_eq_none_iff, not_and_or, ← ne_eq, ← ne_eq, ih,
      effect_ne_none]
    simp only [mem_append, mem_singleton]
    constructor
    · rintro (h | ⟨op', hop', h⟩)
      · exact ⟨op, .inr rfl, h⟩
      · exact ⟨op', .inl hop', h⟩
    · rintro ⟨op', hop' | rfl, h⟩
      · exact .inr ⟨op', hop', h⟩
      · exact .inl h

lemma lookup_apply (data : Store) (op : Op) (key : Bytes) :
    (op.apply data).lookup key = (op.effect key).getD (data.lookup key) := by
  cases op with
  | write =>
    rw [Op.apply, lookup_setKey, Op.effect]
    split_ifs <;> rfl
  | clear range =>
    rw [Op.apply, lookup_clear, Op.effect]
    by_cases h : contains range key = true <;> simp [h]

lemma lookup_replayOps (ops : List Op) (data : Store) (key : Bytes) :
    (replayOps ops data).lookup key = (latest ops key).getD (data.lookup key) := by
  induction ops using List.reverseRecOn with
  | nil => rfl
  | append_singleton ops op ih =>
    have hreplay : replayOps (ops ++ [op]) data = op.apply (replayOps ops data) := by
      rw [replayOps, List.foldl_append]
      rfl
    rw [hreplay, lookup_apply, ih, latest_append]
    cases op.effect key <;> rfl

/-! ### Staged operations -/

structure Staged (txn : WriteTxn) (snapshot : Store) (ops : List Op) : Prop where
  ordered : Ordered txn.clears
  pending : ∀ key, txn.pending key = latest ops key
  view : ∀ key, txn.view.lookup key = (latest ops key).getD (snapshot.lookup key)

namespace Staged
variable {config : Config} {txn txn' : WriteTxn} {snapshot : Store} {ops : List Op}

section
variable (h : Staged txn snapshot ops)
include h

lemma view_eq : txn.view = replayOps ops snapshot :=
  OrderedMap.ext fun key => by rw [h.view, lookup_replayOps]

lemma congr (hview : txn'.view = txn.view) (hwrites : txn'.writes = txn.writes)
    (hclears : txn'.clears = txn.clears) : Staged txn' snapshot ops where
  ordered := hclears ▸ h.ordered
  pending key := by
    rw [← h.pending key, WriteTxn.pending, WriteTxn.pending, hwrites, hclears]
  view key := by rw [hview, h.view]

lemma charged (count bytes : ℕ) :
    Staged { txn with mutationCount := count, mutationBytes := bytes } snapshot ops :=
  h.congr rfl rfl rfl

lemma applyPoint (key : Bytes) (value : Option Bytes) :
    Staged (txn.applyPoint key value) snapshot (ops ++ [.write key value]) where
  ordered := h.ordered
  pending key' := by
    rw [pending_applyPoint, latest_append, Op.effect, h.pending]
    split_ifs <;> rfl
  view key' := by
    rw [WriteTxn.applyPoint, lookup_setKey, latest_append, Op.effect, h.view]
    split_ifs <;> rfl

lemma applyPoints (points : List (Bytes × Option Bytes)) :
    Staged (points.foldl (fun txn point => txn.applyPoint point.1 point.2) txn) snapshot
      (ops ++ points.map fun point => .write point.1 point.2) := by
  induction points generalizing txn ops with
  | nil => rwa [List.map_nil, append_nil]
  | cons point _ ih =>
    have hstep := ih (h.applyPoint point.1 point.2)
    rwa [append_assoc] at hstep

lemma stage {key : Bytes} {value : Option Bytes}
    (hstage : txn.stage config key value = .ok txn') :
    Staged txn' snapshot (ops ++ [.write key value]) ∧ txn'.revision = txn.revision ∧
      txn'.reserved = txn.reserved := by
  simp only [WriteTxn.stage, bind_eq_ok] at hstage
  obtain ⟨_, _, _, _, hstage⟩ := hstage
  split_ifs at hstage
  cases hstage
  exact ⟨(h.charged _ _).applyPoint key value, rfl, rfl⟩

lemma stageClear {range : KeyRange} (hstage : txn.stageClear config range = .ok txn') :
    Staged txn' snapshot (ops ++ [.clear range]) ∧ txn'.revision = txn.revision ∧
      txn'.reserved = txn.reserved := by
  rw [WriteTxn.stageClear] at hstage
  split_ifs at hstage with hempty
  · -- an empty range has no key
    cases hstage
    have heffect (key : Bytes) : (Op.clear range).effect key = none := by
      have hkey : contains range key = false := by
        rw [contains, Bool.and_eq_false_iff, decide_eq_false_iff_not, decide_eq_false_iff_not,
          not_le, not_lt]
        exact (lt_or_ge key range.start).imp id hempty.trans
      rw [Op.effect, hkey]
      rfl
    refine ⟨⟨h.ordered, fun key => ?_, fun key => ?_⟩, rfl, rfl⟩
    · rw [latest_append, heffect, h.pending]
      rfl
    · rw [latest_append, heffect, h.view]
      rfl
  · simp only [bind_eq_ok] at hstage
    obtain ⟨_, _, _, _, hstage⟩ := hstage
    split_ifs at hstage
    cases hstage
    have hcovers (key : Bytes) : covers (mergeClearRange txn.clears range) key =
        (covers txn.clears key || contains range key) := covers_mergeFrom h.ordered key
    refine ⟨⟨ordered_mergeFrom h.ordered (not_le.mp hempty), fun key => ?_, fun key => ?_⟩,
      rfl, rfl⟩
    · rw [latest_append, ← h.pending, Op.effect, WriteTxn.pending, WriteTxn.pending]
      dsimp only
      rw [lookup_clear, hcovers]
      by_cases hkey : contains range key = true <;> simp [hkey]
    · rw [latest_append, Op.effect]
      dsimp only
      rw [lookup_clear, h.view]
      by_cases hkey : contains range key = true <;> simp [hkey]

end

end Staged

/-! ### Calls -/

inductive Call
  | get (key : Bytes)
  | batchGet (keys : List Bytes)
  | scan (range : KeyRange) (limits : ScanLimits)
  | batchScan (ranges : List KeyRange) (limits : ScanLimits)
  | getForUpdate (key : Bytes)
  | batchGetForUpdate (keys : List Bytes)
  | put (key value : Bytes)
  | insert (key value : Bytes)
  | delete (key : Bytes)
  | batchMutate (mutations : List Mutation)
  | clearRange (range : KeyRange)

/-- What a call returns. -/
inductive Output
  | done
  | value (value : Option Bytes)
  | values (values : List (Option Bytes))
  | inserted (inserted : Bool)
  | page (page : ScanPage)
  | pages (pages : List ScanPage)

/-- A call that changes nothing when it fails. -/
def settle {α : Type} (txn : WriteTxn) (result : Except Error (α × WriteTxn))
    (output : α → Output) : Except Error Output × WriteTxn :=
  match result with
  | .error e => (.error e, txn)
  | .ok (a, txn) => (.ok (output a), txn)

/-- The reads that every transaction has; the other calls need a writer. -/
def readCall (config : Config) (data : Store) : Call → Except Error Output
  | .get key => (lookupKey config data key).map .value
  | .batchGet keys => (lookupBatch config data keys).map .values
  | .scan range limits => (scanPage config data range limits).map .page
  | .batchScan ranges limits => (Memory.batchScan config data ranges limits).map .pages
  | _ => .error (.new .unsupported)

def WriteTxn.call (config : Config) (txn : WriteTxn) : Call → Except Error Output × WriteTxn
  | .getForUpdate key => settle txn (txn.getForUpdate config key) .value
  | .batchGetForUpdate keys => settle txn (txn.batchGetForUpdate config keys) .values
  | .put key value => settle txn ((txn.stage config key (some value)).map ((), ·)) fun _ => .done
  | .delete key => settle txn ((txn.stage config key none).map ((), ·)) fun _ => .done
  | .insert key value =>
    ((txn.insert config key value).1.map .inserted, (txn.insert config key value).2)
  | .batchMutate mutations =>
    settle txn ((txn.batchMutate config mutations).map ((), ·)) fun _ => .done
  | .clearRange range => settle txn ((txn.clearRange config range).map ((), ·)) fun _ => .done
  | read => (readCall config txn.view read, txn)

/-- The operation of a batched mutation. -/
def Mutation.ops : Mutation → List Op
  | put key value => [.write key (some value)]
  | delete key => [.write key none]
  | unknown => []

/-- The operations a successful call stages. -/
def Call.ops : Call → Output → List Op
  | put key value, _ => [.write key (some value)]
  | delete key, _ => [.write key none]
  | insert key value, .inserted true => [.write key (some value)]
  | batchMutate mutations, _ => mutations.flatMap Mutation.ops
  | clearRange range, _ => [.clear range]
  | _, _ => []

/-- The keys a successful call reads for update or inserts. -/
def Call.reserves : Call → List Bytes
  | getForUpdate key => [key]
  | batchGetForUpdate keys => keys
  | insert key _ => [key]
  | _ => []

/-- A transaction sees its own latest write of a key, or else the value at its
snapshot. -/
def seen (snapshot : Store) (staged : List Op) (key : Bytes) : Option Bytes :=
  (latest staged key).getD (snapshot.lookup key)

/-- A page holds the leading entries a transaction sees in a range, all of them
when no page follows. -/
def PageOf (snapshot : Store) (staged : List Op) (range : KeyRange) (page : ScanPage) : Prop :=
  page.items <+: entriesIn (replayOps staged snapshot) range ∧
    (page.nextStart = none → page.items = entriesIn (replayOps staged snapshot) range)

def Answers (snapshot : Store) (staged : List Op) : Call → Output → Prop
  | .get key, .value value => value = seen snapshot staged key
  | .getForUpdate key, .value value => value = seen snapshot staged key
  | .batchGet keys, .values values => values = keys.map (seen snapshot staged)
  | .batchGetForUpdate keys, .values values => values = keys.map (seen snapshot staged)
  | .insert key _, .inserted inserted => inserted = (seen snapshot staged key).isNone
  | .scan range _, .page page => PageOf snapshot staged range page
  | .batchScan ranges _, .pages pages => List.Forall₂ (PageOf snapshot staged) ranges pages
  | _, _ => True

/-! ### Reads -/

lemma lookupKey_ok {value : Option Bytes} (h : lookupKey config data key = .ok value) :
    value = data.lookup key := by
  obtain ⟨_, _, h⟩ := bind_eq_ok.mp h
  exact (Except.ok.inj h).symm

variable {keys : List Bytes} {values : List (Option Bytes)} {range : KeyRange}

lemma map_lookup_of_forall₂
    (h : List.Forall₂ (fun key value => lookupKey config data key = .ok value) keys values) :
    values = keys.map data.lookup := by
  induction h with
  | nil => rfl
  | cons hhead _ ih => rw [map_cons, lookupKey_ok hhead, ih]

lemma lookupBatch_ok (h : lookupBatch config data keys = .ok values) :
    values = keys.map data.lookup := by
  obtain ⟨_, _, h⟩ := bind_eq_ok.mp h
  exact map_lookup_of_forall₂ (mapM_eq_ok.mp h)

lemma pageFrom_ok {limits : ScanLimits} {rest items : List (Bytes × Bytes)} {bytes : ℕ}
    {page : ScanPage} (h : pageFrom config limits rest items bytes = .ok page) :
    page.items <+: items ++ rest ∧ (page.nextStart = none → page.items = items ++ rest) := by
  induction rest generalizing items bytes with
  | nil =>
    cases h
    rw [append_nil]
    exact ⟨prefix_rfl, fun _ => rfl⟩
  | cons entry _ ih =>
    obtain ⟨_, _⟩ := entry
    rw [pageFrom] at h
    split_ifs at h
    · rw [ScanPage.continued] at h
      cases hlast : items.getLast? with
      | none =>
        rw [hlast] at h
        cases h
      | some =>
        rw [hlast] at h
        cases h
        exact ⟨List.prefix_append _ _, nofun⟩
    · have hstep := ih h
      rwa [append_assoc] at hstep

lemma entriesIn_of_le (h : range.stop ≤ range.start) : entriesIn data range = [] := by
  rw [entriesIn, List.map_eq_nil_iff, OrderedMap.scan, filter_eq_nil_iff]
  intro e _ hkey
  rw [contains, and_eq_true, decide_eq_true_eq, decide_eq_true_eq] at hkey
  exact absurd (hkey.1.trans_lt hkey.2) (not_lt.mpr h)

lemma scanPage_ok {snapshot : Store} {staged : List Op} {limits : ScanLimits} {page : ScanPage}
    (h : scanPage config (replayOps staged snapshot) range limits = .ok page) :
    PageOf snapshot staged range page := by
  obtain ⟨_, _, h⟩ := bind_eq_ok.mp h
  split_ifs at h with hempty
  · cases h
    rw [PageOf, entriesIn_of_le hempty]
    exact ⟨prefix_rfl, fun _ => rfl⟩
  · obtain ⟨_, _, h⟩ := bind_eq_ok.mp h
    obtain ⟨_, _, h⟩ := bind_eq_ok.mp h
    exact pageFrom_ok h

lemma map_eq_ok {ε α β : Type} {x : Except ε α} {f : α → β} {b : β} (h : x.map f = .ok b) :
    ∃ a, x = .ok a ∧ f a = b := by
  cases x with
  | error e => cases h
  | ok a => exact ⟨a, rfl, Except.ok.inj h⟩

lemma seen_eq (snapshot : Store) (staged : List Op) :
    (replayOps staged snapshot).lookup = seen snapshot staged :=
  funext fun key => lookup_replayOps staged snapshot key

lemma readCall_answers {snapshot : Store} {staged : List Op} {c : Call} {output : Output}
    (h : readCall config (replayOps staged snapshot) c = .ok output) :
    Answers snapshot staged c output := by
  cases c with
  | get _ =>
    obtain ⟨_, hvalue, rfl⟩ := map_eq_ok h
    rw [Answers, lookupKey_ok hvalue, seen_eq]
  | batchGet =>
    obtain ⟨_, hvalues, rfl⟩ := map_eq_ok h
    rw [Answers, lookupBatch_ok hvalues, seen_eq]
  | scan _ _ =>
    obtain ⟨_, hpage, rfl⟩ := map_eq_ok h
    exact scanPage_ok hpage
  | batchScan =>
    obtain ⟨_, hpages, rfl⟩ := map_eq_ok h
    obtain ⟨_, _, hpages⟩ := bind_eq_ok.mp hpages
    obtain ⟨_, _, hpages⟩ := bind_eq_ok.mp hpages
    exact (mapM_eq_ok.mp hpages).imp fun _ _ => scanPage_ok
  | _ => cases h

lemma readCall_ops {c : Call} {output : Output} (h : readCall config data c = .ok output) :
    c.ops output = [] ∧ c.reserves = [] := by
  cases c with
  | get | batchGet | scan | batchScan => exact ⟨rfl, rfl⟩
  | _ => cases h

/-! ### The call -/

/-- What a call leaves behind: the snapshot revision, at least the protected keys,
and the staged operations, with those of the call when it succeeds. -/
structure CallSpec (txn : WriteTxn) (snapshot : Store) (staged : List Op) (c : Call)
    (after : Except Error Output × WriteTxn) : Prop where
  revision : after.2.revision = txn.revision
  reserved : txn.reserved ⊆ after.2.reserved
  ok : ∀ output, after.1 = .ok output → Staged after.2 snapshot (staged ++ c.ops output) ∧
    c.reserves.toFinset ⊆ after.2.reserved ∧ Answers snapshot staged c output
  error : ∀ e, after.1 = .error e →
    after.2.view = txn.view ∧ after.2.writes = txn.writes ∧ after.2.clears = txn.clears

section
variable {config : Config} {txn txn' : WriteTxn} {snapshot : Store} {staged : List Op} {c : Call}

lemma callSpec_settle {α : Type} {result : Except Error (α × WriteTxn)} {output : α → Output}
    (h : ∀ a txn', result = .ok (a, txn') → txn'.revision = txn.revision ∧
      txn.reserved ⊆ txn'.reserved ∧ Staged txn' snapshot (staged ++ c.ops (output a)) ∧
      c.reserves.toFinset ⊆ txn'.reserved ∧ Answers snapshot staged c (output a)) :
    CallSpec txn snapshot staged c (settle txn result output) := by
  cases result with
  | error e =>
    exact ⟨rfl, subset_rfl, nofun, fun _ _ => ⟨rfl, rfl, rfl⟩⟩
  | ok pair =>
    obtain ⟨a, txn'⟩ := pair
    obtain ⟨hrevision, hreserved, hstaged, hreserves, hanswers⟩ := h a txn' rfl
    refine ⟨hrevision, hreserved, ?_, nofun⟩
    intro _ hout
    cases hout
    exact ⟨hstaged, hreserves, hanswers⟩

lemma protect_ok (h : txn.protect config keys = .ok txn') :
    txn' = { txn with reserved := txn.reserved ∪ keys.toFinset } := by
  rw [WriteTxn.protect] at h
  split_ifs at h
  exact (Except.ok.inj h).symm

variable {key : Bytes} {mutations : List Mutation}

lemma callSpec_stage {value : Option Bytes} (hstaged : Staged txn snapshot staged)
    (hops : c.ops .done = [.write key value]) (hreserves : c.reserves = [])
    (hanswers : Answers snapshot staged c .done) : CallSpec txn snapshot staged c
      (settle txn ((txn.stage config key value).map (((), ·) : WriteTxn → Unit × WriteTxn))
        fun _ => Output.done) := by
  refine callSpec_settle fun a txn' h => ?_
  obtain ⟨_, hstage, hpair⟩ := map_eq_ok h
  cases hpair
  obtain ⟨hs, hrevision, hreserved⟩ := hstaged.stage hstage
  rw [hops, hreserves, hreserved]
  exact ⟨hrevision, subset_rfl, hs, Finset.empty_subset _, hanswers⟩

lemma validateBatch_ops {bytes bytes' : ℕ} {points : List (Bytes × Option Bytes)}
    (h : validateBatch config mutations bytes = .ok (points, bytes')) :
    points.map (fun point => Op.write point.1 point.2) = mutations.flatMap Mutation.ops := by
  induction mutations generalizing bytes points with
  | nil =>
    cases h
    rfl
  | cons mutation _ ih =>
    simp only [validateBatch, bind_eq_ok] at h
    obtain ⟨⟨key, value⟩, hpoint, _, _, h⟩ := h
    split_ifs at h
    obtain ⟨⟨_, _⟩, hrest, h⟩ := bind_eq_ok.mp h
    cases h
    have hop : [Op.write key value] = mutation.ops := by
      cases mutation with
      | unknown => cases hpoint
      | _ =>
        cases hpoint
        rfl
    rw [map_cons, ih hrest, flatMap_cons, ← hop]
    rfl

lemma revision_applyPoints (points : List (Bytes × Option Bytes)) (txn : WriteTxn) :
    (points.foldl (fun txn point => txn.applyPoint point.1 point.2) txn).revision = txn.revision ∧
      (points.foldl (fun txn point => txn.applyPoint point.1 point.2) txn).reserved =
        txn.reserved := by
  induction points generalizing txn with
  | nil => exact ⟨rfl, rfl⟩
  | cons _ _ ih => exact ih _

section
variable (hstaged : Staged txn snapshot staged)
include hstaged

lemma callSpec_batchMutate : CallSpec txn snapshot staged (.batchMutate mutations)
      (txn.call config (.batchMutate mutations)) := by
  refine callSpec_settle fun a txn' h => ?_
  obtain ⟨_, hbatch, hpair⟩ := map_eq_ok h
  cases hpair
  obtain ⟨_, _, hbatch⟩ := bind_eq_ok.mp hbatch
  split_ifs at hbatch
  obtain ⟨⟨points, bytes⟩, hpoints, hbatch⟩ := bind_eq_ok.mp hbatch
  obtain ⟨_, _, hbatch⟩ := bind_eq_ok.mp hbatch
  cases hbatch
  obtain ⟨hrevision, hreserved⟩ := revision_applyPoints points
    { txn with mutationCount := txn.mutationCount + mutations.length, mutationBytes := bytes }
  rw [hrevision, hreserved]
  refine ⟨rfl, subset_rfl, ?_, Finset.empty_subset _, trivial⟩
  have hs := (hstaged.charged (txn.mutationCount + mutations.length) bytes).applyPoints points
  rwa [validateBatch_ops hpoints] at hs

lemma callSpec_clearRange : CallSpec txn snapshot staged (.clearRange range)
      (txn.call config (.clearRange range)) := by
  refine callSpec_settle fun a txn' h => ?_
  obtain ⟨_, hclear, hpair⟩ := map_eq_ok h
  cases hpair
  rw [WriteTxn.clearRange] at hclear
  split_ifs at hclear
  obtain ⟨hs, hrevision, hreserved⟩ := hstaged.stageClear hclear
  rw [hreserved]
  exact ⟨hrevision, subset_rfl, hs, Finset.empty_subset _, trivial⟩

lemma callSpec_getForUpdate : CallSpec txn snapshot staged (.getForUpdate key)
      (txn.call config (.getForUpdate key)) := by
  refine callSpec_settle fun a txn' h => ?_
  obtain ⟨value, hvalue, h⟩ := bind_eq_ok.mp h
  obtain ⟨_, hprotect, h⟩ := bind_eq_ok.mp h
  cases h
  obtain rfl := protect_ok hprotect
  refine ⟨rfl, Finset.subset_union_left, ?_, Finset.subset_union_right, ?_⟩
  · have hops : (Call.getForUpdate key).ops (.value a) = [] := rfl
    rw [hops, append_nil]
    exact hstaged.congr rfl rfl rfl
  · rw [Answers, lookupKey_ok hvalue, hstaged.view_eq, seen_eq]

lemma callSpec_batchGetForUpdate : CallSpec txn snapshot staged (.batchGetForUpdate keys)
      (txn.call config (.batchGetForUpdate keys)) := by
  refine callSpec_settle fun a txn' h => ?_
  obtain ⟨values, hvalues, h⟩ := bind_eq_ok.mp h
  obtain ⟨_, hprotect, h⟩ := bind_eq_ok.mp h
  cases h
  obtain rfl := protect_ok hprotect
  refine ⟨rfl, Finset.subset_union_left, ?_, Finset.subset_union_right, ?_⟩
  · have hops : (Call.batchGetForUpdate keys).ops (.values a) = [] := rfl
    rw [hops, append_nil]
    exact hstaged.congr rfl rfl rfl
  · rw [Answers, lookupBatch_ok hvalues, hstaged.view_eq, seen_eq]

end

lemma reserve_ok {value : Bytes} {existed : Bool}
    (h : txn.reserve config key value = .ok (existed, txn')) :
    existed = (txn.view.lookup key).isSome ∧
      txn' = { txn with reserved := txn.reserved ∪ [key].toFinset } := by
  rw [WriteTxn.reserve] at h
  split_ifs at h
  obtain ⟨_, hprevious, h⟩ := bind_eq_ok.mp h
  obtain ⟨_, hprotect, h⟩ := bind_eq_ok.mp h
  cases h
  exact ⟨by rw [lookupKey_ok hprevious], protect_ok hprotect⟩

lemma callSpec_insert {value : Bytes} (hstaged : Staged txn snapshot staged) :
    CallSpec txn snapshot staged (.insert key value) (txn.call config (.insert key value)) := by
  rw [WriteTxn.call, WriteTxn.insert]
  cases hreserve : txn.reserve config key value with
  | error e => exact ⟨rfl, subset_rfl, nofun, fun _ _ => ⟨rfl, rfl, rfl⟩⟩
  | ok pair =>
    obtain ⟨existed, txn'⟩ := pair
    obtain ⟨hexisted, htxn'⟩ := reserve_ok hreserve
    rw [hstaged.view_eq, seen_eq] at hexisted
    have hs : Staged txn' snapshot staged := by
      rw [htxn']
      exact hstaged.congr rfl rfl rfl
    have hsubset : txn.reserved ⊆ txn'.reserved := by
      rw [htxn']
      exact Finset.subset_union_left
    have hkey : [key].toFinset ⊆ txn'.reserved := by
      rw [htxn']
      exact Finset.subset_union_right
    have hrevision : txn'.revision = txn.revision := by rw [htxn']
    cases existed with
    | true =>
      refine ⟨hrevision, hsubset, ?_, nofun⟩
      intro out hout
      cases hout
      refine ⟨?_, hkey, ?_⟩
      · have hops : (Call.insert key value).ops (.inserted false) = [] := rfl
        rwa [hops, append_nil]
      · rw [Answers, ← Option.not_isSome, ← hexisted]
        rfl
    | false =>
      dsimp only
      cases hstage : txn'.stage config key (some value) with
      | error e =>
        refine ⟨hrevision, hsubset, nofun, fun _ _ => ?_⟩
        rw [htxn']
        exact ⟨rfl, rfl, rfl⟩
      | ok =>
        obtain ⟨hs', hrevision', hreserved'⟩ := hs.stage hstage
        refine ⟨hrevision'.trans hrevision, hreserved' ▸ hsubset, ?_,
          nofun⟩
        intro _ hout
        cases hout
        refine ⟨hs', hreserved' ▸ hkey, ?_⟩
        rw [Answers, ← Option.not_isSome, ← hexisted]
        rfl

lemma call_spec (hstaged : Staged txn snapshot staged) (c : Call) :
    CallSpec txn snapshot staged c (txn.call config c) := by
  have hread (hcall : txn.call config c = (readCall config txn.view c, txn)) :
      CallSpec txn snapshot staged c (txn.call config c) := by
    rw [hcall]
    refine ⟨rfl, subset_rfl, ?_, fun _ _ => ⟨rfl, rfl, rfl⟩⟩
    intro _ h
    obtain ⟨hops, hreserves⟩ := readCall_ops h
    rw [hops, hreserves, append_nil]
    rw [hstaged.view_eq] at h
    exact ⟨hstaged, Finset.empty_subset _, readCall_answers h⟩
  cases c with
  | get | batchGet | scan | batchScan => exact hread rfl
  | getForUpdate => exact callSpec_getForUpdate hstaged
  | batchGetForUpdate => exact callSpec_batchGetForUpdate hstaged
  | put => exact callSpec_stage hstaged rfl rfl trivial
  | insert => exact callSpec_insert hstaged
  | delete => exact callSpec_stage hstaged rfl rfl trivial
  | batchMutate => exact callSpec_batchMutate hstaged
  | clearRange => exact callSpec_clearRange hstaged

end

end Memory
