/-
Paginated scans.

A page stops before the item that would exceed its limits, but never before its
first one, and names the key where the next page starts.  The reader of the page
checks that key again and resumes there.

* `scanSuccessor_spec` — nothing of the key limit lies between a key and its
  successor, whichever of the two constructions makes it;
* `entriesIn_resume` — what a page left is what the range from there holds;
* `scanPages_exact` — the pages of a range are its pairs, in order.
-/
import Ktann.Backend.Memory
import Ktann.Storage.KeyRanges

open KeySpace (KeyRange successor successorRev)
open Memory (ScanLimits ScanPage ScanPage.continued scanSuccessor entriesIn contains)

/-! ### One page -/

namespace RocksDb

def maxScanPageBytes : ℕ := 80 * 1024

/-- The loop over the iterator's remaining items. -/
def pageFrom (maxKeyBytes : ℕ) (limits : ScanLimits) :
    List (Bytes × Bytes) → List (Bytes × Bytes) → ℕ → Except Error ScanPage
  | [], items, _ => .ok ⟨items, none⟩
  | item :: rest, items, itemBytes =>
    let bytes := item.1.length + item.2.length
    if items ≠ [] ∧ (limits.itemLimit ≤ items.length ∨
        min limits.byteLimit maxScanPageBytes < itemBytes + bytes) then
      ScanPage.continued items maxKeyBytes
    else pageFrom maxKeyBytes limits rest (items ++ [item]) (itemBytes + bytes)

def scan (maxKeyBytes : ℕ) (data : Memory.Store) (range : KeyRange) (limits : ScanLimits) :
    Except Error ScanPage :=
  if limits.itemLimit = 0 ∨ limits.byteLimit = 0 then .error .invalidArgument
  else if range.stop ≤ range.start then .ok ⟨[], none⟩
  else pageFrom maxKeyBytes limits (entriesIn data range) [] 0

end RocksDb

/-- One page of decoded pairs. -/
structure LogicalScanPage (β : Type) where
  items : List β
  nextCursor : Option Bytes

section
variable {β : Type} (decode : Bytes × Bytes → Except Error β)

/-- Items must lie in the range that was asked for, in strict order. -/
def decodeItems (raw : KeyRange) : Option Bytes → List (Bytes × Bytes) → Except Error (List β)
  | _, [] => .ok []
  | previous, item :: rest =>
    if item.1 < raw.start ∨ raw.stop ≤ item.1 ∨ ∃ p ∈ previous, item.1 ≤ p then
      .error (.new .backend)
    else do
      let x ← decode item
      let xs ← decodeItems raw (some item.1) rest
      .ok (x :: xs)

/-- A continuation must lie after the last item and inside the range. -/
def nextCursor (range : KeyRange) (page : ScanPage) : Except Error (Option Bytes) :=
  match page.nextStart with
  | none => .ok none
  | some next =>
    if (∃ last ∈ page.items.getLast?, last.1 < next) ∧ next < range.stop then .ok (some next)
    else .error (.new .backend)

def decodeScanPage (range raw : KeyRange) (page : ScanPage) : Except Error (LogicalScanPage β) := do
  let items ← decodeItems decode raw none page.items
  let next ← nextCursor range page
  .ok ⟨items, next⟩

def scanLogical (maxKeyBytes : ℕ) (data : Memory.Store) (range : KeyRange) (cursor : Option Bytes)
    (limits : ScanLimits) : Except Error (LogicalScanPage β) := do
  let raw : KeyRange := ⟨cursor.getD range.start, range.stop⟩
  let page ← RocksDb.scan maxKeyBytes data raw limits
  decodeScanPage decode range raw page

/-- The pages of a range, one for each of the limits until the range is exhausted;
`none` when it was not. -/
def scanPages (maxKeyBytes : ℕ) (data : Memory.Store) (range : KeyRange) :
    Option Bytes → List ScanLimits → Except Error (Option (List (LogicalScanPage β)))
  | _, [] => .ok none
  | cursor, limits :: rest => do
    let page ← scanLogical decode maxKeyBytes data range cursor limits
    match page.nextCursor with
    | none => .ok (some [page])
    | some next => do
      let pages ← scanPages maxKeyBytes data range (some next) rest
      .ok (pages.map (page :: ·))

end

/-! ### The continuation -/

lemma length_successor_le (word : Bytes) : (successor word).length ≤ word.length := by
  have hrev : ∀ w : Bytes, (successorRev w).length ≤ w.length := by
    intro w
    induction w with
    | nil => exact le_rfl
    | cons _ w ih =>
      rw [successorRev]
      split_ifs
      · exact ih.trans (Nat.le_succ _)
      · exact le_rfl
  simpa [successor] using hrev word.reverse

lemma lt_append_zero (k : Bytes) : k < k ++ [0] :=
  (le_of_isPrefix (List.prefix_append k [0])).lt_of_ne (by simp)

lemma append_zero_le {k : Bytes} : ∀ {k' : Bytes}, k < k' → k ++ [0] ≤ k' := by
  induction k with
  | nil =>
    intro k' h
    cases k' with
    | nil => exact absurd h (List.not_lt_nil _)
    | cons b k' =>
      refine cons_le_cons_iff_lex.mpr ?_
      rcases (Fin.zero_le b).lt_or_eq with hlt | rfl
      · exact .inl hlt
      · exact .inr ⟨rfl, le_of_isPrefix List.nil_prefix⟩
  | cons a k ih =>
    intro k' h
    cases k' with
    | nil => exact absurd h (List.not_lt_nil _)
    | cons b _ =>
      rcases cons_lt_cons_iff.mp h with hlt | ⟨rfl, htail⟩
      · exact cons_le_cons_iff_lex.mpr (.inl hlt)
      · exact cons_le_cons_iff_lex.mpr (.inr ⟨rfl, ih htail⟩)

section
variable {maxKeyBytes : ℕ} {k k' : Bytes}

lemma scanSuccessor_spec (hk : k.length ≤ maxKeyBytes) (hk' : k'.length ≤ maxKeyBytes)
    (hlt : k < k') : k < scanSuccessor k maxKeyBytes ∧ scanSuccessor k maxKeyBytes ≤ k' ∧
      (scanSuccessor k maxKeyBytes).length ≤ maxKeyBytes := by
  unfold scanSuccessor
  split_ifs with hshort
  · exact ⟨lt_append_zero k, append_zero_le hlt, by simpa using hshort⟩
  · -- at the limit a longer key is too long, so no other key has `k` as a prefix
    have hprefix : ¬ k <+: k' := fun h => hlt.ne (h.eq_of_length_le (by omega))
    have hbyte : ∃ b ∈ k, b ≠ 255 := by
      by_contra hall
      refine hprefix (isPrefix_of_top_le (fun a ha b => ?_) hlt.le)
      rw [of_not_not fun hne => hall ⟨a, ha, hne⟩]
      exact Fin.le_last b
    have hself := (KeySpace.rangeOf_contains hbyte).mpr (List.prefix_refl k)
    refine ⟨hself.2, not_lt.mp fun h => hprefix ?_, (length_successor_le k).trans hk⟩
    exact (KeySpace.rangeOf_contains hbyte).mp ⟨hlt.le, h⟩

end

section
variable {data : Memory.Store} {start stop : Bytes} {maxKeyBytes : ℕ}

lemma mem_entriesIn {range : KeyRange} {e : Bytes × Bytes} (h : e ∈ entriesIn data range) :
    range.start ≤ e.1 ∧ e.1 < range.stop ∧ e.1 ∈ data.entries.map Sigma.fst := by
  obtain ⟨x, hx, rfl⟩ := mem_map.mp h
  obtain ⟨hx, hrange⟩ := mem_filter.mp hx
  simp only [contains, and_eq_true, decide_eq_true_eq] at hrange
  exact ⟨hrange.1, hrange.2, mem_map_of_mem hx⟩

lemma entriesIn_sorted (data : Memory.Store) (range : KeyRange) :
    (entriesIn data range).Pairwise fun a b => a.1 < b.1 :=
  pairwise_map.mpr (data.scan_sorted _)

lemma entriesIn_from {next : Bytes} (h : start ≤ next) :
    entriesIn data ⟨next, stop⟩ = (entriesIn data ⟨start, stop⟩).filter fun e => next ≤ e.1 := by
  rw [entriesIn, entriesIn, OrderedMap.scan, OrderedMap.scan, List.filter_map, List.filter_filter]
  congr 1
  refine filter_congr fun e _ => ?_
  rw [Bool.eq_iff_iff]
  simp only [contains, Function.comp, and_eq_true, decide_eq_true_eq]
  exact ⟨fun hn => ⟨hn.1, h.trans hn.1, hn.2⟩, fun hn => ⟨hn.1, hn.2.2⟩⟩

lemma entriesIn_resume {page rest : List (Bytes × Bytes)} {last : Bytes × Bytes}
    (hkeys : ∀ k ∈ data.entries.map Sigma.fst, k.length ≤ maxKeyBytes)
    (h : entriesIn data ⟨start, stop⟩ = page ++ rest) (hlast : page.getLast? = some last)
    (hrest : rest ≠ []) :
    last.1 < scanSuccessor last.1 maxKeyBytes ∧ scanSuccessor last.1 maxKeyBytes < stop ∧
      (scanSuccessor last.1 maxKeyBytes).length ≤ maxKeyBytes ∧
      entriesIn data ⟨scanSuccessor last.1 maxKeyBytes, stop⟩ = rest := by
  have hmem : ∀ e ∈ page ++ rest, start ≤ e.1 ∧ e.1 < stop ∧ e.1.length ≤ maxKeyBytes := by
    intro e he
    obtain ⟨hs, hstop, hkey⟩ := mem_entriesIn (h.symm ▸ he)
    exact ⟨hs, hstop, hkeys _ hkey⟩
  have hsorted := h ▸ entriesIn_sorted data ⟨start, stop⟩
  obtain ⟨hpage, -, hcross⟩ := pairwise_append.mp hsorted
  have hin : last ∈ page := List.mem_of_getLast? hlast
  have hk := hmem last (mem_append_left _ hin)
  have hafter : ∀ e ∈ rest, scanSuccessor last.1 maxKeyBytes ≤ e.1 := fun e he =>
    (scanSuccessor_spec hk.2.2 (hmem e (List.mem_append_right _ he)).2.2 (hcross last hin e he)).2.1
  obtain ⟨e, he⟩ := List.exists_mem_of_ne_nil rest hrest
  have he' := hmem e (List.mem_append_right _ he)
  obtain ⟨hlt, -, hlen⟩ := scanSuccessor_spec hk.2.2 he'.2.2 (hcross last hin e he)
  refine ⟨hlt, (hafter e he).trans_lt he'.2.1, hlen, ?_⟩
  rw [entriesIn_from (hk.1.trans hlt.le), h, filter_append, filter_eq_nil_iff.mpr,
    filter_eq_self.mpr, nil_append]
  · exact fun e he => decide_eq_true (hafter e he)
  · intro e he
    obtain ⟨_, rfl⟩ := List.getLast?_eq_some_iff.mp hlast
    rw [decide_eq_true_eq, not_le]
    rcases mem_append.mp he with hinit | hsingle
    · exact ((pairwise_append.mp hpage).2.2 e hinit last (by simp)).trans hlt
    · rwa [mem_singleton.mp hsingle]

/-! ### The pages of a range -/

/-- A page is all that is left, or the part before some item. -/
lemma RocksDb.pageFrom_spec {limits : ScanLimits} {es : List (Bytes × Bytes)} :
    ∀ {items : List (Bytes × Bytes)} {bytes : ℕ},
      pageFrom maxKeyBytes limits es items bytes = .ok ⟨items ++ es, none⟩ ∨
        ∃ pre rest, es = pre ++ rest ∧ items ++ pre ≠ [] ∧ rest ≠ [] ∧
          pageFrom maxKeyBytes limits es items bytes =
            ScanPage.continued (items ++ pre) maxKeyBytes := by
  induction es with
  | nil => exact .inl (by rw [pageFrom, append_nil])
  | cons item es ih =>
    intro items bytes
    rw [pageFrom]
    split_ifs with hfull
    · exact .inr ⟨[], item :: es, rfl, by simpa using hfull.1, by simp, by rw [append_nil]⟩
    · rcases @ih (items ++ [item]) (bytes + (item.1.length + item.2.length)) with
        hall | ⟨pre, rest, rfl, hne, hrest, hcont⟩
      · exact .inl (by rw [hall, append_assoc]; rfl)
      · refine .inr ⟨item :: pre, rest, rfl, by simp, hrest, ?_⟩
        rw [hcont, append_assoc]
        rfl

variable {β : Type} {decode : Bytes × Bytes → Except Error β}

lemma decodeItems_ok {raw : KeyRange} {items : List (Bytes × Bytes)} :
    ∀ {previous : Option Bytes} {xs : List β}, (∀ e ∈ items, raw.start ≤ e.1 ∧ e.1 < raw.stop) →
      items.Pairwise (fun a b => a.1 < b.1) → (∀ p ∈ previous, ∀ e ∈ items, p < e.1) →
      items.mapM decode = .ok xs → decodeItems decode raw previous items = .ok xs := by
  induction items with
  | nil => exact fun _ _ _ h => h
  | cons item _ ih =>
    intro _ xs hraw hsorted hprev h
    rw [mapM_cons] at h
    obtain ⟨x, hx, h⟩ := bind_eq_ok.mp h
    obtain ⟨xs', hxs, h⟩ := bind_eq_ok.mp h
    obtain ⟨hfirst, hsorted⟩ := pairwise_cons.mp hsorted
    have hitem := hraw item mem_cons_self
    rw [decodeItems, if_neg]
    · refine bind_eq_ok.mpr ⟨x, hx, bind_eq_ok.mpr ⟨xs', ih ?_ hsorted ?_ hxs, h⟩⟩
      · exact fun e he => hraw e (mem_cons_of_mem _ he)
      · intro p hp e he
        cases hp
        exact hfirst e he
    · rintro (hlow | hhigh | ⟨p, hp, hle⟩)
      · exact absurd hitem.1 (not_le.mpr hlow)
      · exact absurd hitem.2 (not_lt.mpr hhigh)
      · exact absurd (hprev p hp item mem_cons_self) (not_lt.mpr hle)

lemma scanLogical_spec {range : KeyRange} {cursor : Option Bytes} {limits : ScanLimits}
    {xs : List β} (hkeys : ∀ k ∈ data.entries.map Sigma.fst, k.length ≤ maxKeyBytes)
    (hpos : 0 < limits.itemLimit ∧ 0 < limits.byteLimit)
    (hxs : (entriesIn data ⟨cursor.getD range.start, range.stop⟩).mapM decode = .ok xs) :
    scanLogical decode maxKeyBytes data range cursor limits = .ok ⟨xs, none⟩ ∨
      ∃ ys zs next, scanLogical decode maxKeyBytes data range cursor limits = .ok ⟨ys, some next⟩ ∧
        xs = ys ++ zs ∧ ys ≠ [] ∧ next.length ≤ maxKeyBytes ∧
        (entriesIn data ⟨next, range.stop⟩).mapM decode = .ok zs := by
  obtain ⟨raw, hraw⟩ : ∃ raw : KeyRange, raw = ⟨cursor.getD range.start, range.stop⟩ := ⟨_, rfl⟩
  rw [← hraw] at hxs
  have hin : ∀ e ∈ entriesIn data raw, raw.start ≤ e.1 ∧ e.1 < raw.stop := fun e he =>
    ⟨(mem_entriesIn he).1, (mem_entriesIn he).2.1⟩
  have hsorted := entriesIn_sorted data raw
  -- the backend's page is all that is left, or a nonempty part of it
  have hscan : RocksDb.scan maxKeyBytes data raw limits = .ok ⟨entriesIn data raw, none⟩ ∨
      ∃ pre rest, entriesIn data raw = pre ++ rest ∧ pre ≠ [] ∧ rest ≠ [] ∧
        RocksDb.scan maxKeyBytes data raw limits = ScanPage.continued pre maxKeyBytes := by
    unfold RocksDb.scan
    rw [if_neg (by omega)]
    split_ifs with hempty
    · have hnil : entriesIn data raw = [] := List.eq_nil_iff_forall_not_mem.mpr fun e he =>
        absurd ((hin e he).1.trans_lt (hin e he).2) (not_lt.mpr hempty)
      exact .inl (by rw [hnil])
    · exact RocksDb.pageFrom_spec
  unfold scanLogical
  rw [← hraw]
  rcases hscan with hall | ⟨pre, rest, hsplit, hpre, hrest, hcont⟩
  · refine .inl (bind_eq_ok.mpr ⟨_, hall, bind_eq_ok.mpr ⟨xs, ?_, rfl⟩⟩)
    exact decodeItems_ok hin hsorted (fun _ h => nomatch h) hxs
  · obtain ⟨last, hlast⟩ := ne_none_iff_exists'.mp (mt List.getLast?_eq_none_iff.mp hpre)
    -- the cursor is after the last key of the page and no later than the rest
    obtain ⟨hlt, hstop, hlen, hresume⟩ := entriesIn_resume hkeys (hraw ▸ hsplit) hlast hrest
    rw [hsplit] at hxs hin hsorted
    rw [List.mapM_append] at hxs
    obtain ⟨ys, hys, hxs⟩ := bind_eq_ok.mp hxs
    obtain ⟨zs, hzs, hxs⟩ := bind_eq_ok.mp hxs
    cases hxs
    refine .inr ⟨ys, zs, scanSuccessor last.1 maxKeyBytes, ?_, rfl, ?_, hlen, ?_⟩
    · refine bind_eq_ok.mpr ⟨⟨pre, some (scanSuccessor last.1 maxKeyBytes)⟩, ?_,
        bind_eq_ok.mpr ⟨ys, ?_, bind_eq_ok.mpr ⟨_, if_pos ⟨⟨last, hlast, hlt⟩, hstop⟩,
          rfl⟩⟩⟩
      · rw [hcont, ScanPage.continued, hlast]
      · exact decodeItems_ok (fun e he => hin e (mem_append_left _ he))
          (pairwise_append.mp hsorted).1 (fun _ h => nomatch h) hys
    · rintro rfl
      exact hpre (List.forall₂_nil_right_iff.mp (mapM_eq_ok.mp hys))
    · rwa [hresume]

/-- The pages hold the pairs in order, only the last one can be empty, and every
continuation is a key that the backend accepts. -/
structure PagesOf (maxKeyBytes : ℕ) (pairs : List β) (pages : List (LogicalScanPage β)) : Prop where
  pairs : (pages.map (·.items)).flatten = pairs
  nonempty : ∀ page ∈ pages.dropLast, page.items ≠ []
  cursors : ∀ page ∈ pages, ∀ next ∈ page.nextCursor, next.length ≤ maxKeyBytes

/-- Pagination neither skips nor repeats: with positive limits enough, the pages of
a range are its pairs. -/
theorem scanPages_exact {range : KeyRange} {limits : List ScanLimits} {pairs : List β}
    (hkeys : ∀ k ∈ data.entries.map Sigma.fst, k.length ≤ maxKeyBytes)
    (hlimits : ∀ l ∈ limits, 0 < l.itemLimit ∧ 0 < l.byteLimit)
    (hpairs : (entriesIn data range).mapM decode = .ok pairs)
    (hmany : pairs.length < limits.length) :
    ∃ pages, scanPages decode maxKeyBytes data range none limits = .ok (some pages) ∧
      PagesOf maxKeyBytes pairs pages := by
  -- by induction on the limits, from any cursor
  have hrun : ∀ cursor : Option Bytes, ∀ xs : List β, xs.length < limits.length →
      (entriesIn data ⟨cursor.getD range.start, range.stop⟩).mapM decode = .ok xs →
      ∃ pages, scanPages decode maxKeyBytes data range cursor limits = .ok (some pages) ∧
        pages ≠ [] ∧ PagesOf maxKeyBytes xs pages := by
    clear hmany hpairs
    induction limits with
    | nil => exact fun _ _ h => absurd h (Nat.not_lt_zero _)
    | cons l limits ih =>
      intro _ xs hlen hxs
      simp only [scanPages, bind_eq_ok]
      rcases scanLogical_spec hkeys (hlimits l mem_cons_self) hxs with
        hlast | ⟨ys, zs, next, hpage, rfl, hne, hnext, hzs⟩
      · exact ⟨[⟨xs, none⟩], ⟨_, hlast, rfl⟩, by simp, by simp, by simp, by simp⟩
      · have hshorter : zs.length < limits.length := by
          have := List.length_pos_iff.mpr hne
          simp only [length_append, length_cons] at hlen
          omega
        -- a page with a cursor holds a pair, so the remaining limits are enough
        obtain ⟨pages, hpages, hnil, hflat, hmid, hcursors⟩ :=
          ih (fun l' hl' => hlimits l' (mem_cons_of_mem _ hl')) (some next) zs hshorter hzs
        refine ⟨⟨ys, some next⟩ :: pages, ⟨_, hpage, ?_⟩, by simp, ?_, ?_, ?_⟩
        · exact bind_eq_ok.mpr ⟨_, hpages, rfl⟩
        · rw [map_cons, flatten_cons, hflat]
        · rw [List.dropLast_cons_of_ne_nil hnil]
          exact forall_mem_cons.mpr ⟨hne, hmid⟩
        · exact forall_mem_cons.mpr ⟨fun n hn => Option.mem_some_iff.mp hn ▸ hnext, hcursors⟩
  obtain ⟨pages, hpages, -, hof⟩ := hrun none pairs hmany hpairs
  exact ⟨pages, hpages, hof⟩

end

/-- Two keys of the greatest length, and one page for each. -/
theorem scanPages_exact_two :
    ∃ pages, scanPages .ok 2 ((OrderedMap.empty.put [1, 255] [7]).put [2, 0] [8]) ⟨[1], [3]⟩ none
        [⟨1, 1⟩, ⟨1, 1⟩, ⟨1, 1⟩] = .ok (some pages) ∧
      (pages.map (·.items)).flatten = [([1, 255], [7]), ([2, 0], [8])] := by
  obtain ⟨pages, hpages, hof⟩ :=
    @scanPages_exact ((OrderedMap.empty.put [1, 255] [7]).put [2, 0] [8]) 2 _ .ok ⟨[1], [3]⟩
      [⟨1, 1⟩, ⟨1, 1⟩, ⟨1, 1⟩] [([1, 255], [7]), ([2, 0], [8])] (by decide)
        (by simp) rfl (by decide)
  exact ⟨pages, hpages, hof.pairs⟩
