/-
Bounded construction of one tree.

The rows of one level are divided into groups that fit one partition; each group is
emitted as a plan, and its key and centroid are a row of the next level.  A group
within the memory allowance is divided in place, a larger one streams through
scratch runs.  The heap and the selection of the resident path leave their elements
in an unspecified order, which is a parameter here.

* `residentGroup`, `group` — the two paths;
* `constructTree` — level after level, to the root.
-/
import Ktann.Construction.Centers
import Ktann.Storage.Values

/-! ### Options and results -/

/-- The result of a recursion of bounded depth: `.error none` says that the depth does not
suffice, which is no error of the code. -/
abbrev DepthResult (α : Type) := Except (Option Error) α

section
variable {α β χ : Type}

/-- A result that takes no depth. -/
def ended (r : Except Error α) : DepthResult α := r.mapError some

lemma ended_eq_ok {r : Except Error α} {a : α} : ended r = .ok a ↔ r = .ok a := by
  cases r <;> simp [ended, Except.mapError]

lemma ended_ne_none {r : Except Error α} : ended r ≠ .error none := by
  cases r <;> simp [ended, Except.mapError]

lemma bind_ne_none {x : DepthResult α} {f : α → DepthResult β} (hx : x ≠ .error none)
    (hf : ∀ a, x = .ok a → f a ≠ .error none) : (x >>= f) ≠ .error none := by
  rcases x with (_ | e) | a
  · exact absurd rfl hx
  · exact fun h => by cases h
  · exact hf a rfl

lemma foldlM_ne_none {f : α → χ → DepthResult α} {l : List χ}
    (h : ∀ b ∈ l, ∀ a, f a b ≠ .error none) : ∀ {a : α}, l.foldlM f a ≠ .error none := by
  induction l with
  | nil => exact fun h => by cases h
  | cons b l ih =>
    intro a
    rw [foldlM_cons]
    exact bind_ne_none (h b mem_cons_self a) fun _ _ => ih fun c hc => h c (mem_cons_of_mem _ hc)

end

/-- Sample size and resource budgets. -/
structure ConstructionOptions where
  sampleItems : ℕ
  memoryBytes : ℕ
  scratchBytes : ℕ

/-- Counts and resource evidence. -/
structure ConstructionReport where
  records : ℕ
  partitions : ℕ
  partitionHighWater : ℕ
  peakScratchBytes : ℕ
  scratchWrittenBytes : ℕ
  deriving DecidableEq

/-- One final partition.  Leaf entries are Record IDs, internal entries are
big-endian Partition Keys. -/
structure PartitionPlan (Vec : Type) where
  key : ℕ
  level : ℕ
  centroid : Vec
  entries : List Bytes
  deriving DecidableEq

/-- A 64-bit result, or the limit is exceeded. -/
def checkedU64 (n : ℕ) : Except Error ℕ :=
  if n < u64Bound then .ok n else .error (.new .limitExceeded)

lemma checkedU64_eq_ok {n m : ℕ} : checkedU64 n = .ok m ↔ n < u64Bound ∧ m = n := by
  rw [checkedU64]
  split_ifs with h
  · simp [h, eq_comm]
  · simp [h]

/-- The greatest length of a Record ID, and the overhead charged for a row. -/
def maxIdBytes : ℕ := 256
def rowOverheadBytes : ℕ := 128

/-- The size of one IO buffer. -/
def bufferBytes : ℕ := 8 * 1024

/-- The rows that may be resident, after the reserved working space. -/
def ConstructionOptions.residentRows (options : ConstructionOptions) (config : IndexManifest)
    (dimension : ℕ) : Except Error ℕ := do
  let rowBound ← checkedU64 (dimension * 4 + (maxIdBytes + rowOverheadBytes))
  let reservedRows ← checkedU64 (max options.sampleItems
    (max config.maxLeafPartitionEntries config.maxInternalPartitionEntries) * 8)
  let reserved ← checkedU64 (rowBound * reservedRows + 16 * bufferBytes + dimension * 4)
  if options.sampleItems < 2 ∨ options.memoryBytes = 0 ∨ options.scratchBytes = 0 then
    .error .invalidArgument
  else do
    let least ← checkedU64 (reserved + rowBound)
    if options.memoryBytes ≤ least then .error .invalidArgument
    else .ok ((options.memoryBytes - reserved) / rowBound)

/-- The orders the resident path leaves unspecified: the iteration of a heap, and a
selection of the `n` elements with the smallest keys. -/
structure Unstable (α : Type) where
  iter : List α → List α
  select : (α → ℕ ×ₗ Bytes) → ℕ → List α → List α
  iter_perm : ∀ l, (iter l).Perm l
  select_perm : ∀ key n l, (select key n l).Perm l
  select_le : ∀ key n l, ∀ a ∈ (select key n l).take n, ∀ b ∈ (select key n l).drop n, key a ≤ key b

/-- One construction: its configuration, its functions, its budgets and the consumer
of its plans, which may refuse one. -/
structure ConstructionContext (Vec Dist : Type) where
  config : IndexManifest
  kernel : ConstructionKernel Vec Dist
  options : ConstructionOptions
  residentRows : ℕ
  unstable : Unstable (Row Vec)
  accept : List (PartitionPlan Vec) → PartitionPlan Vec → Except Error Unit

/-! ### Scratch runs -/

/-- An immutable run of rows in canonical ID order. -/
structure ScratchRun (Vec : Type) where
  rows : List (Row Vec)
  bytes : ℕ

/-- The live scratch bytes, the report so far and the plans handed out. -/
structure Workspace (Vec : Type) where
  bytes : ℕ
  report : ConstructionReport
  plans : List (PartitionPlan Vec)

section

variable {Vec Dist : Type} [LinearOrder Dist] (ctx : ConstructionContext Vec Dist)
  (w : Workspace Vec)

def Workspace.append (output : ScratchRun Vec) (id : Bytes) (vector : Vec) :
    Except Error (Workspace Vec × ScratchRun Vec) := do
  let bytes := 4 + id.length + 4 * ctx.kernel.components vector
  let total ← checkedU64 (w.bytes + bytes)
  if ctx.options.scratchBytes < total then .error (.new .limitExceeded)
  else do
    let _ ← checkedU64 (output.rows.length + 1)
    let runBytes ← checkedU64 (output.bytes + bytes)
    let written ← checkedU64 (w.report.scratchWrittenBytes + bytes)
    .ok ({ w with
      bytes := total
      report := { w.report with
        peakScratchBytes := max w.report.peakScratchBytes total
        scratchWrittenBytes := written } }, ⟨output.rows ++ [⟨id, vector⟩], runBytes⟩)

def Workspace.remove (run : ScratchRun Vec) : Except Error (Workspace Vec) :=
  if run.bytes ≤ w.bytes then .ok { w with bytes := w.bytes - run.bytes }
  else .error .corrupt

/-! ### Emission -/

variable (kernel : ConstructionKernel Vec Dist)

/-- The plan of one group in canonical ID order, with the mean of every member. -/
def planPartition (level key : ℕ) (rows : List (Row Vec)) : Except Error (PartitionPlan Vec) := do
  let vectors ← rows.mapM fun row =>
    if kernel.isCosine then kernel.normalizeCentroid row.vector else .ok row.vector
  let centroid ← kernel.normalizeCentroid (kernel.mean vectors)
  .ok ⟨key, level, centroid, rows.map Row.id⟩

/-- Hands one plan out. -/
def Workspace.deliver (plan : PartitionPlan Vec) : Except Error (Workspace Vec) := do
  ctx.accept w.plans plan
  let partitions ← checkedU64 (w.report.partitions + 1)
  .ok { w with
    report := { w.report with partitions := partitions }
    plans := w.plans ++ [plan] }

def emitRoot (level : ℕ) (rows : List (Row Vec)) : Except Error (Workspace Vec) := do
  let w := { w with
    report := { w.report with partitionHighWater := max w.report.partitionHighWater 1 } }
  let plan ← planPartition ctx.kernel level 1 rows
  w.deliver ctx plan

def emitPartition (parents : ScratchRun Vec) (level : ℕ) (rows : List (Row Vec)) :
    Except Error (Workspace Vec × ScratchRun Vec) := do
  let key ← checkedU64 (max w.report.partitionHighWater 1 + 1)
  let w := { w with
    report := { w.report with partitionHighWater := max w.report.partitionHighWater key } }
  let plan ← planPartition ctx.kernel level key rows
  let (w, parents) ← w.append ctx parents (bigEndian 8 key) plan.centroid
  let w ← w.deliver ctx plan
  .ok (w, parents)

/-! ### Resident groups -/

/-- What orders a sample: the seeded hash of the ID, and the ID. -/
def sampleKey (row : Row Vec) : ℕ ×ₗ Bytes := toLex (kernel.hash row.id, row.id)

/-- What orders a group: the center, and the ID. -/
def groupKey (centers : List Vec) (row : Row Vec) : ℕ ×ₗ Bytes :=
  toLex (nearest kernel centers row.vector, row.id)

/-- Cuts a slice of rows into children of the given sizes. -/
def cutAll (unstable : Unstable (Row Vec)) (key : Row Vec → ℕ ×ₗ Bytes) :
    List ℕ → List (Row Vec) → List (List (Row Vec))
  | [], _ => []
  | count :: sizes, rest =>
    let rest := if count < rest.length then unstable.select key count rest else rest
    rest.take count :: cutAll unstable key sizes (rest.drop count)

/-- The centers of a group, trained on a bounded sample. -/
def trainCenters (level : ℕ) (rows : List (Row Vec)) : Except Error (List Vec) :=
  multiCenters ctx.kernel ctx.config (ctx.unstable.iter (keepSmallest (sampleKey ctx.kernel)
    ctx.options.sampleItems rows)) rows.length level

def childSizes (level : ℕ) (centers : List Vec) (rows : List (Row Vec)) : List ℕ :=
  groupSizes (labelCounts ctx.kernel centers rows) (ctx.config.minPartitionEntries level)

/-- The children of a group that is too large for one partition. -/
def residentChildren (level : ℕ) (rows : List (Row Vec)) : Except Error (List (List (Row Vec))) :=
    do
  let centers ← trainCenters ctx level rows
  .ok (cutAll ctx.unstable (groupKey ctx.kernel centers) (childSizes ctx level centers rows) rows)

/-- Groups rows in memory.  A child has fewer rows than its group, so `depth` is
enough if it is at least their number. -/
def residentGroup (level : ℕ) : ℕ → Workspace Vec × ScratchRun Vec → List (Row Vec) →
    DepthResult (Workspace Vec × ScratchRun Vec)
  | 0, _, _ => .error none
  | depth + 1, (w, parents), rows =>
    if rows.length ≤ ctx.config.maxEntries level then
      ended (emitPartition ctx w parents level (sortBy Row.id rows))
    else do
      let children ← ended (residentChildren ctx level rows)
      children.foldlM (residentGroup level depth) (w, parents)

/-! ### Spilled groups -/

/-- The end of every child, from the one that starts at `start` on. -/
def childEnds : ℕ → List ℕ → List ℕ
  | _, [] => []
  | start, size :: sizes => (start + size) :: childEnds (start + size) sizes

/-- The first rank of every center's rows. -/
def firstRanks : ℕ → List ℕ → List ℕ
  | _, [] => []
  | offset, count :: counts => offset :: firstRanks (offset + count) counts

/-- Streams rows to the children their ranks fall into. -/
def scatter (centers : List Vec) (ends : List ℕ) : List (Row Vec) → List ℕ →
    Workspace Vec × List (ScratchRun Vec) → Except Error (Workspace Vec × List (ScratchRun Vec))
  | [], _, done => .ok done
  | row :: rest, ranks, (w, outputs) =>
    let label := nearest ctx.kernel centers row.vector
    let rowRank := ranks.getD label 0
    let child := (ends.takeWhile (· ≤ rowRank)).length
    match outputs[child]? with
    | none => .error .corrupt
    | some output => do
      let (w, output) ← w.append ctx output row.id row.vector
      scatter centers ends rest (ranks.set label (rowRank + 1)) (w, outputs.set child output)

/-- Scatters a run that is too large for one partition, and removes it. -/
def scatteredChildren (level : ℕ) (input : ScratchRun Vec) :
    Except Error (Workspace Vec × List (ScratchRun Vec)) := do
  let centers ← trainCenters ctx level input.rows
  let sizes := childSizes ctx level centers input.rows
  let (w, runs) ← scatter ctx centers (childEnds 0 sizes) input.rows
    (firstRanks 0 (labelCounts ctx.kernel centers input.rows)) (w, centers.map fun _ => ⟨[], 0⟩)
  let w ← w.remove input
  .ok (w, runs)

/-- Groups one run: in memory when it fits, else by sampling it, scattering it and
grouping the children.  `depth` is as above. -/
def group (level : ℕ) : ℕ → Workspace Vec × ScratchRun Vec → ScratchRun Vec →
    DepthResult (Workspace Vec × ScratchRun Vec)
  | 0, _, _ => .error none
  | depth + 1, (w, parents), input =>
    if input.rows.length ≤ ctx.residentRows then do
      let w ← ended (w.remove input)
      residentGroup ctx level (depth + 1) (w, parents) input.rows
    else if input.rows.length ≤ ctx.config.maxEntries level then ended do
      let (w, parents) ← emitPartition ctx w parents level input.rows
      let w ← w.remove input
      .ok (w, parents)
    else do
      let (w, runs) ← ended (scatteredChildren ctx w level input)
      runs.foldlM (group level depth) (w, parents)

/-! ### The tree -/

/-- Builds the levels from one on.  A level has fewer rows than the one below it, so
`depth` is enough if it is at least their number; the number of a level has 32 bits. -/
def constructLevels : ℕ → ℕ → Workspace Vec → ScratchRun Vec → DepthResult (Workspace Vec)
  | 0, _, _, _ => .error none
  | depth + 1, level, w, input =>
    if input.rows.length ≤ ctx.config.maxEntries level then ended do
      let w ← emitRoot ctx w level input.rows
      w.remove input
    else do
      let (w, parents) ← group ctx level input.rows.length (w, ⟨[], 0⟩) input
      if level + 1 < 2 ^ 32 then constructLevels depth (level + 1) w parents
      else ended (.error (.new .limitExceeded))

/-- Writes the preprocessed records to the first run. -/
def appendRecords : List (Row Vec) → Workspace Vec × ScratchRun Vec →
    Except Error (Workspace Vec × ScratchRun Vec)
  | [], done => .ok done
  | record :: rest, (w, input) =>
    if 1 ≤ record.id.length ∧ record.id.length ≤ maxIdBytes then do
      let vector ← ctx.kernel.preprocess record.vector
      let done ← w.append ctx input record.id vector
      appendRecords rest done
    else .error .invalidArgument

def Workspace.new : Workspace Vec := ⟨0, ⟨0, 0, 0, 0, 0⟩, []⟩

def constructTree (config : IndexManifest) (kernel : ConstructionKernel Vec Dist) (dimension : ℕ)
    (options : ConstructionOptions) (unstable : Unstable (Row Vec))
    (accept : List (PartitionPlan Vec) → PartitionPlan Vec → Except Error Unit)
    (records : List (Row Vec)) : DepthResult (ConstructionReport × List (PartitionPlan Vec)) := do
  let residentRows ← ended (options.residentRows config dimension)
  let ctx : ConstructionContext Vec Dist :=
    ⟨config, kernel, options, residentRows, unstable, accept⟩
  let (w, input) ← ended (appendRecords ctx records (Workspace.new, ⟨[], 0⟩))
  let w := { w with report := { w.report with records := input.rows.length } }
  if input.rows.length = 0 then do
    let w ← ended (w.remove input)
    .ok (w.report, w.plans)
  else do
    let w ← constructLevels ctx input.rows.length 1 w input
    .ok (w.report, w.plans)

end
