/-
Training a split: balanced two-means over the entries of one source.

The vector arithmetic is a parameter; what is modelled is which vectors it is applied
to, in which order, and when the rounds stop.

* `assign_count` — half of the entries are on the left in every round;
* `lloyd_eq_allRounds` — the first repeated assignment is final;
* `train_balanced` — **training is a balanced function of the entry set**.
-/
import Ktann.Api.Schema
import Ktann.Lib.Except
import Ktann.Lib.Selection

namespace Training

/-- The vector functions of training: the check of a loaded vector, the normalization of
centroids, the distance of two vectors, the difference of two distances, and the mean of
vectors in the given order. -/
structure TrainingKernel (Vec Dist : Type) where
  isCosine : Bool
  isValid : Vec → Bool
  normalizeCentroid : Vec → Except Error Vec
  routingDistance : Vec → Vec → Except Error Dist
  sub : Dist → Dist → Dist
  mean : List Vec → Except Error Vec
  zero : Vec

structure TrainedSplit (Vec : Type) where
  left : Vec
  right : Vec
  rounds : ℕ
  deriving DecidableEq

def maxTrainingRounds : ℕ := 10

section

variable {I Vec Dist : Type} (K : TrainingKernel Vec Dist)

/-! ### Entries -/

/-- Loaded entries, each with an ID of its own. -/
abbrev EntrySet (I Vec : Type) := { entries : List (I × Vec) // (entries.map Prod.fst).Nodup }

/-- A malformed entry is corruption; the others are normalized for the metric. -/
def normalized (entries : List (I × Vec)) : Except Error (List (I × Vec)) :=
  if entries.any fun e => !K.isValid e.2 then .error .corrupt
  else if K.isCosine then entries.mapM fun e => do .ok (e.1, ← K.normalizeCentroid e.2)
  else .ok entries

/-- The vectors for the metric, in ID order. -/
def canonicalVectors [LinearOrder I] (entries : List (I × Vec)) : Except Error (List Vec) := do
  let entries ← normalized K entries
  .ok ((sortBy Prod.fst entries).map Prod.snd)

variable {K} {entries entries' normal : List (I × Vec)} {vectors : List Vec}

lemma normalized_perm (hperm : entries.Perm entries') (hok : normalized K entries = .ok normal) :
    normal.map Prod.fst = entries.map Prod.fst ∧
      ∃ normal', normalized K entries' = .ok normal' ∧ normal.Perm normal' := by
  rw [normalized] at hok ⊢
  rw [← hperm.any_eq]
  split_ifs at hok ⊢
  · have hall := mapM_eq_ok.mp hok
    obtain ⟨normal', hnormal', hsame⟩ := List.perm_comp_forall₂ hperm.symm hall
    refine ⟨?_, normal', mapM_eq_ok.mpr hnormal', hsame.symm⟩
    rw [eq_comm, ← List.forall₂_eq_eq_eq, List.forall₂_map_left_iff, List.forall₂_map_right_iff]
    refine hall.imp fun e n hn => ?_
    obtain ⟨v, -, hn⟩ := bind_eq_ok.mp hn
    cases hn
    rfl
  · cases hok
    exact ⟨rfl, entries', rfl, hperm⟩

lemma canonicalVectors_perm [LinearOrder I] (hnodup : (entries.map Prod.fst).Nodup)
    (hperm : entries.Perm entries') (hok : canonicalVectors K entries = .ok vectors) :
    canonicalVectors K entries' = .ok vectors ∧ vectors.length = entries.length := by
  obtain ⟨_, hnormal, hok⟩ := bind_eq_ok.mp hok
  cases hok
  obtain ⟨hkeys, normal', hnormal', hsame⟩ := normalized_perm hperm hnormal
  rw [sortBy_congr (hkeys ▸ hnodup) hsame, length_map, (sortBy_perm _ _).length_eq,
    ← hsame.length_eq]
  exact ⟨bind_eq_ok.mpr ⟨normal', hnormal', rfl⟩, by simpa using congrArg List.length hkeys⟩

/-! ### One round -/

variable (K) (vectors) (left right : Vec) (assignment : List Bool)

/-- Every input is persistent, so that any failure is corruption. -/
def TrainingKernel.distance (v centroid : Vec) : Except Error Dist :=
  (K.routingDistance v centroid).mapError fun _ => .corrupt

/-- Whole chunks of four are scored against the centroids, and the centroids against the
entries of the remainder. -/
def differences : List Vec → Except Error (List Dist)
  | a :: b :: c :: d :: rest => do
    let lefts ← [a, b, c, d].mapM (K.distance · left)
    let rights ← [a, b, c, d].mapM (K.distance · right)
    let rest ← differences rest
    .ok (lefts.zipWith K.sub rights ++ rest)
  | remainder => remainder.mapM fun v => do .ok (K.sub (← K.distance left v) (← K.distance right v))

def clusterMean (isLeft : Bool) : Except Error Vec := do
  let centroid ← K.mean (((vectors.zip assignment).filter fun e => e.2 = isLeft).map Prod.fst)
  if K.isCosine then K.normalizeCentroid centroid else .ok centroid

def clusterMeans : Except Error (Vec × Vec) := do
  .ok (← clusterMean K vectors assignment true, ← clusterMean K vectors assignment false)

variable [LinearOrder Dist]

/-- The left membership of every entry.  A selection leaves the chosen positions in any
order; only which they are matters. -/
def assign (half : ℕ) : Except Error (List Bool) := do
  let differences ← differences K left right vectors
  let order := (sortBy toLex differences.zipIdx).map Prod.snd
  .ok ((List.range vectors.length).map fun i => decide (i ∈ order.take half))

/-- The vector of the entry farthest from `origin`, the first of several. -/
def farthest (first : Vec) (rest : List Vec) (origin : Vec) : Except Error Vec := do
  let best ← K.distance first origin
  let found ← rest.foldlM (fun found v => do
    let candidate ← K.distance v origin
    .ok (if found.2 < candidate then (v, candidate) else found)) (first, best)
  .ok found.1

/-! ### Training -/

/-- Rounds until the assignment repeats or none is left. -/
def lloyd (rounds : ℕ) (left right : Vec) (previous : Option (List Bool)) :
    ℕ → Except Error (TrainedSplit Vec)
  | 0 => .ok ⟨left, right, rounds⟩
  | n + 1 => do
    let assignment ← assign K vectors left right (vectors.length / 2)
    if previous = some assignment then .ok ⟨left, right, rounds + 1⟩
    else
      let (left, right) ← clusterMeans K vectors assignment
      lloyd (rounds + 1) left right (some assignment) n

/-- The same rounds without the early exit. -/
def allRounds (left right : Vec) : ℕ → Except Error (Vec × Vec)
  | 0 => .ok (left, right)
  | n + 1 => do
    let assignment ← assign K vectors left right (vectors.length / 2)
    let (left, right) ← clusterMeans K vectors assignment
    allRounds left right n

/-- The entry farthest from the mean, and the one farthest from that. -/
def seeds (first : Vec) (rest : List Vec) : Except Error (Vec × Vec) := do
  let source ← K.mean (first :: rest)
  let left ← farthest K first rest source
  let right ← farthest K first rest left
  .ok (left, right)

def train [LinearOrder I] (entries : List (I × Vec)) : Except Error (TrainedSplit Vec) := do
  match ← canonicalVectors K entries with
  | [] => .ok ⟨K.zero, K.zero, 0⟩
  | [v] => .ok ⟨v, v, 0⟩
  | first :: rest =>
    let (left, right) ← seeds K first rest
    lloyd K (first :: rest) 0 left right none maxTrainingRounds

/-- The centroids after `n` rounds of training, none of them left out. -/
def trainRounds [LinearOrder I] (entries : List (I × Vec)) (n : ℕ) : Except Error (Vec × Vec) := do
  match ← canonicalVectors K entries with
  | [] => .ok (K.zero, K.zero)
  | [v] => .ok (v, v)
  | first :: rest =>
    let (left, right) ← seeds K first rest
    allRounds K (first :: rest) left right n

variable {K vectors left right assignment}

omit [LinearOrder Dist] in
lemma length_differences : ∀ {vectors : List Vec} {ds : List Dist},
    differences K left right vectors = .ok ds → ds.length = vectors.length
  | a :: b :: c :: d :: _, _, hok => by
    simp only [differences, bind_eq_ok] at hok
    obtain ⟨_, hlefts, _, hrights, _, hrest, hok⟩ := hok
    cases hok
    have hl := (mapM_eq_ok.mp hlefts).length_eq
    have hr := (mapM_eq_ok.mp hrights).length_eq
    simp [← hl, ← hr, length_differences hrest, Nat.add_comm 4]
  | [], _, hok | [_], _, hok | [_, _], _, hok | [_, _, _], _, hok =>
    (mapM_eq_ok.mp hok).length_eq.symm

lemma assign_count {half : ℕ} (hhalf : half ≤ vectors.length)
    (hok : assign K vectors left right half = .ok assignment) :
    assignment.length = vectors.length ∧ assignment.count true = half := by
  simp only [assign, bind_eq_ok] at hok
  obtain ⟨ds, hds, hok⟩ := hok
  cases hok
  refine ⟨by simp, ?_⟩
  generalize horder : (sortBy toLex ds.zipIdx).map Prod.snd = order
  -- the order is one of all positions, so that its front has as many as were taken
  have hperm : order.Perm (List.range vectors.length) := by
    rw [← horder, ← length_differences hds]
    simpa [List.range_eq_range'] using (sortBy_perm toLex ds.zipIdx).map Prod.snd
  have hchosen : ((List.range vectors.length).filter (· ∈ order.take half)).Perm
      (order.take half) := by
    refine (perm_ext_iff_of_nodup (List.nodup_range.filter _)
      ((hperm.nodup_iff.mpr List.nodup_range).sublist (take_sublist _ _))).mpr fun i => ?_
    simp only [mem_filter, decide_eq_true_eq, and_iff_right_iff_imp]
    exact fun hi => hperm.subset (List.mem_of_mem_take hi)
  rw [List.count, List.countP_map, List.countP_eq_length_filter]
  simp only [Function.comp_def, beq_true]
  rw [hchosen.length_eq, length_take, hperm.length_eq, List.length_range, min_eq_left hhalf]

/-- Means that reproduce their assignment are final. -/
lemma allRounds_fixed
    (hassign : assign K vectors left right (vectors.length / 2) = .ok assignment)
    (hmeans : clusterMeans K vectors assignment = .ok (left, right)) :
    ∀ n, allRounds K vectors left right n = .ok (left, right)
  | 0 => rfl
  | n + 1 => by
    simp only [allRounds, bind_eq_ok]
    exact ⟨_, hassign, _, hmeans, allRounds_fixed hassign hmeans n⟩

lemma lloyd_eq_allRounds {previous : Option (List Bool)} {rounds n : ℕ}
    (hprevious : ∀ a, previous = some a → clusterMeans K vectors a = .ok (left, right)) :
    (lloyd K vectors rounds left right previous n).map (fun split => (split.left, split.right)) =
      allRounds K vectors left right n := by
  induction n generalizing rounds left right previous with
  | zero => rfl
  | succ n ih =>
    rw [lloyd, allRounds]
    cases hassign : assign K vectors left right (vectors.length / 2) with
    | error e => rfl
    | ok a =>
      change (if previous = some a then _ else _ : Except _ _).map _ = clusterMeans K
        vectors a >>= _
      split_ifs with hstable
      · have hmeans := hprevious a hstable
        rw [hmeans]
        exact (allRounds_fixed hassign hmeans n).symm
      · cases hmeans : clusterMeans K vectors a with
        | error e => rfl
        | ok => exact ih fun a' ha' => by cases ha'; exact hmeans

/-- Rounds that succeed make an assignment each. -/
lemma allRounds_assign {means : Vec × Vec} {n : ℕ}
    (hok : allRounds K vectors left right n = .ok means) : ∀ k < n, ∃ centroids assignment,
      allRounds K vectors left right k = .ok centroids ∧
      assign K vectors centroids.1 centroids.2 (vectors.length / 2) = .ok assignment := by
  induction n generalizing left right with
  | zero => exact fun k hk => absurd hk k.not_lt_zero
  | succ n ih =>
    obtain ⟨assignment, hassign, hok⟩ := bind_eq_ok.mp hok
    obtain ⟨next, hmeans, hok⟩ := bind_eq_ok.mp hok
    rintro (_ | k) hk
    · exact ⟨(left, right), assignment, rfl, hassign⟩
    · obtain ⟨centroids, assignment', hbefore, hnext⟩ := ih hok k (Nat.lt_of_succ_lt_succ hk)
      exact ⟨centroids, assignment', bind_eq_ok.mpr ⟨assignment, hassign, bind_eq_ok.mpr
        ⟨next, hmeans, hbefore⟩⟩, hnext⟩

variable [LinearOrder I]

lemma train_eq_trainRounds : (train K entries).map (fun split => (split.left, split.right)) =
    trainRounds K entries maxTrainingRounds := by
  rw [train, trainRounds]
  cases canonicalVectors K entries with
  | error e => rfl
  | ok vectors =>
    rcases vectors with _ | ⟨first, _ | ⟨second, rest⟩⟩
    · rfl
    · rfl
    · change Except.map _ (seeds K first (second :: rest) >>= _) = seeds K first
        (second :: rest) >>= _
      cases seeds K first (second :: rest) with
      | error e => rfl
      | ok => exact lloyd_eq_allRounds (by simp)

/-- **Training is a balanced function of the entry set.**  The order of loading does not
matter, the early exit changes nothing, and each round, from the centroids of the rounds
before it, puts half of the entries on the left. -/
theorem train_balanced (K : TrainingKernel Vec Dist) (loaded : EntrySet I Vec)
    (htwo : 2 ≤ loaded.1.length) :
    (∀ loaded' : EntrySet I Vec, loaded.1.Perm loaded'.1 →
      ∀ split, train K loaded.1 = .ok split → train K loaded'.1 = .ok split) ∧
    (train K loaded.1).map (fun split => (split.left, split.right)) =
      trainRounds K loaded.1 maxTrainingRounds ∧
    ∀ split, train K loaded.1 = .ok split → ∃ vectors,
      canonicalVectors K loaded.1 = .ok vectors ∧ vectors.length = loaded.1.length ∧
      ∀ k < maxTrainingRounds, ∃ centroids assignment, trainRounds K loaded.1 k = .ok centroids ∧
        assign K vectors centroids.1 centroids.2 (loaded.1.length / 2) = .ok assignment ∧
        assignment.length = loaded.1.length ∧ assignment.count true = loaded.1.length / 2 ∧
        true ∈ assignment ∧ false ∈ assignment := by
  refine ⟨fun loaded' hperm split hok => ?_, train_eq_trainRounds, fun split hok => ?_⟩
  · obtain ⟨vectors, hvectors, hok⟩ := bind_eq_ok.mp hok
    exact bind_eq_ok.mpr ⟨vectors, (canonicalVectors_perm loaded.2 hperm hvectors).1, hok⟩
  · have hrounds : _ = trainRounds K loaded.1 maxTrainingRounds := train_eq_trainRounds
    rw [hok] at hrounds
    obtain ⟨vectors, hvectors, hrounds⟩ := bind_eq_ok.mp hrounds.symm
    have hlength := (canonicalVectors_perm loaded.2 (.refl _) hvectors).2
    refine ⟨vectors, hvectors, hlength, fun k hk => ?_⟩
    rcases vectors with _ | ⟨_, _ | ⟨_, _⟩⟩
    · simp only [List.length_nil] at hlength
      omega
    · simp only [length_cons, List.length_nil] at hlength
      omega
    · obtain ⟨found, hfound, hrounds⟩ := bind_eq_ok.mp hrounds
      obtain ⟨centroids, assignment, hbefore, hassign⟩ := allRounds_assign hrounds k hk
      rw [hlength] at hassign
      obtain ⟨hsame, hcount⟩ := assign_count (by omega) hassign
      have hsum := List.count_not_add_count assignment true
      rw [Bool.not_true] at hsum
      exact ⟨centroids, assignment, bind_eq_ok.mpr ⟨_, hvectors, bind_eq_ok.mpr
        ⟨found, hfound, hbefore⟩⟩, hassign, by omega, hcount, List.count_pos_iff.mp (by omega),
        List.count_pos_iff.mp (by omega)⟩

end

/-- Points of a line. -/
def lineKernel : TrainingKernel ℤ ℤ where
  isCosine := false
  isValid _ := true
  normalizeCentroid v := .ok v
  routingDistance a b := .ok ((a - b) * (a - b))
  sub a b := a - b
  mean vs := .ok (vs.sum / vs.length)
  zero := 0

/-- Three entries, loaded in two orders. -/
theorem train_balanced_line :
    train lineKernel [(2, 10), (3, 30), (1, 0)] = .ok ⟨30, 5, 2⟩ ∧
    train lineKernel [(1, 0), (2, 10), (3, 30)] = .ok ⟨30, 5, 2⟩ ∧
    trainRounds lineKernel [(2, 10), (3, 30), (1, 0)] 10 = .ok (30, 5) := by
  have hok : train lineKernel [(2, 10), (3, 30), (1, 0)] = .ok ⟨30, 5, 2⟩ := by decide
  obtain ⟨horder, hall, -⟩ := train_balanced lineKernel
    ⟨[(2, 10), (3, 30), (1, 0)], by decide⟩ (by decide)
  refine ⟨hok, horder ⟨[(1, 0), (2, 10), (3, 30)], by decide⟩ (by decide) _ hok, ?_⟩
  rw [hok] at hall
  exact hall.symm

end Training
