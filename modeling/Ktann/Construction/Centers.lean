/-
Cluster centers of one group of construction rows.

A group that is too large for one partition is divided around a few centers, which
are trained on a sample.  The vector arithmetic is a parameter; what is modelled is
which vectors it is applied to, and in which order.

* `nearest` — the center a vector is assigned to;
* `multiCenters` — training: farthest-first seeds and ten Lloyd rounds;
* `groupSizes` — the sizes of the children, near the natural ones
  (`groupSizes_spec`).
-/
import Ktann.Lib.Except
import Ktann.Lib.Selection
import Ktann.Storage.Manifest

/-- The vector functions of a construction: metric preprocessing, the
normalization of centroids, the distance of two vectors, the mean of vectors in
the given order, and the seeded hash of an ID. -/
structure ConstructionKernel (Vec Dist : Type) where
  isCosine : Bool
  preprocess : Vec → Except Error Vec
  normalizeCentroid : Vec → Except Error Vec
  routingDistance : Vec → Vec → Dist
  minDistance : Dist → Dist → Dist
  infinity : Dist
  negInfinity : Dist
  mean : List Vec → Vec
  hash : Bytes → ℕ
  components : Vec → ℕ

/-- A construction point. -/
structure Row (Vec : Type) where
  id : Bytes
  vector : Vec
  deriving DecidableEq

/-! ### Assignment -/

section

variable {Vec Dist : Type} [LinearOrder Dist] (K : ConstructionKernel Vec Dist)

/-- The distances of a vector to the centers, four at a time.  A last center on its
own is compared the other way around. -/
def centerDistances (v : Vec) : List Vec → List Dist
  | a :: b :: c :: d :: rest => K.routingDistance a v :: K.routingDistance b v ::
      K.routingDistance c v :: K.routingDistance d v :: centerDistances v rest
  | [a] => [K.routingDistance v a]
  | chunk => chunk.map fun a => K.routingDistance a v

/-- The first position with the least distance, if one is below the given one. -/
def nearestFrom : List Dist → ℕ → ℕ → Dist → ℕ
  | [], _, best, _ => best
  | candidate :: rest, i, best, distance =>
    if candidate < distance then nearestFrom rest (i + 1) i candidate
    else nearestFrom rest (i + 1) best distance

/-- The center a vector is assigned to. -/
def nearest (centers : List Vec) (v : Vec) : ℕ :=
  nearestFrom (centerDistances K v centers) 0 0 K.infinity

omit [LinearOrder Dist] in
lemma length_centerDistances (v : Vec) :
    ∀ centers, (centerDistances K v centers).length = centers.length
  | a :: b :: c :: d :: rest => by
    simp only [centerDistances, length_cons, length_centerDistances v rest]
  | [] | [_] | [_, _] | [_, _, _] => rfl

lemma nearestFrom_lt : ∀ (distances : List Dist) (i best : ℕ) (distance : Dist),
    best < i + distances.length → nearestFrom distances i best distance < i + distances.length
  | [], _, _, _, h => h
  | candidate :: rest, i, best, distance, h => by
    have hlength : i + (candidate :: rest).length = i + 1 + rest.length := by
      simp only [length_cons]
      omega
    rw [nearestFrom, hlength]
    split_ifs
    · exact nearestFrom_lt rest (i + 1) i candidate (by omega)
    · exact nearestFrom_lt rest (i + 1) best distance (by omega)

variable {centers : List Vec} {config : IndexManifest} {level n : ℕ}

lemma nearest_lt (h : centers ≠ []) (v : Vec) : nearest K centers v < centers.length := by
  have hpos := List.length_pos_of_ne_nil h
  have hlt := nearestFrom_lt (centerDistances K v centers) 0 0 K.infinity
    (by rw [length_centerDistances]; omega)
  rw [length_centerDistances] at hlt
  rw [nearest]
  omega

/-- How many rows each center gets. -/
def labelCounts (centers : List Vec) (rows : List (Row Vec)) : List ℕ :=
  (List.range centers.length).map fun label =>
    rows.countP fun row => nearest K centers row.vector = label

variable {K} in
lemma length_labelCounts {rows : List (Row Vec)} :
    (labelCounts K centers rows).length = centers.length := by
  rw [labelCounts, length_map, List.length_range]

/-! ### Training -/

/-- The first vector at the greatest distance, if one is above the given one. -/
def farthestFrom : List (Vec × Dist) → Vec → Dist → Vec
  | [], best, _ => best
  | (v, distance) :: rest, best, greatest =>
    if greatest < distance then farthestFrom rest v distance
    else farthestFrom rest best greatest

/-- Seeds from `seed` on: each is farthest from those before it, the first from the
mean. -/
def seedsFrom (vectors : List Vec) (first : Vec) : ℕ → ℕ → Vec → List Dist → List Vec
  | 0, _, _, _ => []
  | remaining + 1, seed, center, distances =>
    let distances := List.zipWith (fun v old =>
      let distance := K.routingDistance v center
      if seed ≤ 1 then distance else K.minDistance old distance) vectors distances
    let chosen := farthestFrom (vectors.zip distances) first K.negInfinity
    chosen :: seedsFrom vectors first remaining (seed + 1) chosen distances

/-- One center after a round: the mean of its vectors, if it has any. -/
def recenter (vectors : List Vec) (labels : List ℕ) (center : Vec) (label : ℕ) : Except Error Vec :=
  match (vectors.zip labels).filter fun e => e.2 = label with
  | [] => .ok center
  | members => K.normalizeCentroid (K.mean (members.map Prod.fst))

/-- Lloyd rounds, until the assignment is stable. -/
def lloyd (vectors : List Vec) : ℕ → Option (List ℕ) → List Vec → Except Error (List Vec)
  | 0, _, centers => .ok centers
  | rounds + 1, previous, centers =>
    let labels := vectors.map (nearest K centers)
    if previous = some labels then .ok centers
    else do
      let centers ← centers.zipIdx.mapM fun e => recenter K vectors labels e.1 e.2
      lloyd vectors rounds (some labels) centers

/-- The number of centers of a group of `n` rows with a sample of `sampled`. -/
def centerCount (config : IndexManifest) (sampled n level : ℕ) : ℕ :=
  let most := config.maxEntries level
  max (min sampled (min ((n + (most - 1)) / most) 8)) 2

lemma IndexManifest.entries_bounds (config : IndexManifest) (level : ℕ) :
    1 ≤ config.minPartitionEntries level ∧
      2 * config.minPartitionEntries level ≤ config.maxEntries level := by
  have hleaf := config.leaf_entries
  have hinternal := config.internal_entries
  rw [IndexManifest.minPartitionEntries, IndexManifest.maxEntries]
  split_ifs
  · exact ⟨hleaf.1, hleaf.2.1⟩
  · exact ⟨hinternal.1, hinternal.2.1⟩

lemma centerCount_spec (sampled : ℕ) (hlarge : config.maxEntries level < n) :
    2 ≤ centerCount config sampled n level ∧
      centerCount config sampled n level * config.minPartitionEntries level ≤ n := by
  obtain ⟨hpos, hdouble⟩ := config.entries_bounds level
  simp only [centerCount]
  generalize config.minPartitionEntries level = least at *
  generalize config.maxEntries level = most at *
  refine ⟨le_max_right _ _, ?_⟩
  generalize hk : max (min sampled (min ((n + (most - 1)) / most) 8)) 2 = k
  -- One partition fewer is not enough for all rows.
  have hfewer : (k - 1) * most ≤ n := by
    rcases le_or_gt k 2 with hle | hgt
    · calc (k - 1) * most ≤ 1 * most := Nat.mul_le_mul_right _ (by omega)
        _ ≤ n := by omega
    · have hceil : k ≤ (n + (most - 1)) / most := by omega
      have hmul := (Nat.le_div_iff_mul_le (by omega)).mp hceil
      rw [Nat.sub_mul, one_mul]
      omega
  have htwo : 2 ≤ k := by omega
  calc k * least ≤ (k - 1) * 2 * least := Nat.mul_le_mul_right _ (by omega)
    _ = (k - 1) * (2 * least) := Nat.mul_assoc _ _ _
    _ ≤ (k - 1) * most := Nat.mul_le_mul_left _ hdouble
    _ ≤ n := hfewer

/-- Trains the centers of a group of `n` rows on a sample, in canonical order. -/
def multiCenters (config : IndexManifest) (sample : List (Row Vec)) (n level : ℕ) :
    Except Error (List Vec) := do
  let vectors ← (sortBy Row.id sample).mapM fun row =>
    if K.isCosine then K.normalizeCentroid row.vector else .ok row.vector
  match vectors with
  | [] => .error .corrupt
  | first :: rest =>
    let vectors := first :: rest
    lloyd K vectors 10 none (seedsFrom K vectors first (centerCount config sample.length n level) 0
      (K.mean vectors) (vectors.map fun _ => K.infinity))

lemma length_seedsFrom (vectors : List Vec) (first : Vec) :
    ∀ (remaining seed : ℕ) (center : Vec) (distances : List Dist),
      (seedsFrom K vectors first remaining seed center distances).length = remaining
  | 0, _, _, _ => rfl
  | remaining + 1, _, _, _ => by
    simp only [seedsFrom, length_cons, length_seedsFrom vectors first remaining]

lemma length_lloyd {vectors : List Vec} :
    ∀ {rounds : ℕ} {previous : Option (List ℕ)} {centers centers' : List Vec},
      lloyd K vectors rounds previous centers = .ok centers' →
        centers'.length = centers.length := by
  intro rounds
  induction rounds with
  | zero =>
    intro previous centers centers' hok
    cases hok
    rfl
  | succ _ ih =>
    intro _ _ _ hok
    simp only [lloyd] at hok
    split_ifs at hok
    · cases hok
      rfl
    · obtain ⟨_, hmoved, hok⟩ := bind_eq_ok.mp hok
      rw [ih hok, ← (mapM_eq_ok.mp hmoved).length_eq, List.length_zipIdx]

lemma length_multiCenters {sample : List (Row Vec)}
    (hok : multiCenters K config sample n level = .ok centers) :
    centers.length = centerCount config sample.length n level := by
  obtain ⟨vectors, -, hok⟩ := bind_eq_ok.mp hok
  cases vectors with
  | nil => cases hok
  | cons => rw [length_lloyd K hok, length_seedsFrom]

lemma multiCenters_perm {sample sample' : List (Row Vec)} (hnodup : (sample.map Row.id).Nodup)
    (hperm : sample.Perm sample') :
    multiCenters K config sample n level = multiCenters K config sample' n level := by
  rw [multiCenters, multiCenters, sortBy_congr hnodup hperm, hperm.length_eq]

end

/-! ### Sizes -/

/-- A number moved into an interval. -/
def clampTo (x lower upper : ℕ) : ℕ :=
  if x < lower then lower else if upper < x then upper else x

/-- Sizes from the child that starts at `previous` on. -/
def groupSizesFrom (n least most : ℕ) : List ℕ → ℕ → ℕ → List ℕ
  | [], _, _ => []
  | count :: rest, naturalEnd, previous =>
    let naturalEnd := naturalEnd + count
    let lower := max (previous + least) (n - rest.length * most)
    let upper := min (previous + most) (n - rest.length * least)
    let groupEnd := clampTo naturalEnd lower upper
    (groupEnd - previous) :: groupSizesFrom n least most rest naturalEnd groupEnd

/-- The sizes of the children: natural boundaries, moved so that every child has
at least `least` rows and loses a quarter of the group. -/
def groupSizes (counts : List ℕ) (least : ℕ) : List ℕ :=
  let n := counts.sum
  groupSizesFrom n least (n - (n + 3) / 4) counts 0 0

/-- No step subtracts more than there is, and every `clamp` has its bounds in order,
which it asserts. -/
def ClampsOrdered (n least most : ℕ) : List ℕ → ℕ → ℕ → Prop
  | [], _, _ => True
  | count :: rest, naturalEnd, previous =>
    let naturalEnd := naturalEnd + count
    let lower := max (previous + least) (n - rest.length * most)
    let upper := min (previous + most) (n - rest.length * least)
    rest.length * least ≤ n ∧ lower ≤ upper ∧
      ClampsOrdered n least most rest naturalEnd (clampTo naturalEnd lower upper)

/-- While the rest of the group fits the remaining children, so does what one more
child leaves. -/
lemma groupSizesFrom_spec (n : ℕ) {least most : ℕ} (hle : least ≤ most) :
    ∀ (counts : List ℕ) (naturalEnd previous : ℕ),
      previous + counts.length * least ≤ n → n ≤ previous + counts.length * most →
      (groupSizesFrom n least most counts naturalEnd previous).length = counts.length ∧
        previous + (groupSizesFrom n least most counts naturalEnd previous).sum = n ∧
        (∀ size ∈ groupSizesFrom n least most counts naturalEnd previous,
          least ≤ size ∧ size ≤ most) ∧ ClampsOrdered n least most counts naturalEnd previous
  | [], naturalEnd, previous, hlow, hhigh => by
    simp only [length_nil, zero_mul, add_zero] at hlow hhigh
    exact ⟨rfl, by simpa [groupSizesFrom] using le_antisymm hlow hhigh, by simp [groupSizesFrom],
      trivial⟩
  | count :: rest, naturalEnd, previous, hlow, hhigh => by
    simp only [length_cons, add_mul, one_mul] at hlow hhigh
    have hmul : rest.length * least ≤ rest.length * most := Nat.mul_le_mul_left _ hle
    simp only [groupSizesFrom, ClampsOrdered]
    generalize hend : clampTo (naturalEnd + count) (max (previous + least) (n - rest.length * most))
      (min (previous + most) (n - rest.length * least)) = groupEnd
    have hbounds : previous + least ≤ groupEnd ∧ groupEnd ≤ previous + most ∧
        groupEnd + rest.length * least ≤ n ∧ n ≤ groupEnd + rest.length * most := by
      rw [← hend, clampTo]
      split_ifs <;> omega
    obtain ⟨hlength, hsum, hsizes, hclamps⟩ := groupSizesFrom_spec n hle rest
      (naturalEnd + count) groupEnd
      hbounds.2.2.1 hbounds.2.2.2
    refine ⟨by rw [length_cons, length_cons, hlength], ?_, ?_, by omega, by omega, hclamps⟩
    · rw [sum_cons]
      omega
    · intro size hsize
      rcases mem_cons.mp hsize with rfl | hsize
      · omega
      · exact hsizes size hsize

/-- **The sizes cover the group**, none is below the minimum, and each child is
smaller than the group. -/
theorem groupSizes_spec {counts : List ℕ} {least : ℕ} (hpos : 1 ≤ least) (htwo : 2 ≤ counts.length)
    (hroom : counts.length * least ≤ counts.sum) :
    (groupSizes counts least).length = counts.length ∧ (groupSizes counts least).sum = counts.sum ∧
      (∀ size ∈ groupSizes counts least, least ≤ size ∧ size < counts.sum) ∧
      ClampsOrdered counts.sum least (counts.sum - (counts.sum + 3) / 4) counts 0 0 := by
  have hdouble : 2 * least ≤ counts.length * least := Nat.mul_le_mul_right _ htwo
  have hmost : 2 * (counts.sum - (counts.sum + 3) / 4) ≤
      counts.length * (counts.sum - (counts.sum + 3) / 4) := Nat.mul_le_mul_right _ htwo
  obtain ⟨hlength, hsum, hsizes, hclamps⟩ := groupSizesFrom_spec counts.sum
    (show least ≤ counts.sum - (counts.sum + 3) / 4 by omega) counts 0 0 (by omega) (by omega)
  refine ⟨hlength, by rw [groupSizes]; omega, fun size hsize => ?_, hclamps⟩
  have hbound := hsizes size hsize
  omega
