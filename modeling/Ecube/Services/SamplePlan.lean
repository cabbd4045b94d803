import Ecube.Basic.OrderBy
import Ecube.Basic.PosixPath
import Ecube.Basic.RoundRobin

/-!
The sample of a throughput benchmark (`app/services/copy_engine.py`).

Files are sorted by size into buckets. In a bucket the middle, the first and the last file come
first, and the buckets are drained in rounds until the requested bytes are selected.
`sample_plan`: no file is used twice, only the last one is cut, and the amounts add up to what
was requested or to all there is.
-/

namespace Ecube

open PosixPath OrderBy RoundRobin

/-- `THROUGHPUT_BENCHMARK_SAMPLE_BUCKETS`, lower and upper bounds. -/
def throughputBenchmarkSampleBuckets : List (Int × Option Int) :=
  [(16 * 1024, some (32 * 1024)), (32 * 1024, some (64 * 1024)),
    (64 * 1024, some (128 * 1024)), (128 * 1024, some (256 * 1024)),
    (256 * 1024, some (512 * 1024)), (512 * 1024, some (1024 * 1024)),
    (1024 * 1024, some (10 * 1024 * 1024)), (10 * 1024 * 1024, none)]

def classifyThroughputBenchmarkSampleBucket (sizeBytes : Int) : Nat :=
  if sizeBytes < (throughputBenchmarkSampleBuckets.get ⟨0, by decide⟩).1 then 0
  else
    let within := fun bounds : Int × Option Int =>
      decide (bounds.1 ≤ sizeBytes) && bounds.2.all fun upper => decide (sizeBytes < upper)
    match throughputBenchmarkSampleBuckets.findIdx? within with
    | some index => index
    | none => throughputBenchmarkSampleBuckets.length - 1

/-- The path of a file with its size, when it can be examined (`stat`) and is not empty. -/
def fileInfo (file : Str × Option Int) : Option (Str × Int) :=
  match file.2 with
  | none => none
  | some stSize =>
      let sizeBytes := max 0 stSize
      if sizeBytes ≤ 0 then none else some (file.1, sizeBytes)

def fillBuckets (sortedInfos : List (Str × Int)) : List (List (Str × Int)) :=
  sortedInfos.foldl
    (fun buckets info =>
      buckets.modify (classifyThroughputBenchmarkSampleBucket info.2) fun bucket => bucket ++ [info])
    (throughputBenchmarkSampleBuckets.map fun _ => [])

/-- The indexes a bucket starts with, each once. -/
def seenIndexes (length : Nat) : List Nat :=
  let preferredIndexes := [length / 2, 0, length - 1]
  preferredIndexes.foldl (fun seen index => if index ∈ seen then seen else seen ++ [index]) []

def orderedBucket (bucket : List (Str × Int)) : List (Str × Int) :=
  let seen := seenIndexes bucket.length
  let others := (List.range bucket.length).filter fun index => index ∉ seen
  (seen ++ others).filterMap fun index => bucket[index]?

/-- `_build_throughput_benchmark_sample_plan`; `fuel` bounds the passes over the buckets. -/
def buildThroughputBenchmarkSamplePlan (fuel : Nat) (files : List (Str × Option Int))
    (sampleBytes : Int) : Option (List (Str × Int)) :=
  if sampleBytes ≤ 0 then some []
  else
    let fileInfos := files.filterMap fileInfo
    if fileInfos = [] then some []
    else
      let sortedInfos := orderBy Prod.snd fileInfos
      let buckets := fillBuckets sortedInfos
      let orderedBuckets := (buckets.filter fun bucket => !bucket.isEmpty).map orderedBucket
      drain fuel (orderedBuckets.map fun bucket => (bucket, 0)) sampleBytes

/-! ### No file is lost or repeated -/

theorem classify_lt (sizeBytes : Int) :
    classifyThroughputBenchmarkSampleBucket sizeBytes <
      throughputBenchmarkSampleBuckets.length := by
  rw [classifyThroughputBenchmarkSampleBucket]
  split
  · decide
  · dsimp only
    split
    next index found => exact (List.findIdx?_eq_some_iff_findIdx_eq.mp found).1
    next => decide

theorem perm_flatten_modify {α : Type} {lists : List (List α)} {index : Nat}
    (inside : index < lists.length) (a : α) :
    (lists.modify index fun list => list ++ [a]).flatten.Perm (lists.flatten ++ [a]) := by
  rw [List.modify_eq_take_cons_drop inside]
  conv_rhs => rw [← List.take_append_drop index lists, List.drop_eq_getElem_cons inside]
  simp only [List.flatten_append, List.flatten_cons, List.append_assoc]
  exact .append_left _ (.append_left _ List.perm_append_comm)

theorem perm_fillBuckets (sortedInfos : List (Str × Int)) :
    (fillBuckets sortedInfos).flatten.Perm sortedInfos := by
  -- Every file goes into a bucket that exists.
  suffices step : ∀ buckets : List (List (Str × Int)),
      buckets.length = throughputBenchmarkSampleBuckets.length →
      (sortedInfos.foldl (fun buckets info =>
        buckets.modify (classifyThroughputBenchmarkSampleBucket info.2)
          fun bucket => bucket ++ [info]) buckets).flatten.Perm (buckets.flatten ++ sortedInfos) from
    step _ (by simp)
  induction sortedInfos with
  | nil => intro buckets _; simp
  | cons info rest ih =>
      intro buckets length
      have inside : classifyThroughputBenchmarkSampleBucket info.2 < buckets.length :=
        length ▸ classify_lt info.2
      have placed := perm_flatten_modify inside info
      simpa using (ih _ (by simp [length])).trans (placed.append_right rest)

/-- Indexes are appended once, whatever their order. -/
theorem foldl_seen (indexes seen : List Nat) :
    let all := indexes.foldl (fun seen i => if i ∈ seen then seen else seen ++ [i]) seen
    (seen.Nodup → all.Nodup) ∧ ∀ i ∈ all, i ∈ seen ∨ i ∈ indexes := by
  induction indexes generalizing seen with
  | nil => simp
  | cons index indexes ih =>
      rw [List.foldl_cons]
      split
      next old =>
        obtain ⟨nodup, mem⟩ := ih seen
        exact ⟨nodup, fun i hi => (mem i hi).imp_right (List.mem_cons_of_mem _)⟩
      next fresh =>
        obtain ⟨nodup, mem⟩ := ih (seen ++ [index])
        refine ⟨fun unique => nodup ?_, fun i hi => ?_⟩
        · refine List.nodup_append.mpr ⟨unique, List.nodup_singleton _, fun i hi j hj same => ?_⟩
          rw [List.mem_singleton.mp hj] at same
          exact fresh (same ▸ hi)
        · have := mem i hi
          simp only [List.mem_append, List.mem_cons, List.not_mem_nil, or_false] at this ⊢
          tauto

theorem perm_orderedIndexes {length : Nat} (full : 0 < length) :
    (seenIndexes length ++ (List.range length).filter fun i => i ∉ seenIndexes length).Perm
      (List.range length) := by
  obtain ⟨nodup, mem⟩ := foldl_seen [length / 2, 0, length - 1] []
  have inside : ∀ i ∈ seenIndexes length, i < length := by
    intro i hi
    have preferred := mem i hi
    simp only [List.not_mem_nil, false_or, List.mem_cons, or_false] at preferred
    rcases preferred with rfl | rfl | rfl
    · exact Nat.div_lt_self full (by decide)
    · exact full
    · exact Nat.sub_lt full Nat.one_pos
  have unique : (seenIndexes length ++
      (List.range length).filter fun i => i ∉ seenIndexes length).Nodup := by
    refine List.nodup_append.mpr ⟨nodup .nil, List.nodup_range.filter _, ?_⟩
    intro i hi j hj same
    exact of_decide_eq_true (List.mem_filter.mp hj).2 (same ▸ hi)
  refine (List.perm_ext_iff_of_nodup unique List.nodup_range).mpr fun i => ?_
  simp only [List.mem_append, List.mem_filter, List.mem_range, decide_eq_true_eq]
  have := inside i
  tauto

theorem perm_orderedBucket {bucket : List (Str × Int)} (full : bucket ≠ []) :
    (orderedBucket bucket).Perm bucket := by
  have all : (List.range bucket.length).filterMap (fun index => bucket[index]?) = bucket := by
    have entries : (List.range bucket.length).map (fun index => bucket[index]?) =
        bucket.map some := by
      refine List.ext_getElem (by simp) fun i _ _ => ?_
      simp
    have image := congrArg (List.filterMap id) entries
    rw [List.filterMap_map, List.filterMap_map] at image
    exact image.trans (List.filterMap_some ..)
  have perm := (perm_orderedIndexes (List.length_pos_of_ne_nil full)).filterMap
    fun index => bucket[index]?
  rw [all] at perm
  exact perm

theorem perm_flatten_map {α : Type} (f : List α → List α) (lists : List (List α))
    (perm : ∀ list ∈ lists, (f list).Perm list) : (lists.map f).flatten.Perm lists.flatten := by
  induction lists with
  | nil => exact .refl _
  | cons list lists ih =>
      rw [List.map_cons, List.flatten_cons, List.flatten_cons]
      exact (perm list List.mem_cons_self).append
        (ih fun l hl => perm l (List.mem_cons_of_mem _ hl))

/-- What the rounds are drained from are all the files with a size. -/
theorem perm_pending (fileInfos : List (Str × Int)) :
    (pending ((((fillBuckets (orderBy Prod.snd fileInfos)).filter
      fun bucket => !bucket.isEmpty).map orderedBucket).map fun bucket => (bucket, 0))).Perm
        fileInfos := by
  have queues : ∀ lists : List (List (Str × Int)),
      pending (lists.map fun bucket => (bucket, 0)) = lists.flatten := by
    intro lists
    simp [pending, List.flatMap_map, List.flatMap_id']
  rw [queues]
  have ordered := perm_flatten_map orderedBucket
    ((fillBuckets (orderBy Prod.snd fileInfos)).filter fun bucket => !bucket.isEmpty)
    fun bucket mem => perm_orderedBucket (by simpa using (List.mem_filter.mp mem).2)
  rw [List.flatten_filter_not_isEmpty] at ordered
  exact (ordered.trans (perm_fillBuckets _)).trans perm_orderBy

/-! ### The plan -/

def statableSize (file : Str × Option Int) : Int := max 0 (file.2.getD 0)

theorem fileInfo_eq (file : Str × Option Int) :
    fileInfo file = if statableSize file ≤ 0 then none else some (file.1, statableSize file) := by
  obtain ⟨path, stat⟩ := file
  cases stat <;> rfl

theorem fileInfo_some {file : Str × Option Int} {info : Str × Int}
    (known : fileInfo file = some info) : file = (info.1, some info.2) ∧ 0 < info.2 := by
  obtain ⟨path, stat⟩ := file
  rw [fileInfo_eq] at known
  split at known
  next => cases known
  next positive =>
    cases known
    cases stat with
    | none => exact absurd le_rfl positive
    | some stSize =>
        simp only [statableSize, Option.getD_some] at positive ⊢
        have same : max 0 stSize = stSize := by omega
        rw [same] at positive ⊢
        exact ⟨rfl, not_le.mp positive⟩

theorem total_fileInfos (files : List (Str × Option Int)) :
    total (files.filterMap fileInfo) = (files.map statableSize).sum := by
  induction files with
  | nil => rfl
  | cons file files ih =>
      rw [List.map_cons, List.sum_cons, ← ih, List.filterMap_cons, fileInfo_eq]
      split_ifs with empty
      · have zero : statableSize file = 0 := le_antisymm empty (le_max_left ..)
        rw [zero, zero_add]
      · simp [total]

/-- The files a plan takes stand at different positions of the list. -/
theorem exists_positions_of_infos {files : List (Str × Option Int)} {taken rest : List (Str × Int)}
    (perm : (taken ++ rest).Perm (files.filterMap fileInfo)) :
    ∃ positions : List (Fin files.length), positions.Nodup ∧
      List.Forall₂ (fun position info => files.get position = (info.1, some info.2))
        positions taken := by
  have sublist : ((files.filterMap fileInfo).map some).Sublist (files.map fileInfo) := by
    rw [List.map_filterMap_some_eq_filter_map_isSome]
    exact List.filter_sublist
  have part : (taken.map some).Subperm (files.map fileInfo) :=
    (((List.sublist_append_left taken rest).map some).subperm.trans
      (perm.map some).subperm).trans sublist.subperm
  obtain ⟨positions, unique, same⟩ := exists_positions part
  refine ⟨positions.map (Fin.cast (by simp)), ?_, ?_⟩
  · exact unique.map (Fin.cast_injective _)
  · have entries : List.Forall₂ (fun position info => fileInfo (files.get position) = some info)
        (positions.map (Fin.cast (by simp))) taken := by
      rw [List.forall₂_map_left_iff]
      have images : List.Forall₂ Eq (positions.map (files.map fileInfo).get) (taken.map some) :=
        List.forall₂_eq_eq_eq ▸ same.symm
      simpa using images
    exact entries.imp fun position info known => (fileInfo_some known).1

theorem forall₂_trans {α β γ : Type} {r : α → β → Prop} {s : β → γ → Prop} {t : α → γ → Prop}
    {as : List α} {bs : List β} {cs : List γ} (first : List.Forall₂ r as bs)
    (second : List.Forall₂ s bs cs) (comp : ∀ a b c, r a b → s b c → t a c) :
    List.Forall₂ t as cs := by
  induction first generalizing cs with
  | nil => cases second; exact .nil
  | cons head _ ih =>
      cases second with
      | cons here later => exact .cons (comp _ _ _ head here) (ih later)

/--
The plan is built, uses every position of the list at most once, takes no more of a file than it
has and all of it but for the last, and adds up to what was asked for or to all there is.
-/
theorem sample_plan (files : List (Str × Option Int)) (sampleBytes : Int) :
    ∃ plan, (∀ fuel, files.length < fuel →
        buildThroughputBenchmarkSamplePlan fuel files sampleBytes = some plan) ∧
      ∃ positions : List (Fin files.length), positions.Nodup ∧
        List.Forall₂ (fun position entry => ∃ size,
          files.get position = (entry.1, some size) ∧ 0 < entry.2 ∧ entry.2 ≤ size)
          positions plan ∧
        List.Forall₂ (fun position entry => files.get position = (entry.1, some entry.2))
          positions.dropLast plan.dropLast ∧
        (plan.map Prod.snd).sum = min (max sampleBytes 0) (files.map statableSize).sum := by
  have nonneg : 0 ≤ (files.map statableSize).sum := by
    refine List.sum_nonneg fun size mem => ?_
    obtain ⟨file, -, rfl⟩ := List.mem_map.mp mem
    exact le_max_left ..
  by_cases asked : sampleBytes ≤ 0
  · refine ⟨[], fun fuel _ => if_pos asked, [], .nil, .nil, .nil, ?_⟩
    rw [max_eq_right asked, min_eq_left nonneg]
    rfl
  by_cases empty : files.filterMap fileInfo = []
  · refine ⟨[], fun fuel _ => ?_, [], .nil, .nil, .nil, ?_⟩
    · rw [buildThroughputBenchmarkSamplePlan, if_neg asked, if_pos empty]
    · rw [← total_fileInfos, empty]
      simp [total]
  have perm := perm_pending (files.filterMap fileInfo)
  have long : (files.filterMap fileInfo).length ≤ files.length := List.length_filterMap_le ..
  have positive : ∀ info ∈ files.filterMap fileInfo, 0 < info.2 := by
    intro info mem
    obtain ⟨file, -, known⟩ := List.mem_filterMap.mp mem
    exact (fileInfo_some known).2
  obtain ⟨plan, taken, rest, drained, all, cut, ended⟩ := drain_spec
    (Nat.lt_succ_of_le (perm.length_eq ▸ long)) (not_le.mp asked).le
    fun info mem => positive info (perm.subset mem)
  obtain ⟨positions, unique, entries⟩ := exists_positions_of_infos (all.trans perm)
  refine ⟨plan, fun fuel enough => ?_, positions, unique, ?_, ?_, ?_⟩
  · rw [buildThroughputBenchmarkSamplePlan, if_neg asked, if_neg empty]
    exact drain_mono enough drained
  · refine forall₂_trans entries cut.within fun position info entry named within => ?_
    exact ⟨info.2, within.1 ▸ named, within.2⟩
  · rw [← cut.whole, List.dropLast_eq_take, List.dropLast_eq_take, entries.length_eq]
    exact List.forall₂_take _ entries
  · have sum := total_append taken rest
    have spread : total (taken ++ rest) = (files.map statableSize).sum := by
      rw [← total_fileInfos]
      exact ((all.trans perm).map Prod.snd).sum_eq
    have left : 0 ≤ total rest := List.sum_nonneg fun size mem => by
      obtain ⟨info, hinfo, rfl⟩ := List.mem_map.mp mem
      exact (positive info ((all.trans perm).subset (List.mem_append_right _ hinfo))).le
    have within := cut.total_le
    have bounded := cut.bounded
    rw [max_eq_left (not_le.mp asked).le]
    change total plan = _
    rcases ended with rfl | spent
    · -- Every file was taken: the last one whole, or cut where the budget ends.
      have nothing : total ([] : List (Str × Int)) = 0 := rfl
      rcases cut.partly with rfl | spent
      · omega
      · omega
    · omega

end Ecube
