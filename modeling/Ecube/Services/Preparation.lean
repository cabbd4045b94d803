import Mathlib.Algebra.GroupWithZero.Nat
import Ecube.Services.CopyEngine

/-!
`prepare_job_startup_analysis`: the scan of the source tree and the rows of the
job.

A scan gives every file of the tree a row and removes the rows of files that are
no longer there; the revision number that the source keeps for this on job and
rows marks exactly the rows of the last scan. A cached analysis is used again
when every row still has its file with the recorded size, the totals agree and
no directory has changed. Then every file that is not done becomes pending and
the counters of the job are set.
-/

namespace Ecube

/-- The files below the source path with their sizes, in the order of the scan. -/
structure SourceTree where
  files : List (Str × Nat)
  distinct : (files.map Prod.fst).Nodup

def SourceTree.paths (tree : SourceTree) : List Str := tree.files.map Prod.fst

/-- The size of a file that exists. -/
def SourceTree.sizeOf (tree : SourceTree) (path : Str) : Option Nat :=
  (tree.files.find? fun e => e.1 = path).map Prod.snd

theorem SourceTree.mem_paths_of_sizeOf {tree : SourceTree} {path : Str} {n : Nat}
    (listed : tree.sizeOf path = some n) : path ∈ tree.paths := by
  obtain ⟨e, found, -⟩ := Option.map_eq_some_iff.mp listed
  have here := List.find?_some found
  exact List.mem_map.mpr ⟨e, List.mem_of_find?_eq_some found, of_decide_eq_true here⟩

def jobFiles (s : Db) (jobId : Nat) : List ExportFile :=
  s.files.rows.filter fun f => f.jobId = jobId

/-- The paths that have a row, one for each row. -/
def filePaths (s : Db) (jobId : Nat) : List Str := (jobFiles s jobId).map ExportFile.relativePath

/-- One entry of `_persist_startup_analysis_file_batch`: a new row, or the row of
the path with its size renewed and, unless it is done, pending again. -/
def persistFile (s : Db) (jobId : Nat) (relativePath : Str) (sizeBytes : Nat) : Db :=
  if s.files.any fun f => f.jobId = jobId ∧ f.relativePath = relativePath then
    s.updateFiles (fun f => f.jobId = jobId ∧ f.relativePath = relativePath)
      (fun f => { (if f.status = .done then f else Db.backToPending f) with sizeBytes := sizeBytes })
      fun f => by dsimp only; split <;> rfl
  else { s with
    files := s.files.insert
      (fun k => ⟨k, jobId, none, relativePath, sizeBytes, none, .pending, none, 0⟩) fun _ => rfl }

def listFiles (s : Db) (jobId : Nat) (files : List (Str × Nat)) : Db :=
  files.foldl (fun s e => persistFile s jobId e.1 e.2) s

/-- `_persist_startup_analysis_cache`. -/
def persistStartupAnalysisCache (s : Db) (jobId : Nat) (tree : SourceTree) : Db :=
  let listed := listFiles s jobId tree.files
  let kept := { listed with
    files := listed.files.delete fun f => f.jobId = jobId ∧ f.relativePath ∉ tree.paths }
  kept.modifyJob jobId (fun j => { j with startupAnalysis := { j.startupAnalysis with
    fileCount := some tree.files.length
    totalBytes := some (tree.files.map Prod.snd).sum
    cachePresent := true
    entries := false } }) fun _ => rfl

/-- `_cached_startup_analysis_is_current`; the directories are compared by their
modification times. -/
def cachedStartupAnalysisIsCurrent (s : Db) (job : ExportJob) (tree : SourceTree)
    (directoriesUnchanged : Bool) : Bool :=
  let rows := jobFiles s job.id
  decide (0 < job.startupAnalysis.fileCount.getD 0) &&
    rows.all (fun f => tree.sizeOf f.relativePath = some f.sizeBytes) &&
    decide (rows.length = job.startupAnalysis.fileCount.getD 0) &&
    decide ((rows.map ExportFile.sizeBytes).sum = job.startupAnalysis.totalBytes.getD 0) &&
    directoriesUnchanged

/-- The cached analysis if it is current, else a new one. -/
def analyseSource (s : Db) (job : ExportJob) (tree : SourceTree) (directoriesUnchanged : Bool) : Db :=
  if job.startupAnalysis.cachePresent &&
      cachedStartupAnalysisIsCurrent s job tree directoriesUnchanged then s
  else persistStartupAnalysisCache s job.id tree

def cachedFileCount (s : Db) (jobId : Nat) : Nat :=
  ((s.jobs.get jobId).bind fun j => j.startupAnalysis.fileCount).getD 0

/-- `summarize_done_progress`: the bytes of the files that are done. -/
def doneBytes (s : Db) (jobId : Nat) : Nat :=
  (((jobFiles s jobId).filter fun f => f.status = .done).map ExportFile.sizeBytes).sum

/-- The rows and counters a run starts with after the analysis. -/
def prepared (s : Db) (jobId : Nat) : Db :=
  let reset := s.resetNonDoneForRestart jobId
  reset.modifyJob jobId (fun j => { j with
    fileCount := j.startupAnalysis.fileCount.getD 0
    totalBytes := j.startupAnalysis.totalBytes.getD 0
    copiedBytes := doneBytes reset jobId
    startupAnalysis := { j.startupAnalysis with status := .ready } }) fun _ => rfl

def analysisFailed (s : Db) (jobId : Nat) : Db :=
  s.modifyJob jobId (fun j => { j with
    startupAnalysis := { j.startupAnalysis with status := .failed } }) fun _ => rfl

/-! ### Frames -/

/-- Listing files writes no other table. -/
theorem listFiles_files (jobId : Nat) (files : List (Str × Nat)) (s : Db) :
    ∃ rows, listFiles s jobId files = { s with files := rows } := by
  induction files generalizing s with
  | nil => exact ⟨s.files, rfl⟩
  | cons e rest ih =>
      have first : ∃ rows, persistFile s jobId e.1 e.2 = { s with files := rows } := by
        rw [persistFile]
        split <;> exact ⟨_, rfl⟩
      obtain ⟨rows, first⟩ := first
      obtain ⟨rows', later⟩ := ih (persistFile s jobId e.1 e.2)
      rw [first] at later
      exact ⟨rows', (congrArg (listFiles · jobId rest) first).trans later⟩

/-! ### The rows after a scan -/

section Paths

variable {s : Db} {jobId k : Nat}

theorem mem_filePaths {path : Str} :
    path ∈ filePaths s jobId ↔ ∃ f ∈ s.files, f.jobId = jobId ∧ f.relativePath = path := by
  rw [filePaths, List.mem_map]
  constructor
  · rintro ⟨f, mem, same⟩
    obtain ⟨hf, mine⟩ := List.mem_filter.mp mem
    exact ⟨f, hf, by simpa using mine, same⟩
  · rintro ⟨f, hf, mine, same⟩
    exact ⟨f, List.mem_filter.mpr ⟨hf, by simpa using mine⟩, same⟩

/-- An update that moves no row leaves the paths. -/
theorem filePaths_updateFiles {p : ExportFile → Bool} {g : ExportFile → ExportFile}
    (key : ∀ r, (g r).id = r.id) (job : ∀ r, (g r).jobId = r.jobId)
    (path : ∀ r, (g r).relativePath = r.relativePath) :
    filePaths (s.updateFiles p g key) k = filePaths s k := by
  let h : ExportFile → ExportFile := fun r => if p r then g r else r
  have hjob : ∀ r, (h r).jobId = r.jobId := by
    intro r
    dsimp only [h]
    split
    · exact job r
    · rfl
  have hpath : ∀ r, (h r).relativePath = r.relativePath := by
    intro r
    dsimp only [h]
    split
    · exact path r
    · rfl
  change ((s.files.rows.map h).filter fun f => f.jobId = k).map ExportFile.relativePath = _
  rw [List.filter_map, List.map_map, filePaths, jobFiles]
  congr 1
  · funext r
    exact hpath r
  · congr 1
    funext r
    simp only [Function.comp, hjob]

theorem filePaths_persistFile (s : Db) (jobId : Nat) (path : Str) (sizeBytes k : Nat) :
    filePaths (persistFile s jobId path sizeBytes) k =
      if k = jobId ∧ path ∉ filePaths s jobId then filePaths s k ++ [path] else filePaths s k := by
  have known : (s.files.any fun f => f.jobId = jobId ∧ f.relativePath = path) = true ↔
      path ∈ filePaths s jobId := by
    rw [Table.any_eq_true_iff, mem_filePaths]
    simp only [decide_eq_true_eq]
  rw [persistFile]
  split
  · rename_i present
    rw [if_neg fun h => h.2 (known.mp present)]
    apply filePaths_updateFiles
    · intro r
      dsimp only
      split <;> rfl
    · intro r
      dsimp only
      split <;> rfl
  · rename_i absent
    have new : path ∉ filePaths s jobId := fun mem => absent (known.mpr mem)
    change ((s.files.rows ++ [_]).filter fun f : ExportFile => f.jobId = k).map
      ExportFile.relativePath = _
    rw [List.filter_append, List.map_append]
    by_cases same : k = jobId
    · rw [if_pos ⟨same, new⟩, same]
      simp [filePaths, jobFiles]
    · rw [if_neg fun h => same h.1]
      have other : jobId ≠ k := fun h => same h.symm
      simp [filePaths, jobFiles, other]

/-- Every listed path has a row afterwards, and paths stay distinct. -/
theorem filePaths_listFiles (jobId : Nat) (files : List (Str × Nat)) (s : Db) :
    (∀ path, path ∈ filePaths (listFiles s jobId files) jobId ↔
      path ∈ filePaths s jobId ∨ path ∈ files.map Prod.fst) ∧
      ((filePaths s jobId).Nodup → (filePaths (listFiles s jobId files) jobId).Nodup) ∧
      ∀ k, k ≠ jobId → filePaths (listFiles s jobId files) k = filePaths s k := by
  induction files generalizing s with
  | nil => exact ⟨fun path => by simp [listFiles], fun h => h, fun _ _ => rfl⟩
  | cons e rest ih =>
      have first : ∀ k, filePaths (persistFile s jobId e.1 e.2) k = _ :=
        filePaths_persistFile s jobId e.1 e.2
      obtain ⟨members, nodup, others⟩ := ih (persistFile s jobId e.1 e.2)
      refine ⟨fun path => ?_, fun distinct => nodup ?_, fun k other => ?_⟩
      · refine (members path).trans ?_
        rw [first, List.map_cons, List.mem_cons]
        split
        · simp only [List.mem_append, List.mem_singleton, or_assoc]
        · rename_i present
          have known : e.1 ∈ filePaths s jobId := by
            by_contra h
            exact present ⟨rfl, h⟩
          constructor
          · exact fun h => h.imp_right .inr
          · rintro (h | rfl | h)
            · exact .inl h
            · exact .inl known
            · exact .inr h
      · rw [first]
        split
        · rename_i absent
          exact distinct.append (List.nodup_singleton _) (by simpa using absent.2)
        · exact distinct
      · refine (others k other).trans ?_
        rw [first, if_neg fun h => other h.1]

theorem filePaths_delete {p : ExportFile → Bool} {q : Str → Bool}
    (same : ∀ f, f.jobId = k → p f = q f.relativePath) :
    filePaths { s with files := s.files.delete p } k = (filePaths s k).filter fun path => !q path := by
  change ((s.files.rows.filter fun r => !p r).filter fun f => f.jobId = k).map
    ExportFile.relativePath = _
  rw [filePaths, jobFiles, List.filter_map, List.filter_filter, List.filter_filter]
  congr 1
  apply List.filter_congr
  intro f _
  by_cases mine : f.jobId = k
  · simp [mine, same f mine]
  · simp [mine]

/-- After a scan the job has one row for each file of the tree. -/
theorem filePaths_persistStartupAnalysisCache (tree : SourceTree)
    (distinct : (filePaths s jobId).Nodup) :
    (filePaths (persistStartupAnalysisCache s jobId tree) jobId).Nodup ∧
      ∀ path, path ∈ filePaths (persistStartupAnalysisCache s jobId tree) jobId ↔
        path ∈ tree.paths := by
  obtain ⟨members, nodup, -⟩ := filePaths_listFiles jobId tree.files s
  have kept : filePaths (persistStartupAnalysisCache s jobId tree) jobId =
      (filePaths (listFiles s jobId tree.files) jobId).filter fun path => !decide (path ∉ tree.paths) :=
    filePaths_delete fun f mine => by simp [mine]
  rw [kept]
  refine ⟨(nodup distinct).filter _, fun path => ?_⟩
  rw [List.mem_filter, members]
  simp only [decide_not, Bool.not_not, decide_eq_true_eq]
  exact ⟨fun h => h.2, fun h => ⟨.inr h, h⟩⟩

end Paths

end Ecube
