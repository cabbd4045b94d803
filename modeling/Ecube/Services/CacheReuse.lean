import Mathlib.Data.List.Perm.Subperm
import Ecube.Basic.FileTree
import Ecube.Basic.Pages
import Ecube.Services.StartupCache

/-!
`_cached_startup_analysis_is_current`: whether the rows of an earlier scan are used again.

The rows are read page by page. Every file must still be a file of the recorded size, and
every directory a directory with the recorded time; the counts must be those of the job,
and unless the source is not a directory now, the source itself must have been one.

`cached_startup_analysis_sound`: then a new scan would find the same files or fail at what it
may not read, unless the source itself is another directory that has the time of the first one
(`cached_startup_analysis_unsound`). The check looks at files and directories; the scan lists
the directories too.
-/

namespace Ecube.CacheReuse

open FileTree Pages PosixPath StartupCache

/-! ### The source -/

/-- What is at the source path and below; the nodes stand in the order of `os.walk`. -/
structure Source extends FileTree Str where
  names : ∀ e ∈ nodes, ∀ name ∈ e.1, IsComp name

/-- What a walk yields for a node. -/
def walked (e : List Str × Node) : Option ScanEntry :=
  match e.2 with
  | .file size => some (.file (slashed e.1) size)
  | .directory mtime => some (.directory (slashed e.1) mtime)
  | .special => none

section Source

variable {t : Source}

theorem comps_path {path : List Str} {node : Node} (mem : (path, node) ∈ t.nodes) :
    comps (slashed path) = path :=
  comps_slashed (t.names _ mem)

theorem mem_walked_files {nodes : List (List Str × Node)} {p : Str} {n : Nat} :
    (p, n) ∈ (nodes.filterMap walked).filterMap ScanEntry.file? ↔
      ∃ path, slashed path = p ∧ (path, .file n) ∈ nodes := by
  simp only [List.mem_filterMap]
  constructor
  · rintro ⟨entry, ⟨⟨path, node⟩, mem, yields⟩, file⟩
    cases node with
    | file size =>
        cases yields
        cases file
        exact ⟨path, rfl, mem⟩
    | directory mtime =>
        cases yields
        cases file
    | special => cases yields
  · rintro ⟨path, rfl, mem⟩
    exact ⟨.file (slashed path) n, ⟨_, mem, rfl⟩, rfl⟩

theorem mem_walked_directories {nodes : List (List Str × Node)} {p : Str} {m : Int} :
    (p, m) ∈ (nodes.filterMap walked).filterMap ScanEntry.directory? ↔
      ∃ path, slashed path = p ∧ (path, .directory m) ∈ nodes := by
  simp only [List.mem_filterMap]
  constructor
  · rintro ⟨entry, ⟨⟨path, node⟩, mem, yields⟩, directory⟩
    cases node with
    | file size =>
        cases yields
        cases directory
    | directory mtime =>
        cases yields
        cases directory
        exact ⟨path, rfl, mem⟩
    | special => cases yields
  · rintro ⟨path, rfl, mem⟩
    exact ⟨.directory (slashed path) m, ⟨_, mem, rfl⟩, rfl⟩

/-- No file is listed twice. -/
theorem distinct_walked (t : Source) :
    (((t.nodes.filterMap walked).filterMap ScanEntry.file?).map Prod.fst).Nodup := by
  have paths : ∀ nodes : List (List Str × Node), (∀ e ∈ nodes, comps (slashed e.1) = e.1) →
      (nodes.map Prod.fst).Nodup →
        (((nodes.filterMap walked).filterMap ScanEntry.file?).map Prod.fst).Nodup := by
    intro nodes read distinct
    induction nodes with
    | nil => exact List.nodup_nil
    | cons e rest ih =>
        obtain ⟨path, node⟩ := e
        obtain ⟨fresh, distinct⟩ := List.nodup_cons.mp distinct
        have later := ih (fun e mem => read e (List.mem_cons_of_mem _ mem)) distinct
        cases node with
        | file size =>
            refine List.nodup_cons.mpr ⟨fun again => fresh ?_, later⟩
            obtain ⟨⟨p, n⟩, mem, same⟩ := List.mem_map.mp again
            obtain ⟨other, here, found⟩ := mem_walked_files.mp mem
            have back : other = path := calc
              other = comps (slashed other) := (read _ (List.mem_cons_of_mem _ found)).symm
              _ = comps (slashed path) := congrArg comps (here.trans same)
              _ = path := read _ List.mem_cons_self
            exact List.mem_map.mpr ⟨_, found, back⟩
        | directory mtime => exact later
        | special => exact later
  exact paths t.nodes (fun e mem => comps_slashed (t.names e mem)) t.distinct

end Source

/-- The source, and what the service may not read of it. -/
structure Disk where
  source : Source
  /-- a look at the path raises -/
  fails : List Str → Bool
  /-- the directory cannot be listed -/
  unlistable : List Str → Bool

/-- A scan that comes to the node has an error to raise. -/
def Disk.raises (disk : Disk) (e : List Str × Node) : Bool :=
  disk.fails e.1 || (e.2.kind = .directory && disk.unlistable e.1)

/-- `_iter_source_tree`, nothing where it raises. `name` is the last part of the source path.
What lies below a directory that cannot be listed is passed over, but the error of the
directory is recorded and raised at the end. -/
def iterSourceTree (name : Str) (disk : Disk) : Option Scan :=
  if disk.source.nodes.any disk.raises then none
  else match disk.source.at? [] with
    | some (.file size) => some ⟨[.file name size], by simp⟩
    | some (.directory _) => some ⟨disk.source.nodes.filterMap walked, distinct_walked disk.source⟩
    | _ => none

/-! ### The check -/

def Disk.isDir (disk : Disk) : Bool :=
  match disk.source.at? [] with
  | some (.directory _) => true
  | _ => false

/-- `_source_path_for_relative_path`, below the source. -/
def Disk.sourcePathForRelativePath (disk : Disk) (relativePath : Str) : List Str :=
  if disk.isDir then comps relativePath else []

/-- The file of a row has not changed. -/
def Disk.fileIsCurrent (disk : Disk) (revision : Nat) (row : FileRow) : Bool :=
  let path := disk.sourcePathForRelativePath row.relativePath
  row.startupAnalysisRevision = revision ∧ !disk.fails path ∧
    disk.source.at? path = some (.file row.sizeBytes)

def Disk.directoryIsCurrent (disk : Disk) (row : StartupAnalysisEntry) : Bool :=
  let path := comps row.relativePath
  !disk.fails path ∧ disk.source.at? path = some (.directory (row.mtimeNs.getD 0))

/-- The loop over the files, which counts them and their bytes. -/
def Disk.validateFiles (disk : Disk) (revision : Nat) :
    List FileRow → Nat × Nat → Option (Nat × Nat)
  | [], counts => some counts
  | row :: rest, (count, bytes) =>
      if disk.fileIsCurrent revision row then
        disk.validateFiles revision rest (count + 1, bytes + row.sizeBytes)
      else none

/-- The loop over the directories, which looks for the source itself. -/
def Disk.validateDirectories (disk : Disk) : List StartupAnalysisEntry → Bool → Option Bool
  | [], sawRoot => some sawRoot
  | row :: rest, sawRoot =>
      if disk.directoryIsCurrent row then
        disk.validateDirectories rest (sawRoot || row.relativePath = [])
      else none

/-- The pages of `list_by_job_after_id`. -/
def pagesById {ρ : Type} [Row ρ] (batchSize : Nat) (t : Table ρ) (p : ρ → Bool) : List (List ρ) :=
  let rows := t.select p fun a b => Row.id a ≤ Row.id b
  readPages Row.id batchSize rows (rows.length + 1) none

def cachedStartupAnalysisIsCurrent (batchSize : Nat) (db : ScanDb) (disk : Disk) : Bool :=
  let fileCount := db.job.startupAnalysis.fileCount.getD 0
  let totalBytes := db.job.startupAnalysis.totalBytes.getD 0
  let revision := db.job.startupAnalysisRevision
  if fileCount = 0 ∨ revision = 0 then false
  else
    match disk.validateFiles revision
        (pagesById batchSize db.files fun row => row.jobId = db.job.id).flatten (0, 0) with
    | none => false
    | some (count, bytes) =>
        if count ≠ fileCount ∨ bytes ≠ totalBytes then false
        else
          (disk.validateDirectories
            (pagesById batchSize db.entries fun e =>
              e.jobId = db.job.id ∧ e.entryType = .directory).flatten
            (!disk.isDir)).getD false

/-! ### What a positive answer says -/

section Validate

variable {disk : Disk} {revision : Nat} {db : ScanDb}

theorem flatten_pagesById {ρ : Type} [Row ρ] {batchSize : Nat} (pos : 0 < batchSize) (t : Table ρ)
    (p : ρ → Bool) :
    (pagesById batchSize t p).flatten = t.select p fun a b => Row.id a ≤ Row.id b :=
  flatten_readPages pos (List.pairwise_map.mp (t.pairwise_select_id p)) (Nat.lt_succ_self _)

theorem validateFiles_eq_some {rows : List FileRow} {count bytes count' bytes' : Nat}
    (h : disk.validateFiles revision rows (count, bytes) = some (count', bytes')) :
    (∀ row ∈ rows, disk.fileIsCurrent revision row = true) ∧ count' = count + rows.length := by
  induction rows generalizing count bytes with
  | nil =>
      cases h
      exact ⟨fun row mem => absurd mem List.not_mem_nil, rfl⟩
  | cons row rest ih =>
      rw [Disk.validateFiles] at h
      split at h
      next current =>
        obtain ⟨all, counted⟩ := ih h
        refine ⟨fun r mem => ?_, ?_⟩
        · rcases List.mem_cons.mp mem with rfl | later
          · exact current
          · exact all r later
        · rw [counted, List.length_cons]
          omega
      · cases h

theorem validateDirectories_eq_some {rows : List StartupAnalysisEntry} {saw saw' : Bool}
    (h : disk.validateDirectories rows saw = some saw') :
    (∀ row ∈ rows, disk.directoryIsCurrent row = true) ∧
      (saw' = true → saw = true ∨ ∃ row ∈ rows, row.relativePath = []) := by
  induction rows generalizing saw with
  | nil =>
      cases h
      exact ⟨fun row mem => absurd mem List.not_mem_nil, .inl⟩
  | cons row rest ih =>
      rw [Disk.validateDirectories] at h
      split at h
      next current =>
        obtain ⟨all, seen⟩ := ih h
        refine ⟨fun r mem => ?_, fun yes => ?_⟩
        · rcases List.mem_cons.mp mem with rfl | later
          · exact current
          · exact all r later
        · rcases seen yes with first | ⟨r, mem, root⟩
          · rw [Bool.or_eq_true, decide_eq_true_eq] at first
            exact first.imp_right fun root => ⟨row, List.mem_cons_self, root⟩
          · exact .inr ⟨r, List.mem_cons_of_mem _ mem, root⟩
      · cases h

/-- A cache that is used again. -/
structure Current (db : ScanDb) (disk : Disk) : Prop where
  some : db.job.startupAnalysis.fileCount.getD 0 ≠ 0
  files : ∀ row ∈ jobRows db.files db.job.id,
    disk.fileIsCurrent db.job.startupAnalysisRevision row = true
  count : (jobRows db.files db.job.id).length = db.job.startupAnalysis.fileCount.getD 0
  directories : ∀ e ∈ db.entries, e.jobId = db.job.id → e.entryType = .directory →
    disk.directoryIsCurrent e = true
  root : disk.isDir = true → ∃ e ∈ db.entries, e.jobId = db.job.id ∧ e.entryType = .directory ∧
    e.relativePath = []

theorem current_of_isCurrent {batchSize : Nat} (pos : 0 < batchSize)
    (h : cachedStartupAnalysisIsCurrent batchSize db disk = true) : Current db disk := by
  rw [cachedStartupAnalysisIsCurrent] at h
  rw [flatten_pagesById pos, flatten_pagesById pos] at h
  split at h
  · cases h
  next header =>
    rw [not_or] at header
    split at h
    · cases h
    next count bytes validated =>
      obtain ⟨files, counted⟩ := validateFiles_eq_some validated
      split at h
      · cases h
      next totals =>
        rw [not_or, not_not] at totals
        have selected : (db.files.select (fun row => row.jobId = db.job.id)
            fun a b => Row.id a ≤ Row.id b).Perm (jobRows db.files db.job.id) :=
          List.perm_insertionSort _ _
        cases directories : disk.validateDirectories
            (db.entries.select (fun e => e.jobId = db.job.id ∧ e.entryType = .directory)
              fun a b => Row.id a ≤ Row.id b) (!disk.isDir) with
        | none =>
            rw [directories] at h
            cases h
        | some saw =>
            rw [directories] at h
            obtain ⟨all, seen⟩ := validateDirectories_eq_some directories
            refine ⟨header.1, fun row mem => files row (selected.mem_iff.mpr mem), ?_, ?_, ?_⟩
            · rw [← selected.length_eq, ← totals.1, counted, Nat.zero_add]
            · intro e mem mine type
              exact all e (Table.mem_select.mpr ⟨mem, decide_eq_true ⟨mine, type⟩⟩)
            · intro isDir
              rcases seen h with other | ⟨e, mem, root⟩
              · rw [isDir] at other
                cases other
              · obtain ⟨here, which⟩ := Table.mem_select.mp mem
                obtain ⟨mine, type⟩ := of_decide_eq_true which
                exact ⟨e, here, mine, type, root⟩

end Validate

/-! ### The rows of a scan -/

/-- The cached rows: paths and sizes. -/
def cachedFiles (db : ScanDb) : List (Str × Nat) :=
  (jobRows db.files db.job.id).map fun row => (row.relativePath, row.sizeBytes)

/-- The columns of a row that a scan sets. -/
def FileRow.columns (row : FileRow) : Nat × Str × Nat × Nat :=
  (row.jobId, row.relativePath, row.sizeBytes, row.startupAnalysisRevision)

/-- The entries of a job. -/
def jobEntries (t : Table StartupAnalysisEntry) (jobId : Nat) : List StartupAnalysisEntry :=
  t.rows.filter fun e => e.jobId = jobId

/-- What a scan has written for the job is still there; other columns, and the rows of other
jobs, may have changed. -/
structure Kept (scanned db : ScanDb) : Prop where
  id : db.job.id = scanned.job.id
  revision : db.job.startupAnalysisRevision = scanned.job.startupAnalysisRevision
  fileCount : db.job.startupAnalysis.fileCount = scanned.job.startupAnalysis.fileCount
  files : (jobRows db.files scanned.job.id).map FileRow.columns =
    (jobRows scanned.files scanned.job.id).map FileRow.columns
  entries : jobEntries db.entries scanned.job.id = jobEntries scanned.entries scanned.job.id

section Cache

variable {batchSize : Nat} {db cache : ScanDb} {scan : Scan}

theorem cachedFiles_eq (db : ScanDb) :
    cachedFiles db = ((jobRows db.files db.job.id).map FileRow.columns).map
      fun c => (c.2.1, c.2.2.1) := by
  rw [cachedFiles, List.map_map]
  rfl

theorem Kept.cachedFiles (kept : Kept db cache) : cachedFiles cache = cachedFiles db := by
  rw [cachedFiles_eq, cachedFiles_eq, kept.id, kept.files]

theorem entriesOf_eq (t : Table StartupAnalysisEntry) (jobId : Nat) (entryType : EntryType) :
    entriesOf t jobId entryType =
      ((jobEntries t jobId).filter fun e => e.entryType = entryType).map
        fun e => { e with id := 0 } := by
  rw [entriesOf, jobEntries, List.filter_filter]
  congr 1
  apply List.filter_congr
  intro e _
  rw [Bool.decide_and, Bool.and_comm]

theorem mem_cachedFiles {entry : Str × Nat} (mem : entry ∈ scan.files) :
    entry ∈ cachedFiles (StartupCache.persistStartupAnalysisCache batchSize db scan).1 := by
  obtain ⟨k, rows⟩ := @rowsOf_persistAll db.job (db.job.startupAnalysisRevision + 1) db.files entry
    scan.files scan.distinct mem
  have here : synced db.job (db.job.startupAnalysisRevision + 1) entry k
        (rowsOf db.files db.job.id entry.1).getLast? ∈
      rowsOf (StartupCache.persistStartupAnalysisCache batchSize db scan).1.files db.job.id
        entry.1 := by
    rw [files_persist, rowsOf_delete, rows]
    refine List.mem_filter.mpr ⟨List.mem_append_right _ (List.mem_singleton_self _), ?_⟩
    rw [revision_synced]
    simp
  have path := (mem_rowsOf.mp here).2.2
  refine List.mem_map.mpr ⟨_, mem_jobRows.mpr (by rw [path]; exact here), ?_⟩
  rw [path, sizeBytes_synced]

/-- A cache that is used again has the files of the scan and no others. -/
theorem perm_cachedFiles
    (kept : Kept (StartupCache.persistStartupAnalysisCache batchSize db scan).1 cache)
    {disk : Disk} (current : Current cache disk) : scan.files.Perm (cachedFiles cache) := by
  refine (List.subperm_of_subset (List.Nodup.of_map _ scan.distinct) ?_).perm_of_length_le ?_
  · intro entry mem
    rw [kept.cachedFiles]
    exact mem_cachedFiles mem
  · have count := current.count
    rw [kept.fileCount, job_persist] at count
    rw [cachedFiles, List.length_map, count]
    exact Nat.le_refl _

theorem file_of_current
    (kept : Kept (StartupCache.persistStartupAnalysisCache batchSize db scan).1 cache)
    {disk : Disk} (current : Current cache disk) {p : Str} {n : Nat} (mem : (p, n) ∈ scan.files) :
    disk.source.at? (disk.sourcePathForRelativePath p) = some (.file n) := by
  have here := (perm_cachedFiles kept current).mem_iff.mp mem
  obtain ⟨row, found, same⟩ := List.mem_map.mp here
  cases same
  have valid := current.files row found
  rw [Disk.fileIsCurrent, decide_eq_true_eq] at valid
  exact valid.2.2

/-- The rows of the directories. -/
theorem mem_directories_iff
    (kept : Kept (StartupCache.persistStartupAnalysisCache batchSize db scan).1 cache)
    {p : Str} {mtime : Option Int} :
    (p, mtime) ∈ scan.directories.map (fun e => (e.1, some e.2)) ↔
      ∃ e ∈ cache.entries, e.jobId = cache.job.id ∧ e.entryType = .directory ∧
        e.relativePath = p ∧ e.mtimeNs = mtime := by
  have same : cache.job.id = db.job.id := kept.id
  have entries : jobEntries cache.entries db.job.id =
      jobEntries (StartupCache.persistStartupAnalysisCache batchSize db scan).1.entries
        db.job.id := kept.entries
  have listed := congrArg (List.map fun e : StartupAnalysisEntry => (e.relativePath, e.mtimeNs))
    (@entriesOf_persist batchSize db scan .directory)
  rw [entriesOf_eq, ← entries, ← entriesOf_eq, entriesOf, List.map_map] at listed
  dsimp only at listed
  rw [List.map_map] at listed
  rw [same]
  refine (iff_of_eq (congrArg ((p, mtime) ∈ ·) listed.symm)).trans ?_
  rw [List.mem_map]
  constructor
  · rintro ⟨e, found, columns⟩
    obtain ⟨here, which⟩ := List.mem_filter.mp found
    obtain ⟨mine, type⟩ := of_decide_eq_true which
    obtain ⟨path, time⟩ := Prod.mk.inj columns
    exact ⟨e, here, mine, type, path, time⟩
  · rintro ⟨e, here, mine, type, path, time⟩
    exact ⟨e, List.mem_filter.mpr ⟨here, decide_eq_true ⟨mine, type⟩⟩, Prod.ext path time⟩

/-- A directory of the scan is one now, with the same time. -/
theorem directory_of_current
    (kept : Kept (StartupCache.persistStartupAnalysisCache batchSize db scan).1 cache)
    {disk : Disk} (current : Current cache disk) {p : Str} {mtime : Int}
    (mem : (p, mtime) ∈ scan.directories) :
    disk.source.at? (comps p) = some (.directory mtime) := by
  obtain ⟨e, here, mine, type, path, time⟩ :=
    (mem_directories_iff kept).mp (List.mem_map_of_mem mem)
  have valid := current.directories e here mine type
  rw [Disk.directoryIsCurrent, decide_eq_true_eq, path, time] at valid
  exact valid.2

end Cache

/-! ### Scanning again -/

section Again

variable {batchSize : Nat} {db cache : ScanDb} {scan : Scan} {name : Str} {old new : Disk}

/-- A scan that does not raise has come to nothing that it may not read. -/
theorem unraised_of_scanned (scanned : iterSourceTree name old = some scan) :
    ¬ (old.source.nodes.any old.raises = true) := by
  intro raised
  rw [iterSourceTree, if_pos raised] at scanned
  cases scanned

theorem iterSourceTree_file {size : Nat} (clean : ¬ (old.source.nodes.any old.raises = true))
    (here : old.source.at? [] = some (.file size)) :
    iterSourceTree name old = some ⟨[.file name size], by simp⟩ := by
  rw [iterSourceTree, if_neg clean, here]

theorem iterSourceTree_directory {mtime : Int}
    (clean : ¬ (old.source.nodes.any old.raises = true))
    (here : old.source.at? [] = some (.directory mtime)) :
    iterSourceTree name old =
      some ⟨old.source.nodes.filterMap walked, distinct_walked old.source⟩ := by
  rw [iterSourceTree, if_neg clean, here]

/-- What was scanned was a file or a directory. -/
theorem top_of_scanned (scanned : iterSourceTree name old = some scan) :
    (∃ size, old.source.at? [] = some (.file size)) ∨
      ∃ mtime, old.source.at? [] = some (.directory mtime) := by
  rw [iterSourceTree, if_neg (unraised_of_scanned scanned)] at scanned
  split at scanned
  next size here => exact .inl ⟨size, here⟩
  next mtime here => exact .inr ⟨mtime, here⟩
  next => cases scanned

/-- The source was a file. -/
theorem again_of_file {size : Nat} (was : old.source.at? [] = some (.file size))
    (scanned : iterSourceTree name old = some scan)
    (kept : Kept (StartupCache.persistStartupAnalysisCache batchSize db scan).1 cache)
    (current : Current cache new) (clean : ¬ (new.source.nodes.any new.raises = true)) :
    iterSourceTree name new = some scan := by
  rw [iterSourceTree_file (unraised_of_scanned scanned) was] at scanned
  cases scanned
  -- no directory has been recorded, so that the source cannot be one
  have plain : new.isDir = false := by
    rw [Bool.eq_false_iff]
    intro isDir
    obtain ⟨e, here, mine, type, -⟩ := current.root isDir
    exact List.not_mem_nil ((mem_directories_iff kept).mpr ⟨e, here, mine, type, rfl, rfl⟩)
  have now := file_of_current kept current (List.mem_singleton_self (name, size))
  rw [Disk.sourcePathForRelativePath, plain] at now
  exact iterSourceTree_file clean now

/-- The source was a directory. -/
theorem again_of_directory {mtime : Int} (was : old.source.at? [] = some (.directory mtime))
    (scanned : iterSourceTree name old = some scan)
    (tells : Tells old.source.toFileTree new.source.toFileTree)
    (kept : Kept (StartupCache.persistStartupAnalysisCache batchSize db scan).1 cache)
    (current : Current cache new) (clean : ¬ (new.source.nodes.any new.raises = true)) :
    ∃ fresh, iterSourceTree name new = some fresh ∧ ∀ p n,
      (p, n) ∈ fresh.files ↔ (p, n) ∈ scan.files := by
  rw [iterSourceTree_directory (unraised_of_scanned scanned) was] at scanned
  cases scanned
  have times : ∀ path m, old.source.at? path = some (.directory m) →
      new.source.at? path = some (.directory m) := by
    intro path m here
    have mem := at?_eq_some_iff.mp here
    have now := directory_of_current kept current (mem_walked_directories.mpr ⟨path, rfl, mem⟩)
    rwa [comps_path mem] at now
  have top := times [] mtime was
  have isDir : new.isDir = true := by
    rw [Disk.isDir, top]
  have sizes : ∀ path n, old.source.at? path = some (.file n) →
      new.source.at? path = some (.file n) := by
    intro path n here
    have mem := at?_eq_some_iff.mp here
    have now := file_of_current kept current (mem_walked_files.mpr ⟨path, rfl, mem⟩)
    rwa [Disk.sourcePathForRelativePath, if_pos isDir, comps_path mem] at now
  have kinds := kind_eq_of_times tells ⟨mtime, was⟩ times
  refine ⟨_, iterSourceTree_directory clean top, fun p n => ?_⟩
  refine mem_walked_files.trans (Iff.trans ?_ mem_walked_files.symm)
  refine exists_congr fun path => and_congr_right fun _ => ?_
  rw [← at?_eq_some_iff, ← at?_eq_some_iff]
  refine ⟨fun now => ?_, sizes path n⟩
  have kind := kinds path
  rw [now] at kind
  obtain ⟨node, before, same⟩ := Option.map_eq_some_iff.mp kind.symm
  cases node with
  | file n' =>
      rw [before, ← now, sizes path n' before]
  | directory m => cases same
  | special => cases same

/-- The rows are the files of the source, for a scan that comes to nothing it may not read. -/
theorem perm_of_current (scanned : iterSourceTree name old = some scan)
    (tells : Tells old.source.toFileTree new.source.toFileTree)
    (kept : Kept (StartupCache.persistStartupAnalysisCache batchSize db scan).1 cache)
    (current : Current cache new) (clean : ¬ (new.source.nodes.any new.raises = true)) :
    ∃ fresh, iterSourceTree name new = some fresh ∧ fresh.files.Perm (cachedFiles cache) := by
  have same := perm_cachedFiles kept current
  rcases top_of_scanned scanned with ⟨size, was⟩ | ⟨mtime, was⟩
  · exact ⟨scan, again_of_file was scanned kept current clean, same⟩
  · obtain ⟨fresh, again, files⟩ := again_of_directory was scanned tells kept current clean
    refine ⟨fresh, again, List.Perm.trans ?_ same⟩
    refine (List.perm_ext_iff_of_nodup (List.Nodup.of_map _ fresh.distinct)
      (List.Nodup.of_map _ scan.distinct)).mpr ?_
    exact fun file => files file.1 file.2

end Again

/-- Cache reuse: whatever happened to the source since the scan, if the rows are used again,
another scan that does not raise finds the files of the rows, each once. It raises only where a
directory cannot be listed or an entry cannot be looked at. -/
theorem cached_startup_analysis_sound {batchSize batchSize' : Nat} (pos : 0 < batchSize')
    (db cache : ScanDb) (name : Str) (old new : Disk) (scan : Scan)
    (scanned : iterSourceTree name old = some scan)
    (kept : Kept (StartupCache.persistStartupAnalysisCache batchSize db scan).1 cache)
    (edits : Relation.ReflTransGen (Edit old.source.toFileTree) old.source.toFileTree
      new.source.toFileTree)
    (reused : cachedStartupAnalysisIsCurrent batchSize' cache new = true) :
    (∀ fresh, iterSourceTree name new = some fresh → fresh.files.Perm (cachedFiles cache)) ∧
      (iterSourceTree name new = none → ∃ e ∈ new.source.nodes, new.raises e = true) := by
  have current := current_of_isCurrent pos reused
  have found := perm_of_current scanned (tells_of_edits edits) kept current
  constructor
  · intro fresh again
    obtain ⟨other, same, files⟩ := found (unraised_of_scanned again)
    rw [again] at same
    cases same
    exact files
  · intro raised
    by_contra clean
    rw [← List.any_eq_true] at clean
    obtain ⟨fresh, again, -⟩ := found clean
    rw [raised] at again
    cases again

def smallSource (files : List (Str × Nat))
    (distinct : (([] : List Str) :: files.map fun f => [f.1]).Nodup)
    (names : ∀ f ∈ files, IsComp f.1) : Source where
  nodes := ([], .directory 7) :: files.map fun f => ([f.1], .file f.2)
  distinct := by
    rw [List.map_cons, List.map_map]
    exact distinct
  closed := by
    intro path name mem
    obtain ⟨e, here, same⟩ := List.mem_map.mp mem
    rcases List.mem_cons.mp here with rfl | file
    · exact absurd same.symm (List.append_ne_nil_of_right_ne_nil _ (List.cons_ne_nil _ _))
    · obtain ⟨f, -, rfl⟩ := List.mem_map.mp file
      cases path with
      | nil => exact ⟨7, List.mem_cons_self⟩
      | cons first rest => simp at same
  names := by
    intro e here name mem
    rcases List.mem_cons.mp here with rfl | file
    · cases mem
    · obtain ⟨f, found, rfl⟩ := List.mem_map.mp file
      rw [List.mem_singleton.mp mem]
      exact names f found

def oneFile : Source :=
  smallSource [(['a'], 1)] (by decide) (by simp [IsComp])

def twoFiles : Source :=
  smallSource [(['a'], 1), (['b'], 1)] (by decide) (by simp [IsComp])

/-- A source that the service may read as a whole. -/
def Source.readable (source : Source) : Disk :=
  ⟨source, fun _ => false, fun _ => false⟩

theorem cached_startup_analysis_sound_oneFile :
    let cache := (StartupCache.persistStartupAnalysisCache 2
      (smallDb [] (by decide) (by decide)) ⟨[.directory [] 7, .file ['a'] 1], by decide⟩).1
    (∀ fresh, iterSourceTree ['s'] oneFile.readable = some fresh →
        fresh.files.Perm (cachedFiles cache)) ∧
      (iterSourceTree ['s'] oneFile.readable = none →
        ∃ e ∈ oneFile.nodes, oneFile.readable.raises e = true) :=
  @cached_startup_analysis_sound 2 1 (by decide) (smallDb [] (by decide) (by decide)) _ ['s']
    oneFile.readable oneFile.readable ⟨[.directory [] 7, .file ['a'] 1], by decide⟩ rfl
    ⟨rfl, rfl, rfl, rfl, rfl⟩ (.single (.write [['a']] 1 1 rfl rfl fun _ _ => rfl)) (by decide)

/-- In place of the source there is another directory, with the time of the first one. -/
theorem cached_startup_analysis_unsound :
    let scan : Scan := ⟨[.directory [] 7, .file ['a'] 1], by decide⟩
    let cache :=
      (StartupCache.persistStartupAnalysisCache 2 (smallDb [] (by decide) (by decide)) scan).1
    iterSourceTree ['s'] oneFile.readable = some scan ∧
      cachedStartupAnalysisIsCurrent 2 cache twoFiles.readable = true ∧
      ∃ fresh, iterSourceTree ['s'] twoFiles.readable = some fresh ∧ (['b'], 1) ∈ fresh.files ∧
        (['b'], 1) ∉ cachedFiles cache := by
  refine ⟨rfl, by decide, _, rfl, by decide, by decide⟩

end Ecube.CacheReuse
