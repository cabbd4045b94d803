import Ecube.Invariants.Completed
import Ecube.Invariants.Verification

/-!
The books of the copied files.

Besides the rows of the files the system keeps counters: `file_count` and
`copied_bytes` of every drive assignment, which only a successful copy
increases, and `copied_bytes` of the job, which every preparation sets anew. A
`Ledger` is the database with these counters and, for the statements about
sizes, the number of bytes that were read when the checksum of a file was taken.
The copy of a file, the preparation of a job and the verification of its files
are one action each; what a failed attempt has reported is taken back before it
ends.

`LedgerSound` holds in every state of a run: completed files belong to started
jobs and to assignments of their job.
-/

namespace Ecube

open Table Transition

structure Ledger where
  db : Db
  /-- By file: the bytes that its checksum was taken of. -/
  copied : Nat → Nat
  /-- By assignment. -/
  fileCount : Nat → Nat
  /-- By assignment. -/
  copiedBytes : Nat → Nat
  /-- The job whose preparation was the last action. -/
  prepared : Option Nat

inductive LedgerAction where
  | workflow (a : Action) (spares : sparesFiles a.event = true)
  | prepare (jobId : Nat) (tree : SourceTree) (directoriesUnchanged : Bool)
  | copyFile (jobId fileId : Nat) (outcome : CopyOutcome)
  | verifyFiles (jobId now : Nat) (read : ExportFile → Except String Bytes)

/-- `prepare_job_startup_analysis`, and whether it succeeds. -/
def prepareJobStartupAnalysis (s : Db) (job : ExportJob) (tree : SourceTree)
    (directoriesUnchanged : Bool) : Db × Bool :=
  let analysed := analyseSource s job tree directoriesUnchanged
  if cachedFileCount analysed job.id = 0 then (analysisFailed analysed job.id, false)
  else (prepared analysed job.id, true)

/-- Counters of rows that do not exist yet start at zero. -/
def newRowsAtZero (s : Db) (counter : Nat → Nat) : Nat → Nat :=
  fun k => if (s.assignments.get k).isSome then counter k else 0

/-- The counter of an assignment is increased. -/
def increase (assignmentId : Option Nat) (n : Nat) (counter : Nat → Nat) : Nat → Nat :=
  fun k => if assignmentId = some k then counter k + n else counter k

/-- The assignment that a copy of the job's files is recorded for. -/
def activeAssignmentId (s : Db) (jobId : Nat) : Option Nat :=
  (s.getActiveForJob jobId).map DriveAssignment.id

/-- An attempt to copy a file, with the progress it reports in the end. -/
def Ledger.copyFile (sha256 : Bytes → Str) (w : Ledger) (job : ExportJob) (f : ExportFile)
    (outcome : CopyOutcome) : Ledger :=
  let active := activeAssignmentId w.db job.id
  let recorded := w.db.updateFiles (fun r => r.id = f.id) (copiedFile sha256 active outcome)
    (copiedFile_id _ _ _)
  match outcome with
  | .done content =>
      { db := recorded.modifyJob job.id (fun j => { j with
          copiedBytes := j.copiedBytes + content.length }) fun _ => rfl
        copied := Function.update w.copied f.id content.length
        fileCount := increase active 1 w.fileCount
        copiedBytes := increase active content.length w.copiedBytes
        prepared := none }
  | .retrying _ _ | .timeout _ _ | .error _ _ => { w with db := recorded, prepared := none }

def ledgerStep (cfg : Settings) (sha256 : Bytes → Str) (w : Ledger) : LedgerAction → Ledger
  | .workflow a _ => { w with
      db := step cfg w.db a
      fileCount := newRowsAtZero w.db w.fileCount
      copiedBytes := newRowsAtZero w.db w.copiedBytes
      prepared := none }
  | .prepare jobId tree directoriesUnchanged =>
      match w.db.jobs.get jobId with
      | none => { w with prepared := none }
      | some job =>
          let result := prepareJobStartupAnalysis w.db job tree directoriesUnchanged
          { w with db := result.1, prepared := if result.2 then some jobId else none }
  | .copyFile jobId fileId outcome =>
      match attempts w.db jobId fileId with
      | none => { w with prepared := none }
      | some (job, f) => w.copyFile sha256 job f outcome
  | .verifyFiles jobId now read => { w with
      db := whileIn w.db jobId [.verifying] (verifyFiles sha256 w.db jobId now read)
      prepared := none }

theorem ledgerStep_prepare {cfg : Settings} {sha256 : Bytes → Str} {w : Ledger} {jobId : Nat}
    {job : ExportJob} (found : w.db.jobs.get jobId = some job) (tree : SourceTree)
    (directoriesUnchanged : Bool) :
    ledgerStep cfg sha256 w (.prepare jobId tree directoriesUnchanged) = { w with
      db := (prepareJobStartupAnalysis w.db job tree directoriesUnchanged).1
      prepared := if (prepareJobStartupAnalysis w.db job tree directoriesUnchanged).2 then some jobId
        else none } := by
  unfold ledgerStep
  dsimp only
  rw [found]

theorem ledgerStep_copyFile {cfg : Settings} {sha256 : Bytes → Str} {w : Ledger}
    {jobId fileId : Nat} {job : ExportJob} {f : ExportFile}
    (attempt : attempts w.db jobId fileId = some (job, f)) (outcome : CopyOutcome) :
    ledgerStep cfg sha256 w (.copyFile jobId fileId outcome) = w.copyFile sha256 job f outcome := by
  unfold ledgerStep
  dsimp only
  rw [attempt]

/-- What an action does. -/
inductive LedgerMove (cfg : Settings) (sha256 : Bytes → Str) (w : Ledger) : LedgerAction → Ledger → Prop where
  | workflow {a : Action} {spares : sparesFiles a.event = true} :
      LedgerMove cfg sha256 w (.workflow a spares) { w with
        db := step cfg w.db a
        fileCount := newRowsAtZero w.db w.fileCount
        copiedBytes := newRowsAtZero w.db w.copiedBytes
        prepared := none }
  | idle {a : LedgerAction} : LedgerMove cfg sha256 w a { w with prepared := none }
  | prepare {job : ExportJob} {tree : SourceTree} {directoriesUnchanged : Bool}
      (found : w.db.jobs.get job.id = some job) :
      LedgerMove cfg sha256 w (.prepare job.id tree directoriesUnchanged) { w with
        db := (prepareJobStartupAnalysis w.db job tree directoriesUnchanged).1
        prepared := if (prepareJobStartupAnalysis w.db job tree directoriesUnchanged).2 then
          some job.id else none }
  | copyFile {fileId : Nat} {job : ExportJob} {f : ExportFile} {outcome : CopyOutcome}
      (attempt : attempts w.db job.id fileId = some (job, f)) :
      LedgerMove cfg sha256 w (.copyFile job.id fileId outcome) (w.copyFile sha256 job f outcome)
  | verifyFiles {jobId now : Nat} {read : ExportFile → Except String Bytes}
      (verifying : ∀ j ∈ w.db.jobs, j.id = jobId → j.status = .verifying) :
      LedgerMove cfg sha256 w (.verifyFiles jobId now read) { w with
        db := verifyFiles sha256 w.db jobId now read
        prepared := none }

theorem ledgerMove_step (cfg : Settings) (sha256 : Bytes → Str) (w : Ledger) (a : LedgerAction) :
    LedgerMove cfg sha256 w a (ledgerStep cfg sha256 w a) := by
  cases a with
  | workflow a spares => exact .workflow
  | prepare jobId tree directoriesUnchanged =>
      cases found : w.db.jobs.get jobId with
      | none =>
          simp only [ledgerStep, found]
          exact .idle
      | some job =>
          rw [ledgerStep_prepare found]
          obtain rfl : job.id = jobId := id_of_get found
          exact .prepare found
  | copyFile jobId fileId outcome =>
      cases attempt : attempts w.db jobId fileId with
      | none =>
          simp only [ledgerStep, attempt]
          exact .idle
      | some pair =>
          obtain ⟨job, f⟩ := pair
          rw [ledgerStep_copyFile attempt]
          obtain rfl : job.id = jobId := id_of_get (attempts_eq_some attempt).1
          exact .copyFile attempt
  | verifyFiles jobId now read =>
      rw [ledgerStep, whileIn]
      split
      · rename_i current
        refine .verifyFiles fun j hj same => ?_
        rw [get_eq_some_iff.mpr ⟨hj, same⟩] at current
        simpa using current
      · exact .idle

/-! ### Completed rows -/

section Rows

variable {sha256 : Bytes → Str} {s : Db} {job : ExportJob} {tree : SourceTree}
  {directoriesUnchanged : Bool}

theorem doneRows_prepareJobStartupAnalysis :
    doneRows (prepareJobStartupAnalysis s job tree directoriesUnchanged).1 =
      doneRows (analyseSource s job tree directoriesUnchanged) := by
  unfold prepareJobStartupAnalysis
  dsimp only
  split
  · rfl
  · exact doneRows_resetNonDone _ job.id

/-- The completed rows after a preparation: those of listed files with their new
size, or the same as before when a cached analysis is used again. -/
theorem doneRows_prepare :
    (doneRows (prepareJobStartupAnalysis s job tree directoriesUnchanged).1 = doneRows s ∧
        ∀ f ∈ doneRows s, f.jobId = job.id → tree.sizeOf f.relativePath = some f.sizeBytes) ∨
      doneRows (prepareJobStartupAnalysis s job tree directoriesUnchanged).1 =
        ((doneRows s).map (resized job.id tree.files)).filter fun f =>
          !decide (f.jobId = job.id ∧ f.relativePath ∉ tree.paths) := by
  rw [doneRows_prepareJobStartupAnalysis, analyseSource]
  split
  · rename_i current
    refine .inl ⟨rfl, fun f hf mine => ?_⟩
    simp only [cachedStartupAnalysisIsCurrent, Bool.and_eq_true, List.all_eq_true,
      decide_eq_true_eq] at current
    obtain ⟨-, ⟨⟨⟨-, sizes⟩, -⟩, -⟩, -⟩ := current
    refine sizes f (List.mem_filter.mpr ⟨(mem_doneRows.mp hf).1, ?_⟩)
    simpa using mine
  · exact .inr (doneRows_scanned s job.id tree)

/-- The completed rows after a verification: those of other jobs and those that match. -/
theorem doneRows_verifyFiles (jobId now : Nat) (read : ExportFile → Except String Bytes) :
    doneRows (verifyFiles sha256 s jobId now read) = (doneRows s).filter fun f =>
      f.jobId ≠ jobId || matchesChecksum sha256 f (read f) := by
  let g : ExportFile → ExportFile := fun f =>
    if decide (f.jobId = jobId ∧ f.status = .done) then verifiedFile sha256 (read f) f else f
  let passes : ExportFile → Bool := fun f =>
    f.jobId ≠ jobId || matchesChecksum sha256 f (read f)
  have status : ∀ f, (g f).status = .done ↔ f.status = .done ∧ passes f = true := by
    intro f
    by_cases done : f.status = .done
    · by_cases mine : f.jobId = jobId
      · simp [g, passes, done, mine, status_verifiedFile]
      · simp [g, passes, done, mine]
    · simp [g, done]
  have same : ∀ f, f.status = .done → passes f = true → g f = f := by
    intro f done passed
    by_cases mine : f.jobId = jobId
    · have matching : matchesChecksum sha256 f (read f) = true := by simpa [passes, mine] using passed
      simp [g, done, mine, verifiedFile, matching]
    · simp [g, mine]
  rw [doneRows, doneRows, List.filter_filter]
  refine (@filter_map_eq _ _ s.files.rows g id _ _ (fun f _ => ?_) fun f _ hf => ?_).trans
    (List.map_id _)
  · simp only [status, Bool.decide_and, Bool.and_comm, Bool.decide_eq_true]
    rfl
  · rw [Bool.and_eq_true, decide_eq_true_iff] at hf
    exact same f hf.2 hf.1

/-- A successful copy adds the file to the completed rows. -/
theorem doneRows_copied {w : Ledger} {f : ExportFile} {content : Bytes} (hf : f ∈ w.db.files)
    (open_ : f.status ≠ .done) :
    (doneRows (w.copyFile sha256 job f (.done content)).db).Perm
      (copiedFile sha256 (activeAssignmentId w.db job.id) (.done content) f :: doneRows w.db) :=
  @doneRows_record w.db f _ (copiedFile_id _ _ _) hf open_ rfl

/-- Any other attempt leaves them. -/
theorem doneRows_not_copied {w : Ledger} {f : ExportFile} {outcome : CopyOutcome}
    (hf : f ∈ w.db.files) (open_ : f.status ≠ .done) (failed : ∀ content, outcome ≠ .done content) :
    doneRows (w.copyFile sha256 job f outcome).db = doneRows w.db := by
  have same : ∀ r ∈ w.db.files, decide (r.id = f.id) = true → r = f := fun r hr hid =>
    eq_of_id_eq hr hf (of_decide_eq_true hid)
  have recorded : doneRows (w.db.updateFiles (fun r => r.id = f.id)
      (copiedFile sha256 (activeAssignmentId w.db job.id) outcome) (copiedFile_id _ _ _)) =
        doneRows w.db := by
    refine doneRows_update (fun r hr hid => same r hr hid ▸ open_) fun r _ _ => ?_
    cases outcome with
    | done content => exact absurd rfl (failed content)
    | retrying attempt left => simp [copiedFile]
    | timeout errorMessage left => simp [copiedFile]
    | error errorMessage left => simp [copiedFile]
  cases outcome with
  | done content => exact absurd rfl (failed content)
  | retrying attempt left => exact recorded
  | timeout errorMessage left => exact recorded
  | error errorMessage left => exact recorded

end Rows

/-! ### Completed files belong to started jobs -/

/-- A write to files and to columns of jobs. -/
structure JobRowsKept (s t : Db) : Prop where
  consistent : Consistent s → Consistent t
  assignments : t.assignments = s.assignments
  started : StartedKept s t

namespace JobRowsKept

variable {s t : Db}

theorem refl (s : Db) : JobRowsKept s s := ⟨id, rfl, .refl s⟩

theorem files (h : JobRowsKept s t) (rows : Table ExportFile) : JobRowsKept s { t with files := rows } where
  consistent inv := (h.consistent inv).withFiles rows
  assignments := h.assignments
  started := h.started

theorem modifyJob (h : JobRowsKept s t) (k : Nat) (f : ExportJob → ExportJob)
    (key : ∀ r, (f r).id = r.id) (status : ∀ r, r.status ≠ .pending → (f r).status ≠ .pending) :
    JobRowsKept s (t.modifyJob k f key) where
  consistent inv := (h.consistent inv).modifyJob k f key
  assignments := h.assignments
  started := h.started.modifyJob k f key status

theorem prepare (s : Db) (job : ExportJob) (tree : SourceTree) (directoriesUnchanged : Bool) :
    JobRowsKept s (prepareJobStartupAnalysis s job tree directoriesUnchanged).1 := by
  have analysed : JobRowsKept s (analyseSource s job tree directoriesUnchanged) := by
    rw [analyseSource]
    split
    · exact .refl s
    · obtain ⟨rows, listed⟩ := listFiles_files job.id tree.files s
      rw [persistStartupAnalysisCache, listed]
      exact ((JobRowsKept.refl s).files _).modifyJob job.id _ _ fun _ h => h
  unfold prepareJobStartupAnalysis
  dsimp only
  split
  · exact analysed.modifyJob job.id _ _ fun _ h => h
  · exact (analysed.files _).modifyJob job.id _ _ fun _ h => h

theorem copyFile (sha256 : Bytes → Str) (w : Ledger) (job : ExportJob) (f : ExportFile)
    (outcome : CopyOutcome) : JobRowsKept w.db (w.copyFile sha256 job f outcome).db := by
  cases outcome with
  | done content => exact ((JobRowsKept.refl w.db).files _).modifyJob job.id _ _ fun _ h => h
  | retrying attempt left => exact (JobRowsKept.refl w.db).files _
  | timeout errorMessage left => exact (JobRowsKept.refl w.db).files _
  | error errorMessage left => exact (JobRowsKept.refl w.db).files _

theorem verifyFiles (sha256 : Bytes → Str) (s : Db) (jobId now : Nat)
    (read : ExportFile → Except String Bytes) :
    JobRowsKept s (verifyFiles sha256 s jobId now read) := by
  apply ((JobRowsKept.refl s).files _).modifyJob jobId _ _
  intro r _
  dsimp only
  split <;> simp

end JobRowsKept

structure LedgerSound (s : Db) : Prop where
  consistent : Consistent s
  started : Started s
  owned : ∀ f ∈ doneRows s, ∀ k, f.driveAssignmentId = some k →
    ∃ a ∈ s.assignments, a.id = k ∧ a.jobId = f.jobId

namespace LedgerSound

variable {cfg : Settings} {sha256 : Bytes → Str} {s t : Db}

theorem of_initial (initial : Initial s) : LedgerSound s where
  consistent := initial.consistent
  started f hf := absurd (mem_doneRows.mp hf).1 (initial.noFiles f)
  owned f hf := absurd (mem_doneRows.mp hf).1 (initial.noFiles f)

/-- A write to files and jobs that completes no file and keeps started jobs. -/
theorem frame (h : LedgerSound s) (kept : JobRowsKept s t)
    (done : ∀ f ∈ doneRows t, ∃ f₀ ∈ doneRows s, f₀.jobId = f.jobId ∧
      f₀.driveAssignmentId = f.driveAssignmentId) : LedgerSound t where
  consistent := kept.consistent h.consistent
  started f hf := by
    obtain ⟨f₀, hf₀, job, -⟩ := done f hf
    obtain ⟨j, hj, id, started⟩ := h.started f₀ hf₀
    obtain ⟨j', hj', id', started'⟩ := kept.started j hj started
    exact ⟨j', hj', id'.trans (id.trans job), started'⟩
  owned f hf k assigned := by
    obtain ⟨f₀, hf₀, job, same⟩ := done f hf
    rw [kept.assignments, ← job]
    exact h.owned f₀ hf₀ k (same.trans assigned)

theorem workflow (h : LedgerSound s) {a : Action} (spares : sparesFiles a.event = true) :
    LedgerSound (step cfg s a) := by
  have undisturbed : Undisturbed s (step cfg s a) := undisturbed_step h.started spares
  have plain : recordsDone a.event = false := by
    cases event : a.event <;> simp_all [sparesFiles, recordsDone]
  refine ⟨h.consistent.step cfg a, undisturbed.started_of h.started, fun f hf k assigned => ?_⟩
  obtain ⟨mem, done⟩ := mem_doneRows.mp hf
  rw [undisturbed.done] at hf
  obtain ⟨b, hb, id, mine⟩ := h.owned f hf k assigned
  obtain ⟨b', hb', id', -, mine'⟩ :=
    (evidenceKept_step h.consistent plain).rows f mem done b hb mine
  exact ⟨b', hb', id'.trans id, mine'.trans mine⟩

theorem prepare (h : LedgerSound s) (job : ExportJob) (tree : SourceTree)
    (directoriesUnchanged : Bool) :
    LedgerSound (prepareJobStartupAnalysis s job tree directoriesUnchanged).1 := by
  apply h.frame (.prepare s job tree directoriesUnchanged)
  intro f hf
  rcases @doneRows_prepare s job tree directoriesUnchanged with ⟨same, -⟩ | scanned
  · exact ⟨f, same ▸ hf, rfl, rfl⟩
  · rw [scanned] at hf
    obtain ⟨f₀, hf₀, rfl⟩ := List.mem_map.mp (List.mem_filter.mp hf).1
    refine ⟨f₀, hf₀, ?_⟩
    rw [resized]
    split <;> exact ⟨rfl, rfl⟩

theorem verifyFiles (h : LedgerSound s) (jobId now : Nat)
    (read : ExportFile → Except String Bytes) :
    LedgerSound (verifyFiles sha256 s jobId now read) := by
  apply h.frame (.verifyFiles sha256 s jobId now read)
  intro f hf
  rw [doneRows_verifyFiles] at hf
  exact ⟨f, (List.mem_filter.mp hf).1, rfl, rfl⟩

/-- A copied file is recorded for the active assignment of its job. -/
theorem copyFile {w : Ledger} {jobId fileId : Nat} {job : ExportJob} {f : ExportFile}
    {outcome : CopyOutcome} (h : LedgerSound w.db)
    (attempt : attempts w.db jobId fileId = some (job, f)) :
    LedgerSound (w.copyFile sha256 job f outcome).db := by
  obtain ⟨hjob, hfile, mine, open_, copying⟩ := attempts_eq_some attempt
  have hf : f ∈ w.db.files := mem_of_get hfile
  have kept := JobRowsKept.copyFile sha256 w job f outcome
  by_cases copied : ∃ content, outcome = .done content
  · obtain ⟨content, rfl⟩ := copied
    have perm := @doneRows_copied sha256 job w f content hf open_
    refine ⟨kept.consistent h.consistent, fun g hg => ?_, fun g hg k assigned => ?_⟩
    · rcases List.mem_cons.mp (perm.mem_iff.mp hg) with rfl | hg
      · have started : job.status ≠ .pending := by
          intro pending
          rw [pending] at copying
          exact absurd copying (by decide)
        obtain ⟨j, hj, id, started⟩ := kept.started job (mem_of_get hjob) started
        exact ⟨j, hj, id.trans ((id_of_get hjob).trans mine.symm), started⟩
      · obtain ⟨j, hj, id, started⟩ := h.started g hg
        obtain ⟨j', hj', id', started'⟩ := kept.started j hj started
        exact ⟨j', hj', id'.trans id, started'⟩
    · rw [kept.assignments]
      rcases List.mem_cons.mp (perm.mem_iff.mp hg) with rfl | hg
      · obtain ⟨a, active, rfl⟩ := Option.map_eq_some_iff.mp assigned
        obtain ⟨ha, owner, -⟩ := active_of_getActiveForJob active
        exact ⟨a, ha, rfl, owner.trans ((id_of_get hjob).trans mine.symm)⟩
      · exact h.owned g hg k assigned
  · have same := @doneRows_not_copied sha256 job w f outcome hf open_
      fun content done => copied ⟨content, done⟩
    exact h.frame kept fun g hg => ⟨g, same ▸ hg, rfl, rfl⟩

/-- One action. -/
theorem step (cfg : Settings) (sha256 : Bytes → Str) {w : Ledger} (h : LedgerSound w.db)
    (a : LedgerAction) : LedgerSound (ledgerStep cfg sha256 w a).db := by
  have move := ledgerMove_step cfg sha256 w a
  generalize ledgerStep cfg sha256 w a = v at move
  cases move with
  | @workflow a spares => exact h.workflow spares
  | idle => exact h
  | prepare => exact h.prepare _ _ _
  | copyFile attempt => exact h.copyFile attempt
  | verifyFiles => exact h.verifyFiles _ _ _

end LedgerSound

/-- No files, and all counters at zero, in the small installation. -/
def labLedger : Ledger := ⟨Lab.start, fun _ => 0, fun _ => 0, fun _ => 0, none⟩

abbrev labLedgerStep := ledgerStep Lab.settings sampleSha256

/-- Two files, the first of the given size. -/
def twoFiles (size : Nat) : SourceTree where
  files := [("f".toList, size), ("g".toList, 1)]
  distinct := by
    change ["f".toList, "g".toList].Nodup
    decide

/-- A job copies `f` and fails to copy `g`. -/
def halfCopied : List LedgerAction :=
  [.workflow ⟨1, .createJob (Lab.body "/data/a" (some 1) none) none⟩ rfl,
    .workflow ⟨2, .startJob 1 none⟩ rfl,
    .prepare 1 (twoFiles 1) false,
    .workflow ⟨3, .enterRunning 1⟩ rfl,
    .copyFile 1 1 (.done [97]),
    .copyFile 1 2 (.error "I/O failure" none),
    .workflow ⟨4, .finalizeRun 1 false false⟩ rfl]

/-- It is retried with the first file at the given size. -/
def retriedAt (size : Nat) : List LedgerAction :=
  halfCopied ++ [.workflow ⟨5, .retryFailedFiles 1⟩ rfl, .prepare 1 (twoFiles size) false]

end Ecube
