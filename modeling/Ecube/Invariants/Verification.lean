import Ecube.Invariants.Evidence

/-!
Verification of a completed job.

A copied file is recorded with the assignment it was copied for, so a job that
continued on another drive has its files on several drives. `run_verify_job`
reads every completed file of the job below the job's current target path, that
is, on the last drive.

* `verify_alarms_on_first_drive`: a job that continued on its overflow drive is
  failed by its verification although both drives are mounted and intact.
* `noAlarm_iff_served`: for intact files the verification reports nothing
  exactly when each file that lies on another drive than the one at the target
  path has a twin at its path there.
-/

namespace Ecube

open Table Transition PosixPath

/-- Reads outside the drives: below a path where no drive is mounted and of the
source of a job without a target, and the text of the error for a missing file. -/
structure Host where
  below : Str → List Str → Except String Bytes
  source : ExportJob → ExportFile → Except String Bytes
  missing : Str → List Str → String

/-- The file that a verification reads, `target / relative_path`. -/
def readBack (host : Host) (w : World) (job : ExportJob) (f : ExportFile) : Except String Bytes :=
  match truthy job.targetMountPath with
  | none => host.source job f
  | some target =>
      match mountedAt w.db job.targetMountPath with
      | none => host.below target (destination f)
      | some driveId =>
          match w.contents driveId (destination f) with
          | none => .error (host.missing target (destination f))
          | some content => .ok content

/-- The content was read and has the recorded checksum. -/
def matchesChecksum (sha256 : Bytes → Str) (f : ExportFile) : Except String Bytes → Bool
  | .ok content => f.checksum = some (sha256 content)
  | .error _ => false

/-- The row of a completed file after its content was read. -/
def verifiedFile (sha256 : Bytes → Str) (read : Except String Bytes) (f : ExportFile) :
    ExportFile :=
  if matchesChecksum sha256 f read then f
  else { f with
    status := .error
    errorMessage := some (match read with
      | .ok _ => "Checksum verification failed"
      | .error reason =>
          (classifyFileFailure (if reason = "" then "Checksum computation failed" else reason)).2) }

theorem verifiedFile_id (sha256 : Bytes → Str) (read : Except String Bytes) (f : ExportFile) :
    (verifiedFile sha256 read f).id = f.id := by
  unfold verifiedFile
  split <;> rfl

def listDoneByJob (s : Db) (jobId : Nat) : List ExportFile :=
  s.files.rows.filter fun f => f.jobId = jobId ∧ f.status = .done

theorem mem_listDoneByJob {s : Db} {jobId : Nat} {f : ExportFile} :
    f ∈ listDoneByJob s jobId ↔ f ∈ s.files ∧ f.jobId = jobId ∧ f.status = .done := by
  rw [listDoneByJob, List.mem_filter, decide_eq_true_iff]
  rfl

/-- `run_verify_job` with the contents it reads: files that do not match become
errors, and the job fails with them. -/
def verifyFiles (sha256 : Bytes → Str) (s : Db) (jobId now : Nat)
    (read : ExportFile → Except String Bytes) : Db :=
  let anyMismatch := (listDoneByJob s jobId).any fun f => !matchesChecksum sha256 f (read f)
  let verified := s.updateFiles (fun f => f.jobId = jobId ∧ f.status = .done)
    (fun f => verifiedFile sha256 (read f) f) fun _ => verifiedFile_id ..
  finishVerify verified jobId anyMismatch now

def runVerifyJob (sha256 : Bytes → Str) (host : Host) (w : World) (jobId now : Nat) : World :=
  match w.db.jobs.get jobId with
  | none => w
  | some job => { w with db := verifyFiles sha256 w.db jobId now (readBack host w job) }

/-- Every completed file of the job lies, with the content its checksum was taken
of, on the mounted drive of its own assignment. -/
def IntactOnDrives (sha256 : Bytes → Str) (w : World) (jobId : Nat) : Prop :=
  ∀ f ∈ listDoneByJob w.db jobId, ∃ a ∈ w.db.assignments.rows, f.driveAssignmentId = some a.id ∧
    (∃ d ∈ w.db.drives.rows, d.id = a.driveId ∧ truthy d.mountPath ≠ none) ∧
    (w.contents a.driveId (destination f)).any (fun c => f.checksum = some (sha256 c)) = true

/-- No completed file was turned into an error, and the job is completed. -/
def NoAlarm (before after : Db) (jobId : Nat) : Prop :=
  (∀ f ∈ listDoneByJob before jobId, ∃ f' ∈ after.files.rows, f'.id = f.id ∧ f'.status = .done) ∧
    ∃ j ∈ after.jobs.rows, j.id = jobId ∧ j.status = .completed

/-- A file on another drive than the one at the target path of the job has a
twin there: at its relative path lies a content with its checksum. -/
def Served (sha256 : Bytes → Str) (host : Host) (w : World) (job : ExportJob) : Prop :=
  ∀ f ∈ listDoneByJob w.db job.id, ∀ a ∈ w.db.assignments.rows, f.driveAssignmentId = some a.id →
    mountedAt w.db job.targetMountPath ≠ some a.driveId →
      matchesChecksum sha256 f (readBack host w job f) = true

section Verify

variable {sha256 : Bytes → Str} {host : Host} {w : World} {job : ExportJob} {jobId now : Nat}

/-- A file on the drive at the target path is read there. -/
theorem readBack_of_mounted {f : ExportFile} {driveId : Nat} {content : Bytes}
    (mounted : mountedAt w.db job.targetMountPath = some driveId)
    (stored : w.contents driveId (destination f) = some content) :
    readBack host w job f = .ok content := by
  unfold readBack
  cases target : truthy job.targetMountPath with
  | none =>
      rw [mountedAt, target] at mounted
      cases mounted
  | some path =>
      dsimp only
      rw [mounted]
      dsimp only
      rw [stored]

theorem matchesChecksum_of_mounted {f : ExportFile} {driveId : Nat}
    (mounted : mountedAt w.db job.targetMountPath = some driveId)
    (intact : (w.contents driveId (destination f)).any
      (fun c => f.checksum = some (sha256 c)) = true) :
    matchesChecksum sha256 f (readBack host w job f) = true := by
  cases stored : w.contents driveId (destination f) with
  | none =>
      rw [stored] at intact
      cases intact
  | some content =>
      rw [stored] at intact
      rw [readBack_of_mounted mounted stored]
      exact intact

/-- Intact files match their checksums exactly when those on other drives do. -/
theorem matchesChecksum_iff_served (intact : IntactOnDrives sha256 w job.id) :
    (∀ f ∈ listDoneByJob w.db job.id, matchesChecksum sha256 f (readBack host w job f) = true) ↔
      Served sha256 host w job := by
  constructor
  · intro all f hf a _ _ _
    exact all f hf
  · intro served f hf
    obtain ⟨a, ha, assigned, -, content⟩ := intact f hf
    by_cases mounted : mountedAt w.db job.targetMountPath = some a.driveId
    · exact matchesChecksum_of_mounted mounted content
    · exact served f hf a ha assigned mounted

theorem status_verifiedFile {read : Except String Bytes} {f : ExportFile} (done : f.status = .done) :
    (verifiedFile sha256 read f).status = .done ↔ matchesChecksum sha256 f read = true := by
  unfold verifiedFile
  split
  · rename_i same
    simp [done, same]
  · rename_i differs
    simp [differs]

/-- The rows of the completed files after a verification. -/
theorem mem_files_verifyFiles {s : Db} {read : ExportFile → Except String Bytes} {f : ExportFile}
    (hf : f ∈ listDoneByJob s jobId) :
    verifiedFile sha256 (read f) f ∈ (verifyFiles sha256 s jobId now read).files := by
  obtain ⟨mem, mine, done⟩ := mem_listDoneByJob.mp hf
  unfold verifyFiles
  refine (mem_update fun _ => verifiedFile_id ..).mpr ⟨f, mem, ?_⟩
  simp [mine, done]

/-- The job after a verification. -/
theorem get_jobs_verifyFiles {s : Db} {read : ExportFile → Except String Bytes}
    (found : s.jobs.get jobId = some job) :
    ∃ j, (verifyFiles sha256 s jobId now read).jobs.get jobId = some j ∧
      (j.status = .completed ↔ ∀ f ∈ listDoneByJob s jobId,
        matchesChecksum sha256 f (read f) = true) := by
  unfold verifyFiles
  dsimp only
  rw [finishVerify, Db.get_modifyJob]
  change ∃ j, (s.jobs.get jobId).map _ = some j ∧ _
  rw [found, Option.map_some]
  refine ⟨_, rfl, ?_⟩
  dsimp only
  split
  · rename_i mismatch
    obtain ⟨f, hf, differs⟩ := List.any_eq_true.mp mismatch
    simp only [reduceCtorEq, false_iff, not_forall]
    exact ⟨f, hf, by simpa using differs⟩
  · rename_i matching
    simpa using matching

theorem noAlarm_iff_matches (found : w.db.jobs.get jobId = some job) :
    NoAlarm w.db (runVerifyJob sha256 host w jobId now).db jobId ↔
      ∀ f ∈ listDoneByJob w.db jobId, matchesChecksum sha256 f (readBack host w job f) = true := by
  have run : (runVerifyJob sha256 host w jobId now).db =
      verifyFiles sha256 w.db jobId now (readBack host w job) := by
    rw [runVerifyJob, found]
  obtain ⟨j, after, status⟩ :=
    @get_jobs_verifyFiles sha256 job jobId now w.db (readBack host w job) found
  rw [run]
  constructor
  · rintro ⟨-, j', hj', id, completed⟩
    rw [eq_of_get after hj' id] at completed
    exact status.mp completed
  · intro all
    refine ⟨fun f hf => ?_, j, mem_of_get after, id_of_get after, status.mpr all⟩
    exact ⟨_, mem_files_verifyFiles hf, verifiedFile_id ..,
      (status_verifiedFile (mem_listDoneByJob.mp hf).2.2).mpr (all f hf)⟩

end Verify

/-- Verification of intact files raises no alarm exactly when the files that lie
elsewhere are served by the drive at the target path. -/
theorem noAlarm_iff_served {sha256 : Bytes → Str} {host : Host} {w : World} {job : ExportJob}
    {jobId now : Nat} (found : w.db.jobs.get jobId = some job)
    (intact : IntactOnDrives sha256 w jobId) :
    NoAlarm w.db (runVerifyJob sha256 host w jobId now).db jobId ↔ Served sha256 host w job := by
  obtain rfl : job.id = jobId := id_of_get found
  rw [noAlarm_iff_matches found]
  exact matchesChecksum_iff_served intact

/-- No file is found outside the drives. -/
def bareHost : Host where
  below _ _ := .error "[Errno 2] No such file or directory"
  source _ _ := .error "[Errno 2] No such file or directory"
  missing _ _ := "[Errno 2] No such file or directory"

/-- A job on drive 1, with drive 2 reserved, that copies `f` to drive 1. -/
def firstFile : List EvidenceAction :=
  [.workflow ⟨1, .createJob (Lab.body "/data/a" (some 1) (some 2)) none⟩ rfl,
    .workflow ⟨2, .startJob 1 none⟩ rfl,
    .workflow ⟨3, .enterRunning 1⟩ rfl,
    .workflow ⟨4, .listFile 1 "f".toList 1⟩ rfl,
    .workflow ⟨5, .listFile 1 "g".toList 1⟩ rfl,
    .copyFile 1 1 (.done [97])]

/-- The second file goes to drive 1, too. -/
def onOneDrive : List EvidenceAction :=
  firstFile ++ [.copyFile 1 2 (.done [98]), .workflow ⟨7, .finalizeRun 1 false false⟩ rfl]

/-- Drive 1 is full at the second file, and the job continues on drive 2. -/
def onTwoDrives : List EvidenceAction :=
  firstFile ++ [.copyFile 1 2 (.error targetFullMessage none),
    .workflow ⟨6, .resolveTargetFull 1 fun _ => some 100⟩ rfl,
    .copyFile 1 2 (.done [98]),
    .workflow ⟨7, .finalizeRun 1 false false⟩ rfl]

/-- The world in which the verification of job 1 starts after a run. -/
def verifyingWorld (actions : List EvidenceAction) : World :=
  exec labEvidenceStep labWorld (actions ++ [.workflow ⟨8, .verifyJob 1⟩ rfl])

theorem noAlarm_one_drive :
    NoAlarm (verifyingWorld onOneDrive).db
      (runVerifyJob sampleSha256 bareHost (verifyingWorld onOneDrive) 1 9).db 1 := by
  have intact : IntactOnDrives sampleSha256 (verifyingWorld onOneDrive) 1 := by
    unfold IntactOnDrives
    decide
  refine (noAlarm_iff_served (Option.some_get (by decide)).symm intact).mpr ?_
  unfold Served
  decide

/-- Both files are intact where they were copied to, and the verification fails
the job over the first. -/
theorem verify_alarms_on_first_drive :
    (verifyingWorld onTwoDrives).db.jobs.rows.map ExportJob.status = [.verifying] ∧
      IntactOnDrives sampleSha256 (verifyingWorld onTwoDrives) 1 ∧
      ¬ NoAlarm (verifyingWorld onTwoDrives).db
        (runVerifyJob sampleSha256 bareHost (verifyingWorld onTwoDrives) 1 9).db 1 ∧
      (runVerifyJob sampleSha256 bareHost (verifyingWorld onTwoDrives) 1 9).db.jobs.rows.map
        ExportJob.status = [.failed] := by
  unfold IntactOnDrives NoAlarm
  decide

end Ecube
