import Ecube.Basic.Json
import Ecube.Invariants.Verification

/-!
The manifests of a completed job (`_generate_manifest_for_job`).

The completed files of a job are grouped by the assignment they were copied
for, and each group without a current manifest is written to `manifest.json` on
the drive of its assignment, in the directory that the job's files lie in.

* `manifests_complete_iff`: every drive ends up with a manifest of exactly the
  job's files on it when no drive that is written to has files of two
  assignments, and the manifests that are left alone were right before.
  `manifest_misses_first_assignment` is a job that returned to its first drive.
* `evidence_untouched_iff`: completed files keep their content in every generation
  exactly when none of them lies where a `manifest.json` is due, by the names of
  the drive.
  `manifest_replaces_evidence` is a job that had such a file.
-/

namespace Ecube

open Table Transition PosixPath

structure Manifest where
  id : Nat
  jobId : Nat
  driveAssignmentId : Option Nat
  manifestPath : Option Str
  createdAt : Nat
  deriving DecidableEq, Repr

instance : Row Manifest := ⟨Manifest.id⟩

/-- The database and the drives, with the recorded manifests. -/
structure Archive where
  world : World
  manifests : Table Manifest

/-! ### What is written -/

structure ManifestEntry where
  path : Str
  checksum : Option Str
  sizeBytes : Nat
  deriving DecidableEq, Repr

structure ManifestData where
  jobId : Nat
  projectId : Str
  evidenceNumber : Str
  driveAssignmentId : Nat
  driveId : Nat
  generatedAt : Str
  generatedBy : Str
  files : List ManifestEntry

def ManifestEntry.json (e : ManifestEntry) : Json.Value :=
  .obj [("path".toList, .str e.path),
    ("checksum".toList, e.checksum.elim .null .str),
    ("size_bytes".toList, .num e.sizeBytes)]

def ManifestData.json (data : ManifestData) : Json.Value :=
  .obj [("job_id".toList, .num data.jobId),
    ("project_id".toList, .str data.projectId),
    ("evidence_number".toList, .str data.evidenceNumber),
    ("drive_assignment_id".toList, .num data.driveAssignmentId),
    ("drive_id".toList, .num data.driveId),
    ("generated_at".toList, .str data.generatedAt),
    ("generated_by".toList, .str data.generatedBy),
    ("files".toList, .arr (data.files.map ManifestEntry.json))]

/-- The content of the file. -/
def ManifestData.render (data : ManifestData) : Bytes := Json.utf8 (Json.dump 0 data.json)

theorem ManifestEntry.json_injective : Function.Injective ManifestEntry.json := by
  rintro ⟨path, checksum, sizeBytes⟩ ⟨path', checksum', sizeBytes'⟩ h
  cases checksum <;> cases checksum' <;> simp_all [ManifestEntry.json]

/-- A manifest determines the files it lists and its date. -/
theorem ManifestData.eq_of_render {data data' : ManifestData} (h : data.render = data'.render) :
    data.files = data'.files ∧ data.generatedAt = data'.generatedAt := by
  have values := Json.dump_injective 0 (Json.utf8_injective h)
  simp only [ManifestData.json, Json.Value.obj.injEq, List.cons.injEq, Prod.mk.injEq,
    Json.Value.arr.injEq, Json.Value.str.injEq] at values
  obtain ⟨-, -, -, -, -, ⟨-, date⟩, -, ⟨-, files⟩, -⟩ := values
  exact ⟨ManifestEntry.json_injective.list_map files, date⟩

def manifestEntry (f : ExportFile) : ManifestEntry := ⟨f.relativePath, f.checksum, f.sizeBytes⟩

/-! ### The targets of a job -/

abbrev ManifestTarget := DriveAssignment × List ExportFile

/-- The completed files that were copied for an assignment. -/
def filesFor (s : Db) (jobId assignmentId : Nat) : List ExportFile :=
  s.files.rows.filter fun f =>
    f.jobId = jobId ∧ f.status = .done ∧ f.driveAssignmentId = some assignmentId

/-- The assignments with completed files, oldest first, or without any such file
the active one. -/
def manifestTargets (s : Db) (jobId : Nat) : List ManifestTarget :=
  match s.assignments.select (fun a => filesFor s jobId a.id ≠ []) Db.earlierAssignment with
  | [] => (s.getActiveForJob jobId).toList.map fun a => (a, [])
  | assignments => assignments.map fun a => (a, filesFor s jobId a.id)

def manifestFile (mountPath : Str) : Str := join mountPath "manifest.json".toList

/-- Whether a recorded manifest is there, on the drive that is mounted below its
path or, without one, on the host. -/
def manifestExists (onHost : Str → Bool) (w : World) (path : Str) : Bool :=
  match w.db.drives.first (fun d => (truthy d.mountPath).any fun p => manifestFile p = path)
      fun a b => a.id ≤ b.id with
  | some d => (w.contents d.id manifestPath).isSome
  | none => onHost path

def getLatestForAssignment (manifests : Table Manifest) (jobId assignmentId : Nat) :
    Option Manifest :=
  manifests.first (fun m => m.jobId = jobId ∧ m.driveAssignmentId = some assignmentId)
    fun a b => b.createdAt < a.createdAt ∨ (a.createdAt = b.createdAt ∧ b.id ≤ a.id)

def latestManifestIsCurrent (onHost : Str → Bool) (w : World) (job : ExportJob) :
    Option Manifest → Bool
  | none => false
  | some m =>
      (truthy m.manifestPath).any (manifestExists onHost w) &&
        job.completedAt.all fun completedAt => completedAt ≤ m.createdAt

/-- The latest manifest of an assignment is there and not older than the completion. -/
def hasCurrentManifest (onHost : Str → Bool) (r : Archive) (job : ExportJob) (t : ManifestTarget) :
    Bool :=
  latestManifestIsCurrent onHost r.world job (getLatestForAssignment r.manifests job.id t.1.id)

def nextManifestTargetsNeedingRefresh (onHost : Str → Bool) (r : Archive) (job : ExportJob) :
    List ManifestTarget :=
  (manifestTargets r.world.db job.id).filter fun t => !hasCurrentManifest onHost r job t

/-! ### Generation -/

/-- How one manifest fares: the file cannot be opened, the write breaks off and
leaves a part, the row cannot be committed, or all is well. -/
inductive ManifestWrite where
  | notOpened
  | brokenOff (left : Bytes)
  | unrecorded
  | recorded (createdAt : Nat)

/-- What a generation is told: the clock and the actor, and how each manifest
fares, by assignment. -/
structure GenerationInput where
  generatedAt : Str
  generatedBy : Str
  outcome : Nat → ManifestWrite

/-- The archive afterwards and, for a generation that stops, why. A strict
caller gets the reason as an error, the others none. -/
structure Generated where
  archive : Archive
  createdAny : Bool
  failure : Option (Nat × String)

def manifestData (input : GenerationInput) (job : ExportJob) (t : ManifestTarget) : ManifestData where
  jobId := job.id
  projectId := job.projectId
  evidenceNumber := job.evidenceNumber.toList
  driveAssignmentId := t.1.id
  driveId := t.1.driveId
  generatedAt := input.generatedAt
  generatedBy := input.generatedBy
  files := t.2.map manifestEntry

def Archive.store (r : Archive) (driveId : Nat) (content : Bytes) : Archive :=
  { r with world := r.world.store driveId manifestPath (some content) }

def Archive.record (r : Archive) (jobId assignmentId : Nat) (path : Str) (createdAt : Nat) :
    Archive :=
  { r with
    manifests := r.manifests.insert
      (fun k => ⟨k, jobId, some assignmentId, some path, createdAt⟩) fun _ => rfl }

/-- The loop over the targets; it stops at the first that fails. -/
def writeManifests (input : GenerationInput) (job : ExportJob) :
    List ManifestTarget → Archive → Bool → Generated
  | [], r, createdAny => ⟨r, createdAny, none⟩
  | t :: rest, r, createdAny =>
      match (r.world.db.drives.get t.1.driveId).bind fun d => truthy d.mountPath with
      | none => ⟨r, createdAny, some (409, "Assigned drive is not mounted")⟩
      | some mountPath =>
          let content := (manifestData input job t).render
          match input.outcome t.1.id with
          | .notOpened => ⟨r, createdAny, some (500, "Manifest file could not be written")⟩
          | .brokenOff left =>
              ⟨r.store t.1.driveId left, createdAny, some (500, "Manifest file could not be written")⟩
          | .unrecorded =>
              ⟨r.store t.1.driveId content, createdAny,
                some (500, "Database error while creating manifest")⟩
          | .recorded createdAt =>
              writeManifests input job rest
                ((r.store t.1.driveId content).record job.id t.1.id (manifestFile mountPath) createdAt)
                true

def generateManifestForJob (onHost : Str → Bool) (input : GenerationInput) (r : Archive)
    (jobId : Nat) : Generated :=
  match r.world.db.jobs.get jobId with
  | none => ⟨r, false, some (404, "Job not found")⟩
  | some job =>
      if job.status ≠ .completed then
        ⟨r, false, some (409, "Only completed jobs can generate a manifest")⟩
      else if r.world.db.retryableCount jobId ≠ 0 then
        ⟨r, false, some (409, "Only clean completed jobs can generate a manifest")⟩
      else writeManifests input job (nextManifestTargetsNeedingRefresh onHost r job) r false

/-! ### What a generation leaves on the drives -/

/-- The manifests a generation gets to write, with their drives, in order. -/
def manifestWrites (input : GenerationInput) (s : Db) (job : ExportJob) :
    List ManifestTarget → List (Nat × Bytes)
  | [] => []
  | t :: rest =>
      if (s.drives.get t.1.driveId).bind (fun d => truthy d.mountPath) = none then []
      else match input.outcome t.1.id with
        | .notOpened => []
        | .brokenOff left => [(t.1.driveId, left)]
        | .unrecorded => [(t.1.driveId, (manifestData input job t).render)]
        | .recorded _ => (t.1.driveId, (manifestData input job t).render) ::
            manifestWrites input s job rest

/-- The last content that is written to a drive. -/
def lastOn (driveId : Nat) : List (Nat × Bytes) → Option Bytes
  | [] => none
  | write :: rest => (lastOn driveId rest).or (if write.1 = driveId then some write.2 else none)

theorem lastOn_eq_none {driveId : Nat} {writes : List (Nat × Bytes)}
    (h : ∀ write ∈ writes, write.1 ≠ driveId) : lastOn driveId writes = none := by
  induction writes with
  | nil => rfl
  | cons write rest ih =>
      rw [lastOn, ih fun later hlater => h later (List.mem_cons_of_mem _ hlater)]
      simp [h write List.mem_cons_self]

theorem lastOn_eq_some {driveId : Nat} {writes : List (Nat × Bytes)}
    (h : ∃ write ∈ writes, write.1 = driveId) :
    ∃ content, (driveId, content) ∈ writes ∧ lastOn driveId writes = some content := by
  induction writes with
  | nil => simp at h
  | cons write rest ih =>
      rw [lastOn]
      by_cases later : ∃ write ∈ rest, write.1 = driveId
      · obtain ⟨content, mem, last⟩ := ih later
        exact ⟨content, List.mem_cons_of_mem _ mem, by rw [last, Option.some_or]⟩
      · have here : write.1 = driveId := by
          obtain ⟨found, mem, drive⟩ := h
          rcases List.mem_cons.mp mem with rfl | mem
          · exact drive
          · exact absurd ⟨found, mem, drive⟩ later
        have none : lastOn driveId rest = none :=
          lastOn_eq_none fun found mem drive => later ⟨found, mem, drive⟩
        refine ⟨write.2, ?_, by rw [none, Option.none_or, if_pos here]⟩
        rw [← here]
        exact List.mem_cons_self

/-- When every target is written, a drive is left with the manifest of one of its targets. -/
theorem lastOn_targets {driveId : Nat} {writes : List (Nat × Bytes)} {targets : List ManifestTarget}
    {c : ManifestTarget → Bytes} (all : writes = targets.map fun t => (t.1.driveId, c t))
    (h : ∃ t ∈ targets, t.1.driveId = driveId) :
    ∃ t ∈ targets, t.1.driveId = driveId ∧ lastOn driveId writes = some (c t) := by
  obtain ⟨u, hu, drive⟩ := h
  have written : ∃ write ∈ writes, write.1 = driveId := by
    rw [all]
    exact ⟨_, List.mem_map_of_mem hu, drive⟩
  obtain ⟨content, mem, last⟩ := lastOn_eq_some written
  rw [all] at mem
  obtain ⟨t, ht, same⟩ := List.mem_map.mp mem
  obtain ⟨rfl, rfl⟩ := Prod.mk.inj same
  exact ⟨t, ht, rfl, last⟩

theorem contents_store (r : Archive) (d : Nat) (content : Bytes) (driveId : Nat) :
    (r.store d content).world.contents driveId manifestPath =
      if d = driveId then some content else r.world.contents driveId manifestPath := by
  simp [Archive.store, World.store, World.contents]

theorem contents_store_of_ne (r : Archive) (d : Nat) (content : Bytes) (driveId : Nat)
    {path : List Str} (other : ¬ r.world.SamePath driveId path manifestPath) :
    (r.store d content).world.contents driveId path = r.world.contents driveId path :=
  World.contents_store_of_ne fun _ => other

theorem naming_writeManifests {input : GenerationInput} {job : ExportJob}
    (targets : List ManifestTarget) (r : Archive) (createdAny : Bool) :
    (writeManifests input job targets r createdAny).archive.world.naming = r.world.naming := by
  fun_induction writeManifests with
  | case6 t rest r createdAny mountPath mounted content createdAt outcome ih => exact ih
  | _ => rfl

/-- Nothing but manifests changes. -/
theorem contents_writeManifests_of_ne {input : GenerationInput} {job : ExportJob} {driveId : Nat}
    {path : List Str} (targets : List ManifestTarget) (r : Archive) (createdAny : Bool)
    (other : ¬ r.world.SamePath driveId path manifestPath) :
    (writeManifests input job targets r createdAny).archive.world.contents driveId path =
      r.world.contents driveId path := by
  fun_induction writeManifests with
  | case1 r createdAny => rfl
  | case2 t rest r createdAny unmounted => rfl
  | case3 t rest r createdAny mountPath mounted outcome => rfl
  | case4 t rest r createdAny mountPath mounted left outcome =>
      exact contents_store_of_ne r _ _ driveId other
  | case5 t rest r createdAny mountPath mounted content outcome =>
      exact contents_store_of_ne r _ _ driveId other
  | case6 t rest r createdAny mountPath mounted content createdAt outcome ih =>
      exact (ih other).trans (contents_store_of_ne r _ _ driveId other)

/-- A manifest is the last one that was written. -/
theorem contents_writeManifests {input : GenerationInput} {job : ExportJob} {driveId : Nat}
    (targets : List ManifestTarget) (r : Archive) (createdAny : Bool) :
    (writeManifests input job targets r createdAny).archive.world.contents driveId manifestPath =
      (lastOn driveId (manifestWrites input r.world.db job targets)).or
        (r.world.contents driveId manifestPath) := by
  fun_induction writeManifests with
  | case1 r createdAny => rfl
  | case2 t rest r createdAny unmounted => simp [manifestWrites, unmounted, lastOn]
  | case3 t rest r createdAny mountPath mounted outcome =>
      simp [manifestWrites, mounted, outcome, lastOn]
  | case4 t rest r createdAny mountPath mounted left outcome =>
      rw [contents_store]
      split <;> simp_all [manifestWrites, lastOn]
  | case5 t rest r createdAny mountPath mounted content outcome =>
      rw [contents_store]
      split <;> simp_all [manifestWrites, lastOn, content]
  | case6 t rest r createdAny mountPath mounted content createdAt outcome ih =>
      rw [ih]
      change (lastOn driveId (manifestWrites input r.world.db job rest)).or
        ((r.store t.1.driveId content).world.contents driveId manifestPath) = _
      rw [contents_store]
      split <;> simp_all [manifestWrites, lastOn, content]

/-- The manifests that a generation for the job gets to write. -/
def generationWrites (onHost : Str → Bool) (input : GenerationInput) (r : Archive) (jobId : Nat) :
    List (Nat × Bytes) :=
  match r.world.db.jobs.get jobId with
  | none => []
  | some job =>
      if job.status = .completed ∧ r.world.db.retryableCount jobId = 0 then
        manifestWrites input r.world.db job (nextManifestTargetsNeedingRefresh onHost r job)
      else []

section Generation

variable {onHost : Str → Bool} {input : GenerationInput} {r : Archive} {jobId driveId : Nat}

/-- A generation returns at once or runs through the targets. -/
theorem generateManifestForJob_cases :
    ((generateManifestForJob onHost input r jobId).archive = r ∧
        (generateManifestForJob onHost input r jobId).failure ≠ none ∧
        generationWrites onHost input r jobId = []) ∨
      ∃ job, r.world.db.jobs.get jobId = some job ∧
        generateManifestForJob onHost input r jobId =
          writeManifests input job (nextManifestTargetsNeedingRefresh onHost r job) r false ∧
        generationWrites onHost input r jobId =
          manifestWrites input r.world.db job (nextManifestTargetsNeedingRefresh onHost r job) := by
  unfold generateManifestForJob generationWrites
  cases found : r.world.db.jobs.get jobId with
  | none => simp
  | some job =>
      by_cases completed : job.status = .completed
      · by_cases clean : r.world.db.retryableCount jobId = 0
        · simp [completed, clean]
        · simp [completed, clean]
      · simp [completed]

theorem contents_generate :
    (generateManifestForJob onHost input r jobId).archive.world.contents driveId manifestPath =
      (lastOn driveId (generationWrites onHost input r jobId)).or
        (r.world.contents driveId manifestPath) := by
  rcases @generateManifestForJob_cases onHost input r jobId with ⟨same, -, none⟩ | ⟨job, -, run, writes⟩
  · rw [same, none]
    rfl
  · rw [run, writes]
    exact contents_writeManifests _ r false

theorem samePath_generate {p q : List Str} (h : r.world.SamePath driveId p q) :
    (generateManifestForJob onHost input r jobId).archive.world.SamePath driveId p q := by
  rcases @generateManifestForJob_cases onHost input r jobId with ⟨same, -, -⟩ | ⟨job, -, run, -⟩
  · rwa [same]
  · rwa [run, World.SamePath, naming_writeManifests]

theorem contents_generate_of_ne {path : List Str}
    (other : ¬ r.world.SamePath driveId path manifestPath) :
    (generateManifestForJob onHost input r jobId).archive.world.contents driveId path =
      r.world.contents driveId path := by
  rcases @generateManifestForJob_cases onHost input r jobId with ⟨same, -, -⟩ | ⟨job, -, run, -⟩
  · rw [same]
  · rw [run]
    exact contents_writeManifests_of_ne _ r false other

end Generation

/-! ### Completed files keep their content -/

/-- Every completed file of every job has the content it had, on the drive of
its assignment. -/
def EvidenceUntouched (before after : World) : Prop :=
  ∀ f ∈ before.db.files.rows, f.status = .done →
    ∀ a ∈ before.db.assignments.rows, f.driveAssignmentId = some a.id →
      after.contents a.driveId (destination f) = before.contents a.driveId (destination f)

def onMountedDrive (s : Db) (t : ManifestTarget) : Bool :=
  ((s.drives.get t.1.driveId).bind fun d => truthy d.mountPath).isSome

/-- The targets that a generation has a manifest to write for: those without a
current one, up to the first whose drive is not mounted. -/
def dueTargets (onHost : Str → Bool) (r : Archive) (job : ExportJob) : List ManifestTarget :=
  (nextManifestTargetsNeedingRefresh onHost r job).takeWhile (onMountedDrive r.world.db)

/-- No completed file of any job lies where a drive on which the job is due a
manifest has its `manifest.json`. -/
def EvidenceSpared (onHost : Str → Bool) (r : Archive) (jobId : Nat) : Prop :=
  ∀ job ∈ r.world.db.jobs.get jobId, job.status = .completed → r.world.db.retryableCount jobId = 0 →
    ∀ t ∈ dueTargets onHost r job, ∀ f ∈ r.world.db.files.rows, f.status = .done →
      ∀ a ∈ r.world.db.assignments.rows, f.driveAssignmentId = some a.id →
        a.driveId = t.1.driveId → ¬ r.world.SamePath a.driveId (destination f) manifestPath

theorem due_of_mem_manifestWrites {input : GenerationInput} {s : Db} {job : ExportJob}
    {targets : List ManifestTarget} {write : Nat × Bytes}
    (h : write ∈ manifestWrites input s job targets) :
    ∃ t ∈ targets.takeWhile (onMountedDrive s), t.1.driveId = write.1 := by
  induction targets with
  | nil => simp [manifestWrites] at h
  | cons t rest ih =>
      rw [manifestWrites] at h
      split at h
      · cases h
      · rename_i mounted
        have here : onMountedDrive s t = true := Option.isSome_iff_ne_none.mpr mounted
        rw [List.takeWhile_cons_of_pos here]
        split at h
        · cases h
        · exact ⟨t, List.mem_cons_self, congrArg Prod.fst (List.mem_singleton.mp h).symm⟩
        · exact ⟨t, List.mem_cons_self, congrArg Prod.fst (List.mem_singleton.mp h).symm⟩
        · rcases List.mem_cons.mp h with rfl | h
          · exact ⟨t, List.mem_cons_self, rfl⟩
          · obtain ⟨u, hu, drive⟩ := ih h
            exact ⟨u, List.mem_cons_of_mem _ hu, drive⟩

theorem manifestWrites_recorded {input : GenerationInput} {s : Db} {job : ExportJob} {createdAt : Nat}
    (recorded : ∀ k, input.outcome k = .recorded createdAt) (targets : List ManifestTarget) :
    manifestWrites input s job targets =
      (targets.takeWhile (onMountedDrive s)).map fun t =>
        (t.1.driveId, (manifestData input job t).render) := by
  induction targets with
  | nil => rfl
  | cons t rest ih =>
      rw [manifestWrites, recorded]
      split
      · rename_i unmounted
        have away : ¬ onMountedDrive s t = true := by simp [onMountedDrive, unmounted]
        rw [List.takeWhile_cons_of_neg away, List.map_nil]
      · rename_i mounted
        have here : onMountedDrive s t = true := Option.isSome_iff_ne_none.mpr mounted
        rw [List.takeWhile_cons_of_pos here, List.map_cons, ih]

/-- A generation at the given date without failures. -/
def generationAt (date : Str) : GenerationInput := ⟨date, "system".toList, fun _ => .recorded 0⟩

/-- Manifests are written for due targets only. -/
theorem due_of_mem_generationWrites {onHost : Str → Bool} {input : GenerationInput} {r : Archive}
    {jobId : Nat} {write : Nat × Bytes} (h : write ∈ generationWrites onHost input r jobId) :
    ∃ job, r.world.db.jobs.get jobId = some job ∧ job.status = .completed ∧
      r.world.db.retryableCount jobId = 0 ∧ ∃ t ∈ dueTargets onHost r job, t.1.driveId = write.1 := by
  unfold generationWrites at h
  split at h
  · cases h
  · rename_i job found
    split at h
    · rename_i clean
      exact ⟨job, found, clean.1, clean.2, due_of_mem_manifestWrites h⟩
    · cases h

/-- When every write succeeds, each due target gets its manifest. -/
theorem generationWrites_recorded {onHost : Str → Bool} {input : GenerationInput} {r : Archive}
    {jobId createdAt : Nat} {job : ExportJob} (found : r.world.db.jobs.get jobId = some job)
    (completed : job.status = .completed) (clean : r.world.db.retryableCount jobId = 0)
    (recorded : ∀ k, input.outcome k = .recorded createdAt) :
    generationWrites onHost input r jobId =
      (dueTargets onHost r job).map fun t => (t.1.driveId, (manifestData input job t).render) := by
  unfold generationWrites
  rw [found]
  dsimp only
  rw [if_pos ⟨completed, clean⟩]
  exact manifestWrites_recorded recorded _

/-- Every course of a generation leaves all completed files as they are exactly
when none of them lies where a `manifest.json` is due. -/
theorem evidence_untouched_iff (onHost : Str → Bool) (r : Archive) (jobId : Nat) :
    (∀ input, EvidenceUntouched r.world (generateManifestForJob onHost input r jobId).archive.world) ↔
      EvidenceSpared onHost r jobId := by
  constructor
  · intro untouched job found completed clean t due f hf done a ha assigned drive atManifest
    -- Two generations at different times leave different manifests there.
    have left : ∀ date, ∃ u, r.world.contents a.driveId manifestPath =
        some (manifestData (generationAt date) job u).render := by
      intro date
      have writes := @generationWrites_recorded onHost (generationAt date) r jobId 0 job found completed
        clean fun _ => rfl
      obtain ⟨u, -, -, last⟩ := lastOn_targets writes ⟨t, due, drive.symm⟩
      have kept := untouched (generationAt date) f hf done a ha assigned
      rw [(samePath_generate atManifest).contents_eq, atManifest.contents_eq, contents_generate,
        last, Option.some_or] at kept
      exact ⟨u, kept.symm⟩
    obtain ⟨u, early⟩ := left "a".toList
    obtain ⟨v, late⟩ := left "b".toList
    have date : "a".toList = "b".toList :=
      (ManifestData.eq_of_render (Option.some.inj (early.symm.trans late))).2
    exact absurd date (by decide)
  · intro spared input f hf done a ha assigned
    by_cases atManifest : r.world.SamePath a.driveId (destination f) manifestPath
    · have unwritten : lastOn a.driveId (generationWrites onHost input r jobId) = none := by
        apply lastOn_eq_none
        intro write hw drive
        obtain ⟨job, found, completed, clean, t, due, same⟩ := due_of_mem_generationWrites hw
        exact spared job found completed clean t due f hf done a ha assigned
          (drive.symm.trans same.symm) atManifest
      rw [(samePath_generate atManifest).contents_eq, atManifest.contents_eq, contents_generate,
        unwritten, Option.none_or]
    · exact contents_generate_of_ne atManifest

/-! ### Manifests are complete -/

/-- The completed files of a job that were copied to the drive. -/
def doneFilesOn (s : Db) (jobId driveId : Nat) : List ExportFile :=
  s.files.rows.filter fun f => f.jobId = jobId ∧ f.status = .done ∧
    f.driveAssignmentId.any fun k => (s.assignments.get k).any fun a => a.driveId = driveId

/-- The drives with completed files of the job; a job that has no such file has
its manifest on the active drive. -/
def ManifestDrive (s : Db) (jobId driveId : Nat) : Prop :=
  doneFilesOn s jobId driveId ≠ [] ∨
    (∀ d, doneFilesOn s jobId d = []) ∧
      (s.getActiveForJob jobId).map DriveAssignment.driveId = some driveId

/-- The manifest on the drive lists exactly these files. -/
def ManifestLists (w : World) (driveId : Nat) (files : List ExportFile) : Prop :=
  ∃ data : ManifestData, w.contents driveId manifestPath = some data.render ∧
    data.files.Perm (files.map manifestEntry)

/-- Each drive has a manifest of exactly the files of the job on it. -/
def ManifestsComplete (s : Db) (jobId : Nat) (after : World) : Prop :=
  ∀ driveId, ManifestDrive s jobId driveId →
    ManifestLists after driveId (doneFilesOn s jobId driveId)

/-- A drive with an outdated manifest has files of one assignment only, and a
drive without has a complete manifest already. -/
def ManifestsCoverable (onHost : Str → Bool) (r : Archive) (job : ExportJob) : Prop :=
  ∀ driveId, ManifestDrive r.world.db job.id driveId →
    ((∃ t ∈ nextManifestTargetsNeedingRefresh onHost r job, t.1.driveId = driveId) →
      ∀ f ∈ doneFilesOn r.world.db job.id driveId, ∀ g ∈ doneFilesOn r.world.db job.id driveId,
        f.driveAssignmentId = g.driveAssignmentId) ∧
    ((∀ t ∈ nextManifestTargetsNeedingRefresh onHost r job, t.1.driveId ≠ driveId) →
      ManifestLists r.world driveId (doneFilesOn r.world.db job.id driveId))

theorem mem_doneFilesOn {s : Db} {jobId driveId : Nat} {f : ExportFile} :
    f ∈ doneFilesOn s jobId driveId ↔ f ∈ s.files ∧ f.jobId = jobId ∧ f.status = .done ∧
      ∃ a ∈ s.assignments, f.driveAssignmentId = some a.id ∧ a.driveId = driveId := by
  rw [doneFilesOn, List.mem_filter, decide_eq_true_iff]
  refine and_congr Iff.rfl (and_congr Iff.rfl (and_congr Iff.rfl ?_))
  cases f.driveAssignmentId with
  | none => simp
  | some k =>
      rw [Option.any_some]
      constructor
      · intro there
        cases found : s.assignments.get k with
        | none =>
            rw [found] at there
            cases there
        | some a =>
            rw [found] at there
            exact ⟨a, mem_of_get found, congrArg some (id_of_get found).symm, by simpa using there⟩
      · rintro ⟨a, ha, same, drive⟩
        have found : s.assignments.get k = some a :=
          get_eq_some_iff.mpr ⟨ha, (Option.some.inj same).symm⟩
        rw [found]
        simpa using drive

theorem filesFor_eq_filter {s : Db} {jobId : Nat} {a : DriveAssignment} (ha : a ∈ s.assignments) :
    filesFor s jobId a.id =
      (doneFilesOn s jobId a.driveId).filter fun f => f.driveAssignmentId = some a.id := by
  have found : s.assignments.get a.id = some a := get_eq_some_iff.mpr ⟨ha, rfl⟩
  rw [filesFor, doneFilesOn, List.filter_filter]
  apply List.filter_congr
  intro f _
  by_cases assigned : f.driveAssignmentId = some a.id
  · simp [assigned, found]
  · simp [assigned]

/-- The files of a target are those of its assignment; a target without files is
the only one. -/
theorem mem_manifestTargets {s : Db} {jobId : Nat} {t : ManifestTarget}
    (h : t ∈ manifestTargets s jobId) :
    t.1 ∈ s.assignments ∧ t.2 = filesFor s jobId t.1.id ∧
      (t.2 = [] → ∀ a ∈ s.assignments, filesFor s jobId a.id = []) := by
  unfold manifestTargets at h
  split at h
  · rename_i none
    have empty : ∀ a ∈ s.assignments, filesFor s jobId a.id = [] := by
      intro a ha
      by_contra some
      have mem : a ∈ s.assignments.select (fun a => filesFor s jobId a.id ≠ [])
          Db.earlierAssignment := mem_select.mpr ⟨ha, by simpa using some⟩
      rw [none] at mem
      cases mem
    obtain ⟨a, active, rfl⟩ := List.mem_map.mp h
    have ha := (active_of_getActiveForJob (Option.mem_toList.mp active)).1
    exact ⟨ha, (empty a ha).symm, fun _ => empty⟩
  · obtain ⟨a, mem, rfl⟩ := List.mem_map.mp h
    obtain ⟨ha, some⟩ := mem_select.mp mem
    exact ⟨ha, rfl, fun none => absurd none (by simpa using some)⟩

theorem filter_map_perm_iff {α β : Type} {l : List α} {p : α → Bool} {g : α → β} :
    ((l.filter p).map g).Perm (l.map g) ↔ ∀ x ∈ l, p x = true := by
  constructor
  · intro perm
    have lengths := perm.length_eq
    rw [List.length_map, List.length_map] at lengths
    exact List.length_filter_eq_length_iff.mp lengths
  · intro all
    rw [List.filter_eq_self.mpr all]

/-- A target lists all files on its drive exactly when they are of one assignment. -/
theorem target_lists_iff {s : Db} {jobId : Nat} {t : ManifestTarget}
    (ht : t ∈ manifestTargets s jobId) :
    (t.2.map manifestEntry).Perm ((doneFilesOn s jobId t.1.driveId).map manifestEntry) ↔
      ∀ f ∈ doneFilesOn s jobId t.1.driveId, ∀ g ∈ doneFilesOn s jobId t.1.driveId,
        f.driveAssignmentId = g.driveAssignmentId := by
  obtain ⟨ha, files, alone⟩ := mem_manifestTargets ht
  have filtered := @filesFor_eq_filter s jobId t.1 ha
  rw [files, filtered, filter_map_perm_iff]
  constructor
  · intro all f hf g hg
    have hf' := all f hf
    have hg' := all g hg
    rw [decide_eq_true_iff] at hf' hg'
    rw [hf', hg']
  · intro same f hf
    -- The file shows that the target is not empty, so one of its files can be compared.
    obtain ⟨mem, mine, done, b, hb, assigned, -⟩ := mem_doneFilesOn.mp hf
    have some : t.2 ≠ [] := by
      intro empty
      have none := alone empty b hb
      have here : f ∈ filesFor s jobId b.id := by
        simp only [filesFor, List.mem_filter, decide_eq_true_iff]
        exact ⟨mem, mine, done, assigned⟩
      rw [none] at here
      cases here
    obtain ⟨g, hg⟩ := List.exists_mem_of_ne_nil _ some
    rw [files, filtered, List.mem_filter, decide_eq_true_iff] at hg
    rw [decide_eq_true_iff, same f hf g hg.1, hg.2]

/-- A generation that does not fail writes every target. -/
theorem manifestWrites_of_success {input : GenerationInput} {job : ExportJob}
    (targets : List ManifestTarget) (r : Archive) (createdAny : Bool)
    (success : (writeManifests input job targets r createdAny).failure = none) :
    manifestWrites input r.world.db job targets =
      targets.map fun t => (t.1.driveId, (manifestData input job t).render) := by
  fun_induction writeManifests with
  | case1 r createdAny => rfl
  | case2 t rest r createdAny unmounted => cases success
  | case3 t rest r createdAny mountPath mounted outcome => cases success
  | case4 t rest r createdAny mountPath mounted left outcome => cases success
  | case5 t rest r createdAny mountPath mounted content outcome => cases success
  | case6 t rest r createdAny mountPath mounted content createdAt outcome ih =>
      rw [manifestWrites, mounted, if_neg (by simp), outcome]
      exact congrArg _ (ih success)

/-- After a successful generation of a clean completed job, each drive has a
manifest of exactly the job's files on it if and only if every drive that was
written to has files of one assignment, and the others had such a manifest. -/
theorem manifests_complete_iff {onHost : Str → Bool} {input : GenerationInput} {r : Archive}
    {jobId : Nat} {job : ExportJob} (found : r.world.db.jobs.get jobId = some job)
    (success : (generateManifestForJob onHost input r jobId).failure = none) :
    ManifestsComplete r.world.db jobId (generateManifestForJob onHost input r jobId).archive.world ↔
      ManifestsCoverable onHost r job := by
  obtain rfl : job.id = jobId := id_of_get found
  rcases @generateManifestForJob_cases onHost input r job.id with ⟨-, failure, -⟩ | ⟨job', found', run, writes⟩
  · exact absurd success failure
  obtain rfl : job' = job := Option.some.inj (found'.symm.trans found)
  rw [run] at success
  rw [manifestWrites_of_success _ _ _ success] at writes
  refine forall_congr' fun driveId => imp_congr_right fun _ => ?_
  by_cases stale : ∃ t ∈ nextManifestTargetsNeedingRefresh onHost r job', t.1.driveId = driveId
  · obtain ⟨t, ht, rfl, last⟩ := lastOn_targets writes stale
    have target := target_lists_iff (List.mem_filter.mp ht).1
    have written : ManifestLists (generateManifestForJob onHost input r job'.id).archive.world
        t.1.driveId (doneFilesOn r.world.db job'.id t.1.driveId) ↔
          (t.2.map manifestEntry).Perm
            ((doneFilesOn r.world.db job'.id t.1.driveId).map manifestEntry) := by
      rw [ManifestLists, contents_generate, last, Option.some_or]
      constructor
      · rintro ⟨data, same, perm⟩
        rw [← (ManifestData.eq_of_render (Option.some.inj same)).1] at perm
        exact perm
      · exact fun perm => ⟨_, rfl, perm⟩
    rw [written, target]
    exact ⟨fun h => ⟨fun _ => h, fun none => absurd rfl (none t ht)⟩, fun h => h.1 stale⟩
  · -- The drive is left alone.
    have none : ∀ t ∈ nextManifestTargetsNeedingRefresh onHost r job', t.1.driveId ≠ driveId :=
      fun t ht drive => stale ⟨t, ht, drive⟩
    have unwritten : lastOn driveId (generationWrites onHost input r job'.id) = Option.none := by
      rw [writes]
      apply lastOn_eq_none
      intro write hw
      obtain ⟨t, ht, rfl⟩ := List.mem_map.mp hw
      exact none t ht
    rw [ManifestLists, contents_generate, unwritten, Option.none_or]
    exact ⟨fun h => ⟨fun some => absurd some stale, fun _ => h⟩, fun h => h.2 none⟩

/-- Drive 1 is full at the second file, drive 2 as well, and the job returns to
drive 1. -/
def backToFirstDrive : List EvidenceAction :=
  firstFile ++ [.copyFile 1 2 (.error targetFullMessage none),
    .workflow ⟨6, .finalizeRun 1 false true⟩ rfl,
    .workflow ⟨7, .continueJobOverflow 1 2 none⟩ rfl,
    .copyFile 1 2 (.error targetFullMessage none),
    .workflow ⟨8, .finalizeRun 1 false true⟩ rfl,
    .workflow ⟨9, .continueJobOverflow 1 1 none⟩ rfl,
    .copyFile 1 2 (.done [98]),
    .workflow ⟨10, .finalizeRun 1 false false⟩ rfl]

/-- A completed run without manifests yet. -/
def completedArchive (actions : List EvidenceAction) : Archive :=
  ⟨exec labEvidenceStep labWorld actions, .empty⟩

/-- Every manifest can be written and recorded. -/
def smoothGeneration : GenerationInput where
  generatedAt := "2026-01-01T00:00:00+00:00".toList
  generatedBy := "system".toList
  outcome _ := .recorded 20

/-- The only file of the job is called `manifest.json`. -/
def manifestAsEvidence : List EvidenceAction :=
  [.workflow ⟨10, .createJob (Lab.body "/data/a" (some 1) none) none⟩ rfl,
    .workflow ⟨11, .startJob 1 none⟩ rfl,
    .workflow ⟨12, .enterRunning 1⟩ rfl,
    .workflow ⟨13, .listFile 1 "manifest.json".toList 1⟩ rfl,
    .copyFile 1 1 (.done [97]),
    .workflow ⟨14, .finalizeRun 1 false false⟩ rfl]

theorem manifest_replaces_evidence :
    ¬ EvidenceUntouched (completedArchive manifestAsEvidence).world
      (generateManifestForJob (fun _ => false) smoothGeneration (completedArchive manifestAsEvidence)
        1).archive.world := by
  unfold EvidenceUntouched
  decide

/-- The manifest that ends up on drive 1 when the job has returned to it. -/
def secondManifest : ManifestData where
  jobId := 1
  projectId := "P".toList
  evidenceNumber := "E1".toList
  driveAssignmentId := 3
  driveId := 1
  generatedAt := smoothGeneration.generatedAt
  generatedBy := smoothGeneration.generatedBy
  files := [⟨"g".toList, some (sampleSha256 [98]), 1⟩]

/-- The generation succeeds, and the manifest of the second visit replaces the
one of the first. -/
theorem manifest_misses_first_assignment :
    (completedArchive backToFirstDrive).world.db.jobs.rows.map ExportJob.status = [.completed] ∧
      (generateManifestForJob (fun _ => false) smoothGeneration (completedArchive backToFirstDrive)
        1).failure = none ∧
      ¬ ManifestsComplete (completedArchive backToFirstDrive).world.db 1
        (generateManifestForJob (fun _ => false) smoothGeneration
          (completedArchive backToFirstDrive) 1).archive.world := by
  refine ⟨by decide, by decide, fun complete => ?_⟩
  have here : ManifestDrive (completedArchive backToFirstDrive).world.db 1 1 := .inl (by decide)
  obtain ⟨data, content, perm⟩ := complete 1 here
  have written : (generateManifestForJob (fun _ => false) smoothGeneration
      (completedArchive backToFirstDrive) 1).archive.world.contents 1 manifestPath =
        some secondManifest.render := by
    rfl
  rw [written] at content
  rw [← (ManifestData.eq_of_render (Option.some.inj content)).1] at perm
  exact absurd perm.length_eq (by decide)

/-- A job over two drives, of which each was used once. -/
theorem manifests_complete_two_drives :
    ManifestsComplete (completedArchive onTwoDrives).world.db 1
      (generateManifestForJob (fun _ => false) smoothGeneration (completedArchive onTwoDrives)
        1).archive.world := by
  refine (manifests_complete_iff (Option.some_get (by decide)).symm (by decide)).mpr ?_
  intro d here
  have drives : ∀ a ∈ (completedArchive onTwoDrives).world.db.assignments.rows,
      a.driveId = 1 ∨ a.driveId = 2 := by decide
  have used : ∀ f ∈ doneFilesOn (completedArchive onTwoDrives).world.db 1 d, d = 1 ∨ d = 2 := by
    intro f hf
    obtain ⟨-, -, -, a, ha, -, rfl⟩ := mem_doneFilesOn.mp hf
    exact drives a ha
  have single : ∀ d ∈ [1, 2], ∀ f ∈ doneFilesOn (completedArchive onTwoDrives).world.db 1 d,
      ∀ g ∈ doneFilesOn (completedArchive onTwoDrives).world.db 1 d,
        f.driveAssignmentId = g.driveAssignmentId := by decide
  constructor
  · intro _ f hf g hg
    exact single d (by simpa using used f hf) f hf g hg
  · intro none
    rcases here with some | ⟨empty, -⟩
    · obtain ⟨f, hf⟩ := List.exists_mem_of_ne_nil _ some
      rcases used f hf with rfl | rfl
      · exact absurd none (by decide)
      · exact absurd none (by decide)
    · exact absurd (empty 1) (by decide)

end Ecube
