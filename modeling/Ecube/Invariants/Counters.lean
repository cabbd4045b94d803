import Ecube.Invariants.Ledger

/-!
The counters of drive assignments.

A successful copy adds the file and its bytes to `file_count` and `copied_bytes`
of the active assignment. Nothing subtracts from them: a file that fails its
verification, a row that a scan removes and a size that a scan renews leave the
counters as they are, and a file that is copied again is counted again.

* `countersAgree_of_kept`: in a run without these events the counters agree with
  the completed rows whenever no copy run is in progress.
* `counter_keeps_failed_file`: a file that fails its verification.
-/

namespace Ecube

open Table Transition

/-- The completed files that were copied for an assignment. -/
def countedFor (s : Db) (assignmentId : Nat) : List ExportFile :=
  (doneRows s).filter fun f => f.driveAssignmentId = some assignmentId

/-- No copy run is in progress. -/
def Quiescent (s : Db) : Prop := ∀ j ∈ s.jobs, j.status ∉ copyingStatuses

/-- The counters of every assignment are the number and the bytes of its
completed files. -/
def CountersAgree (w : Ledger) : Prop :=
  ∀ a ∈ w.db.assignments, w.fileCount a.id = (countedFor w.db a.id).length ∧
    w.copiedBytes a.id = ((countedFor w.db a.id).map ExportFile.sizeBytes).sum

instance (s : Db) : Decidable (Quiescent s) :=
  inferInstanceAs (Decidable (∀ j ∈ s.jobs, j.status ∉ copyingStatuses))

instance (w : Ledger) : Decidable (CountersAgree w) :=
  inferInstanceAs (Decidable (∀ a ∈ w.db.assignments,
    w.fileCount a.id = (countedFor w.db a.id).length ∧
      w.copiedBytes a.id = ((countedFor w.db a.id).map ExportFile.sizeBytes).sum))

/-- Completed files that were copied for an assignment pass their verification
and are listed by every scan with their size, and a copy for an assignment reads
as many bytes as were listed. -/
def CountersKept (sha256 : Bytes → Str) (w : Ledger) : LedgerAction → Prop
  | .workflow _ _ => True
  | .prepare jobId tree _ =>
      ∀ f ∈ doneRows w.db, f.jobId = jobId → f.driveAssignmentId ≠ none →
        tree.sizeOf f.relativePath = some f.sizeBytes
  | .copyFile jobId fileId (.done content) =>
      ∀ pair ∈ attempts w.db jobId fileId, activeAssignmentId w.db jobId ≠ none →
        content.length = pair.2.sizeBytes
  | .copyFile _ _ (.retrying _ _) | .copyFile _ _ (.timeout _ _) | .copyFile _ _ (.error _ _) => True
  | .verifyFiles jobId _ read =>
      (∀ j ∈ w.db.jobs, j.id = jobId → j.status = .verifying) →
        ∀ f ∈ doneRows w.db, f.jobId = jobId → f.driveAssignmentId ≠ none →
          matchesChecksum sha256 f (read f) = true

instance (sha256 : Bytes → Str) (w : Ledger) (a : LedgerAction) : Decidable (CountersKept sha256 w a) :=
  match a with
  | .workflow _ _ => .isTrue trivial
  | .prepare jobId tree _ => inferInstanceAs (Decidable (
      ∀ f ∈ doneRows w.db, f.jobId = jobId → f.driveAssignmentId ≠ none →
        tree.sizeOf f.relativePath = some f.sizeBytes))
  | .copyFile jobId fileId (.done content) => inferInstanceAs (Decidable (
      ∀ pair ∈ attempts w.db jobId fileId, activeAssignmentId w.db jobId ≠ none →
        content.length = pair.2.sizeBytes))
  | .copyFile _ _ (.retrying _ _) | .copyFile _ _ (.timeout _ _) | .copyFile _ _ (.error _ _) =>
      .isTrue trivial
  | .verifyFiles jobId _ read => inferInstanceAs (Decidable (
      (∀ j ∈ w.db.jobs, j.id = jobId → j.status = .verifying) →
        ∀ f ∈ doneRows w.db, f.jobId = jobId → f.driveAssignmentId ≠ none →
          matchesChecksum sha256 f (read f) = true))

section Steps

variable {cfg : Settings} {sha256 : Bytes → Str} {w : Ledger}

theorem countedFor_congr {s t : Db} (h : doneRows t = doneRows s) (k : Nat) :
    countedFor t k = countedFor s k := by
  rw [countedFor, h]
  rfl

/-- Counters and assignments stay, and so do the counted files. -/
theorem CountersAgree.frame {db : Db} {prepared : Option Nat} (h : CountersAgree w)
    (assignments : db.assignments = w.db.assignments)
    (counted : ∀ k, countedFor db k = countedFor w.db k) :
    CountersAgree { w with db := db, prepared := prepared } := by
  intro a ha
  change a ∈ db.assignments at ha
  change w.fileCount a.id = (countedFor db a.id).length ∧
    w.copiedBytes a.id = ((countedFor db a.id).map ExportFile.sizeBytes).sum
  rw [counted]
  exact h a (assignments ▸ ha)

theorem CountersAgree.workflow {a : Action} (h : CountersAgree w) (sound : LedgerSound w.db)
    (spares : sparesFiles a.event = true) : CountersAgree { w with
      db := Ecube.step cfg w.db a
      fileCount := newRowsAtZero w.db w.fileCount
      copiedBytes := newRowsAtZero w.db w.copiedBytes
      prepared := none } := by
  have undisturbed : Undisturbed w.db (step cfg w.db a) := undisturbed_step sound.started spares
  intro b hb
  change newRowsAtZero w.db w.fileCount b.id = (countedFor (step cfg w.db a) b.id).length ∧
    newRowsAtZero w.db w.copiedBytes b.id =
      ((countedFor (step cfg w.db a) b.id).map ExportFile.sizeBytes).sum
  rw [countedFor_congr undisturbed.done, newRowsAtZero, newRowsAtZero]
  cases known : w.db.assignments.get b.id with
  | some c =>
      have agree := h c (mem_of_get known)
      rw [show c.id = b.id from id_of_get known] at agree
      exact agree
  | none =>
      -- No completed file refers to a row that did not exist.
      have unused : countedFor w.db b.id = [] := by
        rw [countedFor, List.filter_eq_nil_iff]
        intro f hf assigned
        obtain ⟨c, hc, id, -⟩ := sound.owned f hf b.id (of_decide_eq_true assigned)
        exact get_eq_none_iff.mp known c hc id
      rw [unused]
      exact ⟨rfl, rfl⟩

theorem countedFor_prepare {job : ExportJob} {tree : SourceTree} {directoriesUnchanged : Bool}
    {s : Db} (kept : ∀ f ∈ doneRows s, f.jobId = job.id → f.driveAssignmentId ≠ none →
      tree.sizeOf f.relativePath = some f.sizeBytes) (k : Nat) :
    countedFor (prepareJobStartupAnalysis s job tree directoriesUnchanged).1 k = countedFor s k := by
  rcases @doneRows_prepare s job tree directoriesUnchanged with ⟨same, -⟩ | scanned
  · exact countedFor_congr same k
  · have assignment : ∀ f, (resized job.id tree.files f).driveAssignmentId = f.driveAssignmentId := by
      intro f
      rw [resized]
      split <;> rfl
    have untouched : ∀ f ∈ doneRows s, f.driveAssignmentId = some k →
        resized job.id tree.files f = f := by
      intro f hf assigned
      apply resized_of_kept
      intro mine n listed
      rw [kept f hf mine (by simp [assigned])] at listed
      exact (Option.some.inj listed).symm
    rw [countedFor, scanned, List.filter_filter, countedFor]
    refine (filter_map_eq (fun f hf => ?_) fun f hf assigned => ?_).trans (List.map_id _)
    · rw [assignment]
      by_cases assigned : f.driveAssignmentId = some k
      · rw [untouched f hf assigned]
        by_cases mine : f.jobId = job.id
        · simp [assigned, SourceTree.mem_paths_of_sizeOf (kept f hf mine (by simp [assigned]))]
        · simp [mine]
      · simp [assigned]
    · exact untouched f hf (of_decide_eq_true assigned)

theorem countedFor_verifyFiles {s : Db} {jobId now : Nat} {read : ExportFile → Except String Bytes}
    (kept : ∀ f ∈ doneRows s, f.jobId = jobId → f.driveAssignmentId ≠ none →
      matchesChecksum sha256 f (read f) = true) (k : Nat) :
    countedFor (verifyFiles sha256 s jobId now read) k = countedFor s k := by
  rw [countedFor, doneRows_verifyFiles, List.filter_filter, countedFor]
  apply List.filter_congr
  intro f hf
  by_cases assigned : f.driveAssignmentId = some k
  · by_cases mine : f.jobId = jobId
    · simp [assigned, kept f hf mine (by simp [assigned])]
    · simp [mine]
  · simp [assigned]

/-- A copy adds its file to those of the active assignment. -/
theorem countedFor_copied {job : ExportJob} {f : ExportFile} {content : Bytes} (hf : f ∈ w.db.files)
    (open_ : f.status ≠ .done) (k : Nat) :
    (countedFor (w.copyFile sha256 job f (.done content)).db k).Perm
      (if activeAssignmentId w.db job.id = some k then
        copiedFile sha256 (activeAssignmentId w.db job.id) (.done content) f :: countedFor w.db k
      else countedFor w.db k) := by
  have perm := (@doneRows_copied sha256 job w f content hf open_).filter fun g =>
    g.driveAssignmentId = some k
  rw [List.filter_cons] at perm
  simp only [decide_eq_true_eq] at perm
  exact perm

theorem CountersAgree.copied {job : ExportJob} {f : ExportFile} {content : Bytes}
    (h : CountersAgree w) (hf : f ∈ w.db.files) (open_ : f.status ≠ .done)
    (kept : activeAssignmentId w.db job.id ≠ none → content.length = f.sizeBytes) :
    CountersAgree (w.copyFile sha256 job f (.done content)) := by
  intro a ha
  rw [(JobRowsKept.copyFile sha256 w job f (.done content)).assignments] at ha
  obtain ⟨count, bytes⟩ := h a ha
  have perm := @countedFor_copied sha256 w job f content hf open_ a.id
  rw [perm.length_eq, (perm.map ExportFile.sizeBytes).sum_nat]
  change increase (activeAssignmentId w.db job.id) 1 w.fileCount a.id = _ ∧
    increase (activeAssignmentId w.db job.id) content.length w.copiedBytes a.id = _
  rw [increase, increase]
  by_cases active : activeAssignmentId w.db job.id = some a.id
  · rw [if_pos active, if_pos active, if_pos active]
    have size : content.length = f.sizeBytes := kept (by simp [active])
    constructor
    · rw [List.length_cons, count]
    · rw [List.map_cons, List.sum_cons, bytes, size, Nat.add_comm]
      rfl
  · rw [if_neg active, if_neg active, if_neg active]
    exact ⟨count, bytes⟩

theorem CountersAgree.copyFile {jobId fileId : Nat} {job : ExportJob} {f : ExportFile}
    {outcome : CopyOutcome} (h : CountersAgree w)
    (attempt : attempts w.db jobId fileId = some (job, f))
    (kept : ∀ content, outcome = .done content → activeAssignmentId w.db job.id ≠ none →
      content.length = f.sizeBytes) :
    CountersAgree (w.copyFile sha256 job f outcome) := by
  obtain ⟨-, hfile, -, open_, -⟩ := attempts_eq_some attempt
  have hf : f ∈ w.db.files := mem_of_get hfile
  have same : (∀ content, outcome ≠ .done content) → ∀ k,
      countedFor (w.copyFile sha256 job f outcome).db k = countedFor w.db k := fun failed =>
    countedFor_congr (doneRows_not_copied hf open_ failed)
  cases outcome with
  | done content => exact h.copied hf open_ (kept content rfl)
  | retrying attempt left => exact h.frame rfl (same fun _ => nofun)
  | timeout errorMessage left => exact h.frame rfl (same fun _ => nofun)
  | error errorMessage left => exact h.frame rfl (same fun _ => nofun)

/-- One action that meets the condition. -/
theorem CountersAgree.step {a : LedgerAction} (h : CountersAgree w) (sound : LedgerSound w.db)
    (kept : CountersKept sha256 w a) : CountersAgree (ledgerStep cfg sha256 w a) := by
  have move := ledgerMove_step cfg sha256 w a
  generalize ledgerStep cfg sha256 w a = v at move
  cases move with
  | @workflow a spares => exact h.workflow sound spares
  | idle => exact h
  | prepare found =>
      exact h.frame (JobRowsKept.prepare w.db _ _ _).assignments (countedFor_prepare kept)
  | @copyFile fileId job f outcome attempt =>
      apply h.copyFile attempt
      intro content done active
      subst done
      exact kept (job, f) attempt active
  | verifyFiles verifying => exact h.frame rfl (countedFor_verifyFiles (kept verifying))

end Steps

/-- In a run without verification failures, lost or changed files the counters
agree with the completed files in every state without a copy run. -/
theorem countersAgree_of_kept {cfg : Settings} {sha256 : Bytes → Str} {w : Ledger}
    (initial : Initial w.db) {actions : List LedgerAction}
    (kept : Along (ledgerStep cfg sha256) (CountersKept sha256) w actions) :
    Always (ledgerStep cfg sha256) (fun w => Quiescent w.db → CountersAgree w) w actions := by
  have start : LedgerSound w.db ∧ CountersAgree w :=
    ⟨.of_initial initial, fun a ha => absurd ha (initial.noAssignments a)⟩
  have always : Always (ledgerStep cfg sha256) (fun w => LedgerSound w.db ∧ CountersAgree w) w actions :=
    always_of_along (fun w a h meets => ⟨h.1.step cfg sha256 a, h.2.step h.1 meets⟩) start kept
  exact always.mono fun w h _ => h.2

/-- The failed file is copied, the job completes, and its files are verified with
what is read back from the drive. -/
def verifiedWith (read : ExportFile → Except String Bytes) : List LedgerAction :=
  retriedAt 1 ++ [.workflow ⟨6, .enterRunning 1⟩ rfl,
    .copyFile 1 2 (.done [98]),
    .workflow ⟨7, .finalizeRun 1 false false⟩ rfl,
    .workflow ⟨8, .verifyJob 1⟩ rfl,
    .verifyFiles 1 9 read]

/-- Both files read back as they were copied. -/
def intactRead (f : ExportFile) : Except String Bytes := .ok (if f.id = 1 then [97] else [98])

theorem countersAgree_verified :
    Initial labLedger.db ∧
      (exec labLedgerStep labLedger (verifiedWith intactRead)).db.jobs.rows.map ExportJob.status =
        [.completed] ∧
      Always labLedgerStep (fun w => Quiescent w.db → CountersAgree w) labLedger
        (verifiedWith intactRead) := by
  have kept : Along labLedgerStep (CountersKept sampleSha256) labLedger (verifiedWith intactRead) := by
    decide
  exact ⟨Lab.start_initial, by decide, countersAgree_of_kept Lab.start_initial kept⟩

/-- A file that cannot be read back is still counted after its verification. -/
theorem counter_keeps_failed_file :
    Initial labLedger.db ∧
      Quiescent (exec labLedgerStep labLedger (verifiedWith fun _ => .error "I/O failure")).db ∧
      ¬ CountersAgree (exec labLedgerStep labLedger (verifiedWith fun _ => .error "I/O failure")) := by
  refine ⟨Lab.start_initial, ?_⟩
  decide

end Ecube
