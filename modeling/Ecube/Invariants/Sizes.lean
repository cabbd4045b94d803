import Ecube.Invariants.Ledger

/-!
Recorded sizes of completed files.

The size of a row comes from the scan of the source, its checksum from the copy.
A copy does not compare the two, and a later scan gives a completed row the new
size of the source file while the checksum stays.

* `sizesTrue_iff_kept`: in a run the size of every completed file is the number
  of bytes that its checksum was taken of, and a prepared job starts with the sum
  of these, exactly when each copy reads as many bytes as were listed and no scan
  finds a completed file with another size.
* `size_renewed_by_restart`: a file that grows after it was copied.
-/

namespace Ecube

open Table Transition

/-- The sizes of completed files are the numbers of bytes copied, and right after
a preparation the job counts these bytes. -/
def SizesTrue (w : Ledger) : Prop :=
  (∀ f ∈ doneRows w.db, f.sizeBytes = w.copied f.id) ∧
    ∀ k ∈ w.prepared, ∀ j ∈ w.db.jobs.get k, j.copiedBytes =
      (((doneRows w.db).filter fun f => f.jobId = k).map fun f => w.copied f.id).sum

instance (w : Ledger) : Decidable (SizesTrue w) :=
  inferInstanceAs (Decidable ((∀ f ∈ doneRows w.db, f.sizeBytes = w.copied f.id) ∧
    ∀ k ∈ w.prepared, ∀ j ∈ w.db.jobs.get k, j.copiedBytes =
      (((doneRows w.db).filter fun f => f.jobId = k).map fun f => w.copied f.id).sum))

/-- A scan lists completed files with the size they have or not at all, and a
copy reads as many bytes as were listed. -/
def SizesKept (w : Ledger) : LedgerAction → Prop
  | .workflow _ _ | .verifyFiles _ _ _ => True
  | .prepare jobId tree _ =>
      ∀ f ∈ doneRows w.db, f.jobId = jobId → ∀ n ∈ tree.sizeOf f.relativePath, n = f.sizeBytes
  | .copyFile jobId fileId outcome =>
      ∀ pair ∈ attempts w.db jobId fileId,
        match outcome with
        | .done content => content.length = pair.2.sizeBytes
        | .retrying _ _ | .timeout _ _ | .error _ _ => True

instance (w : Ledger) (a : LedgerAction) : Decidable (SizesKept w a) :=
  match a with
  | .workflow _ _ | .verifyFiles _ _ _ => .isTrue trivial
  | .prepare jobId tree _ => inferInstanceAs (Decidable (
      ∀ f ∈ doneRows w.db, f.jobId = jobId → ∀ n ∈ tree.sizeOf f.relativePath, n = f.sizeBytes))
  | .copyFile jobId fileId (.done content) => inferInstanceAs (Decidable (
      ∀ pair ∈ attempts w.db jobId fileId, content.length = pair.2.sizeBytes))
  | .copyFile _ _ (.retrying _ _) | .copyFile _ _ (.timeout _ _) | .copyFile _ _ (.error _ _) =>
      .isTrue fun _ _ => trivial

section Steps

variable {cfg : Settings} {sha256 : Bytes → Str} {w : Ledger}

/-- Sizes stay true when no completed row is new. -/
theorem SizesTrue.shrink {db : Db} {fileCount copiedBytes : Nat → Nat} (h : SizesTrue w)
    (sub : ∀ f ∈ doneRows db, f ∈ doneRows w.db) :
    SizesTrue { w with db := db, fileCount := fileCount, copiedBytes := copiedBytes, prepared := none } := by
  refine ⟨fun f hf => h.1 f (sub f hf), fun k hk => ?_⟩
  cases hk

/-- No completed row is new after a preparation that finds the known sizes. -/
theorem doneRows_prepare_subset {job : ExportJob} {tree : SourceTree} {directoriesUnchanged : Bool}
    (kept : ∀ f ∈ doneRows w.db, f.jobId = job.id → ∀ n ∈ tree.sizeOf f.relativePath, n = f.sizeBytes) :
    ∀ f ∈ doneRows (prepareJobStartupAnalysis w.db job tree directoriesUnchanged).1,
      f ∈ doneRows w.db := by
  intro f hf
  rcases @doneRows_prepare w.db job tree directoriesUnchanged with ⟨same, -⟩ | scanned
  · exact same ▸ hf
  · rw [scanned] at hf
    obtain ⟨f₀, hf₀, rfl⟩ := List.mem_map.mp (List.mem_filter.mp hf).1
    rw [resized_of_kept (kept f₀ hf₀)]
    exact hf₀

/-- A prepared job counts the sizes of its completed files. -/
theorem copiedBytes_prepare {s : Db} {job j : ExportJob} {tree : SourceTree}
    {directoriesUnchanged : Bool}
    (ready : (prepareJobStartupAnalysis s job tree directoriesUnchanged).2 = true)
    (found : (prepareJobStartupAnalysis s job tree directoriesUnchanged).1.jobs.get job.id = some j) :
    j.copiedBytes =
      (((doneRows (prepareJobStartupAnalysis s job tree directoriesUnchanged).1).filter fun f =>
        f.jobId = job.id).map ExportFile.sizeBytes).sum := by
  unfold prepareJobStartupAnalysis at ready found ⊢
  dsimp only at ready found ⊢
  split at ready
  · cases ready
  · rename_i counted
    rw [if_neg counted] at found ⊢
    rw [prepared, Db.get_modifyJob] at found
    obtain ⟨j₀, -, rfl⟩ := Option.map_eq_some_iff.mp found
    change doneBytes _ job.id = _
    rw [doneBytes, jobFiles, List.filter_comm]
    rfl

theorem SizesTrue.prepare {job : ExportJob} {tree : SourceTree} {directoriesUnchanged : Bool}
    (h : SizesTrue w)
    (kept : ∀ f ∈ doneRows w.db, f.jobId = job.id → ∀ n ∈ tree.sizeOf f.relativePath, n = f.sizeBytes) :
    SizesTrue { w with
      db := (prepareJobStartupAnalysis w.db job tree directoriesUnchanged).1
      prepared := if (prepareJobStartupAnalysis w.db job tree directoriesUnchanged).2 then some job.id
        else none } := by
  have sub := @doneRows_prepare_subset w job tree directoriesUnchanged kept
  refine ⟨fun f hf => h.1 f (sub f hf), fun k hk j found => ?_⟩
  dsimp only at hk found ⊢
  split at hk
  · rename_i ready
    cases hk
    rw [copiedBytes_prepare ready found]
    congr 1
    refine List.map_congr_left fun f hf => h.1 f (sub f (List.mem_filter.mp hf).1)
  · cases hk

theorem SizesTrue.copyFile {jobId fileId : Nat} {job : ExportJob} {f : ExportFile}
    {outcome : CopyOutcome} (h : SizesTrue w)
    (attempt : attempts w.db jobId fileId = some (job, f))
    (kept : ∀ content, outcome = .done content → content.length = f.sizeBytes) :
    SizesTrue (w.copyFile sha256 job f outcome) := by
  obtain ⟨-, hfile, -, open_, -⟩ := attempts_eq_some attempt
  have hf : f ∈ w.db.files := mem_of_get hfile
  by_cases copied : ∃ content, outcome = .done content
  · obtain ⟨content, rfl⟩ := copied
    refine ⟨fun g hg => ?_, fun k hk => by cases hk⟩
    change g.sizeBytes = Function.update w.copied f.id content.length g.id
    rcases List.mem_cons.mp ((doneRows_copied hf open_).mem_iff.mp hg) with rfl | hg
    · rw [copiedFile_id, Function.update_self, kept content rfl]
      rfl
    · have other : g.id ≠ f.id := by
        intro same
        obtain ⟨mem, done⟩ := mem_doneRows.mp hg
        rw [eq_of_id_eq mem hf same] at done
        exact open_ done
      rw [Function.update_of_ne other]
      exact h.1 g hg
  · have same := @doneRows_not_copied sha256 job w f outcome hf open_
      fun content done => copied ⟨content, done⟩
    cases outcome with
    | done content => exact absurd ⟨content, rfl⟩ copied
    | retrying attempt left => exact h.shrink fun g hg => same ▸ hg
    | timeout errorMessage left => exact h.shrink fun g hg => same ▸ hg
    | error errorMessage left => exact h.shrink fun g hg => same ▸ hg

/-- One action that meets the condition. -/
theorem SizesTrue.step {a : LedgerAction} (h : SizesTrue w) (sound : LedgerSound w.db)
    (kept : SizesKept w a) : SizesTrue (ledgerStep cfg sha256 w a) := by
  have move := ledgerMove_step cfg sha256 w a
  generalize ledgerStep cfg sha256 w a = v at move
  cases move with
  | @workflow a spares =>
      have undisturbed : Undisturbed w.db (Ecube.step cfg w.db a) :=
        undisturbed_step sound.started spares
      exact h.shrink fun f hf => undisturbed.done ▸ hf
  | idle => exact h.shrink fun f hf => hf
  | prepare found => exact h.prepare kept
  | @copyFile fileId job f outcome attempt =>
      apply h.copyFile attempt
      intro content done
      subst done
      exact kept (job, f) attempt
  | verifyFiles verifying =>
      apply h.shrink
      intro f hf
      rw [doneRows_verifyFiles] at hf
      exact (List.mem_filter.mp hf).1

/-- One action that does not. -/
theorem not_sizesTrue_step {a : LedgerAction} (h : SizesTrue w) (sound : LedgerSound w.db)
    (broken : ¬ SizesKept w a) : ¬ SizesTrue (ledgerStep cfg sha256 w a) := by
  intro after
  cases a with
  | workflow a spares => exact broken trivial
  | prepare jobId tree directoriesUnchanged =>
      apply broken
      intro f hf mine n listed
      obtain ⟨job, hj, id, -⟩ := sound.started f hf
      have found : w.db.jobs.get jobId = some job := get_eq_some_iff.mpr ⟨hj, id.trans mine⟩
      obtain rfl : job.id = jobId := id_of_get found
      rw [ledgerStep_prepare found] at after
      have sizes : ∀ g ∈ doneRows (prepareJobStartupAnalysis w.db job tree directoriesUnchanged).1,
          g.sizeBytes = w.copied g.id := after.1
      rcases @doneRows_prepare w.db job tree directoriesUnchanged with ⟨-, current⟩ | scanned
      · rw [current f hf mine] at listed
        exact (Option.some.inj listed).symm
      · -- The row is there with the listed size.
        have row : resized job.id tree.files f = { f with sizeBytes := n } := by
          unfold resized
          rw [if_pos mine]
          change { f with sizeBytes := (tree.sizeOf f.relativePath).getD f.sizeBytes } = _
          rw [listed, Option.getD_some]
        have there : f.relativePath ∈ tree.paths := SourceTree.mem_paths_of_sizeOf listed
        have size := sizes { f with sizeBytes := n } (by
          rw [scanned]
          refine List.mem_filter.mpr ⟨List.mem_map.mpr ⟨f, hf, row⟩, ?_⟩
          simp [there])
        exact size.trans (h.1 f hf).symm
  | copyFile jobId fileId outcome =>
      apply broken
      intro pair attempt
      obtain ⟨job, f⟩ := pair
      obtain ⟨-, hfile, -, open_, -⟩ := attempts_eq_some attempt
      cases outcome with
      | done content =>
          rw [ledgerStep_copyFile attempt] at after
          have row := (@doneRows_copied sha256 job w f content (mem_of_get hfile) open_).mem_iff.mpr
            List.mem_cons_self
          have size := after.1 _ row
          change f.sizeBytes = Function.update w.copied f.id content.length _ at size
          rw [copiedFile_id, Function.update_self] at size
          exact size.symm
      | retrying attempt left => trivial
      | timeout errorMessage left => trivial
      | error errorMessage left => trivial
  | verifyFiles jobId now read => exact broken trivial

end Steps

/-- In a run recorded sizes are true in every state exactly when no copy and no
scan breaks them. -/
theorem sizesTrue_iff_kept {cfg : Settings} {sha256 : Bytes → Str} {w : Ledger}
    (initial : Initial w.db) (actions : List LedgerAction) :
    Always (ledgerStep cfg sha256) SizesTrue w actions ↔
      Along (ledgerStep cfg sha256) SizesKept w actions := by
  have start : LedgerSound w.db ∧ SizesTrue w :=
    ⟨.of_initial initial, fun f hf => absurd (mem_doneRows.mp hf).1 (initial.noFiles f),
      fun k _ j found => absurd (mem_of_get found) (initial.noJobs j)⟩
  refine @always_iff_along _ _ _ _ (fun w => LedgerSound w.db ∧ SizesTrue w) _ (fun _ h => h.2)
    (fun w a h kept => ?_) (fun w a h broken => ?_) _ _ start
  · exact ⟨h.1.step cfg sha256 a, h.2.step h.1 kept⟩
  · exact not_sizesTrue_step h.2 h.1 broken

/-- The files keep their sizes. -/
theorem sizesTrue_retried :
    Initial labLedger.db ∧ Always labLedgerStep SizesTrue labLedger (retriedAt 1) := by
  have kept : Along labLedgerStep SizesKept labLedger (retriedAt 1) := by decide
  exact ⟨Lab.start_initial, (sizesTrue_iff_kept Lab.start_initial (retriedAt 1)).mpr kept⟩

/-- The copied file has grown by the time of the retry. -/
theorem size_renewed_by_restart :
    Initial labLedger.db ∧ ¬ SizesTrue (exec labLedgerStep labLedger (retriedAt 2)) := by
  refine ⟨Lab.start_initial, ?_⟩
  decide

end Ecube
