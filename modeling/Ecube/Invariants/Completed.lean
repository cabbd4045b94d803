import Ecube.Invariants.Listing

/-!
Completed files outside copying, preparation and verification.

A completed file belongs to a job that has been started, and only pending jobs
are deleted or lose their files to a new source path. So the other actions of
the workflow leave the rows of completed files exactly as they are
(`undisturbed_step`). A preparation that scans the source again gives a completed
file the size it has now, and removes its row when the file is gone
(`doneRows_scanned`).
-/

namespace Ecube

open Table

def doneRows (s : Db) : List ExportFile := s.files.rows.filter fun f => f.status = .done

theorem mem_doneRows {s : Db} {f : ExportFile} :
    f ∈ doneRows s ↔ f ∈ s.files ∧ f.status = .done := by
  rw [doneRows, List.mem_filter, decide_eq_true_iff]
  rfl

/-- The jobs of completed files have left their pending state. -/
def Started (s : Db) : Prop :=
  ∀ f ∈ doneRows s, ∃ j ∈ s.jobs, j.id = f.jobId ∧ j.status ≠ .pending

/-- Started jobs are still there and started. -/
def StartedKept (s t : Db) : Prop :=
  ∀ j ∈ s.jobs, j.status ≠ .pending → ∃ j' ∈ t.jobs, j'.id = j.id ∧ j'.status ≠ .pending

theorem StartedKept.refl (s : Db) : StartedKept s s :=
  fun j hj started => ⟨j, hj, rfl, started⟩

theorem StartedKept.modifyJob {s t : Db} (h : StartedKept s t) (k : Nat) (f : ExportJob → ExportJob)
    (key : ∀ r, (f r).id = r.id) (status : ∀ r, r.status ≠ .pending → (f r).status ≠ .pending) :
    StartedKept s (t.modifyJob k f key) := by
  intro j hj started
  obtain ⟨j', hj', id, open_⟩ := h j hj started
  by_cases same : j'.id = k
  · exact ⟨f j', Db.mem_modifyJob.mpr (.inr ⟨j', hj', same, rfl⟩), (key j').trans id, status j' open_⟩
  · exact ⟨j', Db.mem_modifyJob.mpr (.inl ⟨hj', same⟩), id, open_⟩

/-- The rows of completed files are the same, and started jobs are still there. -/
structure Undisturbed (s t : Db) : Prop where
  done : doneRows t = doneRows s
  started : StartedKept s t

/-- The events that neither list nor record files. -/
def sparesFiles : Event → Bool
  | .listFile _ _ _ | .recordFile _ _ _ _ => false
  | _ => true

theorem doneRows_update {s : Db} {p : ExportFile → Bool} {g : ExportFile → ExportFile}
    {key : ∀ r, (g r).id = r.id} (before : ∀ r ∈ s.files, p r = true → r.status ≠ .done)
    (after : ∀ r ∈ s.files, p r = true → (g r).status ≠ .done) :
    doneRows (s.updateFiles p g key) = doneRows s := by
  refine (filter_map_eq (fun r hr => ?_) fun r hr done => ?_).trans (List.map_id _)
  · cases meets : p r with
    | true => simp [before r hr meets, after r hr meets]
    | false => simp
  · cases meets : p r with
    | true => exact absurd (of_decide_eq_true done) (before r hr meets)
    | false => simp

theorem doneRows_resetNonDone (s : Db) (k : Nat) :
    doneRows (s.resetNonDoneForRestart k) = doneRows s := by
  unfold Db.resetNonDoneForRestart
  refine doneRows_update (fun r _ hr => (of_decide_eq_true hr).2) fun r _ _ => ?_
  simp [Db.backToPending]

/-- A file that becomes completed joins the completed rows. -/
theorem doneRows_record {s : Db} {f : ExportFile} {g : ExportFile → ExportFile}
    {key : ∀ r, (g r).id = r.id} (hf : f ∈ s.files) (before : f.status ≠ .done)
    (after : (g f).status = .done) :
    (doneRows (s.updateFiles (fun r => r.id = f.id) g key)).Perm (g f :: doneRows s) := by
  change ((s.files.rows.map fun r => if decide (r.id = f.id) then g r else r).filter _).Perm _
  rw [doneRows]
  obtain ⟨front, back, split⟩ := List.append_of_mem (show f ∈ s.files.rows from hf)
  have distinct : ((front ++ f :: back).map ExportFile.id).Nodup := split ▸ s.files.nodup
  have others : ∀ r ∈ front ++ back, r.id ≠ f.id := by
    rw [List.map_append, List.map_cons, List.nodup_middle, List.nodup_cons, ← List.map_append]
      at distinct
    exact fun r hr same => distinct.1 (same ▸ List.mem_map_of_mem hr)
  have same : ∀ l : List ExportFile, (∀ r ∈ l, r ∈ front ++ back) →
      l.map (fun r => if decide (r.id = f.id) then g r else r) = l := by
    intro l sub
    refine (List.map_congr_left fun r hr => ?_).trans (List.map_id l)
    simp [others r (sub r hr)]
  rw [split, List.map_append, List.map_cons, same front fun r hr => List.mem_append_left _ hr,
    same back fun r hr => List.mem_append_right _ hr, List.filter_append, List.filter_append]
  simp only [decide_true, if_true, List.filter_cons, after, before, decide_false]
  exact List.perm_middle

theorem doneRows_delete {s : Db} {p : ExportFile → Bool}
    (spared : ∀ r ∈ doneRows s, p r = false) :
    doneRows { s with files := s.files.delete p } = doneRows s := by
  change (s.files.rows.filter fun r => !p r).filter _ = _
  rw [doneRows, List.filter_filter, List.filter_congr]
  intro r hr
  by_cases done : r.status = .done
  · simp [done, spared r (mem_doneRows.mpr ⟨hr, done⟩)]
  · simp [done]

namespace Undisturbed

variable {s t : Db}

theorem refl (s : Db) : Undisturbed s s := ⟨rfl, .refl s⟩

/-- Writes to other tables. -/
theorem frame (h : Undisturbed s t) {u : Db} (files : u.files = t.files) (jobs : u.jobs = t.jobs) :
    Undisturbed s u where
  done := by
    rw [doneRows, files]
    exact h.done
  started := by
    rw [StartedKept, jobs]
    exact h.started

theorem modifyJob (h : Undisturbed s t) (k : Nat) (f : ExportJob → ExportJob)
    (key : ∀ r, (f r).id = r.id) (status : ∀ r, r.status ≠ .pending → (f r).status ≠ .pending) :
    Undisturbed s (t.modifyJob k f key) where
  done := h.done
  started := h.started.modifyJob k f key status

theorem updateFiles (h : Undisturbed s t) {p : ExportFile → Bool} {g : ExportFile → ExportFile}
    {key : ∀ r, (g r).id = r.id} (before : ∀ r, p r = true → r.status ≠ .done)
    (after : ∀ r, (g r).status ≠ .done) : Undisturbed s (t.updateFiles p g key) where
  done := (doneRows_update (fun r _ => before r) fun r _ _ => after r).trans h.done
  started := h.started

theorem resetFailed (h : Undisturbed s t) (k : Nat) : Undisturbed s (t.resetFailedForRetry k) := by
  refine h.updateFiles (fun r hr => ?_) fun r => by simp [Db.backToPending]
  have failed := (of_decide_eq_true hr).2
  rcases failed with failed | failed <;> simp [failed]

theorem resetTargetFull (h : Undisturbed s t) (k : Nat) :
    Undisturbed s (t.resetTargetFullFailedForRetry k) := by
  refine h.updateFiles (fun r hr => ?_) fun r => by simp [Db.backToPending]
  simp [(of_decide_eq_true hr).2.1]

/-- The files of a pending job are deleted. -/
theorem deleteFiles (h : Undisturbed s t) (inv : Started s) {k : Nat} {job : ExportJob}
    (found : s.jobs.get k = some job) (pending : job.status = .pending) :
    Undisturbed s { t with files := t.files.delete fun f => f.jobId = k } where
  done := by
    refine (doneRows_delete fun r hr => ?_).trans h.done
    rw [h.done] at hr
    obtain ⟨j, hj, id, started⟩ := inv r hr
    by_contra mine
    rw [Bool.not_eq_false, decide_eq_true_iff] at mine
    rw [eq_of_get found hj (id.trans mine)] at started
    exact started pending
  started := h.started

theorem keepsFiles (inv : Started s) {a : Action} (spares : sparesFiles a.event = true) :
    KeepsFiles s a (Undisturbed s) where
  start := .refl s
  frame _ _ ht files jobs := ht.frame files jobs
  insertJob jobs old := ⟨rfl, fun j hj started => ⟨j, old j hj, rfl, started⟩⟩
  modifyJob _ k f key ht status := ht.modifyJob k f key status
  resetFailed _ k ht := ht.resetFailed k
  resetTargetFull _ k ht := ht.resetTargetFull k
  dropFiles _ _ _ ht found pending := ht.deleteFiles inv found pending
  dropJob t k job ht found pending := by
    refine ⟨ht.done, fun j hj started => ?_⟩
    obtain ⟨j', hj', id, open_⟩ := ht.started j hj started
    refine ⟨j', mem_delete.mpr ⟨hj', ?_⟩, id, open_⟩
    rw [decide_eq_false_iff_not]
    intro same
    rw [eq_of_get found hj (id.symm.trans same)] at started
    exact started pending
  listFile _ _ _ event := by
    rw [event] at spares
    cases spares
  recordFile _ _ _ _ event := by
    rw [event] at spares
    cases spares

end Undisturbed

/-- One action that does not list or record files. -/
theorem undisturbed_step {cfg : Settings} {s : Db} {a : Action} (inv : Started s)
    (spares : sparesFiles a.event = true) : Undisturbed s (step cfg s a) :=
  (Undisturbed.keepsFiles inv spares).step

theorem Undisturbed.started_of {s t : Db} (h : Undisturbed s t) (inv : Started s) : Started t := by
  intro f hf
  rw [h.done] at hf
  obtain ⟨j, hj, id, started⟩ := inv f hf
  obtain ⟨j', hj', id', started'⟩ := h.started j hj started
  exact ⟨j', hj', id'.trans id, started'⟩

/-! ### A new scan -/

/-- A row with the size that is listed for its path. -/
def resized (jobId : Nat) (files : List (Str × Nat)) (f : ExportFile) : ExportFile :=
  if f.jobId = jobId then
    { f with sizeBytes := ((files.find? fun e => e.1 = f.relativePath).map Prod.snd).getD f.sizeBytes }
  else f

theorem resized_singleton (jobId : Nat) (path : Str) (sizeBytes : Nat) (f : ExportFile) :
    resized jobId [(path, sizeBytes)] f =
      if f.jobId = jobId ∧ f.relativePath = path then { f with sizeBytes := sizeBytes } else f := by
  unfold resized
  by_cases mine : f.jobId = jobId
  · subst mine
    by_cases here : path = f.relativePath
    · simp [here]
    · simp [here, Ne.symm here]
  · simp [mine]

theorem doneRows_persistFile (s : Db) (jobId : Nat) (path : Str) (sizeBytes : Nat) :
    doneRows (persistFile s jobId path sizeBytes) =
      (doneRows s).map (resized jobId [(path, sizeBytes)]) := by
  rw [persistFile]
  split
  · let g : ExportFile → ExportFile := fun r =>
      if decide (r.jobId = jobId ∧ r.relativePath = path) then
        { (if r.status = .done then r else Db.backToPending r) with sizeBytes := sizeBytes }
      else r
    have status : ∀ r, (g r).status = .done ↔ r.status = .done := by
      intro r
      dsimp only [g]
      split_ifs with _ done
      · rfl
      · simp [Db.backToPending, done]
      · rfl
    refine @filter_map_eq _ _ s.files.rows g _ _ _ (fun r _ => ?_) fun r _ hr => ?_
    · simp only [status]
    · have done := of_decide_eq_true hr
      rw [resized_singleton]
      simp only [g, done, if_true, decide_eq_true_eq]
  · rename_i unknown
    change (s.files.rows ++ [_]).filter _ = _
    rw [List.filter_append, doneRows]
    refine (List.append_nil _).trans ((List.map_id _).symm.trans (List.map_congr_left fun r hr => ?_))
    have other := any_eq_false_iff.mp (Bool.not_eq_true _ ▸ unknown) r (List.mem_filter.mp hr).1
    rw [resized_singleton, if_neg (of_decide_eq_false other)]
    rfl

theorem resized_cons (jobId : Nat) (e : Str × Nat) (rest : List (Str × Nat))
    (fresh : e.1 ∉ rest.map Prod.fst) (f : ExportFile) :
    resized jobId rest (resized jobId [e] f) = resized jobId (e :: rest) f := by
  by_cases mine : f.jobId = jobId
  · by_cases here : e.1 = f.relativePath
    · -- The path is not listed again.
      have unlisted : (rest.find? fun x => decide (x.1 = f.relativePath)) = none := by
        rw [List.find?_eq_none]
        intro x hx same
        exact fresh (List.mem_map.mpr ⟨x, hx, (of_decide_eq_true same).trans here.symm⟩)
      simp [resized, mine, here, unlisted]
    · simp [resized, mine, here]
  · simp [resized, mine]

/-- A listed size that agrees leaves the row. -/
theorem resized_of_kept {jobId : Nat} {tree : SourceTree} {f : ExportFile}
    (kept : f.jobId = jobId → ∀ n ∈ tree.sizeOf f.relativePath, n = f.sizeBytes) :
    resized jobId tree.files f = f := by
  unfold resized
  split
  · rename_i mine
    change { f with sizeBytes := (tree.sizeOf f.relativePath).getD f.sizeBytes } = f
    cases listed : tree.sizeOf f.relativePath with
    | none => rfl
    | some n => rw [Option.getD_some, kept mine n listed]
  · rfl

theorem doneRows_listFiles (jobId : Nat) (files : List (Str × Nat))
    (distinct : (files.map Prod.fst).Nodup) (s : Db) :
    doneRows (listFiles s jobId files) = (doneRows s).map (resized jobId files) := by
  induction files generalizing s with
  | nil =>
      have same : resized jobId [] = id := by
        funext f
        simp [resized]
      rw [same, List.map_id]
      rfl
  | cons e rest ih =>
      obtain ⟨fresh, distinct⟩ := List.nodup_cons.mp distinct
      change doneRows (listFiles (persistFile s jobId e.1 e.2) jobId rest) = _
      rw [ih distinct, doneRows_persistFile, List.map_map]
      apply List.map_congr_left
      intro f _
      exact resized_cons jobId e rest fresh f

/-- The completed rows after a scan: those of listed files, with the listed size. -/
theorem doneRows_scanned (s : Db) (jobId : Nat) (tree : SourceTree) :
    doneRows (persistStartupAnalysisCache s jobId tree) =
      ((doneRows s).map (resized jobId tree.files)).filter fun f =>
        !decide (f.jobId = jobId ∧ f.relativePath ∉ tree.paths) := by
  change (((listFiles s jobId tree.files).files.rows.filter _).filter _) = _
  rw [List.filter_comm]
  change (doneRows (listFiles s jobId tree.files)).filter _ = _
  rw [doneRows_listFiles jobId tree.files tree.distinct]

end Ecube
