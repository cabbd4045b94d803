import Ecube.Interleaving.Scheduling

/-!
A copy phase that ends because the target is full.

A poll that finds a file failed with "Target storage is full", and otherwise only
files that can wait, ends the copy phase, and the decision after a full target is
to move the job or to fail it. But the run looks at unfinished files first: if a
retry was deferred, it makes the file pending and copies on to the same drive.
The decision is also not reached after a timeout, and finds itself not concerned
when another file has failed for another reason.

* `targetFull_undecided`: two files fail on the full drive, one of them is still
  to be retried, and the run goes on with the same assignment.
* `targetFull_decided_iff`: the decision is made exactly when every file is done,
  pending or failed on the full target.
-/

namespace Ecube

open Table Transition

/-- The points between the end of the copy phase and the decision. -/
def decisionPoints : List RunPc := [.settling, .lingering, .counting, .resolving]

/-- At most `n` further steps to the decision. -/
def towardsDecision (jobId : Nat) (input : RunInput) : Nat → Db × CopyRun → Db × CopyRun
  | 0, v => v
  | n + 1, v =>
      if v.2.pc ∈ decisionPoints then towardsDecision jobId input n (v.2.step v.1 jobId input) else v

/-- What the run does after a copy phase, until it opens another round or is done
with the decision. -/
def afterPass (jobId : Nat) (w : Execution) (input : RunInput) : Db × CopyRun :=
  towardsDecision jobId input decisionPoints.length (w.db, w.run)

def capacityExhausted : String :=
  "Destination capacity exhausted and no assigned drive can continue this copy"

/-- The run continues on a different assignment, or has failed the job. -/
def Decided (jobId : Nat) (s : Db) (v : Db × CopyRun) : Prop :=
  (v.2.pc = .preparing ∧ ∃ a ∈ s.getActiveForJob jobId, ∃ b ∈ v.1.getActiveForJob jobId,
    b.id ≠ a.id) ∨
  ∃ job ∈ v.1.jobs.get jobId, job.status = .failed ∧ job.failureReason = some capacityExhausted

instance (jobId : Nat) (s : Db) (v : Db × CopyRun) : Decidable (Decided jobId s v) :=
  inferInstanceAs (Decidable ((v.2.pc = .preparing ∧
    ∃ a ∈ s.getActiveForJob jobId, ∃ b ∈ v.1.getActiveForJob jobId, b.id ≠ a.id) ∨
    ∃ job ∈ v.1.jobs.get jobId, job.status = .failed ∧ job.failureReason = some capacityExhausted))

/-- Every file of the job is done, pending or failed on the full target. -/
def OnlyFull (s : Db) (jobId : Nat) : Prop :=
  ∀ f ∈ s.files, f.jobId = jobId →
    f.status = .done ∨ f.status = .pending ∨ isOverflowRetryableFile f = true

/-! ### The files in flight -/

/-- The keys of the files that are submitted or wait for a retry. -/
def Pool.keys (p : Pool) : List Nat := p.flights.map Flight.fileId ++ p.deferred.map Prod.fst

/-- Each of them once, none beyond the cursor, and none finished. -/
structure FlightInv (w : Execution) : Prop where
  distinct : w.pool.keys.Nodup
  behind : ∀ k ∈ w.pool.keys, k ≤ w.pool.cursor
  unfinished : ∀ f ∈ w.db.files, f.id ∈ w.pool.keys →
    f.status ∈ [FileStatus.pending, .copying, .retrying]

/-- A file of the job has failed on the full target, which is that of its active assignment. -/
structure FullTarget (jobId : Nat) (s : Db) : Prop where
  failed : ∃ f ∈ s.files, f.jobId = jobId ∧ isOverflowRetryableFile f = true
  active : s.getActiveForJob jobId ≠ none

section Flights

variable {jobId : Nat} {w v : Execution}

theorem mem_keys {p : Pool} {k : Nat} :
    k ∈ p.keys ↔ (∃ fl ∈ p.flights, fl.fileId = k) ∨ ∃ e ∈ p.deferred, e.1 = k := by
  rw [Pool.keys, List.mem_append, List.mem_map, List.mem_map]

theorem keys_drop (p : Pool) (k : Nat) :
    (p.drop k).keys = (p.flights.map Flight.fileId).filter (· ≠ k) ++ p.deferred.map Prod.fst := by
  rw [Pool.keys, Pool.drop, List.filter_map]
  rfl

theorem keys_drop_sublist (p : Pool) (k : Nat) : (p.drop k).keys.Sublist p.keys := by
  rw [keys_drop]
  exact List.filter_sublist.append_right _

/-- A pool with fewer keys. -/
theorem FlightInv.sub (inv : FlightInv w) (db : v.db = w.db)
    (sub : v.pool.keys.Sublist w.pool.keys) (cursor : v.pool.cursor = w.pool.cursor) :
    FlightInv v where
  distinct := inv.distinct.sublist sub
  behind k h := by
    rw [cursor]
    exact inv.behind k (sub.subset h)
  unfinished f hf h := by
    rw [db] at hf
    exact inv.unfinished f hf (sub.subset h)

theorem mem_setFile {s : Db} {fileId : Nat} {g : ExportFile → ExportFile}
    (key : ∀ r, (g r).id = r.id) {f : ExportFile} (hf : f ∈ (setFile s fileId g key).files) :
    (f ∈ s.files ∧ f.id ≠ fileId) ∨ ∃ r ∈ s.files, r.id = fileId ∧ f = g r := by
  obtain ⟨r, hr, rfl⟩ := (mem_update key).mp hf
  by_cases same : r.id = fileId
  · rw [if_pos (by simpa using same)]
    exact .inr ⟨r, hr, same, rfl⟩
  · rw [if_neg (by simpa using same)]
    exact .inl ⟨hr, same⟩

/-- A row of a file in flight is written: other rows stay, and this one is
finished only if it is not in flight any more. -/
theorem FlightInv.write (inv : FlightInv w) {fileId : Nat} {g : ExportFile → ExportFile}
    (key : ∀ r, (g r).id = r.id) (db : v.db = setFile w.db fileId g key)
    (distinct : v.pool.keys.Nodup) (sub : ∀ k ∈ v.pool.keys, k ∈ w.pool.keys)
    (cursor : v.pool.cursor = w.pool.cursor)
    (status : ∀ r, fileId ∈ v.pool.keys → (g r).status ∈ [FileStatus.pending, .copying, .retrying]) :
    FlightInv v where
  distinct := distinct
  behind k h := by
    rw [cursor]
    exact inv.behind k (sub k h)
  unfinished f hf h := by
    rw [db] at hf
    rcases mem_setFile key hf with ⟨old, -⟩ | ⟨r, hr, same, rfl⟩
    · exact inv.unfinished f old (sub _ h)
    · rw [key, same] at h
      exact status r h

/-- A file that has failed on the full target is not in flight. -/
theorem FullTarget.write {s t : Db} (full : FullTarget jobId s) {fileId : Nat}
    {g : ExportFile → ExportFile} (key : ∀ r, (g r).id = r.id) (db : t = setFile s fileId g key)
    (unfinished : ∀ f ∈ s.files, f.id = fileId →
      f.status ∈ [FileStatus.pending, .copying, .retrying]) : FullTarget jobId t := by
  subst db
  obtain ⟨f, hf, mine, failed⟩ := full.failed
  have error : f.status = .error := (of_decide_eq_true failed).1
  have other : f.id ≠ fileId := by
    intro same
    have := unfinished f hf same
    rw [error] at this
    simp at this
  refine ⟨⟨f, ?_, mine, failed⟩, full.active⟩
  exact (mem_update key).mpr ⟨f, hf, by simp [other]⟩

theorem flight_eq_some {p : Pool} {fileId : Nat} {begun : Bool} {fl : Flight}
    (h : p.flight fileId begun = some fl) : fl ∈ p.flights ∧ fl.fileId = fileId := by
  have found := List.find?_some h
  exact ⟨List.mem_of_find?_eq_some h, (of_decide_eq_true found).1⟩

theorem key_of_flight {p : Pool} {fl : Flight} (h : fl ∈ p.flights) : fl.fileId ∈ p.keys :=
  mem_keys.mpr (.inl ⟨fl, h, rfl⟩)

/-- A file in flight is not deferred too. -/
theorem not_mem_keys_drop {p : Pool} (distinct : p.keys.Nodup) {fl : Flight} (h : fl ∈ p.flights) :
    fl.fileId ∉ (p.drop fl.fileId).keys := by
  rw [keys_drop, List.mem_append]
  rintro (kept | deferred)
  · simp at kept
  · exact (List.nodup_append.mp distinct).2.2 _ (List.mem_map_of_mem h) _ deferred rfl

theorem FlightInv.beginAttempt (inv : FlightInv w) {fl : Flight} (h : fl ∈ w.pool.flights) :
    FlightInv (beginAttempt jobId w fl) ∧
      (FullTarget jobId w.db → FullTarget jobId (beginAttempt jobId w fl).db) := by
  have unfinished : ∀ f ∈ w.db.files, f.id = fl.fileId →
      f.status ∈ [FileStatus.pending, .copying, .retrying] :=
    fun f hf same => inv.unfinished f hf (same ▸ key_of_flight h)
  have dropped := keys_drop_sublist w.pool fl.fileId
  unfold Ecube.beginAttempt
  split
  · split
    · refine ⟨inv.write _ rfl (inv.distinct.sublist dropped) (fun k hk => dropped.subset hk) rfl
        fun r _ => by simp, fun full => full.write _ rfl unfinished⟩
    · have same : Pool.keys { w.pool with flights := w.pool.flights.map fun g =>
          if g.fileId = fl.fileId then { g with begun := true } else g } = w.pool.keys := by
        rw [Pool.keys, Pool.keys, List.map_map]
        congr 2
        funext g
        dsimp only [Function.comp]
        split <;> rfl
      refine ⟨inv.write _ rfl ?_ (fun k hk => ?_) rfl fun r _ => by simp,
        fun full => full.write _ rfl unfinished⟩
      · rw [same]
        exact inv.distinct
      · rw [same] at hk
        exact hk
  · exact ⟨inv.sub rfl dropped rfl, fun full => full⟩

theorem FlightInv.endAttempt (inv : FlightInv w) {fl : Flight} (h : fl ∈ w.pool.flights)
    (outcome : AttemptOutcome) :
    FlightInv (endAttempt w fl outcome) ∧
      (FullTarget jobId w.db → FullTarget jobId (endAttempt w fl outcome).db) := by
  have unfinished : ∀ f ∈ w.db.files, f.id = fl.fileId →
      f.status ∈ [FileStatus.pending, .copying, .retrying] :=
    fun f hf same => inv.unfinished f hf (same ▸ key_of_flight h)
  have dropped := keys_drop_sublist w.pool fl.fileId
  have gone := not_mem_keys_drop inv.distinct h
  refine ⟨?_, fun full => full.write _ rfl unfinished⟩
  cases retry : w.pool.retries fl outcome with
  | false =>
      have pool : (Ecube.endAttempt w fl outcome).pool = w.pool.drop fl.fileId := by
        simp only [Ecube.endAttempt, retry, Bool.false_eq_true, if_false]
      refine inv.write (attemptedFile_id _ fl.attempt outcome) rfl ?_ (fun k hk => ?_) ?_ ?_
      · rw [pool]
        exact inv.distinct.sublist dropped
      · rw [pool] at hk
        exact dropped.subset hk
      · rw [pool]
        rfl
      · rw [pool]
        exact fun _ hk => absurd hk gone
  | true =>
      have keys : (Ecube.endAttempt w fl outcome).pool.keys =
          (w.pool.drop fl.fileId).keys ++ [fl.fileId] := by
        simp only [Ecube.endAttempt, retry, if_true, Pool.keys, List.map_append, List.map_cons,
          List.map_nil, List.append_assoc]
      refine inv.write (attemptedFile_id _ fl.attempt outcome) rfl ?_ (fun k hk => ?_) ?_ ?_
      · rw [keys]
        exact (inv.distinct.sublist dropped).append (List.nodup_singleton _) (by simpa using gone)
      · rw [keys, List.mem_append, List.mem_singleton] at hk
        rcases hk with hk | rfl
        · exact dropped.subset hk
        · exact key_of_flight h
      · simp only [Ecube.endAttempt, retry, if_true]
        rfl
      · -- Only a failure is retried.
        intro r _
        rw [retry]
        cases outcome with
        | failed errorMessage => simp [attemptedFile]
        | done checksum => cases retry
        | timeout errorMessage => cases retry

/-- The next file lies beyond the cursor, so it is not in flight yet. -/
theorem FlightInv.submit (inv : FlightInv w) {f : ExportFile} (hf : f ∈ w.db.files)
    (pending : f.status = .pending) (ahead : w.pool.cursor < f.id) :
    FlightInv { w with pool := { w.pool with
      flights := w.pool.flights ++ [⟨f.id, 0, false⟩], cursor := f.id } } := by
  have new : f.id ∉ w.pool.keys := fun h => by
    have := inv.behind f.id h
    omega
  have keys : ∀ k, k ∈ Pool.keys { w.pool with
      flights := w.pool.flights ++ [⟨f.id, 0, false⟩], cursor := f.id } ↔
      k ∈ w.pool.keys ∨ k = f.id := by
    intro k
    simp only [Pool.keys, List.map_append, List.map_cons, List.map_nil, List.mem_append,
      List.mem_singleton]
    rw [or_right_comm]
  refine ⟨?_, fun k hk => ?_, fun g hg hk => ?_⟩
  · simp only [Pool.keys, List.map_append, List.map_cons, List.map_nil, List.append_assoc]
    exact List.nodup_middle.mpr (List.nodup_cons.mpr ⟨new, inv.distinct⟩)
  · rcases (keys k).mp hk with old | rfl
    · have := inv.behind k old
      dsimp only
      omega
    · exact le_refl _
  · rcases (keys g.id).mp hk with old | same
    · exact inv.unfinished g hg old
    · rw [eq_of_id_eq hg hf same, pending]
      simp

/-- The key moves from the deferred retries to the flights. -/
theorem FlightInv.resubmit (inv : FlightInv w) {e : Nat × Nat} (mem : e ∈ w.pool.deferred) :
    FlightInv { w with pool := { w.pool with
      flights := w.pool.flights ++ [⟨e.1, e.2, false⟩]
      deferred := w.pool.deferred.filter fun e' => e'.1 ≠ e.1 } } := by
  have moved : (Pool.keys { w.pool with
      flights := w.pool.flights ++ [⟨e.1, e.2, false⟩]
      deferred := w.pool.deferred.filter fun e' => e'.1 ≠ e.1 }).Perm w.pool.keys := by
    obtain ⟨-, deferred, -⟩ := List.nodup_append.mp inv.distinct
    simp only [Pool.keys, List.map_append, List.map_cons, List.map_nil, List.append_assoc]
    refine List.Perm.append_left _ ?_
    have erased : (w.pool.deferred.filter fun e' => e'.1 ≠ e.1).map Prod.fst =
        (w.pool.deferred.map Prod.fst).erase e.1 := by
      rw [deferred.erase_eq_filter, List.filter_map]
      congr 2
      funext e'
      simp only [Function.comp, bne, decide_not]
      rfl
    rw [List.singleton_append, erased]
    exact (List.perm_cons_erase (List.mem_map_of_mem mem)).symm
  constructor
  · exact moved.nodup_iff.mpr inv.distinct
  · intro k hk
    exact inv.behind k (moved.mem_iff.mp hk)
  · intro g hg hk
    exact inv.unfinished g hg (moved.mem_iff.mp hk)

theorem FlightInv.pool_step {a : ExecAction} (inv : FlightInv w) (pool : a.ofPool = true) :
    FlightInv (execStep jobId w a) ∧
      (FullTarget jobId w.db → FullTarget jobId (execStep jobId w a).db) := by
  have same : FlightInv w ∧ (FullTarget jobId w.db → FullTarget jobId w.db) := ⟨inv, fun h => h⟩
  have drop : ∀ k, FlightInv { w with pool := w.pool.drop k } ∧
      (FullTarget jobId w.db → FullTarget jobId w.db) :=
    fun k => ⟨inv.sub rfl (keys_drop_sublist w.pool k) rfl, fun h => h⟩
  cases a with
  | run input => cases pool
  | pause => cases pool
  | submit =>
      simp only [execStep]
      split
      · rename_i f next
        obtain ⟨hf, mine⟩ := mem_of_first next
        obtain ⟨-, pending, ahead⟩ := of_decide_eq_true mine
        split
        · exact ⟨inv.submit hf pending ahead, fun h => h⟩
        · exact same
      · exact same
  | resubmit fileId =>
      simp only [execStep]
      split
      · rename_i e found
        obtain rfl : e.1 = fileId := by simpa using List.find?_some found
        split
        · exact ⟨inv.resubmit (List.mem_of_find?_eq_some found), fun h => h⟩
        · exact same
      · exact same
  | beginAttempt fileId saved =>
      simp only [execStep]
      split
      · rename_i fl found
        split
        · exact inv.beginAttempt (flight_eq_some found).1
        · exact drop fileId
      · exact same
  | endAttempt fileId outcome saved =>
      simp only [execStep]
      split
      · rename_i fl found
        split
        · exact inv.endAttempt (flight_eq_some found).1 outcome
        · exact drop fileId
      · exact same
  | cancel fileId =>
      simp only [execStep]
      split
      · split
        · exact same
        · exact drop fileId
      · exact same

end Flights

/-! ### The run -/

/-- The run owns the job. -/
def Owned (jobId : Nat) (w : Execution) : Prop := startedAtOf w.db jobId = w.run.startedAt

/-- A run owns its job from its first commit on. While it copies it has not seen
a full target; when it has, a failed file and the active assignment are still
there after the workers have finished. -/
def TargetInv (jobId : Nat) (w : Execution) : Prop :=
  match w.run.pc with
  | .opening | .finished | .reporting | .failing _ | .failed _ _ => True
  | .opened => ∀ job, w.run.cached = some job →
      (w.db.jobs.get jobId).map ExportJob.startedAt = some job.startedAt
  | .loading | .entering => Owned jobId w ∧ w.run.stopForTargetFull = false
  | .copying => Owned jobId w ∧ w.run.stopForTargetFull = false ∧ FlightInv w
  | .settling => Owned jobId w ∧ (w.run.pauseRequested = false →
      FlightInv w ∧ (w.run.stopForTargetFull = true → FullTarget jobId w.db))
  | _ => Owned jobId w

section Steps

variable {jobId : Nat} {w : Execution}

theorem fullTarget_of_poll {s : Db}
    (attempt : shouldAttemptTargetFullContinuation (s.listIncompleteByJob jobId) = true)
    (active : s.getActiveForJob jobId ≠ none) : FullTarget jobId s := by
  refine ⟨?_, active⟩
  rw [shouldAttemptTargetFullContinuation, Bool.and_eq_true] at attempt
  obtain ⟨f, hf, failed⟩ := List.any_eq_true.mp attempt.1
  obtain ⟨mem, mine⟩ := List.mem_filter.mp hf
  exact ⟨f, mem, (of_decide_eq_true mine).1, failed⟩

/-- A step in which nothing goes wrong. -/
theorem TargetInv.advance {input : RunInput} {pool : Pool} {scan : List Str} {t : Db × CopyRun}
    (inv : TargetInv jobId w) (kept : w.run.pc ≠ .entering → pool = w.pool)
    (fresh : w.run.pc = .entering → pool = newPool w.db jobId)
    (owned : w.run.pc ≠ .opened → startedAtOf t.1 jobId = startedAtOf w.db jobId)
    (next : RunAdvance w.run w.db jobId input t) : TargetInv jobId ⟨t.1, t.2, pool, scan⟩ := by
  unfold TargetInv at inv
  cases next with
  | idle pc =>
      rcases pc with pc | pc
      · rw [pc] at inv
        obtain rfl := kept (by simp [pc])
        simp only [TargetInv, pc]
        exact ⟨inv.1, inv.2.1, inv.2.2.sub rfl (List.Sublist.refl _) rfl⟩
      · simp only [TargetInv, pc]
  | opening pc found unpaused =>
      rintro _ ⟨⟩
      exact congrArg (Option.map ExportJob.startedAt) found
  | @opened job pc cached =>
      rw [pc] at inv
      -- The object is still what the row says, so the commit leaves its time.
      change startedAtOf _ jobId = (openedJob job input.now).startedAt
      obtain ⟨row, found, same⟩ := Option.map_eq_some_iff.mp (inv job cached)
      rw [startedAtOf, get_commitJob, found]
      change flush job.startedAt (openedJob job input.now).startedAt row.startedAt = _
      rw [same]
      exact flush_self _ _
  | prepared pc found listed =>
      rw [pc] at inv
      exact (owned (by simp [pc])).trans inv
  | pauseFound pc found paused =>
      rw [pc] at inv
      exact ⟨inv, fun h => by cases h⟩
  | goesOn pc found unpaused =>
      rw [pc] at inv
      exact ⟨inv, rfl⟩
  | loading pc loaded =>
      rw [pc] at inv
      exact inv
  | entering pc cached =>
      rw [pc] at inv
      refine ⟨(owned (by simp [pc])).trans inv.1, inv.2, ?_⟩
      rw [fresh pc]
      exact ⟨List.nodup_nil, fun k hk => absurd hk List.not_mem_nil,
        fun f _ hk => absurd hk List.not_mem_nil⟩
  | exhausted pc =>
      rw [pc] at inv
      obtain rfl := kept (by simp [pc])
      refine ⟨inv.1, fun _ => ⟨inv.2.2.sub rfl (List.Sublist.refl _) rfl, fun stop => ?_⟩⟩
      cases inv.2.1.symm.trans stop
  | pauseSeen pc =>
      rw [pc] at inv
      exact ⟨inv.1, fun h => by cases h⟩
  | fullSeen pc attempt active =>
      rw [pc] at inv
      obtain rfl := kept (by simp [pc])
      exact ⟨inv.1, fun _ => ⟨inv.2.2.sub rfl (List.Sublist.refl _) rfl,
        fun _ => fullTarget_of_poll attempt active⟩⟩
  | settling pc own =>
      rw [pc] at inv
      exact inv.1
  | lingers pc unfinished unpaused =>
      rw [pc] at inv
      exact inv
  | lingering pc =>
      rw [pc] at inv
      exact inv
  | counting pc next =>
      rw [pc] at inv
      rcases next with rfl | rfl
      · exact inv
      · exact inv
  | continued pc outcome =>
      rw [pc] at inv
      exact (owned (by simp [pc])).trans inv
  | finalizing pc found own =>
      rw [pc] at inv
      exact inv
  | finalized _ _ _ _ after | committing _ _ after =>
      rcases after with rfl | rfl
      · trivial
      · trivial
  | ends | noFiles | failing | failed => trivial

theorem TargetInv.run {input : RunInput} {pool : Pool} {scan : List Str}
    (inv : TargetInv jobId w) (kept : w.run.pc ≠ .entering → pool = w.pool)
    (fresh : w.run.pc = .entering → pool = newPool w.db jobId) :
    TargetInv jobId ⟨(w.run.step w.db jobId input).1, (w.run.step w.db jobId input).2,
      pool, scan⟩ := by
  have owned : w.run.pc ≠ .opened → startedAtOf (w.run.step w.db jobId input).1 jobId =
      startedAtOf w.db jobId := fun away => startedAtOf_step fun opened => absurd opened away
  revert owned
  refine CopyRun.step_rule (P := fun next =>
    (w.run.pc ≠ .opened → startedAtOf next.1 jobId = startedAtOf w.db jobId) →
      TargetInv jobId ⟨next.1, next.2, pool, scan⟩) (fun _ owned => ?_) ?_
  · exact inv.advance kept fresh owned CopyRun.advance_cases
  · rintro trouble pc - rfl -
    rcases w.run.pcAfterTrouble_cases trouble with ends | ⟨reason, ends⟩
    · simp only [TargetInv, ends]
    · simp only [TargetInv, ends]

/-- What a pause writes is neither a time nor a file. -/
theorem pause_frame (jobId : Nat) (s : Db) :
    ((settle (pauseJob s jobId)).jobs.get jobId).map ExportJob.startedAt =
        (s.jobs.get jobId).map ExportJob.startedAt ∧
      (settle (pauseJob s jobId)).files = s.files ∧
      (settle (pauseJob s jobId)).assignments = s.assignments := by
  cases answer : pauseJob s jobId with
  | ok t =>
      obtain ⟨-, -, -, rfl⟩ := pauseJob_eq_ok answer
      refine ⟨?_, rfl, rfl⟩
      rw [settle, Db.get_modifyJob, Option.map_map]
      rfl
  | error refusal =>
      exact leaves_pauseJob (P := fun t =>
        (t.jobs.get jobId).map ExportJob.startedAt = (s.jobs.get jobId).map ExportJob.startedAt ∧
          t.files = s.files ∧ t.assignments = s.assignments) ⟨rfl, rfl, rfl⟩ refusal answer

theorem startedAtOf_of_time {s t : Db} (h : (t.jobs.get jobId).map ExportJob.startedAt =
    (s.jobs.get jobId).map ExportJob.startedAt) : startedAtOf t jobId = startedAtOf s jobId := by
  have column : ∀ u : Db, startedAtOf u jobId =
      ((u.jobs.get jobId).map ExportJob.startedAt).bind id := by
    intro u
    rw [startedAtOf, Option.bind_map]
    rfl
  rw [column, column, h]

/-- A step that does not move the run and keeps its time. -/
theorem TargetInv.of_frame {v : Execution} (inv : TargetInv jobId w) (run : v.run = w.run)
    (time : (v.db.jobs.get jobId).map ExportJob.startedAt =
      (w.db.jobs.get jobId).map ExportJob.startedAt)
    (flights : FlightInv w → FlightInv v ∧ (FullTarget jobId w.db → FullTarget jobId v.db)) :
    TargetInv jobId v := by
  have owned : Owned jobId w → Owned jobId v := by
    intro h
    rw [Owned, run, startedAtOf_of_time time]
    exact h
  unfold TargetInv at inv ⊢
  rw [run, time]
  cases pc : w.run.pc with
  | opened =>
      rw [pc] at inv
      exact inv
  | loading | entering =>
      rw [pc] at inv
      exact ⟨owned inv.1, inv.2⟩
  | copying =>
      rw [pc] at inv
      exact ⟨owned inv.1, inv.2.1, (flights inv.2.2).1⟩
  | settling =>
      rw [pc] at inv
      refine ⟨owned inv.1, fun unpaused => ?_⟩
      obtain ⟨inv, full⟩ := inv.2 unpaused
      exact ⟨(flights inv).1, fun stop => (flights inv).2 (full stop)⟩
  | preparing | deciding | lingering | counting | resolving | finalizing =>
      rw [pc] at inv
      exact owned inv
  | committing finishedAt =>
      rw [pc] at inv
      exact owned inv
  | opening | finished | reporting => trivial
  | failing reason => trivial
  | failed reason finishedAt => trivial

theorem TargetInv.step {a : ExecAction} (inv : TargetInv jobId w) :
    TargetInv jobId (execStep jobId w a) := by
  by_cases pool : a.ofPool = true
  · have frame : PoolFrame w (execStep jobId w a) := poolFrame_step pool
    exact inv.of_frame frame.run (by rw [frame.jobs]) fun flights => flights.pool_step pool
  · cases a with
    | run input =>
        simp only [execStep]
        split
        · exact inv.run (fun away => if_neg away) fun entering => if_pos entering
        · exact inv
    | pause =>
        obtain ⟨time, files, assignments⟩ := pause_frame jobId w.db
        refine inv.of_frame rfl time fun flights => ⟨⟨flights.distinct, flights.behind, ?_⟩, fun full => ?_⟩
        · change ∀ f ∈ (settle (pauseJob w.db jobId)).files, _
          rw [files]
          exact flights.unfinished
        · constructor
          · change ∃ f ∈ (settle (pauseJob w.db jobId)).files, _
            rw [files]
            exact full.failed
          · change Db.getActiveForJob (settle (pauseJob w.db jobId)) jobId ≠ none
            rw [Db.getActiveForJob, assignments]
            exact full.active
    | submit | resubmit | beginAttempt | endAttempt | cancel => exact absurd rfl pool

/-- In every state of an execution. -/
theorem targetInv_launched (s : Db) (actions : List ExecAction) :
    TargetInv jobId (exec (execStep jobId) (.launched s) actions) :=
  exec_rule (fun _ _ inv => TargetInv.step inv) trivial

end Steps

/-! ### The decision -/

section Decision

variable {jobId : Nat} {input : RunInput} {s : Db} {r : CopyRun} {job : ExportJob}

/-- Nothing is left to a worker. -/
def NoneLingers (s : Db) (jobId : Nat) : Prop := s.files.any (lingeringFile jobId) = false

theorem towardsDecision_step {n : Nat} (calm : input.trouble = none) (point : r.pc ∈ decisionPoints) :
    towardsDecision jobId input (n + 1) (s, r) =
      towardsDecision jobId input n (r.advance s jobId input) := by
  rw [towardsDecision, if_pos point, CopyRun.step, calm]

theorem towardsDecision_done {n : Nat} (point : r.pc ∉ decisionPoints) :
    towardsDecision jobId input n (s, r) = (s, r) := by
  cases n with
  | zero => rfl
  | succ n => rw [towardsDecision, if_neg point]

/-- A run that owns its job looks for unfinished files first. -/
theorem afterPass_lingering {w : Execution} (calm : input.trouble = none)
    (settling : w.run.pc = .settling) (found : w.db.jobs.get jobId = some job)
    (owned : job.startedAt = w.run.startedAt) :
    afterPass jobId w input =
      towardsDecision jobId input 3 (w.db, { w.run with cached := none, pc := .lingering }) := by
  rw [afterPass]
  refine (towardsDecision_step calm (by rw [settling]; decide)).trans ?_
  simp only [CopyRun.advance, settling, found, owned, ne_eq, not_true_eq_false, if_false]
  rfl

/-- The first unfinished file opens another round. -/
theorem decision_lingers {n : Nat} (calm : input.trouble = none) (pc : r.pc = .lingering)
    (unpaused : r.pauseRequested = false) (lingers : ¬ NoneLingers s jobId) :
    towardsDecision jobId input (n + 1) (s, r) =
      (resetLingering s jobId, { r with pc := .preparing }) := by
  rw [towardsDecision_step calm (by rw [pc]; decide)]
  simp only [CopyRun.advance, pc]
  rw [if_pos ⟨by simpa [NoneLingers] using lingers, unpaused⟩]
  exact towardsDecision_done (by simp [decisionPoints])

/-- The counts of the run. -/
def CopyRun.countedAs (r : CopyRun) (s : Db) (jobId : Nat) (pc : RunPc) : CopyRun :=
  { r with
    outcomes := s.countFiles jobId (fun f => f.status = FileStatus.done) + s.retryableCount jobId
    failures := s.retryableCount jobId
    pc := pc }

/-- Without unfinished files the run counts, and decides unless a file has timed out. -/
theorem decision_counts (calm : input.trouble = none) (pc : r.pc = .lingering)
    (settled : NoneLingers s jobId) :
    towardsDecision jobId input 3 (s, r) =
      if 0 < errorCount s jobId ∧ timeoutCount s jobId = 0 then
        (r.countedAs s jobId .resolving).resolve s jobId input
      else (s, r.countedAs s jobId .finalizing) := by
  have lingering : ¬ (s.files.any (lingeringFile jobId) ∧ r.pauseRequested = false) := by
    rw [settled]
    simp
  rw [towardsDecision_step calm (by rw [pc]; decide)]
  simp only [CopyRun.advance, pc]
  rw [if_neg lingering, towardsDecision_step calm (by simp [decisionPoints])]
  simp only [CopyRun.advance]
  split
  · rw [towardsDecision_step calm (by simp [decisionPoints])]
    rfl
  · exact towardsDecision_done (by simp [decisionPoints])

/-- A run that owns its job and has found no drive to continue on fails it. -/
theorem decided_of_failed {probed : Db} (found : probed.jobs.get jobId = some job)
    (owned : job.startedAt = r.startedAt) (unpaused : r.pauseRequested = false)
    (running : job.status = .running) :
    Decided jobId s (r.finalizeLocked s probed jobId true input.now) := by
  refine .inr ?_
  simp only [CopyRun.finalizeLocked, found, owned, ne_eq, not_true_eq_false, if_false]
  rw [get_commitJob, found]
  refine ⟨_, rfl, (flush_self _ _).trans ?_, (flush_self _ _).trans ?_⟩
  · change finalStatus r.pauseRequested true _ job.status = .failed
    simp [finalStatus, unpaused, running]
  · change (if finalStatus r.pauseRequested true _ job.status = .paused then _ else _) = _
    simp [finalStatus, unpaused, running, capacityExhausted]

/-- A final status that is not about the target gives no such reason. -/
theorem not_decided_of_final {probed : Db} (found : probed.jobs.get jobId = some job)
    (owned : job.startedAt = r.startedAt) (unpaused : r.pauseRequested = false)
    (running : job.status = .running) :
    ¬ Decided jobId s (r.finalizeLocked s probed jobId false input.now) := by
  simp only [CopyRun.finalizeLocked, found, owned, ne_eq, not_true_eq_false, if_false]
  rintro (⟨preparing, -⟩ | ⟨row, committed, -, reason⟩)
  · rcases pcAfterFinal_cases (r.finalJob job false input.now) with ends | ends
    · cases ends.symm.trans preparing
    · cases ends.symm.trans preparing
  · rw [get_commitJob, found, Option.map_some, Option.mem_def, Option.some.injEq] at committed
    subst committed
    have none : (r.finalJob job false input.now).failureReason = none := by
      change (if finalStatus r.pauseRequested false _ job.status = .paused then _ else _) = _
      rw [if_neg]
      · rfl
      · simp only [finalStatus, unpaused, running]
        simp
        split <;> decide
    have := (flush_self job.failureReason (r.finalJob job false input.now).failureReason).symm.trans reason
    cases none.symm.trans this

/-- The job has moved to another assignment. -/
theorem decided_of_continued {probed : Db} {active next : DriveAssignment} {drive : UsbDrive} {now : Nat}
    (current : s.getActiveForJob jobId = some active) (same : probed.assignments = s.assignments)
    (reserved : next ∈ s.listReservedForJob jobId) :
    Decided jobId s (continueOnReserved probed jobId active next drive now,
      { r with cached := none, pc := .preparing }) := by
  refine .inl ⟨rfl, active, current, ?_⟩
  obtain ⟨-, -, isActive⟩ := active_of_getActiveForJob current
  obtain ⟨mem, hp⟩ := mem_select.mp reserved
  obtain ⟨mine, isReserved⟩ := of_decide_eq_true hp
  have other : next.id ≠ active.id := by
    intro h
    rw [DriveAssignment.active_iff] at isActive
    rw [DriveAssignment.reserved_iff] at isReserved
    have := eq_of_id_eq mem (active_of_getActiveForJob current).1 h
    rw [this] at isReserved
    exact isActive.1 isReserved.1
  -- The reservation is active now, and every active row differs from the released one.
  have rows : ∀ b, b ∈ (continueOnReserved probed jobId active next drive now).assignments ↔
      b ∈ ((probed.releaseAssignment active.id now).activateAssignment next.id now).assignments :=
    fun _ => Iff.rfl
  have taken : { next with activatedAt := some now } ∈
      (continueOnReserved probed jobId active next drive now).assignments := by
    rw [rows, Db.mem_activateAssignment]
    refine .inr ⟨next, Db.mem_releaseAssignment.mpr (.inl ⟨?_, other⟩), rfl, rfl⟩
    rw [same]
    exact mem
  cases found : (continueOnReserved probed jobId active next drive now).getActiveForJob jobId with
  | none =>
      have := first_eq_none_iff.mp found _ taken
      rw [DriveAssignment.reserved_iff] at isReserved
      simp [mine, DriveAssignment.active, isReserved.2] at this
  | some b =>
      obtain ⟨hb, -, alive⟩ := active_of_getActiveForJob found
      refine ⟨b, rfl, fun h => ?_⟩
      rw [DriveAssignment.active_iff] at alive
      rw [rows, Db.mem_activateAssignment] at hb
      rcases hb with ⟨hb, -⟩ | ⟨b₀, -, hid, rfl⟩
      · rw [Db.mem_releaseAssignment] at hb
        rcases hb with ⟨-, elsewhere⟩ | ⟨b₁, -, -, rfl⟩
        · exact elsewhere h
        · cases alive.2
      · exact other (hid.symm.trans h)

theorem noneLingers_iff : NoneLingers s jobId ↔
    ∀ f ∈ s.files, f.jobId = jobId → f.status ≠ .copying ∧ f.status ≠ .retrying := by
  rw [NoneLingers, any_eq_false_iff]
  simp only [lingeringFile, decide_eq_false_iff_not, not_and, not_or]

theorem timeoutCount_eq_zero_iff : timeoutCount s jobId = 0 ↔
    ∀ f ∈ s.files, f.jobId = jobId → f.status ≠ .timeout := by
  rw [timeoutCount, Db.countFiles, List.countP_eq_zero]
  simp only [decide_eq_true_eq, not_and]
  rfl

/-- Given a file that failed on the full target, what the three tests of the run
ask is that the other files do not stand in the way. -/
theorem onlyFull_iff (full : FullTarget jobId s) : OnlyFull s jobId ↔
    NoneLingers s jobId ∧ timeoutCount s jobId = 0 ∧
      shouldAttemptTargetFullContinuation (s.listIncompleteByJob jobId) = true := by
  rw [noneLingers_iff, timeoutCount_eq_zero_iff, shouldAttemptTargetFullContinuation, Bool.and_eq_true,
    List.any_eq_true, List.all_eq_true]
  have incomplete : ∀ f, f ∈ s.listIncompleteByJob jobId ↔
      f ∈ s.files ∧ f.jobId = jobId ∧ f.status ≠ .done := by
    intro f
    rw [Db.listIncompleteByJob, List.mem_filter, decide_eq_true_eq]
    rfl
  have failedStatus : ∀ f : ExportFile, isOverflowRetryableFile f = true → f.status = .error :=
    fun f h => (of_decide_eq_true h).1
  constructor
  · intro only
    refine ⟨fun f hf mine => ?_, fun f hf mine => ?_, ?_, fun f hf => ?_⟩
    · rcases only f hf mine with h | h | h
      · simp [h]
      · simp [h]
      · simp [failedStatus f h]
    · rcases only f hf mine with h | h | h
      · simp [h]
      · simp [h]
      · simp [failedStatus f h]
    · obtain ⟨f, hf, mine, failed⟩ := full.failed
      exact ⟨f, (incomplete f).mpr ⟨hf, mine, by simp [failedStatus f failed]⟩, failed⟩
    · obtain ⟨mem, mine, undone⟩ := (incomplete f).mp hf
      rcases only f mem mine with h | h | h
      · exact absurd h undone
      · simp [isTargetFullContinuationCompatibleFile, h]
      · simp [isTargetFullContinuationCompatibleFile, h]
  · rintro ⟨settled, timely, -, compatible⟩ f hf mine
    by_cases done : f.status = .done
    · exact .inl done
    · have fits := compatible f ((incomplete f).mpr ⟨hf, mine, done⟩)
      rw [isTargetFullContinuationCompatibleFile, Bool.or_eq_true] at fits
      rcases fits with waits | failed
      · have waits : f.status ∈ [FileStatus.pending, .copying, .retrying] := by simpa using waits
        obtain ⟨notCopying, notRetrying⟩ := settled f hf mine
        simp [notCopying, notRetrying] at waits
        exact .inr (.inl waits)
      · exact .inr (.inr failed)

theorem errorCount_pos (full : FullTarget jobId s) : 0 < errorCount s jobId := by
  obtain ⟨f, hf, mine, failed⟩ := full.failed
  rw [errorCount, Db.countFiles, List.countP_pos_iff]
  exact ⟨f, hf, by simp [mine, (of_decide_eq_true failed).1]⟩

/-- The decision itself. -/
theorem decided_resolve_iff (full : FullTarget jobId s) (found : s.jobs.get jobId = some job)
    (owned : job.startedAt = r.startedAt) (unpaused : r.pauseRequested = false)
    (running : job.status = .running) :
    Decided jobId s (r.resolve s jobId input) ↔
      shouldAttemptTargetFullContinuation (s.listIncompleteByJob jobId) = true := by
  unfold CopyRun.resolve resolveTargetFullOutcome
  rw [found]
  dsimp only
  cases attempt : shouldAttemptTargetFullContinuation (s.listIncompleteByJob jobId) with
  | false => simpa using not_decided_of_final found owned unpaused running
  | true =>
      obtain ⟨active, current⟩ := Option.ne_none_iff_exists'.mp full.active
      have rule := @selectAutomaticOverflowAssignment_rule
        (fun t => t.jobs = s.jobs ∧ t.assignments = s.assignments) job input.probe
        (fun _ _ _ h => h) (s.listReservedForJob jobId) s ⟨rfl, rfl⟩
      rw [current]
      simp only [if_true, iff_true]
      generalize selectAutomaticOverflowAssignment job input.probe (s.listReservedForJob jobId) s =
        choice at rule
      obtain ⟨chosen, probed⟩ := choice
      obtain ⟨⟨jobs, assignments⟩, selected⟩ := rule
      cases chosen with
      | none => exact decided_of_failed (by rw [jobs]; exact found) owned unpaused running
      | some pair =>
          exact decided_of_continued current assignments (selected pair.1 pair.2 rfl).mem

end Decision

/-- Whenever a copy phase has ended because of a full target and no pause was
requested, the run moves or fails the job exactly when all files of the job are
done, pending or failed on the full target. -/
theorem targetFull_decided_iff {jobId : Nat} {s : Db} {actions : List ExecAction} {w : Execution}
    {input : RunInput} (reached : exec (execStep jobId) (.launched s) actions = w)
    (settling : w.run.pc = .settling) (stopped : w.run.stopForTargetFull = true)
    (unpaused : w.run.pauseRequested = false) (running : statusOf w.db jobId = some .running)
    (calm : input.trouble = none) :
    Decided jobId w.db (afterPass jobId w input) ↔ OnlyFull w.db jobId := by
  have inv : TargetInv jobId w := reached ▸ targetInv_launched s actions
  rw [TargetInv, settling] at inv
  have full := (inv.2 unpaused).2 stopped
  obtain ⟨job, found, status⟩ := Option.map_eq_some_iff.mp running
  have owned : job.startedAt = w.run.startedAt := by
    have own : startedAtOf w.db jobId = w.run.startedAt := inv.1
    rw [startedAtOf, found] at own
    exact own
  -- Until the decision nothing moves the job or fails it.
  have undecided : ∀ t : Db × CopyRun, t.1.jobs = w.db.jobs → t.1.assignments = w.db.assignments →
      ¬ Decided jobId w.db t := by
    rintro t jobs assignments (⟨-, a, current, b, hb, other⟩ | ⟨row, hrow, failed, -⟩)
    · rw [Db.getActiveForJob, assignments] at hb
      obtain rfl : a = b := Option.some.inj (current.symm.trans hb)
      exact other rfl
    · rw [jobs] at hrow
      cases found.symm.trans hrow
      cases failed.symm.trans status
  rw [afterPass_lingering calm settling found owned, onlyFull_iff full]
  by_cases settled : NoneLingers w.db jobId
  · rw [decision_counts calm rfl settled]
    by_cases timely : timeoutCount w.db jobId = 0
    · rw [if_pos ⟨errorCount_pos full, timely⟩]
      simp only [settled, timely, true_and]
      exact decided_resolve_iff full found owned unpaused status
    · rw [if_neg fun h => timely h.2]
      exact iff_of_false (undecided _ rfl rfl) fun h => timely h.2.1
  · rw [decision_lingers (r := { w.run with cached := none, pc := .lingering }) calm rfl unpaused settled]
    exact iff_of_false (undecided _ rfl rfl) fun h => settled h.1

namespace Lab

/-- A job that retries a file once is created and started. -/
def startRetrying : List Action :=
  [⟨1, .createJob { body "/data/a" (some 1) (some 2) with maxFileRetries := 1 } none⟩,
    ⟨2, .startJob 1 none⟩]

/-- To the copy phase, with both files submitted. -/
def bothSubmitted : List ExecAction :=
  (List.range' 3 6).map (fun now => .run (input now)) ++ [.submit, .submit]

/-- An attempt that fails on the full target. -/
def failsFull (fileId : Nat) : List ExecAction :=
  [.beginAttempt fileId true, .endAttempt fileId (.failed targetFullMessage) true]

/-- The state after the actions, for the job of the installation. -/
def executed (actions : List ExecAction) : Execution :=
  exec (execStep 1) (.launched (exec (step settings) start startRetrying)) actions

end Lab

/-- The first file fails for good and the second waits for its retry when the loop polls. -/
def deferredRun : List ExecAction :=
  Lab.bothSubmitted ++ Lab.failsFull 1 ++ Lab.failsFull 2 ++ [.resubmit 1] ++ Lab.failsFull 1 ++
    [.run (Lab.input 10)]

/-- Both files have failed for good when the loop polls. -/
def exhaustedRun : List ExecAction :=
  Lab.bothSubmitted ++ Lab.failsFull 1 ++ Lab.failsFull 2 ++ [.resubmit 1, .resubmit 2] ++
    Lab.failsFull 1 ++ Lab.failsFull 2 ++ [.run (Lab.input 10)]

theorem targetFull_decided_exhaustedRun :
    OnlyFull (Lab.executed exhaustedRun).db 1 ∧
      Decided 1 (Lab.executed exhaustedRun).db (afterPass 1 (Lab.executed exhaustedRun) (Lab.input 11)) := by
  have only : OnlyFull (Lab.executed exhaustedRun).db 1 := by
    unfold OnlyFull
    decide
  refine ⟨only, (targetFull_decided_iff rfl ?_ ?_ ?_ ?_ rfl).mpr only⟩ <;> decide

/-- The copy phase has ended on the full drive without a pause, and the run opens
another round on the same assignment. -/
theorem targetFull_undecided :
    (Lab.executed deferredRun).run.pc = .settling ∧
      (Lab.executed deferredRun).run.stopForTargetFull = true ∧
      (Lab.executed deferredRun).run.pauseRequested = false ∧
      (Lab.executed deferredRun).pool.flights = [] ∧
      statusOf (Lab.executed deferredRun).db 1 = some .running ∧
      (afterPass 1 (Lab.executed deferredRun) (Lab.input 11)).2.pc = .preparing ∧
      ¬ Decided 1 (Lab.executed deferredRun).db
        (afterPass 1 (Lab.executed deferredRun) (Lab.input 11)) := by
  refine ⟨?_, ?_, ?_, ?_, ?_, ?_, ?_⟩ <;> decide

end Ecube
