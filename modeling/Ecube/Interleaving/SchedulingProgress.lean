import Ecube.Interleaving.SchedulingPlaces

/-!
What a scheduling pass guarantees.

A file that was pending when the pass began is still to be loaded, in its one
place, or settled. Only a worker that finds the job pausing lets go of a file,
and then a look at the job lies ahead that stops the pass.

`schedulingPass_correct`: whatever the order of the steps, no file is in flight
twice or is tried more than `max_retries + 1` times; and a pass that ends
because nothing is left has tried and settled every file that was pending when
it began, if no commit has failed.
-/

namespace Ecube.Scheduler

open Table Transition

/-! ### No file is lost -/

/-- The row of a file is as its last attempt has left it. -/
def Settled (s : Db) (k : Nat) : Prop :=
  ∃ r ∈ s.files, r.id = k ∧ (r.status = .done ∨ r.status = .error ∨ r.status = .timeout)

def Waiting (cfg : PassConfig) (s : Db) (k : Nat) : Prop :=
  ∃ r ∈ s.files, r.id = k ∧ r.jobId = cfg.jobId ∧ r.status = .pending

/-- A worker that will settle its file or has done so, or defers it. -/
def Future.OnTrack (p : Pass) (f : Future) : Prop :=
  match f.stage with
  | .queued | .checked _ => True
  | .copying => f.fileId ∈ p.copies
  | .finished none => False
  | .finished (some r) => f.fileId ∈ p.copies ∧ (r.deferredRetry ≠ none ∨ Settled p.db f.fileId)

/-- Where a file is that was pending when the pass began. -/
inductive Tracked (cfg : PassConfig) (p : Pass) (k : Nat) : Prop where
  | ahead (beyond : Ahead p.pendingCursor k) (row : Waiting cfg p.db k)
  | buffered (mem : k ∈ p.pendingBuffer)
  | flying {f : Future} (mem : f ∈ p.futures) (file : f.fileId = k) (onTrack : f.OnTrack p)
  | deferred {d : DeferredRetry} (mem : d ∈ p.deferredRetries) (file : d.fileId = k) (copied : k ∈ p.copies)
  | settled (out : k ∉ p.places) (behind : ¬ Ahead p.pendingCursor k) (copied : k ∈ p.copies)
      (row : Settled p.db k)

/-- The pass stops, or has to: the job is halted and a look at it lies ahead. -/
def Doomed (cfg : PassConfig) (p : Pass) : Prop :=
  p.pc.stopped = true ∨ (Halted cfg p.db ∧ p.pc ≠ .ended .exhausted ∧
    (p.futures ≠ [] ∨ p.pc.looking = true))

structure Going (cfg : PassConfig) (P : Nat → Prop) (p : Pass) : Prop where
  tracked : ∀ k, P k → Tracked cfg p k
  loaded : p.pendingExhausted = true → ∀ k, P k → ¬ Ahead p.pendingCursor k
  drained : p.pc = .waiting → p.futures = [] → p.pendingBuffer = []
  emptied : p.pc = .ended .exhausted → p.places = [] ∧ p.pendingExhausted = true

structure Present (cfg : PassConfig) (P : Nat → Prop) (s : Db) : Prop where
  job : s.jobs.get cfg.jobId ≠ none
  files : ∀ k, P k → s.files.get k ≠ none

structure PassInv (cfg : PassConfig) (P : Nat → Prop) (p : Pass) : Prop where
  placed : Placed cfg p
  present : Present cfg P p.db
  collected : ∀ keys futureFailed targetFullDetected,
    p.pc = .collecting keys futureFailed targetFullDetected →
      ∀ key ∈ keys, ∀ f ∈ p.futures, f.key = key → f.done = true
  state : Doomed cfg p ∨ Going cfg P p

section Tracking

variable {cfg : PassConfig} {P : Nat → Prop} {p q : Pass}

theorem places_eq_nil : p.places = [] ↔ p.pendingBuffer = [] ∧ p.futures = [] ∧ p.deferredRetries = [] := by
  rw [Pass.places, List.append_eq_nil_iff, List.append_eq_nil_iff, List.map_eq_nil_iff, List.map_eq_nil_iff]

theorem Future.OnTrack.of_same {f : Future} (h : f.OnTrack p) (copies : ∀ k ∈ p.copies, k ∈ q.copies)
    (row : Settled p.db f.fileId → Settled q.db f.fileId) : f.OnTrack q := by
  unfold Future.OnTrack at h ⊢
  split
  · trivial
  · trivial
  · rename_i stage
    rw [stage] at h
    exact copies _ h
  · rename_i stage
    rw [stage] at h
    exact h
  · rename_i r stage
    rw [stage] at h
    exact ⟨copies _ h.1, h.2.imp_right row⟩

/-- Steps that leave everything in its place. -/
theorem Tracked.of_same {k : Nat} (h : Tracked cfg p k) (files : q.db.files = p.db.files)
    (cursor : q.pendingCursor = p.pendingCursor) (buffer : q.pendingBuffer = p.pendingBuffer)
    (heap : q.deferredRetries = p.deferredRetries) (futures : q.futures = p.futures)
    (copies : q.copies = p.copies) : Tracked cfg q k := by
  have places : q.places = p.places := by rw [Pass.places, buffer, futures, heap, Pass.places]
  have row : ∀ j, Settled p.db j → Settled q.db j := fun j => by rw [Settled, Settled, files]; exact id
  have copied : ∀ j ∈ p.copies, j ∈ q.copies := fun j => by rw [copies]; exact id
  cases h with
  | ahead beyond waiting =>
      rw [Waiting, ← files] at waiting
      exact .ahead (by rw [cursor]; exact beyond) waiting
  | buffered mem => exact .buffered (by rw [buffer]; exact mem)
  | flying mem file onTrack => exact .flying (by rw [futures]; exact mem) file (onTrack.of_same copied (row _))
  | deferred mem file copy => exact .deferred (by rw [heap]; exact mem) file (copied _ copy)
  | settled out behind copy settled =>
      exact .settled (by rw [places]; exact out) (by rw [cursor]; exact behind) (copied _ copy) (row _ settled)

theorem Doomed.control (h : Doomed cfg p) (turn : Control cfg p q) : Doomed cfg q := by
  rcases h with stopped | ⟨halted, unended, ahead⟩
  · exact .inl (turn.stays stopped)
  · have ended : q.pc ≠ .ended .exhausted := by
      intro pc
      rcases turn.ends pc with already | ⟨waiting, idle, -, -⟩
      · exact unended already
      · rcases ahead with busy | looking
        · exact busy idle
        · rw [waiting] at looking
          cases looking
    have halted' : Halted cfg q.db := by
      rw [turn.work.db]
      exact halted
    rcases ahead with busy | looking
    · exact .inr ⟨halted', ended, .inl (by rw [turn.work.futures]; exact busy)⟩
    · rcases turn.looks looking halted with looking | stopped
      · exact .inr ⟨halted', ended, .inr looking⟩
      · exact .inl stopped

theorem Going.control (h : Going cfg P p) (turn : Control cfg p q) : Going cfg P q where
  tracked k pending := (h.tracked k pending).of_same (by rw [turn.work.db]) turn.work.pendingCursor
    turn.work.pendingBuffer turn.work.deferredRetries turn.work.futures turn.work.copies
  loaded exhausted k pending := by
    rw [turn.work.pendingExhausted] at exhausted
    rw [turn.work.pendingCursor]
    exact h.loaded exhausted k pending
  drained waiting idle := by
    rw [turn.work.futures] at idle
    rw [turn.work.pendingBuffer]
    rcases turn.waits waiting with already | busy | empty
    · exact h.drained already idle
    · exact absurd idle busy
    · exact empty
  emptied ended := by
    have places : q.places = p.places := by
      rw [Pass.places, turn.work.pendingBuffer, turn.work.futures, turn.work.deferredRetries, Pass.places]
    rw [places, turn.work.pendingExhausted]
    rcases turn.ends ended with already | ⟨waiting, idle, nothing, exhausted⟩
    · exact h.emptied already
    · exact ⟨places_eq_nil.mpr ⟨h.drained waiting idle, idle, nothing⟩, exhausted⟩

/-- The file that is submitted is on its way, and the others stay where they are. -/
theorem Going.submit (h : Going cfg P p) {buffer : List Nat} {deferred : List DeferredRetry}
    {fileId attempt : Nat}
    (places : (fileId :: (buffer ++ (p.futures.map Future.fileId ++ deferred.map DeferredRetry.fileId))).Perm
      p.places) (buffered : ∀ k ∈ p.pendingBuffer, k = fileId ∨ k ∈ buffer)
    (heaped : ∀ d ∈ p.deferredRetries, d.fileId = fileId ∨ d ∈ deferred)
    (away : p.pc ≠ .waiting) (going : p.pc ≠ .ended .exhausted) :
    Going cfg P (Pass.submitFileAttempt { p with pendingBuffer := buffer, deferredRetries := deferred }
      fileId attempt) := by
  have moved := @places_submit p buffer deferred fileId attempt places
  have submitted : Tracked cfg (Pass.submitFileAttempt { p with
      pendingBuffer := buffer, deferredRetries := deferred } fileId attempt) fileId :=
    .flying (List.mem_append_right _ List.mem_cons_self) rfl trivial
  exact {
    tracked := by
      intro k pending
      cases h.tracked k pending with
      | ahead beyond waiting => exact .ahead beyond waiting
      | buffered mem =>
          rcases buffered k mem with rfl | mem
          · exact submitted
          · exact .buffered mem
      | flying mem file onTrack =>
          exact .flying (List.mem_append_left _ mem) file (onTrack.of_same (fun _ => id) id)
      | @deferred d mem file copied =>
          rcases heaped d mem with same | mem
          · rw [← file, same]
            exact submitted
          · exact .deferred mem file copied
      | settled out behind copied row => exact .settled (fun mem => out (moved.subset mem)) behind copied row
    loaded := h.loaded
    drained := fun waiting => absurd waiting away
    emptied := fun ended => absurd ended going }

theorem Going.load (h : Going cfg P p) (placed : Placed cfg p) :
    Going cfg P { p.loadPendingBuffer cfg with pc := .submitting } := by
  have pos : 0 < max 1 (p.maxWorkers * cfg.pendingBatchMultiplier) := by omega
  -- A file beyond the cursor is still pending.
  have waits : ∀ k, P k → Ahead p.pendingCursor k → Waiting cfg p.db k := by
    intro k pending beyond
    cases h.tracked k pending with
    | ahead _ row => exact row
    | buffered mem => exact absurd beyond (placed.behind k (List.mem_append_left _ mem))
    | flying mem file => exact absurd beyond (placed.behind k (file ▸ mem_places_future mem))
    | deferred mem file => exact absurd beyond (placed.behind k (file ▸ mem_places_heap mem))
    | settled out behind => exact absurd beyond behind
  unfold Pass.loadPendingBuffer
  dsimp only
  split
  · rename_i none
    exact {
      tracked := fun k pending => (h.tracked k pending).of_same rfl rfl rfl rfl rfl rfl
      loaded := by
        intro _ k pending beyond
        obtain ⟨r, mem, rfl, job, status⟩ := waits k pending beyond
        obtain ⟨last, found, -⟩ := listPending_complete pos mem job status beyond
        rw [none] at found
        cases found
      drained := fun waiting => by cases waiting
      emptied := fun ended => by cases ended }
  · rename_i last found
    have last_mem := List.mem_of_getLast? found
    have further : ∀ k, Ahead (some last) k → Ahead p.pendingCursor k := by
      intro k beyond c hc
      have := ahead_of_mem_listPending last_mem c hc
      have := beyond last rfl
      omega
    exact {
      tracked := by
        intro k pending
        cases h.tracked k pending with
        | ahead beyond row =>
            obtain ⟨r, mem, rfl, job, status⟩ := row
            obtain ⟨last', found', loaded | later⟩ := listPending_complete pos mem job status beyond
            · exact .buffered (List.mem_append_right _ loaded)
            · obtain rfl := Option.some.inj (found.symm.trans found')
              exact .ahead (fun c hc => Option.some.inj hc ▸ later) ⟨r, mem, rfl, job, status⟩
        | buffered mem => exact .buffered (List.mem_append_left _ mem)
        | flying mem file onTrack => exact .flying mem file (onTrack.of_same (fun _ => id) id)
        | deferred mem file copied => exact .deferred mem file copied
        | settled out behind copied row =>
            refine .settled (fun here => ?_) (fun beyond => behind (further k beyond)) copied row
            rcases List.mem_append.mp here with buffered | elsewhere
            · rcases List.mem_append.mp buffered with old | new
              · exact out (List.mem_append_left _ old)
              · exact behind (ahead_of_mem_listPending new)
            · exact out (List.mem_append_right _ elsewhere)
      loaded := fun exhausted k pending beyond => h.loaded exhausted k pending (further k beyond)
      drained := fun waiting => by cases waiting
      emptied := fun ended => by cases ended }

/-- In a distinct pool the place of a file in flight is its future. -/
theorem Going.onTrack (h : Going cfg P p) (placed : Placed cfg p) {f : Future} (mem : f ∈ p.futures)
    (pending : P f.fileId) : f.OnTrack p := by
  obtain ⟨-, pool, apart⟩ := List.nodup_append.mp placed.distinct
  obtain ⟨flights, -, apart'⟩ := List.nodup_append.mp pool
  have here : f.fileId ∈ p.futures.map Future.fileId := List.mem_map_of_mem mem
  cases h.tracked f.fileId pending with
  | ahead beyond => exact absurd beyond (placed.behind _ (mem_places_future mem))
  | buffered buffer => exact absurd rfl (apart _ buffer _ (List.mem_append_left _ here))
  | flying mem' file onTrack =>
      rw [List.inj_on_of_nodup_map flights mem' mem file] at onTrack
      exact onTrack
  | deferred heap file =>
      exact absurd file.symm (apart' _ here _ (List.mem_map_of_mem heap))
  | settled out => exact absurd (mem_places_future mem) out

/-- The heap after a future is collected. -/
theorem mem_heap_collect {f : Future} {rest : List Nat} {futureFailed targetFullDetected : Bool}
    {d : DeferredRetry} : d ∈ (p.collect f rest futureFailed targetFullDetected).deferredRetries ↔
      d ∈ p.deferredRetries ∨ ∃ r, f.stage = .finished (some r) ∧ r.deferredRetry = some d := by
  have result : ∀ r, f.result = some r ↔ f.stage = .finished (some r) := fun r =>
    ⟨stage_of_result, fun stage => by rw [Future.result, stage]⟩
  unfold Pass.collect
  dsimp only
  cases retry : f.result.bind Report.deferredRetry with
  | none =>
      refine ⟨.inl, fun h => h.resolve_right ?_⟩
      rintro ⟨r, stage, deferral⟩
      rw [(result r).mpr stage, Option.bind_some, deferral] at retry
      cases retry
  | some e =>
      obtain ⟨r, found, deferral⟩ := Option.bind_eq_some_iff.mp retry
      rw [List.mem_orderedInsert, or_comm]
      refine or_congr_right ⟨fun same => ⟨r, (result r).mp found, by rw [same, deferral]⟩, ?_⟩
      rintro ⟨r', stage, deferral'⟩
      rw [(result r').mpr stage] at found
      rw [Option.some.inj found, deferral] at deferral'
      exact (Option.some.inj deferral').symm

theorem places_collect (placed : Placed cfg p) {f : Future} (mem : f ∈ p.futures) {rest : List Nat}
    {futureFailed targetFullDetected : Bool} {k : Nat}
    (h : k ∈ (p.collect f rest futureFailed targetFullDetected).places) :
    k ∈ Pass.places { p with futures := p.futures.filter fun g => g.key ≠ f.key } ∨
      (k = f.fileId ∧ ∃ r, f.stage = .finished (some r) ∧ r.deferredRetry ≠ none) := by
  rcases List.mem_append.mp h with buffer | elsewhere
  · exact .inl (List.mem_append_left _ buffer)
  · rcases List.mem_append.mp elsewhere with flying | heap
    · exact .inl (List.mem_append_right _ (List.mem_append_left _ flying))
    · obtain ⟨d, mem', rfl⟩ := List.mem_map.mp heap
      rcases mem_heap_collect.mp mem' with old | ⟨r, stage, deferral⟩
      · exact .inl (mem_places_heap old)
      · refine .inr ⟨(placed.defers f mem r stage d deferral).1, r, stage, ?_⟩
        rw [deferral]
        simp

theorem Going.collect (h : Going cfg P p) (placed : Placed cfg p) {f : Future} (mem : f ∈ p.futures)
    {rest : List Nat} {futureFailed targetFullDetected : Bool} (done : f.done = true) :
    Going cfg P (p.collect f rest futureFailed targetFullDetected) where
  tracked k pending := by
    cases h.tracked k pending with
    | ahead beyond row => exact .ahead beyond row
    | buffered mem => exact .buffered mem
    | @flying g mem' file onTrack =>
        by_cases same : g.key = f.key
        · obtain rfl := placed.eq_of_key mem mem' same
          obtain ⟨r, stage⟩ : ∃ r, g.stage = .finished (some r) := by
            unfold Future.OnTrack at onTrack
            unfold Future.done at done
            split at done
            · rename_i report stage
              rw [stage] at onTrack
              cases report with
              | none => exact onTrack.elim
              | some r => exact ⟨r, stage⟩
            · cases done
          rw [Future.OnTrack, stage] at onTrack
          obtain ⟨copied, outcome⟩ := onTrack
          cases deferral : r.deferredRetry with
          | some d =>
              have here := (placed.defers g mem r stage d deferral).1
              exact .deferred (mem_heap_collect.mpr (.inr ⟨r, stage, deferral⟩)) (here.trans file) (file ▸ copied)
          | none =>
              subst file
              refine .settled (fun here => ?_) (placed.behind _ (mem_places_future mem)) copied
                (outcome.resolve_left (absurd deferral))
              rcases places_collect placed mem here with here | ⟨-, r', stage', deferred⟩
              · exact placed.not_mem_drop mem here
              · rw [stage] at stage'
                cases stage'
                exact deferred deferral
        · refine .flying (List.mem_filter.mpr ⟨mem', by simpa using same⟩) file ?_
          exact onTrack.of_same (fun _ => id) id
    | deferred heap file copied => exact .deferred (mem_heap_collect.mpr (.inl heap)) file copied
    | settled out behind copied row =>
        refine .settled (fun here => ?_) behind copied row
        rcases places_collect placed mem here with here | ⟨rfl, -⟩
        · have sub : (p.futures.filter fun g => g.key ≠ f.key).Sublist p.futures := List.filter_sublist
          exact out (((List.Sublist.refl _).append ((sub.map _).append (List.Sublist.refl _))).subset here)
        · exact out (mem_places_future mem)
  loaded := h.loaded
  drained waiting := by cases waiting
  emptied ended := by cases ended

/-! ### Writes of a worker -/

theorem mem_setFile_of_ne {s : Db} {fileId : Nat} {g : ExportFile → ExportFile} {key : ∀ r, (g r).id = r.id}
    {r : ExportFile} (h : r ∈ s.files) (other : r.id ≠ fileId) : r ∈ (setFile s fileId g key).files :=
  (mem_update key).mpr ⟨r, h, if_neg (by simpa using other)⟩

theorem apply_mem_setFile {s : Db} {g : ExportFile → ExportFile} {key : ∀ r, (g r).id = r.id}
    {r : ExportFile} (h : r ∈ s.files) : g r ∈ (setFile s r.id g key).files :=
  (mem_update key).mpr ⟨r, h, if_pos (by simp)⟩

/-- A worker of the file writes its row, or nothing. -/
def Writes (fileId : Nat) (s t : Db) : Prop :=
  t = s ∨ ∃ g key, t = setFile s fileId g key

theorem Writes.settled {fileId k : Nat} {s t : Db} (h : Writes fileId s t) (other : k ≠ fileId)
    (settled : Settled s k) : Settled t k := by
  rcases h with rfl | ⟨g, key, rfl⟩
  · exact settled
  · obtain ⟨r, mem, rfl, status⟩ := settled
    exact ⟨r, mem_setFile_of_ne mem other, rfl, status⟩

theorem Writes.waiting {fileId k : Nat} {s t : Db} (h : Writes fileId s t) (other : k ≠ fileId)
    (waiting : Waiting cfg s k) : Waiting cfg t k := by
  rcases h with rfl | ⟨g, key, rfl⟩
  · exact waiting
  · obtain ⟨r, mem, rfl, columns⟩ := waiting
    exact ⟨r, mem_setFile_of_ne mem other, rfl, columns⟩

theorem Writes.jobs {fileId : Nat} {s t : Db} (h : Writes fileId s t) : t.jobs = s.jobs := by
  rcases h with rfl | ⟨g, key, rfl⟩ <;> rfl

theorem Writes.present {fileId : Nat} {s t : Db} (h : Writes fileId s t) (present : Present cfg P s) :
    Present cfg P t where
  job := by
    rw [h.jobs]
    exact present.job
  files k pending := by
    rcases h with rfl | ⟨g, key, rfl⟩
    · exact present.files k pending
    · intro gone
      have row := present.files k pending
      by_cases same : k = fileId
      · subst same
        exact row (Option.map_eq_none_iff.mp ((get_modify key).symm.trans gone))
      · exact row ((get_modify_of_ne key same).symm.trans gone)

theorem halted_of_jobs {s t : Db} (jobs : t.jobs = s.jobs) (h : Halted cfg s) : Halted cfg t := by
  rw [Halted, jobs]
  exact h

/-- A worker goes on with its file; the other files stay where they are. -/
theorem Going.worker (h : Going cfg P p) (placed : Placed cfg p) {f : Future} (mem : f ∈ p.futures)
    {stage : Stage} {db : Db} {copies : List Nat} (writes : Writes f.fileId p.db db)
    (copied : ∀ k ∈ p.copies, k ∈ copies)
    (onTrack : P f.fileId → Future.OnTrack { p.withStage f.key stage with db := db, copies := copies }
      { f with stage := stage }) :
    Going cfg P { p.withStage f.key stage with db := db, copies := copies } := by
  have places : Pass.places { p.withStage f.key stage with db := db, copies := copies } = p.places := by
    rw [Pass.places, map_withStage Future.fileId f.key stage fun _ => rfl]
    rfl
  obtain ⟨-, pool, -⟩ := List.nodup_append.mp placed.distinct
  obtain ⟨flights, -, -⟩ := List.nodup_append.mp pool
  exact {
    tracked := by
      intro k pending
      have elsewhere : k ∉ p.places → k ≠ f.fileId := by
        rintro out rfl
        exact out (mem_places_future mem)
      cases h.tracked k pending with
      | ahead beyond row =>
          refine .ahead beyond (writes.waiting (elsewhere fun here => ?_) row)
          exact placed.behind k here beyond
      | buffered mem => exact .buffered mem
      | @flying g mem' file track =>
          by_cases same : g.key = f.key
          · obtain rfl := placed.eq_of_key mem mem' same
            refine .flying (List.mem_map.mpr ⟨g, mem, if_pos rfl⟩) file (onTrack (file ▸ pending))
          · refine .flying (List.mem_map.mpr ⟨g, mem', if_neg same⟩) file (track.of_same copied ?_)
            refine writes.settled fun file' => same ?_
            rw [List.inj_on_of_nodup_map flights mem' mem file']
      | deferred heap file copy => exact .deferred heap file (copied k copy)
      | settled out behind copy row =>
          exact .settled (places ▸ out) behind (copied k copy) (writes.settled (elsewhere out) row)
    loaded := h.loaded
    drained := by
      intro _ idle
      rw [List.map_eq_nil_iff.mp idle] at mem
      cases mem
    emptied := by
      intro ended
      have := mem_places_future mem
      rw [(h.emptied ended).1] at this
      cases this }

theorem withStage_ne_nil {f : Future} (mem : f ∈ p.futures) (key : Nat) (stage : Stage) :
    (p.withStage key stage).futures ≠ [] := by
  intro idle
  rw [List.map_eq_nil_iff.mp idle] at mem
  cases mem

theorem Doomed.worker (h : Doomed cfg p) {f : Future} (mem : f ∈ p.futures) {stage : Stage} {db : Db}
    {copies : List Nat} (writes : Writes f.fileId p.db db) :
    Doomed cfg { p.withStage f.key stage with db := db, copies := copies } := by
  refine h.imp_right fun ⟨halted, unended, _⟩ => ⟨halted_of_jobs writes.jobs halted, unended, .inl ?_⟩
  exact withStage_ne_nil mem f.key stage

theorem PassInv.worker (inv : PassInv cfg P p) {f : Future} (mem : f ∈ p.futures) (live : f.done = false)
    {stage : Stage} {db : Db} {copies : List Nat} (writes : Writes f.fileId p.db db)
    (defers : Future.Defers cfg { f with stage := stage })
    (state : Doomed cfg { p.withStage f.key stage with db := db, copies := copies } ∨
      Going cfg P { p.withStage f.key stage with db := db, copies := copies }) :
    PassInv cfg P { p.withStage f.key stage with db := db, copies := copies } where
  placed := (inv.placed.worker mem defers).of_same rfl rfl rfl rfl rfl
  present := writes.present inv.present
  collected keys futureFailed targetFullDetected pc key listed g h same := by
    have done := inv.collected keys futureFailed targetFullDetected pc key listed
    rcases mem_withStage h with ⟨old, -⟩ | ⟨e, old, here, rfl⟩
    · exact done g old same
    · rw [inv.placed.eq_of_key mem old here] at same
      rw [done f mem same] at live
      cases live
  state := state

/-- A worker that puts its file back has found the job halted. -/
theorem PassInv.putBack (inv : PassInv cfg P p) {f : Future} (mem : f ∈ p.futures) (halted : Halted cfg p.db) :
    Doomed cfg { p.withStage f.key (.finished (some .nothing)) with
      db := setFile p.db f.fileId (fun r => { r with status := .pending }) ExportFile.pending_id } := by
  rcases inv.state with doomed | going
  · exact doomed.worker mem (.inr ⟨_, _, rfl⟩)
  · refine .inr ⟨halted, fun ended => ?_, .inl (withStage_ne_nil mem _ _)⟩
    have here := mem_places_future mem
    rw [(going.emptied ended).1] at here
    cases here

/-- A saved attempt that is not repeated settles its file. -/
theorem settled_finish {f : Future} {outcome : AttemptOutcome} (row : p.db.files.get f.fileId ≠ none)
    (last : retries cfg f.attempt outcome = false) :
    Settled (setFile p.db f.fileId (attemptedFile (retries cfg f.attempt outcome) f.attempt outcome)
      (attemptedFile_id _ _ _)) f.fileId := by
  obtain ⟨r, found⟩ := Option.ne_none_iff_exists'.mp row
  obtain ⟨mem, same⟩ : r ∈ p.db.files ∧ r.id = f.fileId := get_eq_some_iff.mp found
  rw [← same]
  refine ⟨_, apply_mem_setFile mem, attemptedFile_id _ _ _ r, ?_⟩
  rw [last]
  cases outcome with
  | done checksum => exact .inl rfl
  | timeout errorMessage => exact .inr (.inr rfl)
  | failed errorMessage => exact .inr (.inl rfl)

theorem PassInv.finish (inv : PassInv cfg P p) {f : Future} {outcome : AttemptOutcome} {now : Nat}
    (mem : f ∈ p.futures) (stage : f.stage = .copying) :
    PassInv cfg P (p.finish cfg f outcome now true) := by
  have writes : Writes f.fileId p.db (setFile p.db f.fileId
      (attemptedFile (retries cfg f.attempt outcome) f.attempt outcome) (attemptedFile_id _ _ _)) :=
    .inr ⟨_, _, rfl⟩
  refine inv.worker mem (by simp [Future.done, stage]) writes defers_report ?_
  refine inv.state.imp (fun doomed => doomed.worker mem writes) fun going => ?_
  refine going.worker inv.placed mem writes (fun _ => id) fun pending => ?_
  have copied := going.onTrack inv.placed mem pending
  rw [Future.OnTrack, stage] at copied
  refine ⟨copied, ?_⟩
  by_cases retry : retries cfg f.attempt outcome = true
  · refine .inl ?_
    unfold report
    rw [if_pos retry]
    simp
  · exact .inr (settled_finish (inv.present.files _ pending) (Bool.eq_false_iff.mpr retry))

theorem PassInv.loop (inv : PassInv cfg P p) (turn : LoopMove cfg p q) : PassInv cfg P q := by
  have placed := inv.placed.loop turn
  have busy : ∀ {f : Future} {futures : List Future}, futures ++ [f] ≠ [] := by simp
  cases turn with
  | control h =>
      refine ⟨placed, h.work.db ▸ inv.present, ?_, inv.state.imp (·.control h) (·.control h)⟩
      intro keys futureFailed targetFullDetected pc key listed f mem same
      rw [h.work.futures] at mem
      rcases h.collects keys futureFailed targetFullDetected pc key listed with
        ⟨keys', _, _, pc', listed'⟩ | ⟨g, mem', same', done⟩
      · exact inv.collected _ _ _ pc' key listed' f mem same
      · rw [inv.placed.eq_of_key mem' mem (same.trans same'.symm)]
        exact done
  | @resubmit retry rest pc deferred =>
      refine ⟨placed, inv.present, fun _ _ _ collecting => ?_, ?_⟩
      · cases pc.symm.trans collecting
      · refine inv.state.imp (fun doomed => ?_) fun going => ?_
        · exact doomed.imp_right fun ⟨halted, unended, _⟩ => ⟨halted, unended, .inl busy⟩
        · refine going.submit ?_ (fun k mem => .inr mem) (fun d mem => ?_) (by rw [pc]; simp) (by rw [pc]; simp)
          · rw [Pass.places, deferred, List.map_cons]
            exact (List.Perm.trans (List.Perm.append_left _ List.perm_middle) List.perm_middle).symm
          · rw [deferred] at mem
            exact (List.mem_cons.mp mem).imp_left fun same => by rw [same]
  | load pc empty =>
      have db : (p.loadPendingBuffer cfg).db = p.db := by
        unfold Pass.loadPendingBuffer
        dsimp only
        split <;> rfl
      have futures : (p.loadPendingBuffer cfg).futures = p.futures := by
        unfold Pass.loadPendingBuffer
        dsimp only
        split <;> rfl
      refine ⟨placed, db ▸ inv.present, (fun _ _ _ collecting => by cases collecting), ?_⟩
      refine inv.state.imp (fun doomed => ?_) fun going => going.load inv.placed
      rcases doomed with stopped | ⟨halted, -, ahead⟩
      · rw [pc] at stopped
        cases stopped
      · refine .inr ⟨by rw [db]; exact halted, by simp, .inl ?_⟩
        rw [futures]
        exact ahead.resolve_right (by rw [pc]; simp [PassPc.looking])
  | @submit fileId rest pc buffer =>
      refine ⟨placed, inv.present, fun _ _ _ collecting => ?_, ?_⟩
      · cases pc.symm.trans collecting
      · refine inv.state.imp (fun doomed => ?_) fun going => ?_
        · exact doomed.imp_right fun ⟨halted, unended, _⟩ => ⟨halted, unended, .inl busy⟩
        · refine going.submit ?_ (fun k mem => ?_) (fun d mem => .inr mem) (by rw [pc]; simp) (by rw [pc]; simp)
          · rw [Pass.places, buffer]
            exact List.Perm.refl _
          · rw [buffer] at mem
            exact List.mem_cons.mp mem
  | @collect f key rest futureFailed targetFullDetected pc mem same =>
      have done : f.done = true := inv.collected _ _ _ pc key List.mem_cons_self f mem same
      refine ⟨placed, inv.present, ?_, ?_⟩
      · rintro keys _ _ ⟨⟩ key' listed g kept same'
        obtain ⟨old, -⟩ := List.mem_filter.mp kept
        rcases List.mem_append.mp listed with earlier | fresh
        · exact inv.collected _ _ _ pc key' (List.mem_cons_of_mem _ earlier) g old same'
        · obtain ⟨e, ready, rfl⟩ := List.mem_map.mp fresh
          obtain ⟨here, ready⟩ := List.mem_filter.mp ready
          rw [inv.placed.eq_of_key (List.mem_filter.mp here).1 old same']
          exact (of_decide_eq_true ready).1
      · refine inv.state.imp (fun doomed => ?_) fun going => going.collect inv.placed mem done
        rcases doomed with stopped | ⟨halted, -, -⟩
        · rw [pc] at stopped
          cases stopped
        · exact .inr ⟨halted, by simp [Pass.collect], .inr rfl⟩

/-- A request only changes the row of the job, and a halted job stays so. -/
theorem PassInv.request (inv : PassInv cfg P p) {db : Db} (files : db.files = p.db.files)
    (job : db.jobs.get cfg.jobId ≠ none) (halted : Halted cfg p.db → Halted cfg db) :
    PassInv cfg P { p with db := db } where
  placed := inv.placed.of_same rfl rfl rfl rfl rfl
  present := ⟨job, fun k pending => by rw [files]; exact inv.present.files k pending⟩
  collected := inv.collected
  state := by
    refine inv.state.imp (fun doomed => doomed.imp_right fun ⟨h, unended, ahead⟩ => ⟨halted h, unended, ahead⟩) ?_
    intro going
    exact { going with tracked := fun k pending => (going.tracked k pending).of_same files rfl rfl rfl rfl rfl }

theorem files_pause (s : Db) (jobId : Nat) : (settle (pauseJob s jobId)).files = s.files := by
  cases answer : pauseJob s jobId with
  | ok t =>
      obtain ⟨-, -, -, rfl⟩ := pauseJob_eq_ok answer
      rfl
  | error refusal => exact leaves_pauseJob (P := fun t => t.files = s.files) rfl refusal answer

/-- A pause halts a running job and leaves any other as it is. -/
theorem job_pause {s : Db} {jobId : Nat} {job : ExportJob} (found : s.jobs.get jobId = some job) :
    (settle (pauseJob s jobId)).jobs.get jobId = some job ∨
      (settle (pauseJob s jobId)).jobs.get jobId = some { job with status := .pausing, completedAt := none } := by
  cases answer : pauseJob s jobId with
  | ok t =>
      obtain ⟨-, -, -, rfl⟩ := pauseJob_eq_ok answer
      refine .inr ?_
      rw [settle, Db.get_modifyJob, found]
      rfl
  | error refusal =>
      refine .inl ?_
      exact leaves_pauseJob (P := fun t => t.jobs.get jobId = some job) found refusal answer

theorem PassInv.pause (inv : PassInv cfg P p) : PassInv cfg P { p with db := settle (pauseJob p.db cfg.jobId) } := by
  obtain ⟨job, found⟩ := Option.ne_none_iff_exists'.mp inv.present.job
  refine inv.request (files_pause _ _) ?_ ?_
  · rcases job_pause found with same | pausing
    · rw [same]; simp
    · rw [pausing]; simp
  · rintro ⟨job', found', why⟩
    rcases job_pause found' with same | pausing
    · exact ⟨job', same, why⟩
    · exact ⟨_, pausing, .inr (.inl rfl)⟩

theorem PassInv.supersede (inv : PassInv cfg P p) (startedAt : Nat) :
    PassInv cfg P { p with db := superseded cfg p.db startedAt } := by
  obtain ⟨job, found⟩ := Option.ne_none_iff_exists'.mp inv.present.job
  unfold superseded
  split
  · exact inv
  · rename_i other
    have row : (p.db.modifyJob cfg.jobId (fun j => { j with
        status := .preparing, startedAt := some startedAt }) fun _ => rfl).jobs.get cfg.jobId =
        some { job with status := .preparing, startedAt := some startedAt } := by
      rw [Db.get_modifyJob, found]
      rfl
    exact inv.request rfl (by rw [row]; simp) fun _ => ⟨_, row, .inl ⟨by simp, other⟩⟩

theorem PassInv.step {a : PassAction} (inv : PassInv cfg P p) (calm : Calm a) :
    PassInv cfg P (passStep cfg p a) := by
  have move := passMove cfg p a
  generalize passStep cfg p a = q at move
  cases move with
  | idle => exact inv
  | loop turn => exact inv.loop turn
  | checked mem queued activeAssignmentId =>
      refine inv.worker mem (by simp [Future.done, queued]) (.inl rfl) (fun r stage => by cases stage) ?_
      apply inv.state.imp (·.worker mem (.inl rfl))
      intro going
      exact going.worker inv.placed mem (.inl rfl) (fun _ => id) fun _ => trivial
  | @putBack f key mem queued halted =>
      refine inv.worker mem (by simp [Future.done, queued]) (.inr ⟨_, _, rfl⟩) ?_ (.inl (inv.putBack mem halted))
      exact defers_nothing fun r h => (Option.some.inj h).symm
  | @missing f key mem queued gone =>
      have row : ¬ P f.fileId := by
        intro pending
        rcases gone with job | file
        · exact inv.present.job job
        · exact inv.present.files _ pending file
      refine inv.worker mem (by simp [Future.done, queued]) (.inl rfl)
        (defers_nothing fun r h => (Option.some.inj h).symm) ?_
      apply inv.state.imp (·.worker mem (.inl rfl))
      intro going
      exact going.worker inv.placed mem (.inl rfl) (fun _ => id) fun pending => absurd pending row
  | @begins f key activeAssignmentId mem stage =>
      have writes : Writes f.fileId p.db (setFile p.db f.fileId (copyingFile activeAssignmentId)
        (copyingFile_id activeAssignmentId)) := .inr ⟨_, _, rfl⟩
      rw [Pass.beginCopy, if_pos rfl]
      refine inv.worker mem (by simp [Future.done, stage]) writes (fun r stage => by cases stage) ?_
      apply inv.state.imp (·.worker mem writes)
      intro going
      refine going.worker inv.placed mem writes (fun k => List.mem_append_left _) fun _ => ?_
      exact List.mem_append_right p.copies List.mem_cons_self
  | finishes mem stage =>
      obtain rfl := calm
      exact inv.finish mem stage
  | fails mem live unsaved nothing => exact absurd calm unsaved
  | @cancel key reason pc =>
      refine ⟨inv.placed.drop List.filter_sublist, inv.present, fun _ _ _ collecting => ?_, ?_⟩
      · cases pc.symm.trans collecting
      · cases reason with
        | exhausted =>
            refine inv.state.imp (fun doomed => ?_) fun going => ?_
            · rcases doomed with stopped | ⟨-, unended, -⟩
              · rw [pc] at stopped
                cases stopped
              · exact absurd pc unended
            · obtain ⟨-, idle, -⟩ := places_eq_nil.mp (going.emptied pc).1
              have same : (p.futures.filter fun g => g.key ≠ key) = p.futures := by
                rw [idle]
                rfl
              rw [same]
              exact going
        | stale | paused | targetFull => exact .inl (.inl (by simp only [pc]; rfl))
  | pause => exact inv.pause
  | supersede => exact inv.supersede _

end Tracking

/-- No file is in flight twice, and none is submitted more often than allowed. -/
def Disciplined (cfg : PassConfig) (p : Pass) : Prop :=
  ((p.futures.filter fun f => !f.done).map Future.fileId).Nodup ∧
    ∀ k, p.submissions.count k ≤ cfg.maxRetries + 1

theorem Placed.disciplined {cfg : PassConfig} {p : Pass} (h : Placed cfg p) : Disciplined cfg p := by
  obtain ⟨-, pool, -⟩ := List.nodup_append.mp h.distinct
  obtain ⟨flights, -, -⟩ := List.nodup_append.mp pool
  exact ⟨flights.sublist (List.filter_sublist.map _), h.bounded⟩

/-- The files of the job that are pending. -/
def PendingFile (cfg : PassConfig) (s : Db) (k : Nat) : Prop :=
  ∃ f ∈ s.files, f.id = k ∧ f.jobId = cfg.jobId ∧ f.status = .pending

theorem passInv_opened {cfg : PassConfig} {s : Db} (job : s.jobs.get cfg.jobId ≠ none)
    (maxWorkers : WorkerLimit) (now : Nat) : PassInv cfg (PendingFile cfg s) (.opened s maxWorkers now) where
  placed := placed_opened s maxWorkers now
  present := by
    refine ⟨job, ?_⟩
    rintro k ⟨f, mem, rfl, -⟩ gone
    exact get_eq_none_iff.mp gone f mem rfl
  collected _ _ _ pc := by cases pc
  state := .inr {
    tracked := fun k pending => .ahead (fun c hc => by cases hc) pending
    loaded := fun exhausted => by cases exhausted
    drained := fun waiting => by cases waiting
    emptied := fun ended => by cases ended }

theorem passInv_exec {cfg : PassConfig} {P : Nat → Prop} {p : Pass} {actions : List PassAction}
    (inv : PassInv cfg P p) (calm : ∀ a ∈ actions, Calm a) : PassInv cfg P (exec (passStep cfg) p actions) := by
  induction actions generalizing p with
  | nil => exact inv
  | cons a rest ih =>
      exact ih (inv.step (calm a List.mem_cons_self)) fun b mem => calm b (List.mem_cons_of_mem _ mem)

/-- A pass that ends with nothing left has copied and settled what was pending. -/
theorem PassInv.settled {cfg : PassConfig} {P : Nat → Prop} {p : Pass} (inv : PassInv cfg P p)
    (ended : p.pc = .ended .exhausted) {k : Nat} (pending : P k) : k ∈ p.copies ∧ Settled p.db k := by
  rcases inv.state with doomed | going
  · rcases doomed with stopped | ⟨-, unended, -⟩
    · rw [ended] at stopped
      cases stopped
    · exact absurd ended unended
  · obtain ⟨nothing, exhausted⟩ := going.emptied ended
    obtain ⟨buffer, idle, heap⟩ := places_eq_nil.mp nothing
    cases going.tracked k pending with
    | ahead beyond => exact absurd beyond (going.loaded exhausted k pending)
    | buffered mem =>
        rw [buffer] at mem
        cases mem
    | flying mem =>
        rw [idle] at mem
        cases mem
    | deferred mem =>
        rw [heap] at mem
        cases mem
    | settled out behind copied row => exact ⟨copied, row⟩

/-- Every scheduling pass, in every order of its steps, keeps to one attempt of
a file at a time and to the limit; when it ends with nothing left and no commit
has failed, every file that was pending has been copied and is settled. -/
theorem schedulingPass_correct (cfg : PassConfig) (s : Db) (maxWorkers : WorkerLimit) (now : Nat)
    (actions : List PassAction) (job : s.jobs.get cfg.jobId ≠ none) :
    Always (passStep cfg) (Disciplined cfg) (.opened s maxWorkers now) actions ∧
      ((∀ a ∈ actions, Calm a) →
        (exec (passStep cfg) (.opened s maxWorkers now) actions).pc = .ended .exhausted →
        ∀ k, PendingFile cfg s k →
          k ∈ (exec (passStep cfg) (.opened s maxWorkers now) actions).copies ∧
            Settled (exec (passStep cfg) (.opened s maxWorkers now) actions).db k) := by
  constructor
  · have start : Placed cfg (.opened s maxWorkers now) := placed_opened s maxWorkers now
    have keep : ∀ p a, Placed cfg p → True → Placed cfg (passStep cfg p a) := fun _ _ inv _ => inv.step
    exact (always_of_along keep start along_true).mono fun _ inv => inv.disciplined
  · intro calm ended k pending
    exact (passInv_exec (passInv_opened job maxWorkers now) calm).settled ended pending

end Ecube.Scheduler

namespace Ecube.Lab

open Transition Scheduler

/-- The database when the copy phase begins: two files are pending. -/
def copyPhase : Db :=
  (exec (execStep 1) (.launched started) ((List.range' 3 6).map fun now => .run (input now))).db

def passConfig : PassConfig := ⟨1, some 2, 1, 10, 4, 2, 100⟩

def turns (count now doneFirst : Nat) : List PassAction :=
  List.replicate count (.loop ⟨now, ⟨2, by decide⟩, doneFirst⟩)

def copied (key now : Nat) (outcome : AttemptOutcome) : List PassAction :=
  [.check key, .beginCopy key true, .finish key outcome now true]

/-- The second file fails once and is repeated. -/
def repeatedPass : List PassAction :=
  turns 7 1 0 ++ copied 1 5 (.failed "I/O failure") ++ copied 0 6 (.done "5feceb66".toList) ++
    turns 11 20 1 ++ copied 2 21 (.done "6b86b273".toList) ++ turns 9 30 2

end Ecube.Lab

namespace Ecube.Scheduler

open Transition

theorem schedulingPass_correct_repeatedPass :
    Lab.copyPhase.jobs.get Lab.passConfig.jobId ≠ none ∧
      (∀ a ∈ Lab.repeatedPass, Calm a) ∧
      (exec (passStep Lab.passConfig) (.opened Lab.copyPhase ⟨2, by decide⟩ 0) Lab.repeatedPass).pc =
        .ended .exhausted ∧
      Always (passStep Lab.passConfig) (Disciplined Lab.passConfig)
        (.opened Lab.copyPhase ⟨2, by decide⟩ 0) Lab.repeatedPass ∧
      Settled (exec (passStep Lab.passConfig) (.opened Lab.copyPhase ⟨2, by decide⟩ 0)
        Lab.repeatedPass).db 2 := by
  have job : Lab.copyPhase.jobs.get Lab.passConfig.jobId ≠ none := by decide
  have calm : ∀ a ∈ Lab.repeatedPass, Calm a := by decide
  have ended : (exec (passStep Lab.passConfig) (.opened Lab.copyPhase ⟨2, by decide⟩ 0)
      Lab.repeatedPass).pc = .ended .exhausted := by decide +kernel
  have pending : PendingFile Lab.passConfig Lab.copyPhase 2 := by
    unfold PendingFile
    decide +kernel
  have correct := schedulingPass_correct Lab.passConfig Lab.copyPhase ⟨2, by decide⟩ 0 Lab.repeatedPass job
  exact ⟨job, calm, ended, correct.1, (correct.2 calm ended 2 pending).2⟩

end Ecube.Scheduler
