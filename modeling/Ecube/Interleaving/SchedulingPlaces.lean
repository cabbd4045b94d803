import Mathlib.Data.List.Nodup
import Ecube.Interleaving.SchedulingPass

/-!
Every file that a scheduling pass has to do with is in one place: in the buffer,
in the pool or in the heap. A file is loaded once, because the cursor only moves
on, and each further attempt comes from the report of the one before it, so the
number of its submissions is bounded by the attempt it is at.

`Placed` is kept by every step, whichever commits fail.
-/

namespace Ecube.Scheduler

open Table Transition

/-! ### What is loaded -/

/-- A file beyond the cursor. -/
def Ahead (cursor : Option Nat) (k : Nat) : Prop := ∀ c ∈ cursor, c < k

section Loading

variable {s : Db} {jobId limit : Nat} {cursor : Option Nat}

theorem listPendingByJobAfterId_eq : listPendingByJobAfterId s jobId cursor limit =
    ((s.files.select (fun f => f.jobId = jobId ∧ f.status = .pending ∧ ∀ k ∈ cursor, k < f.id)
      fun a b => a.id ≤ b.id).map ExportFile.id).take limit :=
  List.map_take

theorem pairwise_listPending : (listPendingByJobAfterId s jobId cursor limit).Pairwise (· < ·) := by
  rw [listPendingByJobAfterId_eq]
  exact (pairwise_select_id s.files _).sublist (List.take_sublist _ _)

theorem nodup_listPending : (listPendingByJobAfterId s jobId cursor limit).Nodup :=
  pairwise_listPending.imp Nat.ne_of_lt

theorem ahead_of_mem_listPending {k : Nat} (h : k ∈ listPendingByJobAfterId s jobId cursor limit) :
    Ahead cursor k := by
  rw [listPendingByJobAfterId_eq] at h
  obtain ⟨r, mem, rfl⟩ := List.mem_map.mp (List.mem_of_mem_take h)
  exact (of_decide_eq_true (mem_select.mp mem).2).2.2

/-- The cursor moves to the largest key that is loaded. -/
theorem le_of_getLast?_listPending {last k : Nat}
    (h : (listPendingByJobAfterId s jobId cursor limit).getLast? = some last)
    (mem : k ∈ listPendingByJobAfterId s jobId cursor limit) : k ≤ last := by
  obtain ⟨init, eq⟩ := List.getLast?_eq_some_iff.mp h
  have ordered := @pairwise_listPending s jobId limit cursor
  rw [eq] at ordered mem
  rcases List.mem_append.mp mem with earlier | here
  · exact Nat.le_of_lt ((List.pairwise_append.mp ordered).2.2 k earlier last List.mem_cons_self)
  · exact Nat.le_of_eq (List.mem_singleton.mp here)

/-- No pending file is skipped: it is loaded, or stays beyond the cursor. -/
theorem listPending_complete (pos : 0 < limit) {r : ExportFile} (mem : r ∈ s.files)
    (job : r.jobId = jobId) (pending : r.status = .pending) (ahead : Ahead cursor r.id) :
    ∃ last, (listPendingByJobAfterId s jobId cursor limit).getLast? = some last ∧
      (r.id ∈ listPendingByJobAfterId s jobId cursor limit ∨ last < r.id) := by
  have ordered := pairwise_select_id s.files
    fun f => f.jobId = jobId ∧ f.status = .pending ∧ ∀ k ∈ cursor, k < f.id
  rw [listPendingByJobAfterId_eq]
  generalize listed : (s.files.select _ _).map _ = keys at ordered
  have here : r.id ∈ keys := by
    rw [← listed]
    exact List.mem_map_of_mem (mem_select.mpr ⟨mem, decide_eq_true ⟨job, pending, ahead⟩⟩)
  have nonempty : keys.take limit ≠ [] := by
    intro empty
    rcases List.take_eq_nil_iff.mp empty with none | none
    · omega
    · rw [none] at here
      cases here
  refine ⟨_, List.getLast?_eq_getLast_of_ne_nil nonempty, ?_⟩
  rw [← List.take_append_drop limit keys] at here ordered
  rcases List.mem_append.mp here with taken | left
  · exact .inl taken
  · exact .inr ((List.pairwise_append.mp ordered).2.2 _ (List.getLast_mem nonempty) _ left)

end Loading

/-! ### Every file is in one place -/

/-- The files the pass still has to do with. -/
def Pass.places (p : Pass) : List Nat :=
  p.pendingBuffer ++ (p.futures.map Future.fileId ++ p.deferredRetries.map DeferredRetry.fileId)

theorem mem_places_future {p : Pass} {f : Future} (h : f ∈ p.futures) : f.fileId ∈ p.places :=
  List.mem_append_right _ (List.mem_append_left _ (List.mem_map_of_mem h))

theorem mem_places_heap {p : Pass} {d : DeferredRetry} (h : d ∈ p.deferredRetries) : d.fileId ∈ p.places :=
  List.mem_append_right _ (List.mem_append_right _ (List.mem_map_of_mem h))

/-- A report defers the next attempt of its file, within the limit. -/
def Future.Defers (cfg : PassConfig) (f : Future) : Prop :=
  ∀ r, f.stage = .finished (some r) → ∀ d ∈ r.deferredRetry,
    d.fileId = f.fileId ∧ d.attempt = f.attempt + 1 ∧ d.attempt ≤ cfg.maxRetries

structure Placed (cfg : PassConfig) (p : Pass) : Prop where
  keys : (p.futures.map Future.key).Nodup
  issued : ∀ f ∈ p.futures, f.key < p.submissions.length
  distinct : p.places.Nodup
  behind : ∀ k ∈ p.places, ¬ Ahead p.pendingCursor k
  fresh : ∀ k, k ∈ p.pendingBuffer ∨ Ahead p.pendingCursor k → k ∉ p.submissions
  flying : ∀ f ∈ p.futures, p.submissions.count f.fileId ≤ f.attempt + 1 ∧ f.attempt ≤ cfg.maxRetries
  defers : ∀ f ∈ p.futures, f.Defers cfg
  deferred : ∀ d ∈ p.deferredRetries, p.submissions.count d.fileId ≤ d.attempt ∧ d.attempt ≤ cfg.maxRetries
  bounded : ∀ k, p.submissions.count k ≤ cfg.maxRetries + 1

section Places

variable {cfg : PassConfig} {p q : Pass}

theorem placed_opened (s : Db) (maxWorkers : WorkerLimit) (now : Nat) :
    Placed cfg (.opened s maxWorkers now) where
  keys := List.nodup_nil
  issued _ h := by cases h
  distinct := List.nodup_nil
  behind _ h := by cases h
  fresh _ _ := List.not_mem_nil
  flying _ h := by cases h
  defers _ h := by cases h
  deferred _ h := by cases h
  bounded _ := Nat.zero_le _

theorem Placed.of_same (inv : Placed cfg p) (cursor : q.pendingCursor = p.pendingCursor)
    (buffer : q.pendingBuffer = p.pendingBuffer) (deferred : q.deferredRetries = p.deferredRetries)
    (futures : q.futures = p.futures) (submissions : q.submissions = p.submissions) : Placed cfg q := by
  have places : q.places = p.places := by rw [Pass.places, buffer, futures, deferred, Pass.places]
  exact {
    keys := by rw [futures]; exact inv.keys
    issued := by rw [futures, submissions]; exact inv.issued
    distinct := by rw [places]; exact inv.distinct
    behind := by rw [places, cursor]; exact inv.behind
    fresh := by rw [buffer, cursor, submissions]; exact inv.fresh
    flying := by rw [futures, submissions]; exact inv.flying
    defers := by rw [futures]; exact inv.defers
    deferred := by rw [deferred, submissions]; exact inv.deferred
    bounded := by rw [submissions]; exact inv.bounded }

theorem count_append_of_ne {l : List Nat} {j k : Nat} (ne : k ≠ j) : (l ++ [j]).count k = l.count k := by
  rw [List.count_append, List.count_singleton, if_neg (by simpa using Ne.symm ne), Nat.add_zero]

theorem count_append_self (l : List Nat) (k : Nat) : (l ++ [k]).count k = l.count k + 1 := by
  rw [List.count_append, List.count_singleton_self]

/-- Submitting moves a file from one place to another. -/
theorem places_submit {buffer : List Nat} {deferred : List DeferredRetry} {fileId attempt : Nat}
    (places : (fileId :: (buffer ++ (p.futures.map Future.fileId ++ deferred.map DeferredRetry.fileId))).Perm
      p.places) : (Pass.submitFileAttempt { p with pendingBuffer := buffer, deferredRetries := deferred }
        fileId attempt).places.Perm p.places := by
  refine List.Perm.trans ?_ places
  simp only [Pass.places, Pass.submitFileAttempt, List.map_append, List.map_cons, List.map_nil,
    List.append_assoc, List.singleton_append]
  exact List.Perm.trans (List.Perm.append_left _ List.perm_middle) List.perm_middle

/-- The next attempt of a file is submitted: it leaves the buffer or the heap. -/
theorem Placed.submit (inv : Placed cfg p) {buffer : List Nat} {deferred : List DeferredRetry}
    {fileId attempt : Nat}
    (places : (fileId :: (buffer ++ (p.futures.map Future.fileId ++ deferred.map DeferredRetry.fileId))).Perm
      p.places) (sub : ∀ k ∈ buffer, k ∈ p.pendingBuffer) (sub' : ∀ d ∈ deferred, d ∈ p.deferredRetries)
    (count : p.submissions.count fileId ≤ attempt) (limit : attempt ≤ cfg.maxRetries) :
    Placed cfg (Pass.submitFileAttempt { p with pendingBuffer := buffer, deferredRetries := deferred }
      fileId attempt) := by
  obtain ⟨alone, others⟩ := List.nodup_cons.mp (places.nodup_iff.mpr inv.distinct)
  have behind : ¬ Ahead p.pendingCursor fileId := inv.behind fileId (places.subset List.mem_cons_self)
  have inBuffer : ∀ k ∈ buffer, k ≠ fileId := by
    rintro k mem rfl
    exact alone (List.mem_append_left _ mem)
  have inFutures : ∀ f ∈ p.futures, f.fileId ≠ fileId := by
    intro f mem same
    exact alone (List.mem_append_right _ (List.mem_append_left _ (same ▸ List.mem_map_of_mem mem)))
  have inHeap : ∀ d ∈ deferred, d.fileId ≠ fileId := by
    intro d mem same
    exact alone (List.mem_append_right _ (List.mem_append_right _ (same ▸ List.mem_map_of_mem mem)))
  have moved := @places_submit p buffer deferred fileId attempt places
  exact {
    keys := by
      rw [Pass.submitFileAttempt, List.map_append, List.map_singleton]
      refine List.nodup_append.mpr ⟨inv.keys, List.nodup_singleton _, ?_⟩
      rintro a ha b hb rfl
      obtain ⟨f, mem, rfl⟩ := List.mem_map.mp ha
      have := inv.issued f mem
      rw [List.mem_singleton.mp hb] at this
      exact absurd this (Nat.lt_irrefl _)
    issued := by
      intro f mem
      simp only [Pass.submitFileAttempt, List.length_append, List.length_singleton] at mem ⊢
      rcases List.mem_append.mp mem with old | new
      · exact Nat.lt_succ_of_lt (inv.issued f old)
      · rw [List.mem_singleton.mp new]
        exact Nat.lt_succ_self _
    distinct := moved.nodup_iff.mpr inv.distinct
    behind := fun k mem => inv.behind k (moved.subset mem)
    fresh := by
      intro k h mem
      have other : k ≠ fileId := by
        rintro rfl
        rcases h with mem | ahead
        · exact inBuffer k mem rfl
        · exact behind ahead
      rcases List.mem_append.mp mem with old | new
      · exact inv.fresh k (h.imp_left (sub k)) old
      · exact other (List.mem_singleton.mp new)
    flying := by
      intro f mem
      rcases List.mem_append.mp mem with old | new
      · rw [Pass.submitFileAttempt, count_append_of_ne (inFutures f old)]
        exact inv.flying f old
      · rw [List.mem_singleton.mp new, Pass.submitFileAttempt, count_append_self]
        exact ⟨Nat.succ_le_succ count, limit⟩
    defers := by
      intro f mem
      rcases List.mem_append.mp mem with old | new
      · exact inv.defers f old
      · rw [List.mem_singleton.mp new]
        rintro r ⟨⟩
    deferred := by
      intro d mem
      rw [Pass.submitFileAttempt, count_append_of_ne (inHeap d mem)]
      exact inv.deferred d (sub' d mem)
    bounded := by
      intro k
      rw [Pass.submitFileAttempt]
      by_cases same : k = fileId
      · rw [same, count_append_self]
        exact Nat.succ_le_succ (count.trans limit)
      · rw [count_append_of_ne same]
        exact inv.bounded k }

theorem Placed.load (inv : Placed cfg p) (empty : p.pendingBuffer = []) :
    Placed cfg (p.loadPendingBuffer cfg) := by
  unfold Pass.loadPendingBuffer
  dsimp only
  split
  · exact inv.of_same rfl rfl rfl rfl rfl
  · rename_i last found
    generalize loaded : listPendingByJobAfterId p.db cfg.jobId p.pendingCursor _ = keys at found
    have ahead : ∀ k ∈ keys, Ahead p.pendingCursor k := by
      rw [← loaded]
      exact fun k => ahead_of_mem_listPending
    have least : ∀ k ∈ keys, k ≤ last := by
      rw [← loaded] at found ⊢
      exact fun k => le_of_getLast?_listPending found
    have distinct : keys.Nodup := by
      rw [← loaded]
      exact nodup_listPending
    have last_mem : last ∈ keys := List.mem_of_getLast? found
    -- Beyond the new cursor is beyond the old one.
    have further : ∀ k, Ahead (some last) k → Ahead p.pendingCursor k := by
      intro k beyond c hc
      have := ahead last last_mem c hc
      have := beyond last rfl
      omega
    rw [empty, List.nil_append]
    have old : p.places = p.futures.map Future.fileId ++ p.deferredRetries.map DeferredRetry.fileId := by
      rw [Pass.places, empty, List.nil_append]
    exact { inv with
      distinct := by
        refine List.nodup_append.mpr ⟨distinct, old ▸ inv.distinct, ?_⟩
        rintro a new b mem rfl
        exact inv.behind a (old ▸ mem) (ahead a new)
      behind := by
        intro k mem beyond
        rcases List.mem_append.mp mem with new | mem
        · have := least k new
          have := beyond last rfl
          omega
        · exact inv.behind k (old ▸ mem) (further k beyond)
      fresh := by
        rintro k (new | beyond)
        · exact inv.fresh k (.inr (ahead k new))
        · exact inv.fresh k (.inr (further k beyond)) }

/-- Futures leave the pool. -/
theorem Placed.drop (inv : Placed cfg p) {futures : List Future} (sub : futures.Sublist p.futures) :
    Placed cfg { p with futures := futures } := by
  have places : (Pass.places { p with futures := futures }).Sublist p.places :=
    (List.Sublist.refl _).append ((sub.map _).append (List.Sublist.refl _))
  exact { inv with
    keys := inv.keys.sublist (sub.map _)
    issued := fun f mem => inv.issued f (sub.subset mem)
    distinct := inv.distinct.sublist places
    behind := fun k mem => inv.behind k (places.subset mem)
    flying := fun f mem => inv.flying f (sub.subset mem)
    defers := fun f mem => inv.defers f (sub.subset mem) }

/-- A retry goes to the heap. -/
theorem Placed.push (inv : Placed cfg p) {d : DeferredRetry} (out : d.fileId ∉ p.places)
    (behind : ¬ Ahead p.pendingCursor d.fileId) (count : p.submissions.count d.fileId ≤ d.attempt)
    (limit : d.attempt ≤ cfg.maxRetries) :
    Placed cfg { p with deferredRetries := p.deferredRetries.orderedInsert DeferredRetry.le d } := by
  have moved : (Pass.places { p with
      deferredRetries := p.deferredRetries.orderedInsert DeferredRetry.le d }).Perm (d.fileId :: p.places) := by
    have inserted := (List.perm_orderedInsert DeferredRetry.le d p.deferredRetries).map DeferredRetry.fileId
    refine List.Perm.trans (List.Perm.append_left _ (List.Perm.append_left _ inserted)) ?_
    exact List.Perm.trans (List.Perm.append_left _ List.perm_middle) List.perm_middle
  exact { inv with
    distinct := moved.nodup_iff.mpr (List.nodup_cons.mpr ⟨out, inv.distinct⟩)
    behind := by
      intro k mem
      rcases List.mem_cons.mp (moved.subset mem) with rfl | old
      · exact behind
      · exact inv.behind k old
    deferred := by
      intro e mem
      rcases (List.mem_orderedInsert DeferredRetry.le).mp mem with rfl | old
      · exact ⟨count, limit⟩
      · exact inv.deferred e old }

/-- A file in the pool is nowhere else. -/
theorem Placed.not_mem_drop (inv : Placed cfg p) {f : Future} (mem : f ∈ p.futures) :
    f.fileId ∉ Pass.places { p with futures := p.futures.filter fun g => g.key ≠ f.key } := by
  obtain ⟨-, pool, apart⟩ := List.nodup_append.mp inv.distinct
  obtain ⟨flights, -, apart'⟩ := List.nodup_append.mp pool
  have here : f.fileId ∈ p.futures.map Future.fileId := List.mem_map_of_mem mem
  intro elsewhere
  rcases List.mem_append.mp elsewhere with buffer | elsewhere
  · exact apart _ buffer _ (List.mem_append_left _ here) rfl
  · rcases List.mem_append.mp elsewhere with flying | heap
    · obtain ⟨g, kept, same⟩ := List.mem_map.mp flying
      obtain ⟨old, other⟩ := List.mem_filter.mp kept
      rw [List.inj_on_of_nodup_map flights old mem same] at other
      simp at other
    · exact apart' _ here _ heap rfl

/-- A collected future leaves the pool, and its retry goes to the heap. -/
theorem Placed.collect (inv : Placed cfg p) {f : Future} (mem : f ∈ p.futures) (rest : List Nat)
    (futureFailed targetFullDetected : Bool) :
    Placed cfg (p.collect f rest futureFailed targetFullDetected) := by
  have dropped : Placed cfg { p with futures := p.futures.filter fun g => g.key ≠ f.key } :=
    inv.drop List.filter_sublist
  unfold Pass.collect
  dsimp only
  cases retry : f.result.bind Report.deferredRetry with
  | none => exact dropped.of_same rfl rfl rfl rfl rfl
  | some d =>
      obtain ⟨r, result, deferral⟩ := Option.bind_eq_some_iff.mp retry
      have stage := stage_of_result result
      obtain ⟨same, next, limit⟩ := inv.defers f mem r stage d deferral
      have count := (inv.flying f mem).1
      rw [← same, ← next] at count
      have behind : ¬ Ahead p.pendingCursor d.fileId := by
        rw [same]
        exact inv.behind _ (mem_places_future mem)
      refine (dropped.push (same ▸ inv.not_mem_drop mem) behind count limit).of_same ?_ ?_ ?_ ?_ ?_ <;> rfl

theorem mem_withStage {key : Nat} {stage : Stage} {g : Future} (h : g ∈ (p.withStage key stage).futures) :
    (g ∈ p.futures ∧ g.key ≠ key) ∨ ∃ f ∈ p.futures, f.key = key ∧ g = { f with stage := stage } := by
  obtain ⟨f, mem, rfl⟩ := List.mem_map.mp h
  by_cases same : f.key = key
  · rw [if_pos same]
    exact .inr ⟨f, mem, same, rfl⟩
  · rw [if_neg same]
    exact .inl ⟨mem, same⟩

theorem map_withStage {α : Type} (column : Future → α) (key : Nat) (stage : Stage)
    (same : ∀ f : Future, column { f with stage := stage } = column f) :
    (p.withStage key stage).futures.map column = p.futures.map column := by
  rw [Pass.withStage, List.map_map]
  apply List.map_congr_left
  intro f _
  simp only [Function.comp]
  split
  · exact same f
  · rfl

theorem Placed.eq_of_key (inv : Placed cfg p) {f g : Future} (hf : f ∈ p.futures) (hg : g ∈ p.futures)
    (same : g.key = f.key) : g = f :=
  List.inj_on_of_nodup_map inv.keys hg hf same

/-- A worker goes on. -/
theorem Placed.worker (inv : Placed cfg p) {f : Future} (mem : f ∈ p.futures) {stage : Stage}
    (defers : Future.Defers cfg { f with stage := stage }) : Placed cfg (p.withStage f.key stage) := by
  have places : (p.withStage f.key stage).places = p.places := by
    rw [Pass.places, map_withStage Future.fileId f.key stage fun _ => rfl]
    rfl
  exact { inv with
    keys := by
      rw [map_withStage Future.key f.key stage fun _ => rfl]
      exact inv.keys
    issued := by
      intro g h
      rcases mem_withStage h with ⟨old, -⟩ | ⟨e, old, -, rfl⟩
      · exact inv.issued g old
      · exact inv.issued e old
    distinct := places ▸ inv.distinct
    behind := places ▸ inv.behind
    flying := by
      intro g h
      rcases mem_withStage h with ⟨old, -⟩ | ⟨e, old, -, rfl⟩
      · exact inv.flying g old
      · exact inv.flying e old
    defers := by
      intro g h
      rcases mem_withStage h with ⟨old, -⟩ | ⟨e, old, same, rfl⟩
      · exact inv.defers g old
      · rw [inv.eq_of_key mem old same]
        exact defers }

theorem Placed.loop (inv : Placed cfg p) (turn : LoopMove cfg p q) : Placed cfg q := by
  cases turn with
  | control h =>
      exact inv.of_same h.work.pendingCursor h.work.pendingBuffer h.work.deferredRetries h.work.futures
        h.work.submissions
  | @resubmit retry rest pc deferred =>
      have due : retry ∈ p.deferredRetries := by
        rw [deferred]
        exact List.mem_cons_self
      obtain ⟨count, limit⟩ := inv.deferred retry due
      refine inv.submit ?_ (fun _ mem => mem) (fun d mem => ?_) count limit
      · rw [Pass.places, deferred, List.map_cons]
        exact (List.Perm.trans (List.Perm.append_left _ List.perm_middle) List.perm_middle).symm
      · rw [deferred]
        exact List.mem_cons_of_mem _ mem
  | load pc empty => exact (inv.load empty).of_same rfl rfl rfl rfl rfl
  | @submit fileId rest pc buffer =>
      have next : fileId ∈ p.pendingBuffer := by
        rw [buffer]
        exact List.mem_cons_self
      have count : p.submissions.count fileId ≤ 0 :=
        Nat.le_of_eq (List.count_eq_zero.mpr (inv.fresh fileId (.inl next)))
      refine inv.submit ?_ (fun k mem => ?_) (fun _ mem => mem) count (Nat.zero_le _)
      · rw [Pass.places, buffer]
        exact List.Perm.refl _
      · rw [buffer]
        exact List.mem_cons_of_mem _ mem
  | collect pc mem same => exact inv.collect mem _ _ _

/-- A report of a worker defers the next attempt of its own file. -/
theorem defers_report {f : Future} {outcome : AttemptOutcome} {now : Nat} {saved : Bool} :
    Future.Defers cfg { f with stage := .finished (some (report cfg f outcome now saved)) } := by
  intro r stage d deferral
  obtain rfl : report cfg f outcome now saved = r := by
    injection stage with stage
    exact Option.some.inj stage
  unfold report at deferral
  split at deferral
  · rename_i retry
    cases saved with
    | false => cases deferral
    | true =>
        cases outcome with
        | failed errorMessage =>
            obtain rfl := Option.some.inj deferral
            exact ⟨rfl, rfl, of_decide_eq_true retry⟩
        | done checksum => cases retry
        | timeout errorMessage => cases retry
  · cases deferral

theorem defers_nothing {f : Future} {report : Option Report} (nothing : ∀ r, report = some r → r = .nothing) :
    Future.Defers cfg { f with stage := .finished report } := by
  intro r stage d deferral
  injection stage with stage
  rw [nothing r stage] at deferral
  cases deferral

theorem Placed.step {a : PassAction} (inv : Placed cfg p) : Placed cfg (passStep cfg p a) := by
  have move := passMove cfg p a
  generalize passStep cfg p a = q at move
  cases move with
  | idle => exact inv
  | loop turn => exact inv.loop turn
  | checked mem queued activeAssignmentId => exact inv.worker mem fun r stage => by cases stage
  | putBack mem queued halted =>
      refine (inv.worker mem (defers_nothing fun r h => ?_)).of_same rfl rfl rfl rfl rfl
      exact (Option.some.inj h).symm
  | missing mem queued gone => exact inv.worker mem (defers_nothing fun r h => (Option.some.inj h).symm)
  | begins mem stage =>
      have going : Placed cfg (p.withStage _ .copying) := inv.worker mem fun r stage => by cases stage
      rw [Pass.beginCopy, if_pos rfl]
      exact going.of_same rfl rfl rfl rfl rfl
  | finishes mem stage => exact (inv.worker mem defers_report).of_same rfl rfl rfl rfl rfl
  | fails mem live unsaved nothing => exact inv.worker mem (defers_nothing nothing)
  | cancel pc => exact inv.drop List.filter_sublist
  | pause => exact inv.of_same rfl rfl rfl rfl rfl
  | supersede => exact inv.of_same rfl rfl rfl rfl rfl

end Places

end Ecube.Scheduler
