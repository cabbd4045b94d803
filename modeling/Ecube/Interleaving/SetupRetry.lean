import Ecube.Interleaving.Setup

/-!
Retrying a failed setup.

Every error after the INSERT of the row goes through a handler that deletes the
row, except an error of the runtime settings: they are written after the commit of
the row and before the handlers. The row is gone when a request ends with an error
exactly when that is not where it failed.
-/

namespace Ecube.Setup

open Transition

/-- The request ends with an error after its row was inserted, and a DELETE of the
row has succeeded if there was one. -/
def EndsFailed (demo : Option DemoSettings) (s : State) (k : Nat) (answer : Answer) : Prop :=
  ∃ r r', s.requests[k]? = some r ∧ r.place.inserted = true ∧
    (r.place = .releasing → answer = .ok) ∧
    (step demo s (.statement k answer)).requests[k]? = some r' ∧ r'.place = .done .failed

/-- The row is gone, and the next request is not rejected with 409 if it meets no
other: nobody holds the lock of its process, and it is performed alone. -/
def Retriable (demo : Option DemoSettings) (s : State) : Prop :=
  s.row = none ∧ ∀ (username : Str) (process : Nat) (answers : List Answer) (r : Request),
    s.processLocked process = false →
    (exec (step demo) (step demo s (.receive username process))
      (answers.map (.statement s.requests.length))).requests[s.requests.length]? = some r →
    r.place ≠ .done .conflict

/-- A request that ends with an error after the INSERT leaves the setup retriable. -/
def LeavesRetriable (demo : Option DemoSettings) (s : State) : Action → Prop
  | .statement k answer =>
      EndsFailed demo s k answer → Retriable demo (step demo s (.statement k answer))
  | _ => True

/-- The runtime settings cannot be written, and the row is there. -/
def NotPersisted (s : State) : Action → Prop
  | .statement k answer =>
      answer ≠ .ok ∧ s.row ≠ none ∧ ∃ r ∈ s.requests[k]?, r.place = .persisting
  | _ => False

instance (s : State) (a : Action) : Decidable (NotPersisted s a) :=
  match a with
  | .statement k answer => inferInstanceAs (Decidable
      (answer ≠ .ok ∧ s.row ≠ none ∧ ∃ r ∈ s.requests[k]?, r.place = .persisting))
  | .receive _ _ | .removeAccount _ => inferInstanceAs (Decidable False)

section Retry

variable {demo : Option DemoSettings} {s t u : State} {k i : Nat} {r : Request} {answer : Answer}

/-- The place of the request after a statement, and its process. -/
theorem request_setPlace {place : Place} (requests : u.requests = s.requests)
    (found : s.requests[k]? = some r) :
    (u.setPlace k place).requests[k]? = some { r with place := place } := by
  rw [getElem?_setPlace, requests, found, Option.map_some, if_pos rfl]

/-- The other requests keep their places. -/
theorem other_setPlace {place : Place} (other : i ≠ k) :
    (u.setPlace k place).requests[i]? = u.requests[i]? := by
  rw [getElem?_setPlace]
  simp [Ne.symm other]

theorem early_eq_false_of_inserted {place : Place} (inserted : place.inserted = true) :
    place.early = false := by
  cases place <;> first | rfl | cases inserted

/-- With an error a request ends after the DELETE of the row, or where the settings
are written. -/
theorem endsFailed_cases (ends : EndsFailed demo s k answer) :
    (step demo s (.statement k answer)).row = none ∨
      NotPersisted s (.statement k answer) := by
  obtain ⟨r, r', found, inserted, deleted, after, failed⟩ := ends
  simp only [step, found] at after ⊢
  have move : Move s k r answer (nextStatement demo s k r answer) := move_nextStatement
  generalize nextStatement demo s k r answer = t at after move ⊢
  cases move with
  | stay place => rw [place] at inserted; cases inserted
  | check early next =>
      rw [early_eq_false_of_inserted inserted] at early
      cases early
  | locked place locked => rw [place] at inserted; cases inserted
  | clear place ok => rw [place] at inserted; cases inserted
  | insert place free => rw [place] at inserted; cases inserted
  | refused place taken => rw [place] at inserted; cases inserted
  | @work u place row requests _ next settled =>
      rw [request_setPlace requests found] at after
      cases after
      obtain rfl : place = .done .failed := failed
      cases next
  | notPersisted place wrong =>
      by_cases free : s.row = none
      · exact .inl free
      · exact .inr ⟨wrong, free, r, found, place⟩
  | undo place =>
      rw [getElem?_setPlace, Option.map_eq_some_iff] at after
      obtain ⟨q, -, rfl⟩ := after
      rw [if_pos rfl] at failed
      cases failed
  | complete setup =>
      rw [State.completeOsSetup, List.getElem?_modify, found] at after
      simp only [if_true, Option.map_eq_map, Option.map_some, Option.some.injEq] at after
      rw [← after] at failed
      cases failed
  | finish place =>
      rw [request_setPlace rfl found] at after
      cases after
      cases failed
  | stuck place wrong => exact absurd (deleted place) wrong
  | release place => exact .inl rfl

/-! ### A request that is performed alone -/

/-- Request `k` of the process is performed alone since `s`: the others are where
they were, nobody has inserted a row before it, and it has not been rejected. -/
structure Alone (s : State) (k process : Nat) (t : State) : Prop where
  others : ∀ i q, i ≠ k → t.requests[i]? = some q →
    ∃ q₀ ∈ s.requests, q.process = q₀.process ∧ q.place = q₀.place
  mine : ∃ r, t.requests[k]? = some r ∧ r.process = process ∧ r.place ≠ .done .conflict ∧
    (r.place.early = true → t.row = none)

theorem Alone.setPlace {process : Nat} {place : Place} (alone : Alone s k process t)
    (requests : u.requests = t.requests) (accepted : place ≠ .done .conflict)
    (row : place.early = true → u.row = none) : Alone s k process (u.setPlace k place) := by
  obtain ⟨r, found, mine, -, -⟩ := alone.mine
  refine ⟨fun i q other hq => ?_, _, request_setPlace requests found, mine, accepted, row⟩
  rw [other_setPlace other, requests] at hq
  exact alone.others i q other hq

/-- A place after the INSERT does not look for the row any more. -/
theorem Alone.setPlace_of_late {process : Nat} {place : Place} (alone : Alone s k process t)
    (requests : u.requests = t.requests) (accepted : place ≠ .done .conflict)
    (late : place.early = false) : Alone s k process (u.setPlace k place) := by
  apply alone.setPlace requests accepted
  intro early
  rw [late] at early
  cases early

theorem Alone.step {process : Nat} (alone : Alone s k process t)
    (unlocked : s.processLocked process = false) (answer : Answer) :
    Alone s k process (step demo t (.statement k answer)) := by
  obtain ⟨r, found, mine, accepted, row⟩ := alone.mine
  simp only [Setup.step, found]
  have move : Move t k r answer (nextStatement demo t k r answer) := move_nextStatement
  generalize nextStatement demo t k r answer = t' at move ⊢
  cases move with
  | stay place => exact alone
  | check early next =>
      refine alone.setPlace rfl ?_ fun _ => row early
      rintro rfl
      rcases next with early | same | same
      · cases early
      · cases same
      · cases same
  | locked place locked =>
      -- The lock would be held by another request, which was there before.
      exfalso
      obtain ⟨q, mem, hq⟩ := List.any_eq_true.mp locked
      obtain ⟨same, locked⟩ := of_decide_eq_true hq
      obtain ⟨i, hi⟩ := List.getElem?_of_mem mem
      by_cases own : i = k
      · subst own
        obtain rfl := Option.some.inj (found.symm.trans hi)
        rw [place] at locked
        cases locked
      · obtain ⟨q₀, old, process₀, place₀⟩ := alone.others i q own hi
        have : s.processLocked process = true := by
          refine List.any_eq_true.mpr ⟨q₀, old, decide_eq_true ⟨?_, place₀ ▸ locked⟩⟩
          rw [← process₀, same, mine]
        rw [unlocked] at this
        cases this
  | clear place ok =>
      exact Alone.setPlace (u := t.setRow none) alone rfl (by simp) fun _ => rfl
  | insert place free =>
      exact Alone.setPlace_of_late (u := t.setRow (some r.username)) alone rfl (by simp) rfl
  | refused place taken => exact absurd (row (by rw [place]; rfl)) taken
  | @work u place same requests inserted next settled =>
      apply alone.setPlace_of_late requests
      · rintro rfl
        cases next
      · exact early_eq_false_of_inserted next
  | notPersisted place failed => exact alone.setPlace_of_late rfl (by simp) rfl
  | undo place =>
      have removed : Alone s k process (t.removeAccount r.username) := by
        refine ⟨fun i q other hq => ?_, ⟨r.username, r.process, r.place,
          r.standing && decide (r.username ≠ r.username)⟩, ?_, mine, accepted, row⟩
        · obtain ⟨q', before, ⟨process', place'⟩, -⟩ := request_removeAccount hq
          rw [process', place']
          exact alone.others i q' other before
        · simp [State.removeAccount, found]
      exact removed.setPlace_of_late rfl (by simp) rfl
  | complete setup =>
      refine ⟨fun i q other hq => ?_, ⟨r.username, r.process, .seeding,
        decide (r.username ∈ t.accounts)⟩, ?_, mine, by simp, by simp [Place.early]⟩
      · simp only [getElem?_completeOsSetup, if_neg (Ne.symm other), Option.map_id'] at hq
        exact alone.others i q other hq
      · rw [getElem?_completeOsSetup, found, Option.map_some, if_pos rfl]
  | finish place => exact alone.setPlace_of_late rfl (by simp) rfl
  | stuck place failed => exact alone.setPlace_of_late rfl (by simp) rfl
  | release place =>
      exact Alone.setPlace_of_late (u := t.setRow none) alone rfl (by simp) rfl

/-- Without the row the next request is not rejected. -/
theorem retriable_of_row (free : s.row = none) : Retriable demo s := by
  refine ⟨free, fun username process answers r unlocked found => ?_⟩
  have start : Alone s s.requests.length process (step demo s (.receive username process)) := by
    refine ⟨fun i q other hq => ?_, ⟨username, process, .hasAdmin false, false⟩, ?_, rfl, nofun,
      fun _ => free⟩
    · rcases request_receive hq with old | ⟨last, -⟩
      · exact ⟨q, List.mem_of_getElem? old, rfl, rfl⟩
      · exact absurd last other
    · simp [step]
  -- One statement after the other.
  have performed : ∀ (t : State), Alone s s.requests.length process t →
      Alone s s.requests.length process
        (exec (step demo) t (answers.map (.statement s.requests.length))) := by
    clear found
    induction answers with
    | nil => exact fun t alone => alone
    | cons answer rest ih => exact fun t alone => ih _ (alone.step unlocked answer)
  obtain ⟨q, hq, -, accepted, -⟩ := (performed _ start).mine
  obtain rfl := Option.some.inj (found.symm.trans hq)
  exact accepted

theorem leavesRetriable_iff {a : Action} : LeavesRetriable demo s a ↔ ¬ NotPersisted s a := by
  cases a with
  | receive username process => exact ⟨fun _ => id, fun _ => trivial⟩
  | removeAccount username => exact ⟨fun _ => id, fun _ => trivial⟩
  | statement k answer =>
      constructor
      · rintro leaves ⟨wrong, taken, r, found, place⟩
        rw [Option.mem_def] at found
        have next : step demo s (.statement k answer) = s.setPlace k (.done .failed) := by
          simp only [step, found, nextStatement, place]
          rw [if_pos wrong]
        have ends : EndsFailed demo s k answer := by
          refine ⟨r, { r with place := .done .failed }, found, by rw [place]; rfl, fun at_ => ?_,
            ?_, rfl⟩
          · rw [place] at at_
            cases at_
          · rw [next]
            exact request_setPlace rfl found
        have gone := (leaves ends).1
        rw [next] at gone
        exact taken gone
      · intro persisted ends
        exact retriable_of_row ((endsFailed_cases ends).resolve_right persisted)

end Retry

/-- In a run of any requests, every request that fails after the INSERT leaves the
setup retriable exactly when none fails to write the settings while the row is
there. -/
theorem setup_retriable_iff {demo : Option DemoSettings} {s : State} {actions : List Action} :
    Along (step demo) (LeavesRetriable demo) s actions ↔
      Along (step demo) (fun s a => ¬ NotPersisted s a) s actions := by
  constructor
  · exact Along.mono fun _ _ => leavesRetriable_iff.mp
  · exact Along.mono fun _ _ => leavesRetriable_iff.mpr

/-- The settings cannot be written once. -/
def notPersistedRun : List Action :=
  .receive "alice".toList 1 :: statements 0 5 ++ .statement 0 .error ::
    .receive "alice".toList 1 :: statements 1 5

/-- The row stays, and the next request is rejected. -/
theorem setup_not_retriable :
    (exec (step none) (initial none []) notPersistedRun).requests.map Request.place =
        [.done .failed, .done .conflict] ∧
      ¬ ∀ (row : Option Str) (accounts : List Str) (actions : List Action),
        Along (step none) (LeavesRetriable none) (initial row accounts) actions := by
  refine ⟨by decide, fun leaves => ?_⟩
  have persisted : Along (step none) (fun s a => ¬ NotPersisted s a) (initial none [])
      notPersistedRun :=
    Along.mono (fun _ _ => leavesRetriable_iff.mp) (leaves none [] notPersistedRun)
  exact absurd persisted (by decide)

end Ecube.Setup
