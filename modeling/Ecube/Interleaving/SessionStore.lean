import Ecube.Basic.Transition

/-!
The sessions that are kept in Redis (`RedisSessionMiddleware` in `app/session.py`).

A request loads the session of its cookie when it arrives. When its response starts,
the session is deleted if it is empty, written if it has changed, and its lifetime is
renewed otherwise. Nothing compares what is stored then with what was loaded.

One session id is modelled, with the requests that carry it. A session that gets a new
id is stored under another key. `D` stands for the JSON text of a session with sorted
keys, by which the middleware compares sessions.
-/

namespace Ecube.Session

open Transition

/-! ### Requests -/

/-- What `get` finds under the key. -/
inductive Stored (D : Type*) where
  | missing
  /-- not JSON, or not a dictionary -/
  | malformed
  | session (data : D)
  deriving DecidableEq, Repr

/-- The operation that a response asks Redis for. -/
inductive Operation (D : Type*) where
  | delete
  | setex (data : D)
  /-- `setex` under a new id -/
  | create
  | expire
  /-- nothing to be stored -/
  | none
  deriving DecidableEq, Repr

inductive Stage (D : Type*) where
  | arrived
  | running
  | responding (operation : Operation D)
  | finished
  deriving DecidableEq, Repr

/-- `loaded` is present if the session was loaded: then `session_id` is set. -/
structure Request (D : Type*) where
  loaded : Option D
  stage : Stage D
  deriving DecidableEq, Repr

structure State (D : Type*) where
  stored : Stored D
  requests : List (Request D)
  deriving DecidableEq, Repr

inductive Action (D : Type*) where
  | arrive
  /-- `get`, which may raise an exception -/
  | load (k : Nat) (raises : Bool)
  /-- the response starts with this session; without one it cannot be written as JSON -/
  | respond (k : Nat) (session : Option D)
  /-- the operation reaches Redis, or fails -/
  | perform (k : Nat) (fails : Bool)
  /-- the session's lifetime ends -/
  | timeout
  deriving DecidableEq, Repr

section Steps

variable {D : Type*} [DecidableEq D]

/-- What the middleware asks for at the start of a response. -/
def respond (empty : D) (loaded : Option D) : Option D → Operation D
  | .none => .none
  | some session =>
      if session = empty ∧ loaded.isSome then .delete
      else if session ≠ loaded.getD empty ∨ session ≠ empty ∧ loaded = Option.none then
        if loaded.isSome then .setex session else .create
      else if session ≠ empty ∧ loaded.isSome then .expire
      else .none

/-- What a load returns: a session that is not found is not loaded. -/
def Stored.load : Stored D → Option D
  | .session data => some data
  | .missing | .malformed => Option.none

/-- The effect of an operation on the key. -/
def Operation.perform (stored : Stored D) : Operation D → Stored D
  | .delete => .missing
  | .setex data => .session data
  | .create | .expire | .none => stored

namespace State

/-- Request `k`, if it stands at `stage`, is replaced. -/
def load (s : State D) (k : Nat) (raises : Bool) : State D :=
  match s.requests[k]? with
  | some ⟨_, .arrived⟩ =>
      let loaded := if raises then Option.none else s.stored.load
      { s with requests := s.requests.set k ⟨loaded, .running⟩ }
  | _ => s

def respond (empty : D) (s : State D) (k : Nat) (session : Option D) : State D :=
  match s.requests[k]? with
  | some ⟨loaded, .running⟩ =>
      let operation := Session.respond empty loaded session
      { s with requests := s.requests.set k ⟨loaded, .responding operation⟩ }
  | _ => s

def perform (s : State D) (k : Nat) (fails : Bool) : State D :=
  match s.requests[k]? with
  | some ⟨loaded, .responding operation⟩ =>
      { stored := if fails then s.stored else operation.perform s.stored
        requests := s.requests.set k ⟨loaded, .finished⟩ }
  | _ => s

end State

def step (empty : D) (s : State D) : Action D → State D
  | .arrive => { s with requests := s.requests ++ [⟨Option.none, .arrived⟩] }
  | .load k raises => s.load k raises
  | .respond k session => s.respond empty k session
  | .perform k fails => s.perform k fails
  | .timeout => { s with stored := .missing }

end Steps

/-! ### Sessions that come back -/

section Requests

variable {D : Type*} {s : State D} {k j : Nat} {r r' : Request D}

/-- A request that is replaced, and the others that stay. -/
theorem getElem?_set_cases {l : List (Request D)} (h : (l.set k r)[j]? = some r') :
    (j = k ∧ r' = r) ∨ l[j]? = some r' := by
  by_cases same : k = j
  · subst same
    have bound : k < l.length := by simpa using (List.getElem?_eq_some_iff.mp h).1
    rw [List.getElem?_set_self bound] at h
    exact .inl ⟨rfl, (Option.some.inj h).symm⟩
  · rw [List.getElem?_set_ne same] at h
    exact .inr h

/-- A request that arrives has loaded nothing. -/
theorem getElem?_arrive (h : (s.requests ++ [⟨none, .arrived⟩])[j]? = some r) :
    s.requests[j]? = some r ∨ r = ⟨none, .arrived⟩ := by
  by_cases old : j < s.requests.length
  · rw [List.getElem?_append_left old] at h
    exact .inl h
  · right
    rw [List.getElem?_append_right (Nat.le_of_not_lt old)] at h
    exact List.mem_singleton.mp (List.mem_of_getElem? h)

/-- Request `k` is about to write the data. -/
def Writes (s : State D) (k : Nat) (data : D) : Prop :=
  ∃ loaded, s.requests[k]? = some ⟨loaded, .responding (.setex data)⟩

/-- Request `k` has loaded the session and not yet performed its operation. -/
def Holds (s : State D) (k : Nat) (old : D) : Prop :=
  ∃ stage, s.requests[k]? = some ⟨some old, stage⟩ ∧ stage ≠ .finished

/-- What a request is about to write is not empty, and differs from what it loaded. -/
def WritesChanged (empty : D) (s : State D) : Prop :=
  ∀ r ∈ s.requests, ∀ data, r.stage = .responding (.setex data) →
    ∃ old, r.loaded = some old ∧ data ≠ old ∧ data ≠ empty

end Requests

section Cleared

variable {D : Type*} [DecidableEq D] {empty : D} {s : State D} {k : Nat} {data : D}

theorem respond_eq_setex {loaded session : Option D}
    (h : respond empty loaded session = .setex data) :
    ∃ old, loaded = some old ∧ data ≠ old ∧ data ≠ empty := by
  cases session with
  | none => exact absurd h nofun
  | some session =>
      cases loaded with
      | none =>
          simp only [respond, Option.isSome_none, Bool.false_eq_true, and_false, if_false] at h
          split at h <;> exact absurd h nofun
      | some old =>
          by_cases cleared : session = empty
          · rw [respond, if_pos ⟨cleared, rfl⟩] at h
            exact absurd h nofun
          rw [respond, if_neg fun both => cleared both.1] at h
          by_cases changed : session = old
          · rw [if_neg (by simp [changed])] at h
            split at h <;> exact absurd h nofun
          · rw [if_pos (.inl changed)] at h
            cases h
            exact ⟨old, rfl, changed, cleared⟩

theorem writesChanged_step (h : WritesChanged empty s) (a : Action D) :
    WritesChanged empty (step empty s a) := by
  cases a with
  | arrive =>
      intro r mem data writes
      rcases List.mem_append.mp mem with old | new
      · exact h r old data writes
      · rw [List.mem_singleton.mp new] at writes
        exact absurd writes nofun
  | load k raises =>
      rw [step, State.load]
      split
      next =>
        intro r mem data writes
        rcases List.mem_or_eq_of_mem_set mem with old | rfl
        · exact h r old data writes
        · exact absurd writes nofun
      next => exact h
  | respond k session =>
      rw [step, State.respond]
      split
      next =>
        intro r mem data writes
        rcases List.mem_or_eq_of_mem_set mem with old | rfl
        · exact h r old data writes
        · exact respond_eq_setex (Stage.responding.inj writes)
      next => exact h
  | perform k fails =>
      rw [step, State.perform]
      split
      next =>
        intro r mem data writes
        rcases List.mem_or_eq_of_mem_set mem with old | rfl
        · exact h r old data writes
        · exact absurd writes nofun
      next => exact h
  | timeout => exact h

/-- A request that has loaded the session had done so before, or loads it now. -/
theorem holds_step {a : Action D} {j : Nat} {old : D} (h : Holds (step empty s a) j old) :
    Holds s j old ∨ s.stored.load = some old := by
  obtain ⟨stage, place, unfinished⟩ := h
  cases a with
  | arrive =>
      rcases getElem?_arrive place with before | new
      · exact .inl ⟨stage, before, unfinished⟩
      · exact absurd (congrArg Request.loaded new) nofun
  | load k raises =>
      rw [step, State.load] at place
      split at place
      next =>
        rcases getElem?_set_cases place with ⟨-, now⟩ | before
        · right
          cases raises with
          | true => exact absurd now nofun
          | false => exact (congrArg Request.loaded now).symm
        · exact .inl ⟨stage, before, unfinished⟩
      next => exact .inl ⟨stage, place, unfinished⟩
  | respond k session =>
      rw [step, State.respond] at place
      left
      split at place
      next loaded here =>
        rcases getElem?_set_cases place with ⟨rfl, now⟩ | before
        · have same : some old = loaded := congrArg Request.loaded now
          exact ⟨.running, same ▸ here, nofun⟩
        · exact ⟨stage, before, unfinished⟩
      next => exact ⟨stage, place, unfinished⟩
  | perform k fails =>
      rw [step, State.perform] at place
      left
      split at place
      next =>
        rcases getElem?_set_cases place with ⟨-, now⟩ | before
        · exact absurd (congrArg Request.stage now) unfinished
        · exact ⟨stage, before, unfinished⟩
      next => exact ⟨stage, place, unfinished⟩
  | timeout => exact .inl ⟨stage, place, unfinished⟩

/-- Only a write puts a session where there was none. -/
theorem stored_step {a : Action D} (missing : s.stored.load = none)
    (loaded : (step empty s a).stored.load ≠ none) :
    ∃ k data, a = .perform k false ∧ Writes s k data := by
  cases a with
  | arrive => exact absurd missing loaded
  | load k raises =>
      rw [step, State.load] at loaded
      split at loaded <;> exact absurd missing loaded
  | respond k session =>
      rw [step, State.respond] at loaded
      split at loaded <;> exact absurd missing loaded
  | perform k fails =>
      rw [step, State.perform] at loaded
      split at loaded
      next old operation here =>
        cases fails with
        | true => exact absurd missing loaded
        | false =>
            cases operation with
            | setex data => exact ⟨k, data, rfl, old, here⟩
            | delete => exact absurd rfl loaded
            | create | expire | none => exact absurd missing loaded
      next => exact absurd missing loaded
  | timeout => exact absurd rfl loaded

/-- The session comes back by the write of a request that has loaded it before. -/
def WrittenBack (empty : D) (s : State D) (rest : List (Action D)) : Prop :=
  ∃ k old data pre post, rest = pre ++ .perform k false :: post ∧ Holds s k old ∧
    (exec (step empty) s pre).requests[k]? = some ⟨some old, .responding (.setex data)⟩ ∧
    data ≠ old ∧ data ≠ empty

/-- From a state without the session, one comes back only by the first write of a
request that has loaded it before. -/
theorem writtenBack (changed : WritesChanged empty s) (missing : s.stored.load = none)
    {rest : List (Action D)} (back : (exec (step empty) s rest).stored.load ≠ none) :
    WrittenBack empty s rest := by
  induction rest generalizing s with
  | nil => exact absurd missing back
  | cons a rest ih =>
      by_cases still : (step empty s a).stored.load = none
      · obtain ⟨k, old, data, pre, post, rfl, holds, writes⟩ :=
          ih (writesChanged_step changed a) still back
        have before := (holds_step holds).resolve_right (by simp [missing])
        exact ⟨k, old, data, a :: pre, post, rfl, before, writes⟩
      · obtain ⟨k, data, rfl, loaded, here⟩ := stored_step missing still
        obtain ⟨old, rfl, differs⟩ := changed _ (List.mem_of_getElem? here) data rfl
        exact ⟨k, old, data, [], rest, rfl, ⟨_, here, nofun⟩, here, differs⟩

theorem load_delete {loaded : Option D}
    (deletes : s.requests[k]? = some ⟨loaded, .responding .delete⟩) :
    (step empty s (.perform k false)).stored.load = none := by
  rw [step, State.perform, deletes]
  rfl

end Cleared

/-- After a completed delete, a session is loaded again only if a request that had loaded
it before the delete has written it afterwards, with data that it had changed. -/
theorem cleared_session_written_back {D : Type*} [DecidableEq D] {empty : D} {stored : Stored D}
    {first rest : List (Action D)} {k : Nat} {loaded : Option D}
    (deletes : (exec (step empty) ⟨stored, []⟩ first).requests[k]? =
      some ⟨loaded, .responding .delete⟩)
    (back : (exec (step empty) ⟨stored, []⟩ (first ++ .perform k false :: rest)).stored.load ≠
      none) :
    ∃ j old data pre post, rest = pre ++ .perform j false :: post ∧
      Holds (exec (step empty) ⟨stored, []⟩ first) j old ∧
      (exec (step empty) ⟨stored, []⟩ (first ++ .perform k false :: pre)).requests[j]? =
        some ⟨some old, .responding (.setex data)⟩ ∧
      data ≠ old ∧ data ≠ empty := by
  have changed : WritesChanged empty (exec (step empty) ⟨stored, []⟩ first) := by
    apply exec_rule _ fun r mem => absurd mem List.not_mem_nil
    exact fun s a h => writesChanged_step h a
  have split : ∀ after, exec (step empty) ⟨stored, []⟩ (first ++ .perform k false :: after) =
      exec (step empty) (step empty (exec (step empty) ⟨stored, []⟩ first) (.perform k false))
        after := fun _ => List.foldl_append ..
  simp only [split] at back ⊢
  generalize exec (step empty) ⟨stored, []⟩ first = s at deletes changed back ⊢
  obtain ⟨j, old, data, pre, post, eq, holds, writes⟩ :=
    writtenBack (writesChanged_step changed _) (load_delete deletes) back
  refine ⟨j, old, data, pre, post, eq, ?_, writes⟩
  -- The delete itself is no load.
  obtain ⟨stage, place, unfinished⟩ := holds
  rw [step, State.perform, deletes] at place
  rcases getElem?_set_cases place with ⟨-, now⟩ | before
  · exact absurd (congrArg Request.stage now) unfinished
  · exact ⟨stage, before, unfinished⟩

/-- Two requests load the session, and the first empties it. -/
def loadedTwice : List (Action (List (String × String))) :=
  [.arrive, .arrive, .load 0 false, .load 1 false, .respond 0 (some [])]

/-- The second has changed its copy. -/
def slowerRequest : List (Action (List (String × String))) :=
  [.respond 1 (some [("theme", "light")]), .perform 1 false]

theorem slower_request_written_back :
    ∃ j old data pre post, slowerRequest = pre ++ .perform j false :: post ∧
      Holds (exec (step []) ⟨.session [("theme", "dark")], []⟩ loadedTwice) j old ∧
      (exec (step []) ⟨.session [("theme", "dark")], []⟩
        (loadedTwice ++ .perform 0 false :: pre)).requests[j]? =
          some ⟨some old, .responding (.setex data)⟩ ∧
      data ≠ old ∧ data ≠ [] :=
  cleared_session_written_back rfl (by decide)

/-- The slower request writes its copy after the delete, and the session is loaded again. -/
theorem cleared_session_returns :
    ¬ ∀ (stored : Stored (List (String × String)))
        (first rest : List (Action (List (String × String)))) (k : Nat)
        (loaded : Option (List (String × String))),
      (exec (step []) ⟨stored, []⟩ first).requests[k]? =
          some ⟨loaded, .responding .delete⟩ →
        ∀ data, (exec (step []) ⟨stored, []⟩ (first ++ .perform k false :: rest)).stored.load =
          some data → data = [] := by
  intro cleared
  have empty := cleared (.session [("theme", "dark")]) loadedTwice slowerRequest 0
    (some [("theme", "dark")]) (by decide) [("theme", "light")] (by decide)
  exact absurd empty nofun

end Ecube.Session
