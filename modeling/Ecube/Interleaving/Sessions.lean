import Ecube.Basic.PosixPath
import Ecube.Interleaving.SessionStore
import Mathlib.Logic.Function.Basic

/-!
The ids and lifetimes of sessions in Redis (`session.RedisSessionMiddleware`).

The store holds every session under its id. A session that is not written or renewed for its
maximal age is gone. A Redis command that fails has no effect.

* `project_exec`: to each id the store is the store of the one session: the requests with other
  cookies are requests that found nothing.
* `issued_of_alive`: every session was made by the server, under an id of its own.
* `renewed_of_alive`: a session is there only if a response set its cookie within the maximal age.
-/

namespace Ecube.Sessions

open PosixPath Transition
open Session (Operation Stage)

/-- The session of a request: a JSON object, with its keys in order. -/
abbrev Data (J : Type) := List (Str × J)

variable {J : Type}

/-- The value of a key and when it expires. A value that is no JSON object has no data. -/
structure Value (J : Type) where
  data : Option (Data J)
  expires : Nat

/-- The session that the response has, unless it has no JSON text. -/
structure Request (J : Type) where
  cookie : Option Str
  loaded : Option (Data J)
  response : Option (Data J)
  stage : Stage (Data J)
  deriving DecidableEq

structure State (J : Type) where
  redis : Str → Option (Value J)
  now : Nat
  requests : List (Request J)

/-- No key is set. -/
def empty : State J := ⟨fun _ => none, 0, []⟩

def keyPrefix : Str := "ecube:session:".toList

def key (sessionId : Str) : Str := keyPrefix ++ sessionId

def urlSafe (c : Char) : Bool := c.isAlphanum || c == '-' || c == '_'

/-- `_is_valid_session_id`. -/
def isValidSessionId (value : Str) : Bool :=
  22 ≤ value.length && value.length ≤ 128 && value.all urlSafe

/-- A cookie that a response sets or deletes. -/
structure Cookie where
  sessionId : Str
  delete : Bool
  deriving DecidableEq, Repr

/-- A request arrives with a cookie, loads its session, starts a response with a session, and its
operation reaches Redis, with a token for a new id. Redis may fail. -/
inductive Step (J : Type) where
  | arrive (cookie : Option Str)
  | load (k : Nat) (raises : Bool)
  | respond (k : Nat) (session : Option (Data J))
  | perform (k : Nat) (fails : Bool) (token : Str)
  | tick (seconds : Nat)

/-! ### Redis -/

namespace State

def get (state : State J) (key : Str) : Option (Value J) :=
  (state.redis key).filter fun value => state.now < value.expires

def setex (state : State J) (maxAge : Nat) (key : Str) (data : Data J) : State J :=
  { state with redis := Function.update state.redis key (some ⟨some data, state.now + maxAge⟩) }

def delete (state : State J) (key : Str) : State J :=
  { state with redis := Function.update state.redis key none }

/-- A key that is gone stays gone. -/
def expire (state : State J) (maxAge : Nat) (key : Str) : State J :=
  match state.get key with
  | none => state
  | some value =>
      { state with
        redis := Function.update state.redis key
          (some { value with expires := state.now + maxAge }) }

/-! ### Requests -/

/-- The session that a cookie names. -/
def find (state : State J) (cookie : Option Str) : Option (Data J) :=
  (cookie.filter isValidSessionId).bind fun sessionId =>
    (state.get (key sessionId)).bind Value.data

def load (state : State J) (k : Nat) (raises : Bool) : State J :=
  match state.requests[k]? with
  | some ⟨cookie, _, response, .arrived⟩ =>
      let loaded := if raises then none else state.find cookie
      { state with requests := state.requests.set k ⟨cookie, loaded, response, .running⟩ }
  | _ => state

variable [DecidableEq J]

def respond (state : State J) (k : Nat) (session : Option (Data J)) : State J :=
  match state.requests[k]? with
  | some ⟨cookie, loaded, _, .running⟩ =>
      let operation := Session.respond [] loaded session
      { state with
        requests := state.requests.set k ⟨cookie, loaded, session, .responding operation⟩ }
  | _ => state

/-- The id of the session of an operation. -/
def sessionId (cookie : Option Str) (token : Str) : Operation (Data J) → Option Str
  | .none => none
  | .create => some token
  | .delete | .setex _ | .expire => cookie

/-- An operation under an id. -/
def operate (state : State J) (maxAge : Nat) (sessionId : Str) (response : Option (Data J)) :
    Operation (Data J) → State J
  | .none => state
  | .create => state.setex maxAge (key sessionId) (response.getD [])
  | .setex data => state.setex maxAge (key sessionId) data
  | .expire => state.expire maxAge (key sessionId)
  | .delete => state.delete (key sessionId)

def perform (state : State J) (maxAge k : Nat) (fails : Bool) (token : Str) : State J :=
  match state.requests[k]? with
  | some ⟨cookie, loaded, response, .responding operation⟩ =>
      let performed :=
        if fails then state
        else
          match sessionId cookie token operation with
          | some sessionId => state.operate maxAge sessionId response operation
          | none => state
      { performed with requests := state.requests.set k ⟨cookie, loaded, response, .finished⟩ }
  | _ => state

/-- The cookie of the response. One is deleted also where Redis fails. -/
def setCookie (state : State J) : Step J → Option Cookie
  | .perform k fails token =>
      state.requests[k]?.bind fun request =>
        match request.stage with
        | .responding operation =>
            if fails && operation != .delete then none
            else (sessionId request.cookie token operation).map fun sessionId =>
              ⟨sessionId, operation == .delete⟩
        | _ => none
  | _ => none

def step (maxAge : Nat) (state : State J) : Step J → State J
  | .arrive cookie =>
      { state with requests := state.requests ++ [⟨cookie, none, none, .arrived⟩] }
  | .load k raises => state.load k raises
  | .respond k session => state.respond k session
  | .perform k fails token => state.perform maxAge k fails token
  | .tick seconds => { state with now := state.now + seconds }

end State

/-- The id of the session that a step makes. -/
def State.creates [DecidableEq J] (state : State J) : Step J → Option Str
  | .perform k false token =>
      (state.requests[k]?.filter fun request => request.stage = .responding .create).map
        fun _ => token
  | _ => none

/-- The token that a new session would have as its id. -/
def Step.token : Step J → Option Str
  | .perform _ _ token => some token
  | _ => none

/-! ### One session -/

section Keys

variable {state : State J} {sessionId : Str}

def stored : Option (Value J) → Session.Stored (Data J)
  | none => .missing
  | some ⟨none, _⟩ => .malformed
  | some ⟨some data, _⟩ => .session data

theorem key_inj {a b : Str} : key a = key b ↔ a = b := List.append_right_inj keyPrefix

theorem load_stored (value : Option (Value J)) : (stored value).load = value.bind Value.data := by
  match value with
  | none => rfl
  | some ⟨none, _⟩ => rfl
  | some ⟨some _, _⟩ => rfl

theorem get_update (other : Str) (value : Option (Value J)) :
    ({ state with redis := Function.update state.redis (key other) value } : State J).get
        (key sessionId) =
      if other = sessionId then value.filter fun value => state.now < value.expires
      else state.get (key sessionId) := by
  rw [State.get]
  dsimp only
  by_cases same : other = sessionId
  · rw [if_pos same, same, Function.update_self]
  · rw [if_neg same, Function.update_of_ne fun equal => same (key_inj.mp equal).symm]
    rfl

end Keys

section Projection

variable [DecidableEq J]

/-- A request with another cookie has loaded nothing of this session. -/
def Request.project (sessionId : Str) (request : Request J) : Session.Request (Data J) :=
  if request.cookie = some sessionId then ⟨request.loaded, request.stage⟩
  else
    ⟨none,
      match request.stage with
      | .responding _ => .responding (Session.respond [] none request.response)
      | stage => stage⟩

def State.project (state : State J) (sessionId : Str) : Session.State (Data J) where
  stored := stored (state.get (key sessionId))
  requests := state.requests.map (Request.project sessionId)

variable {state : State J} {maxAge k : Nat} {sessionId : Str}

/-- A request that has loaded nothing leaves this session as it is. -/
theorem perform_respond_none (value : Session.Stored (Data J)) (response : Option (Data J)) :
    (Session.respond [] none response).perform value = value := by
  cases response with
  | none => rfl
  | some data =>
      rw [Session.respond, if_neg (by simp)]
      split
      · rfl
      · split <;> rfl

omit [DecidableEq J] in
theorem get_operate_of_ne {other : Str} (differ : other ≠ sessionId)
    (response : Option (Data J)) (operation : Operation (Data J)) :
    (state.operate maxAge other response operation).get (key sessionId) =
      state.get (key sessionId) := by
  cases operation with
  | none => rfl
  | create => exact (get_update other _).trans (if_neg differ)
  | setex data => exact (get_update other _).trans (if_neg differ)
  | delete => exact (get_update other _).trans (if_neg differ)
  | expire =>
      rw [State.operate, State.expire]
      split
      · rfl
      · exact (get_update other _).trans (if_neg differ)

omit [DecidableEq J] in
/-- An operation other than one for a new session does to the key what it does to the session. -/
theorem stored_operate (pos : 0 < maxAge) (response : Option (Data J))
    {operation : Operation (Data J)} (old : operation ≠ .create) :
    stored ((state.operate maxAge sessionId response operation).get (key sessionId)) =
      operation.perform (stored (state.get (key sessionId))) := by
  have later : state.now < state.now + maxAge := Nat.lt_add_of_pos_right pos
  cases operation with
  | none => rfl
  | create => exact absurd rfl old
  | setex data =>
      rw [State.operate, State.setex, get_update, if_pos rfl, Option.filter_some,
        if_pos (decide_eq_true later)]
      rfl
  | delete =>
      rw [State.operate, State.delete, get_update, if_pos rfl]
      rfl
  | expire =>
      rw [State.operate, State.expire]
      cases found : state.get (key sessionId) with
      | none => rw [found]; rfl
      | some value =>
          dsimp only
          rw [get_update, if_pos rfl, Option.filter_some, if_pos (decide_eq_true later)]
          rcases value with ⟨_ | data, expires⟩ <;> rfl

variable (sessionId) in
theorem getElem?_project {request : Request J} (found : state.requests[k]? = some request) :
    (state.project sessionId).requests[k]? = some (request.project sessionId) := by
  rw [State.project, List.getElem?_map, found]
  rfl

/-- What a step is to the session. A request with another cookie finds nothing. -/
def State.action (state : State J) (maxAge : Nat) (sessionId : Str) :
    Step J → List (Session.Action (Data J))
  | .arrive _ => [.arrive]
  | .load k raises =>
      let own := state.requests[k]?.any fun request => request.cookie = some sessionId
      [.load k (raises || !own || !isValidSessionId sessionId)]
  | .respond k session => [.respond k session]
  | .perform k fails _ => [.perform k fails]
  | .tick seconds =>
      if (state.get (key sessionId)).isSome &&
          ((state.step maxAge (.tick seconds)).get (key sessionId)).isNone then [.timeout]
      else []

def State.actions (maxAge : Nat) (sessionId : Str) :
    State J → List (Step J) → List (Session.Action (Data J))
  | _, [] => []
  | state, step :: steps =>
      state.action maxAge sessionId step ++
        (state.step maxAge step).actions maxAge sessionId steps

variable (sessionId) in
theorem stage_project (request : Request J) :
    (request.project sessionId).stage = .arrived ∧ request.stage = .arrived ∨
    (request.project sessionId).stage = .running ∧ request.stage = .running ∨
    (∃ operation operation', (request.project sessionId).stage = .responding operation ∧
      request.stage = .responding operation') ∨
    (request.project sessionId).stage = .finished ∧ request.stage = .finished := by
  obtain ⟨cookie, loaded, response, stage⟩ := request
  rw [Request.project]
  split <;> cases stage <;> simp

theorem exists_project {request : Session.Request (Data J)}
    (found : (state.project sessionId).requests[k]? = some request) :
    ∃ whole, state.requests[k]? = some whole ∧ whole.project sessionId = request := by
  rw [State.project, List.getElem?_map] at found
  exact Option.map_eq_some_iff.mp found

theorem project_load (raises : Bool) : (state.load k raises).project sessionId =
    exec (Session.step []) (state.project sessionId)
      (state.action maxAge sessionId (.load k raises)) := by
  rw [State.action, exec, List.foldl_cons, List.foldl_nil, Session.step, State.load]
  split
  next cookie loaded response found =>
    have here := getElem?_project sessionId found
    rw [found, Option.any_some, Session.State.load, here]
    by_cases own : cookie = some sessionId
    · subst own
      rw [Request.project, if_pos rfl]
      dsimp only
      rw [State.project, List.map_set, Request.project, if_pos rfl]
      have loads : (if raises then none else state.find (some sessionId)) =
          if raises || !decide (some sessionId = some sessionId) || !isValidSessionId sessionId then
            none
          else (state.project sessionId).stored.load := by
        rw [State.find, State.project, load_stored, Option.filter_some, decide_eq_true rfl]
        cases raises <;> cases isValidSessionId sessionId <;> rfl
      rw [loads]
      rfl
    · rw [Request.project, if_neg own]
      dsimp only
      rw [State.project, List.map_set, Request.project, if_neg own, decide_eq_false own]
      cases raises <;> rfl
  next other =>
    rw [Session.State.load]
    split
    next loaded found =>
      obtain ⟨⟨cookie, before, response, stage⟩, here, same⟩ := exists_project found
      have stages := stage_project sessionId ⟨cookie, before, response, stage⟩
      rw [same] at stages
      obtain rfl : stage = .arrived := by simpa using stages
      exact absurd here (other cookie before response)
    next => rfl

theorem project_respond (session : Option (Data J)) : (state.respond k session).project sessionId =
    exec (Session.step []) (state.project sessionId)
      (state.action maxAge sessionId (.respond k session)) := by
  rw [State.action, exec, List.foldl_cons, List.foldl_nil, Session.step, State.respond]
  split
  next cookie loaded response found =>
    have here := getElem?_project sessionId found
    rw [Session.State.respond, here]
    by_cases own : cookie = some sessionId
    · rw [Request.project, if_pos own]
      rw [State.project, List.map_set, Request.project, if_pos own]
      rfl
    · rw [Request.project, if_neg own]
      rw [State.project, List.map_set, Request.project, if_neg own]
      rfl
  next other =>
    rw [Session.State.respond]
    split
    next loaded found =>
      obtain ⟨⟨cookie, before, response, stage⟩, here, same⟩ := exists_project found
      have stages := stage_project sessionId ⟨cookie, before, response, stage⟩
      rw [same] at stages
      obtain rfl : stage = .running := by simpa using stages
      exact absurd here (other cookie before response)
    next => rfl

omit [DecidableEq J] in
/-- The session of the operation of another request is not this one. -/
theorem get_perform_of_ne {cookie : Option Str} {token : Str} {response : Option (Data J)}
    {operation : Operation (Data J)} (new : token ≠ sessionId)
    (other : cookie ≠ some sessionId ∨ operation = .create) :
    (match State.sessionId cookie token operation with
      | some sessionId => state.operate maxAge sessionId response operation
      | none => state).get (key sessionId) = state.get (key sessionId) := by
  cases named : State.sessionId cookie token operation with
  | none => rfl
  | some id =>
      refine get_operate_of_ne ?_ response operation
      rintro rfl
      cases operation with
      | none => cases named
      | create => exact new (Option.some.inj named)
      | setex data => exact other.elim (· named) nofun
      | delete => exact other.elim (· named) nofun
      | expire => exact other.elim (· named) nofun

theorem project_perform (pos : 0 < maxAge) (fails : Bool) {token : Str}
    (new : token ≠ sessionId) : (state.perform maxAge k fails token).project sessionId =
      exec (Session.step []) (state.project sessionId)
        (state.action maxAge sessionId (.perform k fails token)) := by
  rw [State.action, exec, List.foldl_cons, List.foldl_nil, Session.step, State.perform]
  split
  next cookie loaded response operation found =>
    have here := getElem?_project sessionId found
    rw [Session.State.perform, here]
    by_cases own : cookie = some sessionId
    · rw [Request.project, if_pos own, State.project, List.map_set, Request.project, if_pos own]
      dsimp only
      refine congrArg₂ Session.State.mk ?_ rfl
      cases fails with
      | true => rfl
      | false =>
          rw [if_neg Bool.false_ne_true, if_neg Bool.false_ne_true]
          by_cases created : operation = .create
          · refine (congrArg stored (get_perform_of_ne new (.inr created))).trans ?_
            rw [created]
            rfl
          · subst own
            cases operation with
            | none => rfl
            | create => exact absurd rfl created
            | setex data => exact stored_operate pos response created
            | delete => exact stored_operate pos response created
            | expire => exact stored_operate pos response created
    · rw [Request.project, if_neg own, State.project, List.map_set, Request.project, if_neg own]
      dsimp only
      refine congrArg₂ Session.State.mk ?_ rfl
      cases fails with
      | true => rfl
      | false =>
          rw [if_neg Bool.false_ne_true, if_neg Bool.false_ne_true, perform_respond_none]
          exact congrArg stored (get_perform_of_ne new (.inl own))
  next other =>
    rw [Session.State.perform]
    split
    next loaded operation found =>
      obtain ⟨⟨cookie, before, response, stage⟩, here, same⟩ := exists_project found
      have stages := stage_project sessionId ⟨cookie, before, response, stage⟩
      rw [same] at stages
      obtain ⟨operation', rfl⟩ : ∃ operation', stage = .responding operation' := by
        simpa using stages
      exact absurd here (other cookie before response operation')
    next => rfl

theorem project_tick (seconds : Nat) :
    (state.step maxAge (.tick seconds)).project sessionId =
      exec (Session.step []) (state.project sessionId)
        (state.action maxAge sessionId (.tick seconds)) := by
  have gone : (state.step maxAge (.tick seconds)).get (key sessionId) = state.get (key sessionId) ∨
      (state.step maxAge (.tick seconds)).get (key sessionId) = none := by
    rw [State.step, State.get, State.get]
    cases state.redis (key sessionId) with
    | none => exact .inl rfl
    | some value =>
        rw [Option.filter_some, Option.filter_some]
        by_cases later : state.now + seconds < value.expires
        · rw [if_pos (decide_eq_true later), if_pos (decide_eq_true (by omega))]
          exact .inl rfl
        · rw [if_neg (by simpa using later)]
          exact .inr rfl
  rw [State.action]
  rcases gone with same | gone
  · rw [same, State.project, same, State.project]
    cases state.get (key sessionId) <;> rfl
  · rw [gone, State.project, gone]
    cases found : state.get (key sessionId) with
    | none =>
        rw [State.project, found]
        rfl
    | some value => rfl

variable (state) in
theorem project_step (pos : 0 < maxAge) {step : Step J} (new : step.token ≠ some sessionId) :
    (state.step maxAge step).project sessionId =
      exec (Session.step []) (state.project sessionId) (state.action maxAge sessionId step) := by
  cases step with
  | arrive cookie =>
      have nothing : Request.project sessionId (⟨cookie, none, none, .arrived⟩ : Request J) =
          ⟨none, .arrived⟩ := by
        rw [Request.project]
        split <;> rfl
      rw [State.step, State.project, List.map_append, List.map_singleton, nothing]
      rfl
  | load k raises => exact project_load raises
  | respond k session => exact project_respond session
  | perform k fails token =>
      exact project_perform pos fails fun same => new (congrArg some same)
  | tick seconds => exact project_tick seconds

variable (state) in
/-- To each id that is not made anew, a run of the store is a run of the one session. -/
theorem project_exec (pos : 0 < maxAge) {steps : List (Step J)}
    (new : ∀ step ∈ steps, step.token ≠ some sessionId) :
    (exec (State.step maxAge) state steps).project sessionId =
      exec (Session.step []) (state.project sessionId) (state.actions maxAge sessionId steps) := by
  induction steps generalizing state with
  | nil => rfl
  | cons step steps ih =>
      have now := project_step state pos (new step List.mem_cons_self)
      have later := ih (state.step maxAge step)
        fun other mem => new other (List.mem_cons_of_mem _ mem)
      rw [exec, List.foldl_cons, ← exec, later, now, State.actions, exec, exec, exec,
        List.foldl_append]

end Projection

/-! ### Ids and lifetimes -/

section Ids

variable [DecidableEq J] {state : State J} {maxAge : Nat} {sessionId : Str}

def State.alive (state : State J) (sessionId : Str) : Bool := (state.get (key sessionId)).isSome

/-- A request has loaded the session. -/
def State.carried (state : State J) (sessionId : Str) : Prop :=
  ∃ request ∈ state.requests, request.cookie = some sessionId ∧ request.loaded ≠ none

/-- The operations are those that the responses ask for. -/
def State.Asked (state : State J) : Prop :=
  ∀ request ∈ state.requests, ∀ operation, request.stage = .responding operation →
    operation = Session.respond [] request.loaded request.response

omit [DecidableEq J] in
theorem alive_iff : state.alive sessionId = true ↔
    ∃ value, state.redis (key sessionId) = some value ∧ state.now < value.expires := by
  rw [State.alive, State.get, Option.isSome_iff_exists]
  simp only [Option.filter_eq_some_iff, decide_eq_true_eq]

omit [DecidableEq J] in
theorem alive_of_find {cookie : Option Str} {data : Data J} (found : state.find cookie = some data)
    (named : cookie = some sessionId) : state.alive sessionId = true := by
  rw [State.find, named] at found
  obtain ⟨id, valid, value⟩ := Option.bind_eq_some_iff.mp found
  obtain ⟨same, -⟩ := Option.filter_eq_some_iff.mp valid
  obtain rfl := Option.some.inj same
  obtain ⟨value, got, -⟩ := Option.bind_eq_some_iff.mp value
  exact Option.isSome_of_eq_some got

/-- A request that loaded nothing asks for no session but a new one. -/
theorem respond_none (response : Option (Data J)) :
    Session.respond [] none response = .none ∨ Session.respond [] none response = .create := by
  cases response with
  | none => exact .inl rfl
  | some data =>
      rw [Session.respond, if_neg (by simp)]
      split
      · exact .inr rfl
      · exact .inl (if_neg (by simp))

variable (state maxAge sessionId) in
/-- What a step does to the key of a session: nothing, or it is gone, or it is the session of the
cookie that is set, and lasts for the maximal age. -/
theorem redis_step (step : Step J) :
    (state.step maxAge step).redis (key sessionId) = state.redis (key sessionId) ∨
      (state.step maxAge step).redis (key sessionId) = none ∨
      ((∃ data, (state.step maxAge step).redis (key sessionId) =
          some ⟨data, state.now + maxAge⟩) ∧
        state.setCookie step = some ⟨sessionId, false⟩ ∧
        (state.creates step = some sessionId ∨ ∃ request ∈ state.requests, ∃ operation,
          request.cookie = some sessionId ∧ request.stage = .responding operation ∧
          operation ≠ .none ∧ operation ≠ .create)) := by
  cases step with
  | arrive cookie => exact .inl rfl
  | load k raises =>
      rw [State.step, State.load]
      split <;> exact .inl rfl
  | respond k session =>
      rw [State.step, State.respond]
      split <;> exact .inl rfl
  | tick seconds => exact .inl rfl
  | perform k fails token =>
      rw [State.step, State.perform]
      split
      next cookie loaded response operation found =>
        have mem := List.mem_of_getElem? found
        cases fails with
        | true => exact .inl rfl
        | false =>
            dsimp only
            rw [if_neg Bool.false_ne_true, State.setCookie, found, Option.bind_some]
            dsimp only
            rw [Bool.false_and, if_neg Bool.false_ne_true]
            cases named : State.sessionId cookie token operation with
            | none => exact .inl rfl
            | some id =>
                dsimp only
                by_cases own : id = sessionId
                · subst own
                  cases operation with
                  | none => cases named
                  | create =>
                      have made : state.creates (.perform k false token) = some id := by
                        rw [State.creates, found, Option.filter_some, decide_eq_true rfl]
                        exact named
                      exact .inr (.inr ⟨⟨_, Function.update_self _ _ _⟩, rfl, .inl made⟩)
                  | setex data =>
                      exact .inr (.inr ⟨⟨_, Function.update_self _ _ _⟩, rfl,
                        .inr ⟨_, mem, _, named, rfl, nofun, nofun⟩⟩)
                  | delete => exact .inr (.inl (Function.update_self _ _ _))
                  | expire =>
                      rw [State.operate, State.expire]
                      split
                      · exact .inl rfl
                      · exact .inr (.inr ⟨⟨_, Function.update_self _ _ _⟩, rfl,
                          .inr ⟨_, mem, _, named, rfl, nofun, nofun⟩⟩)
                · have other : ∀ value, Function.update state.redis (key id) value
                      (key sessionId) = state.redis (key sessionId) :=
                    fun value => Function.update_of_ne (fun same => own (key_inj.mp same).symm) _ _
                  left
                  cases operation with
                  | none => rfl
                  | create => exact other _
                  | setex data => exact other _
                  | delete => exact other _
                  | expire =>
                      rw [State.operate, State.expire]
                      split
                      · rfl
                      · exact other _
      next => exact .inl rfl

omit [DecidableEq J] in
theorem requests_perform {k : Nat} {fails : Bool} {token : Str} {request : Request J}
    (mem : request ∈ (state.perform maxAge k fails token).requests) :
    ∃ before ∈ state.requests, request.cookie = before.cookie ∧ request.loaded = before.loaded ∧
      (request = before ∨ request.stage = .finished) := by
  rw [State.perform] at mem
  split at mem
  next cookie loaded response operation found =>
    rcases List.mem_or_eq_of_mem_set mem with old | rfl
    · exact ⟨request, old, rfl, rfl, .inl rfl⟩
    · exact ⟨_, List.mem_of_getElem? found, rfl, rfl, .inr rfl⟩
  next => exact ⟨request, mem, rfl, rfl, .inl rfl⟩

theorem asked_step (asked : state.Asked) (step : Step J) : (state.step maxAge step).Asked := by
  intro request mem operation asks
  cases step with
  | arrive cookie =>
      rcases List.mem_append.mp mem with old | new
      · exact asked request old operation asks
      · rw [List.mem_singleton.mp new] at asks
        cases asks
  | load k raises =>
      rw [State.step, State.load] at mem
      split at mem
      next =>
        rcases List.mem_or_eq_of_mem_set mem with old | rfl
        · exact asked request old operation asks
        · cases asks
      next => exact asked request mem operation asks
  | respond k session =>
      rw [State.step, State.respond] at mem
      split at mem
      next =>
        rcases List.mem_or_eq_of_mem_set mem with old | rfl
        · exact asked request old operation asks
        · exact (Stage.responding.inj asks).symm
      next => exact asked request mem operation asks
  | perform k fails token =>
      obtain ⟨before, old, -, -, rfl | done⟩ := requests_perform mem
      · exact asked request old operation asks
      · rw [done] at asks
        cases asks
  | tick seconds => exact asked request mem operation asks

theorem carried_of_step {step : Step J} (carried : (state.step maxAge step).carried sessionId) :
    state.carried sessionId ∨ state.alive sessionId = true := by
  obtain ⟨request, mem, named, loaded⟩ := carried
  cases step with
  | arrive cookie =>
      rcases List.mem_append.mp mem with old | new
      · exact .inl ⟨request, old, named, loaded⟩
      · rw [List.mem_singleton.mp new] at loaded
        exact absurd rfl loaded
  | load k raises =>
      rw [State.step, State.load] at mem
      split at mem
      next cookie _ response found =>
        rcases List.mem_or_eq_of_mem_set mem with old | rfl
        · exact .inl ⟨request, old, named, loaded⟩
        · cases raises with
          | true => exact absurd rfl loaded
          | false =>
              obtain ⟨data, held⟩ := Option.ne_none_iff_exists'.mp loaded
              exact .inr (alive_of_find held named)
      next => exact .inl ⟨request, mem, named, loaded⟩
  | respond k session =>
      rw [State.step, State.respond] at mem
      split at mem
      next cookie before _ found =>
        rcases List.mem_or_eq_of_mem_set mem with old | rfl
        · exact .inl ⟨request, old, named, loaded⟩
        · exact .inl ⟨_, List.mem_of_getElem? found, named, loaded⟩
      next => exact .inl ⟨request, mem, named, loaded⟩
  | perform k fails token =>
      obtain ⟨before, old, cookie, same, -⟩ := requests_perform mem
      exact .inl ⟨before, old, cookie ▸ named, same ▸ loaded⟩
  | tick seconds => exact .inl ⟨request, mem, named, loaded⟩

theorem now_step_le (step : Step J) : state.now ≤ (state.step maxAge step).now := by
  cases step with
  | arrive cookie => exact Nat.le_refl _
  | load k raises =>
      rw [State.step, State.load]
      split <;> exact Nat.le_refl _
  | respond k session =>
      rw [State.step, State.respond]
      split <;> exact Nat.le_refl _
  | tick seconds => exact Nat.le_add_right _ _
  | perform k fails token =>
      rw [State.step, State.perform]
      split
      next cookie loaded response operation found =>
        dsimp only
        split
        · exact Nat.le_refl _
        · split
          next id _ =>
            cases operation with
            | none | create | setex | delete => exact Nat.le_refl _
            | expire =>
                rw [State.operate, State.expire]
                split <;> exact Nat.le_refl _
          next => exact Nat.le_refl _
      next => exact Nat.le_refl _

theorem alive_of_step (asked : state.Asked) {step : Step J}
    (alive : (state.step maxAge step).alive sessionId = true) :
    state.alive sessionId = true ∨ state.carried sessionId ∨
      state.creates step = some sessionId := by
  obtain ⟨value, found, later⟩ := alive_iff.mp alive
  rcases redis_step state maxAge sessionId step with
    same | gone | ⟨-, -, new | ⟨request, mem, operation, named, asks, some', old⟩⟩
  · refine .inl (alive_iff.mpr ⟨value, same ▸ found, ?_⟩)
    exact Nat.lt_of_le_of_lt (now_step_le step) later
  · rw [gone] at found
    cases found
  · exact .inr (.inr new)
  · refine .inr (.inl ⟨request, mem, named, fun nothing => ?_⟩)
    have made := asked request mem operation asks
    rw [nothing] at made
    rcases respond_none request.response with none' | create
    · exact some' (made.trans none')
    · exact old (made.trans create)

/-- Every session that is there or was loaded was made by a step of the run, under the id that the
server chose for it. -/
theorem issued_of_alive {steps : List (Step J)}
    (held : (exec (State.step maxAge) empty steps).alive sessionId = true ∨
      (exec (State.step maxAge) empty steps).carried sessionId) :
    ∃ before step after, steps = before ++ step :: after ∧
      (exec (State.step maxAge) empty before).creates step = some sessionId := by
  induction steps using List.reverseRecOn with
  | nil =>
      rcases held with alive | ⟨request, mem, -⟩
      · cases alive
      · cases mem
  | append_singleton steps step ih =>
      rw [exec, List.foldl_append, ← exec] at held
      have nothing : (empty : State J).Asked := fun request mem => absurd mem List.not_mem_nil
      have keep : ∀ (state : State J) (step : Step J), state.Asked →
          (state.step maxAge step).Asked := fun _ step asked => asked_step asked step
      have asked : (exec (State.step maxAge) empty steps).Asked :=
        exec_rule keep nothing
      have before : (exec (State.step maxAge) empty steps).alive sessionId = true ∨
          (exec (State.step maxAge) empty steps).carried sessionId ∨
          (exec (State.step maxAge) empty steps).creates step = some sessionId := by
        rcases held with alive | carried
        · exact alive_of_step asked alive
        · rcases carried_of_step carried with carried | alive
          · exact .inr (.inl carried)
          · exact .inl alive
      rcases before with alive | carried | new
      · obtain ⟨before, made, after, rfl, creates⟩ := ih (.inl alive)
        exact ⟨before, made, after ++ [step], by simp, creates⟩
      · obtain ⟨before, made, after, rfl, creates⟩ := ih (.inr carried)
        exact ⟨before, made, after ++ [step], by simp, creates⟩
      · exact ⟨steps, step, [], rfl, new⟩

/-- A session is there only if a response set its cookie within the maximal age. -/
theorem renewed_of_alive {steps : List (Step J)}
    (alive : (exec (State.step maxAge) empty steps).alive sessionId = true) :
    ∃ before step after, steps = before ++ step :: after ∧
      (exec (State.step maxAge) empty before).setCookie step = some ⟨sessionId, false⟩ ∧
      (exec (State.step maxAge) empty steps).now <
        (exec (State.step maxAge) empty before).now + maxAge := by
  obtain ⟨value, found, later⟩ := alive_iff.mp alive
  suffices set : ∃ before step after, steps = before ++ step :: after ∧
      (exec (State.step maxAge) empty before).setCookie step = some ⟨sessionId, false⟩ ∧
      value.expires = (exec (State.step maxAge) empty before).now + maxAge by
    obtain ⟨before, step, after, split, cookie, expires⟩ := set
    exact ⟨before, step, after, split, cookie, expires ▸ later⟩
  clear alive later
  induction steps using List.reverseRecOn with
  | nil => cases found
  | append_singleton steps last ih =>
      rw [exec, List.foldl_append, ← exec] at found
      rcases redis_step (exec (State.step maxAge) empty steps) maxAge sessionId last with
        same | gone | ⟨⟨data, set⟩, cookie, -⟩
      · obtain ⟨before, step, after, rfl, cookie, expires⟩ := ih (same ▸ found)
        exact ⟨before, step, after ++ [last], by simp, cookie, expires⟩
      · have := gone.symm.trans found
        cases this
      · have := set.symm.trans found
        cases this
        exact ⟨steps, last, [], rfl, cookie, rfl⟩

end Ids

/-! ### A run -/

def firstToken : Str := "0123456789abcdefghijkl".toList

def secondToken : Str := "zyxwvutsrqponmlkjihgfe".toList

def login : Data Nat := [("user".toList, 1)]

/-- A request starts a session and a later one reads it. -/
def loginRun : List (Step Nat) :=
  [.arrive none, .load 0 false, .respond 0 (some login), .perform 0 false firstToken,
    .arrive (some firstToken), .tick 9, .load 1 false, .respond 1 (some login),
    .perform 1 false secondToken]

theorem issued_of_alive_login : ∃ before step after, loginRun = before ++ step :: after ∧
    (exec (State.step 60) empty before).creates step = some firstToken :=
  issued_of_alive (.inl (show (exec (State.step 60) empty loginRun).alive firstToken = true by
    decide +kernel))

theorem renewed_of_alive_login : ∃ before step after, loginRun = before ++ step :: after ∧
    (exec (State.step 60) empty before).setCookie step = some ⟨firstToken, false⟩ ∧
    (exec (State.step 60) empty loginRun).now < (exec (State.step 60) empty before).now + 60 :=
  renewed_of_alive (by decide +kernel)

/-- A session that another request starts does not change this one. -/
theorem project_exec_login :
    (exec (State.step 60) (exec (State.step 60) empty (loginRun.take 4))
        [.arrive none, .load 1 false, .respond 1 (some login), .perform 1 false secondToken]).project
      firstToken =
      exec (Session.step []) ((exec (State.step 60) empty (loginRun.take 4)).project firstToken)
        ((exec (State.step 60) empty (loginRun.take 4)).actions 60 firstToken
          [.arrive none, .load 1 false, .respond 1 (some login), .perform 1 false secondToken]) :=
  project_exec _ (by decide) (by decide)

end Ecube.Sessions
