import Ecube.Basic.Transition
import Ecube.Services.Authentication

/-!
Bearer tokens over a run.

Users log in and change their passwords while roles are stored and deleted, groups change and time
goes on. A request with a token is let through exactly if its user proved who they are less than the
lifetime of the token ago, was handed out the token, and had an allowed role at that moment
(`authorized_iff_issued`). What happens to the roles later does not matter until the token expires.
-/

namespace Ecube.Authentication

open Accounts Text Transition

/-- The settings of the server, and the libraries that it uses. -/
structure Server (Token : Type) where
  cfg : AuthSettings
  jwt : Jwt Token
  validateToken : Nat → Token → Except String OidcPayload
  policyText : Str → String

structure State (Token : Type) where
  now : Nat
  directory : Directory
  /-- The tokens that have been handed out. -/
  issued : List Token

inductive Action where
  | tick (seconds : Nat)
  /-- Roles are stored or deleted, or groups of the host change, in any way. -/
  | reassign (directory : Directory)
  | login (username : Str) (answers : Str → PamAnswer)
  | changePassword (username : Str) (answers : Str → PamAnswer) (reset : ResetAnswer)

/-- What the library for tokens promises: a token is read back as it was signed until it
expires. -/
def Jwt.Documented {Token : Type} (jwt : Jwt Token) : Prop :=
  ∀ now (claims : Claims), claims.iat ≤ now → jwt.decode now (jwt.encode claims) =
    if now < claims.exp then .ok claims.payload else .error .expired

namespace Server

variable {Token : Type} (server : Server Token)

/-- The claims of the token that a request hands out. -/
def grant (s : State Token) : Action → Option Claims
  | .login username answers => (login server.cfg s.directory s.now username answers).toOption
  | .changePassword username answers reset =>
      (changePassword server.cfg server.policyText s.directory s.now username answers
        reset).toOption
  | .tick _ | .reassign _ => none

def step (s : State Token) (a : Action) : State Token :=
  let answered := { s with
    issued := s.issued ++ ((server.grant s a).map server.jwt.encode).toList }
  match a with
  | .tick seconds => { answered with now := s.now + seconds }
  | .reassign directory => { answered with directory := directory }
  | .login _ _ | .changePassword _ _ _ => answered

/-- The request proves who the user is: PAM accepts the password, or says that it has expired while
the host takes a new one. -/
def Proves (username : Str) : Action → Prop
  | .login user answers => user = username ∧
      Accepted answers (serviceChain server.cfg.pamServiceName server.cfg.pamFallbackServices)
  | .changePassword user answers reset => user = username ∧ reset = .done ∧
      (Accepted answers (serviceChain server.cfg.pamServiceName server.cfg.pamFallbackServices) ∨
        Expired answers (serviceChain server.cfg.pamServiceName server.cfg.pamFallbackServices))
  | .tick _ | .reassign _ => False

/-- A user with roles proves who they are, and these are their claims at that moment. -/
def Earns (s : State Token) (a : Action) (claims : Claims) : Prop :=
  ∃ username, server.Proves username a ∧ claims = claimsOf server.cfg s.directory s.now username ∧
    claims.roles ≠ []

/-- The claims are earned during the run. -/
def Issues (s : State Token) (actions : List Action) (claims : Claims) : Prop :=
  ∃ before a after, actions = before ++ a :: after ∧
    server.Earns (exec server.step s before) a claims

variable {server} {s : State Token} {a : Action} {actions : List Action} {claims : Claims}

theorem step_issued : (server.step s a).issued =
    s.issued ++ ((server.grant s a).map server.jwt.encode).toList := by
  cases a <;> rfl

theorem le_now_step : s.now ≤ (server.step s a).now := by
  cases a with
  | tick seconds => exact Nat.le_add_right s.now seconds
  | reassign | login | changePassword => exact Nat.le_refl _

theorem le_now_exec : s.now ≤ (exec server.step s actions).now := by
  induction actions generalizing s with
  | nil => exact Nat.le_refl _
  | cons a rest ih => exact Nat.le_trans le_now_step ih

/-- Tokens are handed out for the claims that are earned, and for no others. -/
theorem grant_eq_some (signed : server.cfg.roleResolver ≠ .oidc) :
    server.grant s a = some claims ↔ server.Earns s a claims := by
  cases a with
  | tick | reassign => exact iff_of_false nofun fun ⟨_, impossible, _⟩ => impossible
  | login user answers =>
      change (login server.cfg s.directory s.now user answers).toOption = some claims ↔ _
      rw [toOption_eq_some, login_eq_ok, and_iff_right signed]
      constructor
      · rintro ⟨accepted, earned⟩
        exact ⟨user, ⟨rfl, accepted⟩, earned⟩
      · rintro ⟨_, ⟨rfl, accepted⟩, earned⟩
        exact ⟨accepted, earned⟩
  | changePassword user answers reset =>
      change (changePassword server.cfg server.policyText s.directory s.now user answers
        reset).toOption = some claims ↔ _
      rw [toOption_eq_some, changePassword_eq_ok, and_iff_right signed]
      constructor
      · rintro ⟨accepted, done, earned⟩
        exact ⟨user, ⟨rfl, done, accepted⟩, earned⟩
      · rintro ⟨_, ⟨rfl, done, accepted⟩, earned⟩
        exact ⟨accepted, done, earned⟩

theorem issues_cons : server.Issues s (a :: actions) claims ↔
    server.Earns s a claims ∨ server.Issues (server.step s a) actions claims := by
  constructor
  · rintro ⟨before, b, after, split, earned⟩
    cases before with
    | nil =>
        obtain ⟨rfl, rfl⟩ := List.cons.inj split
        exact .inl earned
    | cons c before =>
        obtain ⟨rfl, rfl⟩ := List.cons.inj split
        exact .inr ⟨before, b, after, rfl, earned⟩
  · rintro (earned | ⟨before, b, after, rfl, earned⟩)
    · exact ⟨[], a, actions, rfl, earned⟩
    · exact ⟨a :: before, b, after, rfl, earned⟩

/-- The tokens that a run hands out. -/
theorem mem_issued_iff (signed : server.cfg.roleResolver ≠ .oidc) {token : Token} :
    token ∈ (exec server.step s actions).issued ↔
      token ∈ s.issued ∨ ∃ claims, server.Issues s actions claims ∧
        token = server.jwt.encode claims := by
  induction actions generalizing s with
  | nil =>
      refine (or_iff_left ?_).symm
      rintro ⟨claims, ⟨before, a, after, split, -⟩, -⟩
      cases before <;> cases split
  | cons a rest ih =>
      change token ∈ (exec server.step (server.step s a) rest).issued ↔ _
      rw [ih, step_issued, List.mem_append, or_assoc]
      refine or_congr_right ?_
      simp only [issues_cons, or_and_right, exists_or, Option.mem_toList, Option.map_eq_some_iff,
        grant_eq_some signed]
      exact or_congr_left (exists_congr fun claims => and_congr_right fun _ => eq_comm)

/-- Claims are earned before the end of the run, by a user with roles. -/
theorem Issues.facts (h : server.Issues s actions claims) :
    claims.iat ≤ (exec server.step s actions).now ∧ claims.roles ≠ [] := by
  obtain ⟨before, a, after, rfl, username, -, rfl, assigned⟩ := h
  refine ⟨?_, assigned⟩
  change (exec server.step s before).now ≤ _
  rw [show exec server.step s (before ++ a :: after) =
    exec server.step (exec server.step s before) (a :: after) from List.foldl_append]
  exact le_now_exec

/-- After any run, a token lets a request through exactly if it was made for claims that were earned
during the run and have not expired, with an allowed role among them. A token that was not handed
out is assumed not to be accepted by the library. -/
theorem authorized_iff_issued (documented : server.jwt.Documented)
    (signed : server.cfg.roleResolver ≠ .oidc) (fresh : s.issued = []) {scheme : Str}
    {token : Token} {allowedRoles : List Str} {user : CurrentUser}
    (unforged : token ∈ (exec server.step s actions).issued ∨
      ∀ now payload, server.jwt.decode now token ≠ .ok payload) :
    authorize server.cfg server.jwt server.validateToken (exec server.step s actions).now
        (some ⟨scheme, token⟩) allowedRoles = .ok user ↔
      lower scheme = "bearer".toList ∧ ∃ claims, server.Issues s actions claims ∧
        token = server.jwt.encode claims ∧ (exec server.step s actions).now < claims.exp ∧
        user = claims.user ∧ ∃ role ∈ allowedRoles, role ∈ claims.roles := by
  rw [authorize_eq_ok signed]
  refine and_congr_right fun _ => ?_
  -- What a token of the run is read back as.
  have decoded : ∀ claims, server.Issues s actions claims →
      server.jwt.decode (exec server.step s actions).now (server.jwt.encode claims) =
        if (exec server.step s actions).now < claims.exp then .ok claims.payload
        else .error .expired :=
    fun claims issued => documented _ claims issued.facts.1
  constructor
  · rintro ⟨⟨payload, read, found⟩, allowed⟩
    rcases unforged with handed | rejected
    · rw [mem_issued_iff signed, fresh] at handed
      obtain ⟨claims, issued, rfl⟩ := handed.resolve_left List.not_mem_nil
      rw [decoded claims issued] at read
      split at read
      next alive =>
        obtain rfl := Except.ok.inj read
        rw [userOfPayload_payload issued.facts.2] at found
        obtain rfl := Except.ok.inj found
        exact ⟨claims, issued, rfl, alive, rfl, allowed⟩
      next => cases read
    · exact absurd read (rejected _ payload)
  · rintro ⟨claims, issued, rfl, alive, rfl, allowed⟩
    refine ⟨⟨claims.payload, ?_, userOfPayload_payload issued.facts.2⟩, allowed⟩
    rw [decoded claims issued, if_pos alive]

end Server

/-! ### An administrator logs in and loses the stored role -/

namespace Revoked

def jwt : Jwt Claims where
  encode := id
  decode now claims :=
    if now < claims.iat then .error .invalid
    else if now < claims.exp then .ok claims.payload
    else .error .expired

def server : Server Claims where
  cfg := ⟨.localGroups, fun _ => [], "ecube".toList, [], 60⟩
  jwt := jwt
  validateToken _ _ := .error "OIDC token validation failed"
  policyText _ := "New password does not satisfy the active password policy."

def start : State Claims where
  now := 0
  directory := ⟨⟨[⟨"amy".toList, .admin⟩], List.nodup_singleton _⟩, fun _ => []⟩
  issued := []

def actions : List Action :=
  [.login "amy".toList fun _ => ⟨true, none⟩,
    .reassign ⟨⟨[], List.nodup_nil⟩, fun _ => []⟩,
    .tick 600]

def claims : Claims := ⟨"amy".toList, [], ["admin".toList], 0, 3600⟩

theorem documented : jwt.Documented := by
  intro now claims started
  simp [jwt, Nat.not_lt.mpr started]

/-- The token is still accepted after the role is gone. -/
theorem authorized_until_expiry :
    (exec server.step start actions).directory.roles.getRoles "amy".toList = [] ∧
      authorize server.cfg server.jwt server.validateToken (exec server.step start actions).now
        (some ⟨"Bearer".toList, claims⟩) ["admin".toList] = .ok claims.user := by
  have handed : claims ∈ (exec server.step start actions).issued := by decide
  have issued : server.Issues start actions claims :=
    ⟨[], _, _, rfl, "amy".toList, ⟨rfl, "ecube".toList, by decide, rfl⟩, by decide, by decide⟩
  refine ⟨by decide, ?_⟩
  refine (Server.authorized_iff_issued documented (by decide) rfl (.inl handed)).mpr ?_
  exact ⟨by decide, claims, issued, rfl, by decide, rfl, "admin".toList, by decide, by decide⟩

end Revoked

end Ecube.Authentication
