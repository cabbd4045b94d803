import Ecube.Basic.Outcome
import Ecube.Basic.Text
import Ecube.Services.UserRoles

/-!
Logins and bearer tokens (`app/routers/auth.py`, `app/auth.py`, `app/services/pam_service.py`).

A login, or a change of the password, hands out a signed token with the roles that the user has at
that moment. A request shows a token, and is let through if one of the roles in it is allowed.

What PAM, the host and the libraries for tokens answer is part of the input.
-/

namespace Ecube.Authentication

open Accounts Text

/-- A refused request: its status code and its text. -/
structure Refusal where
  status : Nat
  detail : String
  deriving DecidableEq, Repr

/-! ### PAM -/

/-- What PAM answers for one of its services. -/
structure PamAnswer where
  ok : Bool
  code : Option Int

/-- The services that are asked in turn: the configured one and the fallbacks, each once. -/
def serviceChain (pamServiceName : Str) (pamFallbackServices : List Str) : List Str :=
  pamFallbackServices.foldl
    (fun chain service => if service ∈ chain then chain else chain ++ [service]) [pamServiceName]

/-- `LinuxPamAuthenticator.authenticate`, with the code that it keeps. -/
def authenticate (answers : Str → PamAnswer) : List Str → Option Int → Bool × Option Int
  | [], code => (false, code)
  | service :: rest, _ =>
      if (answers service).ok then (true, (answers service).code)
      else authenticate answers rest (answers service).code

inductive AuthReason where
  | passwordExpired | accountExpired
  deriving DecidableEq, Repr

/-- `_classify_pam_auth_failure`. -/
def classifyPamAuthFailure (code : Option Int) : Option AuthReason × String :=
  if code = some 12 ∨ code = some 27 then (some .passwordExpired, "Password has expired.")
  else if code = some 13 then (some .accountExpired, "Account has expired.")
  else (none, "Invalid credentials")

/-- `_is_pam_policy_violation`. -/
def isPamPolicyViolation (message : Str) : Bool :=
  ["pam:", "bad password", "password fails", "password has been already used",
    "password unchanged", "have exhausted maximum number of retries"].any (hasWord message)

/-! ### Tokens -/

inductive RoleResolver where
  | localGroups | ldap | oidc
  deriving DecidableEq, Repr

structure AuthSettings where
  roleResolver : RoleResolver
  groupRoleMap : GroupRoleMap
  pamServiceName : Str
  pamFallbackServices : List Str
  tokenExpireMinutes : Nat

/-- The claims of a token that is issued. -/
structure Claims where
  username : Str
  groups : List Str
  roles : List Str
  iat : Nat
  exp : Nat
  deriving DecidableEq, Repr

/-- The stored roles, and the groups that the host answers for a user. -/
structure Directory where
  roles : RoleTable
  groups : Str → List Str

/-- The claims of `_build_token_response`, for a user with roles. -/
def issueToken (cfg : AuthSettings) (directory : Directory) (now : Nat) (username : Str) :
    Except Refusal Claims := do
  let groups := directory.groups username
  let roles := resolveRoles cfg.groupRoleMap directory.roles groups username
  ensure (roles ≠ []) ⟨403, "User is not assigned any ECUBE roles"⟩
  return ⟨username, groups, roles, now, now + 60 * cfg.tokenExpireMinutes⟩

/-- The refusal of `_get_pam`. -/
def requirePam (cfg : AuthSettings) : Except Refusal Unit :=
  ensure (cfg.roleResolver ≠ .oidc)
    ⟨404, "Local login is not available when OIDC authentication is enabled"⟩

def login (cfg : AuthSettings) (directory : Directory) (now : Nat) (username : Str)
    (answers : Str → PamAnswer) : Except Refusal Claims := do
  requirePam cfg
  let asked := authenticate answers (serviceChain cfg.pamServiceName cfg.pamFallbackServices) none
  ensure (asked.1 = true) ⟨401, (classifyPamAuthFailure asked.2).2⟩
  issueToken cfg directory now username

/-- How the host answers a new password. -/
inductive ResetAnswer where
  | done
  | invalid (detail : String)
  | failed (message : Str)

/-- `policyText` makes the text of a rejected password. -/
def changePassword (cfg : AuthSettings) (policyText : Str → String) (directory : Directory)
    (now : Nat) (username : Str) (answers : Str → PamAnswer) (reset : ResetAnswer) :
    Except Refusal Claims := do
  requirePam cfg
  let asked := authenticate answers (serviceChain cfg.pamServiceName cfg.pamFallbackServices) none
  -- An expired password may still be changed.
  ensure (asked.1 = true ∨ (classifyPamAuthFailure asked.2).1 = some .passwordExpired)
    ⟨401, (classifyPamAuthFailure asked.2).2⟩
  match reset with
  | .done => issueToken cfg directory now username
  | .invalid detail => .error ⟨422, detail⟩
  | .failed message =>
      .error (if isPamPolicyViolation message then ⟨422, policyText message⟩
        else ⟨500, "Password change failed"⟩)

/-! ### Requests -/

/-- A claim that should be a list of names. -/
inductive NameList where
  | absent | null
  | names (values : List Str)
  | malformed
  deriving DecidableEq, Repr

/-- The claims that a decoded token may have. A `sub` or `username` that is null counts as
absent. -/
structure Payload where
  sub : Option Str
  username : Option Str
  groups : NameList
  roles : NameList

inductive DecodeError where
  | expired | invalid
  deriving DecidableEq, Repr

/-- The library that signs and checks tokens, with the key of the server. -/
structure Jwt (Token : Type) where
  encode : Claims → Token
  decode : Nat → Token → Except DecodeError Payload

/-- The claims of a token of an identity provider. -/
structure OidcPayload where
  sub : Option Str
  preferredUsername : Option Str
  email : Option Str
  groups : NameList

structure CurrentUser where
  id : Str
  username : Str
  groups : List Str
  roles : List Str
  deriving DecidableEq, Repr

def invalidPayload : Refusal := ⟨401, "Invalid token payload"⟩

/-- Names that may be left out. -/
def NameList.orEmpty : NameList → Option (List Str)
  | .absent | .null => some []
  | .names values => some values
  | .malformed => none

/-- Names that may be absent but not null. -/
def NameList.present : NameList → Option (List Str)
  | .absent => some []
  | .names values => some values
  | .null | .malformed => none

/-- The user of a token that was signed here. -/
def userOfPayload (cfg : AuthSettings) (payload : Payload) : Except Refusal CurrentUser := do
  let userId ← orReject payload.sub invalidPayload
  let username ← orReject payload.username invalidPayload
  let groups ← orReject payload.groups.orEmpty invalidPayload
  let roles ← orReject payload.roles.orEmpty invalidPayload
  return ⟨userId, username, groups,
    if roles = [] ∧ groups ≠ [] then resolve cfg.groupRoleMap groups else roles⟩

/-- A name that is neither absent nor empty. -/
def given (name : Option Str) : Option Str := name.filter (· ≠ [])

/-- `_get_current_user_oidc`. -/
def getCurrentUserOidc (cfg : AuthSettings) (validated : Except String OidcPayload) :
    Except Refusal CurrentUser :=
  match validated with
  | .error detail => .error ⟨401, detail⟩
  | .ok payload => do
      let userId ← orReject (given payload.sub) invalidPayload
      let username := ((given payload.preferredUsername).or (given payload.email)).getD userId
      let groups ← orReject payload.groups.present invalidPayload
      return ⟨userId, username, groups, resolve cfg.groupRoleMap groups⟩

/-- The credentials of a request: the scheme and the token of its `Authorization` header. -/
structure Credentials (Token : Type) where
  scheme : Str
  token : Token

variable {Token : Type}

def getCurrentUser (cfg : AuthSettings) (jwt : Jwt Token)
    (validateToken : Nat → Token → Except String OidcPayload) (now : Nat)
    (credentials : Option (Credentials Token)) : Except Refusal CurrentUser := do
  let credentials ← orReject credentials ⟨401, "Missing authentication token"⟩
  ensure (lower credentials.scheme = "bearer".toList) ⟨401, "Invalid authentication token"⟩
  if cfg.roleResolver = .oidc then
    getCurrentUserOidc cfg (validateToken now credentials.token)
  else match jwt.decode now credentials.token with
    | .error .expired => .error ⟨401, "Token has expired"⟩
    | .error .invalid => .error ⟨401, "Invalid authentication token"⟩
    | .ok payload => userOfPayload cfg payload

/-- `require_roles`. -/
def requireRoles (allowedRoles : List Str) (user : CurrentUser) : Except Refusal CurrentUser := do
  ensure (∃ role ∈ allowedRoles, role ∈ user.roles)
    ⟨403, "This action requires one of the following roles: " ++
      String.intercalate ", " ((sorted allowedRoles).map String.ofList)⟩
  return user

/-- A route that allows the roles. -/
def authorize (cfg : AuthSettings) (jwt : Jwt Token)
    (validateToken : Nat → Token → Except String OidcPayload) (now : Nat)
    (credentials : Option (Credentials Token)) (allowedRoles : List Str) :
    Except Refusal CurrentUser := do
  let user ← getCurrentUser cfg jwt validateToken now credentials
  requireRoles allowedRoles user

/-! ### What is accepted -/

/-- PAM accepts the password for one of the services. -/
def Accepted (answers : Str → PamAnswer) (services : List Str) : Prop :=
  ∃ service ∈ services, (answers service).ok = true

/-- PAM says for the last of the services that the password has expired. -/
def Expired (answers : Str → PamAnswer) (services : List Str) : Prop :=
  ∃ service, services.getLast? = some service ∧
    ((answers service).code = some 12 ∨ (answers service).code = some 27)

theorem authenticate_fst {answers : Str → PamAnswer} {services : List Str} {code : Option Int} :
    (authenticate answers services code).1 = true ↔ Accepted answers services := by
  induction services generalizing code with
  | nil => simp [authenticate, Accepted]
  | cons service rest ih =>
      rw [authenticate, Accepted, List.exists_mem_cons_iff]
      split
      next ok => exact iff_of_true rfl (.inl ok)
      next refused => exact ih.trans (or_iff_right refused).symm

/-- The code that is kept is the one of the last service. -/
theorem authenticate_snd {answers : Str → PamAnswer} {services : List Str} {code : Option Int}
    (refused : ¬ Accepted answers services) : (authenticate answers services code).2 =
      (services.getLast?.map fun service => (answers service).code).getD code := by
  induction services generalizing code with
  | nil => rfl
  | cons service rest ih =>
      rw [Accepted, List.exists_mem_cons_iff, not_or] at refused
      rw [authenticate, if_neg refused.1, ih refused.2, List.getLast?_cons]
      cases rest.getLast? <;> rfl

theorem classifyPamAuthFailure_fst {code : Option Int} :
    (classifyPamAuthFailure code).1 = some .passwordExpired ↔ code = some 12 ∨ code = some 27 := by
  unfold classifyPamAuthFailure
  split
  next expired => exact iff_of_true rfl expired
  next other => split <;> simpa using other

/-- The check of a change of the password. -/
theorem accepted_or_expired {answers : Str → PamAnswer} {services : List Str} :
    ((authenticate answers services none).1 = true ∨
      (classifyPamAuthFailure (authenticate answers services none).2).1 = some .passwordExpired) ↔
        Accepted answers services ∨ Expired answers services := by
  rw [authenticate_fst, classifyPamAuthFailure_fst]
  by_cases accepted : Accepted answers services
  · exact iff_of_true (.inl accepted) (.inl accepted)
  · rw [authenticate_snd accepted, Expired]
    cases services.getLast? <;> simp

/-- The claims of a token that is handed out to the user. -/
def claimsOf (cfg : AuthSettings) (directory : Directory) (now : Nat) (username : Str) : Claims :=
  ⟨username, directory.groups username,
    resolveRoles cfg.groupRoleMap directory.roles (directory.groups username) username, now,
    now + 60 * cfg.tokenExpireMinutes⟩

section Accepts

variable {cfg : AuthSettings} {directory : Directory} {now : Nat} {username : Str}
  {answers : Str → PamAnswer} {claims : Claims}

theorem issueToken_eq_ok : issueToken cfg directory now username = .ok claims ↔
    claims = claimsOf cfg directory now username ∧ claims.roles ≠ [] := by
  simp only [issueToken, bind_eq_ok, ensure_eq_ok, pure_eq_ok]
  constructor
  · rintro ⟨-, assigned, rfl⟩
    exact ⟨rfl, assigned⟩
  · rintro ⟨rfl, assigned⟩
    exact ⟨(), assigned, rfl⟩

theorem login_eq_ok : login cfg directory now username answers = .ok claims ↔
    cfg.roleResolver ≠ .oidc ∧
      Accepted answers (serviceChain cfg.pamServiceName cfg.pamFallbackServices) ∧
      claims = claimsOf cfg directory now username ∧ claims.roles ≠ [] := by
  simp only [login, requirePam, bind_eq_ok, ensure_eq_ok, issueToken_eq_ok, authenticate_fst,
    exists_and_left, exists_const]

theorem changePassword_eq_ok {policyText : Str → String} {reset : ResetAnswer} :
    changePassword cfg policyText directory now username answers reset = .ok claims ↔
      cfg.roleResolver ≠ .oidc ∧
        (Accepted answers (serviceChain cfg.pamServiceName cfg.pamFallbackServices) ∨
          Expired answers (serviceChain cfg.pamServiceName cfg.pamFallbackServices)) ∧
        reset = .done ∧ claims = claimsOf cfg directory now username ∧ claims.roles ≠ [] := by
  simp only [changePassword, requirePam, bind_eq_ok, ensure_eq_ok, accepted_or_expired,
    exists_and_left, exists_const]
  refine and_congr_right fun _ => and_congr_right fun _ => ?_
  cases reset with
  | done => exact issueToken_eq_ok.trans (and_iff_right rfl).symm
  | invalid detail => simp
  | failed message => simp

end Accepts

/-- What a token of the server says when it is read back. -/
def Claims.payload (claims : Claims) : Payload where
  sub := some claims.username
  username := some claims.username
  groups := .names claims.groups
  roles := .names claims.roles

def Claims.user (claims : Claims) : CurrentUser :=
  ⟨claims.username, claims.username, claims.groups, claims.roles⟩

/-- The groups of a token with roles are not looked at. -/
theorem userOfPayload_payload {cfg : AuthSettings} {claims : Claims}
    (assigned : claims.roles ≠ []) : userOfPayload cfg claims.payload = .ok claims.user := by
  simp [userOfPayload, Claims.payload, Claims.user, NameList.orEmpty, orReject, bind, Except.bind,
    pure, Except.pure, assigned]

theorem authorize_eq_ok {cfg : AuthSettings} {jwt : Jwt Token}
    {validateToken : Nat → Token → Except String OidcPayload} {now : Nat} {scheme : Str}
    {token : Token} {allowedRoles : List Str} {user : CurrentUser}
    (signed : cfg.roleResolver ≠ .oidc) :
    authorize cfg jwt validateToken now (some ⟨scheme, token⟩) allowedRoles = .ok user ↔
      lower scheme = "bearer".toList ∧
        (∃ payload, jwt.decode now token = .ok payload ∧ userOfPayload cfg payload = .ok user) ∧
        ∃ role ∈ allowedRoles, role ∈ user.roles := by
  simp only [authorize, getCurrentUser, requireRoles, bind_eq_ok, orReject_eq_ok, ensure_eq_ok,
    pure_eq_ok, Option.some.injEq, if_neg signed]
  constructor
  · rintro ⟨user', ⟨_, rfl, -, bearer, found⟩, -, allowed, rfl⟩
    refine ⟨bearer, ?_, allowed⟩
    cases decoded : jwt.decode now token with
    | ok payload => exact ⟨payload, rfl, by simpa [decoded] using found⟩
    | error e => cases e <;> simp [decoded] at found
  · rintro ⟨bearer, ⟨payload, decoded, found⟩, allowed⟩
    exact ⟨user, ⟨_, rfl, (), bearer, by simpa [decoded] using found⟩, (), allowed, rfl⟩

/-! ### What is refused -/

/-- Every refusal has this status. -/
def RefusedWith {α : Type} (status : Nat) (x : Except Refusal α) : Prop :=
  ∀ e, x = .error e → e.status = status

namespace RefusedWith

variable {α β : Type} {status : Nat} {refusal : Refusal}

theorem bind {x : Except Refusal α} {f : α → Except Refusal β} (first : RefusedWith status x)
    (rest : ∀ a, RefusedWith status (f a)) : RefusedWith status (x >>= f) := by
  intro e refused
  rcases bind_eq_error.mp refused with early | ⟨a, -, late⟩
  · exact first e early
  · exact rest a e late

theorem error : RefusedWith refusal.status (.error refusal : Except Refusal α) := by
  rintro e ⟨⟩
  rfl

theorem pure {a : α} : RefusedWith status (Pure.pure a) := nofun

theorem ensure {c : Prop} [Decidable c] : RefusedWith refusal.status (ensure c refusal) := by
  intro e refused
  rw [(ensure_eq_error.mp refused).2]

theorem orReject {o : Option α} : RefusedWith refusal.status (orReject o refusal) := by
  cases o with
  | none => exact error
  | some a => exact nofun

end RefusedWith

section Refused

variable {cfg : AuthSettings} {jwt : Jwt Token}
  {validateToken : Nat → Token → Except String OidcPayload} {now : Nat}
  {credentials : Option (Credentials Token)} {allowedRoles : List Str}

theorem refusedWith_userOfPayload {payload : Payload} :
    RefusedWith 401 (userOfPayload cfg payload) :=
  .bind .orReject fun _ => .bind .orReject fun _ => .bind .orReject fun _ =>
    .bind .orReject fun _ => .pure

theorem refusedWith_getCurrentUserOidc {validated : Except String OidcPayload} :
    RefusedWith 401 (getCurrentUserOidc cfg validated) := by
  cases validated with
  | error detail => exact .error
  | ok payload => exact .bind .orReject fun _ => .bind .orReject fun _ => .pure

theorem refusedWith_getCurrentUser :
    RefusedWith 401 (getCurrentUser cfg jwt validateToken now credentials) := by
  refine .bind .orReject fun credentials => .bind .ensure fun _ => ?_
  split
  · exact refusedWith_getCurrentUserOidc
  · split
    · exact .error
    · exact .error
    · exact refusedWith_userOfPayload

/-- A request is refused since its user is not known, or since the user has no allowed role. -/
theorem authorize_eq_error {e : Refusal}
    (refused : authorize cfg jwt validateToken now credentials allowedRoles = .error e) :
    (e.status = 401 ∧ ∀ user, getCurrentUser cfg jwt validateToken now credentials ≠ .ok user) ∨
      (e.status = 403 ∧ ∃ user, getCurrentUser cfg jwt validateToken now credentials = .ok user ∧
        ∀ role ∈ allowedRoles, role ∉ user.roles) := by
  rcases bind_eq_error.mp refused with unknown | ⟨user, known, denied⟩
  · refine .inl ⟨refusedWith_getCurrentUser e unknown, fun user known => ?_⟩
    cases unknown.symm.trans known
  · rcases bind_eq_error.mp denied with denied | ⟨-, -, impossible⟩
    · obtain ⟨none, rfl⟩ := ensure_eq_error.mp denied
      exact .inr ⟨rfl, user, known, fun role allowed held => none ⟨role, allowed, held⟩⟩
    · cases impossible

end Refused

end Ecube.Authentication
