import Ecube.Basic.Text

/-!
The gate before the database setup endpoints (`app/routers/database_setup.py`).

While no admin exists, or none with an account on the host, the endpoints are open;
afterwards they need an admin token. `failClosed_iff` says when the gate opens for a
right reason only: every error of the admin query that PostgreSQL calls a
programming error is taken for a missing table, although only some are
(`_is_missing_table_error` of `app/routers/setup.py`).
-/

namespace Ecube.SetupGate

open PosixPath Text

/-! ### What the gate asks -/

/-- `ProgrammingError`, `OperationalError` or any other exception. -/
inductive ErrorKind where
  | programming | operational | other
  deriving DecidableEq, Repr

structure DbError where
  kind : ErrorKind
  message : Str
  deriving DecidableEq, Repr

structure CurrentUser where
  username : Str
  roles : List Str
  deriving DecidableEq, Repr

def CurrentUser.isAdmin (user : CurrentUser) : Bool := "admin".toList ∈ user.roles

/-- Why a request does not get through: an HTTP error, or an exception of the database. -/
inductive Refusal where
  | http (status : Nat) (detail : String)
  | raised (e : DbError)
  deriving DecidableEq, Repr

/-- A request and the answers it meets: whether `DATABASE_URL` is configured and a
session can be opened, the admins that the two queries return, the accounts of the
host, and what `get_current_user` says of the credentials, if there are any. -/
structure Access where
  configured : Bool
  session : Bool
  hasAnyAdmin : Except DbError (List Str)
  rollback : Except DbError Unit
  adminUsernames : Except DbError (List Str)
  providerLoads : Bool
  hostUsers : Str → Bool
  lookupFails : Str → Bool
  credentials : Option (Except Refusal CurrentUser)

/-- `_is_missing_table_error`. -/
def isMissingTableError (message : Str) : Bool :=
  (hasWord message "relation" && hasWord message "does not exist") ||
    hasWord message "undefinedtable"

/-! ### The gate -/

variable {q : Access}

/-- `_admins_have_any_os_account`; a lookup that fails counts as an account. -/
def adminsHaveAnyOsAccount (q : Access) : Except Refusal Bool :=
  match q.adminUsernames with
  | .error e => .error (.raised e)
  | .ok names =>
      if names = [] then .ok false
      else if ¬ q.providerLoads then .ok true
      else .ok (names.any fun name => q.lookupFails name || q.hostUsers name)

/-- Whether there is an admin, as far as it can be said. -/
def adminKnown (q : Access) : Except Refusal (Option Bool) :=
  if ¬ q.session then .ok none
  else match q.hasAnyAdmin with
    | .ok admins => .ok (some (decide (admins ≠ [])))
    | .error e =>
        match q.rollback with
        | .error e' => .error (.raised e')
        | .ok () =>
            match e.kind with
            | .programming => .ok (some false)
            -- The probe of the connection only decides what is logged.
            | .operational | .other => .ok none

def adminRequired : Refusal := .http 403 "This action requires the admin role"

/-- There are admins: a token is needed, unless none of them has an account. -/
def initialized (q : Access) : Except Refusal (Option CurrentUser) :=
  match adminsHaveAnyOsAccount q with
  | .error e => .error e
  | .ok false =>
      match q.credentials with
      | some (.ok user) => .ok (if user.isAdmin then some user else none)
      | some (.error _) | none => .ok none
  | .ok true =>
      match q.credentials with
      | none => .error (.http 401 "Missing authentication token")
      | some (.error e) => .error e
      | some (.ok user) => if user.isAdmin then .ok (some user) else .error adminRequired

def unreachable (q : Access) : Except Refusal (Option CurrentUser) :=
  match q.credentials with
  | some (.ok user) => if user.isAdmin then .ok (some user) else .error adminRequired
  | some (.error _) | none => .error (.http 503
      ("Database is unavailable and initialization state cannot be verified. "
        ++ "Provide a valid admin token or ensure the database is reachable."))

def requireAdminOrInitialSetup (q : Access) : Except Refusal (Option CurrentUser) :=
  if ¬ q.configured then .ok none
  else match adminKnown q with
    | .error e => .error e
    | .ok (some false) => .ok none
    | .ok (some true) => initialized q
    | .ok none => unreachable q

/-! ### Who gets through -/

def ValidAdminToken (q : Access) : Prop := ∃ user, q.credentials = some (.ok user) ∧ user.isAdmin

/-- The system is not set up: no admin, no table of admins, or no admin on the host. -/
def InitialSetup (q : Access) : Prop :=
  q.hasAnyAdmin = .ok [] ∨
    (∃ e, q.hasAnyAdmin = .error e ∧ e.kind = .programming ∧ isMissingTableError e.message) ∨
    ∃ admins names, q.hasAnyAdmin = .ok admins ∧ q.adminUsernames = .ok names ∧
      ∀ name ∈ names, q.hostUsers name = false

/-- On a configured database only a valid admin token or the initial setup opens the gate. -/
def FailClosed (q : Access) : Prop :=
  q.configured = true → ∀ user, requireAdminOrInitialSetup q = .ok user →
    ¬ ValidAdminToken q → InitialSetup q

/-- A user who is let through by name is an admin. -/
theorem validAdminToken_of_unreachable {user : Option CurrentUser}
    (through : unreachable q = .ok user) : ValidAdminToken q := by
  rw [unreachable] at through
  split at through
  next current given =>
    split at through
    · exact ⟨current, given, ‹_›⟩
    · cases through
  all_goals cases through

/-- With admins in the tables the gate asks for a token, or for the accounts of the host. -/
theorem initialized_cases {user : Option CurrentUser} (through : initialized q = .ok user) :
    ValidAdminToken q ∨
      ∃ names, q.adminUsernames = .ok names ∧ ∀ name ∈ names, q.hostUsers name = false := by
  rw [initialized] at through
  split at through
  next => cases through
  next accounts =>
    right
    rw [adminsHaveAnyOsAccount] at accounts
    split at accounts
    · cases accounts
    next names listed =>
      refine ⟨names, listed, ?_⟩
      split at accounts
      next none =>
        subst none
        exact fun _ mem => absurd mem List.not_mem_nil
      next =>
        split at accounts
        · cases accounts
        next =>
          intro name mem
          have absent := List.any_eq_false.mp (Except.ok.inj accounts) name mem
          rw [Bool.or_eq_true, not_or] at absent
          exact Bool.not_eq_true _ ▸ absent.2
  next =>
    left
    split at through
    · cases through
    · cases through
    next current given =>
      split at through
      · exact ⟨current, given, ‹_›⟩
      · cases through

/-- An error of the admin query never opens the gate, unless it is a programming error. -/
theorem adminKnown_eq_false (known : adminKnown q = .ok (some false)) :
    q.session = true ∧ (q.hasAnyAdmin = .ok [] ∨
      ∃ e, q.hasAnyAdmin = .error e ∧ q.rollback = .ok () ∧ e.kind = .programming) := by
  rw [adminKnown] at known
  split at known
  · cases known
  next session =>
    refine ⟨not_not.mp session, ?_⟩
    split at known
    next admins answer =>
      left
      have none : decide (admins ≠ []) = false := Option.some.inj (Except.ok.inj known)
      rw [answer, not_not.mp (of_decide_eq_false none)]
    next e answer =>
      right
      split at known
      · cases known
      next rolledBack =>
        split at known
        next kind => exact ⟨e, answer, rolledBack, kind⟩
        all_goals cases known

theorem adminKnown_eq_true (known : adminKnown q = .ok (some true)) :
    ∃ admins, q.hasAnyAdmin = .ok admins := by
  rw [adminKnown] at known
  split at known
  · cases known
  · split at known
    next admins answer => exact ⟨admins, answer⟩
    next =>
      split at known
      · cases known
      · split at known
        all_goals cases known

/-- The gate is fail-closed exactly when a programming error of the admin query is a
missing table, unless a token or the rollback of the error decides the request. -/
theorem failClosed_iff :
    FailClosed q ↔
      (q.configured = true → q.session = true → q.rollback = .ok () → ¬ ValidAdminToken q →
        ∀ e, q.hasAnyAdmin = .error e → e.kind = .programming → isMissingTableError e.message) := by
  constructor
  · intro closed configured session rolledBack token e answer kind
    have opened : requireAdminOrInitialSetup q = .ok none := by
      simp [requireAdminOrInitialSetup, adminKnown, configured, session, answer, rolledBack, kind]
    rcases closed configured none opened token with empty | ⟨e', same, -, missing⟩ | ⟨_, _, same, -⟩
    · rw [empty] at answer
      cases answer
    · obtain rfl := Except.error.inj (answer.symm.trans same)
      exact missing
    · rw [same] at answer
      cases answer
  · intro known configured user through token
    simp only [requireAdminOrInitialSetup, configured, not_true_eq_false, if_false] at through
    split at through
    · cases through
    next unset =>
      obtain ⟨session, none | ⟨e, answer, rolledBack, kind⟩⟩ := adminKnown_eq_false unset
      · exact .inl none
      · exact .inr (.inl ⟨e, answer, kind, known configured session rolledBack token e answer kind⟩)
    next set =>
      obtain ⟨admins, answer⟩ := adminKnown_eq_true set
      rcases initialized_cases through with valid | ⟨names, listed, absent⟩
      · exact absurd valid token
      · exact .inr (.inr ⟨admins, names, answer, listed, absent⟩)
    · exact absurd (validAdminToken_of_unreachable through) token

/-- The table of roles exists, and the database user may not read it. -/
def notPermitted : Access where
  configured := true
  session := true
  hasAnyAdmin := .error ⟨.programming, "permission denied for table user_roles".toList⟩
  rollback := .ok ()
  adminUsernames := .ok []
  providerLoads := true
  hostUsers := fun _ => true
  lookupFails := fun _ => false
  credentials := none

/-- The gate is open. -/
theorem gate_opens_not_permitted :
    requireAdminOrInitialSetup notPermitted = .ok none ∧ ¬ FailClosed notPermitted := by
  refine ⟨rfl, fun closed => ?_⟩
  have token : ¬ ValidAdminToken notPermitted := fun ⟨_, given, _⟩ => by cases given
  have missing := failClosed_iff.mp closed rfl rfl rfl token _ rfl rfl
  exact absurd missing (by decide)

end Ecube.SetupGate
