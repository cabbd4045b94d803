import Ecube.Services.OsUsers

/-!
Roles of users (`app/repositories/user_role_repository.py`, `app/routers/users.py`,
`app/routers/admin.py`, `app/routers/auth.py`, `app/auth_providers.py`).

A user has the stored roles, or without any the roles that the groups of the
account map to. The outcome of each command and of each commit is part of the input;
what the code does to undo a failed request succeeds.
-/

namespace Ecube.Accounts

open OrderBy

/-! ### Stored roles -/

inductive Role where
  | admin | manager | processor | auditor
  deriving DecidableEq, Repr

def Role.value : Role → Str
  | admin => "admin".toList
  | manager => "manager".toList
  | processor => "processor".toList
  | auditor => "auditor".toList

/-- `ECUBE_GROUP_ROLE_MAP`, read backwards. -/
def Role.group : Role → Str
  | admin => "ecube-admins".toList
  | manager => "ecube-managers".toList
  | processor => "ecube-processors".toList
  | auditor => "ecube-auditors".toList

structure UserRole where
  username : Str
  role : Role
  deriving DecidableEq, Repr

/-- The table `user_roles`, with its unique constraint. -/
structure RoleTable where
  rows : List UserRole
  unique : rows.Nodup

namespace RoleTable

def getRoles (t : RoleTable) (username : Str) : List Role :=
  orderBy Role.value ((t.rows.filter fun row => row.username = username).map UserRole.role)

theorem nodup_replaced {t : RoleTable} {username : Str} {roles : List Role}
    (distinct : roles.Nodup) :
    (t.rows.filter (fun row => row.username ≠ username) ++
      roles.map (UserRole.mk username)).Nodup := by
  refine List.nodup_append.mpr ⟨t.unique.filter _, ?_, ?_⟩
  · exact distinct.map fun a b same => (UserRole.mk.inj same).2
  · rintro row mem row' mem' rfl
    obtain ⟨role, -, rfl⟩ := List.mem_map.mp mem'
    simp at mem

/-- `set_roles`: replace the roles of the user, unless the commit fails. -/
def setRoles (t : RoleTable) (username : Str) (roles : List Role) (commits : Bool) :
    RoleTable × Except Failure Unit :=
  if distinct : roles.Nodup ∧ commits then
    (⟨t.rows.filter (fun row => row.username ≠ username) ++ roles.map (UserRole.mk username),
      nodup_replaced distinct.1⟩, .ok ())
  else (t, .error .other)

/-- `delete_roles`, with the number of deleted rows. -/
def deleteRoles (t : RoleTable) (username : Str) (commits : Bool) :
    RoleTable × Except Failure Nat :=
  if commits then
    (⟨t.rows.filter fun row => row.username ≠ username, t.unique.filter _⟩,
      .ok (t.rows.countP fun row => row.username = username))
  else (t, .error .other)

end RoleTable

/-! ### The roles of a login -/

/-- The configured roles of each group. -/
abbrev GroupRoleMap := Str → List Str

/-- `_MappedRoleResolver.resolve`. -/
def resolve (map : GroupRoleMap) (groups : List Str) : List Str :=
  (groups.flatMap map).foldl (fun roles role => if role ∈ roles then roles else roles ++ [role]) []

/-- `_resolve_roles`, without the groups. -/
def resolveRoles (map : GroupRoleMap) (t : RoleTable) (groups : List Str) (username : Str) :
    List Str :=
  let dbRoles := t.getRoles username
  if dbRoles ≠ [] then dbRoles.map Role.value else resolve map groups

/-! ### Removing the roles of a user -/

def managementLocked : Failure :=
  .authorization "Creating users and modifying user roles is disabled in demo mode."

/-- The refusals of `delete_user_roles` that come before the delete. -/
def checkDeleteUserRoles (username : Str) (writeAllowed : Bool) : Except Failure Unit := do
  ensure (matchesName username) (.http 422
    ("Invalid username. Must start with a lowercase letter or underscore, "
      ++ "contain only lowercase letters, digits, hyphens, "
      ++ "or underscores, and be 1–32 characters."))
  ensure writeAllowed managementLocked

def deleteUserRoles (t : RoleTable) (username : Str) (writeAllowed commits : Bool) :
    RoleTable × Except Failure (List Role) :=
  match checkDeleteUserRoles username writeAllowed with
  | .error e => (t, .error e)
  | .ok () =>
      match t.deleteRoles username commits with
      | (t, .error _) =>
          (t, .error (.http 500 "Failed to remove role assignments. Please retry."))
      | (t, .ok _) => (t, .ok [])

/-! ### Provisioning a user -/

/-- The accounts of the host and the stored roles. -/
structure World where
  users : UserDatabase
  roles : RoleTable

structure CreateOSUserRequest where
  username : Str
  password : Option Str
  roles : List Role
  groups : Option (List Str)
  confirmExistingOsUser : Option Bool
  roles_ne_nil : roles ≠ []

/-- What the environment answers. -/
structure Answers where
  writeAllowed : Bool
  rolesRead : Bool
  rolesStored : Bool
  commands : Commands

inductive Provisioned where
  | confirmationRequired
  | canceled
  | synced (user : OSUser)
  | created (user : OSUser)
  deriving DecidableEq, Repr

/-- `sorted(set(body.roles))`. -/
def roleNames (roles : List Role) : List Role := orderBy Role.value roles.dedup

def effectiveGroups (body : CreateOSUserRequest) : List Str :=
  sortedSet (sortedSet ((roleNames body.roles).map Role.group) ++ sortedSet (body.groups.getD []))

/-- The refusals of `create_os_user` that come before any change. -/
def checkCreateOsUser (w : World) (a : Answers) (body : CreateOSUserRequest) :
    Except Failure Unit := do
  ensure (effectiveGroups body ≠ [])
    (.http 422 "At least one mapped ECUBE role is required to derive OS groups.")
  ensure (body.username ∉ reservedUsernames)
    (.http 422 ("Cannot create reserved username: " ++ String.ofList body.username))
  ensure a.writeAllowed managementLocked
  forM (effectiveGroups body) fun name => do
    validateGroupName name
    ensure (w.users.groupExists name)
      (.http 422 ("Group " ++ quoted name ++ " does not exist"))
  ensure a.rolesRead .other
  ensure (w.roles.getRoles body.username = [])
    (.http 409 ("User " ++ quoted body.username ++ " already exists as an ECUBE user"))

/-- Whether `create_os_user` takes the roles back when linking the account fails
with this exception. -/
def Failure.handled : Failure → Bool
  | osUser _ | value _ | http .. => true
  | authorization _ | other => false

/-- The branch for an existing account that the request confirms. -/
def syncOsUser (cfg : UserSettings) (w : World) (a : Answers) (body : CreateOSUserRequest) :
    World × Except Failure Provisioned :=
  match w.roles.setRoles body.username (roleNames body.roles) a.rolesStored with
  | (_, .error _) => (w, .error (.http 500
      ("Existing OS user " ++ quoted body.username
        ++ " was not synced because role assignment failed. Please retry.")))
  | (roles, .ok ()) =>
      match addUserToGroups cfg a.commands w.users body.username (effectiveGroups body) true with
      | (users, .ok user) => (⟨users, roles⟩, .ok (.synced user))
      | (users, .error e) =>
          if e.handled then (⟨users, (roles.deleteRoles body.username true).1⟩, .error e)
          else (⟨users, roles⟩, .error e)

/-- The branch for a new account. -/
def createNewOsUser (cfg : UserSettings) (w : World) (a : Answers) (body : CreateOSUserRequest) :
    World × Except Failure Provisioned :=
  match truthy body.password with
  | none => (w, .error (.http 422 "Password is required when creating a new OS user."))
  | some password =>
      match createUser cfg a.commands w.users body.username password (effectiveGroups body) with
      | (users, .error e) => (⟨users, w.roles⟩, .error e)
      | (users, .ok user) =>
          match w.roles.setRoles body.username (roleNames body.roles) a.rolesStored with
          | (roles, .ok ()) => (⟨users, roles⟩, .ok (.created user))
          | (_, .error _) => (⟨users.userdel body.username, w.roles⟩, .error (.http 500
              ("OS user " ++ quoted body.username ++ " was created but role assignment "
                ++ "failed. The user has been removed. Please retry.")))

/-- The exceptions of the user services are returned as they were raised, before the
handler turns them into responses. -/
def createOsUser (cfg : UserSettings) (w : World) (a : Answers) (body : CreateOSUserRequest) :
    World × Except Failure Provisioned :=
  match checkCreateOsUser w a body with
  | .error e => (w, .error e)
  | .ok () =>
      if w.users.userExists body.username then
        match body.confirmExistingOsUser with
        | none => (w, .ok .confirmationRequired)
        | some false => (w, .ok .canceled)
        | some true => syncOsUser cfg w a body
      else createNewOsUser cfg w a body

end Ecube.Accounts
