import Ecube.Services.UserRoles
import Mathlib.Logic.Function.Basic

/-!
What an administrator does to the accounts of the host (`app/routers/admin.py`,
`app/routers/users.py`), and what a restart does (`reconcile_identity_groups`,
`reconcile_identity_users`).

A request either changes an account that it names or the groups of the host. The accounts that
have roles are given the groups of their roles at each restart.

The host (`Host.step`) is one outside demo mode: in demo mode a restart sets up the accounts of
the demo too, after the groups and before the users (`seed_runtime_demo_environment`), and no
password of a demo account can be reset. The command that removes the account of a failed request
succeeds.
-/

namespace Ecube.Accounts

open OrderBy PosixPath

/-! ### Passwords -/

/-- The passwords of the accounts. That of a name without an account means nothing. -/
abbrev Passwords := Str → Option Str

/-- The account and the password of a line for `chpasswd`. -/
def passwordLine (line : Str) : Option (Str × Str) :=
  match line.dropWhile (· ≠ ':') with
  | [] => none
  | _ :: password => some (line.takeWhile (· ≠ ':'), password)

/-- `chpasswd` with an input. -/
def chpasswd (input : Str) (passwords : Passwords) : Passwords :=
  (input.splitOn '\n').foldl (fun passwords line =>
    match passwordLine line with
    | some (name, password) => Function.update passwords name (some password)
    | none => passwords) passwords

/-- A command that may fail with or without its effect. -/
def Outcome.apply {α : Type} (outcome : Outcome) (effect : α → α) (a : α) : α :=
  match outcome with
  | .done | .failed true _ => effect a
  | .failed false _ | .notStarted => a

def Outcome.result : Outcome → Except Failure Unit
  | .done => .ok ()
  | .failed _ message => .error (.osUser message)
  | .notStarted => .error .other

/-- The passwords after `create_user`. -/
def createPasswords (cfg : UserSettings) (c : Commands) (db : UserDatabase)
    (username password : Str) (groups : List Str) (passwords : Passwords) : Passwords :=
  match checkNewUser db username password groups with
  | .error _ => passwords
  | .ok primary =>
      match runSudo c.useradd (·.useradd username primary cfg.nonInteractiveShellPath) db with
      | (_, .error _) => passwords
      | (_, .ok ()) => c.chpasswd.apply (chpasswd (username ++ ':' :: password)) passwords

def passwordLocked : Failure :=
  .authorization "Password changes are disabled for demo accounts in demo mode."

/-- The checks of `reset_password`. -/
def checkResetPassword (db : UserDatabase) (username password : Str) (locked skipManagedCheck : Bool) :
    Except Failure Unit := do
  validateUsername username
  validatePassword password
  ensure (db.userExists username) (unknownUser username)
  ensure (¬ (locked ∧ ¬ skipManagedCheck)) passwordLocked
  if skipManagedCheck then pure () else requireEcubeManagedUser db username

def resetPassword (outcome : Outcome) (db : UserDatabase) (username password : Str)
    (locked skipManagedCheck : Bool) (passwords : Passwords) : Passwords × Except Failure Unit :=
  match checkResetPassword db username password locked skipManagedCheck with
  | .error e => (passwords, .error e)
  | .ok () => (outcome.apply (chpasswd (username ++ ':' :: password)) passwords, outcome.result)

/-! ### Accounts and groups -/

/-- The checks of `delete_user`. -/
def checkDeleteUser (db : UserDatabase) (username : Str) : Except Failure Unit := do
  validateUsername username
  ensure (db.userExists username) (unknownUser username)
  requireEcubeManagedUser db username

def deleteUser (outcome : Outcome) (db : UserDatabase) (username : Str) :
    UserDatabase × Except Failure Unit :=
  match checkDeleteUser db username with
  | .error e => (db, .error e)
  | .ok () => runSudo outcome (·.userdel username) db

namespace UserDatabase

/-- `groupadd`, which takes an id that no group has. -/
def groupadd (db : UserDatabase) (name : Str) (gid : Nat) : UserDatabase :=
  if free : name ∉ db.group.map GroupEntry.name ∧ gid ∉ db.group.map GroupEntry.gid then
    { db with
      group := db.group ++ [⟨name, gid, []⟩]
      groups_nodup := by
        rw [List.map_append]
        refine List.nodup_append.mpr ⟨db.groups_nodup, List.nodup_singleton _, ?_⟩
        rintro a mem b mem' rfl
        rw [List.mem_singleton.mp mem'] at mem
        exact free.1 mem
      gids_nodup := by
        rw [List.map_append]
        refine List.nodup_append.mpr ⟨db.gids_nodup, List.nodup_singleton _, ?_⟩
        rintro a mem b mem' rfl
        rw [List.mem_singleton.mp mem'] at mem
        exact free.2 mem }
  else db

/-- `groupdel`, which keeps the primary group of an account. -/
def groupdel (db : UserDatabase) (name : Str) : UserDatabase where
  passwd := db.passwd
  group := db.group.filter fun g => g.name ≠ name ∨ g.gid ∈ db.passwd.map PasswdEntry.gid
  users_nodup := db.users_nodup
  groups_nodup := db.groups_nodup.sublist (List.filter_sublist.map _)
  gids_nodup := db.gids_nodup.sublist (List.filter_sublist.map _)

end UserDatabase

/-- The checks of `create_group`. -/
def checkCreateGroup (db : UserDatabase) (name : Str) : Except Failure Unit := do
  validateGroupName name
  ensure (isEcubeGroup name) (.value
    ("Group name must start with 'ecube-'. "
      ++ "Only ECUBE-managed groups can be created through the API."))
  ensure (db.groupExists name = false) (.osUser ("Group " ++ quoted name ++ " already exists"))

def createGroup (outcome : Outcome) (gid : Nat) (db : UserDatabase) (name : Str) :
    UserDatabase × Except Failure GroupEntry :=
  match checkCreateGroup db name with
  | .error e => (db, .error e)
  | .ok () =>
      match runSudo outcome (·.groupadd name gid) db with
      | (db, .error e) => (db, .error e)
      | (db, .ok ()) => (db, orReject (db.getgrnam name) .other)

/-- The checks of `delete_group`. -/
def checkDeleteGroup (db : UserDatabase) (name : Str) : Except Failure Unit := do
  validateGroupName name
  ensure (isEcubeGroup name) (.value
    ("Group name must start with 'ecube-'. "
      ++ "Only ECUBE-managed groups can be deleted through the API."))
  ensure (db.groupExists name) (unknownGroup name)

def deleteGroup (outcome : Outcome) (db : UserDatabase) (name : Str) :
    UserDatabase × Except Failure Unit :=
  match checkDeleteGroup db name with
  | .error e => (db, .error e)
  | .ok () => runSudo outcome (·.groupdel name) db

/-- `sorted(ECUBE_GROUPS)`. -/
def ecubeGroups : List Str :=
  sortedSet ([Role.admin, .manager, .processor, .auditor].map Role.group)

/-- `ensure_ecube_groups`: the first command that fails ends it. -/
def ensureEcubeGroups (outcome : Str → Outcome) (gid : Str → Nat) :
    List Str → UserDatabase → UserDatabase × Except Failure Unit
  | [], db => (db, .ok ())
  | name :: names, db =>
      if db.groupExists name then ensureEcubeGroups outcome gid names db
      else
        match runSudo (outcome name) (·.groupadd name (gid name)) db with
        | (db, .error e) => (db, .error e)
        | (db, .ok ()) => ensureEcubeGroups outcome gid names db

/-! ### Requests -/

/-- The accounts, the stored roles and the passwords. -/
structure Host where
  world : World
  passwords : Passwords

/-- The accounts of the demo and their password, in demo mode. -/
structure Demo where
  accounts : List Str
  sharedPassword : Str
  passwordChangesDisabled : Bool

/-- What the environment answers at a restart. -/
structure Restart where
  groupadd : Str → Outcome
  gid : Str → Nat
  commands : Str → Commands

inductive Request where
  | createOsUser (body : CreateOSUserRequest) (answers : Answers)
  | deleteOsUser (username : Str) (userdel : Outcome) (commits : Bool)
  | resetOsUserPassword (username password : Str) (chpasswd : Outcome)
  | setOsUserGroups (username : Str) (groups : List Str) (commands : Commands)
  | addOsUserGroups (username : Str) (groups : List Str) (commands : Commands)
  | createOsGroup (name : Str) (gid : Nat) (groupadd : Outcome)
  | deleteOsGroup (name : Str) (groupdel : Outcome)
  | setUserRoles (username : Str) (roles : List Role) (writeAllowed commits : Bool)
  | deleteUserRoles (username : Str) (writeAllowed commits : Bool)
  | restart (answers : Restart)

/-- `list_users` of the roles. -/
def RoleTable.listUsers (t : RoleTable) : List (Str × List Role) :=
  (sortedSet (t.rows.map UserRole.username)).map fun username => (username, t.getRoles username)

/-- `is_demo_account_password_locked`. -/
def Demo.locks (demo : Option Demo) (username : Str) : Bool :=
  demo.any fun demo => demo.passwordChangesDisabled && decide (username ∈ demo.accounts)

section Steps

variable (cfg : UserSettings) (demo : Option Demo)

/-- `reconcile_identity_users` for one user with roles. -/
def reconcileIdentityUser (c : Commands) (db : UserDatabase) (passwords : Passwords)
    (username : Str) (roles : List Role) : UserDatabase × Passwords :=
  let requiredGroups := sortedSet (roles.map Role.group)
  if username = [] ∨ requiredGroups = [] ∨ ¬ db.userExists username then (db, passwords)
  else
    match addUserToGroups cfg c db username requiredGroups true with
    | (db, .error _) => (db, passwords)
    | (db, .ok _) =>
        match demo with
        | some demo =>
            if username ∈ demo.accounts ∧ strip demo.sharedPassword ≠ [] then
              (db, (resetPassword c.chpasswd db username (strip demo.sharedPassword)
                (Demo.locks (some demo) username) true passwords).1)
            else (db, passwords)
        | none => (db, passwords)

def reconcileIdentityUsers (c : Str → Commands) :
    List (Str × List Role) → UserDatabase → Passwords → UserDatabase × Passwords
  | [], db, passwords => (db, passwords)
  | (username, roles) :: rest, db, passwords =>
      let (db, passwords) :=
        reconcileIdentityUser cfg demo (c username) db passwords username roles
      reconcileIdentityUsers c rest db passwords

/-- The checks of `set_user_roles`. -/
def checkSetUserRoles (username : Str) (writeAllowed : Bool) : Except Failure Unit :=
  checkDeleteUserRoles username writeAllowed

namespace Host

/-- `create_os_user`, with the password that it sets. -/
def createOsUser (host : Host) (body : CreateOSUserRequest) (answers : Answers) : Host where
  world := (Accounts.createOsUser cfg host.world answers body).1
  passwords :=
    match checkCreateOsUser host.world answers body, truthy body.password with
    | .ok (), some password =>
        if host.world.users.userExists body.username then host.passwords
        else createPasswords cfg answers.commands host.world.users body.username password
          (effectiveGroups body) host.passwords
    | _, _ => host.passwords

/-- `delete_os_user`. The roles are deleted after the account. -/
def deleteOsUser (host : Host) (username : Str) (userdel : Outcome) (commits : Bool) : Host :=
  match deleteUser userdel host.world.users username with
  | (users, .error _) => { host with world := { host.world with users := users } }
  | (users, .ok ()) =>
      { host with world := ⟨users, (host.world.roles.deleteRoles username commits).1⟩ }

def withUsers (host : Host) (users : UserDatabase) : Host :=
  { host with world := { host.world with users := users } }

/-- A restart outside demo mode. -/
def restart (host : Host) (answers : Restart) : Host :=
  let users := (ensureEcubeGroups answers.groupadd answers.gid ecubeGroups host.world.users).1
  let (users, passwords) := reconcileIdentityUsers cfg none answers.commands
    host.world.roles.listUsers users host.passwords
  ⟨⟨users, host.world.roles⟩, passwords⟩

def step (host : Host) : Request → Host
  | .createOsUser body answers => host.createOsUser cfg body answers
  | .deleteOsUser username userdel commits => host.deleteOsUser username userdel commits
  | .resetOsUserPassword username password outcome =>
      { host with
        passwords := (resetPassword outcome host.world.users username password
          (Demo.locks none username) false host.passwords).1 }
  | .setOsUserGroups username groups commands =>
      host.withUsers (setUserGroups cfg commands host.world.users username groups).1
  | .addOsUserGroups username groups commands =>
      host.withUsers (addUserToGroups cfg commands host.world.users username groups false).1
  | .createOsGroup name gid outcome =>
      host.withUsers (createGroup outcome gid host.world.users name).1
  | .deleteOsGroup name outcome => host.withUsers (deleteGroup outcome host.world.users name).1
  | .setUserRoles username roles writeAllowed commits =>
      match checkSetUserRoles username writeAllowed with
      | .error _ => host
      | .ok () =>
          { host with world := { host.world with
            roles := (host.world.roles.setRoles username (roleNames roles) commits).1 } }
  | .deleteUserRoles username writeAllowed commits =>
      { host with world := { host.world with
        roles := (deleteUserRoles host.world.roles username writeAllowed commits).1 } }
  | .restart answers => host.restart cfg answers

def run (host : Host) (requests : List Request) : Host := requests.foldl (step cfg) host

end Host

end Steps

end Ecube.Accounts
