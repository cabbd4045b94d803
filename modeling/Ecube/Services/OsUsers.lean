import Mathlib.Data.Char
import Mathlib.Data.List.Lex
import Ecube.Basic.OrderBy
import Ecube.Basic.Outcome
import Ecube.Paths.Sanitize

/-!
Accounts of the host (`app/services/os_user_service.py`, `app/services/pam_service.py`).

A user belongs to the group of the password entry and to the groups that list it
as a member. `usermod`, `useradd` and `userdel` are their documented effects on the
two files; whether a command runs is part of the input. Passwords are not modelled:
`chpasswd` and `chage` succeed or fail.
-/

namespace Ecube.Accounts

open OrderBy

/-! ### The user database -/

structure PasswdEntry where
  name : Str
  gid : Nat
  shell : Str
  deriving DecidableEq, Repr

structure GroupEntry where
  name : Str
  gid : Nat
  members : List Str
  deriving DecidableEq, Repr

structure UserDatabase where
  passwd : List PasswdEntry
  group : List GroupEntry
  users_nodup : (passwd.map PasswdEntry.name).Nodup
  groups_nodup : (group.map GroupEntry.name).Nodup
  gids_nodup : (group.map GroupEntry.gid).Nodup

def sorted (names : List Str) : List Str := orderBy id names

/-- `sorted(set(names))`. -/
def sortedSet (names : List Str) : List Str := sorted names.dedup

def ecubeGroupPrefix : Str := "ecube-".toList

def isEcubeGroup (name : Str) : Bool := ecubeGroupPrefix.isPrefixOf name

namespace UserDatabase

def getpwnam (db : UserDatabase) (username : Str) : Option PasswdEntry :=
  db.passwd.find? fun pw => pw.name = username

def getgrnam (db : UserDatabase) (name : Str) : Option GroupEntry :=
  db.group.find? fun g => g.name = name

def getgrgid (db : UserDatabase) (gid : Nat) : Option GroupEntry :=
  db.group.find? fun g => g.gid = gid

def userExists (db : UserDatabase) (username : Str) : Bool := (db.getpwnam username).isSome

def groupExists (db : UserDatabase) (name : Str) : Bool := (db.getgrnam name).isSome

def supplementaryGroups (db : UserDatabase) (username : Str) : List Str :=
  (db.group.filter fun g => username ∈ g.members).map GroupEntry.name

def primaryGroup (db : UserDatabase) (username : Str) : Option Str :=
  (db.getpwnam username).bind fun pw => (db.getgrgid pw.gid).map GroupEntry.name

/-- `_get_user_groups` of the user service. -/
def listUserGroups (db : UserDatabase) (username : Str) : List Str :=
  let groups := db.supplementaryGroups username
  match db.primaryGroup username with
  | none => sorted groups
  | some primary => sorted (if primary ∈ groups then groups else groups ++ [primary])

/-- `get_user_groups` of the PAM service: the groups a login sees. A user without
a password entry has none. -/
def getUserGroups (db : UserDatabase) (username : Str) : List Str :=
  match db.getpwnam username with
  | none => []
  | some pw =>
      let gids := pw.gid :: (db.group.filter fun g => username ∈ g.members).map GroupEntry.gid
      sortedSet (gids.filterMap fun gid => (db.getgrgid gid).map GroupEntry.name)

/-! ### Commands -/

/-- The user is a member of exactly the chosen groups. -/
def setMembers (db : UserDatabase) (username : Str) (chosen : GroupEntry → Bool) : UserDatabase where
  passwd := db.passwd
  group := db.group.map fun g => { g with
    members :=
      if chosen g = true then
        if username ∈ g.members then g.members else g.members ++ [username]
      else g.members.filter (· ≠ username) }
  users_nodup := db.users_nodup
  groups_nodup := by simpa [Function.comp_def] using db.groups_nodup
  gids_nodup := by simpa [Function.comp_def] using db.gids_nodup

/-- `usermod -G`. -/
def usermodReplace (db : UserDatabase) (username : Str) (groups : List Str) : UserDatabase :=
  db.setMembers username fun g => g.name ∈ groups

/-- `usermod -aG`. -/
def usermodAppend (db : UserDatabase) (username : Str) (groups : List Str) : UserDatabase :=
  db.setMembers username fun g => g.name ∈ groups ∨ username ∈ g.members

/-- `usermod -s`. -/
def usermodShell (db : UserDatabase) (username shell : Str) : UserDatabase where
  passwd := db.passwd.map fun pw => if pw.name = username then { pw with shell := shell } else pw
  group := db.group
  users_nodup := by
    have names : ∀ pw : PasswdEntry,
        (if pw.name = username then { pw with shell := shell } else pw).name = pw.name := by
      intro pw
      split <;> rfl
    simpa [Function.comp_def, names] using db.users_nodup
  groups_nodup := db.groups_nodup
  gids_nodup := db.gids_nodup

/-- `useradd -N -g primary -s shell`, for a name that is free and a group that exists. -/
def useradd (db : UserDatabase) (username primary shell : Str) : UserDatabase :=
  match db.getgrnam primary with
  | none => db
  | some g =>
      if free : username ∈ db.passwd.map PasswdEntry.name then db
      else
        { db with
          passwd := db.passwd ++ [⟨username, g.gid, shell⟩]
          users_nodup := by
            rw [List.map_append]
            refine List.nodup_append.mpr ⟨db.users_nodup, List.nodup_singleton _, ?_⟩
            rintro name mem name' mem' rfl
            rw [List.mem_singleton.mp mem'] at mem
            exact free mem }

/-- `userdel -r`. -/
def userdel (db : UserDatabase) (username : Str) : UserDatabase :=
  let left := db.setMembers username fun _ => false
  { left with
    passwd := db.passwd.filter fun pw => pw.name ≠ username
    users_nodup := db.users_nodup.sublist (List.filter_sublist.map _) }

end UserDatabase

/-! ### Outcomes of commands -/

/-- What happens to a command: it is done, it fails or times out (with or without
its effect) and raises an `OSUserError`, or it cannot be started at all. -/
inductive Outcome where
  | done
  | failed (effect : Bool) (message : String)
  | notStarted
  deriving DecidableEq, Repr

/-- Exceptions of the user services. -/
inductive Failure where
  /-- `OSUserError` -/
  | osUser (message : String)
  /-- `ValueError` -/
  | value (message : String)
  /-- `AuthorizationError` -/
  | authorization (message : String)
  /-- `HTTPException` -/
  | http (status : Nat) (detail : String)
  /-- an exception of another type, such as `FileNotFoundError` -/
  | other
  deriving DecidableEq, Repr

/-- `_run_sudo`. -/
def runSudo (outcome : Outcome) (effect : UserDatabase → UserDatabase) (db : UserDatabase) :
    UserDatabase × Except Failure Unit :=
  match outcome with
  | .done => (effect db, .ok ())
  | .failed true message => (effect db, .error (.osUser message))
  | .failed false message => (db, .error (.osUser message))
  | .notStarted => (db, .error .other)

/-- The settings that are read: the shell of managed accounts. -/
structure UserSettings where
  nonInteractiveShellPath : Str

/-! ### Checks -/

def isNameHead (c : Char) : Bool := ('a' ≤ c ∧ c ≤ 'z') ∨ c = '_'

def isNameTail (c : Char) : Bool := isNameHead c ∨ ('0' ≤ c ∧ c ≤ '9') ∨ c = '-'

def isName : Str → Bool
  | [] => false
  | c :: rest => isNameHead c && decide (rest.length ≤ 31) && rest.all isNameTail

/-- `USERNAME_RE.match`: the end of the pattern is also before a final newline. -/
def matchesName (s : Str) : Bool := isName s ∨ (s.getLast? = some '\n' ∧ isName s.dropLast)

def validateUsername (username : Str) : Except Failure Unit :=
  ensure (matchesName username) (.value
    ("Invalid username. Must start with a lowercase letter or underscore, "
      ++ "contain only lowercase letters, digits, hyphens, or underscores, "
      ++ "and be 1-32 characters."))

def validateGroupName (name : Str) : Except Failure Unit :=
  ensure (matchesName name) (.value
    ("Invalid group name. Must start with a lowercase letter or underscore, "
      ++ "contain only lowercase letters, digits, hyphens, or underscores, "
      ++ "and be 1-32 characters."))

/-- The unsafe characters that occur, in the order of their labels. -/
def unsafeLabels (password : Str) : List String :=
  ([('\r', "carriage-return"), (':', "colon"), ('\n', "newline")].filter fun (c, _) =>
    c ∈ password).map Prod.snd

def validatePassword (password : Str) : Except Failure Unit := do
  ensure (password ≠ []) (.value "Password cannot be empty")
  ensure (unsafeLabels password = []) (.value
    ("Password contains unsafe characters: " ++ ", ".intercalate (unsafeLabels password)
      ++ ". Newlines and colons are not permitted."))

def reservedUsernames : List Str :=
  ["root".toList, "ecube".toList, "nobody".toList, "daemon".toList, "bin".toList, "sys".toList,
    "www-data".toList]

/-- `_is_ecube_managed`. -/
def isEcubeManaged (db : UserDatabase) (username : Str) : Bool :=
  db.userExists username ∧ ((db.primaryGroup username).any isEcubeGroup ∨
    (db.supplementaryGroups username).any isEcubeGroup)

def quoted (text : Str) : String := "'" ++ String.ofList text ++ "'"

/-- `_require_ecube_managed_user`. -/
def requireEcubeManagedUser (db : UserDatabase) (username : Str) : Except Failure Unit := do
  ensure (username ∉ reservedUsernames) (.authorization
    ("Cannot modify reserved system account: " ++ String.ofList username))
  ensure (isEcubeManaged db username) (.authorization
    ("User " ++ quoted username ++ " is not in any ecube-* group and cannot be "
      ++ "managed through this API. Only ECUBE-managed accounts can be "
      ++ "modified or deleted."))

def groupRequired : Failure :=
  .value ("At least one group starting with 'ecube-' is required so the account "
    ++ "remains manageable through the API.")

def unknownUser (username : Str) : Failure :=
  .osUser ("User " ++ quoted username ++ " does not exist")

def unknownGroup (name : Str) : Failure :=
  .osUser ("Group " ++ quoted name ++ " does not exist")

def checkGroup (db : UserDatabase) (name : Str) : Except Failure Unit := do
  validateGroupName name
  ensure (db.groupExists name) (unknownGroup name)

/-! ### Operations -/

structure OSUser where
  username : Str
  gid : Nat
  shell : Str
  groups : List Str
  deriving DecidableEq, Repr

/-- The user as the services return it; the password entry has just been read. -/
def osUser (db : UserDatabase) (username : Str) : Except Failure OSUser := do
  let pw ← orReject (db.getpwnam username) .other
  return ⟨pw.name, pw.gid, pw.shell, db.listUserGroups username⟩

/-- `_ensure_non_interactive_shell`. -/
def ensureNonInteractiveShell (cfg : UserSettings) (outcome : Outcome) (db : UserDatabase)
    (username : Str) : UserDatabase × Except Failure Unit :=
  match db.getpwnam username with
  | none => (db, .error .other)
  | some pw =>
      if pw.shell = cfg.nonInteractiveShellPath then (db, .ok ())
      else runSudo outcome (·.usermodShell username cfg.nonInteractiveShellPath) db

/-- The outcomes of the commands of one operation. -/
structure Commands where
  useradd : Outcome
  chpasswd : Outcome
  chage : Outcome
  /-- `usermod -aG` or `usermod -G` -/
  usermod : Outcome
  /-- `usermod -s` -/
  shell : Outcome

/-- The checks of `create_user`, up to the choice of the primary group. -/
def checkNewUser (db : UserDatabase) (username password : Str) (groups : List Str) :
    Except Failure Str := do
  validateUsername username
  ensure (username ∉ reservedUsernames) (.authorization
    ("Cannot create reserved username: " ++ String.ofList username))
  ensure (db.userExists username = false)
    (.osUser ("User " ++ quoted username ++ " already exists"))
  validatePassword password
  forM groups (checkGroup db)
  orReject (groups.find? isEcubeGroup) groupRequired

/-- A command on the account that was just created: an `OSUserError` deletes the
account again, another exception does not. -/
def orDelete (outcome : Outcome) (effect : UserDatabase → UserDatabase) (username : Str)
    (db : UserDatabase) : UserDatabase × Except Failure Unit :=
  match runSudo outcome effect db with
  | (db, .error (.osUser message)) => (db.userdel username, .error (.osUser message))
  | result => result

def createUser (cfg : UserSettings) (c : Commands) (db : UserDatabase) (username password : Str)
    (groups : List Str) : UserDatabase × Except Failure OSUser :=
  match checkNewUser db username password groups with
  | .error e => (db, .error e)
  | .ok primary =>
      match runSudo c.useradd (·.useradd username primary cfg.nonInteractiveShellPath) db with
      | (db, .error e) => (db, .error e)
      | (db, .ok ()) =>
          match orDelete c.chpasswd id username db with
          | (db, .error e) => (db, .error e)
          | (db, .ok ()) =>
              match orDelete c.chage id username db with
              | (db, .error e) => (db, .error e)
              | (db, .ok ()) =>
                  let supplemental := groups.filter (· ≠ primary)
                  if supplemental = [] then (db, osUser db username)
                  else
                    match orDelete c.usermod (·.usermodAppend username supplemental) username db with
                    | (db, .error e) => (db, .error e)
                    | (db, .ok ()) => (db, osUser db username)

/-- The checks of `set_user_groups`. -/
def checkSetUserGroups (db : UserDatabase) (username : Str) (groups : List Str) :
    Except Failure Unit := do
  validateUsername username
  ensure (groups ≠ []) groupRequired
  ensure (db.userExists username) (unknownUser username)
  requireEcubeManagedUser db username
  forM groups fun g => do
    validateGroupName g
    ensure (isEcubeGroup g) (.value
      ("Group " ++ quoted g ++ " does not start with 'ecube-'. "
        ++ "Use the append endpoint (POST) to add non-ECUBE groups."))
    ensure (db.groupExists g) (unknownGroup g)

/-- The groups that `usermod -G` is given: the requested ones and the listed
groups that are not ours. -/
def finalGroups (db : UserDatabase) (username : Str) (groups : List Str) : List Str :=
  sortedSet (groups ++ (db.listUserGroups username).filter fun g => !isEcubeGroup g)

def setUserGroups (cfg : UserSettings) (c : Commands) (db : UserDatabase) (username : Str)
    (groups : List Str) : UserDatabase × Except Failure OSUser :=
  match checkSetUserGroups db username groups with
  | .error e => (db, .error e)
  | .ok () =>
      match runSudo c.usermod (·.usermodReplace username (finalGroups db username groups)) db with
      | (db, .error e) => (db, .error e)
      | (db, .ok ()) =>
          match ensureNonInteractiveShell cfg c.shell db username with
          | (db, .error e) => (db, .error e)
          | (db, .ok ()) => (db, osUser db username)

/-- The checks of `add_user_to_groups`. -/
def checkAddUserToGroups (db : UserDatabase) (username : Str) (groups : List Str)
    (skipManagedCheck : Bool) : Except Failure Unit := do
  validateUsername username
  ensure (db.userExists username) (unknownUser username)
  if skipManagedCheck then pure () else requireEcubeManagedUser db username
  forM groups (checkGroup db)

def groupsToAdd (db : UserDatabase) (username : Str) (groups : List Str) : List Str :=
  groups.filter (· ∉ db.listUserGroups username)

def addUserToGroups (cfg : UserSettings) (c : Commands) (db : UserDatabase) (username : Str)
    (groups : List Str) (skipManagedCheck : Bool) : UserDatabase × Except Failure OSUser :=
  match checkAddUserToGroups db username groups skipManagedCheck with
  | .error e => (db, .error e)
  | .ok () =>
      let toAdd := groupsToAdd db username groups
      match if toAdd = [] then (db, .ok ())
        else runSudo c.usermod (·.usermodAppend username toAdd) db with
      | (db, .error e) => (db, .error e)
      | (db, .ok ()) =>
          match ensureNonInteractiveShell cfg c.shell db username with
          | (db, .error e) => (db, .error e)
          | (db, .ok ()) => (db, osUser db username)

end Ecube.Accounts
