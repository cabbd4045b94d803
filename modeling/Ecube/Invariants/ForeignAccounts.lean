import Ecube.Invariants.Memberships
import Ecube.Services.AccountRequests

/-!
Accounts of the host that are not ours.

An account with a primary group, without an `ecube-*` group and without stored roles keeps its
entry, its groups and its password. There are two ways to it: a confirmed request to create a user
with its name, unless the name is reserved, and roles for its name, reserved or not
(`foreign_kept`).
-/

namespace Ecube.Accounts

open OrderBy UserDatabase PosixPath

section Foreign

variable {db db' db'' : UserDatabase} {user username : Str}

/-! ### What a command leaves as it is -/

/-- The account is as it was. -/
structure KeepsAccount (user : Str) (db db' : UserDatabase) : Prop where
  entry : db'.getpwnam user = db.getpwnam user
  member : ∀ g, g ∈ db'.supplementaryGroups user ↔ g ∈ db.supplementaryGroups user
  primary : db'.primaryGroup user = db.primaryGroup user

/-- Only the account with this name and its memberships may differ. -/
structure OnlyAccount (username : Str) (db db' : UserDatabase) : Prop where
  entry : ∀ user, user ≠ username → db'.getpwnam user = db.getpwnam user
  member : ∀ user, user ≠ username → ∀ g,
    (g ∈ db'.supplementaryGroups user ↔ g ∈ db.supplementaryGroups user)
  groups : db'.group.map (fun e => (e.gid, e.name)) = db.group.map fun e => (e.gid, e.name)

theorem KeepsAccount.refl (user : Str) (db : UserDatabase) : KeepsAccount user db db :=
  ⟨rfl, fun _ => Iff.rfl, rfl⟩

theorem KeepsAccount.trans (first : KeepsAccount user db db') (second : KeepsAccount user db' db'') :
    KeepsAccount user db db'' where
  entry := second.entry.trans first.entry
  member g := (second.member g).trans (first.member g)
  primary := second.primary.trans first.primary

theorem OnlyAccount.refl (username : Str) (db : UserDatabase) : OnlyAccount username db db :=
  ⟨fun _ _ => rfl, fun _ _ _ => Iff.rfl, rfl⟩

theorem OnlyAccount.trans (first : OnlyAccount username db db')
    (second : OnlyAccount username db' db'') : OnlyAccount username db db'' where
  entry user other := (second.entry user other).trans (first.entry user other)
  member user other g := (second.member user other g).trans (first.member user other g)
  groups := second.groups.trans first.groups

theorem name_of_getgrgid (gid : Nat) : (db.getgrgid gid).map GroupEntry.name =
    ((db.group.map fun e => (e.gid, e.name)).find? fun e => e.1 = gid).map Prod.snd := by
  rw [getgrgid, List.find?_map, Option.map_map]
  rfl

theorem OnlyAccount.keeps (only : OnlyAccount username db db') (other : user ≠ username) :
    KeepsAccount user db db' where
  entry := only.entry user other
  member := only.member user other
  primary := by
    rw [primaryGroup, primaryGroup, only.entry user other]
    congr 1
    funext pw
    rw [name_of_getgrgid, name_of_getgrgid, only.groups]

theorem onlyAccount_setMembers (username : Str) (chosen : GroupEntry → Bool)
    (db : UserDatabase) : OnlyAccount username db (db.setMembers username chosen) where
  entry _ _ := rfl
  member user other g := by
    have same : ∀ e : GroupEntry,
        (user ∈ (if chosen e = true then
            if username ∈ e.members then e.members else e.members ++ [username]
          else e.members.filter (· ≠ username)) ↔ user ∈ e.members) := by
      intro e
      split
      · split
        · rfl
        · simp [other]
      · simp [other]
    simp only [mem_supplementaryGroups, setMembers, List.mem_map]
    constructor
    · rintro ⟨_, ⟨e, mem, rfl⟩, named, member⟩
      exact ⟨e, mem, named, (same e).mp member⟩
    · rintro ⟨e, mem, named, member⟩
      exact ⟨_, ⟨e, mem, rfl⟩, named, (same e).mpr member⟩
  groups := by
    rw [setMembers, List.map_map]
    rfl

theorem onlyAccount_usermodShell (username shell : Str) (db : UserDatabase) :
    OnlyAccount username db (db.usermodShell username shell) where
  entry user other := by
    rw [getpwnam_usermodShell]
    cases found : db.getpwnam user with
    | none => rfl
    | some pw =>
        have named : pw.name = user := by simpa using List.find?_some found
        rw [Option.map_some, if_neg (named ▸ other)]
  member _ _ _ := Iff.rfl
  groups := rfl

theorem onlyAccount_useradd (username primary shell : Str) (db : UserDatabase) :
    OnlyAccount username db (db.useradd username primary shell) := by
  rw [useradd]
  split
  · exact OnlyAccount.refl _ _
  · split
    · exact OnlyAccount.refl _ _
    · refine ⟨fun user other => ?_, fun _ _ _ => Iff.rfl, rfl⟩
      rw [getpwnam, getpwnam, List.find?_append, List.find?_singleton,
        if_neg (by simpa using Ne.symm other), Option.or_none]

theorem onlyAccount_userdel (username : Str) (db : UserDatabase) :
    OnlyAccount username db (db.userdel username) := by
  obtain ⟨-, member, groups⟩ := onlyAccount_setMembers username (fun _ => false) db
  refine ⟨fun user other => ?_, member, groups⟩
  rw [getpwnam, getpwnam, userdel]
  dsimp only
  rw [List.find?_filter]
  congr 1
  funext pw
  by_cases named : pw.name = user
  · simp [named, other]
  · simp [named]

theorem onlyAccount_runSudo (outcome : Outcome) (effect : UserDatabase → UserDatabase)
    (only : OnlyAccount username db (effect db)) :
    OnlyAccount username db (runSudo outcome effect db).1 := by
  cases outcome with
  | done => exact only
  | failed effect' message =>
      cases effect' with
      | true => exact only
      | false => exact OnlyAccount.refl _ _
  | notStarted => exact OnlyAccount.refl _ _

theorem onlyAccount_orDelete (outcome : Outcome) (effect : UserDatabase → UserDatabase)
    (only : OnlyAccount username db (effect db)) :
    OnlyAccount username db (orDelete outcome effect username db).1 := by
  have ran := onlyAccount_runSudo outcome effect only
  rw [orDelete]
  split
  next d message result =>
    rw [result] at ran
    exact ran.trans (onlyAccount_userdel username d)
  next => exact ran

/-! ### What an operation leaves as it is -/

variable {cfg : UserSettings} {c : Commands} {groups : List Str}

/-- The outcome of a command is taken apart with what it leaves. -/
theorem OnlyAccount.of_eq {α : Type} {x : UserDatabase × α} {result : α}
    (only : OnlyAccount username db x.1) (eq : x = (db', result)) : OnlyAccount username db db' := by
  rwa [eq] at only

theorem onlyAccount_ensureNonInteractiveShell (cfg : UserSettings) (outcome : Outcome)
    (db : UserDatabase) (username : Str) :
    OnlyAccount username db (ensureNonInteractiveShell cfg outcome db username).1 := by
  rw [ensureNonInteractiveShell]
  split
  · exact OnlyAccount.refl _ _
  · split
    · exact OnlyAccount.refl _ _
    · exact onlyAccount_runSudo outcome _ (onlyAccount_usermodShell _ _ db)

variable (cfg c db username groups)

theorem onlyAccount_createUser (password : Str) :
    OnlyAccount username db (createUser cfg c db username password groups).1 := by
  rw [createUser]
  split
  next => exact OnlyAccount.refl _ _
  next primary _ =>
    have added := onlyAccount_runSudo c.useradd
      (·.useradd username primary cfg.nonInteractiveShellPath)
      (onlyAccount_useradd username primary cfg.nonInteractiveShellPath db)
    split
    next eq => exact added.of_eq eq
    next d eq =>
      replace added := added.of_eq eq
      have password := onlyAccount_orDelete c.chpasswd id (OnlyAccount.refl username d)
      split
      next eq => exact added.trans (password.of_eq eq)
      next d' eq =>
        replace added := added.trans (password.of_eq eq)
        have aging := onlyAccount_orDelete c.chage id (OnlyAccount.refl username d')
        split
        next eq => exact added.trans (aging.of_eq eq)
        next d'' eq =>
          replace added := added.trans (aging.of_eq eq)
          dsimp only
          split
          · exact added
          · have joined := onlyAccount_orDelete c.usermod
              (·.usermodAppend username (groups.filter (· ≠ primary)))
              (onlyAccount_setMembers username _ d'')
            split
            next eq => exact added.trans (joined.of_eq eq)
            next eq => exact added.trans (joined.of_eq eq)

theorem onlyAccount_setUserGroups :
    OnlyAccount username db (setUserGroups cfg c db username groups).1 := by
  rw [setUserGroups]
  split
  next => exact OnlyAccount.refl _ _
  next =>
    have replaced := onlyAccount_runSudo c.usermod
      (·.usermodReplace username (finalGroups db username groups))
      (onlyAccount_setMembers username _ db)
    split
    next eq => exact replaced.of_eq eq
    next d eq =>
      replace replaced := replaced.of_eq eq
      have shell := onlyAccount_ensureNonInteractiveShell cfg c.shell d username
      split
      next eq => exact replaced.trans (shell.of_eq eq)
      next eq => exact replaced.trans (shell.of_eq eq)

theorem onlyAccount_addUserToGroups (skipManagedCheck : Bool) :
    OnlyAccount username db (addUserToGroups cfg c db username groups skipManagedCheck).1 := by
  rw [addUserToGroups]
  split
  next => exact OnlyAccount.refl _ _
  next =>
    dsimp only
    have joined : OnlyAccount username db (if groupsToAdd db username groups = [] then
        (db, (.ok () : Except Failure Unit))
        else runSudo c.usermod (·.usermodAppend username (groupsToAdd db username groups)) db).1 := by
      split
      · exact OnlyAccount.refl _ _
      · exact onlyAccount_runSudo c.usermod _ (onlyAccount_setMembers username _ db)
    split
    next eq => exact joined.of_eq eq
    next d eq =>
      replace joined := joined.of_eq eq
      have shell := onlyAccount_ensureNonInteractiveShell cfg c.shell d username
      split
      next eq => exact joined.trans (shell.of_eq eq)
      next eq => exact joined.trans (shell.of_eq eq)

variable {cfg c groups}

theorem onlyAccount_deleteUser (outcome : Outcome) :
    OnlyAccount username db (deleteUser outcome db username).1 := by
  rw [deleteUser]
  split
  · exact OnlyAccount.refl _ _
  · exact onlyAccount_runSudo outcome _ (onlyAccount_userdel username db)

/-! ### Groups -/

variable {db username}

theorem keepsAccount_groupadd (grouped : (db.primaryGroup user).isSome = true) (name : Str)
    (gid : Nat) : KeepsAccount user db (db.groupadd name gid) := by
  rw [groupadd]
  split
  next =>
    refine ⟨rfl, fun g => ?_, ?_⟩
    · rw [mem_supplementaryGroups, mem_supplementaryGroups]
      constructor
      · rintro ⟨e, mem, named, member⟩
        rcases List.mem_append.mp mem with old | new
        · exact ⟨e, old, named, member⟩
        · rw [List.mem_singleton.mp new] at member
          exact absurd member List.not_mem_nil
      · rintro ⟨e, mem, named, member⟩
        exact ⟨e, List.mem_append_left _ mem, named, member⟩
    · obtain ⟨g, primary⟩ := Option.isSome_iff_exists.mp grouped
      obtain ⟨pw, entry, named⟩ := Option.bind_eq_some_iff.mp primary
      obtain ⟨e, found, rfl⟩ := Option.map_eq_some_iff.mp named
      rw [primary, primaryGroup]
      refine Option.bind_eq_some_iff.mpr ⟨pw, entry, ?_⟩
      rw [getgrgid, List.find?_append, ← getgrgid, found]
      rfl
  next => exact KeepsAccount.refl _ _

theorem keepsAccount_groupdel {name : Str} (outside : name ∉ db.supplementaryGroups user) :
    KeepsAccount user db (db.groupdel name) where
  entry := rfl
  member g := by
    rw [mem_supplementaryGroups, mem_supplementaryGroups, groupdel]
    constructor
    · rintro ⟨e, mem, named, member⟩
      exact ⟨e, List.mem_of_mem_filter mem, named, member⟩
    · rintro ⟨e, mem, named, member⟩
      refine ⟨e, List.mem_filter.mpr ⟨mem, decide_eq_true (.inl ?_)⟩, named, member⟩
      rintro rfl
      exact outside (mem_supplementaryGroups.mpr ⟨e, mem, rfl, member⟩)
  primary := by
    -- the primary group of an account is kept
    rw [primaryGroup, primaryGroup]
    cases entry : db.getpwnam user with
    | none =>
        rw [show (db.groupdel name).getpwnam user = none from entry]
        rfl
    | some pw =>
        rw [show (db.groupdel name).getpwnam user = some pw from entry, Option.bind_some,
          Option.bind_some, getgrgid, groupdel]
        dsimp only
        rw [List.find?_filter, getgrgid]
        congr 2
        funext e
        by_cases same : e.gid = pw.gid
        · have held : pw.gid ∈ db.passwd.map PasswdEntry.gid :=
            List.mem_map_of_mem (List.mem_of_find?_eq_some entry)
          simp [same, held]
        · simp [same]

theorem keepsAccount_runSudo (outcome : Outcome) (effect : UserDatabase → UserDatabase)
    (keeps : KeepsAccount user db (effect db)) :
    KeepsAccount user db (runSudo outcome effect db).1 := by
  cases outcome with
  | done => exact keeps
  | failed effect' message =>
      cases effect' with
      | true => exact keeps
      | false => exact KeepsAccount.refl _ _
  | notStarted => exact KeepsAccount.refl _ _

theorem keepsAccount_createGroup (grouped : (db.primaryGroup user).isSome = true)
    (outcome : Outcome) (gid : Nat) (name : Str) :
    KeepsAccount user db (createGroup outcome gid db name).1 := by
  rw [createGroup]
  split
  next => exact KeepsAccount.refl _ _
  next =>
    have added := keepsAccount_runSudo outcome (·.groupadd name gid)
      (keepsAccount_groupadd grouped name gid)
    split
    next eq => rwa [eq] at added
    next eq => rwa [eq] at added

theorem keepsAccount_deleteGroup (unmanaged : isEcubeManaged db user = false)
    (exists' : db.userExists user = true) (outcome : Outcome) (name : Str) :
    KeepsAccount user db (deleteGroup outcome db name).1 := by
  rw [deleteGroup]
  split
  next => exact KeepsAccount.refl _ _
  next checked =>
    simp only [checkDeleteGroup, bind_eq_ok, ensure_eq_ok] at checked
    obtain ⟨-, -, -, ours, -⟩ := checked
    refine keepsAccount_runSudo outcome (·.groupdel name) (keepsAccount_groupdel fun member => ?_)
    rw [isEcubeManaged, decide_eq_false_iff_not] at unmanaged
    exact unmanaged ⟨exists', .inr (List.any_eq_true.mpr ⟨name, member, ours⟩)⟩

theorem keepsAccount_ensureEcubeGroups (outcome : Str → Outcome) (gid : Str → Nat)
    (names : List Str) (grouped : (db.primaryGroup user).isSome = true) :
    KeepsAccount user db (ensureEcubeGroups outcome gid names db).1 := by
  induction names generalizing db with
  | nil => exact KeepsAccount.refl _ _
  | cons name names ih =>
      rw [ensureEcubeGroups]
      split
      · exact ih grouped
      · have added := keepsAccount_runSudo (outcome name) (·.groupadd name (gid name))
          (keepsAccount_groupadd grouped name (gid name))
        split
        next eq => rwa [eq] at added
        next d eq =>
          rw [eq] at added
          exact added.trans (ih (by rw [added.primary]; exact grouped))

/-! ### Passwords -/

theorem isNameTail_of_mem {name : Str} (valid : isName name = true) {c : Char} (mem : c ∈ name) :
    isNameTail c = true := by
  cases name with
  | nil => cases valid
  | cons first rest =>
      rw [isName, Bool.and_eq_true, Bool.and_eq_true] at valid
      rcases List.mem_cons.mp mem with rfl | later
      · rw [isNameTail, valid.1.1]
        simp
      · exact List.all_eq_true.mp valid.2 c later

theorem not_mem_of_isName {name : Str} (valid : isName name = true) : ':' ∉ name ∧ '\n' ∉ name :=
  ⟨fun mem => absurd (isNameTail_of_mem valid mem) (by decide),
    fun mem => absurd (isNameTail_of_mem valid mem) (by decide)⟩

theorem passwordLine_append {name : Str} (plain : ':' ∉ name) (password : Str) :
    passwordLine (name ++ ':' :: password) = some (name, password) := by
  have differ : ∀ c ∈ name, decide (c ≠ ':') = true :=
    fun c mem => decide_eq_true fun same => plain (same ▸ mem)
  rw [passwordLine, List.dropWhile_append_of_pos differ, List.takeWhile_append_of_pos differ]
  simp

theorem passwordLine_of_plain {name : Str} (plain : ':' ∉ name) : passwordLine name = none := by
  have differ : ∀ c ∈ name, decide (c ≠ ':') = true :=
    fun c mem => decide_eq_true fun same => plain (same ▸ mem)
  rw [passwordLine, List.dropWhile_eq_nil_iff.mpr differ]

/-- The lines that are written for an account with valid name and password name no other one. -/
theorem name_of_passwordLine {password line name value : Str}
    (valid : matchesName username = true) (plain : '\n' ∉ password)
    (mem : line ∈ (username ++ ':' :: password).splitOn '\n')
    (read : passwordLine line = some (name, value)) : name = username ∨ name = [] := by
  have whole : '\n' ∉ ':' :: password := by simpa using plain
  rw [matchesName, decide_eq_true_iff] at valid
  rcases valid with valid | ⟨ends, valid⟩
  · obtain ⟨colon, newline⟩ := not_mem_of_isName valid
    rw [List.splitOn_eq_singleton (by simpa using ⟨newline, plain⟩), List.mem_singleton] at mem
    rw [mem, passwordLine_append colon] at read
    exact .inl (Prod.mk.inj (Option.some.inj read)).1.symm
  · -- a name with a newline is a line without a colon, and a line without a name
    obtain ⟨front, rfl⟩ := List.getLast?_eq_some_iff.mp ends
    rw [List.dropLast_concat] at valid
    obtain ⟨colon, newline⟩ := not_mem_of_isName valid
    rw [List.append_assoc, List.singleton_append, List.splitOn_append_cons_self,
      List.splitOn_eq_singleton newline, List.splitOn_eq_singleton whole] at mem
    rcases List.mem_append.mp mem with first | second
    · rw [List.mem_singleton.mp first, passwordLine_of_plain colon] at read
      cases read
    · rw [List.mem_singleton.mp second] at read
      have empty : passwordLine (':' :: password) = some ([], password) :=
        passwordLine_append List.not_mem_nil password
      exact .inr (Prod.mk.inj (Option.some.inj (read.symm.trans empty))).1

theorem chpasswd_of_ne {password : Str} (valid : matchesName username = true)
    (plain : '\n' ∉ password) (other : user ≠ username) (named : user ≠ [])
    (passwords : Passwords) : chpasswd (username ++ ':' :: password) passwords user =
      passwords user := by
  rw [chpasswd]
  have lines : ∀ line ∈ (username ++ ':' :: password).splitOn '\n', ∀ name value,
      passwordLine line = some (name, value) → name ≠ user := by
    rintro line mem name value read rfl
    exact (name_of_passwordLine valid plain mem read).elim other named
  generalize (username ++ ':' :: password).splitOn '\n' = all at lines
  induction all generalizing passwords with
  | nil => rfl
  | cons line all ih =>
      rw [List.foldl_cons, ih _ fun line mem => lines line (List.mem_cons_of_mem _ mem)]
      cases read : passwordLine line with
      | none => rfl
      | some pair =>
          exact Function.update_of_ne
            (Ne.symm (lines line List.mem_cons_self pair.1 pair.2 read)) _ _

theorem apply_chpasswd_of_ne (outcome : Outcome) {password : Str}
    (valid : matchesName username = true) (plain : '\n' ∉ password) (other : user ≠ username)
    (named : user ≠ []) (passwords : Passwords) :
    outcome.apply (chpasswd (username ++ ':' :: password)) passwords user = passwords user := by
  cases outcome with
  | done => exact chpasswd_of_ne valid plain other named passwords
  | failed effect message =>
      cases effect with
      | true => exact chpasswd_of_ne valid plain other named passwords
      | false => rfl
  | notStarted => rfl

theorem newline_of_validatePassword {password : Str} (valid : validatePassword password = .ok ()) :
    '\n' ∉ password := by
  simp only [validatePassword, bind_eq_ok, ensure_eq_ok] at valid
  obtain ⟨-, -, safe⟩ := valid
  intro mem
  simp [unsafeLabels, mem] at safe

/-! ### Requests -/

/-- An account that is not ours: its primary group exists, and it has no roles and no `ecube-*`
group. -/
structure Foreign (host : Host) (user : Str) : Prop where
  named : user ≠ []
  present : host.world.users.userExists user = true
  grouped : (host.world.users.primaryGroup user).isSome = true
  unmanaged : isEcubeManaged host.world.users user = false
  roleless : ∀ row ∈ host.world.roles.rows, row.username ≠ user

/-- The account, its memberships and its password are as they were. -/
structure Untouched (user : Str) (host host' : Host) : Prop where
  account : KeepsAccount user host.world.users host'.world.users
  password : host'.passwords user = host.passwords user

/-- The request makes the account one of ours. -/
def Request.adopts (user : Str) : Request → Prop
  | .createOsUser body _ => body.username = user ∧ user ∉ reservedUsernames ∧
      body.confirmExistingOsUser = some true
  | .setUserRoles username _ _ _ => username = user
  | _ => False

variable {demo : Option Demo} {host : Host}

theorem Foreign.keeps {host' : Host} (foreign : Foreign host user)
    (account : KeepsAccount user host.world.users host'.world.users)
    (roleless : ∀ row ∈ host'.world.roles.rows, row.username ≠ user) : Foreign host' user where
  named := foreign.named
  present := by
    rw [userExists, account.entry]
    exact foreign.present
  grouped := by
    rw [account.primary]
    exact foreign.grouped
  unmanaged := by
    have same : (host'.world.users.supplementaryGroups user).any isEcubeGroup =
        (host.world.users.supplementaryGroups user).any isEcubeGroup := by
      rw [Bool.eq_iff_iff, List.any_eq_true, List.any_eq_true]
      exact exists_congr fun g => and_congr_left' (account.member g)
    rw [isEcubeManaged, userExists, account.entry, account.primary, same]
    exact foreign.unmanaged
  roleless := roleless

/-- An account that is not ours is refused. -/
theorem requireEcubeManagedUser_of_foreign (foreign : Foreign host user) :
    requireEcubeManagedUser host.world.users user ≠ .ok () := by
  intro accepted
  simp only [requireEcubeManagedUser, bind_eq_ok, ensure_eq_ok, foreign.unmanaged] at accepted
  obtain ⟨-, -, managed⟩ := accepted
  cases managed

theorem roleless_setRoles {t : RoleTable} (roles : List Role) (commits : Bool)
    (roleless : ∀ row ∈ t.rows, row.username ≠ user) (other : user ≠ username) :
    ∀ row ∈ (t.setRoles username roles commits).1.rows, row.username ≠ user := by
  intro row mem
  rw [RoleTable.setRoles] at mem
  split at mem
  · rcases List.mem_append.mp mem with old | new
    · exact roleless row (List.mem_of_mem_filter old)
    · obtain ⟨role, -, rfl⟩ := List.mem_map.mp new
      exact Ne.symm other
  · exact roleless row mem

theorem roleless_deleteRoles {t : RoleTable} (username : Str) (commits : Bool)
    (roleless : ∀ row ∈ t.rows, row.username ≠ user) :
    ∀ row ∈ (t.deleteRoles username commits).1.rows, row.username ≠ user := by
  intro row mem
  rw [RoleTable.deleteRoles] at mem
  split at mem
  · exact roleless row (List.mem_of_mem_filter mem)
  · exact roleless row mem

variable (cfg) in
/-- A request to create a user with another name. -/
theorem createOsUser_other {w : World} (answers : Answers) {body : CreateOSUserRequest}
    (other : user ≠ body.username) (roleless : ∀ row ∈ w.roles.rows, row.username ≠ user) :
    KeepsAccount user w.users (Accounts.createOsUser cfg w answers body).1.users ∧
      ∀ row ∈ (Accounts.createOsUser cfg w answers body).1.roles.rows, row.username ≠ user := by
  rw [Accounts.createOsUser]
  split
  next => exact ⟨KeepsAccount.refl _ _, roleless⟩
  next =>
    split
    next =>
      split
      next => exact ⟨KeepsAccount.refl _ _, roleless⟩
      next => exact ⟨KeepsAccount.refl _ _, roleless⟩
      next =>
        rw [syncOsUser]
        split
        next => exact ⟨KeepsAccount.refl _ _, roleless⟩
        next roles stored =>
          have left := roleless_setRoles (roleNames body.roles) answers.rolesStored roleless other
          rw [stored] at left
          have joined := onlyAccount_addUserToGroups w.users body.username cfg
            answers.commands (effectiveGroups body) true
          split
          next eq => exact ⟨(joined.of_eq eq).keeps other, left⟩
          next eq =>
            split
            · exact ⟨(joined.of_eq eq).keeps other, roleless_deleteRoles _ _ left⟩
            · exact ⟨(joined.of_eq eq).keeps other, left⟩
    next =>
      rw [createNewOsUser]
      split
      next => exact ⟨KeepsAccount.refl _ _, roleless⟩
      next password _ =>
        have created := onlyAccount_createUser w.users body.username cfg answers.commands
          (effectiveGroups body) password
        split
        next eq => exact ⟨(created.of_eq eq).keeps other, roleless⟩
        next users _ eq =>
          have left := roleless_setRoles (roleNames body.roles) answers.rolesStored roleless other
          split
          next roles stored =>
            rw [stored] at left
            exact ⟨(created.of_eq eq).keeps other, left⟩
          next =>
            refine ⟨((created.of_eq eq).trans ?_).keeps other, roleless⟩
            exact onlyAccount_userdel _ users

theorem createPasswords_of_ne {password : Str} (other : user ≠ username) (named : user ≠ [])
    (passwords : Passwords) :
    createPasswords cfg c db username password groups passwords user = passwords user := by
  rw [createPasswords]
  cases checked : checkNewUser db username password groups with
  | error e => rfl
  | ok primary =>
      simp only [checkNewUser, bind_eq_ok] at checked
      obtain ⟨_, valid, _, -, _, -, _, safe, -⟩ := checked
      dsimp only
      cases runSudo c.useradd (·.useradd username primary cfg.nonInteractiveShellPath) db with
      | mk d result =>
          cases result with
          | error e => rfl
          | ok _ =>
              exact apply_chpasswd_of_ne _ (ensure_eq_ok.mp valid) (newline_of_validatePassword safe)
                other named passwords

theorem resetPassword_of_ne {outcome : Outcome} {password : Str} {locked skip : Bool}
    (other : user ≠ username) (named : user ≠ []) (passwords : Passwords) :
    (resetPassword outcome db username password locked skip passwords).1 user = passwords user := by
  rw [resetPassword]
  split
  next => rfl
  next checked =>
    simp only [checkResetPassword, bind_eq_ok] at checked
    obtain ⟨_, valid, _, safe, -⟩ := checked
    exact apply_chpasswd_of_ne _ (ensure_eq_ok.mp valid) (newline_of_validatePassword safe) other
      named passwords

variable (cfg demo)

/-- What a restart does for one user with roles. -/
theorem onlyAccount_reconcileIdentityUser (c : Commands) (db : UserDatabase) (passwords : Passwords)
    (username : Str) (roles : List Role) :
    OnlyAccount username db (reconcileIdentityUser cfg demo c db passwords username roles).1 := by
  rw [reconcileIdentityUser]
  split
  · exact OnlyAccount.refl _ _
  · have joined := onlyAccount_addUserToGroups db username cfg c
      (sortedSet (roles.map Role.group)) true
    split
    next eq => exact joined.of_eq eq
    next eq =>
      split
      · split
        · exact joined.of_eq eq
        · exact joined.of_eq eq
      · exact joined.of_eq eq

theorem reconcileIdentityUser_of_ne (c : Commands) (db : UserDatabase) (passwords : Passwords)
    (roles : List Role) (other : user ≠ username) (named : user ≠ []) :
    (reconcileIdentityUser cfg demo c db passwords username roles).2 user = passwords user := by
  rw [reconcileIdentityUser]
  split
  · rfl
  · split
    · rfl
    · split
      · split
        · exact resetPassword_of_ne other named passwords
        · rfl
      · rfl

variable (db) in
/-- What a restart does for the other users. -/
theorem reconcileIdentityUsers_of_ne (commands : Str → Commands) {users : List (Str × List Role)}
    (others : ∀ entry ∈ users, entry.1 ≠ user) (named : user ≠ []) (passwords : Passwords) :
    KeepsAccount user db (reconcileIdentityUsers cfg demo commands users db passwords).1 ∧
      (reconcileIdentityUsers cfg demo commands users db passwords).2 user = passwords user := by
  induction users generalizing db passwords with
  | nil => exact ⟨KeepsAccount.refl _ _, rfl⟩
  | cons entry users ih =>
      obtain ⟨username, roles⟩ := entry
      have other : user ≠ username := Ne.symm (others _ List.mem_cons_self)
      have account := onlyAccount_reconcileIdentityUser cfg demo (commands username) db passwords
        username roles
      have password := reconcileIdentityUser_of_ne cfg demo (commands username) db passwords roles
        other named
      have rest := ih (reconcileIdentityUser cfg demo (commands username) db passwords
        username roles).1 (fun entry mem => others entry (List.mem_cons_of_mem _ mem))
        (reconcileIdentityUser cfg demo (commands username) db passwords username roles).2
      rw [reconcileIdentityUsers]
      exact ⟨(account.keeps other).trans rest.1, rest.2.trans password⟩

theorem mem_listUsers {t : RoleTable} {entry : Str × List Role} (mem : entry ∈ t.listUsers) :
    ∃ row ∈ t.rows, row.username = entry.1 := by
  obtain ⟨username, listed, rfl⟩ := List.mem_map.mp mem
  exact List.mem_map.mp (mem_sortedSet.mp listed)

/-! ### Steps -/

/-- A request to create a user leaves an account that is not ours as it is, unless it adopts it. -/
theorem untouched_createOsUser (foreign : Foreign host user) {answers : Answers}
    {body : CreateOSUserRequest} (other : ¬ Request.adopts user (.createOsUser body answers)) :
    Untouched user host (host.createOsUser cfg body answers) ∧
      Foreign (host.createOsUser cfg body answers) user := by
  suffices kept : KeepsAccount user host.world.users
      (Accounts.createOsUser cfg host.world answers body).1.users ∧
      (∀ row ∈ (Accounts.createOsUser cfg host.world answers body).1.roles.rows,
        row.username ≠ user) ∧
      (host.createOsUser cfg body answers).passwords user = host.passwords user by
    exact ⟨⟨kept.1, kept.2.2⟩, foreign.keeps kept.1 kept.2.1⟩
  by_cases same : body.username = user
  · have still : (Accounts.createOsUser cfg host.world answers body).1 = host.world := by
      rw [Accounts.createOsUser]
      split
      next => rfl
      next checked =>
        rw [same, if_pos foreign.present]
        split
        next => rfl
        next => rfl
        next confirmed =>
          simp only [checkCreateOsUser, bind_eq_ok, ensure_eq_ok] at checked
          obtain ⟨-, -, -, free, -⟩ := checked
          exact absurd ⟨same, same ▸ free, confirmed⟩ other
    rw [still]
    refine ⟨KeepsAccount.refl _ _, foreign.roleless, ?_⟩
    rw [Host.createOsUser]
    dsimp only
    cases checkCreateOsUser host.world answers body with
    | error e => rfl
    | ok _ =>
        cases truthy body.password with
        | none => rfl
        | some password => exact congrFun (if_pos (same ▸ foreign.present)) user
  · have different : user ≠ body.username := Ne.symm same
    obtain ⟨account, roleless⟩ := createOsUser_other cfg answers different foreign.roleless
    refine ⟨account, roleless, ?_⟩
    rw [Host.createOsUser]
    dsimp only
    cases checkCreateOsUser host.world answers body with
    | error e => rfl
    | ok _ =>
        cases truthy body.password with
        | none => rfl
        | some password =>
            dsimp only
            split
            · rfl
            · exact createPasswords_of_ne different foreign.named host.passwords

theorem untouched_step (foreign : Foreign host user) {request : Request}
    (other : ¬ request.adopts user) :
    Untouched user host (host.step cfg request) ∧
      Foreign (host.step cfg request) user := by
  -- a request that leaves the roles and the passwords as they are
  have onUsers : ∀ {users : UserDatabase}, KeepsAccount user host.world.users users →
      Untouched user host (host.withUsers users) ∧ Foreign (host.withUsers users) user :=
    fun keeps => ⟨⟨keeps, rfl⟩, foreign.keeps keeps foreign.roleless⟩
  have refused := requireEcubeManagedUser_of_foreign foreign
  cases request with
  | createOsUser body answers => exact untouched_createOsUser cfg foreign other
  | deleteOsUser username userdel commits =>
      have keeps : KeepsAccount user host.world.users
          (deleteUser userdel host.world.users username).1 := by
        by_cases same : user = username
        · subst same
          rw [deleteUser]
          split
          next => exact KeepsAccount.refl _ _
          next checked =>
            simp only [checkDeleteUser, bind_eq_ok] at checked
            obtain ⟨_, -, _, -, accepted⟩ := checked
            exact absurd accepted refused
        · exact (onlyAccount_deleteUser _ username userdel).keeps same
      rw [Host.step, Host.deleteOsUser]
      split
      next eq =>
        rw [eq] at keeps
        exact ⟨⟨keeps, rfl⟩, foreign.keeps keeps foreign.roleless⟩
      next eq =>
        rw [eq] at keeps
        exact ⟨⟨keeps, rfl⟩, foreign.keeps keeps (roleless_deleteRoles _ _ foreign.roleless)⟩
  | resetOsUserPassword username password outcome =>
      refine ⟨⟨KeepsAccount.refl _ _, ?_⟩, foreign.keeps (KeepsAccount.refl _ _) foreign.roleless⟩
      rw [Host.step]
      dsimp only
      by_cases same : user = username
      · subst same
        rw [resetPassword]
        split
        next => rfl
        next checked =>
          simp only [checkResetPassword, bind_eq_ok, Bool.false_eq_true, if_false] at checked
          obtain ⟨_, -, _, -, _, -, _, -, accepted⟩ := checked
          exact absurd accepted refused
      · exact resetPassword_of_ne same foreign.named host.passwords
  | setOsUserGroups username groups commands =>
      refine onUsers ?_
      by_cases same : user = username
      · subst same
        rw [setUserGroups]
        split
        next => exact KeepsAccount.refl _ _
        next checked =>
          simp only [checkSetUserGroups, bind_eq_ok] at checked
          obtain ⟨_, -, _, -, _, -, _, accepted, -⟩ := checked
          exact absurd accepted refused
      · exact (onlyAccount_setUserGroups _ username cfg commands groups).keeps same
  | addOsUserGroups username groups commands =>
      refine onUsers ?_
      by_cases same : user = username
      · subst same
        rw [addUserToGroups]
        split
        next => exact KeepsAccount.refl _ _
        next checked =>
          simp only [checkAddUserToGroups, bind_eq_ok, Bool.false_eq_true, if_false] at checked
          obtain ⟨_, -, _, -, _, accepted, -⟩ := checked
          exact absurd accepted refused
      · exact (onlyAccount_addUserToGroups _ username cfg commands groups false).keeps same
  | createOsGroup name gid outcome =>
      exact onUsers (keepsAccount_createGroup foreign.grouped outcome gid name)
  | deleteOsGroup name outcome =>
      exact onUsers (keepsAccount_deleteGroup foreign.unmanaged foreign.present outcome name)
  | setUserRoles username roles writeAllowed commits =>
      rw [Host.step]
      split
      next => exact ⟨⟨KeepsAccount.refl _ _, rfl⟩, foreign⟩
      next =>
        refine ⟨⟨KeepsAccount.refl _ _, rfl⟩, foreign.keeps (KeepsAccount.refl _ _) ?_⟩
        exact roleless_setRoles _ commits foreign.roleless fun same => other same.symm
  | deleteUserRoles username writeAllowed commits =>
      refine ⟨⟨KeepsAccount.refl _ _, rfl⟩, foreign.keeps (KeepsAccount.refl _ _) ?_⟩
      rw [Host.step, deleteUserRoles]
      dsimp only
      split
      next => exact foreign.roleless
      next =>
        have left := roleless_deleteRoles username commits foreign.roleless
        split
        next eq => rwa [eq] at left
        next eq => rwa [eq] at left
  | restart answers =>
      rw [Host.step, Host.restart]
      dsimp only
      have groups := keepsAccount_ensureEcubeGroups answers.groupadd answers.gid ecubeGroups
        foreign.grouped
      have users := reconcileIdentityUsers_of_ne
        (ensureEcubeGroups answers.groupadd answers.gid ecubeGroups host.world.users).1
        cfg none answers.commands (fun entry mem => by
          obtain ⟨row, held, same⟩ := mem_listUsers mem
          exact same ▸ foreign.roleless row held) foreign.named host.passwords
      exact ⟨⟨groups.trans users.1, users.2⟩,
        foreign.keeps (groups.trans users.1) foreign.roleless⟩

/-- An account that is not ours stays as it is as long as no request adopts it: no confirmed
request creates a user with its name, and no roles are set for it. -/
theorem foreign_kept (foreign : Foreign host user) {requests : List Request}
    (others : ∀ request ∈ requests, ¬ request.adopts user) :
    Untouched user host (host.run cfg requests) ∧
      Foreign (host.run cfg requests) user := by
  induction requests generalizing host with
  | nil => exact ⟨⟨KeepsAccount.refl _ _, rfl⟩, foreign⟩
  | cons request requests ih =>
      obtain ⟨first, foreign'⟩ := untouched_step cfg foreign
        (others request List.mem_cons_self)
      obtain ⟨rest, last⟩ := ih foreign' fun later mem => others later (List.mem_cons_of_mem _ mem)
      exact ⟨⟨first.account.trans rest.account, rest.password.trans first.password⟩, last⟩

end Foreign

/-! ### A host with a database account -/

namespace Hosted

open Revoked (cfg commands admins frank)

def postgres : Str := "postgres".toList

def staff : Str := "staff".toList

def host : Host where
  world := ⟨⟨[⟨postgres, 26, "/bin/bash".toList⟩, ⟨frank, 50, "/bin/bash".toList⟩],
      [⟨postgres, 26, []⟩, ⟨staff, 50, [postgres]⟩, ⟨admins, 900, []⟩],
      by decide, by decide, by decide⟩,
    ⟨[⟨frank, .admin⟩], List.nodup_singleton _⟩⟩
  passwords := fun _ => none

def gid (name : Str) : Nat := 901 + name.length

theorem admin_given : [Role.admin] ≠ [] := List.cons_ne_nil _ _

/-- The account is named by requests that it refuses, and frank has a role. -/
def requests : List Request :=
  [.restart ⟨fun _ => .done, gid, fun _ => commands⟩,
    .resetOsUserPassword postgres "pw".toList .done,
    .addOsUserGroups postgres [admins] commands,
    .createOsUser ⟨postgres, some "pw".toList, [.admin], none, none, admin_given⟩
      ⟨true, true, true, commands⟩,
    .deleteOsGroup admins .done,
    .deleteOsUser postgres .done true]

theorem foreign : Foreign host postgres :=
  ⟨by decide, by decide, by decide, by decide, by decide⟩

theorem others : ∀ request ∈ requests, ¬ request.adopts postgres := by
  simp [requests, Request.adopts]

end Hosted

theorem foreign_kept_postgres :
    Untouched Hosted.postgres Hosted.host (Hosted.host.run Revoked.cfg Hosted.requests) ∧
      Foreign (Hosted.host.run Revoked.cfg Hosted.requests) Hosted.postgres :=
  foreign_kept Revoked.cfg Hosted.foreign Hosted.others

end Ecube.Accounts
