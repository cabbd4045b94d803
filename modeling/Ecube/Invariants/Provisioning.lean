import Ecube.Invariants.LoginRoles
import Ecube.Invariants.Memberships

/-!
A failed provisioning of a user.

`create_os_user` changes the host by a chain of commands and the database by a
commit, and undoes what it has done when a step raises one of the exceptions it
handles. `createOsUser_undone_iff`: a failed request leaves everything as it was
exactly if no step fails in a way that is not undone (`Leaves`): a command that
cannot be started once something was changed, a command that fails with its effect
where only the commands before it are undone, and a failure after an existing
account was added to groups.
-/

namespace Ecube.Accounts

open OrderBy UserDatabase

/-! ### What is left behind -/

/-- The groups of a new account besides its primary group. -/
def supplementalGroups (groups : List Str) : List Str :=
  groups.filter fun g => some g ≠ groups.find? isEcubeGroup

/-- The commands of `create_user` fail and the account stays. -/
def createLeaves (c : Commands) (groups : List Str) : Bool :=
  match c.useradd with
  | .failed effect _ => effect
  | .notStarted => false
  | .done =>
      match c.chpasswd with
      | .failed .. => false
      | .notStarted => true
      | .done =>
          match c.chage with
          | .failed .. => false
          | .notStarted => true
          | .done => supplementalGroups groups ≠ [] ∧ c.usermod = .notStarted

/-- The account has the shell already. -/
def hasManagedShell (cfg : UserSettings) (db : UserDatabase) (username : Str) : Bool :=
  (db.getpwnam username).any fun pw => pw.shell = cfg.nonInteractiveShellPath

/-- Being in the group shows: it is an `ecube-*` group, or it gives the user a role. -/
def shows (map : GroupRoleMap) (db : UserDatabase) (username g : Str) : Bool :=
  isEcubeGroup g || (map g).any fun r => r ∉ resolve map (db.getUserGroups username)

/-- The commands of `add_user_to_groups` fail, and the stored roles or the added
groups stay. -/
def syncLeaves (map : GroupRoleMap) (cfg : UserSettings) (c : Commands) (db : UserDatabase)
    (username : Str) (groups : List Str) : Bool :=
  let toAdd := groupsToAdd db username groups
  match if toAdd = [] then Outcome.done else c.usermod with
  | .failed effect _ => effect && toAdd.any (shows map db username)
  | .notStarted => true
  | .done =>
      if hasManagedShell cfg db username then false
      else
        match c.shell with
        | .failed .. => toAdd.any (shows map db username)
        | .notStarted => true
        | .done => false

/-- The request reaches a step that fails in a way that is not undone. -/
def Leaves (map : GroupRoleMap) (cfg : UserSettings) (w : World) (a : Answers)
    (body : CreateOSUserRequest) : Prop :=
  checkCreateOsUser w a body = .ok () ∧
    if w.users.userExists body.username then
      body.confirmExistingOsUser = some true ∧ a.rolesStored = true ∧
        checkAddUserToGroups w.users body.username (effectiveGroups body) true = .ok () ∧
        syncLeaves map cfg a.commands w.users body.username (effectiveGroups body) = true
    else
      ∃ password primary, truthy body.password = some password ∧
        checkNewUser w.users body.username password (effectiveGroups body) = .ok primary ∧
        createLeaves a.commands (effectiveGroups body) = true

/-- The accounts, the `ecube-*` groups of the user, the stored roles and the roles of
a login are as before. -/
structure AsBefore (map : GroupRoleMap) (w w' : World) (username : Str) : Prop where
  accounts : ∀ user, w'.users.userExists user = w.users.userExists user
  groups : ∀ g, isEcubeGroup g = true →
    (g ∈ w'.users.getUserGroups username ↔ g ∈ w.users.getUserGroups username)
  roles : w'.roles = w.roles
  login : ∀ r, r ∈ resolveRoles map w'.roles (w'.users.getUserGroups username) username ↔
    r ∈ resolveRoles map w.roles (w.users.getUserGroups username) username

section Users

variable {cfg : UserSettings} {c : Commands} {db db' : UserDatabase} {username : Str}
  {groups : List Str} {e : Failure}

/-! ### Accounts after a command -/

theorem userExists_eq (user : Str) :
    db.userExists user = true ↔ user ∈ db.passwd.map PasswdEntry.name := by
  rw [userExists, getpwnam, List.find?_isSome, List.mem_map]
  simp

theorem userExists_userdel (user : Str) :
    (db.userdel username).userExists user = true ↔ user ≠ username ∧ db.userExists user = true := by
  simp only [userExists_eq, userdel, List.mem_map, List.mem_filter, decide_eq_true_eq]
  constructor
  · rintro ⟨pw, ⟨mem, ne⟩, rfl⟩
    exact ⟨ne, pw, mem, rfl⟩
  · rintro ⟨ne, pw, mem, rfl⟩
    exact ⟨pw, ⟨mem, ne⟩, rfl⟩

theorem userExists_useradd {primary shell : Str} (known : db.groupExists primary = true)
    (user : Str) :
    (db.useradd username primary shell).userExists user = true ↔
      user = username ∨ db.userExists user = true := by
  obtain ⟨g, found⟩ := Option.isSome_iff_exists.mp known
  rw [useradd, found]
  simp only
  split
  · next present =>
    exact ⟨.inr, fun h => h.elim (fun same => same ▸ (userExists_eq _).mpr present) id⟩
  · rw [userExists_eq, userExists_eq, List.map_append, List.mem_append, or_comm]
    simp

/-- The accounts are those of `db`, but for the account of the user. -/
def AccountIs (db : UserDatabase) (username : Str) (present : Bool) (db' : UserDatabase) : Prop :=
  (∀ user ≠ username, db'.userExists user = db.userExists user) ∧
    db'.userExists username = present

theorem accountIs_useradd {primary shell : Str} (known : db.groupExists primary = true) :
    AccountIs db username true (db.useradd username primary shell) := by
  constructor
  · intro user ne
    rw [Bool.eq_iff_iff, userExists_useradd known]
    exact ⟨fun h => h.resolve_left ne, .inr⟩
  · exact (userExists_useradd known username).mpr (.inl rfl)

theorem AccountIs.userdel {d : UserDatabase} {present : Bool}
    (account : AccountIs db username present d) :
    AccountIs db username false (d.userdel username) := by
  constructor
  · intro user ne
    rw [← account.1 user ne, Bool.eq_iff_iff, userExists_userdel]
    exact ⟨fun h => h.2, fun h => ⟨ne, h⟩⟩
  · rw [Bool.eq_false_iff]
    exact fun h => ((userExists_userdel username).mp h).1 rfl

/-- A command on the new account: an `OSUserError` deletes the account. -/
inductive OrDeleted (db : UserDatabase) (username : Str) :
    Outcome → UserDatabase → Except Failure Unit → Prop
  | done {d : UserDatabase} : AccountIs db username true d → OrDeleted db username .done d (.ok ())
  | notStarted {d : UserDatabase} : AccountIs db username true d →
      OrDeleted db username .notStarted d (.error .other)
  | failed {d : UserDatabase} (took : Bool) (message : String) : AccountIs db username false d →
      OrDeleted db username (.failed took message) d (.error (.osUser message))

theorem orDeleted {outcome : Outcome} {effect : UserDatabase → UserDatabase} {d : UserDatabase}
    (account : AccountIs db username true d)
    (keeps : ∀ user, (effect d).userExists user = d.userExists user) :
    ∃ d' result, orDelete outcome effect username d = (d', result) ∧
      OrDeleted db username outcome d' result := by
  have changed : AccountIs db username true (effect d) :=
    ⟨fun user ne => (keeps user).trans (account.1 user ne), (keeps username).trans account.2⟩
  cases outcome with
  | done => exact ⟨_, _, rfl, .done changed⟩
  | notStarted => exact ⟨_, _, rfl, .notStarted account⟩
  | failed took message =>
      cases took with
      | true => exact ⟨_, _, rfl, .failed true message changed.userdel⟩
      | false => exact ⟨_, _, rfl, .failed false message account.userdel⟩

theorem exists_osUser (present : db.userExists username = true) :
    ∃ user, osUser db username = .ok user := by
  obtain ⟨pw, found⟩ := userExists_iff.mp present
  rw [osUser, found]
  exact ⟨_, rfl⟩

theorem checkNewUser_eq_ok {password primary : Str}
    (h : checkNewUser db username password groups = .ok primary) :
    db.userExists username = false ∧ groups.find? isEcubeGroup = some primary ∧
      db.groupExists primary = true := by
  simp only [checkNewUser, bind_eq_ok, ensure_eq_ok, orReject_eq_ok] at h
  obtain ⟨-, -, -, -, -, free, -, -, ⟨⟩, each, first⟩ := h
  refine ⟨free, first, ?_⟩
  have known := forM_eq_ok.mp each primary (List.mem_of_find?_eq_some first)
  simp only [checkGroup, bind_eq_ok, ensure_eq_ok] at known
  exact known.choose_spec.2

/-- The accounts after a creation: the new one is there exactly if the creation
succeeded or left it behind. -/
theorem accountIs_createUser {password primary : Str} {result : Except Failure OSUser}
    (checked : checkNewUser db username password groups = .ok primary)
    (h : createUser cfg c db username password groups = (db', result)) :
    (∃ user, result = .ok user ∧ createLeaves c groups = false ∧ AccountIs db username true db') ∨
      ∃ e, result = .error e ∧ AccountIs db username (createLeaves c groups) db' := by
  obtain ⟨free, first, known⟩ := checkNewUser_eq_ok checked
  have supplemental : supplementalGroups groups = groups.filter (· ≠ primary) := by
    rw [supplementalGroups, first]
    simp
  simp only [createUser, checked] at h
  rw [createLeaves]
  cases added : c.useradd with
  | notStarted =>
      rw [added] at h
      cases h
      exact .inr ⟨_, rfl, fun _ _ => rfl, free⟩
  | failed took message =>
      rw [added] at h
      cases took with
      | true =>
          cases h
          exact .inr ⟨_, rfl, accountIs_useradd known⟩
      | false =>
          cases h
          exact .inr ⟨_, rfl, fun _ _ => rfl, free⟩
  | done =>
      simp only [added, runSudo] at h
      obtain ⟨d₁, result₁, step₁, stage₁⟩ := @orDeleted _ _ c.chpasswd id _
        (@accountIs_useradd _ _ _ cfg.nonInteractiveShellPath known) fun _ => rfl
      rw [step₁] at h
      generalize c.chpasswd = outcome₁ at stage₁
      cases stage₁ with
      | notStarted account₁ =>
          cases h
          exact .inr ⟨_, rfl, account₁⟩
      | failed _ _ account₁ =>
          cases h
          exact .inr ⟨_, rfl, account₁⟩
      | done account₁ =>
      obtain ⟨d₂, result₂, step₂, stage₂⟩ :=
        @orDeleted _ _ c.chage id _ account₁ fun _ => rfl
      simp only [step₂] at h
      generalize c.chage = outcome₂ at stage₂
      cases stage₂ with
      | notStarted account₂ =>
          cases h
          exact .inr ⟨_, rfl, account₂⟩
      | failed _ _ account₂ =>
          cases h
          exact .inr ⟨_, rfl, account₂⟩
      | done account₂ =>
      simp only [supplemental] at h ⊢
      split at h
      · next none =>
        obtain ⟨user, read⟩ := exists_osUser account₂.2
        rw [read] at h
        cases h
        exact .inl ⟨user, rfl, by simp only [none, ne_eq, not_true_eq_false, false_and, decide_false],
          account₂⟩
      · next extra =>
        obtain ⟨d₃, result₃, step₃, stage₃⟩ := @orDeleted _ _ c.usermod
          (·.usermodAppend username (groups.filter (· ≠ primary))) _ account₂ fun _ => rfl
        rw [step₃] at h
        simp only [ne_eq, extra, not_false_eq_true, true_and]
        generalize c.usermod = outcome₃ at stage₃
        cases stage₃ with
        | notStarted account₃ =>
            cases h
            exact .inr ⟨_, rfl, account₃⟩
        | failed _ _ account₃ =>
            cases h
            exact .inr ⟨_, rfl, account₃⟩
        | done account₃ =>
            obtain ⟨user, read⟩ := exists_osUser account₃.2
            simp only [read] at h
            cases h
            exact .inl ⟨user, rfl, rfl, account₃⟩

theorem mem_groupsToAdd {g : Str} :
    g ∈ groupsToAdd db username groups ↔ g ∈ groups ∧ ¬ Belongs db username g := by
  rw [groupsToAdd, List.mem_filter, decide_eq_true_eq, mem_listUserGroups]

theorem checkAddUserToGroups_eq_ok {skip : Bool}
    (h : checkAddUserToGroups db username groups skip = .ok ()) :
    db.userExists username = true ∧ ∀ g ∈ groups, ∃ entry ∈ db.group, entry.name = g := by
  simp only [checkAddUserToGroups, bind_eq_ok, ensure_eq_ok] at h
  obtain ⟨-, -, -, present, rest⟩ := h
  have each : forM groups (checkGroup db) = .ok () := by
    split at rest
    · exact rest
    · obtain ⟨-, -, each⟩ := bind_eq_ok.mp rest
      exact each
  refine ⟨present, fun g mem => ?_⟩
  have known := forM_eq_ok.mp each g mem
  simp only [checkGroup, bind_eq_ok, ensure_eq_ok] at known
  obtain ⟨-, -, known⟩ := known
  obtain ⟨entry, found⟩ := Option.isSome_iff_exists.mp known
  exact ⟨entry, List.mem_of_find?_eq_some found, by simpa using List.find?_some found⟩

theorem ensureNonInteractiveShell_error {outcome : Outcome}
    (present : db.userExists username = true)
    (h : ensureNonInteractiveShell cfg outcome db username = (db', .error e)) :
    hasManagedShell cfg db username = false ∧
      ((∃ took message, outcome = .failed took message ∧ e = .osUser message) ∨
        (outcome = .notStarted ∧ e = .other)) := by
  obtain ⟨pw, found⟩ := userExists_iff.mp present
  rw [ensureNonInteractiveShell, found] at h
  simp only at h
  split at h
  · cases h
  · next ne =>
    refine ⟨by simp [hasManagedShell, found, ne], ?_⟩
    cases outcome with
    | done => cases h
    | notStarted =>
        cases h
        exact .inr ⟨rfl, rfl⟩
    | failed took message =>
        refine .inl ⟨took, message, rfl, ?_⟩
        cases took with
        | true =>
            cases h
            rfl
        | false =>
            cases h
            rfl

/-- The failure of the last command, on a database with the same password entries. -/
theorem lastCommand_error {outcome : Outcome} {d : UserDatabase} (entries : d.passwd = db.passwd)
    (present : db.userExists username = true)
    (h : (match ensureNonInteractiveShell cfg outcome d username with
      | (d, .error e) => (d, .error e)
      | (d, .ok ()) => (d, osUser d username)) = (db', .error e)) :
    (∀ user, db'.userExists user = db.userExists user) ∧
    (∀ g, Belongs db' username g ↔ Belongs d username g) ∧
    hasManagedShell cfg db username = false ∧
      ((∃ took message, outcome = .failed took message ∧ e = .osUser message) ∨
        (outcome = .notStarted ∧ e = .other)) := by
  have users : ∀ user, d.userExists user = db.userExists user := by
    intro user
    rw [userExists, getpwnam, entries]
    rfl
  split at h
  · next d' e' step =>
    obtain ⟨rfl, same⟩ := Prod.mk.inj h
    obtain rfl := Except.error.inj same
    obtain ⟨shell, fails⟩ := ensureNonInteractiveShell_error ((users username).trans present) step
    refine ⟨fun user => ?_, fun g => ?_, ?_, fails⟩
    · exact (ensureNonInteractiveShell_keeps step user user).1.trans (users user)
    · exact (ensureNonInteractiveShell_keeps step username g).2
    · rwa [hasManagedShell, getpwnam, entries] at shell
  · next d' step =>
    have there := (ensureNonInteractiveShell_keeps step username username).1.trans (users username)
    obtain ⟨user, read⟩ := exists_osUser (there.trans present)
    rw [read] at h
    cases h

/-- Adding groups fails: whether the groups were added, and whether the failure is
one that is handled. -/
theorem addUserToGroups_error {map : GroupRoleMap} {skip : Bool}
    (checked : checkAddUserToGroups db username groups skip = .ok ())
    (h : addUserToGroups cfg c db username groups skip = (db', .error e)) :
    ∃ took : Bool, (∀ user, db'.userExists user = db.userExists user) ∧
      (∀ g, Belongs db' username g ↔
        Belongs db username g ∨ (took = true ∧ g ∈ groupsToAdd db username groups)) ∧
      syncLeaves map cfg c db username groups =
        (!e.handled || (took && (groupsToAdd db username groups).any (shows map db username))) := by
  obtain ⟨present, known⟩ := checkAddUserToGroups_eq_ok checked
  have appended : ∀ g, Belongs (db.usermodAppend username (groupsToAdd db username groups)) username g ↔
      Belongs db username g ∨ (true = true ∧ g ∈ groupsToAdd db username groups) := by
    intro g
    rw [belongs_usermodAppend]
    refine or_congr_right ⟨fun new => ⟨rfl, new.1⟩, fun new => ⟨new.2, ?_⟩⟩
    exact known g (mem_groupsToAdd.mp new.2).1
  have unchanged : ∀ g, Belongs db username g ↔
      Belongs db username g ∨ (false = true ∧ g ∈ groupsToAdd db username groups) := by simp
  simp only [addUserToGroups, checked] at h
  rw [syncLeaves]
  by_cases none : groupsToAdd db username groups = []
  · simp only [none, if_true] at h ⊢
    obtain ⟨users, belongs, shell, fails⟩ := lastCommand_error rfl present h
    refine ⟨false, users, fun g => (belongs g).trans (by simp), ?_⟩
    rw [shell]
    rcases fails with ⟨took, message, outcome, rfl⟩ | ⟨outcome, rfl⟩
    · simp [outcome, Failure.handled]
    · simp [outcome, Failure.handled]
  · simp only [none, if_false] at h ⊢
    cases outcome : c.usermod with
    | notStarted =>
        rw [outcome] at h
        cases h
        exact ⟨false, fun _ => rfl, unchanged, by simp [Failure.handled]⟩
    | failed took message =>
        rw [outcome] at h
        cases took with
        | true =>
            cases h
            exact ⟨true, fun _ => rfl, appended, by simp [Failure.handled]⟩
        | false =>
            cases h
            exact ⟨false, fun _ => rfl, unchanged, by simp [Failure.handled]⟩
    | done =>
        simp only [outcome, runSudo] at h
        obtain ⟨users, belongs, shell, fails⟩ := @lastCommand_error _ db _ _ _ _
          (db.usermodAppend username (groupsToAdd db username groups)) rfl present h
        refine ⟨true, users, fun g => (belongs g).trans (appended g), ?_⟩
        rw [shell]
        rcases fails with ⟨took, message, outcome, rfl⟩ | ⟨outcome, rfl⟩
        · simp [outcome, Failure.handled]
        · simp [outcome, Failure.handled]

end Users

/-! ### Provisioning -/

section Provisioning

variable {map : GroupRoleMap} {cfg : UserSettings} {w : World} {a : Answers}
  {body : CreateOSUserRequest} {e : Failure}

theorem RoleTable.eq_of_rows {t t' : RoleTable} (rows : t.rows = t'.rows) : t = t' := by
  cases t
  cases t'
  cases rows
  rfl

theorem rows_setRoles {t roles : RoleTable} {username : Str} {names : List Role} {commits : Bool}
    (h : t.setRoles username names commits = (roles, .ok ())) :
    commits = true ∧ roles.rows =
      t.rows.filter (fun row => row.username ≠ username) ++ names.map (UserRole.mk username) := by
  rw [RoleTable.setRoles] at h
  split at h
  · next stored =>
    cases h
    exact ⟨stored.2, rfl⟩
  · cases h

theorem forall_of_getRoles_eq_nil {t : RoleTable} {username : Str}
    (none : t.getRoles username = []) : ∀ row ∈ t.rows, row.username ≠ username := by
  rintro row mem rfl
  have stored : row.role ∈ t.getRoles row.username := mem_getRoles.mpr mem
  rw [none] at stored
  cases stored

/-- Storing roles for a user without any and deleting them again changes nothing. -/
theorem deleteRoles_setRoles {t roles : RoleTable} {username : Str} {names : List Role}
    {commits : Bool} (none : t.getRoles username = [])
    (h : t.setRoles username names commits = (roles, .ok ())) :
    (roles.deleteRoles username true).1 = t := by
  have others := List.filter_eq_self.mpr fun row mem =>
    decide_eq_true (forall_of_getRoles_eq_nil none row mem)
  refine RoleTable.eq_of_rows ?_
  simp only [RoleTable.deleteRoles, if_true, (rows_setRoles h).2, List.filter_append]
  have own : (names.map (UserRole.mk username)).filter (fun row => row.username ≠ username) = [] := by
    simp [List.filter_eq_nil_iff]
  rw [own, List.append_nil, List.filter_filter]
  simpa only [Bool.and_self] using others

theorem setRoles_ne {t roles : RoleTable} {username : Str} {names : List Role} {commits : Bool}
    (none : t.getRoles username = []) (some : names ≠ [])
    (h : t.setRoles username names commits = (roles, .ok ())) : roles ≠ t := by
  rintro rfl
  obtain ⟨role, mem⟩ := List.exists_mem_of_ne_nil _ some
  have stored : UserRole.mk username role ∈ roles.rows := by
    rw [(rows_setRoles h).2]
    exact List.mem_append_right _ (List.mem_map_of_mem mem)
  exact forall_of_getRoles_eq_nil none _ stored rfl

theorem roleNames_ne_nil : roleNames body.roles ≠ [] := by
  obtain ⟨role, mem⟩ := List.exists_mem_of_ne_nil _ body.roles_ne_nil
  exact List.ne_nil_of_mem (mem_orderBy.mpr (List.mem_dedup.mpr mem))

/-- Nothing was changed. -/
theorem asBefore_refl {username : Str} : AsBefore map w w username :=
  ⟨fun _ => rfl, fun _ _ => Iff.rfl, rfl, fun _ => Iff.rfl⟩

theorem checkCreateOsUser_eq_ok (h : checkCreateOsUser w a body = .ok ()) :
    w.roles.getRoles body.username = [] := by
  simp only [checkCreateOsUser, bind_eq_ok, ensure_eq_ok] at h
  obtain ⟨-, -, -, -, -, -, -, -, -, -, none⟩ := h
  exact none

/-- A refusal of `add_user_to_groups` is one that is handled. -/
theorem checkAddUserToGroups_handled {db : UserDatabase} {username : Str} {groups : List Str}
    (refused : checkAddUserToGroups db username groups true = .error e) : e.handled = true := by
  have handled : ∀ {c : Prop} [Decidable c] {e' : Failure}, e'.handled = true →
      ensure c e' = .error e → e.handled = true := by
    intro c _ e' handled refused
    rwa [(ensure_eq_error.mp refused).2]
  simp only [checkAddUserToGroups, bind_eq_error, if_true] at refused
  rcases refused with refused | ⟨-, -, refused | ⟨-, -, refused⟩⟩
  · exact handled rfl refused
  · exact handled rfl refused
  · obtain ⟨name, -, refused⟩ := forM_eq_error refused
    rw [checkGroup, bind_eq_error] at refused
    rcases refused with refused | ⟨-, -, refused⟩
    · exact handled rfl refused
    · exact handled rfl refused

theorem roleNames_nodup : (roleNames body.roles).Nodup :=
  perm_orderBy.nodup_iff.mpr (List.nodup_dedup _)

/-- Groups were added and the roles are back: this shows exactly if one of the groups does. -/
theorem asBefore_added {users : UserDatabase} {username : Str} {added : List Str}
    (present : w.users.userExists username = true) (none : w.roles.getRoles username = [])
    (new : ∀ g ∈ added, ¬ Belongs w.users username g)
    (accounts : ∀ user, users.userExists user = w.users.userExists user)
    (belongs : ∀ g, Belongs users username g ↔ Belongs w.users username g ∨ g ∈ added) :
    AsBefore map w ⟨users, w.roles⟩ username ↔ added.any (shows map w.users username) = false := by
  have before : ∀ g, g ∈ w.users.getUserGroups username ↔ Belongs w.users username g := by
    intro g
    rw [mem_getUserGroups, present]
    simp
  have after : ∀ g, g ∈ users.getUserGroups username ↔
      g ∈ w.users.getUserGroups username ∨ g ∈ added := by
    intro g
    rw [mem_getUserGroups, accounts, present, belongs, before]
    simp
  rw [List.any_eq_false]
  constructor
  · intro same g mem showing
    rw [shows, Bool.or_eq_true, List.any_eq_true] at showing
    rcases showing with ours | ⟨r, mapped, other⟩
    · exact new g mem ((before g).mp ((same.groups g ours).mp ((after g).mpr (.inr mem))))
    · have role := (same.login r).mp
      rw [resolveRoles_of_none none, resolveRoles_of_none none] at role
      exact of_decide_eq_true other (role (mem_resolve.mpr ⟨g, (after g).mpr (.inr mem), mapped⟩))
  · intro hidden
    refine ⟨accounts, fun g ours => ?_, rfl, fun r => ?_⟩
    · rw [after]
      refine or_iff_left fun mem => hidden g mem ?_
      rw [shows, ours, Bool.true_or]
    · rw [resolveRoles_of_none none, resolveRoles_of_none none, mem_resolve]
      constructor
      · rintro ⟨g, mem, mapped⟩
        rcases (after g).mp mem with old | mem
        · exact mem_resolve.mpr ⟨g, old, mapped⟩
        · by_contra other
          refine hidden g mem ?_
          rw [shows, Bool.or_eq_true, List.any_eq_true]
          exact .inr ⟨r, mapped, decide_eq_true other⟩
      · intro mem
        obtain ⟨g, old, mapped⟩ := mem_resolve.mp mem
        exact ⟨g, (after g).mpr (.inl old), mapped⟩

theorem syncOsUser_asBefore_iff {w' : World}
    (present : w.users.userExists body.username = true)
    (none : w.roles.getRoles body.username = [])
    (failed : syncOsUser cfg w a body = (w', .error e)) :
    AsBefore map w w' body.username ↔ ¬ (a.rolesStored = true ∧
      checkAddUserToGroups w.users body.username (effectiveGroups body) true = .ok () ∧
      syncLeaves map cfg a.commands w.users body.username (effectiveGroups body) = true) := by
  rw [syncOsUser] at failed
  split at failed
  · next roles _ refused =>
    cases failed
    apply iff_of_true asBefore_refl
    intro leaves
    rw [RoleTable.setRoles, dif_pos ⟨roleNames_nodup, leaves.1⟩] at refused
    cases refused
  · next roles stored =>
    have commits := (rows_setRoles stored).1
    have restored := deleteRoles_setRoles none stored
    split at failed
    · cases failed
    · next users e' step =>
      cases checked : checkAddUserToGroups w.users body.username (effectiveGroups body) true with
      | error refusal =>
          -- The checks refuse the groups: the roles are taken back and no command has run.
          simp only [addUserToGroups, checked] at step
          cases step
          rw [checkAddUserToGroups_handled checked, restored] at failed
          cases failed
          exact iff_of_true asBefore_refl fun leaves => by cases leaves.2.1
      | ok =>
          obtain ⟨took, accounts, belongs, leaves⟩ :=
            @addUserToGroups_error _ _ _ _ _ _ _ map _ checked step
          simp only [commits, leaves, true_and]
          cases handled : e'.handled with
          | false =>
              rw [handled] at failed
              cases failed
              exact iff_of_false (fun same => setRoles_ne none roleNames_ne_nil stored same.roles)
                fun kept => kept rfl
          | true =>
              rw [handled, restored] at failed
              cases failed
              rw [Bool.not_true, Bool.false_or, Bool.not_eq_true]
              cases took with
              | true =>
                  exact asBefore_added present none (fun g mem => (mem_groupsToAdd.mp mem).2) accounts
                    fun g => (belongs g).trans (by simp)
              | false =>
                  refine iff_of_true ?_ rfl
                  refine (@asBefore_added _ _ _ _ [] present none (by simp) accounts ?_).mpr rfl
                  exact fun g => (belongs g).trans (by simp)

/-- A new account that is gone again. -/
theorem asBefore_absent {users : UserDatabase} {username : Str}
    (free : w.users.userExists username = false) (account : AccountIs w.users username false users) :
    AsBefore map w ⟨users, w.roles⟩ username := by
  have unseen : ∀ {db : UserDatabase} (g : Str), db.userExists username = false →
      g ∉ db.getUserGroups username := by
    intro db g absent mem
    rw [mem_getUserGroups, absent] at mem
    cases mem.1
  have groups : ∀ g, g ∈ users.getUserGroups username ↔ g ∈ w.users.getUserGroups username :=
    fun g => iff_of_false (unseen g account.2) (unseen g free)
  refine ⟨fun user => ?_, fun g _ => groups g, rfl, fun r => ?_⟩
  · by_cases own : user = username
    · rw [own, account.2, free]
    · exact account.1 user own
  · by_cases stored : w.roles.getRoles username = []
    · simp only [resolveRoles_of_none stored, mem_resolve, groups]
    · simp only [resolveRoles_of_stored stored]

theorem createNewOsUser_asBefore_iff {w' : World}
    (free : w.users.userExists body.username = false)
    (failed : createNewOsUser cfg w a body = (w', .error e)) :
    AsBefore map w w' body.username ↔
      ¬ ∃ password primary, truthy body.password = some password ∧
        checkNewUser w.users body.username password (effectiveGroups body) = .ok primary ∧
        createLeaves a.commands (effectiveGroups body) = true := by
  rw [createNewOsUser] at failed
  cases given : truthy body.password with
  | none =>
      rw [given] at failed
      cases failed
      exact iff_of_true asBefore_refl fun ⟨_, _, given, _⟩ => by cases given
  | some password =>
      simp only [given] at failed
      cases checked : checkNewUser w.users body.username password (effectiveGroups body) with
      | error refusal =>
          simp only [createUser, checked] at failed
          cases failed
          refine iff_of_true asBefore_refl ?_
          rintro ⟨_, _, ⟨⟩, accepted, _⟩
          rw [checked] at accepted
          cases accepted
      | ok primary =>
          have leaves : (∃ password' primary', some password = some password' ∧
              checkNewUser w.users body.username password' (effectiveGroups body) = .ok primary' ∧
              createLeaves a.commands (effectiveGroups body) = true) ↔
              createLeaves a.commands (effectiveGroups body) = true :=
            ⟨fun ⟨_, _, _, _, left⟩ => left, fun left => ⟨_, _, rfl, checked, left⟩⟩
          rw [leaves]
          cases step : createUser cfg a.commands w.users body.username password
            (effectiveGroups body) with
          | mk users result =>
          rw [step] at failed
          rcases accountIs_createUser checked step with
            ⟨user, rfl, complete, account⟩ | ⟨e', rfl, account⟩
          · -- The account is complete, and the roles cannot be stored.
            simp only at failed
            split at failed
            · cases failed
            · cases failed
              exact iff_of_true (asBefore_absent free account.userdel) (by simp [complete])
          · cases failed
            cases left : createLeaves a.commands (effectiveGroups body) with
            | true =>
                refine iff_of_false (fun same => ?_) fun kept => kept rfl
                have there := same.accounts body.username
                rw [free, account.2, left] at there
                cases there
            | false =>
                rw [left] at account
                exact iff_of_true (asBefore_absent free account) Bool.false_ne_true

theorem createOsUser_undone_iff {w' : World} (failed : createOsUser cfg w a body = (w', .error e)) :
    AsBefore map w w' body.username ↔ ¬ Leaves map cfg w a body := by
  rw [createOsUser] at failed
  rw [Leaves]
  cases checked : checkCreateOsUser w a body with
  | error refusal =>
      rw [checked] at failed
      cases failed
      exact iff_of_true asBefore_refl fun leaves => by cases leaves.1
  | ok =>
      simp only [checked] at failed
      simp only [true_and]
      split
      · next present =>
        rw [if_pos present] at failed
        cases confirmed : body.confirmExistingOsUser with
        | none =>
            rw [confirmed] at failed
            cases failed
        | some answer =>
            cases answer with
            | false =>
                rw [confirmed] at failed
                cases failed
            | true =>
                rw [confirmed] at failed
                rw [syncOsUser_asBefore_iff present (checkCreateOsUser_eq_ok checked) failed]
                simp only [true_and]
      · next absent =>
        rw [if_neg absent] at failed
        exact createNewOsUser_asBefore_iff (Bool.not_eq_true _ ▸ absent) failed

end Provisioning

/-! ### An existing account whose shell cannot be changed -/

namespace Synced

open Revoked (cfg frank admins staff)

def commands (usermod shell : Outcome) : Commands := ⟨.done, .done, .done, usermod, shell⟩

def timedOut : Outcome := .failed false "usermod timed out"

def account : PasswdEntry := ⟨frank, 50, "/bin/bash".toList⟩

def host : World where
  users := ⟨[account], [⟨admins, 900, []⟩, ⟨staff, 50, []⟩], by decide, by decide, by decide⟩
  roles := ⟨[], List.nodup_nil⟩

def body : CreateOSUserRequest :=
  ⟨frank, none, [.admin], none, some true, List.cons_ne_nil _ _⟩

def answers (usermod shell : Outcome) : Answers := ⟨true, true, true, commands usermod shell⟩

/-- After the request: the shell of the account could not be changed. -/
def after : World := (createOsUser cfg host (answers .done timedOut) body).1

end Synced

theorem createOsUser_undone_iff_unchanged :
    AsBefore Uncovered.map Synced.host Synced.host Synced.body.username ↔
      ¬ Leaves Uncovered.map Revoked.cfg Synced.host (Synced.answers Synced.timedOut .done)
        Synced.body :=
  createOsUser_undone_iff (e := .osUser "usermod timed out") (by rfl)

/-- The roles are taken back, and the account stays in the group of the administrators. -/
theorem createOsUser_keeps_group :
    ¬ ∀ (map : GroupRoleMap) (cfg : UserSettings) (w w' : World) (a : Answers)
        (body : CreateOSUserRequest) (e : Failure),
        createOsUser cfg w a body = (w', .error e) → AsBefore map w w' body.username := by
  intro undone
  have same := undone Uncovered.map Revoked.cfg Synced.host Synced.after
    (Synced.answers .done Synced.timedOut) Synced.body (.osUser "usermod timed out") (by rfl)
  have role := (same.login Role.admin.value).mp (by decide)
  exact absurd role (by decide)

end Ecube.Accounts
