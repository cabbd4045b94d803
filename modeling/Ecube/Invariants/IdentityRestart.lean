import Ecube.Invariants.ForeignAccounts

/-!
What a restart outside demo mode does for the accounts that have roles
(`reconcile_identity_groups`, `reconcile_identity_users`): it gives them the groups of their
roles, and once that is done another restart has nothing to do.
-/

namespace Ecube.Accounts

open OrderBy UserDatabase

section Restarts

variable {db db' : UserDatabase} {user username : Str} {host : Host} (cfg : UserSettings)
  (demo : Option Demo)

/-! ### Groups -/

theorem groupExists_eq {g : Str} : db.groupExists g = true ↔ g ∈ db.group.map GroupEntry.name := by
  rw [groupExists, getgrnam, List.find?_isSome, List.mem_map]
  simp

theorem OnlyAccount.groupExists (only : OnlyAccount username db db') {g : Str} :
    db'.groupExists g = true ↔ db.groupExists g = true := by
  have names : ∀ d : UserDatabase,
      d.group.map GroupEntry.name = (d.group.map fun e => (e.gid, e.name)).map Prod.snd := by
    intro d
    rw [List.map_map]
    rfl
  rw [groupExists_eq, groupExists_eq, names, names, only.groups]

/-- The groups of the restart can be made: their ids are free. -/
def Makes (db : UserDatabase) (gid : Str → Nat) (names : List Str) : Prop :=
  (names.map gid).Nodup ∧ ∀ name ∈ names, gid name ∉ db.group.map GroupEntry.gid

/-- The groups exist once the commands are done. No other group and no account changes. -/
theorem ensureEcubeGroups_done {outcome : Str → Outcome} {gid : Str → Nat} {names : List Str}
    (done : ∀ name ∈ names, outcome name = .done) (makes : Makes db gid names) {g : Str} :
    (g ∈ names ∨ db.groupExists g = true ↔
      (ensureEcubeGroups outcome gid names db).1.groupExists g = true) ∧
      (ensureEcubeGroups outcome gid names db).1.passwd = db.passwd := by
  induction names generalizing db with
  | nil => exact ⟨by simp [ensureEcubeGroups], rfl⟩
  | cons name names ih =>
      obtain ⟨distinct, free⟩ := makes
      obtain ⟨unused, distinct'⟩ := List.nodup_cons.mp distinct
      have done' : ∀ name ∈ names, outcome name = .done :=
        fun other mem => done other (List.mem_cons_of_mem _ mem)
      rw [ensureEcubeGroups]
      split
      next known =>
        have rest := ih done' ⟨distinct', fun other mem => free other (List.mem_cons_of_mem _ mem)⟩
        refine ⟨?_, rest.2⟩
        rw [← rest.1, List.mem_cons, or_assoc, or_iff_right_of_imp]
        rintro rfl
        exact .inr known
      next missing =>
        have added : (db.groupadd name (gid name)).group = db.group ++ [⟨name, gid name, []⟩] := by
          rw [groupadd, dif_pos ⟨fun mem => missing (groupExists_eq.mpr mem),
            free name List.mem_cons_self⟩]
        have rest := @ih (db.groupadd name (gid name)) done' ⟨distinct', fun other mem => by
          rw [added, List.map_append, List.mem_append, not_or, List.map_singleton,
            List.mem_singleton]
          exact ⟨free other (List.mem_cons_of_mem _ mem),
            fun same => unused (List.mem_map.mpr ⟨other, mem, same⟩)⟩⟩
        rw [done name List.mem_cons_self]
        dsimp only [runSudo]
        refine ⟨?_, rest.2.trans (by rw [groupadd]; split <;> rfl)⟩
        rw [← rest.1, @groupExists_eq (db.groupadd _ _), added, groupExists_eq, List.mem_cons,
          List.map_append, List.mem_append, List.map_singleton, List.mem_singleton]
        tauto

theorem ensureEcubeGroups_of_exists {outcome : Str → Outcome} {gid : Str → Nat} {names : List Str}
    (known : ∀ name ∈ names, db.groupExists name = true) :
    ensureEcubeGroups outcome gid names db = (db, .ok ()) := by
  induction names with
  | nil => rfl
  | cons name names ih =>
      rw [ensureEcubeGroups, if_pos (known name List.mem_cons_self)]
      exact ih fun other mem => known other (List.mem_cons_of_mem _ mem)

/-- The account is in the groups, and has the shell of managed accounts. -/
def Managed (cfg : UserSettings) (db : UserDatabase) (username : Str) (groups : List Str) : Prop :=
  (∀ g ∈ groups, Belongs db username g) ∧
    (db.getpwnam username).map PasswdEntry.shell = some cfg.nonInteractiveShellPath

theorem KeepsAccount.managed {groups : List Str} (keeps : KeepsAccount user db db')
    (managed : Managed cfg db user groups) : Managed cfg db' user groups := by
  refine ⟨fun g mem => ?_, ?_⟩
  · rw [Belongs, keeps.primary, keeps.member]
    exact managed.1 g mem
  · rw [keeps.entry]
    exact managed.2

theorem managed_addUserToGroups {c : Commands} (groups : List Str)
    (valid : matchesName username = true) (present : db.userExists username = true)
    (known : ∀ g ∈ groups, matchesName g = true ∧ db.groupExists g = true)
    (joins : c.usermod = .done) (shell : c.shell = .done) :
    Managed cfg (addUserToGroups cfg c db username groups true).1 username groups := by
  have checked : checkAddUserToGroups db username groups true = .ok () := by
    simp only [checkAddUserToGroups, bind_eq_ok, if_true]
    refine ⟨(), ensure_eq_ok.mpr valid, (), ensure_eq_ok.mpr present, ?_⟩
    refine forM_eq_ok.mpr fun g mem => ?_
    simp only [checkGroup, bind_eq_ok]
    exact ⟨(), ensure_eq_ok.mpr (known g mem).1, ensure_eq_ok.mpr (known g mem).2⟩
  have joined : ∃ d : UserDatabase, (if groupsToAdd db username groups = [] then
      (db, (.ok () : Except Failure Unit))
      else runSudo c.usermod (·.usermodAppend username (groupsToAdd db username groups)) db) =
        (d, .ok ()) ∧ d.userExists username = true ∧ ∀ g ∈ groups, Belongs d username g := by
    by_cases none : groupsToAdd db username groups = []
    · refine ⟨db, if_pos none, present, fun g mem => ?_⟩
      have := List.filter_eq_nil_iff.mp none g mem
      exact mem_listUserGroups.mp (by simpa using this)
    · rw [if_neg none, joins]
      refine ⟨_, rfl, present, fun g mem => belongs_usermodAppend.mpr ?_⟩
      by_cases already : Belongs db username g
      · exact .inl already
      · refine .inr ⟨List.mem_filter.mpr ⟨mem, ?_⟩, ?_⟩
        · exact decide_eq_true fun listed => already (mem_listUserGroups.mp listed)
        · obtain ⟨e, found⟩ := Option.isSome_iff_exists.mp (known g mem).2
          exact ⟨e, List.mem_of_find?_eq_some found, by simpa using List.find?_some found⟩
  obtain ⟨d, eq, there, belongs⟩ := joined
  obtain ⟨pw, entry⟩ := userExists_iff.mp there
  have named : pw.name = username := by simpa using List.find?_some entry
  rw [addUserToGroups, checked]
  dsimp only
  rw [eq]
  dsimp only
  rw [ensureNonInteractiveShell, entry, shell]
  dsimp only
  by_cases same : pw.shell = cfg.nonInteractiveShellPath
  · rw [if_pos same]
    exact ⟨belongs, by rw [entry, Option.map_some, same]⟩
  · rw [if_neg same]
    refine ⟨fun g mem => belongs_usermodShell.mpr (belongs g mem), ?_⟩
    change ((d.usermodShell username cfg.nonInteractiveShellPath).getpwnam username).map _ = _
    rw [getpwnam_usermodShell, entry, Option.map_some, if_pos named]
    rfl

theorem matchesName_group (role : Role) : matchesName role.group = true := by
  cases role <;> decide

/-- A user with roles is in their groups after the restart has reached the user. -/
theorem managed_reconcileIdentityUsers {commands : Str → Commands}
    {users : List (Str × List Role)} (distinct : (users.map Prod.fst).Nodup) {roles : List Role}
    (mem : (user, roles) ∈ users) (some' : roles ≠ []) (named : user ≠ [])
    (valid : matchesName user = true) (present : db.userExists user = true)
    (known : ∀ role ∈ roles, db.groupExists role.group = true)
    (joins : (commands user).usermod = .done) (shell : (commands user).shell = .done)
    (passwords : Passwords) :
    Managed cfg (reconcileIdentityUsers cfg demo commands users db passwords).1 user
      (roles.map Role.group) := by
  induction users generalizing db passwords with
  | nil => cases mem
  | cons entry users ih =>
      obtain ⟨username, roles'⟩ := entry
      obtain ⟨unlisted, distinct'⟩ := List.nodup_cons.mp distinct
      rw [reconcileIdentityUsers]
      rcases List.mem_cons.mp mem with same | later
      · obtain ⟨rfl, rfl⟩ := Prod.mk.inj same
        have others : ∀ entry ∈ users, entry.1 ≠ user :=
          fun entry listed equal => unlisted (List.mem_map.mpr ⟨entry, listed, equal⟩)
        have rest := reconcileIdentityUsers_of_ne
          (reconcileIdentityUser cfg demo (commands user) db passwords user roles).1 cfg demo commands
          others named (reconcileIdentityUser cfg demo (commands user) db passwords user roles).2
        refine rest.1.managed cfg ?_
        have required : sortedSet (roles.map Role.group) ≠ [] := by
          obtain ⟨role, held⟩ := List.exists_mem_of_ne_nil roles some'
          exact List.ne_nil_of_mem (mem_sortedSet.mpr (List.mem_map_of_mem held))
        have groups := managed_addUserToGroups cfg (sortedSet (roles.map Role.group)) valid
          present (fun g listed => by
            obtain ⟨role, held, rfl⟩ := List.mem_map.mp (mem_sortedSet.mp listed)
            exact ⟨matchesName_group role, known role held⟩) joins shell
        have all : Managed cfg (addUserToGroups cfg (commands user) db user
            (sortedSet (roles.map Role.group)) true).1 user (roles.map Role.group) :=
          ⟨fun g listed => groups.1 g (mem_sortedSet.mpr listed), groups.2⟩
        rw [reconcileIdentityUser]
        split
        next stop => simp [named, required, present] at stop
        next =>
          split
          next eq => rwa [eq] at all
          next eq =>
            rw [eq] at all
            split
            · split <;> exact all
            · exact all
      · have other : user ≠ username :=
          fun equal => unlisted (List.mem_map.mpr ⟨(user, roles), later, equal⟩)
        have only := onlyAccount_reconcileIdentityUser cfg demo (commands username) db passwords
          username roles'
        refine ih distinct' later ?_ (fun role held => only.groupExists.mpr (known role held)) _
        rwa [userExists, only.entry user other]

/-! ### What a restart leaves -/

theorem addUserToGroups_of_managed {c : Commands} {groups : List Str} {skipManagedCheck : Bool}
    (managed : Managed cfg db username groups) :
    (addUserToGroups cfg c db username groups skipManagedCheck).1 = db := by
  have none : groupsToAdd db username groups = [] :=
    List.filter_eq_nil_iff.mpr fun g mem => by
      simpa using mem_listUserGroups.mpr (managed.1 g mem)
  obtain ⟨pw, entry, shell⟩ := Option.map_eq_some_iff.mp managed.2
  rw [addUserToGroups]
  split
  next => rfl
  next =>
    dsimp only
    rw [if_pos none]
    dsimp only
    rw [ensureNonInteractiveShell, entry]
    dsimp only
    rw [if_pos shell]

/-- The restart has nothing to do for the user: there is no such account, no account can have the
name, or the account is in the groups of the roles. -/
def Settled (cfg : UserSettings) (db : UserDatabase) (entry : Str × List Role) : Prop :=
  entry.1 ≠ [] → entry.2 ≠ [] → matchesName entry.1 = true → db.userExists entry.1 = true →
    Managed cfg db entry.1 (entry.2.map Role.group)

variable (db) in
theorem addUserToGroups_of_invalid (c : Commands) (groups : List Str) (skipManagedCheck : Bool)
    (invalid : ¬ matchesName username = true) :
    ∃ e, addUserToGroups cfg c db username groups skipManagedCheck = (db, .error e) := by
  have checked : ¬ checkAddUserToGroups db username groups skipManagedCheck = .ok () := by
    simp only [checkAddUserToGroups, bind_eq_ok]
    rintro ⟨_, valid, -⟩
    exact invalid (ensure_eq_ok.mp valid)
  rw [addUserToGroups]
  cases result : checkAddUserToGroups db username groups skipManagedCheck with
  | ok => exact absurd result checked
  | error e => exact ⟨e, rfl⟩

theorem reconcileIdentityUser_of_settled (c : Commands) (passwords : Passwords)
    {entry : Str × List Role} (settled : Settled cfg db entry) :
    (reconcileIdentityUser cfg demo c db passwords entry.1 entry.2).1 = db := by
  have same : entry.1 ≠ [] → entry.2 ≠ [] → db.userExists entry.1 = true →
      (addUserToGroups cfg c db entry.1 (sortedSet (entry.2.map Role.group)) true).1 = db := by
    intro named roles present
    by_cases valid : matchesName entry.1 = true
    · have managed := settled named roles valid present
      exact addUserToGroups_of_managed cfg
        ⟨fun g mem => managed.1 g (mem_sortedSet.mp mem), managed.2⟩
    · obtain ⟨e, eq⟩ := addUserToGroups_of_invalid db cfg c (sortedSet (entry.2.map Role.group))
        true valid
      rw [eq]
  rw [reconcileIdentityUser]
  split
  next => rfl
  next go =>
    simp only [not_or, not_not] at go
    have roles : entry.2 ≠ [] := by
      intro none
      rw [none] at go
      exact go.2.1 rfl
    have same := same go.1 roles go.2.2
    split
    next eq => rwa [eq] at same
    next eq =>
      rw [eq] at same
      split
      · split <;> exact same
      · exact same

theorem reconcileIdentityUsers_of_settled (commands : Str → Commands)
    {users : List (Str × List Role)} (settled : ∀ entry ∈ users, Settled cfg db entry)
    (passwords : Passwords) :
    (reconcileIdentityUsers cfg demo commands users db passwords).1 = db := by
  induction users generalizing passwords with
  | nil => rfl
  | cons entry users ih =>
      obtain ⟨username, roles⟩ := entry
      have first := reconcileIdentityUser_of_settled cfg demo (commands username) passwords
        (settled _ List.mem_cons_self)
      rw [reconcileIdentityUsers]
      dsimp only at first ⊢
      rw [first]
      exact ih (fun entry mem => settled entry (List.mem_cons_of_mem _ mem)) _

/-- A restart creates no account and removes no group. -/
theorem reconcileIdentityUsers_exists (commands : Str → Commands) (users : List (Str × List Role))
    (passwords : Passwords) {u g : Str} :
    ((reconcileIdentityUsers cfg demo commands users db passwords).1.userExists u = true →
      db.userExists u = true) ∧
    ((reconcileIdentityUsers cfg demo commands users db passwords).1.groupExists g = true ↔
      db.groupExists g = true) := by
  induction users generalizing db passwords with
  | nil => exact ⟨id, Iff.rfl⟩
  | cons entry users ih =>
      obtain ⟨username, roles⟩ := entry
      have only := onlyAccount_reconcileIdentityUser cfg demo (commands username) db passwords
        username roles
      rw [reconcileIdentityUsers]
      have rest := @ih (reconcileIdentityUser cfg demo (commands username) db passwords
        username roles).1 (reconcileIdentityUser cfg demo (commands username) db passwords
        username roles).2
      refine ⟨fun present => ?_, rest.2.trans only.groupExists⟩
      have present := rest.1 present
      by_cases same : u = username
      · by_contra absent
        rw [reconcileIdentityUser, if_pos (.inr (.inr (same ▸ absent)))] at present
        exact absent present
      · rwa [userExists, only.entry u same] at present

/-- The commands of the restart are done. -/
structure Restart.Succeeds (answers : Restart) (db : UserDatabase) : Prop where
  groupadd : ∀ name ∈ ecubeGroups, answers.groupadd name = .done
  makes : Makes db answers.gid ecubeGroups
  usermod : ∀ username, (answers.commands username).usermod = .done
  shell : ∀ username, (answers.commands username).shell = .done

theorem group_mem_ecubeGroups (role : Role) : role.group ∈ ecubeGroups :=
  mem_sortedSet.mpr (List.mem_map_of_mem (by cases role <;> simp))

variable {answers : Restart}

theorem nodup_sortedSet (names : List Str) : (sortedSet names).Nodup :=
  perm_orderBy.nodup_iff.mpr names.nodup_dedup

theorem mem_listUsers_of_getRoles {t : RoleTable} {role : Role}
    (held : role ∈ t.getRoles username) : (username, t.getRoles username) ∈ t.listUsers := by
  rw [RoleTable.getRoles, mem_orderBy, List.mem_map] at held
  obtain ⟨row, mem, -⟩ := held
  obtain ⟨mem, same⟩ := List.mem_filter.mp mem
  refine List.mem_map.mpr ⟨username, mem_sortedSet.mpr (List.mem_map.mpr ⟨row, mem, ?_⟩), rfl⟩
  exact of_decide_eq_true same

/-- After a restart outside demo mode whose commands are done, an account that has roles is in
the groups of all of them and has the shell of managed accounts, be its name reserved or not. -/
theorem memberships_restored (succeeds : answers.Succeeds host.world.users)
    (valid : matchesName user = true) (present : host.world.users.userExists user = true)
    (held : host.world.roles.getRoles user ≠ []) :
    Managed cfg (host.restart cfg answers).world.users user
      ((host.world.roles.getRoles user).map Role.group) := by
  have distinct : (host.world.roles.listUsers.map Prod.fst).Nodup := by
    rw [RoleTable.listUsers, List.map_map]
    simpa [Function.comp_def] using nodup_sortedSet _
  have made : ∀ g, (g ∈ ecubeGroups ∨ host.world.users.groupExists g = true ↔
      (ensureEcubeGroups answers.groupadd answers.gid ecubeGroups host.world.users).1.groupExists
        g = true) ∧ _ := fun g => ensureEcubeGroups_done succeeds.groupadd succeeds.makes
  obtain ⟨role, mem⟩ := List.exists_mem_of_ne_nil _ held
  have named : user ≠ [] := by
    rintro rfl
    exact absurd valid (by decide)
  refine managed_reconcileIdentityUsers cfg none distinct (mem_listUsers_of_getRoles mem) held named
    valid ?_ (fun role _ => (made role.group).1.mp (.inl (group_mem_ecubeGroups role)))
    (succeeds.usermod user) (succeeds.shell user) _
  rwa [userExists, getpwnam, (made []).2]

theorem settled_restart (succeeds : answers.Succeeds host.world.users) :
    ∀ entry ∈ host.world.roles.listUsers,
      Settled cfg (host.restart cfg answers).world.users entry := by
  intro entry listed _ held valid present
  obtain ⟨username, -, rfl⟩ := List.mem_map.mp listed
  refine memberships_restored cfg succeeds valid ?_ held
  have before := (reconcileIdentityUsers_exists cfg none _ _ _ (g := [])).1 present
  rwa [userExists, getpwnam,
    (ensureEcubeGroups_done succeeds.groupadd succeeds.makes (g := [])).2] at before

/-- A second restart outside demo mode changes no account, no group and no roles, whatever its
commands would do. -/
theorem restart_restart (succeeds : answers.Succeeds host.world.users) (again : Restart) :
    ((host.restart cfg answers).restart cfg again).world =
      (host.restart cfg answers).world := by
  have known : ∀ name ∈ ecubeGroups,
      (host.restart cfg answers).world.users.groupExists name = true := by
    intro name mem
    refine (reconcileIdentityUsers_exists cfg none _ _ _ (u := [])).2.mpr ?_
    exact (ensureEcubeGroups_done succeeds.groupadd succeeds.makes).1.mp (.inl mem)
  have settled := reconcileIdentityUsers_of_settled cfg none again.commands
    (settled_restart cfg succeeds) (host.restart cfg answers).passwords
  rw [Host.restart, ensureEcubeGroups_of_exists known]
  exact congrArg (World.mk · host.world.roles) settled

end Restarts

/-! ### A host whose root account has a role -/

namespace Rebooted

open Revoked (cfg commands admins)

def root : Str := "root".toList

def host : Host where
  world := ⟨⟨[⟨root, 0, "/bin/bash".toList⟩], [⟨root, 0, []⟩], by decide, by decide, by decide⟩,
    ⟨[⟨root, .admin⟩], List.nodup_singleton _⟩⟩
  passwords := fun _ => none

/-- The ids of the new groups. -/
def gid (name : Str) : Nat := 900 + ecubeGroups.idxOf name

def answers : Restart := ⟨fun _ => .done, gid, fun _ => commands⟩

/-- Each command is refused. -/
def refused : Restart :=
  ⟨fun _ => .notStarted, gid,
    fun _ => ⟨.notStarted, .notStarted, .notStarted, .notStarted, .notStarted⟩⟩

theorem succeeds : answers.Succeeds host.world.users :=
  ⟨fun _ _ => rfl, ⟨by decide, by decide⟩, fun _ => rfl, fun _ => rfl⟩

end Rebooted

theorem memberships_restored_root : Managed Revoked.cfg
    (Rebooted.host.restart Revoked.cfg Rebooted.answers).world.users Rebooted.root
    [Revoked.admins] :=
  memberships_restored Revoked.cfg Rebooted.succeeds (by decide) (by decide) (by decide)

theorem restart_restart_root :
    ((Rebooted.host.restart Revoked.cfg Rebooted.answers).restart Revoked.cfg
      Rebooted.refused).world =
      (Rebooted.host.restart Revoked.cfg Rebooted.answers).world :=
  restart_restart Revoked.cfg Rebooted.succeeds Rebooted.refused

end Ecube.Accounts
