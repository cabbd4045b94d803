import Mathlib.Data.List.Dedup
import Ecube.Services.OsUsers

/-!
Replacing the groups of a user.

What a login sees is the primary group and the supplementary groups
(`mem_getUserGroups`). `usermod -G` replaces the supplementary groups only, and an
account that was created by the service has an `ecube-*` group as its primary one.
`setUserGroups_replaces_iff`: the `ecube-*` groups at the next login are the
requested ones exactly if the primary group is not an `ecube-*` group that was left
out of the request.
-/

namespace Ecube.Accounts

open OrderBy UserDatabase

section Groups

variable {db : UserDatabase} {username g : Str}

theorem mem_sorted {names : List Str} : g ∈ sorted names ↔ g ∈ names := mem_orderBy

theorem mem_sortedSet {names : List Str} : g ∈ sortedSet names ↔ g ∈ names := by
  rw [sortedSet, mem_sorted, List.mem_dedup]

/-! ### The groups of a user -/

/-- The user is in the group by the password entry or by the group entry. -/
def Belongs (db : UserDatabase) (username g : Str) : Prop :=
  db.primaryGroup username = some g ∨ g ∈ db.supplementaryGroups username

theorem mem_supplementaryGroups :
    g ∈ db.supplementaryGroups username ↔ ∃ e ∈ db.group, e.name = g ∧ username ∈ e.members := by
  rw [supplementaryGroups, List.mem_map]
  simp only [List.mem_filter, decide_eq_true_eq]
  constructor
  · rintro ⟨e, ⟨mem, member⟩, named⟩
    exact ⟨e, mem, named, member⟩
  · rintro ⟨e, mem, named, member⟩
    exact ⟨e, ⟨mem, member⟩, named⟩

theorem getgrgid_of_mem {e : GroupEntry} (mem : e ∈ db.group) : db.getgrgid e.gid = some e := by
  cases found : db.getgrgid e.gid with
  | none => exact absurd (List.find?_eq_none.mp found e mem) (by simp)
  | some e' =>
      have same : e'.gid = e.gid := by simpa using List.find?_some found
      have mem' : e' ∈ db.group := List.mem_of_find?_eq_some found
      rw [List.inj_on_of_nodup_map db.gids_nodup mem' mem same]

theorem mem_listUserGroups : g ∈ db.listUserGroups username ↔ Belongs db username g := by
  rw [listUserGroups, Belongs]
  cases primary : db.primaryGroup username with
  | none => simp [mem_sorted]
  | some p =>
      simp only [mem_sorted, Option.some_inj]
      split
      · next listed => exact ⟨.inr, fun h => h.elim (fun same => same ▸ listed) id⟩
      · rw [List.mem_append, List.mem_singleton, or_comm, eq_comm]

theorem userExists_iff : db.userExists username = true ↔ ∃ pw, db.getpwnam username = some pw :=
  Option.isSome_iff_exists

/-- The groups that a login sees. -/
theorem mem_getUserGroups :
    g ∈ db.getUserGroups username ↔ db.userExists username = true ∧ Belongs db username g := by
  rw [getUserGroups, userExists, Belongs, primaryGroup]
  cases found : db.getpwnam username with
  | none => simp
  | some pw =>
      simp only [mem_sortedSet, List.filterMap_cons, Option.isSome_some, true_and,
        Option.bind_some]
      have named : (g ∈ ((db.group.filter fun e => username ∈ e.members).map
          GroupEntry.gid).filterMap fun gid => (db.getgrgid gid).map GroupEntry.name) ↔
          g ∈ db.supplementaryGroups username := by
        rw [supplementaryGroups, List.filterMap_map]
        refine Iff.of_eq (congrArg (g ∈ ·) ?_)
        rw [← List.filterMap_eq_map]
        apply List.filterMap_congr
        intro e mem
        simp [getgrgid_of_mem (List.mem_of_mem_filter mem)]
      cases primary : db.getgrgid pw.gid with
      | none => simpa using named
      | some e =>
          simp only [Option.map_some, List.mem_cons, named, Option.some_inj]
          rw [eq_comm]

/-! ### What the commands change -/

theorem mem_supplementaryGroups_setMembers {chosen : GroupEntry → Bool} :
    g ∈ (db.setMembers username chosen).supplementaryGroups username ↔
      ∃ e ∈ db.group, e.name = g ∧ chosen e = true := by
  simp only [mem_supplementaryGroups, setMembers, List.mem_map]
  constructor
  · rintro ⟨_, ⟨e, mem, rfl⟩, named, member⟩
    refine ⟨e, mem, named, ?_⟩
    by_cases h : chosen e = true
    · exact h
    · simp [h] at member
  · rintro ⟨e, mem, named, h⟩
    refine ⟨_, ⟨e, mem, rfl⟩, named, ?_⟩
    simp only [h, if_true]
    split
    · assumption
    · exact List.mem_append_right _ (List.mem_singleton_self _)

theorem primaryGroup_setMembers {chosen : GroupEntry → Bool} {user : Str} :
    (db.setMembers username chosen).primaryGroup user = db.primaryGroup user := by
  have same : ∀ gid, ((db.setMembers username chosen).getgrgid gid).map GroupEntry.name =
      (db.getgrgid gid).map GroupEntry.name := by
    intro gid
    simp only [getgrgid, setMembers, List.find?_map, Option.map_map]
    rfl
  simp only [primaryGroup, same]
  rfl

theorem getpwnam_usermodShell {shell user : Str} :
    (db.usermodShell username shell).getpwnam user = (db.getpwnam user).map fun pw =>
      if pw.name = username then { pw with shell := shell } else pw := by
  simp only [getpwnam, usermodShell, List.find?_map]
  congr 2
  funext pw
  simp only [Function.comp_apply]
  split <;> rfl

theorem userExists_usermodShell {shell user : Str} :
    (db.usermodShell username shell).userExists user = db.userExists user := by
  rw [userExists, getpwnam_usermodShell, Option.isSome_map, userExists]

theorem belongs_usermodShell {shell user : Str} :
    Belongs (db.usermodShell username shell) user g ↔ Belongs db user g := by
  have primary : (db.usermodShell username shell).primaryGroup user = db.primaryGroup user := by
    rw [primaryGroup, getpwnam_usermodShell, primaryGroup]
    cases db.getpwnam user with
    | none => rfl
    | some pw =>
        simp only [Option.map_some, Option.bind_some]
        split <;> rfl
  rw [Belongs, primary, Belongs]
  rfl

/-- After `usermod -G` the supplementary groups are the listed ones that exist. -/
theorem belongs_usermodReplace {groups : List Str} :
    Belongs (db.usermodReplace username groups) username g ↔
      db.primaryGroup username = some g ∨ (g ∈ groups ∧ ∃ e ∈ db.group, e.name = g) := by
  rw [Belongs, usermodReplace, primaryGroup_setMembers, mem_supplementaryGroups_setMembers]
  refine or_congr_right ⟨?_, ?_⟩
  · rintro ⟨e, mem, rfl, listed⟩
    exact ⟨of_decide_eq_true listed, e, mem, rfl⟩
  · rintro ⟨listed, e, mem, rfl⟩
    exact ⟨e, mem, rfl, decide_eq_true listed⟩

theorem belongs_usermodAppend {groups : List Str} :
    Belongs (db.usermodAppend username groups) username g ↔
      Belongs db username g ∨ (g ∈ groups ∧ ∃ e ∈ db.group, e.name = g) := by
  rw [Belongs, usermodAppend, primaryGroup_setMembers, mem_supplementaryGroups_setMembers, Belongs,
    or_assoc, mem_supplementaryGroups]
  refine or_congr_right ⟨?_, ?_⟩
  · rintro ⟨e, mem, rfl, chosen⟩
    exact (of_decide_eq_true chosen).elim (fun listed => .inr ⟨listed, e, mem, rfl⟩)
      fun member => .inl ⟨e, mem, rfl, member⟩
  · rintro (⟨e, mem, rfl, member⟩ | ⟨listed, e, mem, rfl⟩)
    · exact ⟨e, mem, rfl, decide_eq_true (.inr member)⟩
    · exact ⟨e, mem, rfl, decide_eq_true (.inl listed)⟩

/-- A group that a user is in exists. -/
theorem exists_of_belongs (belongs : Belongs db username g) : ∃ e ∈ db.group, e.name = g := by
  rcases belongs with primary | supplementary
  · obtain ⟨pw, -, named⟩ := Option.bind_eq_some_iff.mp primary
    obtain ⟨e, found, rfl⟩ := Option.map_eq_some_iff.mp named
    exact ⟨e, List.mem_of_find?_eq_some found, rfl⟩
  · obtain ⟨e, mem, named, -⟩ := mem_supplementaryGroups.mp supplementary
    exact ⟨e, mem, named⟩

/-! ### Replacing the groups -/

variable {cfg : UserSettings} {c : Commands} {groups : List Str}

theorem runSudo_eq_ok {outcome : Outcome} {effect : UserDatabase → UserDatabase}
    {db' : UserDatabase} (h : runSudo outcome effect db = (db', .ok ())) : db' = effect db := by
  cases outcome with
  | done => exact (Prod.mk.inj h).1.symm
  | failed effect message => cases effect <;> cases h
  | notStarted => cases h

/-- The shell of the account does not matter for its groups. -/
theorem ensureNonInteractiveShell_keeps {outcome : Outcome} {db' : UserDatabase}
    {result : Except Failure Unit}
    (h : ensureNonInteractiveShell cfg outcome db username = (db', result)) (user g : Str) :
    db'.userExists user = db.userExists user ∧ (Belongs db' user g ↔ Belongs db user g) := by
  rw [ensureNonInteractiveShell] at h
  split at h
  · cases h
    exact ⟨rfl, Iff.rfl⟩
  · split at h
    · cases h
      exact ⟨rfl, Iff.rfl⟩
    · cases outcome with
      | done =>
          cases h
          exact ⟨userExists_usermodShell, belongs_usermodShell⟩
      | failed effect message =>
          cases effect with
          | true =>
              cases h
              exact ⟨userExists_usermodShell, belongs_usermodShell⟩
          | false =>
              cases h
              exact ⟨rfl, Iff.rfl⟩
      | notStarted =>
          cases h
          exact ⟨rfl, Iff.rfl⟩

/-- An accepted request names existing `ecube-*` groups. -/
theorem checkSetUserGroups_eq_ok (h : checkSetUserGroups db username groups = .ok ()) :
    db.userExists username = true ∧
      ∀ g ∈ groups, isEcubeGroup g = true ∧ ∃ e ∈ db.group, e.name = g := by
  simp only [checkSetUserGroups, bind_eq_ok, ensure_eq_ok] at h
  obtain ⟨-, -, -, -, -, found, -, -, named⟩ := h
  refine ⟨found, fun g mem => ?_⟩
  have accepted := forM_eq_ok.mp named g mem
  simp only [bind_eq_ok, ensure_eq_ok] at accepted
  obtain ⟨-, -, -, ours, known⟩ := accepted
  obtain ⟨e, he⟩ := Option.isSome_iff_exists.mp known
  exact ⟨ours, e, List.mem_of_find?_eq_some he, by simpa using List.find?_some he⟩

theorem mem_finalGroups :
    g ∈ finalGroups db username groups ↔
      g ∈ groups ∨ (Belongs db username g ∧ isEcubeGroup g = false) := by
  rw [finalGroups, mem_sortedSet, List.mem_append, List.mem_filter, mem_listUserGroups,
    Bool.not_eq_true']

/-- The groups of the user after an accepted replacement. -/
theorem mem_getUserGroups_setUserGroups {db' : UserDatabase} {user : OSUser}
    (done : setUserGroups cfg c db username groups = (db', .ok user)) :
    g ∈ db'.getUserGroups username ↔
      db.primaryGroup username = some g ∨ g ∈ groups ∨
        (Belongs db username g ∧ isEcubeGroup g = false) := by
  rw [setUserGroups] at done
  split at done
  · cases done
  · next accepted =>
    obtain ⟨found, named⟩ := checkSetUserGroups_eq_ok accepted
    split at done
    · cases done
    · next db₁ replaced =>
      have effect := runSudo_eq_ok replaced
      split at done
      · cases done
      · next db₂ shell =>
        obtain ⟨rfl, -⟩ := Prod.mk.inj done
        obtain ⟨users, belongs⟩ := ensureNonInteractiveShell_keeps shell username g
        rw [mem_getUserGroups, users, belongs, effect]
        rw [belongs_usermodReplace, mem_finalGroups]
        constructor
        · rintro ⟨-, primary | ⟨listed, -⟩⟩
          · exact .inl primary
          · exact .inr listed
        · rintro (primary | listed | ⟨old, other⟩)
          · exact ⟨found, .inl primary⟩
          · exact ⟨found, .inr ⟨.inl listed, (named g listed).2⟩⟩
          · exact ⟨found, .inr ⟨.inr ⟨old, other⟩, exists_of_belongs old⟩⟩

theorem setUserGroups_replaces_iff {db' : UserDatabase} {user : OSUser}
    (done : setUserGroups cfg c db username groups = (db', .ok user)) :
    ((∀ g, isEcubeGroup g = true → (g ∈ db'.getUserGroups username ↔ g ∈ groups)) ∧
      ∀ g, isEcubeGroup g = false →
        (g ∈ db'.getUserGroups username ↔ g ∈ db.getUserGroups username)) ↔
      ∀ p, db.primaryGroup username = some p → isEcubeGroup p = true → p ∈ groups := by
  have accepted : checkSetUserGroups db username groups = .ok () := by
    rw [setUserGroups] at done
    split at done
    · cases done
    · assumption
  obtain ⟨found, named⟩ := checkSetUserGroups_eq_ok accepted
  constructor
  · rintro ⟨replaced, -⟩ p primary ours
    exact (replaced p ours).mp ((mem_getUserGroups_setUserGroups done).mpr (.inl primary))
  · intro listed
    constructor
    · intro g ours
      rw [mem_getUserGroups_setUserGroups done]
      constructor
      · rintro (primary | given | ⟨-, other⟩)
        · exact listed g primary ours
        · exact given
        · rw [ours] at other
          cases other
      · exact fun given => .inr (.inl given)
    · intro g other
      rw [mem_getUserGroups_setUserGroups done, mem_getUserGroups]
      constructor
      · rintro (primary | given | ⟨old, -⟩)
        · exact ⟨found, .inl primary⟩
        · rw [(named g given).1] at other
          cases other
        · exact ⟨found, old⟩
      · exact fun old => .inr (.inr ⟨old.2, other⟩)

end Groups

/-! ### An account that was created with an `ecube-*` group -/

namespace Revoked

def cfg : UserSettings := ⟨"/usr/sbin/nologin".toList⟩

def commands : Commands := ⟨.done, .done, .done, .done, .done⟩

def frank : Str := "frank".toList

def admins : Str := "ecube-admins".toList

def auditors : Str := "ecube-auditors".toList

def staff : Str := "staff".toList

def groups : List GroupEntry := [⟨admins, 900, []⟩, ⟨auditors, 901, []⟩, ⟨staff, 50, [frank]⟩]

def host : UserDatabase := ⟨[], groups, by decide, by decide, by decide⟩

/-- The account as `create_user` makes it. -/
def created : UserDatabase := (createUser cfg commands host frank "pw".toList [admins]).1

def replaced : UserDatabase := (setUserGroups cfg commands created frank [auditors]).1

/-- An account of the host with the primary group `staff`. -/
def linked : UserDatabase :=
  ⟨[⟨frank, 50, "/bin/bash".toList⟩], [⟨admins, 900, [frank]⟩, ⟨auditors, 901, []⟩, ⟨staff, 50, []⟩],
    by decide, by decide, by decide⟩

def linkedReplaced : UserDatabase := (setUserGroups cfg commands linked frank [auditors]).1

end Revoked

theorem setUserGroups_replaces_iff_linked :
    ((∀ g, isEcubeGroup g = true →
        (g ∈ Revoked.linkedReplaced.getUserGroups Revoked.frank ↔ g ∈ [Revoked.auditors])) ∧
      ∀ g, isEcubeGroup g = false →
        (g ∈ Revoked.linkedReplaced.getUserGroups Revoked.frank ↔
          g ∈ Revoked.linked.getUserGroups Revoked.frank)) ↔
      ∀ p, Revoked.linked.primaryGroup Revoked.frank = some p → isEcubeGroup p = true →
        p ∈ [Revoked.auditors] :=
  @setUserGroups_replaces_iff _ _ Revoked.cfg Revoked.commands _ _
    ⟨Revoked.frank, 50, Revoked.cfg.nonInteractiveShellPath, [Revoked.auditors, Revoked.staff]⟩
    (by rfl)

/-- The created account is still in the group that was left out. -/
theorem setUserGroups_keeps_primary :
    ¬ ∀ (cfg : UserSettings) (c : Commands) (db db' : UserDatabase) (username : Str)
        (groups : List Str) (user : OSUser),
        setUserGroups cfg c db username groups = (db', .ok user) →
        ∀ g, isEcubeGroup g = true → (g ∈ db'.getUserGroups username ↔ g ∈ groups) := by
  intro replaces
  have done : setUserGroups Revoked.cfg Revoked.commands Revoked.created Revoked.frank
      [Revoked.auditors] = (Revoked.replaced, .ok ⟨Revoked.frank, 900,
        Revoked.cfg.nonInteractiveShellPath,
        [Revoked.admins, Revoked.auditors, Revoked.staff]⟩) := rfl
  have equal := replaces _ _ _ _ _ _ _ done Revoked.admins (by decide)
  exact absurd (equal.mp (by decide)) (by decide)

end Ecube.Accounts
