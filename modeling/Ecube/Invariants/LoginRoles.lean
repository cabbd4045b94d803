import Ecube.Services.UserRoles

/-!
The roles of a login after the stored roles are removed.

Stored roles override the roles of the groups, and without stored roles the groups
decide. Removing the stored roles therefore leaves exactly the mapped roles
(`deleteUserRoles_resolveRoles`): fewer than before only if each of them was stored.
-/

namespace Ecube.Accounts

open OrderBy

section Roles

variable {map : GroupRoleMap} {t : RoleTable} {groups : List Str} {username : Str}

theorem mem_resolve {r : Str} : r ∈ resolve map groups ↔ ∃ g ∈ groups, r ∈ map g := by
  have kept : ∀ (new roles : List Str),
      r ∈ new.foldl (fun roles role => if role ∈ roles then roles else roles ++ [role]) roles ↔
        r ∈ roles ∨ r ∈ new := by
    intro new
    induction new with
    | nil => simp
    | cons role new ih =>
        intro roles
        rw [List.foldl_cons, ih, List.mem_cons]
        split
        · next seen =>
          exact ⟨fun h => h.imp_right .inr,
            fun h => h.elim .inl fun h => h.elim (fun same => .inl (same ▸ seen)) .inr⟩
        · rw [List.mem_append, List.mem_singleton, or_assoc]
  rw [resolve, kept, List.mem_flatMap]
  simp

theorem mem_getRoles {role : Role} :
    role ∈ t.getRoles username ↔ UserRole.mk username role ∈ t.rows := by
  rw [RoleTable.getRoles, mem_orderBy, List.mem_map]
  simp only [List.mem_filter, decide_eq_true_eq]
  constructor
  · rintro ⟨row, ⟨mem, rfl⟩, rfl⟩
    exact mem
  · exact fun mem => ⟨_, ⟨mem, rfl⟩, rfl⟩

theorem getRoles_deleteRoles :
    (t.deleteRoles username true).1.getRoles username = [] := by
  apply List.eq_nil_iff_forall_not_mem.mpr
  intro role mem
  rw [mem_getRoles] at mem
  simp [RoleTable.deleteRoles] at mem

theorem getRoles_deleteRoles_of_ne {user : Str} {commits : Bool} (ne : user ≠ username) :
    (t.deleteRoles username commits).1.getRoles user = t.getRoles user := by
  cases commits with
  | false => rfl
  | true =>
      rw [RoleTable.getRoles, RoleTable.getRoles]
      congr 2
      simp only [RoleTable.deleteRoles, if_true, List.filter_filter]
      apply List.filter_congr
      intro row _
      by_cases own : row.username = user
      · simp [own, ne]
      · simp [own]

/-- Without stored roles the groups decide. -/
theorem resolveRoles_of_none (none : t.getRoles username = []) :
    resolveRoles map t groups username = resolve map groups := by
  rw [resolveRoles, none]
  exact if_neg fun h => h rfl

theorem resolveRoles_of_stored (stored : t.getRoles username ≠ []) :
    resolveRoles map t groups username = (t.getRoles username).map Role.value :=
  if_pos stored

/-- The table after `delete_user_roles` or `delete_roles`. -/
inductive Removal (t : RoleTable) (username : Str) : RoleTable → Prop
  | request (writeAllowed commits : Bool) :
      Removal t username (deleteUserRoles t username writeAllowed commits).1
  | repository (commits : Bool) : Removal t username (t.deleteRoles username commits).1

/-- A removal takes effect or leaves the table as it was. -/
theorem Removal.eq {after : RoleTable} (removal : Removal t username after) :
    after = t ∨ after = (t.deleteRoles username true).1 := by
  cases removal with
  | request writeAllowed commits =>
      rw [deleteUserRoles]
      cases checkDeleteUserRoles username writeAllowed with
      | error e => exact .inl rfl
      | ok =>
          cases commits with
          | false => exact .inl rfl
          | true => exact .inr rfl
  | repository commits =>
      cases commits with
      | false => exact .inl rfl
      | true => exact .inr rfl

theorem deleteUserRoles_resolveRoles {after : RoleTable} (removal : Removal t username after) :
    (after = t ∨ ∀ r, r ∈ resolveRoles map after groups username ↔ ∃ g ∈ groups, r ∈ map g) ∧
    (resolveRoles map after groups username ⊆ resolveRoles map t groups username ↔
      after = t ∨ t.getRoles username = [] ∨
        ∀ g ∈ groups, ∀ r ∈ map g, ∃ role ∈ t.getRoles username, r = role.value) ∧
    ∀ user ≠ username, resolveRoles map after groups user = resolveRoles map t groups user := by
  rcases removal.eq with rfl | rfl
  · exact ⟨.inl rfl, ⟨fun _ => .inl rfl, fun _ => List.Subset.refl _⟩, fun _ _ => rfl⟩
  · have mapped := @resolveRoles_of_none map _ groups _ (@getRoles_deleteRoles t username)
    refine ⟨.inr fun r => by rw [mapped, mem_resolve], ?_, fun user ne => ?_⟩
    · by_cases stored : t.getRoles username = []
      · rw [mapped, resolveRoles_of_none stored]
        exact ⟨fun _ => .inr (.inl stored), fun _ => List.Subset.refl _⟩
      · rw [mapped, resolveRoles_of_stored stored]
        constructor
        · intro fewer
          refine .inr (.inr fun g mem r hr => ?_)
          obtain ⟨role, listed, same⟩ := List.mem_map.mp (fewer (mem_resolve.mpr ⟨g, mem, hr⟩))
          exact ⟨role, listed, same.symm⟩
        · rintro (same | none | each) r mem
          · rw [same] at mapped
            rwa [← mapped, resolveRoles_of_stored stored] at mem
          · exact absurd none stored
          · obtain ⟨g, hg, hr⟩ := mem_resolve.mp mem
            obtain ⟨role, listed, rfl⟩ := each g hg r hr
            exact List.mem_map_of_mem listed
    · rw [resolveRoles, resolveRoles, getRoles_deleteRoles_of_ne ne]

end Roles

/-! ### An auditor in the group of the administrators -/

namespace Uncovered

def frank : Str := "frank".toList

def map : GroupRoleMap := fun g => if g = Role.admin.group then [Role.admin.value] else []

def table : RoleTable := ⟨[⟨frank, .auditor⟩], by decide⟩

theorem removal : Removal table frank (deleteUserRoles table frank true true).1 := .request true true

end Uncovered

open Uncovered in
theorem deleteUserRoles_resolveRoles_uncovered :
    let after := (deleteUserRoles table frank true true).1
    (after = table ∨ ∀ r, r ∈ resolveRoles map after [Role.admin.group] frank ↔
      ∃ g ∈ [Role.admin.group], r ∈ map g) ∧
    (resolveRoles map after [Role.admin.group] frank ⊆
        resolveRoles map table [Role.admin.group] frank ↔
      after = table ∨ table.getRoles frank = [] ∨
        ∀ g ∈ [Role.admin.group], ∀ r ∈ map g, ∃ role ∈ table.getRoles frank, r = role.value) ∧
    ∀ user ≠ frank, resolveRoles map after [Role.admin.group] user =
      resolveRoles map table [Role.admin.group] user :=
  deleteUserRoles_resolveRoles removal

/-- The stored role is removed and the role of the group appears. -/
theorem deleteUserRoles_adds_role :
    ¬ ∀ (map : GroupRoleMap) (t after : RoleTable) (groups : List Str) (username : Str),
        Removal t username after →
        resolveRoles map after groups username ⊆ resolveRoles map t groups username := by
  intro fewer
  have subset := fewer Uncovered.map _ _ [Role.admin.group] _ Uncovered.removal
  exact absurd (subset (a := Role.admin.value) (by decide)) (by decide)

end Ecube.Accounts
