import Ecube.Lifecycle
import Ecube.Services.ShareReconciliation

/-!
Shares that are mounted when the network mounts are reconciled.

A remote path has many spellings with one reference, and a share may be mounted
under another spelling than it is stored under. `reconcileMounts_leftAlone_iff`:
when every share is mounted from its remote reference, a pass leaves the shares
alone exactly if no spelling differs. One that differs is taken for another
source and unmounted (`reconcileMounts_unmounts_share`).
-/

namespace Ecube.LiveShares

open PosixPath Table Transition

/-- Every share is mounted from a source with the reference of its remote path. -/
def ReferencesLive (lower : Str → Str) (shares : Table NetworkMount)
    (liveMounts : List (Str × Str)) : Prop :=
  ∀ m ∈ shares, ∃ source, liveMounts.lookup m.target = some source ∧
    normalizeRemoteReference lower m.type source = m.reference lower

/-- No call is made for a share, and every share is recorded as mounted. -/
structure LeftAlone (shares : Table NetworkMount) (p : NetworkPass) : Prop where
  uncalled : ∀ call ∈ p.calls, ∀ m ∈ shares, normpath call.path ≠ m.target
  mounted : ∀ m ∈ shares, ∃ m', p.shares.get m.id = some m' ∧ m'.status = .mounted

section Loops

variable {host : NetworkHost} {now : Nat} {p : NetworkPass}

/-! ### The loop over the shares -/

theorem shares_reconcileShare {mountId : Nat} {m : NetworkMount}
    (found : p.shares.get mountId = some m) :
    (host.reconcileShare now p mountId).shares =
      p.shares.modify mountId (treatedMount (host.treatment m).status now)
        (treatedMount_id (host.treatment m).status now) := by
  rw [NetworkHost.reconcileShare, found]

theorem get_reconcileShare_of_ne {mountId id : Nat} (ne : id ≠ mountId) :
    (host.reconcileShare now p mountId).shares.get id = p.shares.get id := by
  cases found : p.shares.get mountId with
  | none => rw [NetworkHost.reconcileShare, found]
  | some m => rw [shares_reconcileShare found, get_modify_of_ne _ ne]

/-- The calls that are made for a share. -/
def callsFor (host : NetworkHost) (shares : Table NetworkMount) (id : Nat) : List MountCall :=
  ((shares.get id).map fun m => (host.treatment m).calls).getD []

theorem calls_reconcileShare (mountId : Nat) :
    (host.reconcileShare now p mountId).calls = p.calls ++ callsFor host p.shares mountId := by
  rw [NetworkHost.reconcileShare, callsFor]
  cases p.shares.get mountId with
  | none => simp
  | some m => rfl

theorem get_exec_of_not_mem {ids : List Nat} {id : Nat} (other : id ∉ ids) :
    (exec (host.reconcileShare now) p ids).shares.get id = p.shares.get id := by
  induction ids generalizing p with
  | nil => rfl
  | cons mountId ids ih =>
      rw [List.mem_cons, not_or] at other
      exact (ih other.2).trans (get_reconcileShare_of_ne other.1)

/-- Every share is treated as it is before the loop. -/
theorem get_exec {ids : List Nat} (nodup : ids.Nodup) {id : Nat} (mem : id ∈ ids) {m : NetworkMount}
    (found : p.shares.get id = some m) :
    (exec (host.reconcileShare now) p ids).shares.get id =
      some (treatedMount (host.treatment m).status now m) := by
  induction ids generalizing p with
  | nil => cases mem
  | cons mountId ids ih =>
      obtain ⟨fresh, nodup⟩ := List.nodup_cons.mp nodup
      change (exec (host.reconcileShare now) (host.reconcileShare now p mountId)
        ids).shares.get id = _
      rcases List.mem_cons.mp mem with rfl | later
      · rw [get_exec_of_not_mem fresh, shares_reconcileShare found, get_modify_self _ found]
      · have ne : id ≠ mountId := fun same => fresh (same ▸ later)
        exact ih nodup later ((get_reconcileShare_of_ne ne).trans found)

theorem calls_exec {ids : List Nat} (nodup : ids.Nodup) :
    (exec (host.reconcileShare now) p ids).calls =
      p.calls ++ ids.flatMap (callsFor host p.shares) := by
  induction ids generalizing p with
  | nil => simp [exec]
  | cons mountId ids ih =>
      obtain ⟨fresh, nodup⟩ := List.nodup_cons.mp nodup
      have same : ids.flatMap (callsFor host (host.reconcileShare now p mountId).shares) =
          ids.flatMap (callsFor host p.shares) := by
        apply List.flatMap_congr
        intro id later
        have ne : id ≠ mountId := fun same => fresh (same ▸ later)
        rw [callsFor, callsFor, get_reconcileShare_of_ne ne]
      change (exec (host.reconcileShare now) (host.reconcileShare now p mountId) ids).calls = _
      rw [ih nodup, same, calls_reconcileShare, List.flatMap_cons, List.append_assoc]

/-! ### The loop over the mount table -/

/-- A step of the sweep makes at most one call, for a mount point of no share. -/
theorem sweepTarget_eq (persisted : List Str) (target : Str) :
    (host.sweepTarget persisted p target).shares = p.shares ∧
      ((host.sweepTarget persisted p target).calls = p.calls ∨
        normpath target ∉ persisted ∧ (host.sweepTarget persisted p target).calls =
          p.calls ++ [.unmount (normpath target)]) := by
  rw [NetworkHost.sweepTarget]
  by_cases skipped : normpath target ∈ persisted ∨
      host.isGeneratedNetworkMountPoint (normpath target) = false
  · rw [if_pos skipped]
    exact ⟨rfl, .inl rfl⟩
  · rw [if_neg skipped]
    have orphan := fun mem => skipped (.inl mem)
    split
    · exact ⟨rfl, .inr ⟨orphan, rfl⟩⟩
    · exact ⟨rfl, .inr ⟨orphan, rfl⟩⟩

theorem exec_sweepTarget (persisted targets : List Str) :
    (exec (host.sweepTarget persisted) p targets).shares = p.shares ∧
      ∃ orphans : List Str, (∀ target ∈ orphans, normpath target ∉ persisted) ∧
        (exec (host.sweepTarget persisted) p targets).calls =
          p.calls ++ orphans.map fun target => .unmount (normpath target) := by
  induction targets generalizing p with
  | nil => exact ⟨rfl, [], by simp, by simp [exec]⟩
  | cons target targets ih =>
      obtain ⟨kept, called⟩ := @sweepTarget_eq host p persisted target
      obtain ⟨rest, orphans, apart, calls⟩ := @ih (host.sweepTarget persisted p target)
      refine ⟨rest.trans kept, ?_⟩
      rcases called with same | ⟨orphan, more⟩
      · exact ⟨orphans, apart, calls.trans (by rw [same])⟩
      · refine ⟨target :: orphans, ?_, calls.trans (by rw [more]; simp)⟩
        intro other mem
        rcases List.mem_cons.mp mem with rfl | mem
        · exact orphan
        · exact apart other mem

end Loops

/-! ### A pass -/

section Pass

variable {host : NetworkHost} {shares : Table NetworkMount} {now : Nat} {m : NetworkMount}

theorem treatment_of_same (same : host.liveMounts.lookup m.target = some m.remotePath) :
    host.treatment m = recordMounted m := by
  simp only [NetworkHost.treatment, treatShare, same, if_true]

/-- A share with another source is unmounted first. -/
theorem treatment_of_other {source : Str} (live : host.liveMounts.lookup m.target = some source)
    (other : source ≠ m.remotePath) :
    .unmount m.localMountPoint ∈ (host.treatment m).calls := by
  have ne : some source ≠ some m.remotePath := fun h => other (Option.some_inj.mp h)
  simp only [NetworkHost.treatment, treatShare, live, if_neg ne]
  split
  · exact List.mem_singleton_self _
  · exact List.mem_append_left _ (List.mem_singleton_self _)

theorem callsFor_of_mem (mem : m ∈ shares) :
    callsFor host shares m.id = (host.treatment m).calls := by
  have found : shares.get m.id = some m := get_eq_some_iff.mpr ⟨mem, rfl⟩
  rw [callsFor, found]
  rfl

/-- The rows and the calls of a pass. -/
theorem reconcileMounts_eq :
    (∀ m ∈ shares, (host.reconcileMounts shares now).shares.get m.id =
      some (treatedMount (host.treatment m).status now m)) ∧
    ∃ orphans : List Str, (∀ target ∈ orphans, ∀ m ∈ shares, normpath target ≠ m.target) ∧
      (host.reconcileMounts shares now).calls =
        shares.rows.flatMap (fun m => (host.treatment m).calls) ++
          orphans.map fun target => .unmount (normpath target) := by
  obtain ⟨kept, orphans, apart, calls⟩ := @exec_sweepTarget host
    (exec (host.reconcileShare now) ⟨shares, [], 0, 0, 0, []⟩ (shares.rows.map fun m => m.id))
    (shares.rows.map NetworkMount.target) (host.liveMounts.map Prod.fst)
  refine ⟨?_, orphans, ?_, ?_⟩
  · intro m mem
    rw [NetworkHost.reconcileMounts, kept]
    exact get_exec shares.nodup (List.mem_map_of_mem mem) (get_eq_some_iff.mpr ⟨mem, rfl⟩)
  · intro target orphan m mem same
    exact apart target orphan (same ▸ List.mem_map_of_mem mem)
  · have treated := @calls_exec host now ⟨shares, [], 0, 0, 0, []⟩ _ shares.nodup
    have each : (shares.rows.map fun m => m.id).flatMap (callsFor host shares) =
        shares.rows.flatMap fun m => (host.treatment m).calls := by
      rw [List.flatMap_map]
      exact List.flatMap_congr fun m mem => callsFor_of_mem mem
    rw [← each]
    exact calls.trans (congrArg (· ++ _) treated)

theorem reconcileMounts_leftAlone_iff
    (live : ReferencesLive host.cfg.lower shares host.liveMounts) :
    LeftAlone shares (host.reconcileMounts shares now) ↔
      ∀ m ∈ shares, host.liveMounts.lookup m.target = some m.remotePath := by
  obtain ⟨rows, orphans, apart, calls⟩ := @reconcileMounts_eq host shares now
  constructor
  · intro alone m mem
    obtain ⟨source, shown, -⟩ := live m mem
    by_contra differs
    have other : source ≠ m.remotePath := fun same => differs (same ▸ shown)
    have called : .unmount m.localMountPoint ∈ (host.reconcileMounts shares now).calls := by
      rw [calls]
      exact List.mem_append_left _
        (List.mem_flatMap.mpr ⟨m, mem, treatment_of_other shown other⟩)
    exact alone.uncalled _ called m mem rfl
  · intro same
    constructor
    · intro call mem m hm
      rw [calls, List.mem_append, List.mem_flatMap, List.mem_map] at mem
      rcases mem with ⟨m', hm', mem⟩ | ⟨target, orphan, rfl⟩
      · rw [treatment_of_same (same m' hm')] at mem
        cases mem
      · rw [MountCall.path, normpath_idem]
        exact apart target orphan m hm
    · intro m mem
      refine ⟨_, rows m mem, ?_⟩
      rw [treatment_of_same (same m mem)]
      rfl

end Pass

/-! ### A share and its spellings -/

/-- Every call succeeds. -/
def host (liveMounts : List (Str × Str)) : NetworkHost where
  cfg := ⟨List.map Char.toLower, fun _ => none, none⟩
  networkMountBasePath := "/mnt/ecube-network".toList
  liveMounts := liveMounts
  share _ := ⟨some true, true, some true, true, .ok, true⟩
  orphan _ := true

def evidence (remotePath : String) : NetworkMount where
  id := 1
  projectId := Lab.projectP
  localMountPoint := "/mnt/ecube-network/evidence".toList
  status := .mounted
  type := .smb
  remotePath := remotePath.toList
  nfsClientVersion := none
  encrypted := ⟨none, none, none⟩
  lastCheckedAt := none

def shares (remotePath : String) : Table NetworkMount :=
  ⟨[evidence remotePath], 1, List.nodup_singleton _, by simp [evidence, Row.id]⟩

def mountTable : List (Str × Str) :=
  [("/".toList, "/dev/sda1".toList),
    ("/mnt/ecube-network/evidence".toList, "//server/evidence".toList),
    ("/mnt/ecube-network/left".toList, "//server/left".toList)]

theorem reconcileMounts_leftAlone_evidence :
    ReferencesLive (host mountTable).cfg.lower (shares "//server/evidence") mountTable ∧
      LeftAlone (shares "//server/evidence")
        ((host mountTable).reconcileMounts (shares "//server/evidence") 5) := by
  have live :
      ReferencesLive (host mountTable).cfg.lower (shares "//server/evidence") mountTable := by
    intro m mem
    obtain rfl := List.mem_singleton.mp mem
    exact ⟨"//server/evidence".toList, by decide, by decide⟩
  refine ⟨live, (reconcileMounts_leftAlone_iff live).mpr ?_⟩
  intro m mem
  obtain rfl := List.mem_singleton.mp mem
  decide

/-- The share is stored with backslashes and mounted with slashes. -/
theorem reconcileMounts_unmounts_share :
    ¬ ∀ (host : NetworkHost) (shares : Table NetworkMount) (now : Nat),
        ReferencesLive host.cfg.lower shares host.liveMounts →
          LeftAlone shares (host.reconcileMounts shares now) := by
  intro alone
  have live :
      ReferencesLive (host mountTable).cfg.lower (shares "\\\\server\\evidence") mountTable := by
    intro m mem
    obtain rfl := List.mem_singleton.mp mem
    exact ⟨"//server/evidence".toList, by decide, by decide⟩
  have uncalled := (alone (host mountTable) _ 5 live).uncalled
  have called : MountCall.unmount "/mnt/ecube-network/evidence".toList ∈
      ((host mountTable).reconcileMounts (shares "\\\\server\\evidence") 5).calls := by
    decide
  exact uncalled _ called _ (List.mem_singleton_self _) rfl

end Ecube.LiveShares
