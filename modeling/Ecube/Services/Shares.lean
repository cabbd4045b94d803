import Ecube.Basic.Outcome
import Ecube.Paths.Sanitize
import Ecube.Schema

/-!
Network shares: their rows, remote references and mount points
(`app/services/share_service.py`).

A remote path is compared by its reference: the protocol, the host in lower case
and the normalised path below it. A new reference must differ from every stored
one, and it may overlap only with references of its own project
(`_validate_remote_path_conflicts`).

`lower` stands for `str.lower`; nothing is assumed about it.
-/

namespace Ecube

open PosixPath

inductive MountType where
  | nfs | smb
  deriving DecidableEq, Repr

/-- Credentials of a share, encrypted or in plain text. -/
structure Credentials where
  username : Option Str
  password : Option Str
  credentialsFile : Option Str
  deriving DecidableEq, Repr

/-- A row of `network_mounts`. -/
structure NetworkMount extends NetworkShare where
  type : MountType
  remotePath : Str
  nfsClientVersion : Option Str
  encrypted : Credentials
  lastCheckedAt : Option Nat
  deriving DecidableEq, Repr

instance : Row NetworkMount := ⟨fun m => m.id⟩

/-- A field of a request body: absent, or set to an optional value. -/
abbrev Field (α : Type) := Option (Option α)

/-- The body of a create or update request. -/
structure ShareData where
  type : MountType
  remotePath : Str
  projectId : ProjectId
  nfsClientVersion : Option Str
  username : Field Str
  password : Field Str
  credentialsFile : Field Str
  deriving DecidableEq, Repr

/-- `_SUPPORTED_NFS_CLIENT_VERSIONS`. -/
def supportedNfsClientVersions : List Str :=
  ["4.2".toList, "4.1".toList, "4.0".toList, "3".toList]

/-- `_resolve_nfs_client_version`, with the configured default. -/
def resolveNfsClientVersion (configured requested : Option Str) : Str :=
  let candidate := strip (((truthy requested).or (truthy configured)).getD "4.1".toList)
  if candidate ∉ supportedNfsClientVersions then "4.1".toList else candidate

/-- `_stored_nfs_client_version`. -/
def storedNfsClientVersion (configured : Option Str) (mountType : MountType)
    (requested : Option Str) : Option Str :=
  if mountType ≠ .nfs then none
  else match requested with
    | none => none
    | some version =>
        if strip version = [] then none else some (resolveNfsClientVersion configured version)

/-- `encrypt_mount_secret`. -/
def encryptMountSecret (encrypt : Str → Str) (value : Option Str) : Option Str :=
  (truthy value).map encrypt

/-- `_apply_encrypted_mount_credentials`. -/
def applyEncryptedMountCredentials (encrypt : Str → Str) (stored : Credentials) (data : ShareData)
    (preserveExisting : Bool) : Credentials :=
  let apply (old : Option Str) (field : Field Str) : Option Str :=
    if preserveExisting ∧ field = none then old else encryptMountSecret encrypt (field.getD none)
  { username := apply stored.username data.username
    password := apply stored.password data.password
    credentialsFile := apply stored.credentialsFile data.credentialsFile }

/-! ### Remote references -/

structure RemoteReference where
  type : MountType
  host : Str
  path : Str
  deriving DecidableEq, Repr

/-- `text.replace("\\", "/")`. -/
def forwardSlashes (text : Str) : Str := text.map fun c => if c = '\\' then '/' else c

/-- `text.lstrip("/")`. -/
def lstripSlashes (text : Str) : Str := text.dropWhile (· = '/')

/-- `text.rstrip("/")`. -/
def rstripSlashes (text : Str) : Str := text.rdropWhile (· = '/')

def normalizeRemoteSubpath (path : Str) : Str :=
  let raw := forwardSlashes (strip path)
  let normalized := normpath ('/' :: lstripSlashes raw)
  if normalized ≠ ['.'] then normalized else ['/']

/-- `raw.split(":", 1)`, or the whole text and `/`. -/
def splitHost (raw : Str) : Str × Str :=
  if ':' ∈ raw then (raw.takeWhile (· ≠ ':'), (raw.dropWhile (· ≠ ':')).tail) else (raw, ['/'])

def normalizeRemoteReference (lower : Str → Str) (mountType : MountType) (remotePath : Str) :
    RemoteReference :=
  let raw := strip remotePath
  match mountType with
  | .nfs =>
      let (host, path) := splitHost raw
      ⟨.nfs, lower (strip host), normalizeRemoteSubpath path⟩
  | .smb =>
      match (split (lstripSlashes (forwardSlashes raw))).filter (· ≠ []) with
      | [] => ⟨.smb, [], ['/']⟩
      | host :: parts =>
          let sharePath := if parts = [] then ['/'] else '/' :: slashed parts
          ⟨.smb, lower (strip host), normalizeRemoteSubpath sharePath⟩

def remotePathsOverlap (left right : Str) : Bool :=
  left = right ∨ rstripSlashes right ++ ['/'] <+: left ∨ rstripSlashes left ++ ['/'] <+: right

def NetworkMount.reference (lower : Str → Str) (m : NetworkMount) : RemoteReference :=
  normalizeRemoteReference lower m.type m.remotePath

inductive ShareConflict where
  | sameSource | overlap
  deriving DecidableEq, Repr

def ShareConflict.detail : ShareConflict → String
  | .sameSource => "A mount for this remote source is already configured."
  | .overlap => "Remote source paths overlap with another project's configured mount."

/-- `_validate_remote_path_conflicts`. -/
def validateRemotePathConflicts (lower : Str → Str) (mountType : MountType) (remotePath : Str)
    (projectId : ProjectId) (ignoreMountId : Option Nat) : List NetworkMount →
    Except ShareConflict Unit
  | [] => .ok ()
  | existing :: rest =>
      let candidate := normalizeRemoteReference lower mountType remotePath
      let stored := existing.reference lower
      if some existing.id = ignoreMountId then
        validateRemotePathConflicts lower mountType remotePath projectId ignoreMountId rest
      else if candidate = stored then .error .sameSource
      else if candidate.type ≠ stored.type ∨ candidate.host ≠ stored.host then
        validateRemotePathConflicts lower mountType remotePath projectId ignoreMountId rest
      else if remotePathsOverlap candidate.path stored.path ∧ existing.projectId ≠ projectId then
        .error .overlap
      else validateRemotePathConflicts lower mountType remotePath projectId ignoreMountId rest

/-! ### Local mount points -/

/-- `_extract_remote_leaf`. -/
def extractRemoteLeaf (mountType : MountType) (remotePath : Str) : Str :=
  let pathPart := match mountType with
    | .nfs => if ':' ∈ remotePath then remotePath.rtakeWhile (· ≠ ':') else remotePath
    | .smb =>
        let smbParts := (split (lstripSlashes remotePath)).filter (· ≠ [])
        if 2 ≤ smbParts.length then slashed smbParts.tail else remotePath
  let parts := (split pathPart).filter fun p => p ≠ [] ∧ p ≠ ['.'] ∧ p ≠ ['.', '.']
  parts.getLast?.getD "share".toList

/-- `[A-Za-z0-9._-]`. -/
def isSlugChar (c : Char) : Bool :=
  c.isAlphanum || c = '.' || c = '_' || c = '-'

/-- Every run of other characters becomes one dash. -/
def dashRuns : Str → Str
  | [] => []
  | c :: rest =>
      if isSlugChar c then c :: dashRuns rest
      else match rest with
        | [] => ['-']
        | d :: _ => if isSlugChar d then '-' :: dashRuns rest else dashRuns rest

/-- `_slugify_mount_leaf`. -/
def slugifyMountLeaf (name : Str) : Str :=
  let trimmed := (dashRuns name).dropWhile fun c => c = '-' ∨ c = '.' ∨ c = '_'
  let slug := trimmed.rdropWhile fun c => c = '-' ∨ c = '.' ∨ c = '_'
  if slug = [] then "share".toList else slug

/-- The leaf with the suffix of the given attempt: none, `-2`, `-3` and so on. -/
def mountPointCandidate (root leaf : Str) : Nat → Str
  | 0 => root ++ '/' :: leaf
  | n + 1 => root ++ '/' :: leaf ++ '-' :: Nat.toDigits 10 (n + 2)

/-- `_generate_local_mount_point`: the first candidate that is not taken. -/
def generateLocalMountPoint (root : Str) (mountType : MountType) (remotePath : Str)
    (existingMountPoints : List Str) : Str :=
  let leaf := slugifyMountLeaf (extractRemoteLeaf mountType remotePath)
  search (mountPointCandidate root leaf) existingMountPoints.length 0
where
  /-- The loop: among one candidate more than there are mount points, one is free. -/
  search (candidate : Nat → Str) : Nat → Nat → Str
    | 0, attempt => candidate attempt
    | fuel + 1, attempt =>
        if candidate attempt ∈ existingMountPoints then search candidate fuel (attempt + 1)
        else candidate attempt

/-! ### What the comparisons say -/

section References

variable {lower : Str → Str}

theorem initialSlashes_lstripSlashes (text : Str) :
    initialSlashes ('/' :: lstripSlashes text) = 1 := by
  have first : ∀ c s, lstripSlashes text = c :: s → c ≠ '/' := by
    intro c s kept same
    have head := List.head?_dropWhile_not (· = '/') text
    rw [lstripSlashes] at kept
    rw [kept, same] at head
    simp at head
  cases kept : lstripSlashes text with
  | nil => rfl
  | cons c s => simp [initialSlashes, first c s kept]

/-- A normalised path with one leading slash. -/
structure Rooted (path : Str) : Prop where
  normal : Normal path
  slash : initialSlashes path = 1

theorem rooted_normalizeRemoteSubpath (path : Str) : Rooted (normalizeRemoteSubpath path) := by
  have slash := initialSlashes_lstripSlashes (forwardSlashes (strip path))
  have kept : normpath ('/' :: lstripSlashes (forwardSlashes (strip path))) ≠ ['.'] := by
    intro dot
    have same := initialSlashes_normpath ('/' :: lstripSlashes (forwardSlashes (strip path)))
    rw [dot, slash] at same
    cases same
  rw [normalizeRemoteSubpath]
  simp only [if_pos kept]
  exact ⟨normal_normpath _, (initialSlashes_normpath _).trans slash⟩

theorem rooted_reference (mountType : MountType) (remotePath : Str) :
    Rooted (normalizeRemoteReference lower mountType remotePath).path := by
  cases mountType with
  | nfs => exact rooted_normalizeRemoteSubpath _
  | smb =>
      rw [normalizeRemoteReference]
      dsimp only
      split
      · exact ⟨by decide, by decide⟩
      · exact rooted_normalizeRemoteSubpath _

theorem Rooted.eq_slash {path : Str} (h : Rooted path) (bare : comps path = []) : path = ['/'] := by
  have settled := h.normal.settled
  rw [PosixPath.Settled, h.slash] at settled
  have same : normpath path = path := h.normal
  rw [normpath_eq, h.slash, settled, bare] at same
  exact same.symm

theorem Rooted.rstripSlashes_eq {path : Str} (h : Rooted path) (ne : comps path ≠ []) :
    rstripSlashes path = path := by
  have isComp : ∀ p ∈ comps path, IsComp p := fun p => isComp_of_mem_comps
  have last : path.getLast? ≠ some '/' := by
    obtain ⟨c, s, hs, -, -⟩ := slashed_eq_cons ne isComp
    rw [h.normal.eq_render ne, render, List.getLast?_append_of_ne_nil _ (by simp [hs])]
    exact getLast_slashed_ne ne isComp
  rw [rstripSlashes, List.rdropWhile_eq_self_iff]
  intro nonempty slash
  rw [List.getLast?_eq_some_getLast nonempty, of_decide_eq_true slash] at last
  exact last rfl

theorem Rooted.starts {path : Str} (h : Rooted path) : ['/'] <+: path := by
  have slash := h.slash
  cases path with
  | nil => cases slash
  | cons c rest =>
      by_cases first : c = '/'
      · subst first
        exact ⟨rest, rfl⟩
      · simp [initialSlashes, first] at slash

/-- Directories with one leading slash contain each other as their components say. -/
theorem Rooted.below_iff_prefix {p q : Str} (hp : Rooted p) (hq : Rooted q) :
    (p = q ∨ rstripSlashes p ++ ['/'] <+: q) ↔ comps p <+: comps q := by
  by_cases bare : comps p = []
  · rw [hp.eq_slash bare]
    exact iff_of_true (.inr hq.starts) (List.nil_prefix)
  · have below := below_iff (s := q) hp.normal bare (hq.slash.trans hp.slash.symm)
    rw [show normpath q = q from hq.normal] at below
    rw [hp.rstripSlashes_eq bare, ← below, Below, eq_comm]

theorem remotePathsOverlap_iff {p q : Str} (hp : Rooted p) (hq : Rooted q) :
    remotePathsOverlap p q = true ↔ comps p <+: comps q ∨ comps q <+: comps p := by
  rw [← hp.below_iff_prefix hq, ← hq.below_iff_prefix hp, remotePathsOverlap, decide_eq_true_eq]
  grind

/-- Sources that may stand beside each other: they differ, and on one host those
of different projects contain no directory of each other. -/
structure SourcesApart (r r' : RemoteReference) (projectId projectId' : ProjectId) : Prop where
  distinct : r ≠ r'
  disjoint : projectId ≠ projectId' → r.type = r'.type → r.host = r'.host →
    ¬ (comps r.path <+: comps r'.path ∨ comps r'.path <+: comps r.path)

theorem SourcesApart.symm {r r' : RemoteReference} {projectId projectId' : ProjectId}
    (h : SourcesApart r r' projectId projectId') : SourcesApart r' r projectId' projectId where
  distinct := h.distinct.symm
  disjoint ne type host := fun nested => h.disjoint ne.symm type.symm host.symm nested.symm

/-- What the validation establishes. -/
theorem validateRemotePathConflicts_eq_ok {mountType : MountType} {remotePath : Str}
    {projectId : ProjectId} {ignoreMountId : Option Nat} {existing : List NetworkMount} :
    validateRemotePathConflicts lower mountType remotePath projectId ignoreMountId existing = .ok () ↔
      ∀ m ∈ existing, some m.id ≠ ignoreMountId →
        SourcesApart (normalizeRemoteReference lower mountType remotePath) (m.reference lower) projectId
          m.projectId := by
  induction existing with
  | nil => exact iff_of_true rfl fun m mem => absurd mem List.not_mem_nil
  | cons m rest ih =>
      have overlap := remotePathsOverlap_iff (@rooted_reference lower mountType remotePath)
        (@rooted_reference lower m.type m.remotePath)
      rw [validateRemotePathConflicts, List.forall_mem_cons, ← ih]
      split_ifs with ignored same elsewhere crosses
      · exact ⟨fun ok => ⟨fun ne => absurd ignored ne, ok⟩, fun h => h.2⟩
      · exact iff_of_false nofun fun h => (h.1 ignored).distinct same
      · refine ⟨fun ok => ⟨fun _ => ⟨same, fun _ type host => ?_⟩, ok⟩, fun h => h.2⟩
        exact absurd (elsewhere.resolve_left (not_not.mpr type)) (not_not.mpr host)
      · refine iff_of_false nofun fun h => ?_
        have here : _ = _ ∧ _ = _ := not_or.mp elsewhere |>.imp not_not.mp not_not.mp
        exact (h.1 ignored).disjoint crosses.2.symm here.1 here.2 (overlap.mp crosses.1)
      · refine ⟨fun ok => ⟨fun _ => ⟨same, fun ne _ _ nested => ?_⟩, ok⟩, fun h => h.2⟩
        exact crosses ⟨overlap.mpr nested, ne.symm⟩

end References

/-! ### The search for a mount point -/

theorem mountPointCandidate_injective (root leaf : Str) :
    Function.Injective (mountPointCandidate root leaf) := by
  intro a b same
  cases a with
  | zero =>
      cases b with
      | zero => rfl
      | succ b => simp [mountPointCandidate] at same
  | succ a =>
      cases b with
      | zero => simp [mountPointCandidate] at same
      | succ b =>
          simp only [mountPointCandidate, List.append_cancel_left_eq, List.cons.injEq, true_and,
            List.append_assoc, List.cons_append] at same
          have digits := congrArg (Nat.ofDigitChars 10 · 0) same
          simp only [Nat.ofDigitChars_ten_toDigits] at digits
          omega

theorem search_not_mem {existing : List Str} {candidate : Nat → Str}
    (injective : Function.Injective candidate) {fuel attempt : Nat}
    (tried : ∀ i < attempt, candidate i ∈ existing) (enough : existing.length ≤ attempt + fuel) :
    generateLocalMountPoint.search existing candidate fuel attempt ∉ existing := by
  induction fuel generalizing attempt with
  | zero =>
      -- All mount points are candidates that were tried before.
      intro taken
      have sub : (List.range (attempt + 1)).map candidate ⊆ existing := by
        intro m mem
        obtain ⟨i, hi, rfl⟩ := List.mem_map.mp mem
        rcases Nat.lt_succ_iff_lt_or_eq.mp (List.mem_range.mp hi) with earlier | rfl
        · exact tried i earlier
        · exact taken
      have nodup : ((List.range (attempt + 1)).map candidate).Nodup :=
        List.nodup_range.map injective
      have le := List.Nodup.length_le_of_subset nodup sub
      rw [List.length_map, List.length_range] at le
      omega
  | succ fuel ih =>
      rw [generateLocalMountPoint.search]
      split
      next taken =>
        refine ih (fun i hi => ?_) (by omega)
        rcases Nat.lt_succ_iff_lt_or_eq.mp hi with earlier | rfl
        · exact tried i earlier
        · exact taken
      next free => exact free

/-- The generated mount point is not taken. -/
theorem generateLocalMountPoint_not_mem (root : Str) (mountType : MountType) (remotePath : Str)
    (existing : List Str) : generateLocalMountPoint root mountType remotePath existing ∉ existing :=
  search_not_mem (mountPointCandidate_injective _ _) nofun (by omega)

end Ecube
