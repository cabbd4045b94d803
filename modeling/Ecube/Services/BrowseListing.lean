import Ecube.Basic.Pages
import Ecube.Schema
import Ecube.Services.Browse

/-!
Directory listings (`browse_service.list_directory`).

A page is collected while the directory is read: the matches before the page are counted, those
of the page kept, and one more match ends the reading. A directory that is not read to its end may
be larger than the limit.

* `pages_partition`, `page_refused_iff`: pages that follow each other hold every entry once, and
  which of them are refused in a directory that is too large.
* `listing_authorised`: what is listed lies in an active mount of a registered drive or share.
-/

namespace Ecube.Browse

open PosixPath SymlinkTree AuditText

/-! ### Mount roots -/

/-- `_lookup_mount_root`: the stored path and where it comes from. -/
inductive RootSource where
  | usbDrive
  | networkMount
  | unknown
  deriving DecidableEq, Repr

def RootSource.value : RootSource → String
  | usbDrive => "usb_drive"
  | networkMount => "network_mount"
  | unknown => "unknown"

def mountCandidates (path : Str) : List Str :=
  let normalised := rstripSlashes path
  if normalised ≠ [] then [normalised, normalised ++ ['/']] else [normalised, ['/']]

def lookupMountRoot (db : Db) (path : Str) : Option Str × RootSource :=
  let candidates := mountCandidates path
  let usbPath := (db.drives.rows.find? fun d =>
    d.mountPath.any (fun m => m ∈ candidates) &&
      decide (d.currentState ∈ [DriveState.available, .inUse])).bind UsbDrive.mountPath
  match usbPath.filter fun m => m ≠ [] with
  | some mountPath => (some (rstripSlashes mountPath), .usbDrive)
  | none =>
      let netPath := db.shares.rows.find? fun n =>
        decide (n.status = .mounted ∧ n.localMountPoint ≠ [] ∧ n.localMountPoint ∈ candidates)
      match netPath with
      | some n => (some (rstripSlashes n.localMountPoint), .networkMount)
      | none => (none, .unknown)

def lookupNetworkMountRootById (db : Db) (mountId : Nat) : Option Str :=
  (db.shares.rows.find? fun n =>
    decide (n.id = mountId ∧ n.status = .mounted ∧ n.localMountPoint ≠ [])).map
      fun n => rstripSlashes n.localMountPoint

/-! ### Reading a directory -/

/-- The clauses of `list_directory` that an `OSError` meets. -/
inductive OsError where
  | fileNotFound
  | permission
  | notADirectory
  | other
  deriving DecidableEq, Repr

/-- An entry of `os.scandir`, with `entry.is_dir(follow_symlinks=False)`. -/
structure DirEntry where
  name : Str
  isDir : Except OsError Bool

/-- The entries that `os.scandir` yields until it ends or raises. -/
structure Scandir where
  entries : List DirEntry
  raises : Option OsError

structure PageScan where
  pageNames : List Str
  matchingEntries : Nat
  seenEntries : Nat
  hasMore : Bool
  deriving DecidableEq, Repr

inductive ScanError where
  | limit
  | os (e : OsError)
  deriving DecidableEq, Repr

/-- Whether the entry is skipped, which is asked of directories only. -/
def matchesEntry (directoriesOnly : Bool) (entry : DirEntry) : Except OsError Bool :=
  if directoriesOnly then entry.isDir else .ok true

section Scan

variable (maxEntries start pageSize : Nat) (directoriesOnly : Bool) (raises : Option OsError)

/-- The loop over the entries. -/
def scanPage : List DirEntry → PageScan → Except ScanError PageScan
  | [], p =>
      match raises with
      | none => .ok p
      | some e => .error (.os e)
  | entry :: rest, p =>
      let p := { p with seenEntries := p.seenEntries + 1 }
      if maxEntries ≠ 0 ∧ maxEntries < p.seenEntries then .error .limit
      else
        match matchesEntry directoriesOnly entry with
        | .error e => .error (.os e)
        | .ok false => scanPage rest p
        | .ok true =>
            if p.matchingEntries < start then
              scanPage rest { p with matchingEntries := p.matchingEntries + 1 }
            else if p.pageNames.length < pageSize then
              scanPage rest { p with
                pageNames := p.pageNames ++ [entry.name]
                matchingEntries := p.matchingEntries + 1 }
            else .ok { p with hasMore := true }

end Scan

def scanStart : PageScan := ⟨[], 0, 0, false⟩

/-- The names a listing of the whole directory would hold. -/
def matchingNames (directoriesOnly : Bool) (entries : List DirEntry) : List Str :=
  (entries.filter fun e => (matchesEntry directoriesOnly e).toOption = some true).map DirEntry.name

/-! ### What a page holds -/

section ScanResults

variable {maxEntries start pageSize : Nat} {directoriesOnly : Bool} {raises : Option OsError}

theorem matchingNames_cons_of_match {entry : DirEntry} (rest : List DirEntry)
    (h : matchesEntry directoriesOnly entry = .ok true) :
    matchingNames directoriesOnly (entry :: rest) =
      entry.name :: matchingNames directoriesOnly rest := by
  rw [matchingNames, List.filter_cons_of_pos]
  · rfl
  · rw [h]
    rfl

theorem matchingNames_cons_of_skip {entry : DirEntry} (rest : List DirEntry)
    (h : matchesEntry directoriesOnly entry = .ok false) :
    matchingNames directoriesOnly (entry :: rest) = matchingNames directoriesOnly rest := by
  rw [matchingNames, List.filter_cons_of_neg]
  · rfl
  · rw [h]
    exact Bool.false_ne_true

/-- The matches so far are those before the page and those on it. -/
structure PageScan.Counted (start pageSize : Nat) (p : PageScan) : Prop where
  page : p.pageNames.length = p.matchingEntries - start
  within : p.matchingEntries ≤ start + pageSize
  open_ : p.hasMore = false

/-- What one entry does. -/
theorem scanPage_cons (entry : DirEntry) (rest : List DirEntry) {p : PageScan}
    (counted : p.Counted start pageSize) (room : maxEntries = 0 ∨ p.seenEntries < maxEntries) :
    (∃ e, matchesEntry directoriesOnly entry = .error e ∧
        scanPage maxEntries start pageSize directoriesOnly raises (entry :: rest) p =
          .error (.os e)) ∨
      (matchesEntry directoriesOnly entry = .ok true ∧ p.matchingEntries = start + pageSize ∧
        scanPage maxEntries start pageSize directoriesOnly raises (entry :: rest) p =
          .ok { p with seenEntries := p.seenEntries + 1, hasMore := true }) ∨
      ∃ q : PageScan, q.Counted start pageSize ∧ q.seenEntries = p.seenEntries + 1 ∧
        scanPage maxEntries start pageSize directoriesOnly raises (entry :: rest) p =
          scanPage maxEntries start pageSize directoriesOnly raises rest q ∧
        ((matchesEntry directoriesOnly entry = .ok false ∧
            q.matchingEntries = p.matchingEntries ∧ q.pageNames = p.pageNames) ∨
          matchesEntry directoriesOnly entry = .ok true ∧
            q.matchingEntries = p.matchingEntries + 1 ∧
            q.pageNames =
              p.pageNames ++ if p.matchingEntries < start then [] else [entry.name]) := by
  obtain ⟨page, within, open_⟩ := counted
  have allowed : ¬(maxEntries ≠ 0 ∧ maxEntries < p.seenEntries + 1) := by omega
  rw [scanPage, if_neg allowed]
  cases match_ : matchesEntry directoriesOnly entry with
  | error e => exact .inl ⟨e, rfl, rfl⟩
  | ok listed =>
      cases listed with
      | false =>
          exact .inr (.inr ⟨{ p with seenEntries := p.seenEntries + 1 }, ⟨page, within, open_⟩, rfl,
            rfl, .inl ⟨rfl, rfl, rfl⟩⟩)
      | true =>
          dsimp only
          by_cases before : p.matchingEntries < start
          · rw [if_pos before, if_pos before]
            refine .inr (.inr ⟨{ p with
              seenEntries := p.seenEntries + 1
              matchingEntries := p.matchingEntries + 1 },
              ⟨?_, ?_, open_⟩, rfl, rfl, .inr ⟨rfl, rfl, ?_⟩⟩)
            · change p.pageNames.length = p.matchingEntries + 1 - start
              omega
            · change p.matchingEntries + 1 ≤ start + pageSize
              omega
            · exact (List.append_nil _).symm
          · rw [if_neg before, if_neg before]
            by_cases space : p.pageNames.length < pageSize
            · rw [if_pos space]
              refine .inr (.inr ⟨{ p with
                seenEntries := p.seenEntries + 1
                pageNames := p.pageNames ++ [entry.name]
                matchingEntries := p.matchingEntries + 1 },
                ⟨?_, ?_, open_⟩, rfl, rfl, .inr ⟨rfl, rfl, rfl⟩⟩)
              · change (p.pageNames ++ [entry.name]).length = p.matchingEntries + 1 - start
                rw [List.length_append, List.length_singleton]
                omega
              · change p.matchingEntries + 1 ≤ start + pageSize
                omega
            · rw [if_neg space]
              exact .inr (.inl ⟨rfl, by omega, rfl⟩)

theorem scanPage_of_full (entry : DirEntry) (rest : List DirEntry) {p : PageScan}
    (full : maxEntries ≠ 0 ∧ maxEntries ≤ p.seenEntries) :
    scanPage maxEntries start pageSize directoriesOnly raises (entry :: rest) p =
      .error .limit := by
  rw [scanPage, if_pos]
  exact ⟨full.1, Nat.lt_succ_of_le full.2⟩

/-- A page that is read holds the matches behind those before it, and says whether there are
more. -/
theorem scanPage_eq_ok {entries : List DirEntry} {p q : PageScan}
    (counted : p.Counted start pageSize)
    (done : scanPage maxEntries start pageSize directoriesOnly raises entries p = .ok q) :
    q.pageNames = p.pageNames ++ ((matchingNames directoriesOnly entries).drop
        (start - p.matchingEntries)).take (pageSize - p.pageNames.length) ∧
      (q.hasMore = true ↔ start + pageSize <
        p.matchingEntries + (matchingNames directoriesOnly entries).length) := by
  induction entries generalizing p with
  | nil =>
      cases raises with
      | some e =>
          rw [scanPage] at done
          cases done
      | none =>
          rw [scanPage] at done
          cases done
          have within := counted.within
          simp [matchingNames, counted.open_]
          omega
  | cons entry rest ih =>
      have room : maxEntries = 0 ∨ p.seenEntries < maxEntries := by
        by_contra full
        rw [scanPage_of_full entry rest (by omega)] at done
        cases done
      have ⟨page, within, open_⟩ := counted
      rcases @scanPage_cons _ _ _ directoriesOnly raises entry rest p counted room with
        ⟨e, -, eq⟩ | ⟨match_, full, eq⟩ | ⟨q', counted', -, eq, step⟩
      · rw [eq] at done
        cases done
      · rw [eq] at done
        cases done
        have taken : pageSize - p.pageNames.length = 0 := by omega
        rw [matchingNames_cons_of_match rest match_, taken, List.take_zero, List.append_nil,
          List.length_cons]
        exact ⟨rfl, fun _ => by omega, fun _ => rfl⟩
      · rw [eq] at done
        obtain ⟨names, more⟩ := ih counted' done
        rcases step with ⟨match_, same, kept⟩ | ⟨match_, grown, kept⟩
        · rw [matchingNames_cons_of_skip rest match_, names, more, same, kept]
          exact ⟨rfl, Iff.rfl⟩
        · rw [matchingNames_cons_of_match rest match_, names, more, grown, kept, List.length_cons]
          refine ⟨?_, by omega⟩
          by_cases before : p.matchingEntries < start
          · have skip : start - p.matchingEntries = start - (p.matchingEntries + 1) + 1 := by omega
            rw [if_pos before, List.append_nil, skip, List.drop_succ_cons]
          · have here : start - p.matchingEntries = 0 := by omega
            have later : start - (p.matchingEntries + 1) = 0 := by omega
            have space :
                pageSize - p.pageNames.length = pageSize - (p.pageNames.length + 1) + 1 := by
              have := counted'.within
              omega
            rw [if_neg before, here, later, List.drop_zero, List.drop_zero, space,
              List.take_succ_cons, List.append_assoc, List.length_append, List.length_singleton,
              List.singleton_append]

/-- The limit refuses a page that is not complete after so many entries. -/
theorem scanPage_eq_limit {entries : List DirEntry} {p : PageScan}
    (counted : p.Counted start pageSize) (room : maxEntries = 0 ∨ p.seenEntries ≤ maxEntries) :
    scanPage maxEntries start pageSize directoriesOnly raises entries p = .error .limit ↔
      maxEntries ≠ 0 ∧ maxEntries - p.seenEntries < entries.length ∧
        (∀ entry ∈ entries.take (maxEntries - p.seenEntries),
          ∃ listed, matchesEntry directoriesOnly entry = .ok listed) ∧
        p.matchingEntries + (matchingNames directoriesOnly
          (entries.take (maxEntries - p.seenEntries))).length ≤ start + pageSize := by
  induction entries generalizing p with
  | nil => cases raises <;> simp [scanPage]
  | cons entry rest ih =>
      by_cases full : maxEntries ≠ 0 ∧ maxEntries ≤ p.seenEntries
      · have none : maxEntries - p.seenEntries = 0 := by omega
        rw [scanPage_of_full entry rest full, none]
        have within := counted.within
        simp [matchingNames, full.1, within]
      · by_cases unlimited : maxEntries = 0
        · refine iff_of_false (fun refused => ?_) fun h => h.1 unlimited
          rcases @scanPage_cons _ _ _ directoriesOnly raises entry rest p counted (.inl unlimited)
            with ⟨e, -, eq⟩ | ⟨-, -, eq⟩ | ⟨q, counted', -, eq, -⟩ <;> rw [eq] at refused
          · cases refused
          · cases refused
          · exact ((ih counted' (.inl unlimited)).mp refused).1 unlimited
        · have space : maxEntries - p.seenEntries = maxEntries - (p.seenEntries + 1) + 1 := by omega
          rw [space, List.take_succ_cons, List.forall_mem_cons, List.length_cons,
            Nat.add_lt_add_iff_right]
          rcases @scanPage_cons maxEntries _ _ directoriesOnly raises entry rest p counted
            (.inr (by omega)) with
            ⟨e, match_, eq⟩ | ⟨match_, last, eq⟩ | ⟨q, counted', seen, eq, step⟩ <;> rw [eq]
          · refine iff_of_false nofun fun h => ?_
            obtain ⟨listed, readable⟩ := h.2.2.1.1
            rw [match_] at readable
            cases readable
          · refine iff_of_false nofun fun h => ?_
            have few := h.2.2.2
            rw [matchingNames_cons_of_match _ match_, List.length_cons] at few
            omega
          · rw [ih counted' (.inr (by omega)), seen]
            rcases step with ⟨match_, same, -⟩ | ⟨match_, grown, -⟩
            · rw [matchingNames_cons_of_skip _ match_, same, match_]
              simp
            · rw [matchingNames_cons_of_match _ match_, grown, List.length_cons, match_]
              have order : ∀ n : Nat, p.matchingEntries + 1 + n = p.matchingEntries + (n + 1) := by
                omega
              rw [order]
              simp

theorem scanStart_counted (start pageSize : Nat) : scanStart.Counted start pageSize :=
  ⟨(Nat.zero_sub start).symm, Nat.zero_le _, rfl⟩

end ScanResults

/-! ### A request -/

/-- What `os.lstat` says of an entry; the other modes are listed as files. -/
inductive FileMode where
  | link
  | directory
  | other
  deriving DecidableEq, Repr

structure Stat where
  mode : FileMode
  size : Nat
  mtime : Int
  deriving DecidableEq, Repr

inductive EntryType where
  | file
  | directory
  | symlink
  deriving DecidableEq, Repr

structure BrowseEntry where
  name : Str
  type : EntryType
  sizeBytes : Option Nat
  modifiedAt : Int
  deriving DecidableEq, Repr

/-- `_stat_entry`; an entry that is gone has none. -/
def statEntry (lstat : Str → Option Stat) (parent name : Str) : Option BrowseEntry :=
  (lstat (join parent name)).map fun stat =>
    match stat.mode with
    | .link => ⟨name, .symlink, none, stat.mtime⟩
    | .directory => ⟨name, .directory, none, stat.mtime⟩
    | .other => ⟨name, .file, some stat.size, stat.mtime⟩

/-- The host, with the settings of the browse endpoint. -/
structure BrowseHost where
  fs : Filesystem
  depth : Nat
  browseAllowedPrefixes : List SafeStr
  browseMaxDirEntries : Nat
  isActiveMountPoint : Str → Bool
  scandir : Str → Scandir
  lstat : Str → Option Stat

structure BrowseRequest where
  path : Option Str
  mountId : Option Nat
  subdir : Str
  page : Nat
  pageSize : Nat
  directoriesOnly : Bool

structure BrowseResponse where
  path : Str
  subdir : Str
  entries : List BrowseEntry
  page : Nat
  pageSize : Nat
  hasMore : Bool
  deriving DecidableEq, Repr

/-- `BROWSE_DIRECTORY` and `BROWSE_DENIED` with their details. -/
inductive BrowseAudit where
  | directory (path : Str) (mountId : Option Nat) (subdir realRoot resolvedPath : Str)
      (page pageSize : Nat) (directoriesOnly : Bool) (entryCount : Nat) (hasMore : Bool)
  | denied (path : Str) (mountId : Option Nat) (subdir : Str) (directoriesOnly : Bool)
      (realRoot resolvedPath : Option Str) (reason : String)
  deriving DecidableEq, Repr

/-- `service` is an `ECUBEException`; `uncaught` passes through. -/
inductive Failure where
  | service (statusCode : Nat) (detail : String)
  | uncaught
  deriving DecidableEq, Repr

def Refusal.failure : Refusal → Failure
  | .service statusCode detail => .service statusCode detail
  | .recursionError => .uncaught

def OsError.failure : OsError → Failure
  | .fileNotFound => .service 404
      "The directory no longer exists — the drive or share may have been unmounted."
  | .permission => .service 403 "Permission denied listing the requested directory."
  | .notADirectory => .service 400 "The resolved path is not a directory."
  | .other => .service 500 "Failed to list the directory due to a filesystem error."

def ScanError.failure (maxEntries : Nat) : ScanError → Failure
  | .limit => .service 400
      (s!"Directory contains more than {maxEntries} entries which exceeds the configured limit. " ++
        "Use a more specific subdir.")
  | .os e => e.failure

section Request

variable (host : BrowseHost) (db : Db) (request : BrowseRequest)

/-- `requested_root`. -/
def requestedRoot : Str :=
  match request.mountId with
  | some mountId => "mount_id:".toList ++ Nat.toDigits 10 mountId
  | none => request.path.getD []

def mountRoot : Option Str × RootSource :=
  match request.mountId with
  | some mountId => (lookupNetworkMountRootById db mountId, .networkMount)
  | none => lookupMountRoot db (request.path.getD [])

/-- The root that may be browsed. -/
def trustedRoot : Except Failure Str := do
  let (found, source) := mountRoot db request
  let root ← orReject found (.service 403
    (if request.mountId.isSome then "The requested mount is not a registered active mount root."
      else "The requested path is not a registered active mount root."))
  ensure (source = .usbDrive → host.isActiveMountPoint root = true)
    (.service 403 "The requested USB drive is no longer actively mounted.")
  return root

/-- The checks of `_resolve_and_validate`; `realpath` raises for a path with a null byte. -/
def resolveRoot (root : Str) : Except Failure (Str × Str) :=
  if safe : '\x00' ∉ root then
    (resolveAndValidate host.fs host.depth host.browseAllowedPrefixes ⟨root, safe⟩
      request.subdir).mapError Refusal.failure
  else .error .uncaught

/-- The page of the resolved directory. -/
def readPage (realTarget : Str) : Except Failure (List BrowseEntry × Bool) :=
  let scandir := host.scandir realTarget
  let start := (request.page - 1) * request.pageSize
  ((scanPage host.browseMaxDirEntries start request.pageSize request.directoriesOnly
      scandir.raises scandir.entries scanStart).mapError
    (ScanError.failure host.browseMaxDirEntries)).map fun scanned =>
      (scanned.pageNames.filterMap (statEntry host.lstat realTarget), scanned.hasMore)

/-- The `BROWSE_DENIED` record of a refusal. -/
def deniedAudit (realRoot resolvedPath : Option Str) : Failure → List BrowseAudit
  | .service 403 detail =>
      [.denied (requestedRoot request) request.mountId request.subdir request.directoriesOnly
        realRoot resolvedPath (if detail ≠ "" then detail else "browse_forbidden")]
  | _ => []

/-- `list_directory` and the audit records that it writes. -/
def listDirectory : Except Failure BrowseResponse × List BrowseAudit :=
  match trustedRoot host db request with
  | .error failure => (.error failure, deniedAudit request none none failure)
  | .ok root =>
      match resolveRoot host request root with
      | .error failure => (.error failure, deniedAudit request none none failure)
      | .ok (realRoot, realTarget) =>
          match readPage host request realTarget with
          | .error failure =>
              (.error failure, deniedAudit request (some realRoot) (some realTarget) failure)
          | .ok (entries, hasMore) =>
              (.ok ⟨requestedRoot request, request.subdir, entries, request.page,
                  request.pageSize, hasMore⟩,
                [.directory (requestedRoot request) request.mountId request.subdir realRoot
                  realTarget request.page request.pageSize request.directoriesOnly
                  entries.length hasMore])

end Request

/-! ### The pages of a directory -/

section Listing

variable {host : BrowseHost} {db : Db} {request : BrowseRequest} {response : BrowseResponse}

/-- What the request has gone through. -/
structure Located (host : BrowseHost) (db : Db) (request : BrowseRequest)
    (root realRoot realTarget : Str) : Prop where
  trusted : trustedRoot host db request = .ok root
  resolved : resolveRoot host request root = .ok (realRoot, realTarget)

theorem readPage_eq_ok {realTarget : Str} {entries : List BrowseEntry} {hasMore : Bool}
    (read : readPage host request realTarget = .ok (entries, hasMore)) :
    let names := matchingNames request.directoriesOnly (host.scandir realTarget).entries
    let start := (request.page - 1) * request.pageSize
    entries = ((names.drop start).take request.pageSize).filterMap
        (statEntry host.lstat realTarget) ∧
      (hasMore = true ↔ start + request.pageSize < names.length) := by
  rw [readPage] at read
  cases scanned : scanPage host.browseMaxDirEntries ((request.page - 1) * request.pageSize)
      request.pageSize request.directoriesOnly (host.scandir realTarget).raises
      (host.scandir realTarget).entries scanStart with
  | error e =>
      rw [scanned] at read
      cases read
  | ok q =>
      rw [scanned] at read
      cases read
      obtain ⟨names, more⟩ := scanPage_eq_ok (scanStart_counted _ _) scanned
      rw [names, more]
      simp [scanStart]

theorem listDirectory_eq_ok (listed : (listDirectory host db request).1 = .ok response) :
    ∃ root realRoot realTarget, Located host db request root realRoot realTarget ∧
      readPage host request realTarget = .ok (response.entries, response.hasMore) ∧
      (listDirectory host db request).2 = [.directory (requestedRoot request) request.mountId
        request.subdir realRoot realTarget request.page request.pageSize request.directoriesOnly
        response.entries.length response.hasMore] := by
  rw [listDirectory] at listed ⊢
  cases trusted : trustedRoot host db request with
  | error failure =>
      rw [trusted] at listed
      cases listed
  | ok root =>
      rw [trusted] at listed
      dsimp only at listed ⊢
      cases resolved : resolveRoot host request root with
      | error failure =>
          rw [resolved] at listed
          cases listed
      | ok real =>
          rw [resolved] at listed
          dsimp only at listed ⊢
          cases read : readPage host request real.2 with
          | error failure =>
              rw [read] at listed
              cases listed
          | ok page =>
              rw [read] at listed
              cases listed
              exact ⟨root, real.1, real.2, ⟨trusted, resolved⟩, read, rfl⟩

/-- Where a request leads does not depend on the page. -/
theorem Located.page {root realRoot realTarget : Str} (page : Nat)
    (located : Located host db request root realRoot realTarget) :
    Located host db { request with page := page } root realRoot realTarget :=
  ⟨located.trusted, located.resolved⟩

theorem Located.unique {root realRoot realTarget root' realRoot' realTarget' : Str}
    (located : Located host db request root realRoot realTarget)
    (also : Located host db request root' realRoot' realTarget') :
    realRoot' = realRoot ∧ realTarget' = realTarget := by
  cases located.trusted.symm.trans also.trusted
  cases located.resolved.symm.trans also.resolved
  exact ⟨rfl, rfl⟩

/-- The first pages of a directory hold its first entries, each once and in the order in which
they are read, and the last of them says whether there are more. -/
theorem pages_partition {n : Nat} {pages : Nat → BrowseResponse}
    (listed : ∀ k ≤ n, (listDirectory host db { request with page := k + 1 }).1 = .ok (pages k)) :
    ∃ root realRoot realTarget, Located host db request root realRoot realTarget ∧
      let names := matchingNames request.directoriesOnly (host.scandir realTarget).entries
      ((List.range (n + 1)).flatMap fun k => (pages k).entries) =
          (names.take ((n + 1) * request.pageSize)).filterMap (statEntry host.lstat realTarget) ∧
        ((pages n).hasMore = true ↔ (n + 1) * request.pageSize < names.length) := by
  obtain ⟨root, realRoot, realTarget, located, -, -⟩ := listDirectory_eq_ok (listed n le_rfl)
  have pages_eq : ∀ k ≤ n, readPage host { request with page := k + 1 } realTarget =
      .ok ((pages k).entries, (pages k).hasMore) := by
    intro k le
    obtain ⟨_, _, target, there, read, -⟩ := listDirectory_eq_ok (listed k le)
    obtain ⟨-, rfl⟩ := (located.page (k + 1)).unique there
    exact read
  refine ⟨root, realRoot, realTarget, located.page request.page, ?_, ?_⟩
  · rw [← Pages.flatMap_pages, List.filterMap_flatMap]
    refine List.flatMap_congr fun k mem => ?_
    exact (readPage_eq_ok (pages_eq k (Nat.le_of_lt_succ (List.mem_range.mp mem)))).1
  · rw [(readPage_eq_ok (pages_eq n le_rfl)).2, Nat.succ_mul]
    rfl

/-- A share with a folder, a link and a file. -/
def caseHost : BrowseHost where
  fs := caseFolder
  depth := 2
  browseAllowedPrefixes := []
  browseMaxDirEntries := 50000
  isActiveMountPoint _ := false
  scandir _ := ⟨[⟨"docs".toList, .ok true⟩, ⟨"link".toList, .ok false⟩,
    ⟨"note".toList, .ok false⟩], none⟩
  lstat path :=
    if path = "/mnt/case/docs".toList then some ⟨.directory, 4096, 5⟩
    else if path = "/mnt/case/link".toList then some ⟨.link, 4, 6⟩
    else if path = "/mnt/case/note".toList then some ⟨.other, 12, 7⟩
    else none

theorem caseProject_named : "P".toList ≠ [] := by decide

def caseDb : Db where
  jobs := .empty
  files := .empty
  assignments := .empty
  drives := .empty
  shares := ⟨[⟨1, ⟨"P".toList, caseProject_named⟩, caseRoot.1, .mounted⟩], 1, by decide, by decide⟩

def caseRequest : BrowseRequest := ⟨none, some 1, [], 1, 2, false⟩

def casePage (k : Nat) : BrowseResponse :=
  ⟨"mount_id:1".toList, [],
    if k = 0 then [⟨"docs".toList, .directory, none, 5⟩, ⟨"link".toList, .symlink, none, 6⟩]
    else [⟨"note".toList, .file, some 12, 7⟩], k + 1, 2, k = 0⟩

theorem pages_partition_case : ∃ root realRoot realTarget,
    Located caseHost caseDb caseRequest root realRoot realTarget ∧
      let names := matchingNames false (caseHost.scandir realTarget).entries
      ((List.range 2).flatMap fun k => (casePage k).entries) =
          (names.take (2 * 2)).filterMap (statEntry caseHost.lstat realTarget) ∧
        ((casePage 1).hasMore = true ↔ 2 * 2 < names.length) := by
  have listed : ∀ k < 2,
      (listDirectory caseHost caseDb { caseRequest with page := k + 1 }).1 = .ok (casePage k) := by
    decide +kernel
  exact @pages_partition caseHost caseDb caseRequest 1 casePage fun k le =>
    listed k (Nat.lt_succ_of_le le)

theorem limit_failure_ne (maxEntries : Nat) (e : OsError) :
    (ScanError.os e).failure maxEntries ≠ ScanError.limit.failure maxEntries := by
  intro same
  cases e with
  | notADirectory =>
      have detail := (Failure.service.inj same).2
      have first := congrArg (fun text : String => text.toList.head?) detail
      simp [toString] at first
  | fileNotFound => cases (Failure.service.inj same).1
  | permission => cases (Failure.service.inj same).1
  | other => cases (Failure.service.inj same).1

theorem listDirectory_of_located {root realRoot realTarget : Str}
    (located : Located host db request root realRoot realTarget) (failure : Failure) :
    (listDirectory host db request).1 = .error failure ↔
      readPage host request realTarget = .error failure := by
  rw [listDirectory, located.trusted]
  dsimp only
  rw [located.resolved]
  dsimp only
  cases readPage host request realTarget with
  | error failure' => constructor <;> intro same <;> rw [Except.error.inj same]
  | ok page => exact ⟨nofun, nofun⟩

/-- A page of a directory that is too large is refused exactly when its entries and one more are
not among those that may be read. -/
theorem page_refused_iff {root realRoot realTarget : Str}
    (located : Located host db request root realRoot realTarget) :
    let entries := (host.scandir realTarget).entries
    let allowed := entries.take host.browseMaxDirEntries
    (listDirectory host db request).1 =
        .error (ScanError.limit.failure host.browseMaxDirEntries) ↔
      host.browseMaxDirEntries ≠ 0 ∧ host.browseMaxDirEntries < entries.length ∧
        (∀ entry ∈ allowed, ∃ listed, matchesEntry request.directoriesOnly entry = .ok listed) ∧
        (matchingNames request.directoriesOnly allowed).length ≤
          (request.page - 1) * request.pageSize + request.pageSize := by
  intro entries allowed
  have scan := @scanPage_eq_limit host.browseMaxDirEntries
    ((request.page - 1) * request.pageSize) request.pageSize request.directoriesOnly
    (host.scandir realTarget).raises (host.scandir realTarget).entries scanStart
    (scanStart_counted _ _) (.inr (Nat.zero_le _))
  have zero : scanStart.matchingEntries = 0 := rfl
  have unseen : host.browseMaxDirEntries - scanStart.seenEntries = host.browseMaxDirEntries := rfl
  rw [zero, Nat.zero_add, unseen] at scan
  rw [listDirectory_of_located located, ← scan, readPage]
  cases scanned : scanPage host.browseMaxDirEntries ((request.page - 1) * request.pageSize)
      request.pageSize request.directoriesOnly (host.scandir realTarget).raises
      (host.scandir realTarget).entries scanStart with
  | ok q => exact ⟨nofun, nofun⟩
  | error e =>
      cases e with
      | limit => exact ⟨fun _ => rfl, fun _ => rfl⟩
      | os e =>
          refine ⟨fun same => ?_, fun same => ?_⟩
          · exact absurd (Except.error.inj same) (limit_failure_ne _ e)
          · cases same

/-- The page is full after the entries that may be read, but whether there are more is not known. -/
theorem page_refused_full :
    (listDirectory { caseHost with browseMaxDirEntries := 2 } caseDb caseRequest).1 =
      .error (ScanError.limit.failure 2) := by
  have located : Located { caseHost with browseMaxDirEntries := 2 } caseDb caseRequest caseRoot.1
      caseRoot.1 caseRoot.1 := ⟨by decide +kernel, by decide +kernel⟩
  refine (page_refused_iff located).mpr ⟨by decide, by decide, ?_, by decide⟩
  exact fun entry _ => ⟨true, rfl⟩

/-! ### What may be listed -/

theorem rstripSlashes_rstripSlashes (path : Str) :
    rstripSlashes (rstripSlashes path) = rstripSlashes path :=
  List.rdropWhile_idempotent _ path

/-- The candidates are the paths that differ in slashes at the end, one of them at most. -/
theorem rstripSlashes_of_mem_candidates {path stored : Str} (mem : stored ∈ mountCandidates path) :
    rstripSlashes stored = rstripSlashes path := by
  have slashed : rstripSlashes (rstripSlashes path ++ ['/']) = rstripSlashes path := by
    rw [rstripSlashes, List.rdropWhile_concat_pos _ _ _ (by decide), ← rstripSlashes,
      rstripSlashes_rstripSlashes]
  rw [mountCandidates] at mem
  split at mem
  · rcases List.mem_pair.mp mem with rfl | rfl
    · exact rstripSlashes_rstripSlashes path
    · exact slashed
  next empty =>
    rw [not_not] at empty
    rcases List.mem_pair.mp mem with rfl | rfl
    · exact rstripSlashes_rstripSlashes path
    · rw [empty]
      rfl

/-- The root of an active mount that is registered for what was asked. -/
inductive Registered (host : BrowseHost) (db : Db) (request : BrowseRequest) : Str → Prop where
  | share {mountId : Nat} {n : NetworkShare} (asked : request.mountId = some mountId)
      (mem : n ∈ db.shares) (same : n.id = mountId) (mounted : n.status = .mounted) :
      Registered host db request (rstripSlashes n.localMountPoint)
  | drive {d : UsbDrive} {mountPath : Str} (asked : request.mountId = none) (mem : d ∈ db.drives)
      (usable : d.currentState = .available ∨ d.currentState = .inUse)
      (stored : d.mountPath = some mountPath)
      (same : rstripSlashes mountPath = rstripSlashes (request.path.getD []))
      (active : host.isActiveMountPoint (rstripSlashes mountPath) = true) :
      Registered host db request (rstripSlashes mountPath)
  | network {n : NetworkShare} (asked : request.mountId = none) (mem : n ∈ db.shares)
      (mounted : n.status = .mounted)
      (same : rstripSlashes n.localMountPoint = rstripSlashes (request.path.getD [])) :
      Registered host db request (rstripSlashes n.localMountPoint)

theorem mountRoot_of_path {path root : Str} {source : RootSource}
    (found : lookupMountRoot db path = (some root, source)) :
    (source = .usbDrive ∧ ∃ d ∈ db.drives,
      (d.currentState = .available ∨ d.currentState = .inUse) ∧ ∃ mountPath,
        d.mountPath = some mountPath ∧ rstripSlashes mountPath = rstripSlashes path ∧
          root = rstripSlashes mountPath) ∨
      source = .networkMount ∧ ∃ n ∈ db.shares, n.status = .mounted ∧
        rstripSlashes n.localMountPoint = rstripSlashes path ∧
          root = rstripSlashes n.localMountPoint := by
  rw [lookupMountRoot] at found
  dsimp only at found
  split at found
  next mountPath usb =>
    cases found
    obtain ⟨stored, -⟩ := Option.filter_eq_some_iff.mp usb
    obtain ⟨d, first, at_⟩ := Option.bind_eq_some_iff.mp stored
    have holds := List.find?_some first
    rw [Bool.and_eq_true, at_, Option.any_some, decide_eq_true_eq, decide_eq_true_eq] at holds
    refine .inl ⟨rfl, d, List.mem_of_find?_eq_some first, ?_, mountPath, at_,
      rstripSlashes_of_mem_candidates holds.1, rfl⟩
    simpa using holds.2
  next =>
    split at found
    next n first =>
      cases found
      have holds := List.find?_some first
      rw [decide_eq_true_eq] at holds
      exact .inr ⟨rfl, n, List.mem_of_find?_eq_some first, holds.1,
        rstripSlashes_of_mem_candidates holds.2.2, rfl⟩
    next => cases found

theorem registered_of_trusted {root : Str} (trusted : trustedRoot host db request = .ok root) :
    Registered host db request root := by
  rw [trustedRoot] at trusted
  simp only [bind_eq_ok, orReject_eq_ok, ensure_eq_ok, pure_eq_ok] at trusted
  obtain ⟨_, found, _, active, rfl⟩ := trusted
  rw [mountRoot] at found active
  cases asked : request.mountId with
  | some mountId =>
      rw [asked] at found
      obtain ⟨n, first, rfl⟩ := Option.map_eq_some_iff.mp found
      have holds := List.find?_some first
      rw [decide_eq_true_eq] at holds
      exact .share asked (List.mem_of_find?_eq_some first) holds.1 holds.2.1
  | none =>
      rw [asked] at found active
      dsimp only at found active
      have both : lookupMountRoot db (request.path.getD []) =
          (some _, (lookupMountRoot db (request.path.getD [])).2) := Prod.ext found rfl
      rcases mountRoot_of_path both with
        ⟨usb, d, mem, usable, mountPath, stored, same, rfl⟩ | ⟨-, n, mem, mounted, same, rfl⟩
      · exact .drive asked mem usable stored same (active usb)
      · exact .network asked mem mounted same

theorem checked_of_resolved {root realRoot realTarget : Str}
    (resolved : resolveRoot host request root = .ok (realRoot, realTarget)) :
    Checked host.fs host.depth root request.subdir realRoot realTarget := by
  rw [resolveRoot] at resolved
  split at resolved
  next safe =>
    cases accepted : resolveAndValidate host.fs host.depth host.browseAllowedPrefixes ⟨root, safe⟩
        request.subdir with
    | error refusal =>
        rw [accepted] at resolved
        cases resolved
    | ok real =>
        rw [accepted] at resolved
        cases resolved
        exact checked_of_accepted accepted
  next => cases resolved

/-- A refusal is recorded when it is a 403, and only then. -/
theorem audits_of_refused {failure : Failure}
    (refused : (listDirectory host db request).1 = .error failure) :
    ∃ realRoot resolvedPath, (listDirectory host db request).2 =
      deniedAudit request realRoot resolvedPath failure := by
  rw [listDirectory] at refused ⊢
  split
  next failure' trusted =>
    rw [trusted] at refused
    cases refused
    exact ⟨none, none, rfl⟩
  next root trusted =>
    rw [trusted] at refused
    dsimp only at refused
    split
    next failure' resolved =>
      rw [resolved] at refused
      cases refused
      exact ⟨none, none, rfl⟩
    next realRoot realTarget resolved =>
      rw [resolved] at refused
      dsimp only at refused
      split
      next failure' read =>
        rw [read] at refused
        cases refused
        exact ⟨some realRoot, some realTarget, rfl⟩
      next read =>
        rw [read] at refused
        cases refused

/-- What is listed are entries of a directory that lies, by names and without a link that can be
seen, in the active mount of a registered drive or share, and one record tells of it. A refusal
with 403 leaves one record and any other refusal none. -/
theorem listing_authorised (host : BrowseHost) (db : Db) (request : BrowseRequest) :
    match listDirectory host db request with
    | (.ok response, audits) => ∃ root realRoot realTarget, Registered host db request root ∧
        Checked host.fs host.depth root request.subdir realRoot realTarget ∧
        comps realRoot <+: comps realTarget ∧
        (∀ entry ∈ response.entries, ∃ name ∈ matchingNames request.directoriesOnly
          (host.scandir realTarget).entries, statEntry host.lstat realTarget name = some entry) ∧
        audits = [.directory (requestedRoot request) request.mountId request.subdir realRoot
          realTarget request.page request.pageSize request.directoriesOnly
          response.entries.length response.hasMore]
    | (.error failure, audits) =>
        ∃ realRoot resolvedPath, audits = deniedAudit request realRoot resolvedPath failure := by
  cases outcome : listDirectory host db request with
  | mk result audits =>
      cases result with
      | error failure =>
          have record := @audits_of_refused host db request failure (by rw [outcome])
          rwa [outcome] at record
      | ok response =>
          obtain ⟨root, realRoot, realTarget, located, read, record⟩ :=
            @listDirectory_eq_ok host db request response (by rw [outcome])
          have checked := checked_of_resolved located.resolved
          rw [outcome] at record
          refine ⟨root, realRoot, realTarget, registered_of_trusted located.trusted, checked,
            below_of_contained checked.contained, fun entry mem => ?_, record⟩
          rw [(readPage_eq_ok read).1] at mem
          obtain ⟨name, within, stat⟩ := List.mem_filterMap.mp mem
          exact ⟨name, List.mem_of_mem_drop (List.mem_of_mem_take within), stat⟩

end Listing

end Ecube.Browse
