import Ecube.Interleaving.CopyRun
import Ecube.Services.Shares

/-!
Configured shares under concurrent requests (`add_share`, `update_share`,
`validate_share` and `remove_share`).

A request has a database session of its own. It loads its row, takes the
advisory lock if it checks for conflicts, checks them against the committed
rows, and commits; the lock is released with the transaction. A commit writes
the columns that differ from what the session has loaded.

`isolated_of_guarded`: the shares stay isolated throughout a run in which no
update commits to a row whose source or project has changed since it was
loaded. The row is loaded before the lock is taken and not read again, so that
two updates of one share may each write a part of it, and only the parts were
checked together with the other shares (`updates_mixed`).
-/

namespace Ecube.ShareIsolation

open PosixPath Transition Table

/-- What the shares are for: sources differ, on one host the shares of different
projects contain no directory of each other, and no mount point is used twice. -/
structure Compatible (lower : Str → Str) (m m' : NetworkMount) : Prop where
  apart : SourcesApart (m.reference lower) (m'.reference lower) m.projectId m'.projectId
  mountPoint : m.localMountPoint ≠ m'.localMountPoint

def Isolated (lower : Str → Str) (shares : Table NetworkMount) : Prop :=
  ∀ m ∈ shares, ∀ m' ∈ shares, m.id ≠ m'.id → Compatible lower m m'

/-! ### Requests -/

inductive Request where
  | add (data : ShareData)
  | update (mountId : Nat) (data : ShareData)
  | validate (mountId : Nat) (data : Option ShareData)
  | remove (mountId : Nat)
  deriving DecidableEq, Repr

/-- The share a request loads when it starts. -/
def Request.mountId : Request → Option Nat
  | .add _ => none
  | .update mountId _ | .validate mountId _ | .remove mountId => some mountId

/-- The source a request checks for conflicts. -/
def Request.checks : Request → Option ShareData
  | .add data | .update _ data => some data
  | .validate _ data => data
  | .remove _ => none

inductive Stage where
  | loaded | locked | checked | finished
  deriving DecidableEq, Repr

/-- A request with the row in its session and the mount point it has chosen. -/
structure Session where
  request : Request
  row : Option NetworkMount
  stage : Stage
  mountPoint : Str
  deriving DecidableEq, Repr

/-- The committed rows, the session that holds the advisory lock, and all sessions. -/
structure State where
  shares : Table NetworkMount
  holder : Option Nat
  sessions : List Session

/-- The installation: the directory of managed mounts, the default NFS version and
the encryption of credentials. -/
structure Site where
  lower : Str → Str
  encrypt : Str → Str
  mountRoot : Str
  nfsClientVersion : Option Str

namespace State

def setSession (s : State) (k : Nat) (session : Session) : State :=
  { s with sessions := s.sessions.set k session }

/-- The session ends, and its transaction with it. -/
def finish (s : State) (k : Nat) (session : Session) : State :=
  { s.setSession k { session with stage := .finished } with
    holder := if s.holder = some k then none else s.holder }

end State

/-! ### Commits -/

/-- The row a create request inserts. -/
def newMount (site : Site) (data : ShareData) (mountPoint : Str) (status : MountStatus)
    (now k : Nat) : NetworkMount where
  id := k
  projectId := data.projectId
  localMountPoint := mountPoint
  status := status
  type := data.type
  remotePath := data.remotePath
  nfsClientVersion := storedNfsClientVersion site.nfsClientVersion data.type data.nfsClientVersion
  encrypted := applyEncryptedMountCredentials site.encrypt ⟨none, none, none⟩ data false
  lastCheckedAt := some now

theorem newMount_id (site : Site) (data : ShareData) (mountPoint : Str) (status : MountStatus)
    (now k : Nat) : (newMount site data mountPoint status now k).id = k := rfl

/-- The row of an update as its session sees it. -/
def updatedMount (site : Site) (data : ShareData) (status : MountStatus) (now : Nat)
    (m : NetworkMount) : NetworkMount :=
  { m with
    type := data.type
    remotePath := data.remotePath
    projectId := data.projectId
    nfsClientVersion := storedNfsClientVersion site.nfsClientVersion data.type data.nfsClientVersion
    encrypted := applyEncryptedMountCredentials site.encrypt m.encrypted data true
    status := status
    lastCheckedAt := some now }

/-- The columns that a session has changed are written. -/
def flushMount (loaded new row : NetworkMount) : NetworkMount :=
  { row with
    type := flush loaded.type new.type row.type
    remotePath := flush loaded.remotePath new.remotePath row.remotePath
    projectId := flush loaded.projectId new.projectId row.projectId
    nfsClientVersion := flush loaded.nfsClientVersion new.nfsClientVersion row.nfsClientVersion
    encrypted :=
      { username := flush loaded.encrypted.username new.encrypted.username row.encrypted.username
        password := flush loaded.encrypted.password new.encrypted.password row.encrypted.password
        credentialsFile := flush loaded.encrypted.credentialsFile new.encrypted.credentialsFile
          row.encrypted.credentialsFile }
    status := flush loaded.status new.status row.status
    lastCheckedAt := flush loaded.lastCheckedAt new.lastCheckedAt row.lastCheckedAt }

theorem flushMount_id (loaded new row : NetworkMount) : (flushMount loaded new row).id = row.id :=
  rfl

/-- What the commit of a session leaves. A mount point that is taken and a row
that is gone make it fail. -/
def written (site : Site) (shares : Table NetworkMount) (session : Session) (status : MountStatus)
    (now : Nat) : Table NetworkMount :=
  match session.request, session.row with
  | .add data, _ =>
      if shares.any fun m => m.localMountPoint = session.mountPoint then shares
      else shares.insert (newMount site data session.mountPoint status now)
        (newMount_id site data session.mountPoint status now)
  | .update mountId data, some loaded =>
      shares.modify mountId (flushMount loaded (updatedMount site data status now loaded))
        (flushMount_id loaded (updatedMount site data status now loaded))
  | .validate mountId none, some loaded =>
      shares.modify mountId
        (flushMount loaded { loaded with status := status, lastCheckedAt := some now })
        (flushMount_id loaded { loaded with status := status, lastCheckedAt := some now })
  | .validate mountId (some _), some loaded =>
      shares.modify mountId (flushMount loaded { loaded with lastCheckedAt := some now })
        (flushMount_id loaded { loaded with lastCheckedAt := some now })
  | .remove mountId, some _ => shares.delete fun m => m.id = mountId
  | _, none => shares

/-! ### Steps -/

/-- A step of a session. Its commit carries the outcome of the mount and the
clock; a session may fail at any time, which rolls it back. -/
inductive Action where
  | start (request : Request)
  | lock (k : Nat)
  | check (k : Nat)
  | commit (k : Nat) (status : MountStatus) (now : Nat)
  | fail (k : Nat)

/-- A session at the given stage. -/
def State.atStage (s : State) (k : Nat) (stage : Stage) : Option Session :=
  (s.sessions[k]?).filter fun session => session.stage = stage

/-- The stage in which a session commits. -/
def Request.lastStage (request : Request) : Stage :=
  if request.checks.isSome then .checked else .loaded

def step (site : Site) (s : State) : Action → State
  | .start request =>
      let row := request.mountId.bind s.shares.get
      let stage := if request.mountId.isSome ∧ row = none then Stage.finished else .loaded
      { s with sessions := s.sessions ++ [⟨request, row, stage, []⟩] }
  | .lock k =>
      match s.atStage k .loaded with
      | none => s
      | some session =>
          if session.request.checks.isSome ∧ s.holder = none then
            { s.setSession k { session with stage := .locked } with holder := some k }
          else s
  | .check k =>
      match s.atStage k .locked with
      | none => s
      | some session =>
          match session.request.checks with
          | none => s
          | some data =>
              match validateRemotePathConflicts site.lower data.type data.remotePath data.projectId
                  session.request.mountId s.shares.rows with
              | .error _ => s.finish k session
              | .ok () =>
                  s.setSession k { session with
                    stage := .checked
                    mountPoint := generateLocalMountPoint site.mountRoot data.type data.remotePath
                      (s.shares.rows.map fun m => m.localMountPoint) }
  | .commit k status now =>
      match s.sessions[k]? with
      | none => s
      | some session =>
          if session.stage = session.request.lastStage then
            { s.finish k session with shares := written site s.shares session status now }
          else s
  | .fail k =>
      match s.sessions[k]? with
      | none => s
      | some session => s.finish k session

/-- No share has been configured. -/
def initial : State := ⟨.empty, none, []⟩

/-- The row that an update writes has the source and the project it has loaded. -/
def Session.Current (shares : Table NetworkMount) (session : Session) : Prop :=
  match session.request, session.row with
  | .update mountId _, some loaded => ∀ row ∈ shares.get mountId,
      row.type = loaded.type ∧ row.remotePath = loaded.remotePath ∧ row.projectId = loaded.projectId
  | _, _ => True

/-- An update commits to a row as it has loaded it. -/
def WritesLoaded (s : State) : Action → Prop
  | .commit k _ _ => ∀ session ∈ s.atStage k .checked, session.Current s.shares
  | _ => True

instance (shares : Table NetworkMount) (session : Session) :
    Decidable (session.Current shares) := by
  unfold Session.Current
  split <;> infer_instance

instance (s : State) (a : Action) : Decidable (WritesLoaded s a) :=
  match a with
  | .commit k _ _ => inferInstanceAs (Decidable (∀ session ∈ s.atStage k .checked, _))
  | .start _ | .lock _ | .check _ | .fail _ => inferInstanceAs (Decidable True)

/-! ### Rows -/

section Rows

variable {lower : Str → Str} {shares shares' : Table NetworkMount} {site : Site}

/-- The source may be configured beside the shares, the ignored one aside. -/
def Clear (lower : Str → Str) (shares : Table NetworkMount) (ignored : Option Nat)
    (data : ShareData) : Prop :=
  ∀ m ∈ shares, some m.id ≠ ignored → SourcesApart
    (normalizeRemoteReference lower data.type data.remotePath) (m.reference lower) data.projectId
    m.projectId

/-- A row with the source, the project and the mount point of another. -/
structure SameShare (m m' : NetworkMount) : Prop where
  id : m'.id = m.id
  type : m'.type = m.type
  remotePath : m'.remotePath = m.remotePath
  projectId : m'.projectId = m.projectId
  localMountPoint : m'.localMountPoint = m.localMountPoint

theorem SameShare.refl (m : NetworkMount) : SameShare m m := ⟨rfl, rfl, rfl, rfl, rfl⟩

theorem SameShare.reference {m m' : NetworkMount} (h : SameShare m m') :
    m'.reference lower = m.reference lower := by
  rw [NetworkMount.reference, NetworkMount.reference, h.type, h.remotePath]

/-- No share is added, and none is moved. -/
def Keeps (shares shares' : Table NetworkMount) : Prop :=
  ∀ m' ∈ shares', ∃ m ∈ shares, SameShare m m'

theorem Keeps.refl (shares : Table NetworkMount) : Keeps shares shares :=
  fun m hm => ⟨m, hm, .refl m⟩

theorem Isolated.of_keeps (h : Isolated lower shares) (keeps : Keeps shares shares') :
    Isolated lower shares' := by
  intro a' ha' b' hb' ne
  obtain ⟨a, ha, sameA⟩ := keeps a' ha'
  obtain ⟨b, hb, sameB⟩ := keeps b' hb'
  have compatible := h a ha b hb fun same => ne (sameA.id.trans (same.trans sameB.id.symm))
  constructor
  · rw [sameA.reference, sameB.reference, sameA.projectId, sameB.projectId]
    exact compatible.apart
  · rw [sameA.localMountPoint, sameB.localMountPoint]
    exact compatible.mountPoint

theorem Clear.of_keeps {ignored : Option Nat} {data : ShareData}
    (h : Clear lower shares ignored data) (keeps : Keeps shares shares') :
    Clear lower shares' ignored data := by
  intro m' hm' ne
  obtain ⟨m, hm, same⟩ := keeps m' hm'
  rw [same.reference, same.projectId]
  exact h m hm (same.id ▸ ne)

/-- A commit that changes neither source nor project of its row. -/
theorem keeps_modify {k : Nat} {f : NetworkMount → NetworkMount} {key : ∀ m, (f m).id = m.id}
    (same : ∀ m, SameShare m (f m)) : Keeps shares (shares.modify k f key) := by
  intro m' hm'
  rcases (mem_modify key).mp hm' with ⟨hm, -⟩ | ⟨m, hm, -, rfl⟩
  · exact ⟨m', hm, .refl m'⟩
  · exact ⟨m, hm, same m⟩

theorem flush_unchanged {α : Type} [DecidableEq α] (loaded row : α) :
    flush loaded loaded row = row := if_pos rfl

/-- Only additions and updates change sources, projects or mount points. -/
theorem keeps_written {session : Session} {status : MountStatus} {now : Nat}
    (passive : ∀ data, session.request ≠ .add data)
    (still : ∀ mountId data, session.request ≠ .update mountId data) :
    Keeps shares (written site shares session status now) := by
  rw [written]
  split
  next data request => exact absurd request (passive data)
  next mountId data _ request _ => exact absurd request (still mountId data)
  next =>
    refine keeps_modify fun m => ⟨rfl, ?_, ?_, ?_, rfl⟩ <;> exact flush_unchanged _ _
  next =>
    refine keeps_modify fun m => ⟨rfl, ?_, ?_, ?_, rfl⟩ <;> exact flush_unchanged _ _
  next => exact fun m hm => ⟨m, (mem_delete.mp hm).1, .refl m⟩
  next => exact .refl shares

theorem Isolated.insert {data : ShareData} {mountPoint : Str} {status : MountStatus} {now : Nat}
    (h : Isolated lower shares) (clear : Clear lower shares none data)
    (free : shares.any (fun m => m.localMountPoint = mountPoint) = false) :
    Isolated lower (shares.insert (newMount site data mountPoint status now)
      (newMount_id site data mountPoint status now)) := by
  have new : ∀ m ∈ shares, Compatible lower
      (newMount site data mountPoint status now (shares.seq + 1)) m := by
    intro m hm
    refine ⟨clear m hm nofun, fun same => ?_⟩
    have taken := any_eq_false_iff.mp free m hm
    rw [decide_eq_false_iff_not] at taken
    exact taken same.symm
  intro a ha b hb ne
  rcases (mem_insert _).mp ha with ha | rfl
  · rcases (mem_insert _).mp hb with hb | rfl
    · exact h a ha b hb ne
    · exact ⟨(new a ha).apart.symm, (new a ha).mountPoint.symm⟩
  · rcases (mem_insert _).mp hb with hb | rfl
    · exact new b hb
    · exact absurd rfl ne

/-- A row that is rewritten with a source beside all others. -/
theorem Isolated.modify {data : ShareData} {k : Nat} {f : NetworkMount → NetworkMount}
    {key : ∀ m, (f m).id = m.id} (h : Isolated lower shares)
    (clear : Clear lower shares (some k) data)
    (sets : ∀ m ∈ shares.get k, (f m).type = data.type ∧ (f m).remotePath = data.remotePath ∧
      (f m).projectId = data.projectId ∧ (f m).localMountPoint = m.localMountPoint) :
    Isolated lower (shares.modify k f key) := by
  have moved : ∀ r ∈ shares, r.id = k → ∀ m ∈ shares, m.id ≠ k → Compatible lower (f r) m := by
    intro r hr own m hm other
    obtain ⟨type, remotePath, projectId, mountPoint⟩ := sets r (get_eq_some_iff.mpr ⟨hr, own⟩)
    constructor
    · rw [NetworkMount.reference, type, remotePath, projectId]
      exact clear m hm fun same => other (Option.some.inj same)
    · rw [mountPoint]
      exact (h r hr m hm fun same => other (same.symm.trans own)).mountPoint
  intro a ha b hb ne
  rcases (mem_modify key).mp ha with ⟨ha, otherA⟩ | ⟨r, hr, own, rfl⟩
  · rcases (mem_modify key).mp hb with ⟨hb, -⟩ | ⟨r', hr', own', rfl⟩
    · exact h a ha b hb ne
    · have compatible := moved r' hr' own' a ha otherA
      exact ⟨compatible.apart.symm, compatible.mountPoint.symm⟩
  · rcases (mem_modify key).mp hb with ⟨hb, otherB⟩ | ⟨r', hr', own', rfl⟩
    · exact moved r hr own b hb otherB
    · refine absurd ?_ ne
      rw [key, key]
      exact own.trans own'.symm

end Rows

/-! ### Sessions -/

/-- The shares are isolated, a session that has taken the lock holds it, and what
a session has checked is still so. -/
structure IsolationInv (site : Site) (s : State) : Prop where
  isolated : Isolated site.lower s.shares
  holds : ∀ (k : Nat) (session : Session), s.sessions[k]? = some session →
    session.stage = .locked ∨ session.stage = .checked → s.holder = some k
  checked : ∀ (k : Nat) (session : Session), s.sessions[k]? = some session →
    session.stage = .checked → ∀ data, session.request.checks = some data →
      Clear site.lower s.shares session.request.mountId data

section Steps

variable {site : Site} {s : State} {k : Nat} {session : Session}

theorem atStage_eq_some {stage : Stage} (h : s.atStage k stage = some session) :
    s.sessions[k]? = some session ∧ session.stage = stage := by
  obtain ⟨found, at_⟩ := Option.filter_eq_some_iff.mp h
  exact ⟨found, of_decide_eq_true at_⟩

theorem getElem?_setSession {i : Nat} {session' new : Session}
    (h : (s.setSession k new).sessions[i]? = some session') :
    (i = k ∧ session' = new) ∨ (i ≠ k ∧ s.sessions[i]? = some session') := by
  rw [State.setSession, List.getElem?_set] at h
  by_cases same : k = i
  · rw [if_pos same] at h
    split at h
    · exact .inl ⟨same.symm, (Option.some.inj h).symm⟩
    · cases h
  · rw [if_neg same] at h
    exact .inr ⟨Ne.symm same, h⟩

namespace IsolationInv

/-- A session ends. What the others have checked stays so, unless the session
held the lock, in which case there is no other. -/
theorem finish {shares : Table NetworkMount} (inv : IsolationInv site s)
    (isolated : Isolated site.lower shares)
    (keeps : s.holder = some k ∨ Keeps s.shares shares) :
    IsolationInv site { s.finish k session with shares := shares } := by
  refine ⟨isolated, fun i session' found stage => ?_, fun i session' found stage data checks => ?_⟩
  · rcases getElem?_setSession found with ⟨rfl, rfl⟩ | ⟨other, old⟩
    · rcases stage with stage | stage <;> cases stage
    · have holder := inv.holds i session' old stage
      change (if s.holder = some k then none else s.holder) = some i
      rw [holder, if_neg fun same => other (Option.some.inj same)]
  · rcases getElem?_setSession found with ⟨rfl, rfl⟩ | ⟨other, old⟩
    · cases stage
    · have holder := inv.holds i session' old (.inr stage)
      have clear := inv.checked i session' old stage data checks
      rcases keeps with mine | keeps
      · exact absurd (Option.some.inj (holder.symm.trans mine)) other
      · exact clear.of_keeps keeps

theorem stay_finish (inv : IsolationInv site s) : IsolationInv site (s.finish k session) :=
  inv.finish inv.isolated (.inr (.refl s.shares))

theorem start {request : Request} (inv : IsolationInv site s) :
    IsolationInv site (ShareIsolation.step site s (.start request)) := by
  have old : ∀ (i : Nat) (session' : Session),
      (ShareIsolation.step site s (.start request)).sessions[i]? = some session' →
      session'.stage = .locked ∨ session'.stage = .checked → s.sessions[i]? = some session' := by
    intro i session' found stage
    simp only [ShareIsolation.step, List.getElem?_append] at found
    split at found
    · exact found
    · rw [List.getElem?_singleton] at found
      split at found
      · cases found
        dsimp only at stage
        split at stage <;> rcases stage with stage | stage <;> cases stage
      · cases found
  exact ⟨inv.isolated,
    fun i session' found stage => inv.holds i session' (old i session' found stage) stage,
    fun i session' found stage => inv.checked i session' (old i session' found (.inr stage)) stage⟩

theorem lock (inv : IsolationInv site s) (found : s.atStage k .loaded = some session)
    (free : s.holder = none) :
    IsolationInv site
      { s.setSession k { session with stage := .locked } with holder := some k } := by
  refine ⟨inv.isolated, fun i session' new stage => ?_, fun i session' new stage data checks => ?_⟩
  · rcases getElem?_setSession new with ⟨rfl, rfl⟩ | ⟨-, old⟩
    · rfl
    · rw [inv.holds i session' old stage] at free
      cases free
  · rcases getElem?_setSession new with ⟨rfl, rfl⟩ | ⟨-, old⟩
    · cases stage
    · exact inv.checked i session' old stage data checks

theorem check {data : ShareData} {mountPoint : Str} (inv : IsolationInv site s)
    (found : s.atStage k .locked = some session) (checks : session.request.checks = some data)
    (valid : validateRemotePathConflicts site.lower data.type data.remotePath data.projectId
      session.request.mountId s.shares.rows = .ok ()) :
    IsolationInv site
      (s.setSession k { session with stage := .checked, mountPoint := mountPoint }) := by
  obtain ⟨old, locked⟩ := atStage_eq_some found
  refine ⟨inv.isolated, fun i session' new stage => ?_, fun i session' new stage data' mine => ?_⟩
  · rcases getElem?_setSession new with ⟨rfl, rfl⟩ | ⟨-, old⟩
    · exact inv.holds i session old (.inl locked)
    · exact inv.holds i session' old stage
  · rcases getElem?_setSession new with ⟨rfl, rfl⟩ | ⟨-, old⟩
    · cases checks.symm.trans mine
      exact validateRemotePathConflicts_eq_ok.mp valid
    · exact inv.checked i session' old stage data' mine

/-- What a commit leaves is isolated. -/
theorem isolated_written {status : MountStatus} {now : Nat} (inv : IsolationInv site s)
    (found : s.sessions[k]? = some session) (last : session.stage = session.request.lastStage)
    (guard : WritesLoaded s (.commit k status now)) :
    Isolated site.lower (written site s.shares session status now) := by
  cases request : session.request with
  | add data =>
      have stage : session.stage = .checked := by rw [last, request]; rfl
      have clear := inv.checked k session found stage data (by rw [request]; rfl)
      rw [request] at clear
      rw [written, request]
      dsimp only
      split
      · exact inv.isolated
      · exact inv.isolated.insert clear (Bool.eq_false_iff.mpr ‹_›)
  | update mountId data =>
      have stage : session.stage = .checked := by rw [last, request]; rfl
      have clear := inv.checked k session found stage data (by rw [request]; rfl)
      rw [request] at clear
      rw [written, request]
      cases row : session.row with
      | none => exact inv.isolated
      | some loaded =>
          apply inv.isolated.modify clear
          intro m hm
          -- The row is as it was loaded, so that all three columns are the request's.
          have at_ : s.atStage k .checked = some session :=
            Option.filter_eq_some_iff.mpr ⟨found, decide_eq_true stage⟩
          have current := guard session at_
          rw [Session.Current, request, row] at current
          obtain ⟨type, remotePath, projectId⟩ := current m hm
          simp only [flushMount, updatedMount, type, remotePath, projectId, flush_self, and_self]
  | validate mountId data =>
      exact inv.isolated.of_keeps (keeps_written (by simp [request]) (by simp [request]))
  | remove mountId =>
      exact inv.isolated.of_keeps (keeps_written (by simp [request]) (by simp [request]))

theorem commit {status : MountStatus} {now : Nat} (inv : IsolationInv site s)
    (found : s.sessions[k]? = some session) (last : session.stage = session.request.lastStage)
    (guard : WritesLoaded s (.commit k status now)) :
    IsolationInv site
      { s.finish k session with shares := written site s.shares session status now } := by
  refine inv.finish (inv.isolated_written found last guard) ?_
  by_cases checks : session.request.checks.isSome = true
  · rw [Request.lastStage, if_pos checks] at last
    exact .inl (inv.holds k session found (.inr last))
  · refine .inr (keeps_written ?_ ?_)
    · intro data request
      rw [request] at checks
      exact checks rfl
    · intro mountId data request
      rw [request] at checks
      exact checks rfl

theorem step {a : Action} (inv : IsolationInv site s) (guard : WritesLoaded s a) :
    IsolationInv site (ShareIsolation.step site s a) := by
  cases a with
  | start request => exact inv.start
  | lock k =>
      rw [ShareIsolation.step]
      split
      · exact inv
      · split
        next enabled => exact inv.lock ‹_› enabled.2
        next => exact inv
  | check k =>
      rw [ShareIsolation.step]
      split
      · exact inv
      · split
        · exact inv
        · split
          · exact inv.stay_finish
          · exact inv.check ‹_› ‹_› ‹_›
  | commit k status now =>
      rw [ShareIsolation.step]
      split
      · exact inv
      · split
        · exact inv.commit ‹_› ‹_› guard
        · exact inv
  | fail k =>
      rw [ShareIsolation.step]
      split
      · exact inv
      · exact inv.stay_finish

end IsolationInv

end Steps

/-- The shares are isolated in every state of a run in which no update commits
to a row whose source or project has changed since it was loaded. -/
theorem isolated_of_guarded {site : Site} {actions : List Action}
    (guarded : Along (step site) WritesLoaded initial actions) :
    Always (step site) (fun s => Isolated site.lower s.shares) initial actions := by
  have none : ∀ (k : Nat) (session : Session), initial.sessions[k]? ≠ some session := by
    simp [initial]
  have start : IsolationInv site initial :=
    ⟨fun m hm => absurd hm List.not_mem_nil, fun k session found => absurd found (none k session),
      fun k session found => absurd found (none k session)⟩
  have always := always_of_along (fun _ _ inv guard => inv.step guard) start guarded
  exact always.mono fun _ inv => inv.isolated

/-! ### Two updates of one share -/

/-- An installation for ASCII host names. -/
def site : Site := ⟨List.map Char.toLower, List.reverse, "/mnt/shares".toList, none⟩

def nfsShare (remotePath : String) (projectId : ProjectId) : ShareData :=
  ⟨.nfs, remotePath.toList, projectId, none, none, none, none⟩

/-- From the lock to the commit. -/
def complete (k : Nat) : List Action := [.lock k, .check k, .commit k .mounted 1]

/-- A share is configured, moved to another directory and to another project,
one request after the other, and removed. -/
def oneByOne : List Action :=
  .start (.add (nfsShare "h:/a" Lab.projectP)) :: complete 0 ++
    .start (.update 1 (nfsShare "h:/b" Lab.projectP)) :: complete 1 ++
    .start (.update 1 (nfsShare "H:/b/" Lab.projectQ)) :: complete 2 ++
    [.start (.validate 1 none), .commit 3 .mounted 2, .start (.remove 1), .commit 4 .unmounted 3]

/-- One update moves the share and another, which has loaded it before, gives it
to another project. In between a directory below the new place is configured. -/
def interleaved : List Action :=
  .start (.add (nfsShare "h:/a" Lab.projectP)) :: complete 0 ++
    .start (.update 1 (nfsShare "h:/a" Lab.projectQ)) ::
    .start (.update 1 (nfsShare "h:/b" Lab.projectP)) :: complete 2 ++
    .start (.add (nfsShare "h:/b/x" Lab.projectP)) :: complete 3 ++ complete 1

theorem isolated_of_guarded_oneByOne :
    Along (step site) WritesLoaded initial oneByOne ∧
      Always (step site) (fun s => Isolated site.lower s.shares) initial oneByOne := by
  have guarded : Along (step site) WritesLoaded initial oneByOne := by decide
  exact ⟨guarded, isolated_of_guarded guarded⟩

/-- The share has the directory of one update and the project of the other. -/
theorem updates_mixed :
    ¬ ∀ (site : Site) (actions : List Action),
        Always (step site) (fun s => Isolated site.lower s.shares) initial actions := by
  intro isolated
  have last := (isolated site interleaved).last
  have nested : ∃ m ∈ (exec (step site) initial interleaved).shares,
      ∃ m' ∈ (exec (step site) initial interleaved).shares, m.id ≠ m'.id ∧
        m.projectId ≠ m'.projectId ∧
        (m.reference site.lower).type = (m'.reference site.lower).type ∧
        (m.reference site.lower).host = (m'.reference site.lower).host ∧
        comps (m.reference site.lower).path <+: comps (m'.reference site.lower).path := by
    decide
  obtain ⟨m, hm, m', hm', ne, projects, type, host, below⟩ := nested
  exact (last m hm m' hm' ne).apart.disjoint projects type host (.inl below)

end Ecube.ShareIsolation
