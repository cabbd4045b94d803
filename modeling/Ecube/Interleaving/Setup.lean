import Ecube.Basic.PosixPath
import Ecube.Basic.Transition

/-!
First-run setup (`initialize_system` of `app/routers/setup.py`).

Every database statement with its commit and every call to the operating system
is a step of its own; requests of any number of processes take their steps in any
order. The guard across processes is the single row of `system_initialization`,
the guard within a process a lock. Logging is left out.
-/

namespace Ecube.Setup

open PosixPath Transition

/-! ### Requests -/

inductive Outcome where
  /-- "created_admin_user" or "reconciled_existing_user" -/
  | initialized
  /-- "already_initialized" -/
  | alreadyInitialized
  /-- 409: the process lock is held, or the row exists -/
  | conflict
  /-- any other error -/
  | failed
  deriving DecidableEq, Repr

structure DemoAccount where
  username : Str
  admin : Bool
  deriving DecidableEq, Repr

/-- The demo settings: the accounts, and whether the host's users are local. -/
structure DemoSettings where
  accounts : List DemoAccount
  localUsers : Bool
  deriving DecidableEq, Repr

/-- The commits and calls of `seed_runtime_demo_environment`. -/
inductive DemoWrite where
  | deleteRoles (usernames : List Str)
  | ensureGroups
  | setRoles (account : DemoAccount)
  | reconcileUser (username : Str)
  | audit
  deriving DecidableEq, Repr

def demoWrites (demo : DemoSettings) : List DemoWrite :=
  .deleteRoles (demo.accounts.map DemoAccount.username) ::
    (if demo.localUsers then [.ensureGroups] else []) ++
    (demo.accounts.flatMap fun a =>
      .setRoles a :: if demo.localUsers then [.reconcileUser a.username] else []) ++ [.audit]

/-- The statement a request is at. The state of the system is checked twice, the
second time (`again`) under the process lock. -/
inductive Place where
  /-- `has_any_admin` -/
  | hasAdmin (again : Bool)
  /-- `_get_admin_usernames` -/
  | adminUsernames (again : Bool)
  /-- `user_exists`, for the first of the remaining names -/
  | userExists (again : Bool) (names : List Str) (found : Bool)
  | acquiring
  /-- `_get_admin_usernames`, for the recovery -/
  | recovering
  /-- the DELETE of `_recover_stale_init_lock` -/
  | deleting
  /-- the INSERT of the row -/
  | inserting
  /-- `_persist_setup_runtime_settings` -/
  | persisting
  /-- `ensure_ecube_groups` -/
  | ensuringGroups
  /-- `create_user`, up to `useradd` -/
  | creating
  /-- `create_user`, after `useradd` -/
  | equipping
  /-- `add_user_to_groups`, for an existing user -/
  | joining
  /-- `reset_password` -/
  | resetting
  /-- the admin role -/
  | seeding
  | demo (writes : List DemoWrite)
  | auditing
  /-- `_release_init_lock` -/
  | releasing
  | done (outcome : Outcome)
  deriving DecidableEq, Repr

/-- The row was inserted for the request, and the request has not ended. -/
def Place.inserted : Place → Bool
  | .persisting | .ensuringGroups | .creating | .equipping | .joining | .resetting | .seeding
  | .demo _ | .auditing | .releasing => true
  | _ => false

/-- A statement before the INSERT, or the INSERT itself. -/
def Place.early : Place → Bool
  | .hasAdmin _ | .adminUsernames _ | .userExists _ _ _ | .acquiring | .recovering | .deleting
  | .inserting => true
  | _ => false

/-- The statements of `_run_os_setup`. -/
def Place.inOsSetup : Place → Bool
  | .ensuringGroups | .creating | .equipping | .joining | .resetting => true
  | _ => false

/-- The database writes after `_run_os_setup`. -/
def Place.writes : Place → Bool
  | .seeding | .demo _ => true
  | _ => false

/-- After `_run_os_setup`, and not on the way to a release. -/
def Place.settled : Place → Bool
  | .seeding | .demo _ | .auditing | .done _ => true
  | _ => false

/-- The process lock is held. -/
def Place.locked : Place → Bool
  | .hasAdmin again | .adminUsernames again | .userExists again _ _ => again
  | .acquiring | .done _ => false
  | _ => true

/-- A request. `standing`: it has completed `_run_os_setup`, and its account has
existed since. -/
structure Request where
  username : Str
  process : Nat
  place : Place
  standing : Bool
  deriving DecidableEq, Repr

/-- The committed tables (who has the admin role, and who the row names), the
accounts of the host, and the requests that were ever received. -/
structure State where
  admins : List Str
  row : Option Str
  accounts : List Str
  requests : List Request
  deriving DecidableEq, Repr

namespace State

def setPlace (s : State) (k : Nat) (place : Place) : State :=
  { s with requests := s.requests.modify k fun r => { r with place := place } }

def setRow (s : State) (row : Option Str) : State := { s with row := row }

def addAdmin (s : State) (username : Str) : State :=
  { s with admins := if username ∈ s.admins then s.admins else s.admins ++ [username] }

def removeAdmins (s : State) (usernames : List Str) : State :=
  { s with admins := s.admins.filter (· ∉ usernames) }

def addAccount (s : State) (username : Str) : State :=
  { s with accounts := if username ∈ s.accounts then s.accounts else s.accounts ++ [username] }

/-- `userdel`: whoever set the account up no longer stands. -/
def removeAccount (s : State) (username : Str) : State :=
  { s with
    accounts := s.accounts.filter (· ≠ username)
    requests := s.requests.map fun r =>
      { r with standing := r.standing && decide (r.username ≠ username) } }

/-- The end of `_run_os_setup`. -/
def completeOsSetup (s : State) (k : Nat) : State :=
  { s with requests := s.requests.modify k fun r =>
      { r with place := .seeding, standing := decide (r.username ∈ s.accounts) } }

def processLocked (s : State) (process : Nat) : Bool :=
  s.requests.any fun r => r.process = process ∧ r.place.locked

end State

/-! ### Steps -/

/-- What a statement answers: an error, of an account that is created or deleted
also one after which the account is left. -/
inductive Answer where
  | ok
  | error
  | leftOver
  deriving DecidableEq, Repr

/-- Requests are received, and accounts removed by someone else, at any time. -/
inductive Action where
  | receive (username : Str) (process : Nat)
  | removeAccount (username : Str)
  | statement (k : Nat) (answer : Answer)
  deriving DecidableEq, Repr

/-- The place after a check that found no set up system. -/
def uninitialized (again : Bool) : Place := if again then .recovering else .acquiring

/-- The place after the lookup of an admin, or before the first one. -/
def lookedUp (again : Bool) (names : List Str) (found : Bool) : Place :=
  match names with
  | [] => if found then .done .alreadyInitialized else uninitialized again
  | name :: rest => .userExists again (name :: rest) found

/-- A commit or call of the demo seeding. Roles are replaced; a missing account is created. -/
def demoWrite (s : State) : DemoWrite → State
  | .deleteRoles usernames => s.removeAdmins usernames
  | .setRoles account =>
      if account.admin then (s.removeAdmins [account.username]).addAdmin account.username
      else s.removeAdmins [account.username]
  | .reconcileUser username => s.addAccount username
  | .ensureGroups | .audit => s

/-- What is left of a commit or call of the demo seeding that failed. -/
def failedDemoWrite (s : State) (answer : Answer) : DemoWrite → State
  | .reconcileUser username => if answer = .leftOver then s.addAccount username else s
  | _ => s

/-- The next statement of request `k`, which is `r`. -/
def nextStatement (demo : Option DemoSettings) (s : State) (k : Nat) (r : Request)
    (answer : Answer) : State :=
  match r.place with
  | .hasAdmin again =>
      if answer ≠ .ok then s.setPlace k (.done .failed)
      else if s.admins = [] then s.setPlace k (uninitialized again)
      else s.setPlace k (.adminUsernames again)
  | .adminUsernames again =>
      if answer ≠ .ok then s.setPlace k (.done .failed)
      else s.setPlace k (lookedUp again s.admins false)
  | .userExists again names found =>
      -- A lookup that fails counts as an initialized system.
      if answer ≠ .ok then s.setPlace k (.done .alreadyInitialized)
      else s.setPlace k (lookedUp again names.tail (found || names.head?.any (· ∈ s.accounts)))
  | .acquiring =>
      if s.processLocked r.process then s.setPlace k (.done .conflict)
      else s.setPlace k (.hasAdmin true)
  | .recovering =>
      if answer ≠ .ok then s.setPlace k (.done .failed)
      else if s.admins = [] then s.setPlace k .inserting
      else s.setPlace k .deleting
  | .deleting =>
      if answer ≠ .ok then s.setPlace k (.done .failed)
      else (s.setRow none).setPlace k .inserting
  | .inserting =>
      if answer ≠ .ok then s.setPlace k (.done .failed)
      else match s.row with
        | none => (s.setRow (some r.username)).setPlace k .persisting
        | some _ => s.setPlace k (.done .conflict)
  | .persisting =>
      -- The error is raised outside the handlers that release the row.
      if answer ≠ .ok then s.setPlace k (.done .failed)
      else s.setPlace k .ensuringGroups
  | .ensuringGroups =>
      if answer ≠ .ok then s.setPlace k .releasing
      else s.setPlace k .creating
  | .creating =>
      if answer = .leftOver then (s.addAccount r.username).setPlace k .releasing
      else if answer = .error then s.setPlace k .releasing
      else if r.username ∈ s.accounts then s.setPlace k .joining
      else (s.addAccount r.username).setPlace k .equipping
  | .equipping =>
      if answer = .leftOver then s.setPlace k .releasing
      else if answer = .error then (s.removeAccount r.username).setPlace k .releasing
      else s.completeOsSetup k
  | .joining =>
      if answer ≠ .ok then s.setPlace k .releasing
      else s.setPlace k .resetting
  | .resetting =>
      if answer ≠ .ok then s.setPlace k .releasing
      else s.completeOsSetup k
  | .seeding =>
      if answer ≠ .ok then s.setPlace k .releasing
      else (s.addAdmin r.username).setPlace k (.demo ((demo.map demoWrites).getD []))
  | .demo [] => s.setPlace k .auditing
  | .demo (write :: rest) =>
      if answer ≠ .ok then (failedDemoWrite s answer write).setPlace k .releasing
      else (demoWrite s write).setPlace k (.demo rest)
  | .auditing => s.setPlace k (.done .initialized)
  | .releasing =>
      if answer ≠ .ok then s.setPlace k (.done .failed)
      else (s.setRow none).setPlace k (.done .failed)
  | .done _ => s

def step (demo : Option DemoSettings) (s : State) : Action → State
  | .receive username process =>
      { s with requests := s.requests ++ [⟨username, process, .hasAdmin false, false⟩] }
  | .removeAccount username => s.removeAccount username
  | .statement k answer =>
      match s.requests[k]? with
      | some r => nextStatement demo s k r answer
      | none => s

/-- A system without admins, before the first request. -/
def initial (row : Option Str) (accounts : List Str) : State := ⟨[], row, accounts, []⟩

/-- Statements of request `k`, one after the other. -/
def statements (k count : Nat) : List Action := List.replicate count (.statement k .ok)

/-! ### What a statement can do -/

inductive Move (s : State) (k : Nat) (r : Request) (answer : Answer) : State → Prop where
  | stay {outcome : Outcome} (place : r.place = .done outcome) : Move s k r answer s
  /-- a check before the INSERT, or an error of one -/
  | check {place : Place} (early : r.place.early = true)
      (next : place.early = true ∨ place = .done .alreadyInitialized ∨ place = .done .failed) :
      Move s k r answer (s.setPlace k place)
  | locked (place : r.place = .acquiring) (locked : s.processLocked r.process = true) :
      Move s k r answer (s.setPlace k (.done .conflict))
  | clear (place : r.place = .deleting) (ok : answer = .ok) :
      Move s k r answer ((s.setRow none).setPlace k .inserting)
  | insert (place : r.place = .inserting) (free : s.row = none) :
      Move s k r answer ((s.setRow (some r.username)).setPlace k .persisting)
  | refused (place : r.place = .inserting) (taken : s.row ≠ none) :
      Move s k r answer (s.setPlace k (.done .conflict))
  /-- a statement between the INSERT and the end, which leaves the row and the requests -/
  | work {u : State} {place : Place} (row : u.row = s.row) (requests : u.requests = s.requests)
      (inserted : r.place.inserted = true) (next : place.inserted = true)
      (settled : r.place.settled = true →
        place.settled = true ∨ r.place.writes = true ∧ answer ≠ .ok) :
      Move s k r answer (u.setPlace k place)
  | notPersisted (place : r.place = .persisting) (failed : answer ≠ .ok) :
      Move s k r answer (s.setPlace k (.done .failed))
  | undo (place : r.place = .equipping) :
      Move s k r answer ((s.removeAccount r.username).setPlace k .releasing)
  | complete (setup : r.place.inOsSetup = true) : Move s k r answer (s.completeOsSetup k)
  | finish (place : r.place = .auditing) : Move s k r answer (s.setPlace k (.done .initialized))
  | stuck (place : r.place = .releasing) (failed : answer ≠ .ok) :
      Move s k r answer (s.setPlace k (.done .failed))
  | release (place : r.place = .releasing) :
      Move s k r answer ((s.setRow none).setPlace k (.done .failed))

section Moves

variable {demo : Option DemoSettings} {s : State} {k : Nat} {r : Request} {answer : Answer}

theorem early_uninitialized (again : Bool) : (uninitialized again).early = true := by
  cases again <;> rfl

/-- A lookup goes on, or has found the system set up. -/
theorem early_lookedUp (again : Bool) (names : List Str) (found : Bool) :
    (lookedUp again names found).early = true ∨
      lookedUp again names found = .done .alreadyInitialized := by
  cases names with
  | nil =>
      cases found with
      | false => exact .inl (early_uninitialized again)
      | true => exact .inr rfl
  | cons name rest => exact .inl rfl

theorem demoWrite_frame (s : State) (write : DemoWrite) :
    (demoWrite s write).row = s.row ∧ (demoWrite s write).requests = s.requests := by
  cases write with
  | setRoles account =>
      rw [demoWrite]
      split <;> exact ⟨rfl, rfl⟩
  | deleteRoles usernames => exact ⟨rfl, rfl⟩
  | reconcileUser username => exact ⟨rfl, rfl⟩
  | ensureGroups => exact ⟨rfl, rfl⟩
  | audit => exact ⟨rfl, rfl⟩

theorem failedDemoWrite_frame (s : State) (answer : Answer) (write : DemoWrite) :
    (failedDemoWrite s answer write).row = s.row ∧
      (failedDemoWrite s answer write).requests = s.requests := by
  cases write with
  | reconcileUser username =>
      rw [failedDemoWrite]
      split <;> exact ⟨rfl, rfl⟩
  | deleteRoles usernames => exact ⟨rfl, rfl⟩
  | setRoles account => exact ⟨rfl, rfl⟩
  | ensureGroups => exact ⟨rfl, rfl⟩
  | audit => exact ⟨rfl, rfl⟩

/-- A check that fails with an error. -/
theorem Move.checkFailed (early : r.place.early = true) :
    Move s k r answer (s.setPlace k (.done .failed)) :=
  .check early (.inr (.inr rfl))

/-- A statement of `_run_os_setup`, or the one before it. -/
theorem Move.setup {u : State} {place : Place} (row : u.row = s.row)
    (requests : u.requests = s.requests) (inserted : r.place.inserted = true)
    (next : place.inserted = true) (unsettled : r.place.settled = false) :
    Move s k r answer (u.setPlace k place) :=
  .work row requests inserted next fun h => by rw [unsettled] at h; cases h

theorem move_nextStatement : Move s k r answer (nextStatement demo s k r answer) := by
  rw [nextStatement]
  split
  next again place =>
    have early : r.place.early = true := by rw [place]; rfl
    split
    · exact .checkFailed early
    · split
      · exact .check early (.inl (early_uninitialized again))
      · exact .check early (.inl rfl)
  next again place =>
    have early : r.place.early = true := by rw [place]; rfl
    split
    · exact .checkFailed early
    · exact .check early ((early_lookedUp ..).imp_right .inl)
  next again names found place =>
    have early : r.place.early = true := by rw [place]; rfl
    split
    · exact .check early (.inr (.inl rfl))
    · exact .check early ((early_lookedUp ..).imp_right .inl)
  next place =>
    split
    next locked => exact .locked place locked
    next => exact .check (by rw [place]; rfl) (.inl rfl)
  next place =>
    have early : r.place.early = true := by rw [place]; rfl
    split
    · exact .checkFailed early
    · split <;> exact .check early (.inl rfl)
  next place =>
    split
    · exact .checkFailed (by rw [place]; rfl)
    next ok => exact .clear place (not_not.mp ok)
  next place =>
    split
    · exact .checkFailed (by rw [place]; rfl)
    · split
      next free => exact .insert place free
      next taken => exact .refused place (by simp [taken])
  next place =>
    split
    next failed => exact .notPersisted place failed
    next => exact .setup rfl rfl (by rw [place]; rfl) rfl (by rw [place]; rfl)
  next place => split <;> exact .setup rfl rfl (by rw [place]; rfl) rfl (by rw [place]; rfl)
  next place =>
    have inserted : r.place.inserted = true := by rw [place]; rfl
    have unsettled : r.place.settled = false := by rw [place]; rfl
    split
    · exact .setup rfl rfl inserted rfl unsettled
    · split
      · exact .setup rfl rfl inserted rfl unsettled
      · split <;> exact .setup rfl rfl inserted rfl unsettled
  next place =>
    split
    · exact .setup rfl rfl (by rw [place]; rfl) rfl (by rw [place]; rfl)
    · split
      · exact .undo place
      · exact .complete (by rw [place]; rfl)
  next place => split <;> exact .setup rfl rfl (by rw [place]; rfl) rfl (by rw [place]; rfl)
  next place =>
    split
    · exact .setup rfl rfl (by rw [place]; rfl) rfl (by rw [place]; rfl)
    · exact .complete (by rw [place]; rfl)
  next place =>
    have inserted : r.place.inserted = true := by rw [place]; rfl
    split
    next failed => exact .work rfl rfl inserted rfl fun _ => .inr ⟨by rw [place]; rfl, failed⟩
    next => exact .work rfl rfl inserted rfl fun _ => .inl rfl
  next place => exact .work rfl rfl (by rw [place]; rfl) rfl fun _ => .inl rfl
  next write rest place =>
    have inserted : r.place.inserted = true := by rw [place]; rfl
    split
    next failed =>
      obtain ⟨row, requests⟩ := failedDemoWrite_frame s answer write
      exact .work row requests inserted rfl fun _ => .inr ⟨by rw [place]; rfl, failed⟩
    next =>
      obtain ⟨row, requests⟩ := demoWrite_frame s write
      exact .work row requests inserted rfl fun _ => .inl rfl
  next place => exact .finish place
  next place =>
    split
    next failed => exact .stuck place failed
    next => exact .release place
  next outcome place => exact .stay place

theorem getElem?_setPlace (s : State) (k i : Nat) (place : Place) :
    (s.setPlace k place).requests[i]? =
      (s.requests[i]?).map fun r => if k = i then { r with place := place } else r := by
  rw [State.setPlace, List.getElem?_modify]
  split <;> simp

/-- The request whose `_run_os_setup` is complete goes on, the others stay. -/
theorem getElem?_completeOsSetup (s : State) (k i : Nat) :
    (s.completeOsSetup k).requests[i]? =
      (s.requests[i]?).map fun r =>
        if k = i then { r with place := .seeding, standing := decide (r.username ∈ s.accounts) }
        else r := by
  rw [State.completeOsSetup, List.getElem?_modify]
  split <;> simp

/-- A new request is the last one. -/
theorem request_receive {username : Str} {process i : Nat} {r : Request}
    (found : (step demo s (.receive username process)).requests[i]? = some r) :
    s.requests[i]? = some r ∨
      i = s.requests.length ∧ r = ⟨username, process, .hasAdmin false, false⟩ := by
  rw [step, List.getElem?_append] at found
  split at found
  next => exact .inl found
  next beyond =>
    obtain ⟨last, rfl⟩ := List.getElem?_eq_some_iff.mp found
    rw [List.length_singleton] at last
    exact .inr ⟨by omega, List.getElem_singleton last⟩

/-- After `userdel` a request is at most what it was. -/
theorem request_removeAccount {username : Str} {i : Nat} {r' : Request}
    (found : (s.removeAccount username).requests[i]? = some r') :
    ∃ r, s.requests[i]? = some r ∧ (r'.process = r.process ∧ r'.place = r.place) ∧
      (r'.standing = true → r.standing = true) := by
  simp only [State.removeAccount, List.getElem?_map, Option.map_eq_some_iff] at found
  obtain ⟨r, old, rfl⟩ := found
  exact ⟨r, old, ⟨rfl, rfl⟩, fun standing => (Bool.and_eq_true _ _ ▸ standing).1⟩

end Moves

end Ecube.Setup
