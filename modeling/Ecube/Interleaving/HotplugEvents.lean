import Ecube.Basic.Transition

/-!
USB discovery in event mode (`_usb_discovery_event_loop` in `app/main.py` and
`LinuxUdevUsbEventMonitor.run` in `app/infrastructure/usb_event_monitor.py`).

When the mode is entered, one baseline sync is run; then a monitor is started, and
restarted after a pause whenever it has ended. The monitor delivers the events that
occur while its process runs, and each delivered event is handled by one more sync.
No sync follows the start of a monitor, so an event that occurs between the beginning
of the baseline sync and that start, or between two monitors, is seen by nobody.
-/

namespace Ecube.Hotplug

open Transition

/-! ### The event loop -/

/-- The process of a monitor. -/
inductive Process where
  | running
  /-- it has ended by itself; the lines that are left are still read -/
  | exited
  /-- `stop()` was called, because the polling interval was set -/
  | stopped
  deriving DecidableEq, Repr

inductive Phase where
  /-- event mode is not active -/
  | inactive
  /-- before the baseline sync -/
  | activated
  /-- in the baseline sync that started at the time -/
  | baseline (start : Nat)
  /-- at the head of the loop -/
  | starting
  /-- in one of the two sleeps -/
  | pausing
  /-- in `monitor.run`: the lines that are delivered and not yet handled, and the start
  of the sync in progress -/
  | monitor (process : Process) (lines : Nat) (sync : Option Nat)
  deriving DecidableEq, Repr

/-- `lastSync` is the time at which the last completed sync started. -/
structure State where
  clock : Nat
  lastEvent : Option Nat
  lastSync : Option Nat
  phase : Phase
  deriving DecidableEq, Repr

inductive Action where
  /-- a USB device is added, removed or changed -/
  | event
  | activate
  | startBaseline
  /-- a sync ends, or raises an exception, which is logged -/
  | endSync (raises : Bool)
  /-- the polling interval has been set -/
  | leave
  /-- no monitor can be had, or its process cannot be started -/
  | unavailable
  | startMonitor
  | resume
  | handleEvent
  | exitMonitor
  | stopMonitor
  | endMonitor
  deriving DecidableEq, Repr

namespace Phase

/-- The start of the sync in progress. -/
def sync : Phase → Option Nat
  | .baseline start => some start
  | .monitor _ _ sync => sync
  | .inactive | .activated | .starting | .pausing => none

/-- An event is delivered to a monitor. -/
def delivers : Phase → Bool
  | .monitor .running _ _ => true
  | _ => false

/-- A sync is still to be started, whatever becomes of the monitor. -/
def awaits : Phase → Bool
  | .inactive | .activated | .monitor .stopped _ _ => true
  | .monitor _ lines _ => decide (0 < lines)
  | .baseline _ | .starting | .pausing => false

end Phase

namespace State

def tick (s : State) : State := { s with clock := s.clock + 1 }

/-- The loop goes on to `next`, if it stands at `phase`. -/
def advance (s : State) (phase next : Phase) : State :=
  if s.phase = phase then { s with phase := next } else s

def event (s : State) : State :=
  { s with
    lastEvent := some s.clock
    phase := match s.phase with
      | .monitor .running lines sync => .monitor .running (lines + 1) sync
      | phase => phase }

def endSync (s : State) (raises : Bool) : State :=
  match s.phase with
  | .baseline start =>
      { s with lastSync := if raises then s.lastSync else some start, phase := .starting }
  | .monitor process lines (some start) =>
      { s with
        lastSync := if raises then s.lastSync else some start
        phase := .monitor process lines none }
  | _ => s

/-- The next line is read; after `stop()` the loop over the lines is left instead. -/
def handleEvent (s : State) : State :=
  match s.phase with
  | .monitor .stopped _ _ => s
  | .monitor process (lines + 1) none => { s with phase := .monitor process lines (some s.clock) }
  | _ => s

def exitMonitor (s : State) : State :=
  match s.phase with
  | .monitor .running lines sync => { s with phase := .monitor .exited lines sync }
  | _ => s

def stopMonitor (s : State) : State :=
  match s.phase with
  | .monitor _ lines sync => { s with phase := .monitor .stopped lines sync }
  | _ => s

def endMonitor (s : State) : State :=
  match s.phase with
  | .monitor .exited 0 none => { s with phase := .pausing }
  | .monitor .stopped _ none => { s with phase := .inactive }
  | _ => s

end State

def act (s : State) : Action → State
  | .event => s.event
  | .activate => s.advance .inactive .activated
  | .startBaseline => s.advance .activated (.baseline s.clock)
  | .endSync raises => s.endSync raises
  | .leave => s.advance .starting .inactive
  | .unavailable => s.advance .starting .pausing
  | .startMonitor => s.advance .starting (.monitor .running 0 none)
  | .resume => s.advance .pausing .starting
  | .handleEvent => s.handleEvent
  | .exitMonitor => s.exitMonitor
  | .stopMonitor => s.stopMonitor
  | .endMonitor => s.endMonitor

def step (s : State) (a : Action) : State := (act s a).tick

def initial : State := ⟨0, none, none, .inactive⟩

/-! ### Seen events -/

/-- All events occurred before the time. -/
def EventsBefore (s : State) (time : Nat) : Prop := ∀ e, s.lastEvent = some e → e < time

/-- The last completed sync started after the last event. -/
def Covered (s : State) : Prop :=
  ∀ e, s.lastEvent = some e → ∃ start, s.lastSync = some start ∧ e < start

/-- Whenever the monitor runs and all delivered events are handled, no event is missed. -/
def NoEventMissed (s : State) : Prop := s.phase = .monitor .running 0 none → Covered s

/-- An event occurs while the monitor runs or while a sync is still to be started, and a
sync raises only if another is still to be started or nothing has occurred since the
last completed one was started. -/
def Heard (s : State) : Action → Prop
  | .event => s.phase.delivers = true ∨ s.phase.awaits = true
  | .endSync raises =>
      raises = true → s.phase.sync ≠ none → s.phase.awaits = true ∨ Covered s
  | _ => True

/-- With no further sync to be started, the one in progress, or the last one, started
after all events. -/
structure EventsInv (s : State) : Prop where
  past : EventsBefore s s.clock
  syncing : s.phase.awaits = false → ∀ start, s.phase.sync = some start → EventsBefore s start
  settled : s.phase.awaits = false → s.phase.sync = none → Covered s

/-- Syncs have started in the past. -/
structure SyncsInv (s : State) : Prop where
  syncing : ∀ start, s.phase.sync = some start → start < s.clock
  completed : ∀ start, s.lastSync = some start → start < s.clock

/-! ### Steps -/

section Steps

variable {s : State} {phase next : Phase}

/-- With no sync in progress nothing ends. Else the loop rests, with the same lines left. -/
theorem endSync_cases (s : State) (raises : Bool) :
    (s.phase.sync = none ∧ s.endSync raises = s) ∨
    ∃ start next, s.phase.sync = some start ∧ next.sync = none ∧
      next.awaits = s.phase.awaits ∧ s.endSync raises =
        { s with lastSync := if raises then s.lastSync else some start, phase := next } := by
  rw [State.endSync]
  split
  next start at_ => exact .inr ⟨start, .starting, by rw [at_]; rfl, rfl, by rw [at_]; rfl, rfl⟩
  next process lines start at_ =>
    refine .inr ⟨start, .monitor process lines none, by rw [at_]; rfl, rfl, ?_, rfl⟩
    rw [at_]
    cases process <;> rfl
  next idle running =>
    refine .inl ⟨?_, rfl⟩
    cases at_ : s.phase with
    | baseline time => exact absurd at_ (idle time)
    | monitor process lines sync =>
        cases sync with
        | none => rfl
        | some time => exact absurd at_ (running process lines time)
    | _ => rfl

theorem EventsInv.tick (h : EventsInv s) : EventsInv s.tick where
  past e occurred := Nat.lt_succ_of_lt (h.past e occurred)
  syncing := h.syncing
  settled := h.settled

theorem EventsInv.goto_awaiting (h : EventsInv s) (awaits : next.awaits = true) :
    EventsInv { s with phase := next } where
  past := h.past
  syncing none_left := absurd awaits (ne_true_of_eq_false none_left)
  settled none_left := absurd awaits (ne_true_of_eq_false none_left)

theorem EventsInv.goto_resting (h : EventsInv s) (sync : next.sync = none) (covered : Covered s) :
    EventsInv { s with phase := next } where
  past := h.past
  syncing _ _ running := absurd (sync.symm.trans running) nofun
  settled _ _ := covered

/-- A sync that starts now covers all events. -/
theorem EventsInv.goto_syncing (h : EventsInv s) (sync : next.sync = some s.clock) :
    EventsInv { s with phase := next } where
  past := h.past
  syncing _ start running := by
    cases sync.symm.trans running
    exact h.past
  settled _ rest := absurd (sync.symm.trans rest) nofun

theorem EventsInv.advance (h : EventsInv s)
    (goto : s.phase = phase → EventsInv { s with phase := next }) :
    EventsInv (s.advance phase next) := by
  rw [State.advance]
  split
  next at_ => exact goto at_
  next => exact h

/-- At rest with no sync to be started, all events are covered. -/
theorem EventsInv.covered_at (h : EventsInv s) (at_ : s.phase = phase)
    (awaits : phase.awaits = false) (sync : phase.sync = none) : Covered s :=
  h.settled (at_ ▸ awaits) (at_ ▸ sync)

theorem eventsInv_event
    (heard : s.phase.delivers = true ∨ s.phase.awaits = true) : EventsInv s.event.tick := by
  -- A line is left, or the next activation begins with a sync.
  have awaits : s.event.phase.awaits = true := by
    rw [State.event]
    cases at_ : s.phase with
    | inactive | activated => rfl
    | baseline | starting | pausing => simp [at_, Phase.delivers, Phase.awaits] at heard
    | monitor process lines sync =>
        rw [at_] at heard
        cases process with
        | running => exact decide_eq_true (Nat.succ_pos lines)
        | exited => exact heard.resolve_left nofun
        | stopped => rfl
  constructor
  · rintro _ ⟨⟩
    exact Nat.lt_succ_self _
  · intro none_left
    exact absurd awaits (ne_true_of_eq_false none_left)
  · intro none_left
    exact absurd awaits (ne_true_of_eq_false none_left)

theorem EventsInv.endSync (h : EventsInv s) {raises : Bool} (heard : Heard s (.endSync raises)) :
    EventsInv (s.endSync raises) := by
  obtain ⟨-, same⟩ | ⟨start, next, running, rest, awaits, same⟩ := endSync_cases s raises
  · rw [same]
    exact h
  rw [same]
  constructor
  · exact h.past
  · intro _ other starts
    exact absurd (rest.symm.trans starts) nofun
  · intro none_left _
    rw [awaits] at none_left
    -- The sync that ends covers the events, or was not needed for it.
    cases raises with
    | true =>
        have harmless := heard rfl (by simp [running])
        exact harmless.resolve_left (ne_true_of_eq_false none_left)
    | false =>
        intro e occurred
        exact ⟨start, rfl, h.syncing none_left start running e occurred⟩

theorem EventsInv.handleEvent (h : EventsInv s) : EventsInv s.handleEvent := by
  rw [State.handleEvent]
  split
  next => exact h
  next => exact h.goto_syncing rfl
  next => exact h

/-- The end of the process changes nothing about the lines and the sync. -/
theorem EventsInv.exitMonitor (h : EventsInv s) : EventsInv s.exitMonitor := by
  rw [State.exitMonitor]
  split
  next lines sync at_ =>
    constructor
    · exact h.past
    · intro none_left start running
      exact h.syncing (at_ ▸ none_left) start (at_ ▸ running)
    · intro none_left rest
      exact h.settled (at_ ▸ none_left) (at_ ▸ rest)
  next => exact h

theorem EventsInv.stopMonitor (h : EventsInv s) : EventsInv s.stopMonitor := by
  rw [State.stopMonitor]
  split
  next => exact h.goto_awaiting rfl
  next => exact h

theorem EventsInv.endMonitor (h : EventsInv s) : EventsInv s.endMonitor := by
  rw [State.endMonitor]
  split
  next at_ => exact h.goto_resting rfl (h.covered_at at_ rfl rfl)
  next => exact h.goto_awaiting rfl
  next => exact h

theorem eventsInv_step {a : Action} (h : EventsInv s) (heard : Heard s a) :
    EventsInv (step s a) := by
  cases a with
  | event => exact eventsInv_event heard
  | activate => exact (h.advance fun _ => h.goto_awaiting rfl).tick
  | startBaseline => exact (h.advance fun _ => h.goto_syncing rfl).tick
  | endSync raises => exact (h.endSync heard).tick
  | leave => exact (h.advance fun _ => h.goto_awaiting rfl).tick
  | unavailable | startMonitor | resume =>
      exact (h.advance fun at_ => h.goto_resting rfl (h.covered_at at_ rfl rfl)).tick
  | handleEvent => exact h.handleEvent.tick
  | exitMonitor => exact h.exitMonitor.tick
  | stopMonitor => exact h.stopMonitor.tick
  | endMonitor => exact h.endMonitor.tick

theorem eventsInv_initial : EventsInv initial := ⟨nofun, nofun, nofun⟩

theorem EventsInv.noEventMissed (h : EventsInv s) : NoEventMissed s :=
  fun at_ => h.covered_at at_ rfl rfl

theorem syncsInv_initial : SyncsInv initial := ⟨nofun, nofun⟩

theorem SyncsInv.tick (h : SyncsInv s) : SyncsInv s.tick where
  syncing start running := Nat.lt_succ_of_lt (h.syncing start running)
  completed start completed := Nat.lt_succ_of_lt (h.completed start completed)

/-- No sync begins, or it is still the one that was in progress. -/
theorem SyncsInv.goto (h : SyncsInv s) (sync : ∀ start, next.sync = some start →
    s.phase.sync = some start) : SyncsInv { s with phase := next } where
  syncing start running := h.syncing start (sync start running)
  completed := h.completed

theorem SyncsInv.goto_syncing (h : SyncsInv s) (sync : next.sync = some s.clock) :
    SyncsInv ({ s with phase := next } : State).tick where
  syncing start running := by
    cases sync.symm.trans running
    exact Nat.lt_succ_self _
  completed start completed := Nat.lt_succ_of_lt (h.completed start completed)

theorem SyncsInv.advance (h : SyncsInv s) (sync : next.sync = none) :
    SyncsInv (s.advance phase next) := by
  rw [State.advance]
  split
  next => exact h.goto fun start running => absurd (sync.symm.trans running) nofun
  next => exact h

theorem syncsInv_step (h : SyncsInv s) (a : Action) : SyncsInv (step s a) := by
  cases a with
  | event =>
      have same : s.event.phase.sync = s.phase.sync := by
        rw [State.event]
        cases s.phase with
        | monitor process lines sync => cases process <;> rfl
        | _ => rfl
      constructor
      · intro start running
        exact Nat.lt_succ_of_lt (h.syncing start (same.symm.trans running))
      · intro start completed
        exact Nat.lt_succ_of_lt (h.completed start completed)
  | activate | leave | unavailable | startMonitor | resume => exact (h.advance rfl).tick
  | startBaseline =>
      rw [step, act, State.advance]
      split
      next => exact h.goto_syncing rfl
      next => exact h.tick
  | endSync raises =>
      apply SyncsInv.tick
      rw [act]
      obtain ⟨-, same⟩ | ⟨start, next, running, rest, -, same⟩ := endSync_cases s raises
      · rw [same]
        exact h
      rw [same]
      constructor
      · intro _ other
        exact absurd (rest.symm.trans other) nofun
      · intro done completed
        cases raises with
        | true => exact h.completed done completed
        | false => exact h.syncing done (running.trans completed)
  | handleEvent =>
      rw [step, act, State.handleEvent]
      split
      next => exact h.tick
      next => exact h.goto_syncing rfl
      next => exact h.tick
  | exitMonitor =>
      apply SyncsInv.tick
      rw [act, State.exitMonitor]
      split
      next at_ => exact h.goto fun _ running => at_ ▸ running
      next => exact h
  | stopMonitor =>
      apply SyncsInv.tick
      rw [act, State.stopMonitor]
      split
      next at_ => exact h.goto fun _ running => at_ ▸ running
      next => exact h
  | endMonitor =>
      apply SyncsInv.tick
      rw [act, State.endMonitor]
      split
      next => exact h.goto fun _ => nofun
      next => exact h.goto fun _ => nofun
      next => exact h

end Steps

/-! ### Missed events -/

section Missed

variable {s : State}

/-- The loop can go on, without a further event or failure, to a state with a missed
event. -/
def CanMiss (s : State) : Prop :=
  ∃ rest : List Action, .event ∉ rest ∧ .endSync true ∉ rest ∧
    ¬ NoEventMissed (exec step s rest)

theorem CanMiss.cons {a : Action} (event : a ≠ .event) (succeeds : a ≠ .endSync true)
    (h : CanMiss (step s a)) : CanMiss s := by
  obtain ⟨rest, events, failures, missed⟩ := h
  refine ⟨a :: rest, ?_, ?_, missed⟩
  · simpa [Ne.symm event] using events
  · simpa [Ne.symm succeeds] using failures

theorem canMiss_running (at_ : s.phase = .monitor .running 0 none) (missed : ¬ Covered s) :
    CanMiss s :=
  ⟨[], by simp, by simp, fun none_missed => missed (none_missed at_)⟩

theorem canMiss_starting (at_ : s.phase = .starting) (missed : ¬ Covered s) : CanMiss s := by
  apply CanMiss.cons (a := .startMonitor) nofun nofun
  rw [step, act, State.advance, if_pos at_]
  exact canMiss_running rfl missed

theorem canMiss_pausing (at_ : s.phase = .pausing) (missed : ¬ Covered s) : CanMiss s := by
  apply CanMiss.cons (a := .resume) nofun nofun
  rw [step, act, State.advance, if_pos at_]
  exact canMiss_starting rfl missed

/-- From rest, with no line left, the loop comes to a new monitor without a sync. -/
theorem canMiss_resting (sync : s.phase.sync = none) (awaits : s.phase.awaits = false)
    (missed : ¬ Covered s) : CanMiss s := by
  cases at_ : s.phase with
  | inactive | activated => exact absurd (at_ ▸ awaits) nofun
  | starting => exact canMiss_starting at_ missed
  | pausing => exact canMiss_pausing at_ missed
  | baseline start => exact absurd (at_ ▸ sync) nofun
  | monitor process lines running =>
      rw [at_] at sync awaits
      cases sync
      cases process with
      | stopped => exact absurd awaits nofun
      | running =>
          cases Nat.eq_zero_of_not_pos (of_decide_eq_false awaits)
          exact canMiss_running at_ missed
      | exited =>
          cases Nat.eq_zero_of_not_pos (of_decide_eq_false awaits)
          apply CanMiss.cons (a := .endMonitor) nofun nofun
          rw [step, act, State.endMonitor, at_]
          exact canMiss_pausing rfl missed

/-- A sync that started before the last event does not cover it. -/
theorem canMiss_syncing {start e : Nat} (sync : s.phase.sync = some start)
    (awaits : s.phase.awaits = false) (occurred : s.lastEvent = some e) (early : start ≤ e) :
    CanMiss s := by
  apply CanMiss.cons (a := .endSync false) nofun nofun
  rw [step, act]
  obtain ⟨idle, -⟩ | ⟨_, next, running, rest, left, same⟩ := endSync_cases s false
  · exact absurd (idle.symm.trans sync) nofun
  cases sync.symm.trans running
  rw [same]
  apply canMiss_resting rest (left.trans awaits)
  intro covered
  obtain ⟨_, ⟨⟩, late⟩ := covered e occurred
  exact Nat.not_lt_of_le early late

/-- An event that nobody sees, with no sync to be started. -/
theorem canMiss_event (h : SyncsInv s) (unheard : ¬ Heard s .event) :
    CanMiss (step s .event) := by
  obtain ⟨undelivered, none_left⟩ := not_or.mp unheard
  have same : s.event = { s with lastEvent := some s.clock } := by
    rw [State.event]
    cases at_ : s.phase with
    | monitor process lines sync =>
        rw [at_] at undelivered
        cases process with
        | running => exact absurd rfl undelivered
        | exited | stopped => rfl
    | _ => rfl
  have missed : ¬ Covered { s with lastEvent := some s.clock } := by
    intro covered
    obtain ⟨start, completed, late⟩ := covered s.clock rfl
    exact Nat.lt_asymm late (h.completed start completed)
  have awaits : s.phase.awaits = false := eq_false_of_ne_true none_left
  rw [step, act, same]
  cases running : s.phase.sync with
  | none => exact canMiss_resting running awaits missed
  | some start =>
      exact canMiss_syncing running awaits rfl (Nat.le_of_lt (h.syncing start running))

/-- A sync that fails while it is needed, with no other to be started. -/
theorem canMiss_endSync {raises : Bool} (unheard : ¬ Heard s (.endSync raises)) :
    CanMiss (step s (.endSync raises)) := by
  simp only [Heard, not_forall, not_or] at unheard
  obtain ⟨rfl, needed, none_left, missed⟩ := unheard
  rw [step, act]
  obtain ⟨idle, -⟩ | ⟨_, next, -, rest, left, same⟩ := endSync_cases s true
  · exact absurd idle needed
  rw [same]
  exact canMiss_resting rest (left.trans (eq_false_of_ne_true none_left)) missed

theorem canMiss_step {a : Action} (h : SyncsInv s) (unheard : ¬ Heard s a) :
    CanMiss (step s a) := by
  cases a with
  | event => exact canMiss_event h unheard
  | endSync raises => exact canMiss_endSync unheard
  | _ => exact absurd trivial unheard

end Missed

/-- No event is missed in a run in which every event occurs while the monitor runs or
while a sync is still to be started, and no sync that is needed fails. Any other step
after any run can be followed, without a further event or failure, by a state in which
the monitor runs and an event has been missed. -/
theorem no_event_missed (actions : List Action) :
    (Along step Heard initial actions → Always step NoEventMissed initial actions) ∧
    ∀ a, ¬ Heard (exec step initial actions) a →
      ∃ rest, .event ∉ rest ∧ .endSync true ∉ rest ∧
        ¬ NoEventMissed (exec step initial (actions ++ a :: rest)) := by
  constructor
  · intro heard
    have always := always_of_along (fun _ _ h heard => eventsInv_step h heard)
      eventsInv_initial heard
    exact always.mono fun _ h => h.noEventMissed
  · intro a unheard
    have syncs : SyncsInv (exec step initial actions) := by
      apply exec_rule _ syncsInv_initial
      exact fun _ a h => syncsInv_step h a
    obtain ⟨rest, events, failures, missed⟩ := canMiss_step syncs unheard
    refine ⟨rest, events, failures, ?_⟩
    rwa [exec, List.foldl_append]

/-- One event before the baseline sync, and one while the monitor runs. -/
theorem handled_events_not_missed :
    Always step NoEventMissed initial
      [.activate, .event, .startBaseline, .endSync false, .startMonitor, .event, .handleEvent,
        .endSync false] := by
  apply (no_event_missed _).1
  exact ⟨trivial, .inr rfl, trivial, nofun, trivial, .inl rfl, trivial, nofun, trivial⟩

/-- A drive that is removed after the baseline sync and before the monitor starts. -/
theorem removal_missed :
    exec step initial [.activate, .startBaseline, .endSync false, .event, .startMonitor] =
        ⟨5, some 3, some 1, .monitor .running 0 none⟩ ∧
      ¬ ∀ actions : List Action, Always step NoEventMissed initial actions := by
  constructor
  · decide
  · intro always
    have missed := (always
      [.activate, .startBaseline, .endSync false, .event, .startMonitor]).last
    obtain ⟨_, ⟨⟩, late⟩ := missed rfl 3 rfl
    exact absurd late (by decide)

end Ecube.Hotplug
