import Ecube.Basic.Exclusion
import Ecube.Interleaving.Setup

/-!
First-run setup happens once.

A request owns the setup from the INSERT of the row until it ends, and for as long
as it stands: it has completed `_run_os_setup` and its account has existed since.
The row excludes a second owner, except where it is deleted under its owner. The
recovery deletes whatever row there is, after a check of the accounts that another
request may have overtaken; and a request whose writes fail after `_run_os_setup`
releases the row for a retry.
-/

namespace Ecube.Setup

open Exclusion Transition

/-- The request has completed `_run_os_setup`, and its account has existed since. -/
def Standing (s : State) (k : Nat) : Prop := ∃ r, s.requests[k]? = some r ∧ r.standing = true

/-- The request is in `_run_os_setup`. -/
def InOsSetup (s : State) (k : Nat) : Prop :=
  ∃ r, s.requests[k]? = some r ∧ r.place.inOsSetup = true

/-- At most one request has completed `_run_os_setup` with its account still there,
and none is in it meanwhile. -/
structure SetUpOnce (s : State) : Prop where
  once : ∀ i j, Standing s i → Standing s j → i = j
  quiet : ∀ i j, Standing s i → ¬ InOsSetup s j

/-! ### The condition -/

/-- The request stands, or its row was inserted and it has not ended. -/
def Request.owns (r : Request) : Bool := r.standing || r.place.inserted

/-- No recovery deletes the row of an owner, and the writes of a request that
stands succeed. -/
def Safe (s : State) : Action → Prop
  | .statement k answer => ∀ r ∈ s.requests[k]?,
      (r.place = .deleting → answer = .ok → s.row ≠ none → ∀ q ∈ s.requests, q.owns = false) ∧
      (r.standing = true → r.place.writes = true → answer = .ok)
  | _ => True

instance (s : State) (a : Action) : Decidable (Safe s a) :=
  match a with
  | .statement k answer => inferInstanceAs (Decidable (∀ r ∈ s.requests[k]?,
      (r.place = .deleting → answer = .ok → s.row ≠ none → ∀ q ∈ s.requests, q.owns = false) ∧
      (r.standing = true → r.place.writes = true → answer = .ok)))
  | .receive _ _ | .removeAccount _ => inferInstanceAs (Decidable True)

/-! ### One owner -/

def Owner (s : State) (k : Nat) : Prop := ∃ r, s.requests[k]? = some r ∧ r.owns = true

/-- The row as a guard: it excludes further owners while it is there. -/
def rowGuard (s : State) : Guard Nat := ⟨s.row = none, Owner s⟩

/-- A request that stands is past `_run_os_setup`. -/
def Settled (s : State) : Prop :=
  ∀ (k : Nat) (r : Request), s.requests[k]? = some r → r.standing = true → r.place.settled = true

structure SetupInv (s : State) : Prop where
  exclusive : Exclusive (rowGuard s)
  settled : Settled s

section Owners

variable {s t u : State} {k i : Nat} {r : Request} {place : Place}

theorem owns_iff : r.owns = true ↔ r.standing = true ∨ r.place.inserted = true := by
  rw [Request.owns, Bool.or_eq_true]

/-- The owners after a request changes its place: the others, and the request
itself if it stands or its new place is between INSERT and end. -/
theorem owner_setPlace (found : u.requests[k]? = some r) (owner : Owner (u.setPlace k place) i) :
    Owner u i ∧ i ≠ k ∨ i = k ∧ (r.standing = true ∨ place.inserted = true) := by
  obtain ⟨r', found', owns⟩ := owner
  rw [getElem?_setPlace, Option.map_eq_some_iff] at found'
  obtain ⟨q, old, rfl⟩ := found'
  by_cases same : k = i
  · subst same
    obtain rfl : r = q := Option.some.inj (found.symm.trans old)
    rw [if_pos rfl, owns_iff] at owns
    exact .inr ⟨rfl, owns⟩
  · rw [if_neg same] at owns
    exact .inl ⟨⟨q, old, owns⟩, fun h => same h.symm⟩

theorem Settled.setPlace (settled : Settled u)
    (reached : ∀ r, u.requests[k]? = some r → r.standing = true → place.settled = true) :
    Settled (u.setPlace k place) := by
  intro i r' found standing
  rw [getElem?_setPlace, Option.map_eq_some_iff] at found
  obtain ⟨q, old, rfl⟩ := found
  by_cases same : k = i
  · subst same
    rw [if_pos rfl] at standing ⊢
    exact reached q old standing
  · rw [if_neg same] at standing ⊢
    exact settled i q old standing

/-- A request that does not stand may go to any place. -/
theorem Settled.setPlace_of_idle (settled : Settled u) (found : u.requests[k]? = some r)
    (idle : r.standing = false) : Settled (u.setPlace k place) := by
  apply settled.setPlace
  intro q hq standing
  obtain rfl := Option.some.inj (hq.symm.trans found)
  rw [idle] at standing
  cases standing

theorem Owner.of_removeAccount {username : Str} (owner : Owner (s.removeAccount username) i) :
    Owner s i := by
  obtain ⟨r', found, owns⟩ := owner
  obtain ⟨r, old, ⟨-, place⟩, standing⟩ := request_removeAccount found
  refine ⟨r, old, owns_iff.mpr ?_⟩
  rw [owns_iff, place] at owns
  exact owns.imp_left standing

theorem Settled.removeAccount (settled : Settled s) (username : Str) :
    Settled (s.removeAccount username) := by
  intro i r' found standing
  obtain ⟨r, old, ⟨-, place⟩, was⟩ := request_removeAccount found
  rw [place]
  exact settled i r old (was standing)

theorem inserted_of_inOsSetup {place : Place} (setup : place.inOsSetup = true) :
    place.inserted = true ∧ place.settled = false := by
  cases place <;> first | exact ⟨rfl, rfl⟩ | cases setup

/-- A step of one request that leaves the row and the others. -/
theorem SetupInv.go (inv : SetupInv s) (found : s.requests[k]? = some r) (row : u.row = s.row)
    (requests : u.requests = s.requests)
    (owns : r.standing = true ∨ place.inserted = true → r.owns = true)
    (settled : r.standing = true → place.settled = true) : SetupInv (u.setPlace k place) := by
  rw [← requests] at found
  have settledU : Settled u := by rw [Settled, requests]; exact inv.settled
  refine ⟨inv.exclusive.change (.keep (fun i owner => ?_) fun free => ?_), settledU.setPlace ?_⟩
  · rcases owner_setPlace found owner with ⟨⟨q, other, owned⟩, -⟩ | ⟨rfl, owned⟩
    · exact ⟨q, requests ▸ other, owned⟩
    · exact ⟨r, requests ▸ found, owns owned⟩
  · exact row.symm.trans free
  · intro q hq standing
    obtain rfl := Option.some.inj (hq.symm.trans found)
    exact settled standing

/-- A request that does not stand ends, or has not inserted the row. -/
theorem SetupInv.quit (inv : SetupInv s) (found : s.requests[k]? = some r)
    (standing : r.standing = false) (inserted : place.inserted = false) :
    SetupInv (s.setPlace k place) := by
  refine inv.go found rfl rfl (fun owned => ?_) fun stands => ?_
  · rw [standing, inserted] at owned
    exact owned.elim nofun nofun
  · rw [standing] at stands
    cases stands

/-- The recovery deletes the row: nobody owns it, or there is none. -/
theorem SetupInv.clear (inv : SetupInv s) (found : s.requests[k]? = some r)
    (standing : r.standing = false)
    (unowned : s.row ≠ none → ∀ q ∈ s.requests, q.owns = false) :
    SetupInv ((s.setRow none).setPlace k .inserting) := by
  have owners : ∀ i, Owner ((s.setRow none).setPlace k .inserting) i → Owner s i := by
    intro i owner
    rcases owner_setPlace (u := s.setRow none) found owner with ⟨other, -⟩ | ⟨rfl, owns⟩
    · exact other
    · exact ⟨r, found, owns_iff.mpr (.inl (owns.resolve_right nofun))⟩
  constructor
  · apply inv.exclusive.change
    by_cases free : s.row = none
    · exact .keep owners fun _ => free
    · refine .reset (fun i owner => ?_) owners
      obtain ⟨q, hq, owns⟩ := owner
      rw [unowned free q (List.mem_of_getElem? hq)] at owns
      cases owns
  · exact Settled.setPlace_of_idle (u := s.setRow none) inv.settled found standing

/-- The INSERT finds no row. -/
theorem SetupInv.insert (inv : SetupInv s) (found : s.requests[k]? = some r)
    (standing : r.standing = false) (free : s.row = none) :
    SetupInv ((s.setRow (some r.username)).setPlace k .persisting) := by
  constructor
  · apply inv.exclusive.change
    apply Change.take k free
    · intro i owner
      rcases owner_setPlace (u := s.setRow (some r.username)) found owner with
        ⟨other, -⟩ | ⟨new, -⟩
      · exact .inl other
      · exact .inr new
    · intro gone
      cases gone
  · exact Settled.setPlace_of_idle (u := s.setRow (some r.username)) inv.settled found standing

/-- A request that is between INSERT and end, and does not stand, releases the row. -/
theorem SetupInv.release (inv : SetupInv s) (found : s.requests[k]? = some r)
    (standing : r.standing = false) (inserted : r.place.inserted = true) :
    SetupInv ((s.setRow none).setPlace k (.done .failed)) := by
  constructor
  · apply inv.exclusive.change
    refine .leave k ⟨r, found, owns_iff.mpr (.inr inserted)⟩ fun i owner => ?_
    rcases owner_setPlace (u := s.setRow none) found owner with other | ⟨-, owns⟩
    · exact other
    · rw [standing] at owns
      rcases owns with stands | again
      · cases stands
      · cases again
  · exact Settled.setPlace_of_idle (u := s.setRow none) inv.settled found standing

theorem SetupInv.removeAccount (inv : SetupInv s) (username : Str) :
    SetupInv (s.removeAccount username) where
  exclusive := inv.exclusive.change (.keep (fun _ owner => owner.of_removeAccount) id)
  settled := inv.settled.removeAccount username

/-- `_run_os_setup` completes: its request stands if the account exists. -/
theorem SetupInv.completeOsSetup (inv : SetupInv s) (found : s.requests[k]? = some r)
    (inserted : r.place.inserted = true) : SetupInv (s.completeOsSetup k) := by
  have requests : ∀ i q, (s.completeOsSetup k).requests[i]? = some q →
      i = k ∧ q.place = .seeding ∨ s.requests[i]? = some q := by
    intro i q hq
    rw [getElem?_completeOsSetup, Option.map_eq_some_iff] at hq
    obtain ⟨old, before, rfl⟩ := hq
    by_cases same : k = i
    · rw [if_pos same]
      exact .inl ⟨same.symm, rfl⟩
    · rw [if_neg same]
      exact .inr before
  constructor
  · apply inv.exclusive.change
    refine .keep (fun i owner => ?_) id
    obtain ⟨q, hq, owns⟩ := owner
    rcases requests i q hq with ⟨rfl, -⟩ | before
    · exact ⟨r, found, owns_iff.mpr (.inr inserted)⟩
    · exact ⟨q, before, owns⟩
  · intro i q hq standing
    rcases requests i q hq with ⟨-, place⟩ | before
    · rw [place]
      rfl
    · exact inv.settled i q before standing

theorem unsettled_of_early {place : Place} (early : place.early = true) :
    place.inserted = false ∧ place.settled = false := by
  cases place <;> first | exact ⟨rfl, rfl⟩ | cases early

/-- A statement keeps the owner alone and the row in place. -/
theorem SetupInv.move {answer : Answer} (inv : SetupInv s) (found : s.requests[k]? = some r)
    (safe : Safe s (.statement k answer)) (move : Move s k r answer t) : SetupInv t := by
  obtain ⟨cleared, written⟩ := safe r found
  have idle : r.place.settled = false → r.standing = false := by
    intro unsettled
    by_contra standing
    rw [inv.settled k r found (Bool.not_eq_false _ ▸ standing)] at unsettled
    cases unsettled
  cases move with
  | stay place => exact inv
  | check early next =>
      refine inv.quit found (idle (unsettled_of_early early).2) ?_
      rcases next with early | rfl | rfl
      · exact (unsettled_of_early early).1
      · rfl
      · rfl
  | locked place locked => exact inv.quit found (idle (by rw [place]; rfl)) rfl
  | refused place taken => exact inv.quit found (idle (by rw [place]; rfl)) rfl
  | notPersisted place failed => exact inv.quit found (idle (by rw [place]; rfl)) rfl
  | stuck place failed => exact inv.quit found (idle (by rw [place]; rfl)) rfl
  | finish place =>
      exact inv.go found rfl rfl (fun owned => owns_iff.mpr (.inl (owned.resolve_right nofun)))
        fun _ => rfl
  | work row requests inserted next settled =>
      refine inv.go found row requests (fun _ => owns_iff.mpr (.inr inserted)) fun standing => ?_
      rcases settled (inv.settled k r found standing) with reached | ⟨writes, failed⟩
      · exact reached
      · exact absurd (written standing writes) failed
  | clear place ok => exact inv.clear found (idle (by rw [place]; rfl)) (cleared place ok)
  | insert place free => exact inv.insert found (idle (by rw [place]; rfl)) free
  | undo place =>
      have removed : (s.removeAccount r.username).requests[k]? =
          some { r with standing := r.standing && decide (r.username ≠ r.username) } := by
        rw [State.removeAccount, List.getElem?_map, found]
        rfl
      exact (inv.removeAccount r.username).go removed rfl rfl
        (fun _ => owns_iff.mpr (.inr (by rw [place]; rfl))) (by simp)
  | complete setup => exact inv.completeOsSetup found (inserted_of_inOsSetup setup).1
  | release place =>
      exact inv.release found (idle (by rw [place]; rfl)) (by rw [place]; rfl)

theorem SetupInv.step {demo : Option DemoSettings} {a : Action} (inv : SetupInv s)
    (safe : Safe s a) : SetupInv (step demo s a) := by
  cases a with
  | receive username process =>
      constructor
      · apply inv.exclusive.change
        refine .keep (fun i owner => ?_) id
        obtain ⟨r, found, owns⟩ := owner
        rcases request_receive found with old | ⟨-, rfl⟩
        · exact ⟨r, old, owns⟩
        · cases owns
      · intro i r found standing
        rcases request_receive found with old | ⟨-, rfl⟩
        · exact inv.settled i r old standing
        · cases standing
  | removeAccount username => exact inv.removeAccount username
  | statement k answer =>
      rw [Setup.step]
      split
      next r found => exact inv.move found safe move_nextStatement
      next => exact inv

theorem SetupInv.setUpOnce (inv : SetupInv s) : SetUpOnce s := by
  have owner : ∀ {i}, Standing s i → Owner s i := fun ⟨r, found, standing⟩ =>
    ⟨r, found, owns_iff.mpr (.inl standing)⟩
  refine ⟨fun i j hi hj => inv.exclusive.one i j (owner hi) (owner hj), ?_⟩
  rintro i j hi ⟨r, found, setup⟩
  obtain ⟨inserted, unsettled⟩ := inserted_of_inOsSetup setup
  obtain rfl := inv.exclusive.one i j (owner hi) ⟨r, found, owns_iff.mpr (.inr inserted)⟩
  obtain ⟨q, same, standing⟩ := hi
  obtain rfl := Option.some.inj (found.symm.trans same)
  rw [inv.settled i r found standing] at unsettled
  cases unsettled

end Owners

/-! ### Whole runs -/

/-- Whatever requests are received and in whatever order their statements are
performed, setup happens once in a run whose steps are safe. -/
theorem setUpOnce_of_safe {demo : Option DemoSettings} {row : Option Str} {accounts : List Str}
    {actions : List Action} (safe : Along (step demo) Safe (initial row accounts) actions) :
    Always (step demo) SetUpOnce (initial row accounts) actions := by
  have nobody : ∀ k, ¬ Owner (initial row accounts) k := by
    rintro k ⟨r, found, -⟩
    cases found
  have start : SetupInv (initial row accounts) :=
    ⟨.of_idle nobody, fun k r found => by cases found⟩
  exact (always_of_along (fun _ _ => SetupInv.step) start safe).mono fun _ inv => inv.setUpOnce

/-- Two requests meet before the INSERT. Later the account is removed, and a third
request recovers the system. -/
def recoveredRun : List Action :=
  .receive "alice".toList 1 :: .receive "mallory".toList 2 :: statements 0 3 ++ statements 1 4 ++
    statements 0 9 ++ statements 1 1 ++ .removeAccount "alice".toList ::
    .receive "bob".toList 1 :: statements 2 17

theorem setUpOnce_of_safe_recovered :
    (exec (step none) (initial none []) recoveredRun).requests =
        [⟨"alice".toList, 1, .done .initialized, false⟩,
          ⟨"mallory".toList, 2, .done .conflict, false⟩,
          ⟨"bob".toList, 1, .done .initialized, true⟩] ∧
      Always (step none) SetUpOnce (initial none []) recoveredRun :=
  ⟨by decide, setUpOnce_of_safe (by decide)⟩

/-- Both requests have found no admin. The recovery of the second reads the admin
that the first has written meanwhile, and deletes the row of the first. -/
def overtakenRun : List Action :=
  .receive "alice".toList 1 :: .receive "mallory".toList 2 :: statements 0 3 ++ statements 1 3 ++
    statements 0 9 ++ statements 1 10

theorem setUpOnce_overtaken :
    (exec (step none) (initial none []) overtakenRun).requests =
        [⟨"alice".toList, 1, .done .initialized, true⟩,
          ⟨"mallory".toList, 2, .done .initialized, true⟩] ∧
      ¬ ∀ (row : Option Str) (accounts : List Str) (actions : List Action),
        Always (step none) SetUpOnce (initial row accounts) actions := by
  refine ⟨by decide, fun once => ?_⟩
  have last := (once none [] overtakenRun).last
  have same := last.once 0 1 ⟨⟨"alice".toList, 1, .done .initialized, true⟩, by decide⟩
    ⟨⟨"mallory".toList, 2, .done .initialized, true⟩, by decide⟩
  cases same

end Ecube.Setup
