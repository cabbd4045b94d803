import Ecube.Invariants.ProjectFilter
import Ecube.Services.AuditListing
import Mathlib.Data.List.Sort

/-!
What readers of the audit trail see.

* `listing_hides_ip`: a reader to whom addresses are not shown gets the same answer from two trails
  that differ in the addresses only.
* `export_complete`: an export ends, and holds every event that matches and is kept, whatever is
  added and expires while its pages are read.
-/

namespace Ecube.AuditTrail

open PosixPath UpperCase AuditText AuditDetails OrderBy Pages

variable {O : Type} {table : Char → Str} {casts : Casts O} {roles : List Str} {filters : Filters}
  {trail : Trail O Columns}

/-! ### Addresses -/

def Entry.hideIp (entry : Entry O Columns) : Entry O Columns :=
  { entry with columns := { entry.columns with clientIp := none } }

def Request.hideIp : Request O Columns → Request O Columns
  | .add entry => .add entry.hideIp
  | .addMany entries => .addMany (entries.map Entry.hideIp)

def Action.hideIp : Action O → Action O
  | .call made => .call { made with request := made.request.hideIp }
  | .deleteOlderThan cutoff raises => .deleteOlderThan cutoff raises

def Trail.hideIp (trail : Trail O Columns) : Trail O Columns :=
  { trail with rows := trail.rows.map AuditTrail.hideIp }

theorem matches_hideIp (row : AuditLog O Columns) :
    filters.matches table casts false (hideIp row) = filters.matches table casts false row := rfl

theorem filteredRows_hideIp (rows : List (AuditLog O Columns)) :
    filteredRows table casts filters false (rows.map hideIp) =
      (filteredRows table casts filters false rows).map hideIp := by
  rw [filteredRows, List.filter_map]
  exact congrArg (List.map hideIp) (List.filter_congr fun row _ => matches_hideIp row)

theorem orderBy_hideIp (rows : List (AuditLog O Columns)) :
    orderBy AuditLog.newest (rows.map hideIp) = (orderBy AuditLog.newest rows).map hideIp :=
  (List.map_insertionSort _ _ hideIp rows fun _ _ _ _ => Iff.rfl).symm

theorem redactIp_hideIp (hidden : ipVisible roles = false) (rows : List (AuditLog O Columns)) :
    (rows.map hideIp).map (redactIp roles) = rows.map (redactIp roles) := by
  rw [List.map_map]
  refine List.map_congr_left fun row _ => ?_
  rw [Function.comp_apply, redactIp, redactIp, hidden]
  rfl

/-- The addresses of the rows do not matter. -/
theorem listAuditLogs_hideIp (hidden : ipVisible roles = false) {includeTotal : Bool}
    {limit offset : Nat} (rows counted : List (AuditLog O Columns)) :
    listAuditLogs table casts roles filters includeTotal limit offset (rows.map hideIp)
        (counted.map hideIp) =
      listAuditLogs table casts roles filters includeTotal limit offset rows counted := by
  cases includeTotal with
  | true =>
      simp only [listAuditLogs, query, count, hidden, if_true, filteredRows_hideIp, orderBy_hideIp,
        ← List.map_drop, ← List.map_take, redactIp_hideIp hidden, List.length_map]
  | false =>
      simp only [listAuditLogs, query, hidden, Bool.false_eq_true, if_false, filteredRows_hideIp,
        orderBy_hideIp, ← List.map_drop, ← List.map_take, redactIp_hideIp hidden, List.length_map]

theorem logRows_hideIp (timestamp id : Nat) (entries : List (Entry O Columns)) :
    logRows table timestamp id (entries.map Entry.hideIp) =
      (logRows table timestamp id entries).map hideIp := by
  induction entries generalizing id with
  | nil => rfl
  | cons entry entries ih =>
      rw [List.map_cons, logRows, logRows, List.map_cons, ih]
      rfl

theorem entries_hideIp (request : Request O Columns) :
    request.hideIp.entries = request.entries.map Entry.hideIp := by
  cases request <;> rfl

theorem act_hideIp (action : Action O) :
    (trail.act table action).hideIp = trail.hideIp.act table action.hideIp := by
  cases action with
  | call made =>
      rw [Trail.act, Action.hideIp, Trail.act, Trail.step, Trail.step, Trail.hideIp, Trail.hideIp]
      dsimp only
      rw [entries_hideIp, logRows_hideIp, List.length_map]
      congr 1
      split
      · rfl
      · exact List.map_append
  | deleteOlderThan cutoff raises =>
      rw [Trail.act, Action.hideIp, Trail.act]
      cases raises with
      | true => rfl
      | false =>
          rw [if_neg Bool.false_ne_true, if_neg Bool.false_ne_true, Trail.hideIp, Trail.hideIp]
          dsimp only
          rw [List.filter_map]
          rfl

theorem acts_hideIp (actions : List (Action O)) :
    (trail.acts table actions).hideIp = trail.hideIp.acts table (actions.map Action.hideIp) := by
  induction actions generalizing trail with
  | nil => rfl
  | cons action actions ih =>
      rw [Trail.acts, List.foldl_cons, ← Trail.acts, ih, act_hideIp]
      rfl

variable (table trail) in
theorem after_hideIp (batches : Nat → List (Action O)) (n : Nat) :
    (trail.after table batches n).hideIp =
      trail.hideIp.after table (fun k => (batches k).map Action.hideIp) n := by
  induction n with
  | zero => rfl
  | succ n ih => rw [Trail.after, acts_hideIp, ih, Trail.after]

/-- A reader to whom addresses are not shown gets the same answer from two trails whose events
differ in the addresses only. -/
theorem listing_hides_ip (hidden : ipVisible roles = false) {trail trail' : Trail O Columns}
    (same : trail.hideIp = trail'.hideIp) {batches batches' : Nat → List (Action O)}
    (alike : ∀ k, (batches k).map Action.hideIp = (batches' k).map Action.hideIp)
    (includeTotal : Bool) (limit offset queried counted : Nat) :
    listAuditLogs table casts roles filters includeTotal limit offset
        (trail.after table batches queried).rows (trail.after table batches counted).rows =
      listAuditLogs table casts roles filters includeTotal limit offset
        (trail'.after table batches' queried).rows (trail'.after table batches' counted).rows := by
  have rows : ∀ n, (trail.after table batches n).rows.map hideIp =
      (trail'.after table batches' n).rows.map hideIp := by
    intro n
    have hide := after_hideIp table trail batches n
    rw [same, funext alike, ← after_hideIp] at hide
    exact congrArg Trail.rows hide
  rw [← listAuditLogs_hideIp hidden, rows queried, rows counted, listAuditLogs_hideIp hidden]

/-- An event at a time, with the address it came from. -/
def loginEntry (ip : String) : Entry Unit Columns where
  projectId := none
  details := []
  columns := ⟨some "ann".toList, "LOGIN".toList, none, none, some ip.toList⟩

def loginCall (ip : String) (timestamp : Nat) : Call Unit Columns where
  request := .add (loginEntry ip)
  timestamp := timestamp
  raises := false

def loginTrail (ip : String) : Trail Unit Columns :=
  Trail.acts asciiTable ⟨[], 1⟩ [.call (loginCall ip 3), .call (loginCall ip 7)]

/-- One more event, and those before a time expire. -/
def oneLogin (ip : String) : Nat → List (Action Unit)
  | 0 => [.call (loginCall ip 9), .deleteOlderThan 5 false]
  | _ => []

def noFilters : Filters := ⟨none, none, none, none, none, none, none, none⟩

def plainCasts : Casts Unit := ⟨id, fun _ => [], fun _ => []⟩

theorem hideIp_loginTrail (ip ip' : String) : (loginTrail ip).hideIp = (loginTrail ip').hideIp := by
  have alike : ∀ timestamp, Action.hideIp (.call (loginCall ip timestamp)) =
      Action.hideIp (.call (loginCall ip' timestamp)) := fun _ => rfl
  rw [loginTrail, loginTrail, acts_hideIp, acts_hideIp, List.map_cons, List.map_cons, alike, alike]
  rfl

theorem hideIp_oneLogin (ip ip' : String) (k : Nat) :
    (oneLogin ip k).map Action.hideIp = (oneLogin ip' k).map Action.hideIp := by
  cases k <;> rfl

theorem listing_hides_ip_login :
    listAuditLogs asciiTable plainCasts ["processor".toList] noFilters true 10 0
        (Trail.after asciiTable (loginTrail "10.0.0.1") (oneLogin "10.0.0.1") 1).rows
        (Trail.after asciiTable (loginTrail "10.0.0.1") (oneLogin "10.0.0.1") 2).rows =
      listAuditLogs asciiTable plainCasts ["processor".toList] noFilters true 10 0
        (Trail.after asciiTable (loginTrail "10.0.0.2") (oneLogin "10.0.0.2") 1).rows
        (Trail.after asciiTable (loginTrail "10.0.0.2") (oneLogin "10.0.0.2") 2).rows :=
  listing_hides_ip (by decide) (hideIp_loginTrail _ _) (hideIp_oneLogin _ _) true 10 0 1 2

/-! ### Events that are kept -/

/-- The ids of the rows differ, and come before the next one. -/
structure Trail.Fresh (trail : Trail O Columns) : Prop where
  ids : trail.rows.Pairwise fun a b => a.id ≠ b.id
  bound : ∀ row ∈ trail.rows, row.id < trail.nextId

theorem id_of_mem_logRows {timestamp id : Nat} {entries : List (Entry O Columns)}
    {row : AuditLog O Columns} (mem : row ∈ logRows table timestamp id entries) :
    id ≤ row.id ∧ row.id < id + entries.length := by
  induction entries generalizing id with
  | nil => cases mem
  | cons entry entries ih =>
      rw [List.length_cons]
      rcases List.mem_cons.mp mem with rfl | later
      · exact ⟨Nat.le_refl id, Nat.lt_add_of_pos_right (Nat.succ_pos _)⟩
      · have := ih later
        omega

theorem pairwise_logRows (timestamp id : Nat) (entries : List (Entry O Columns)) :
    (logRows table timestamp id entries).Pairwise fun a b => a.id ≠ b.id := by
  induction entries generalizing id with
  | nil => exact List.Pairwise.nil
  | cons entry entries ih =>
      refine List.pairwise_cons.mpr ⟨fun row mem same => ?_, ih (id + 1)⟩
      have := (id_of_mem_logRows mem).1
      have first : (auditLog table id timestamp entry).id = id := rfl
      omega

variable (table trail)

theorem nextId_act_le (action : Action O) : trail.nextId ≤ (trail.act table action).nextId := by
  cases action with
  | call made => exact Nat.le_add_right _ _
  | deleteOlderThan cutoff raises => cases raises <;> exact Nat.le_refl _

/-- Of the rows with an id that was given before, an action keeps those from some time on. -/
theorem exists_kept_act (action : Action O) : ∃ cutoff, ∀ row : AuditLog O Columns,
    row.id < trail.nextId →
      (row ∈ (trail.act table action).rows ↔ row ∈ trail.rows ∧ cutoff ≤ row.timestamp) := by
  cases action with
  | call made =>
      refine ⟨0, fun row given => ?_⟩
      rw [Trail.act, Trail.step, and_iff_left (Nat.zero_le _)]
      dsimp only
      split
      · rfl
      · have new : row ∉ logRows table made.timestamp trail.nextId made.request.entries :=
          fun mem => absurd (id_of_mem_logRows mem).1 (Nat.not_le.mpr given)
        rw [List.mem_append, or_iff_left new]
  | deleteOlderThan cutoff raises =>
      cases raises with
      | true => exact ⟨0, fun row _ => (and_iff_left (Nat.zero_le _)).symm⟩
      | false =>
          refine ⟨cutoff, fun row _ => ?_⟩
          rw [Trail.act, if_neg Bool.false_ne_true, List.mem_filter, decide_eq_true_iff]

theorem nextId_acts_le (actions : List (Action O)) :
    trail.nextId ≤ (trail.acts table actions).nextId := by
  induction actions generalizing trail with
  | nil => exact Nat.le_refl _
  | cons action actions ih => exact Nat.le_trans (nextId_act_le table trail action) (ih _)

theorem exists_kept_acts (actions : List (Action O)) : ∃ cutoff, ∀ row : AuditLog O Columns,
    row.id < trail.nextId →
      (row ∈ (trail.acts table actions).rows ↔ row ∈ trail.rows ∧ cutoff ≤ row.timestamp) := by
  induction actions generalizing trail with
  | nil => exact ⟨0, fun row _ => (and_iff_left (Nat.zero_le _)).symm⟩
  | cons action actions ih =>
      obtain ⟨first, kept⟩ := exists_kept_act table trail action
      obtain ⟨later, kept'⟩ := ih (trail.act table action)
      refine ⟨max first later, fun row given => ?_⟩
      have given' := Nat.lt_of_lt_of_le given (nextId_act_le table trail action)
      rw [Trail.acts, List.foldl_cons, ← Trail.acts, kept' row given', kept row given, and_assoc,
        ← Nat.max_le]

variable {trail}

theorem fresh_act (fresh : trail.Fresh) (action : Action O) :
    (trail.act table action).Fresh := by
  cases action with
  | call made =>
      rw [Trail.act, Trail.step]
      constructor
      · dsimp only
        split
        · exact fresh.ids
        · refine List.pairwise_append.mpr ⟨fresh.ids, pairwise_logRows _ _ _, ?_⟩
          intro old held new mem
          have := fresh.bound old held
          have := (id_of_mem_logRows mem).1
          omega
      · dsimp only
        intro row mem
        split at mem
        · exact Nat.lt_of_lt_of_le (fresh.bound row mem) (Nat.le_add_right _ _)
        · rcases List.mem_append.mp mem with held | new
          · exact Nat.lt_of_lt_of_le (fresh.bound row held) (Nat.le_add_right _ _)
          · exact (id_of_mem_logRows new).2
  | deleteOlderThan cutoff raises =>
      cases raises with
      | true => exact fresh
      | false =>
          exact ⟨fresh.ids.filter _, fun row mem => fresh.bound row (List.mem_of_mem_filter mem)⟩

theorem fresh_acts (fresh : trail.Fresh) (actions : List (Action O)) :
    (trail.acts table actions).Fresh := by
  induction actions generalizing trail with
  | nil => exact fresh
  | cons action actions ih => exact ih (fresh_act table fresh action)

theorem fresh_after (fresh : trail.Fresh) (batches : Nat → List (Action O)) (n : Nat) :
    (trail.after table batches n).Fresh := by
  induction n with
  | zero => exact fresh
  | succ n ih => exact fresh_acts table ih _

variable (trail) in
theorem after_add (batches : Nat → List (Action O)) (m n : Nat) :
    trail.after table batches (m + n) =
      (trail.after table batches m).after table (fun k => batches (m + k)) n := by
  induction n with
  | zero => rfl
  | succ n ih => rw [← Nat.add_assoc, Trail.after, Trail.after, ih]

variable (trail) in
/-- Of the rows with an id that was given before, those from some time on are kept. -/
theorem exists_kept_after (batches : Nat → List (Action O)) (n : Nat) :
    trail.nextId ≤ (trail.after table batches n).nextId ∧
      ∃ cutoff, ∀ row : AuditLog O Columns, row.id < trail.nextId →
        (row ∈ (trail.after table batches n).rows ↔
          row ∈ trail.rows ∧ cutoff ≤ row.timestamp) := by
  induction n with
  | zero => exact ⟨Nat.le_refl _, 0, fun row _ => (and_iff_left (Nat.zero_le _)).symm⟩
  | succ n ih =>
      obtain ⟨grows, first, kept⟩ := ih
      obtain ⟨later, kept'⟩ := exists_kept_acts table (trail.after table batches n) (batches n)
      refine ⟨Nat.le_trans grows (nextId_acts_le _ _ _), max first later, fun row given => ?_⟩
      rw [Trail.after, kept' row (Nat.lt_of_lt_of_le given grows), kept row given, and_assoc,
        ← Nat.max_le]

/-- A row that is there and is still there later was there in between. -/
theorem mem_between (fresh : trail.Fresh) {batches : Nat → List (Action O)} {m n : Nat}
    (within : m ≤ n) {row : AuditLog O Columns} (first : row ∈ trail.rows)
    (last : row ∈ (trail.after table batches n).rows) :
    row ∈ (trail.after table batches m).rows := by
  obtain ⟨grows, -, -⟩ := exists_kept_after table trail batches m
  obtain ⟨k, rfl⟩ := Nat.exists_eq_add_of_le within
  rw [after_add] at last
  obtain ⟨-, cutoff, kept⟩ := exists_kept_after table (trail.after table batches m)
    (fun k => batches (m + k)) k
  exact ((kept row (Nat.lt_of_lt_of_le (fresh.bound row first) grows)).mp last).1

variable (casts : Casts O) (roles : List Str) (filters : Filters)

/-! ### Pages -/

/-- The rows that a query with these filters would list, the newest first. -/
def listed (trail : Trail O Columns) : List (AuditLog O Columns) :=
  orderBy AuditLog.newest (filteredRows table casts filters (ipVisible roles) trail.rows)

variable {table casts roles filters} in
theorem mem_listed {row : AuditLog O Columns} : row ∈ listed table casts roles filters trail ↔
    row ∈ trail.rows ∧ filters.matches table casts (ipVisible roles) row = true :=
  mem_orderBy.trans List.mem_filter

theorem sorted_listed (fresh : trail.Fresh) : (listed table casts roles filters trail).Pairwise
    fun a b => AuditLog.newest a < AuditLog.newest b := by
  have ids : (listed table casts roles filters trail).Pairwise fun a b => a.id ≠ b.id :=
    (perm_orderBy.pairwise_iff fun differ => Ne.symm differ).mpr (fresh.ids.filter _)
  refine (pairwise_orderBy.and ids).imp fun {a b} both => ?_
  refine lt_of_le_of_ne (of_decide_eq_true both.1) fun same => both.2 ?_
  exact congrArg (fun key => (ofLex (OrderDual.ofDual key)).2) same

theorem timestamp_le_of_newest_lt {a b : AuditLog O Columns}
    (newer : AuditLog.newest a < AuditLog.newest b) : b.timestamp ≤ a.timestamp := by
  have less : toLex (b.timestamp, b.id) < toLex (a.timestamp, a.id) := newer
  rcases Prod.Lex.toLex_lt_toLex.mp less with older | ⟨same, -⟩
  · exact Nat.le_of_lt older
  · exact Nat.le_of_eq same

/-- Only the oldest of the events that are listed expire. -/
theorem trailing_after (fresh : trail.Fresh) (batches : Nat → List (Action O)) (n : Nat) :
    Trailing AuditLog.newest (listed table casts roles filters trail)
      (listed table casts roles filters (trail.after table batches n)) := by
  obtain ⟨-, cutoff, kept⟩ := exists_kept_after table trail batches n
  intro r mem stays a mem' newer
  obtain ⟨held, -⟩ := mem_listed.mp mem
  obtain ⟨held', matched⟩ := mem_listed.mp mem'
  refine mem_listed.mpr ⟨(kept a (fresh.bound a held')).mpr ⟨held', ?_⟩, matched⟩
  have recent := ((kept r (fresh.bound r held)).mp (mem_listed.mp stays).1).2
  exact Nat.le_trans recent (timestamp_le_of_newest_lt newer)

theorem length_listed : (listed table casts roles filters trail).length =
    count table casts filters (ipVisible roles) trail.rows :=
  perm_orderBy.length_eq

/-- Both ways to tell whether more events follow are reliable. -/
theorem serves_listAuditLogs (fresh : trail.Fresh) (batches : Nat → List (Action O))
    (includeTotal : Bool) (limit : Nat) :
    Serves AuditLog.newest
      (fun k => listed table casts roles filters (trail.after table batches (2 * k)))
      (fun k => listed table casts roles filters (trail.after table batches (2 * k + 1)))
      (redactIp roles) limit fun k offset =>
        let response := listAuditLogs table casts roles filters includeTotal limit offset
          (trail.after table batches (2 * k)).rows (trail.after table batches (2 * k + 1)).rows
        (response.entries, response.hasMore) where
  entries k offset := by
    cases includeTotal with
    | true => rfl
    | false =>
        simp only [listAuditLogs, query, listed, Bool.false_eq_true, if_false, List.take_take]
        rw [Nat.min_eq_left (Nat.le_succ limit)]
  last k offset done r now later := by
    have fresh' := fresh_after table fresh batches (2 * k)
    let rows := listed table casts roles filters (trail.after table batches (2 * k))
    have within : (ahead AuditLog.newest rows r).length < rows.length :=
      length_ahead_lt (sorted_listed table casts roles filters fresh') now
    change (ahead AuditLog.newest rows r).length < offset + limit
    cases includeTotal with
    | true =>
        have trailing := trailing_after table casts roles filters fresh'
          (fun i => batches (2 * k + i)) 1
        rw [← after_add] at trailing
        have counted : (ahead AuditLog.newest rows r).length < _ := length_ahead_lt_of_trailing
          (sorted_listed table casts roles filters fresh') trailing now later
        rw [length_listed] at counted
        have stop := of_decide_eq_false done
        change ¬ offset + ((rows.drop offset).take limit).length < _ at stop
        rw [List.length_take, List.length_drop] at stop
        omega
    | false =>
        have stop := of_decide_eq_false done
        change ¬ limit < ((rows.drop offset).take (limit + 1)).length at stop
        rw [List.length_take, List.length_drop] at stop
        omega

/-- An export ends if the number of events is bounded: it reads a number of pages. It then holds
each event that matches and is there until the last page has been counted, and none that does not
match. -/
theorem export_complete (fresh : trail.Fresh) (batches : Nat → List (Action O))
    (includeTotal : Bool) {limit : Nat} (pos : 0 < limit) {most : Nat}
    (bounded : ∀ n, (trail.after table batches n).rows.length ≤ most) :
    ∃ pages entries, 0 < pages ∧ pages ≤ most + 1 ∧
      (∀ fuel, exportCsv table casts trail batches roles filters includeTotal limit fuel =
        if pages ≤ fuel then some entries else none) ∧
      (∀ row ∈ trail.rows, filters.matches table casts (ipVisible roles) row = true →
        row ∈ (trail.after table batches (2 * pages - 1)).rows → redactIp roles row ∈ entries) ∧
      ∀ entry ∈ entries, ∃ k < pages, ∃ row ∈ (trail.after table batches (2 * k)).rows,
        filters.matches table casts (ipVisible roles) row = true ∧ redactIp roles row = entry := by
  have serves := serves_listAuditLogs table casts roles filters fresh batches includeTotal limit
  have few : ∀ k, (listed table casts roles filters
      (trail.after table batches (2 * k))).length ≤ most := by
    intro k
    rw [length_listed]
    exact Nat.le_trans (List.length_filter_le _ _) (bounded _)
  obtain ⟨entries, ended⟩ := Option.isSome_iff_exists.mp
    (isSome_collect serves few (k := 0) (by omega : most < most + 1 + 0) (Nat.succ_pos most))
  obtain ⟨pages, some', within, ends⟩ := exists_pages ended
  have done := (ends pages).trans (if_pos (Nat.le_refl pages))
  refine ⟨pages, entries, some', within, ends, ?_, ?_⟩
  · intro row first matched last
    have sorted := fun k => sorted_listed table casts roles filters
      (fresh_after table fresh batches (2 * k))
    refine mem_collect pos sorted ?_ serves (Nat.zero_le _) ?_ done
    · intro k
      have later := trailing_after table casts roles filters
        (fresh_after table fresh batches (2 * k))
        (fun i => batches (2 * k + i)) 2
      rwa [← after_add] at later
    · intro i less
      rw [Nat.zero_add]
      exact ⟨mem_listed.mpr ⟨mem_between table fresh (by omega) first last, matched⟩,
        mem_listed.mpr ⟨mem_between table fresh (by omega) first last, matched⟩⟩
  · intro entry mem
    obtain ⟨i, less, row, held, rfl⟩ := mem_of_collect serves done mem
    rw [Nat.zero_add] at held
    obtain ⟨there, matched⟩ := mem_listed.mp held
    exact ⟨i, less, row, there, matched, rfl⟩

theorem fresh_loginTrail (ip : String) : (loginTrail ip).Fresh :=
  fresh_acts asciiTable ⟨List.Pairwise.nil, fun _ mem => absurd mem List.not_mem_nil⟩ _

theorem length_oneLogin_le (ip : String) (n : Nat) :
    (Trail.after asciiTable (loginTrail ip) (oneLogin ip) n).rows.length ≤ 2 := by
  cases n with
  | zero => exact Nat.le_refl 2
  | succ n =>
      induction n with
      | zero => exact Nat.le_refl 2
      | succ n ih => exact ih

/-- The event of time 7 stays. -/
theorem mem_after_oneLogin (n : Nat) : auditLog asciiTable 2 7 (loginEntry "10.0.0.1") ∈
    (Trail.after asciiTable (loginTrail "10.0.0.1") (oneLogin "10.0.0.1") (n + 1)).rows := by
  induction n with
  | zero => exact List.mem_cons_self
  | succ n ih => exact ih

/-- The event of time 7 is exported, the one of time 9 is added while pages are read. -/
theorem export_complete_login : ∃ entries,
    exportCsv asciiTable plainCasts (loginTrail "10.0.0.1") (oneLogin "10.0.0.1")
        ["auditor".toList] noFilters true 1 3 = some entries ∧
      auditLog asciiTable 2 7 (loginEntry "10.0.0.1") ∈ entries := by
  obtain ⟨pages, entries, some', within, ends, kept, -⟩ := export_complete asciiTable plainCasts
    ["auditor".toList] noFilters (fresh_loginTrail "10.0.0.1") (oneLogin "10.0.0.1") true
    Nat.one_pos (length_oneLogin_le "10.0.0.1")
  refine ⟨entries, (ends 3).trans (if_pos within), ?_⟩
  refine kept (auditLog asciiTable 2 7 (loginEntry "10.0.0.1"))
    (List.mem_cons_of_mem _ List.mem_cons_self) rfl ?_
  obtain ⟨n, eq⟩ : ∃ n, 2 * pages - 1 = n + 1 := ⟨2 * pages - 2, by omega⟩
  rw [eq]
  exact mem_after_oneLogin n

end Ecube.AuditTrail
