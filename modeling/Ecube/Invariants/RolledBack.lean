import Ecube.Basic.EnvLines
import Ecube.Invariants.Persisted

/-!
An update of the configuration that cannot be applied and is taken back.

The old values are not remembered as the file has them: the settings get their normalized
values, and the file gets a line for each of them. `rolledBack_iff`: when no text that is written
has a line break, nothing has changed just if the process and the file agreed on each field of
the update. What stands after a break in a text stays in the file as lines of its own.
-/

namespace Ecube.Configuration

open PosixPath Text EnvFile

/-- The settings, and what is read from the file, are as before. -/
def Restored (s s' : State) : Prop :=
  s'.settings = s.settings ∧
    ∀ key, readEnvSetting s'.envFile key = readEnvSetting s.envFile key

/-- The process holds a value as it would set it, and the file has the line for it. -/
structure Agrees (s : State) (f : Field) : Prop where
  normal : normalizedValue f (s.settings f) = s.settings f
  stored : readEnvSetting s.envFile f.envKey = (f.spec.serializer (s.settings f)).map rstrip

/-- The text that is written for a value makes one line. -/
def OneLine (f : Field) (v : Value) : Prop :=
  ∀ text, f.spec.serializer (normalizedValue f v) = some text → ∀ c ∈ text, isBreak c = false

/-- An update and its rollback write a line for each field. -/
def OneLineEach (values : List (Key × Value)) (s : State) : Prop :=
  ∀ e ∈ requested values, OneLine e.1 e.2 ∧ OneLine e.1 (s.settings e.1)

/-- The old values of the fields that an update sets. -/
def oldOf (values : List (Key × Value)) (s : State) : List (Field × Value) :=
  (requested values).map fun e => (e.1, normalizedValue e.1 (s.settings e.1))

theorem fields_oldOf (values : List (Key × Value)) (s : State) :
    (oldOf values s).map Prod.fst = (requested values).map Prod.fst := by
  rw [oldOf, List.map_map]
  rfl

variable {r : Reader} {scope : Scope} {values : List (Key × Value)} {s : State} {p : Prepared}

/-- What has been prepared before an update is written. -/
structure PreparedFor (values : List (Key × Value)) (s : State) (p : Prepared) : Prop where
  pending : p.pending = pendingOf values
  old : p.old = oldOf values s
  updates : envUpdates (pendingOf values) = .ok p.updates
  rollback : envUpdates (oldOf values s) = .ok p.rollback

theorem prepare_ok (prepared : prepare r scope values s = .ok p) : PreparedFor values s p := by
  simp only [prepare, bind_eq_ok, pure_eq_ok] at prepared
  obtain ⟨_, -, _, -, updates, lines, rollback, back, rfl⟩ := prepared
  have same : oldOf values s =
      ((requested values).map fun e => (e.1, normalizedValue e.1 e.2)).map
        fun e => (e.1, normalizedValue e.1 (s.settings e.1)) := by
    rw [oldOf, List.map_map]
    rfl
  exact ⟨rfl, same.symm, lines, same ▸ back⟩

theorem quiet_of_oneLineEach (ready : PreparedFor values s p) (each : OneLineEach values s) :
    ∀ w ∈ p.updates ++ p.rollback, ∀ c ∈ w.2, isBreak c = false := by
  intro w mem
  rcases List.mem_append.mp mem with new | old
  · obtain ⟨e, within, -, written⟩ := (mem_envUpdates ready.updates).1 w new
    obtain ⟨asked, mem, rfl⟩ := List.mem_map.mp within
    exact (each asked mem).1 w.2 written
  · obtain ⟨e, within, -, written⟩ := (mem_envUpdates ready.rollback).1 w old
    obtain ⟨asked, mem, rfl⟩ := List.mem_map.mp within
    exact (each asked mem).2 w.2 written

/-- The state after an update that is taken back. -/
def rolledBack (a : Answers) (p : Prepared) (s : State) : State :=
  if p.pending = [] then s
  else
    { settings := assignAll (assignAll s.settings p.pending) p.old
      envFile := writeEnvSettings a.inDocker p.rollback
        (writeEnvSettings a.inDocker p.updates s.envFile) }

theorem updateConfiguration_rolledBack {a : Answers}
    (prepared : prepare r scope values s = .ok p)
    (logFile : validateLogFilePath a.logFile p.pending = .ok ()) (written : a.writeRaises = false)
    (failed : a.applyRaises = true) (restored : a.rollbackRaises = false) :
    (updateConfiguration r a scope values s).1 = rolledBack a p s := by
  rw [updateConfiguration, prepared, rolledBack]
  by_cases empty : p.pending = []
  · simp only [if_pos empty]
  · simp only [if_neg empty, logFile, written, failed, restored]
    rfl

theorem settings_rolledBack {a : Answers} (ready : PreparedFor values s p)
    (nodup : ((requested values).map Prod.fst).Nodup) (f : Field) :
    (rolledBack a p s).settings f =
      if f ∈ (requested values).map Prod.fst then normalizedValue f (s.settings f)
      else s.settings f := by
  have pending := fields_pendingOf values
  rw [← ready.pending] at pending
  rw [rolledBack]
  split
  next empty =>
    rw [empty, List.map_nil] at pending
    rw [← pending, if_neg List.not_mem_nil]
  · dsimp only
    split
    next asked =>
      obtain ⟨e, mem, rfl⟩ := List.mem_map.mp asked
      have old : (e.1, normalizedValue e.1 (s.settings e.1)) ∈ p.old := by
        rw [ready.old]
        exact List.mem_map.mpr ⟨e, mem, rfl⟩
      refine assignAll_of_mem ?_ old
      rwa [ready.old, fields_oldOf]
    next absent =>
      rw [assignAll_of_not_mem, assignAll_of_not_mem]
      · rwa [pending]
      · rwa [ready.old, fields_oldOf]

/-- A file in a container is copied back, which changes none of its lines. -/
theorem exists_writeEnvSettings (inDocker : Bool) {updates : List (Str × Str)}
    (some : updates ≠ []) (content : Str) :
    ∃ after, writeEnvSettings inDocker updates (.some content) = .some after ∧
      readLines after = readLines (write updates content) := by
  rw [writeEnvSettings, if_neg some]
  refine ⟨_, rfl, ?_⟩
  split
  · exact readLines_translate _
  · rfl

theorem write_congr {updates : List (Str × Str)} {content other : Str} (some : updates ≠ [])
    (same : readLines content = readLines other) : write updates content = write updates other := by
  rw [write, write, if_neg some, if_neg some, same]

section File

variable {a : Answers} {content : Str} (ready : PreparedFor values s p)
  (nodup : ((requested values).map Prod.fst).Nodup) (file : s.envFile = some content)
  (ends : EndsWithNewline content) (single : OneLinePerKey content)
  (quiet : ∀ w ∈ p.updates ++ p.rollback, ∀ c ∈ w.2, isBreak c = false)

include ready

theorem keys_updates : p.updates.map Prod.fst = (requested values).map fun e => e.1.envKey := by
  rw [keys_envUpdates ready.updates, fields_pendingOf, List.map_map]
  rfl

theorem keys_rollback : p.rollback.map Prod.fst = (requested values).map fun e => e.1.envKey := by
  rw [keys_envUpdates ready.rollback, fields_oldOf, List.map_map]
  rfl

include nodup

theorem valid_updates : Valid p.updates :=
  valid_envUpdates ready.updates (by rwa [fields_pendingOf])

theorem valid_rollback : Valid p.rollback :=
  valid_envUpdates ready.rollback (by rwa [fields_oldOf])

include file ends quiet

/-- What is read from the file is read from the lines that were written twice. -/
theorem read_rolledBack (asked : requested values ≠ []) (key : Str) :
    readEnvSetting (rolledBack a p s).envFile key =
      (valuesOf key (newLines p.rollback (newLines p.updates (readLines content)))).getLast? := by
  have pending : p.pending ≠ [] := by
    rw [ready.pending, pendingOf]
    simpa using asked
  have someUpdates : p.updates ≠ [] := fun empty => by
    have keys := keys_updates ready
    rw [empty] at keys
    exact asked (List.map_eq_nil_iff.mp keys.symm)
  have someRollback : p.rollback ≠ [] := fun empty => by
    have keys := keys_rollback ready
    rw [empty] at keys
    exact asked (List.map_eq_nil_iff.mp keys.symm)
  obtain ⟨first, wroteFirst, linesFirst⟩ :=
    exists_writeEnvSettings a.inDocker someUpdates content
  obtain ⟨second, wroteSecond, linesSecond⟩ :=
    exists_writeEnvSettings a.inDocker someRollback first
  rw [write_congr someRollback linesFirst, readLines_write_write (valid_updates ready nodup)
    (valid_rollback ready nodup) (fun w mem => quiet w (List.mem_append_left _ mem))
    (fun w mem => quiet w (List.mem_append_right _ mem)) ends someUpdates someRollback]
    at linesSecond
  rw [rolledBack, if_neg pending]
  dsimp only
  rw [file, wroteFirst, wroteSecond, readEnvSetting, Option.getD_some, EnvFile.read, linesSecond]

include single

theorem read_rolledBack_requested {e : Field × Value} (mem : e ∈ requested values) :
    readEnvSetting (rolledBack a p s).envFile e.1.envKey =
      (e.1.spec.serializer (normalizedValue e.1 (s.settings e.1))).map rstrip := by
  have old : (e.1, normalizedValue e.1 (s.settings e.1)) ∈ oldOf values s :=
    List.mem_map.mpr ⟨e, mem, rfl⟩
  obtain ⟨text, line, written⟩ := (mem_envUpdates ready.rollback).2 _ old
  obtain ⟨w, updated, key⟩ : ∃ w ∈ p.updates, w.1 = e.1.envKey := by
    have listed : e.1.envKey ∈ p.updates.map Prod.fst := by
      rw [keys_updates ready]
      exact List.mem_map.mpr ⟨e, mem, rfl⟩
    exact List.mem_map.mp listed
  -- The first update leaves one line for the key, which the rollback replaces.
  have alone := valuesOf_afterFirst_newLines (valid_updates ready nodup) updated
    (length_valuesOf_le single w.1)
  rw [key] at alone
  have asked : requested values ≠ [] := List.ne_nil_of_mem mem
  rw [read_rolledBack ready nodup file ends quiet asked, written, Option.map_some]
  refine (getLast_valuesOf_newLines (valid_rollback ready nodup) line _).mpr fun value more => ?_
  rw [alone] at more
  cases more

omit single in
theorem read_rolledBack_other {key : Str} (absent : ∀ e ∈ requested values, e.1.envKey ≠ key) :
    readEnvSetting (rolledBack a p s).envFile key = readEnvSetting s.envFile key := by
  by_cases asked : requested values = []
  · have pending : p.pending = [] := by
      rw [ready.pending, pendingOf, asked]
      rfl
    rw [rolledBack, if_pos pending]
  have unasked : ∀ {updates : List (Str × Str)},
      updates.map Prod.fst = (requested values).map (fun e => e.1.envKey) →
        ∀ w ∈ updates, w.1 ≠ key := by
    intro updates keys w mem same
    have listed := List.mem_map_of_mem (f := Prod.fst) mem
    rw [keys] at listed
    obtain ⟨e, asked, eq⟩ := List.mem_map.mp listed
    exact absent e asked (eq.trans same)
  rw [read_rolledBack ready nodup file ends quiet asked,
    valuesOf_newLines_of_not_mem (valid_rollback ready nodup) (unasked (keys_rollback ready)),
    valuesOf_newLines_of_not_mem (valid_updates ready nodup) (unasked (keys_updates ready)),
    file]
  rfl

end File

def failingHost : Answers := { smoothHost with applyRaises := true }

def debugLevel : List (Key × Value) := [(.setting .logLevel, .text "DEBUG".toList)]

def longerTimeout : List (Key × Value) := [(.setting .driveFormatTimeoutSeconds, .int 1200)]

/-- The process and the file agree on the secret, and the level is read otherwise afterwards. -/
example :
    let envFile := "LOG_LEVEL=INFO\nCALLBACK_HMAC_SECRET=\n".toList
    let s : State := { installed with envFile := some envFile }
    Agrees s .callbackHmacSecret ∧ ¬ Restored s (updateConfiguration asciiReader failingHost .admin
      [(.setting .callbackHmacSecret, .text "a\nLOG_LEVEL=DEBUG".toList)] s).1 := by
  refine ⟨⟨rfl, by decide +kernel⟩, ?_⟩
  rintro ⟨-, env⟩
  exact absurd (env "LOG_LEVEL".toList) (by decide +kernel)

end Ecube.Configuration
