import Ecube.Basic.EnvFile
import Ecube.Basic.Integers
import Ecube.Basic.JsonText
import Ecube.Services.ConfigurationRequest

/-!
Runtime-editable settings: `configuration_service`, and the file that keeps them,
`_read_env_settings` and `_write_env_settings` of `database_service`.

An update sets the settings of the process and writes them to the file. They are read from
the file again by the kind of their field and by the value that the process holds.
-/

namespace Ecube.Configuration

open PosixPath Text EnvFile JsonText Integers

/-- What is read beyond the texts that an update writes: decimal digits that are not ASCII, and
`list(json.loads(text))` and `dict(json.loads(text))` of other JSON texts, as the text of the
result. Where there is no result an exception is raised. -/
structure Reader where
  digit : Char → Option Nat
  listOf : Str → Option Str
  dictOf : Str → Option Str

structure State where
  settings : Field → Value
  envFile : Option Str

/-! ### The table of the fields -/

/-- `str(value)`. The fields that are written so hold no lists or dictionaries. -/
def serializePlain : Value → Option Str
  | .none => some "None".toList
  | .bool b => some (if b then "True".toList else "False".toList)
  | .int n => strInt n
  | .text s => some s
  | .list _ | .map _ | .other _ => none

def serializeText : Value → Option Str
  | .none => some []
  | v => (serializePlain v).map strip

def serializeLogFile : Value → Option Str := serializeText

def serializeCallbackDefaultUrl : Value → Option Str := serializeText

def serializeCallbackHmacSecret : Value → Option Str := serializeText

def serializeCallbackProxyUrl : Value → Option Str := serializeText

/-- `json.dumps`, and nothing for null. -/
def serializeJsonValue : Value → Option Str
  | .none => some []
  | .bool b => some (if b then "true".toList else "false".toList)
  | .int n => strInt n
  | .text s => some (quoted s)
  | .list items => some (dumpsList items)
  | .map members => some (dumpsMap members)
  | .other json => some json

structure FieldSpec where
  envKey : String
  requiresRestart : Bool
  serializer : Value → Option Str

/-- `_EDITABLE_FIELDS`. -/
def Field.spec : Field → FieldSpec
  | .logLevel => ⟨"LOG_LEVEL", false, serializePlain⟩
  | .logFormat => ⟨"LOG_FORMAT", false, serializePlain⟩
  | .logFile => ⟨"LOG_FILE", false, serializeLogFile⟩
  | .logFileMaxBytes => ⟨"LOG_FILE_MAX_BYTES", false, serializePlain⟩
  | .logFileBackupCount => ⟨"LOG_FILE_BACKUP_COUNT", false, serializePlain⟩
  | .nfsClientVersion => ⟨"NFS_CLIENT_VERSION", false, serializePlain⟩
  | .dbPoolSize => ⟨"DB_POOL_SIZE", false, serializePlain⟩
  | .dbPoolMaxOverflow => ⟨"DB_POOL_MAX_OVERFLOW", false, serializePlain⟩
  | .dbPoolRecycleSeconds => ⟨"DB_POOL_RECYCLE_SECONDS", true, serializePlain⟩
  | .startupAnalysisBatchSize => ⟨"STARTUP_ANALYSIS_BATCH_SIZE", false, serializePlain⟩
  | .startupAnalysisSmallFileMaxBytes =>
      ⟨"STARTUP_ANALYSIS_SMALL_FILE_MAX_BYTES", false, serializePlain⟩
  | .startupAnalysisLargeFileMinBytes =>
      ⟨"STARTUP_ANALYSIS_LARGE_FILE_MIN_BYTES", false, serializePlain⟩
  | .mkfsExfatClusterSize => ⟨"MKFS_EXFAT_CLUSTER_SIZE", false, serializePlain⟩
  | .driveFormatTimeoutSeconds => ⟨"DRIVE_FORMAT_TIMEOUT_SECONDS", false, serializePlain⟩
  | .driveMountTimeoutSeconds => ⟨"DRIVE_MOUNT_TIMEOUT_SECONDS", false, serializePlain⟩
  | .networkMountTimeoutSeconds => ⟨"NETWORK_MOUNT_TIMEOUT_SECONDS", false, serializePlain⟩
  | .mountShareDiscoveryTimeoutSeconds =>
      ⟨"MOUNT_SHARE_DISCOVERY_TIMEOUT_SECONDS", false, serializePlain⟩
  | .copyJobTimeout => ⟨"COPY_JOB_TIMEOUT", false, serializePlain⟩
  | .copyChunkSizeBytes => ⟨"COPY_CHUNK_SIZE_BYTES", false, serializePlain⟩
  | .copyProgressFlushBytes => ⟨"COPY_PROGRESS_FLUSH_BYTES", false, serializePlain⟩
  | .copyDefaultThreadCount => ⟨"COPY_DEFAULT_THREAD_COUNT", false, serializePlain⟩
  | .copyFileFsyncEnabled => ⟨"COPY_FILE_FSYNC_ENABLED", false, serializePlain⟩
  | .copyHashingSeparateThreadEnabled =>
      ⟨"COPY_HASHING_SEPARATE_THREAD_ENABLED", false, serializePlain⟩
  | .usbDiscoveryInterval => ⟨"USB_DISCOVERY_INTERVAL", false, serializePlain⟩
  | .jobDetailFilesPageSize => ⟨"JOB_DETAIL_FILES_PAGE_SIZE", false, serializePlain⟩
  | .callbackAllowPrivateIps => ⟨"CALLBACK_ALLOW_PRIVATE_IPS", false, serializePlain⟩
  | .callbackDefaultUrl => ⟨"CALLBACK_DEFAULT_URL", false, serializeCallbackDefaultUrl⟩
  | .callbackProxyUrl => ⟨"CALLBACK_PROXY_URL", false, serializeCallbackProxyUrl⟩
  | .callbackHmacSecret => ⟨"CALLBACK_HMAC_SECRET", false, serializeCallbackHmacSecret⟩
  | .callbackPayloadFields => ⟨"CALLBACK_PAYLOAD_FIELDS", false, serializeJsonValue⟩
  | .callbackPayloadFieldMap => ⟨"CALLBACK_PAYLOAD_FIELD_MAP", false, serializeJsonValue⟩

def Field.envKey (f : Field) : Str := f.spec.envKey.toList

/-- The default of a field in `Settings`. -/
def Field.default : Field → Value
  | .logLevel => .text "INFO".toList
  | .logFormat => .text "text".toList
  | .logFile => .text "/var/log/ecube/app.log".toList
  | .logFileMaxBytes => .int 10485760
  | .logFileBackupCount => .int 5
  | .nfsClientVersion => .text "4.1".toList
  | .dbPoolSize => .int 5
  | .dbPoolMaxOverflow => .int 10
  | .dbPoolRecycleSeconds => .int (-1)
  | .startupAnalysisBatchSize => .int 500
  | .startupAnalysisSmallFileMaxBytes => .int (64 * 1024)
  | .startupAnalysisLargeFileMinBytes => .int (8 * 1024 * 1024)
  | .mkfsExfatClusterSize => .text "4K".toList
  | .driveFormatTimeoutSeconds => .int 900
  | .driveMountTimeoutSeconds => .int 120
  | .networkMountTimeoutSeconds => .int 120
  | .mountShareDiscoveryTimeoutSeconds => .int 60
  | .copyJobTimeout => .int 3600
  | .copyChunkSizeBytes => .int 4194304
  | .copyProgressFlushBytes => .int 67108864
  | .copyDefaultThreadCount => .int 12
  | .copyFileFsyncEnabled => .bool false
  | .copyHashingSeparateThreadEnabled => .bool true
  | .usbDiscoveryInterval => .int 0
  | .jobDetailFilesPageSize => .int 40
  | .callbackAllowPrivateIps => .bool false
  | .callbackDefaultUrl | .callbackHmacSecret | .callbackProxyUrl | .callbackPayloadFields
  | .callbackPayloadFieldMap => .none

/-- Each default is one that a request may set. -/
theorem Field.default_admissible (f : Field) : Admissible f.kind f.default := by
  cases f <;> simp [Field.kind, Field.default, Admissible]

/-! ### Values -/

/-- The fields that hold a text of any form. -/
def Field.isText : Field → Bool
  | .logFile | .callbackDefaultUrl | .callbackProxyUrl | .callbackHmacSecret => true
  | _ => false

/-- `stripped or None`. -/
def textOrNone (s : Str) : Value := if strip s = [] then .none else .text (strip s)

/-- `_normalized_value`. -/
def normalizedValue (f : Field) : Value → Value
  | .text s => if f.isText then textOrNone s else .text s
  | v => v

/-- `_display_value`. -/
def displayValue (f : Field) (v : Value) : Value :=
  if f = .callbackHmacSecret then .bool (normalizedValue f v ≠ .none) else normalizedValue f v

variable (r : Reader)

/-- `_parse_persisted_configuration_value`. -/
def parsePersistedConfigurationValue (f : Field) (raw : Str) (current : Value) : Option Value :=
  if f.isText then some (textOrNone raw)
  else if f = .callbackPayloadFields then
    if strip raw = [] then some .none
    else
      match readList (strip raw) with
      | some items => some (.list items)
      | none => (r.listOf (strip raw)).map .other
  else if f = .callbackPayloadFieldMap then
    if strip raw = [] then some .none
    else
      match readMap (strip raw) with
      | some members => some (.map members)
      | none => (r.dictOf (strip raw)).map .other
  else
    match current with
    | .bool _ =>
        some (.bool (String.ofList (lower (strip raw)) ∈ ["1", "true", "yes", "on"]))
    | .int _ => (parseInt r.digit (strip raw)).map .int
    | _ => some (.text (strip raw))

/-! ### The file -/

/-- `_read_env_settings`, for one key. -/
def readEnvSetting (envFile : Option Str) (key : Str) : Option Str := read (envFile.getD []) key

/-- `_write_env_settings`. In a container the file is read and written once more. -/
def writeEnvSettings (inDocker : Bool) (updates : List (Str × Str)) (envFile : Option Str) :
    Option Str :=
  if updates = [] then envFile
  else
    let content := write updates (envFile.getD [])
    some (if inDocker then translate content else content)

/-- What the file says of a field; `none` is an exception. -/
def persistedValue (s : State) (f : Field) : Option (Option Value) :=
  match readEnvSetting s.envFile f.envKey with
  | none => some none
  | some raw => (parsePersistedConfigurationValue r f raw (s.settings f)).map some

/-- `_load_persisted_configuration_overrides`; `none` is an exception. -/
def loadPersistedConfigurationOverrides (s : State) : Option (Field → Option Value) :=
  if Field.all.all fun f => (persistedValue r s f).isSome then
    some fun f => (persistedValue r s f).getD none
  else none

/-- `_load_configuration_snapshot`. -/
def loadConfigurationSnapshot (s : State) : Field → Value :=
  match loadPersistedConfigurationOverrides r s with
  | some overrides => fun f => (overrides f).getD (s.settings f)
  | none => s.settings

/-! ### An update -/

inductive Scope where
  | manager
  | admin
  deriving DecidableEq, Repr

def managerConfigurationUpdateFields : List Field :=
  [.logLevel, .mkfsExfatClusterSize, .driveFormatTimeoutSeconds, .driveMountTimeoutSeconds,
    .networkMountTimeoutSeconds, .mountShareDiscoveryTimeoutSeconds, .copyJobTimeout,
    .copyChunkSizeBytes, .copyProgressFlushBytes, .copyDefaultThreadCount, .copyFileFsyncEnabled,
    .copyHashingSeparateThreadEnabled, .usbDiscoveryInterval, .jobDetailFilesPageSize,
    .startupAnalysisSmallFileMaxBytes, .startupAnalysisLargeFileMinBytes]

def adminConfigurationFields : List Field :=
  [.logFormat, .logFile, .logFileMaxBytes, .logFileBackupCount, .dbPoolSize, .dbPoolMaxOverflow,
    .dbPoolRecycleSeconds, .callbackAllowPrivateIps, .callbackDefaultUrl, .callbackProxyUrl,
    .callbackHmacSecret, .callbackPayloadFields, .callbackPayloadFieldMap, .nfsClientVersion,
    .startupAnalysisBatchSize]

/-- `_get_allowed_update_keys`. -/
def allowedUpdateKeys : Scope → List Key
  | .manager => managerConfigurationUpdateFields.map .setting
  | .admin => adminConfigurationFields.map .setting ++ [.clearCallbackHmacSecret]

inductive Error where
  | authorization (text : String)
  | valueError (text : String)
  /-- An exception of the library or the host. -/
  | raised
  deriving DecidableEq, Repr

/-- `int(value)`. -/
def toInt : Value → Option Int
  | .bool b => some (if b then 1 else 0)
  | .int n => some n
  | .text s => parseInt r.digit s
  | _ => none

/-- `_validate_startup_analysis_bucket_thresholds`. -/
def validateStartupAnalysisBucketThresholds (s : State) (values : List (Key × Value)) :
    Except Error Unit := do
  let given (f : Field) : Value :=
    ((values.find? fun e => e.1 = .setting f).map (·.2)).getD (loadConfigurationSnapshot r s f)
  let small ← orReject (toInt r (given .startupAnalysisSmallFileMaxBytes)) .raised
  let large ← orReject (toInt r (given .startupAnalysisLargeFileMinBytes)) .raised
  ensure (small < large)
    (.valueError "startup_analysis_small_file_max_bytes must be less than startup_analysis_large_file_min_bytes")

/-- The settings among the values. -/
def settingsOf (values : List (Key × Value)) : List (Field × Value) :=
  values.filterMap fun e =>
    match e.1 with
    | .setting f => some (f, e.2)
    | _ => none

/-- The settings that an update changes. A secret that is to be cleared is set to null. -/
def requested (values : List (Key × Value)) : List (Field × Value) :=
  let settings := settingsOf values
  if (.clearCallbackHmacSecret, .bool true) ∈ values then
    if .callbackHmacSecret ∈ settings.map Prod.fst then
      settings.map fun e => if e.1 = .callbackHmacSecret then (e.1, .none) else e
    else settings ++ [(.callbackHmacSecret, .none)]
  else settings

/-- The lines to be written for settings. -/
def envUpdates (settings : List (Field × Value)) : Except Error (List (Str × Str)) :=
  settings.mapM fun e => do
    let text ← orReject (e.1.spec.serializer e.2) .raised
    return (e.1.envKey, text)

/-- What an update has before it touches anything: the new values and the old ones, and their
lines. -/
structure Prepared where
  pending : List (Field × Value)
  old : List (Field × Value)
  updates : List (Str × Str)
  rollback : List (Str × Str)

def prepare (scope : Scope) (values : List (Key × Value)) (s : State) :
    Except Error Prepared := do
  ensure (∀ e ∈ values, e.1 ∈ allowedUpdateKeys scope)
    (.authorization "One or more requested settings require the admin role")
  validateStartupAnalysisBucketThresholds r s values
  let pending := (requested values).map fun e => (e.1, normalizedValue e.1 e.2)
  let old := pending.map fun e => (e.1, normalizedValue e.1 (s.settings e.1))
  let updates ← envUpdates pending
  let rollback ← envUpdates old
  return { pending, old, updates, rollback }

/-- The test of the log file: its directory cannot be made, or it cannot be opened. -/
inductive LogFileAnswer where
  | writable
  | noDirectory
  | unwritable (error : Str)
  deriving DecidableEq, Repr

/-- What the host does during an update. -/
structure Answers where
  inDocker : Bool
  logFile : LogFileAnswer
  writeRaises : Bool
  applyRaises : Bool
  rollbackRaises : Bool
  deriving DecidableEq, Repr

/-- `_validate_log_file_path`, if the log file is among the settings. -/
def validateLogFilePath (answer : LogFileAnswer) (pending : List (Field × Value)) :
    Except Error Unit :=
  match pending.find? fun e => e.1 = .logFile with
  | some (_, .text path) =>
      match answer with
      | .writable => .ok ()
      | .noDirectory => .error .raised
      | .unwritable error =>
          .error (.valueError ("Unable to write log file at '" ++ String.ofList path ++ "': " ++
            String.ofList error))
  | _ => .ok ()

/-- `setattr` for each setting. -/
def assignAll (settings : Field → Value) (values : List (Field × Value)) : Field → Value :=
  values.foldl (fun settings e => Function.update settings e.1 e.2) settings

structure Change where
  field : Field
  oldValue : Value
  newValue : Value
  deriving DecidableEq, Repr

inductive Result where
  | noChanges
  | updated (changes : List Change) (appliedImmediately restartRequired : List Field)
  deriving DecidableEq, Repr

def updated (p : Prepared) (s : State) : Result :=
  let fields := p.pending.map Prod.fst
  .updated
    (p.pending.map fun e =>
      ⟨e.1, displayValue e.1 (normalizedValue e.1 (s.settings e.1)), displayValue e.1 e.2⟩)
    (fields.filter (!·.spec.requiresRestart))
    (fields.filter (·.spec.requiresRestart))

/-- `update_configuration`. -/
def updateConfiguration (a : Answers) (scope : Scope) (values : List (Key × Value)) (s : State) :
    State × Except Error Result :=
  match prepare r scope values s with
  | .error e => (s, .error e)
  | .ok p =>
      if p.pending = [] then (s, .ok .noChanges)
      else
        match validateLogFilePath a.logFile p.pending with
        | .error e => (s, .error e)
        | .ok () =>
            if a.writeRaises then (s, .error .raised)
            else
              let written : State :=
                { settings := assignAll s.settings p.pending
                  envFile := writeEnvSettings a.inDocker p.updates s.envFile }
              if a.applyRaises then
                ({ settings := assignAll written.settings p.old
                   envFile :=
                     if a.rollbackRaises then written.envFile
                     else writeEnvSettings a.inDocker p.rollback written.envFile },
                  .error .raised)
              else (written, .ok (updated p s))

end Ecube.Configuration
