import Ecube.Basic.Outcome
import Ecube.Basic.Url
import Mathlib.Data.List.Nodup

/-!
The request body of a configuration update: `schemas/configuration.py`, with the checks of
`utils/callback_url_validation.py` and `utils/callback_payload_contract.py`.

`validate_admissible`: what an accepted body sets is null or a value of the kind of its field,
and every key is set once.
-/

namespace Ecube.Configuration

open Url PosixPath Text

/-! ### Fields and values -/

/-- The editable settings. -/
inductive Field where
  | logLevel
  | logFormat
  | logFile
  | logFileMaxBytes
  | logFileBackupCount
  | nfsClientVersion
  | dbPoolSize
  | dbPoolMaxOverflow
  | dbPoolRecycleSeconds
  | startupAnalysisBatchSize
  | startupAnalysisSmallFileMaxBytes
  | startupAnalysisLargeFileMinBytes
  | mkfsExfatClusterSize
  | driveFormatTimeoutSeconds
  | driveMountTimeoutSeconds
  | networkMountTimeoutSeconds
  | mountShareDiscoveryTimeoutSeconds
  | copyJobTimeout
  | copyChunkSizeBytes
  | copyProgressFlushBytes
  | copyDefaultThreadCount
  | copyFileFsyncEnabled
  | copyHashingSeparateThreadEnabled
  | usbDiscoveryInterval
  | jobDetailFilesPageSize
  | callbackAllowPrivateIps
  | callbackDefaultUrl
  | callbackProxyUrl
  | callbackHmacSecret
  | callbackPayloadFields
  | callbackPayloadFieldMap
  deriving DecidableEq, Repr

/-- The keys of a request: settings, and two flags that are not settings. -/
inductive Key where
  | setting (f : Field)
  | allowInsecureCallbackDefaultUrl
  | clearCallbackHmacSecret
  deriving DecidableEq, Repr

/-- The value of a setting. Another value that a JSON text may stand for is kept as that text. -/
inductive Value where
  | none
  | bool (b : Bool)
  | int (n : Int)
  | text (s : Str)
  | list (items : List Str)
  | map (members : List (Str × Str))
  | other (json : Str)
  deriving DecidableEq, Repr

/-- The text of an optional text. -/
def Value.text? : Value → Option Str
  | .text s => some s
  | _ => Option.none

def Value.ofText (o : Option Str) : Value := (o.map .text).getD .none

/-- A JSON value of the request body. Whole numbers may be written as floats. -/
inductive Raw where
  | null
  | bool (b : Bool)
  | int (n : Int)
  | wholeFloat (n : Int)
  | otherFloat
  | str (s : Str)
  | arr (items : List Raw)
  | obj (members : List (Str × Raw))

/-- The request body: a dictionary. -/
structure Body where
  entries : List (Str × Raw)
  nodup : (entries.map Prod.fst).Nodup

def Field.name : Field → String
  | .logLevel => "log_level"
  | .logFormat => "log_format"
  | .logFile => "log_file"
  | .logFileMaxBytes => "log_file_max_bytes"
  | .logFileBackupCount => "log_file_backup_count"
  | .nfsClientVersion => "nfs_client_version"
  | .dbPoolSize => "db_pool_size"
  | .dbPoolMaxOverflow => "db_pool_max_overflow"
  | .dbPoolRecycleSeconds => "db_pool_recycle_seconds"
  | .startupAnalysisBatchSize => "startup_analysis_batch_size"
  | .startupAnalysisSmallFileMaxBytes => "startup_analysis_small_file_max_bytes"
  | .startupAnalysisLargeFileMinBytes => "startup_analysis_large_file_min_bytes"
  | .mkfsExfatClusterSize => "mkfs_exfat_cluster_size"
  | .driveFormatTimeoutSeconds => "drive_format_timeout_seconds"
  | .driveMountTimeoutSeconds => "drive_mount_timeout_seconds"
  | .networkMountTimeoutSeconds => "network_mount_timeout_seconds"
  | .mountShareDiscoveryTimeoutSeconds => "mount_share_discovery_timeout_seconds"
  | .copyJobTimeout => "copy_job_timeout"
  | .copyChunkSizeBytes => "copy_chunk_size_bytes"
  | .copyProgressFlushBytes => "copy_progress_flush_bytes"
  | .copyDefaultThreadCount => "copy_default_thread_count"
  | .copyFileFsyncEnabled => "copy_file_fsync_enabled"
  | .copyHashingSeparateThreadEnabled => "copy_hashing_separate_thread_enabled"
  | .usbDiscoveryInterval => "usb_discovery_interval"
  | .jobDetailFilesPageSize => "job_detail_files_page_size"
  | .callbackAllowPrivateIps => "callback_allow_private_ips"
  | .callbackDefaultUrl => "callback_default_url"
  | .callbackProxyUrl => "callback_proxy_url"
  | .callbackHmacSecret => "callback_hmac_secret"
  | .callbackPayloadFields => "callback_payload_fields"
  | .callbackPayloadFieldMap => "callback_payload_field_map"

def Field.all : List Field :=
  [.logLevel, .logFormat, .logFile, .logFileMaxBytes, .logFileBackupCount, .nfsClientVersion,
    .dbPoolSize, .dbPoolMaxOverflow, .dbPoolRecycleSeconds, .startupAnalysisBatchSize,
    .startupAnalysisSmallFileMaxBytes, .startupAnalysisLargeFileMinBytes, .mkfsExfatClusterSize,
    .driveFormatTimeoutSeconds, .driveMountTimeoutSeconds, .networkMountTimeoutSeconds,
    .mountShareDiscoveryTimeoutSeconds, .copyJobTimeout, .copyChunkSizeBytes,
    .copyProgressFlushBytes, .copyDefaultThreadCount, .copyFileFsyncEnabled,
    .copyHashingSeparateThreadEnabled, .usbDiscoveryInterval, .jobDetailFilesPageSize,
    .callbackAllowPrivateIps, .callbackDefaultUrl, .callbackProxyUrl, .callbackHmacSecret,
    .callbackPayloadFields, .callbackPayloadFieldMap]

theorem Field.mem_all (f : Field) : f ∈ Field.all := by
  cases f <;> decide

def Key.name : Key → String
  | .setting f => f.name
  | .allowInsecureCallbackDefaultUrl => "allow_insecure_callback_default_url"
  | .clearCallbackHmacSecret => "clear_callback_hmac_secret"

def Key.all : List Key :=
  Field.all.map .setting ++ [.allowInsecureCallbackDefaultUrl, .clearCallbackHmacSecret]

/-! ### What a field takes -/

inductive Kind where
  | literal (options : List String)
  | int (ge : Int) (le : Option Int)
  | bool
  | safeStr
  | safeStrs
  | safeStrMap
  deriving DecidableEq, Repr

def Field.kind : Field → Kind
  | .logLevel => .literal ["DEBUG", "INFO", "WARNING", "ERROR"]
  | .logFormat => .literal ["text", "json"]
  | .logFile => .safeStr
  | .logFileMaxBytes => .int 1 none
  | .logFileBackupCount => .int 0 none
  | .nfsClientVersion => .literal ["4.2", "4.1", "4.0", "3"]
  | .dbPoolSize => .int 1 (some 100)
  | .dbPoolMaxOverflow => .int 0 (some 200)
  | .dbPoolRecycleSeconds => .int (-1) none
  | .startupAnalysisBatchSize => .int 1 (some 5000)
  | .startupAnalysisSmallFileMaxBytes => .int 1024 (some 67108864)
  | .startupAnalysisLargeFileMinBytes => .int 1024 (some 1073741824)
  | .mkfsExfatClusterSize => .literal ["4K", "64K", "128K", "256K"]
  | .driveFormatTimeoutSeconds => .int 1 none
  | .driveMountTimeoutSeconds => .int 1 none
  | .networkMountTimeoutSeconds => .int 1 none
  | .mountShareDiscoveryTimeoutSeconds => .int 1 none
  | .copyJobTimeout => .int 0 none
  | .copyChunkSizeBytes => .int 262144 (some 67108864)
  | .copyProgressFlushBytes => .int 1048576 (some 1073741824)
  | .copyDefaultThreadCount => .int 1 (some 32)
  | .copyFileFsyncEnabled => .bool
  | .copyHashingSeparateThreadEnabled => .bool
  | .usbDiscoveryInterval => .int 0 none
  | .jobDetailFilesPageSize => .int 20 (some 100)
  | .callbackAllowPrivateIps => .bool
  | .callbackDefaultUrl => .safeStr
  | .callbackProxyUrl => .safeStr
  | .callbackHmacSecret => .safeStr
  | .callbackPayloadFields => .safeStrs
  | .callbackPayloadFieldMap => .safeStrMap

def Key.kind : Key → Kind
  | .setting f => f.kind
  | .allowInsecureCallbackDefaultUrl => .bool
  | .clearCallbackHmacSecret => .bool

/-- Why a body is refused: a check of the field types, or a `ValueError`. -/
inductive Refusal where
  | type (key : Str)
  | valueError (text : String)
  deriving DecidableEq, Repr

/-- `strict_sanitize_string`; surrogates are no characters here. -/
def strictSafe : Raw → Option Str
  | .str s => if '\x00' ∈ s then none else some s
  | _ => none

/-- `_coerce_whole_floats`. -/
def coerceWholeFloat : Raw → Raw
  | .wholeFloat n => .int n
  | raw => raw

/-- The check of an optional field by its type. -/
def check : Kind → Raw → Option Value
  | _, .null => some .none
  | .literal options, .str s => if String.ofList s ∈ options then some (.text s) else none
  | .int ge le, .int n => if ge ≤ n ∧ ∀ top ∈ le, n ≤ top then some (.int n) else none
  | .bool, .bool b => some (.bool b)
  | .safeStr, raw => (strictSafe raw).map .text
  | .safeStrs, .arr items => (items.mapM strictSafe).map .list
  | .safeStrMap, .obj members =>
      (members.mapM fun m : Str × Raw =>
        (strictSafe (.str m.1)).bind fun key => (strictSafe m.2).map (key, ·)).map .map
  | _, _ => none

/-! ### Callback URLs -/

def hasCredentials (p : ParseResult) : Bool := p.username.getD [] ≠ [] ∨ p.password.getD [] ≠ []

/-- `validate_callback_url_value`. -/
def validateCallbackUrlValue (u : Unicode) (fieldName : String) (allowInsecureHttp : Bool)
    (confirmationFieldName : String) : Option Str → Except Refusal (Option Str)
  | none => .ok none
  | some value => do
      let normalized := strip value
      ensure (normalized ≠ []) (.valueError (fieldName ++ " must not be empty"))
      let parsed ← orReject (urlparse u normalized)
        (.valueError (fieldName ++ " is not a valid URL"))
      let scheme := parsed.scheme.map Char.toLower
      ensure (scheme = "https".toList ∨ scheme = "http".toList)
        (.valueError (fieldName ++ " must use HTTPS"))
      ensure (scheme = "https".toList ∨ allowInsecureHttp)
        (.valueError
          (fieldName ++ " must use HTTPS unless " ++ confirmationFieldName ++ " is true"))
      ensure ((parsed.hostname u).getD [] ≠ [])
        (.valueError (fieldName ++ " must include a hostname"))
      ensure (¬ hasCredentials parsed)
        (.valueError (fieldName ++ " must not contain embedded credentials"))
      return some normalized

/-- `_validate_url_value`. -/
def validateUrlValue (u : Unicode) (fieldName : String) (allowedSchemes : List String) :
    Option Str → Except Refusal (Option Str)
  | none => .ok none
  | some value => do
      let normalized := strip value
      let parsed ← orReject (urlparse u normalized)
        (.valueError (fieldName ++ " is not a valid URL"))
      ensure (String.ofList (parsed.scheme.map Char.toLower) ∈ allowedSchemes)
        (.valueError (fieldName ++ " must use " ++
          " or ".intercalate (allowedSchemes.map String.toUpper)))
      ensure ((parsed.hostname u).getD [] ≠ [])
        (.valueError (fieldName ++ " must include a hostname"))
      ensure (¬ hasCredentials parsed)
        (.valueError (fieldName ++ " must not contain embedded credentials"))
      return some normalized

/-! ### The callback payload -/

def allowedCallbackPayloadSourceFields : List String :=
  ["event", "job_id", "project_id", "evidence_number", "created_by", "started_by", "status",
    "source_path", "total_bytes", "copied_bytes", "file_count", "files_succeeded", "files_failed",
    "files_timed_out", "completion_result", "active_duration_seconds", "drive_id",
    "drive_manufacturer", "drive_model", "drive_serial_number", "created_at", "started_at",
    "copy_started_at", "completed_at", "event_actor", "event_at", "event_details"]

def isAllowed (name : Str) : Bool := String.ofList name ∈ allowedCallbackPayloadSourceFields

/-- The loop over the payload fields, with those seen so far. -/
def normalizeFields : List Str → List Str → Except Refusal (List Str)
  | seen, [] => .ok seen
  | seen, raw :: rest => do
      let name := strip raw
      ensure (name ≠ []) (.valueError "callback_payload_fields entries must not be blank")
      ensure (isAllowed name)
        (.valueError ("callback_payload_fields contains unknown field: " ++ String.ofList name))
      ensure (name ∉ seen)
        (.valueError ("callback_payload_fields contains duplicate field: " ++ String.ofList name))
      normalizeFields (seen ++ [name]) rest

/-- `_normalize_payload_fields`. -/
def normalizePayloadFields : Option (List Str) → Except Refusal (Option (List Str))
  | none => .ok none
  | some payloadFields => do
      let normalized ← normalizeFields [] payloadFields
      ensure (normalized ≠ []) (.valueError "callback_payload_fields must not be empty")
      return some normalized

def isWordChar (c : Char) : Bool := c.isAlphanum || c ∈ ['_', '-']

/-- `_OUTBOUND_FIELD_NAME_RE`. -/
def isOutboundFieldName (name : Str) : Bool := name.head?.any Char.isAlpha && name.all isWordChar

def isTokenChar (c : Char) : Bool := c.isLower || c.isDigit || c = '_'

/-- The name in a template token at the front of a text: `_TEMPLATE_TOKEN_RE`. -/
def tokenAt : Str → Option Str
  | '$' :: '\x7b' :: rest =>
      let name := rest.takeWhile isTokenChar
      if name.head?.any (fun c => c.isLower || c = '_') ∧
          (rest.dropWhile isTokenChar).head? = some '\x7d' then some name
      else none
  | _ => none

/-- The names in the tokens of a template, and what is left without the tokens. The number says
how many characters still belong to a token. -/
def tokens : Nat → Str → List Str × Str
  | _, [] => ([], [])
  | skip + 1, _ :: rest => tokens skip rest
  | 0, c :: rest =>
      match tokenAt (c :: rest) with
      | some name =>
          let found := tokens (name.length + 2) rest
          (name :: found.1, found.2)
      | none =>
          let found := tokens 0 rest
          (found.1, c :: found.2)

/-- `d[key] = value`. -/
def assign (d : List (Str × Str)) (key value : Str) : List (Str × Str) :=
  if key ∈ d.map Prod.fst then d.map fun m => if m.1 = key then (key, value) else m
  else d ++ [(key, value)]

/-- The checks of one member of the map. -/
def checkSourceSpec (payloadFields : List Str) (name spec : Str) : Except Refusal Unit := do
  let member := "callback_payload_field_map['" ++ String.ofList name ++ "']"
  let quoted (s : Str) : String := "'" ++ String.ofList s ++ "'"
  ensure (spec ≠ []) (.valueError (member ++ " must not be blank"))
  if isAllowed spec then
    ensure (spec ∈ payloadFields)
      (.valueError
        (member ++ " references " ++ quoted spec ++ " outside callback_payload_fields"))
  else
    let found := tokens 0 spec
    ensure (found.1 ≠ [])
      (.valueError (member ++ " must reference an allowlisted field name or contain template tokens like $\x7bproject_id\x7d"))
    ensure (¬ ['$', '\x7b'] <:+: found.2)
      (.valueError (member ++ " contains malformed template syntax"))
    for token in found.1 do
      ensure (isAllowed token)
        (.valueError (member ++ " references unknown field: " ++ String.ofList token))
      ensure (token ∈ payloadFields)
        (.valueError
          (member ++ " references " ++ quoted token ++ " outside callback_payload_fields"))

/-- The loop over the members of the map. -/
def normalizeMembers (payloadFields : List Str) :
    List (Str × Str) → List (Str × Str) → Except Refusal (List (Str × Str))
  | normalized, [] => .ok normalized
  | normalized, (rawName, rawSpec) :: rest => do
      let name := strip rawName
      ensure (name ≠ []) (.valueError "callback_payload_field_map keys must not be blank")
      ensure (isOutboundFieldName name)
        (.valueError "callback_payload_field_map keys must start with a letter and contain only letters, digits, underscores, or hyphens")
      checkSourceSpec payloadFields name (strip rawSpec)
      normalizeMembers payloadFields (assign normalized name (strip rawSpec)) rest

/-- `_normalize_payload_field_map`. -/
def normalizePayloadFieldMap (payloadFields : Option (List Str)) :
    Option (List (Str × Str)) → Except Refusal (Option (List (Str × Str)))
  | none => .ok none
  | some members => do
      ensure (members ≠ []) (.valueError "callback_payload_field_map must not be empty")
      let payloadFields ← orReject payloadFields
        (.valueError "callback_payload_field_map requires callback_payload_fields so the source allowlist is explicit")
      let normalized ← normalizeMembers payloadFields [] members
      return some normalized

/-! ### The whole body -/

/-- `normalize_optional_blank_fields`. -/
def blankToNull : Key → Raw → Raw
  | .setting .callbackDefaultUrl, .str s | .setting .callbackProxyUrl, .str s =>
      if strip s = [] then .null else .str s
  | _, raw => raw

/-- The checks of the fields by their types. The first one that fails is reported. -/
def readField (e : Str × Raw) : Except Refusal (Key × Value) := do
  let key ← orReject (Key.all.find? fun key => key.name.toList = e.1) (.type e.1)
  let value ← orReject (check key.kind (coerceWholeFloat (blankToNull key e.2))) (.type e.1)
  return (key, value)

def getValue (fields : List (Key × Value)) (key : Key) : Value :=
  ((fields.find? fun e => e.1 = key).map (·.2)).getD .none

def Value.list? : Value → Option (List Str)
  | .list items => some items
  | _ => Option.none

def Value.map? : Value → Option (List (Str × Str))
  | .map members => some members
  | _ => Option.none

/-- The value of a field, with what the checks have normalized. -/
def normalizedField (url proxy secret : Option Str) (payloadFields : Option (List Str))
    (payloadFieldMap : Option (List (Str × Str))) (e : Key × Value) : Value :=
  match e.1 with
  | .setting .callbackDefaultUrl => .ofText url
  | .setting .callbackProxyUrl => .ofText proxy
  | .setting .callbackHmacSecret => .ofText secret
  | .setting .callbackPayloadFields => (payloadFields.map Value.list).getD .none
  | .setting .callbackPayloadFieldMap => (payloadFieldMap.map Value.map).getD .none
  | _ => e.2

/-- `ConfigurationUpdateRequest`: the values of the fields that the body sets. -/
def validate (u : Unicode) (body : Body) : Except Refusal (List (Key × Value)) := do
  ensure (body.entries ≠ []) (.valueError "At least one setting must be provided")
  let fields ← body.entries.mapM readField
  let get (f : Field) : Value := getValue fields (.setting f)
  let url ← validateCallbackUrlValue u "callback_default_url"
    (getValue fields .allowInsecureCallbackDefaultUrl = .bool true)
    "allow_insecure_callback_default_url" (get .callbackDefaultUrl).text?
  let proxy ← validateUrlValue u "callback_proxy_url" ["http", "https"]
    (get .callbackProxyUrl).text?
  let secret := (get .callbackHmacSecret).text?
  ensure (¬ (getValue fields .clearCallbackHmacSecret = .bool true ∧ secret ≠ none))
    (.valueError "callback_hmac_secret cannot be updated and cleared in the same request")
  ensure (secret.map strip ≠ some []) (.valueError "callback_hmac_secret must not be empty")
  let payloadFields ← normalizePayloadFields (get .callbackPayloadFields).list?
  let payloadFieldMap ← normalizePayloadFieldMap payloadFields (get .callbackPayloadFieldMap).map?
  return fields.map fun e =>
    (e.1, normalizedField url proxy (secret.map strip) payloadFields payloadFieldMap e)

/-- `_validated_request_values`: the values without those that only the request needs. -/
def requestValues (values : List (Key × Value)) : List (Key × Value) :=
  values.filter (·.1 ≠ .allowInsecureCallbackDefaultUrl)

/-! ### Accepted bodies -/

/-- Null, or a value of the kind. -/
def Admissible : Kind → Value → Prop
  | _, .none => True
  | .literal options, .text s => String.ofList s ∈ options
  | .int ge le, .int n => ge ≤ n ∧ ∀ top ∈ le, n ≤ top
  | .bool, .bool _ => True
  | .safeStr, .text _ => True
  | .safeStrs, .list _ => True
  | .safeStrMap, .map members => (members.map Prod.fst).Nodup
  | _, _ => False

theorem check_admissible {k : Kind} {raw : Raw} {v : Value} (h : check k raw = some v)
    (noMap : k ≠ .safeStrMap) : Admissible k v := by
  unfold check at h
  split at h
  · cases h
    trivial
  · split at h
    next listed =>
      cases h
      exact listed
    next => exact absurd h nofun
  · split at h
    next bounds =>
      cases h
      exact bounds
    next => exact absurd h nofun
  · cases h
    trivial
  · obtain ⟨s, -, rfl⟩ := Option.map_eq_some_iff.mp h
    trivial
  · obtain ⟨s, -, rfl⟩ := Option.map_eq_some_iff.mp h
    trivial
  · exact absurd rfl noMap
  · exact absurd h nofun

theorem assign_nodup {d : List (Str × Str)} (h : (d.map Prod.fst).Nodup) (key value : Str) :
    ((assign d key value).map Prod.fst).Nodup := by
  rw [assign]
  split
  · have keys : (d.map fun m => if m.1 = key then (key, value) else m).map Prod.fst =
        d.map Prod.fst := by
      rw [List.map_map]
      apply List.map_congr_left
      intro m _
      rw [Function.comp_apply]
      split
      next same => exact same.symm
      next => rfl
    rw [keys]
    exact h
  next absent =>
    rw [List.map_append, List.map_singleton]
    refine List.nodup_append.mpr ⟨h, List.nodup_singleton _, fun a mem b last same => ?_⟩
    rw [same, List.mem_singleton.mp last] at mem
    exact absent mem

theorem normalizeMembers_nodup {payloadFields : List Str} {normalized members r : List (Str × Str)}
    (h : (normalized.map Prod.fst).Nodup)
    (done : normalizeMembers payloadFields normalized members = .ok r) :
    (r.map Prod.fst).Nodup := by
  induction members generalizing normalized with
  | nil =>
      cases done
      exact h
  | cons member rest ih =>
      rw [normalizeMembers] at done
      simp only [bind_eq_ok] at done
      obtain ⟨_, -, _, -, _, -, done⟩ := done
      exact ih (assign_nodup h _ _) done

theorem normalizePayloadFieldMap_nodup {payloadFields : Option (List Str)}
    {members : Option (List (Str × Str))} {r : List (Str × Str)}
    (done : normalizePayloadFieldMap payloadFields members = .ok (some r)) :
    (r.map Prod.fst).Nodup := by
  cases members with
  | none => cases done
  | some members =>
      simp only [normalizePayloadFieldMap, bind_eq_ok, pure_eq_ok, Option.some.injEq] at done
      obtain ⟨_, -, _, -, _, loop, rfl⟩ := done
      have start : (([] : List (Str × Str)).map Prod.fst).Nodup := List.nodup_nil
      exact normalizeMembers_nodup start loop

theorem admissible_ofText (o : Option Str) : Admissible .safeStr (.ofText o) := by
  cases o <;> trivial

theorem Field.kind_ne_map {f : Field} (h : f ≠ .callbackPayloadFieldMap) :
    f.kind ≠ .safeStrMap := by
  cases f with
  | callbackPayloadFieldMap => exact absurd rfl h
  | _ => exact nofun

theorem readField_ok {e : Str × Raw} {r : Key × Value} (h : readField e = .ok r) :
    r.1.name.toList = e.1 ∧
      (r.1 ≠ .setting .callbackPayloadFieldMap → Admissible r.1.kind r.2) := by
  simp only [readField, bind_eq_ok, orReject_eq_ok, pure_eq_ok] at h
  obtain ⟨key, found, value, checked, rfl⟩ := h
  have named := List.find?_some found
  constructor
  · exact of_decide_eq_true named
  · intro other
    apply check_admissible checked
    cases key with
    | setting f => exact Field.kind_ne_map fun same => other (congrArg Key.setting same)
    | allowInsecureCallbackDefaultUrl => rintro ⟨⟩
    | clearCallbackHmacSecret => rintro ⟨⟩

theorem names_of_mapM {entries : List (Str × Raw)} {fields : List (Key × Value)}
    (read : List.Forall₂ (fun e r => readField e = .ok r) entries fields) :
    (fields.map Prod.fst).map (·.name.toList) = entries.map Prod.fst := by
  induction read with
  | nil => rfl
  | cons first _ ih => rw [List.map_cons, List.map_cons, List.map_cons, ih, (readField_ok first).1]

theorem normalizedField_admissible {url proxy secret : Option Str}
    {payloadFields : Option (List Str)} {payloadFieldMap : Option (List (Str × Str))}
    (nodup : ∀ members ∈ payloadFieldMap, (members.map Prod.fst).Nodup) {e : Key × Value}
    (h : e.1 ≠ .setting .callbackPayloadFieldMap → Admissible e.1.kind e.2) :
    Admissible e.1.kind
      (normalizedField url proxy secret payloadFields payloadFieldMap e) := by
  obtain ⟨key, value⟩ := e
  rw [normalizedField]
  split
  next same => exact (show key = _ from same) ▸ admissible_ofText url
  next same => exact (show key = _ from same) ▸ admissible_ofText proxy
  next same => exact (show key = _ from same) ▸ admissible_ofText secret
  next same =>
    rw [show key = _ from same]
    cases payloadFields <;> trivial
  next same =>
    rw [show key = _ from same]
    cases payloadFieldMap with
    | none => trivial
    | some members => exact nodup members rfl
  next other => exact h other

/-- An accepted body sets each key once, to null or to a value of its kind. -/
theorem validate_admissible {u : Unicode} {body : Body} {values : List (Key × Value)}
    (h : validate u body = .ok values) :
    (values.map Prod.fst).Nodup ∧ ∀ e ∈ values, Admissible e.1.kind e.2 := by
  simp only [validate, bind_eq_ok, pure_eq_ok] at h
  obtain ⟨_, -, fields, read, url, -, proxy, -, _, -, _, -, payloadFields, -, payloadFieldMap,
    mapped, rfl⟩ := h
  constructor
  · have nodup := body.nodup
    rw [← names_of_mapM (mapM_eq_ok.mp read)] at nodup
    rw [List.map_map]
    exact nodup.of_map _
  · intro e mem
    obtain ⟨old, within, rfl⟩ := List.mem_map.mp mem
    obtain ⟨entry, -, readOk⟩ := (mem_mapM read).1 old within
    exact normalizedField_admissible
      (fun members same => normalizePayloadFieldMap_nodup (mapped.trans (by rw [same])))
      (readField_ok readOk).2

end Ecube.Configuration
