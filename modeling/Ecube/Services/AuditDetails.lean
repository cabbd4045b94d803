import Ecube.Paths.AuditText
import Ecube.Services.FileFailures

/-!
The details of audit events (`sanitize_audit_details` in `app/utils/sanitize.py`).

Each text in a nested value is replaced by what the key it stands under allows. The repository
does this to every event, whether a caller has done it before or not.

* `leaves_sanitizeValue`: each text is replaced by itself, under the nearest key.
* `sanitizeAuditDetails_complete`: what is left of paths and of values under sensitive keys.
* `sanitizeAuditDetails_idempotent_iff`: when doing it twice is the same as doing it once.
-/

namespace Ecube.AuditDetails

open PosixPath Text AuditText FileFailures

/-- A string of Python. -/
abbrev PyText := List PathChar

def ofStr (s : Str) : PyText := s.map .char

/-- Without the surrogate code points. -/
def chars (text : PyText) : Str :=
  text.filterMap fun
    | .char c => some c
    | .surrogate _ => none

/-! ### Error texts -/

/-- The summaries of `sanitize_error_message` and the words in a text that lead to each. -/
def errorSummaries : List (List String × String) :=
  [(["permission denied", "access denied", "auth", "not authorized"],
      "Permission or authentication failure"),
    (["timed out", "timeout"], "Operation timed out"),
    (["not mounted", "no mount point"], "Target was already unmounted"),
    (["no transferable files"], "Source path contains no transferable files"),
    (["busy"], "Target is busy"),
    (["invalid device path", "not a block device"], "Invalid device path"),
    (["unknown filesystem type", "wrong fs type", "bad superblock"],
      "Filesystem type is not supported by the host"),
    (["no such file", "not found"], "Target device or path was not found")]

def mentions (words : List String) (text : Str) : Bool := words.any (hasWord text)

def summarize (redacted : Str) (defaultMessage : String) : Str :=
  (((errorSummaries.find? fun group => mentions group.1 redacted).map Prod.snd).getD
    defaultMessage).toList

def sanitizeErrorMessage (err : Option PyText) (defaultMessage : String) : Str :=
  match err with
  | none => defaultMessage.toList
  | some err =>
      let redacted := strip (redactPathlikeSubstrings (chars err))
      if redacted = [] ∨ redacted = placeholder then defaultMessage.toList
      else summarize redacted defaultMessage

def operationFailed : String := "Operation failed"

/-! ### Values -/

def auditRedacted : Str := "[redacted]".toList

def auditSensitiveKeys : List String :=
  ["filesystem_path", "mount_path", "local_mount_point", "remote_path", "new_source_path",
    "existing_source_path", "device_name", "system_path", "mount_label", "mount_slot", "dev"]

def auditErrorTextKeys : List String := ["error", "details", "raw_error"]

def systemPathPrefixes : List String :=
  ["/dev/", "/mnt/", "/media/", "/run/", "/nfs/", "/smb/", "/proc/", "/sys/", "/tmp/", "/var/"]

def lowerText (text : PyText) : PyText :=
  text.flatMap fun
    | .char c => ofStr (lowerChar c)
    | .surrogate n => [.surrogate n]

/-- The key, if there is one, is one of these in lower case. -/
def keyIn (names : List String) (key : Option PyText) : Bool :=
  key.any fun key => names.any fun name => lowerText key = ofStr name.toList

/-- `_sanitize_audit_value` of a text. -/
def sanitizeText (key : Option PyText) (value : PyText) : Str :=
  if keyIn auditSensitiveKeys key then auditRedacted
  else if keyIn ["path"] key then
    let stripped := strip (sanitizeString (chars value))
    if systemPathPrefixes.any fun p => p.toList.isPrefixOf stripped then auditRedacted else stripped
  else if keyIn auditErrorTextKeys key then sanitizeErrorMessage (some value) operationFailed
  else sanitizeAuditText (chars value)

/-- A value with keys and other leaves as they are in Python. -/
inductive Value (K O : Type) where
  | dict (items : List (K × Value K O))
  | list (items : List (Value K O))
  | tuple (items : List (Value K O))
  | str (text : PyText)
  | other (o : O)

/-- A value without parts. -/
inductive Leaf (O : Type) where
  | str (text : PyText)
  | other (o : O)
  deriving DecidableEq

section Values

variable {K O : Type}

-- `str(key)`
variable (keyText : K → PyText)

mutual

/-- `_sanitize_audit_value`. -/
def sanitizeValue (key : Option K) : Value K O → Value K O
  | .dict items => .dict (sanitizeFields items)
  | .list items => .list (sanitizeItems key items)
  | .tuple items => .list (sanitizeItems key items)
  | .str text => .str (ofStr (sanitizeText (key.map keyText) text))
  | .other o => .other o

def sanitizeItems (key : Option K) : List (Value K O) → List (Value K O)
  | [] => []
  | value :: rest => sanitizeValue key value :: sanitizeItems key rest

def sanitizeFields : List (K × Value K O) → List (K × Value K O)
  | [] => []
  | (key, value) :: rest => (key, sanitizeValue (some key) value) :: sanitizeFields rest

end

def sanitizeAuditDetails (details : Value K O) : Value K O := sanitizeValue keyText none details

mutual

/-- The leaves of a value, each with the nearest key around it. -/
def leaves (key : Option K) : Value K O → List (Option K × Leaf O)
  | .dict items => fieldLeaves items
  | .list items => itemLeaves key items
  | .tuple items => itemLeaves key items
  | .str text => [(key, .str text)]
  | .other o => [(key, .other o)]

def itemLeaves (key : Option K) : List (Value K O) → List (Option K × Leaf O)
  | [] => []
  | value :: rest => leaves key value ++ itemLeaves key rest

def fieldLeaves : List (K × Value K O) → List (Option K × Leaf O)
  | [] => []
  | (key, value) :: rest => leaves (some key) value ++ fieldLeaves rest

end

mutual

/-- The value with its keys and its other leaves, without its texts. Tuples are lists. -/
def outline : Value K O → Value K O
  | .dict items => .dict (outlineFields items)
  | .list items => .list (outlineItems items)
  | .tuple items => .list (outlineItems items)
  | .str _ => .str []
  | .other o => .other o

def outlineItems : List (Value K O) → List (Value K O)
  | [] => []
  | value :: rest => outline value :: outlineItems rest

def outlineFields : List (K × Value K O) → List (K × Value K O)
  | [] => []
  | (key, value) :: rest => (key, outline value) :: outlineFields rest

end

/-- What becomes of a leaf. -/
def sanitizeLeaf (leaf : Option K × Leaf O) : Option K × Leaf O :=
  match leaf with
  | (key, .str text) => (key, .str (ofStr (sanitizeText (key.map keyText) text)))
  | (key, .other o) => (key, .other o)

mutual

theorem leaves_sanitizeValue (key : Option K) (value : Value K O) :
    leaves key (sanitizeValue keyText key value) =
      (leaves key value).map (sanitizeLeaf keyText) := by
  cases value with
  | dict items => exact fieldLeaves_sanitizeFields items
  | list items => exact itemLeaves_sanitizeItems key items
  | tuple items => exact itemLeaves_sanitizeItems key items
  | str text => rfl
  | other o => rfl

theorem itemLeaves_sanitizeItems (key : Option K) (items : List (Value K O)) :
    itemLeaves key (sanitizeItems keyText key items) =
      (itemLeaves key items).map (sanitizeLeaf keyText) := by
  match items with
  | [] => rfl
  | value :: rest =>
      rw [sanitizeItems, itemLeaves, itemLeaves, List.map_append, leaves_sanitizeValue key value,
        itemLeaves_sanitizeItems key rest]

theorem fieldLeaves_sanitizeFields (items : List (K × Value K O)) :
    fieldLeaves (sanitizeFields keyText items) =
      (fieldLeaves items).map (sanitizeLeaf keyText) := by
  match items with
  | [] => rfl
  | (key, value) :: rest =>
      rw [sanitizeFields, fieldLeaves, fieldLeaves, List.map_append,
        leaves_sanitizeValue (some key) value, fieldLeaves_sanitizeFields rest]

end

mutual

theorem outline_sanitizeValue (key : Option K) (value : Value K O) :
    outline (sanitizeValue keyText key value) = outline value := by
  cases value with
  | dict items =>
      rw [sanitizeValue, outline, outline, outlineFields_sanitizeFields items]
  | list items =>
      rw [sanitizeValue, outline, outline, outlineItems_sanitizeItems key items]
  | tuple items =>
      rw [sanitizeValue, outline, outline, outlineItems_sanitizeItems key items]
  | str text => rfl
  | other o => rfl

theorem outlineItems_sanitizeItems (key : Option K) (items : List (Value K O)) :
    outlineItems (sanitizeItems keyText key items) = outlineItems items := by
  match items with
  | [] => rfl
  | value :: rest =>
      rw [sanitizeItems, outlineItems, outlineItems, outline_sanitizeValue key value,
        outlineItems_sanitizeItems key rest]

theorem outlineFields_sanitizeFields (items : List (K × Value K O)) :
    outlineFields (sanitizeFields keyText items) = outlineFields items := by
  match items with
  | [] => rfl
  | (key, value) :: rest =>
      rw [sanitizeFields, outlineFields, outlineFields, outline_sanitizeValue (some key) value,
        outlineFields_sanitizeFields rest]

end

end Values

/-! ### Texts -/

@[simp] theorem chars_ofStr (s : Str) : chars (ofStr s) = s := by
  rw [chars, ofStr, List.filterMap_map]
  exact List.filterMap_some

theorem ofStr_injective : Function.Injective ofStr :=
  Function.LeftInverse.injective chars_ofStr

theorem keyIn_iff {names : List String} {key : Option PyText} :
    keyIn names key = true ↔
      ∃ k, key = some k ∧ ∃ name ∈ names, lowerText k = ofStr name.toList := by
  cases key with
  | none => simp [keyIn]
  | some k => simp [keyIn]

/-- A key is no member of two lists without a common one. -/
theorem keyIn_disjoint {names others : List String} {key : Option PyText}
    (apart : ∀ name ∈ names, ∀ other ∈ others, name.toList ≠ other.toList)
    (member : keyIn names key = true) : keyIn others key = false := by
  rw [Bool.eq_false_iff]
  intro also
  obtain ⟨k, rfl, name, mem, here⟩ := keyIn_iff.mp member
  obtain ⟨_, same, other, mem', there⟩ := keyIn_iff.mp also
  cases same
  exact apart name mem other mem' (ofStr_injective (here.symm.trans there))

/-- The place of the first group of words that a text has one of; `8` stands for none. -/
def firstGroup (text : Str) : Nat := errorSummaries.findIdx fun group => mentions group.1 text

/-- The message for a group. -/
def messageOf (group : Nat) : Str :=
  ((errorSummaries[group]?.map Prod.snd).getD operationFailed).toList

/-- The text in which the words are searched. -/
def searched (text : PyText) : Str := sanitizeAuditText (chars text)

theorem firstGroup_le (text : Str) : firstGroup text ≤ 8 := List.findIdx_le_length

theorem sanitizeErrorMessage_eq (text : PyText) :
    sanitizeErrorMessage (some text) operationFailed = messageOf (firstGroup (searched text)) := by
  change (if searched text = [] ∨ searched text = placeholder then operationFailed.toList
    else summarize (searched text) operationFailed) = _
  split
  next blank =>
    have none : firstGroup (searched text) = 8 := by
      rcases blank with blank | blank <;> rw [blank] <;> decide
    rw [none]
    rfl
  next => rw [summarize, List.find?_eq_getElem?_findIdx, messageOf, firstGroup]

theorem plain_messageOf :
    ∀ group ≤ 8, Plain (messageOf group) ∧ '\x00' ∉ messageOf group := by
  decide +kernel

theorem searched_messageOf {group : Nat} (few : group ≤ 8) :
    searched (ofStr (messageOf group)) = messageOf group := by
  obtain ⟨plain, absent⟩ := plain_messageOf group few
  rw [searched, chars_ofStr]
  exact (sanitizeAuditText_eq_self_iff ⟨_, absent⟩).mpr plain

/-- The message stays when it is taken for an error text, for all groups but two. -/
theorem firstGroup_messageOf : ∀ group ≤ 8,
    firstGroup (messageOf group) = if group = 2 ∨ group = 6 then 8 else group := by
  decide +kernel

theorem messageOf_injective : ∀ group ≤ 8, messageOf group = messageOf 8 → group = 8 := by
  decide

/-- Under a key that is not `path` nothing path-like is left. -/
theorem pathFree_sanitizeText {key : Option PyText} (other : keyIn ["path"] key = false)
    (value : PyText) : hasPathLike none (sanitizeText key value) = false := by
  rw [sanitizeText]
  split
  next => decide
  next =>
    rw [if_neg (Bool.eq_false_iff.mp other)]
    split
    next => exact sanitizeErrorMessage_eq value ▸ (plain_messageOf _ (firstGroup_le _)).1.2
    next => exact (plain_sanitizeAuditText _).2

/-- An error text for which a second pass finds no summary. -/
def Lost (text : PyText) : Prop := firstGroup (searched text) = 2 ∨ firstGroup (searched text) = 6

instance : DecidablePred Lost := fun _ => inferInstanceAs (Decidable (_ ∨ _))

theorem sanitizeErrorMessage_idempotent_iff (text : PyText) :
    sanitizeErrorMessage (some (ofStr (sanitizeErrorMessage (some text) operationFailed)))
        operationFailed = sanitizeErrorMessage (some text) operationFailed ↔ ¬Lost text := by
  have few := firstGroup_le (searched text)
  rw [sanitizeErrorMessage_eq text, sanitizeErrorMessage_eq, searched_messageOf few,
    firstGroup_messageOf _ few, Lost]
  split
  next lost =>
    refine iff_of_false (fun same => ?_) (not_not_intro lost)
    have other := messageOf_injective _ few same.symm
    omega
  next kept => exact iff_of_true rfl kept

theorem sanitizeText_of_path {key : Option PyText} (path : keyIn ["path"] key = true)
    (value : PyText) :
    sanitizeText key (ofStr (sanitizeText key value)) = sanitizeText key value := by
  have insensitive : keyIn auditSensitiveKeys key = false := keyIn_disjoint (by decide) path
  have once : ∀ value, sanitizeText key value =
      let stripped := strip (sanitizeString (chars value))
      if systemPathPrefixes.any fun p => p.toList.isPrefixOf stripped then auditRedacted
      else stripped := fun value => by rw [sanitizeText, insensitive, path]; rfl
  rw [once value]
  dsimp only
  split
  next => rw [once]; decide
  next outside =>
    have same : strip (sanitizeString (chars (ofStr (strip (sanitizeString (chars value)))))) =
        strip (sanitizeString (chars value)) := by
      rw [chars_ofStr, sanitizeString_strip, strip_strip]
    rw [once, same, if_neg outside]

theorem sanitizeText_idempotent_iff (key : Option PyText) (value : PyText) :
    sanitizeText key (ofStr (sanitizeText key value)) = sanitizeText key value ↔
      (keyIn auditErrorTextKeys key = true → ¬Lost value) := by
  cases sensitive : keyIn auditSensitiveKeys key with
  | true =>
      have other : keyIn auditErrorTextKeys key = false := keyIn_disjoint (by decide) sensitive
      have once : ∀ value, sanitizeText key value = auditRedacted := fun value => by
        rw [sanitizeText, if_pos sensitive]
      simp [once, other]
  | false =>
      cases path : keyIn ["path"] key with
      | true =>
          have other : keyIn auditErrorTextKeys key = false := keyIn_disjoint (by decide) path
          exact iff_of_true (sanitizeText_of_path path value) fun error => by simp [other] at error
      | false =>
          cases error : keyIn auditErrorTextKeys key with
          | true =>
              have once : ∀ value, sanitizeText key value =
                  sanitizeErrorMessage (some value) operationFailed := fun value => by
                rw [sanitizeText, sensitive, path, error]; rfl
              rw [once, once, sanitizeErrorMessage_idempotent_iff]
              exact ⟨fun kept _ => kept, fun kept => kept rfl⟩
          | false =>
              have once : ∀ value, sanitizeText key value = sanitizeAuditText (chars value) :=
                fun value => by rw [sanitizeText, sensitive, path, error]; rfl
              refine iff_of_true ?_ fun error => Bool.noConfusion error
              rw [once, once, chars_ofStr]
              exact sanitizeAuditText_sanitizeAuditText _

/-! ### What is left -/

/-- A text without surrogates in which nothing looks like a path. -/
def PathFree (text : PyText) : Prop := ∃ s, text = ofStr s ∧ hasPathLike none s = false

section Values

variable {K O : Type}

/-- Under a sensitive key only the marker is left, and elsewhere, but for the key `path` in any
case, nothing path-like. -/
theorem sanitizeAuditDetails_complete (keyText : K → PyText) (details : Value K O) :
    (∀ key text, (key, Leaf.str text) ∈ leaves none (sanitizeAuditDetails keyText details) →
      (keyIn auditSensitiveKeys (key.map keyText) = true → text = ofStr auditRedacted) ∧
      (keyIn ["path"] (key.map keyText) = false → PathFree text)) ∧
    outline (sanitizeAuditDetails keyText details) = outline details := by
  refine ⟨fun key text mem => ?_, outline_sanitizeValue keyText none details⟩
  rw [sanitizeAuditDetails, leaves_sanitizeValue, List.mem_map] at mem
  obtain ⟨⟨key', leaf⟩, -, same⟩ := mem
  cases leaf with
  | other o => cases same
  | str value =>
      cases same
      refine ⟨fun sensitive => ?_, fun other => ⟨_, rfl, pathFree_sanitizeText other value⟩⟩
      rw [sanitizeText, if_pos sensitive]

/-- The key `Path` counts as `path`, and a path under it stays. -/
theorem path_kept :
    ¬∀ key text, (key, Leaf.str text) ∈ leaves none (sanitizeAuditDetails ofStr
        (.dict [("Path".toList, .str (ofStr "/home/case".toList))] : Value Str Unit)) →
      key ≠ some "path".toList → PathFree text := by
  intro all
  obtain ⟨s, same, free⟩ := all (some "Path".toList) (ofStr "/home/case".toList)
    (List.mem_singleton_self _) (by decide)
  rw [← ofStr_injective same] at free
  exact absurd free (by decide)

/-! ### Twice -/

/-- No text under a key for error texts gets lost in a second pass. -/
def Stable (keyText : K → PyText) (found : List (Option K × Leaf O)) : Prop :=
  ∀ key text, (key, .str text) ∈ found →
    keyIn auditErrorTextKeys (key.map keyText) = true → ¬Lost text

theorem stable_append (keyText : K → PyText) (found more : List (Option K × Leaf O)) :
    Stable keyText (found ++ more) ↔ Stable keyText found ∧ Stable keyText more := by
  simp only [Stable, List.mem_append, or_imp, forall_and]

theorem stable_singleton (keyText : K → PyText) (key : Option K) (text : PyText) :
    Stable (O := O) keyText [(key, .str text)] ↔
      (keyIn auditErrorTextKeys (key.map keyText) = true → ¬Lost text) := by
  simp [Stable]

mutual

theorem sanitizeValue_idempotent_iff (keyText : K → PyText) (key : Option K) (value : Value K O) :
    sanitizeValue keyText key (sanitizeValue keyText key value) = sanitizeValue keyText key value ↔
      Stable keyText (leaves key value) := by
  cases value with
  | dict items =>
      rw [sanitizeValue, sanitizeValue, Value.dict.injEq, leaves]
      exact sanitizeFields_idempotent_iff keyText items
  | list items =>
      rw [sanitizeValue, sanitizeValue, Value.list.injEq, leaves]
      exact sanitizeItems_idempotent_iff keyText key items
  | tuple items =>
      rw [sanitizeValue, sanitizeValue, Value.list.injEq, leaves]
      exact sanitizeItems_idempotent_iff keyText key items
  | str text =>
      rw [sanitizeValue, sanitizeValue, Value.str.injEq, ofStr_injective.eq_iff, leaves,
        stable_singleton]
      exact sanitizeText_idempotent_iff _ text
  | other o => exact iff_of_true rfl (by simp [leaves, Stable])

theorem sanitizeItems_idempotent_iff (keyText : K → PyText) (key : Option K)
    (items : List (Value K O)) :
    sanitizeItems keyText key (sanitizeItems keyText key items) =
      sanitizeItems keyText key items ↔ Stable keyText (itemLeaves key items) := by
  match items with
  | [] => exact iff_of_true rfl (by simp [itemLeaves, Stable])
  | value :: rest =>
      rw [sanitizeItems, sanitizeItems, List.cons.injEq, itemLeaves, stable_append]
      exact and_congr (sanitizeValue_idempotent_iff keyText key value)
        (sanitizeItems_idempotent_iff keyText key rest)

theorem sanitizeFields_idempotent_iff (keyText : K → PyText) (items : List (K × Value K O)) :
    sanitizeFields keyText (sanitizeFields keyText items) = sanitizeFields keyText items ↔
      Stable keyText (fieldLeaves items) := by
  match items with
  | [] => exact iff_of_true rfl (by simp [fieldLeaves, Stable])
  | (key, value) :: rest =>
      rw [sanitizeFields, sanitizeFields, List.cons.injEq, Prod.mk.injEq, fieldLeaves,
        stable_append]
      refine and_congr ?_ (sanitizeFields_idempotent_iff keyText rest)
      rw [← sanitizeValue_idempotent_iff keyText (some key) value]
      exact and_iff_right rfl

end

/-- The details with the summary of an error, as the callers write them. -/
def errorDetails (err : Option PyText) : Value Str Unit :=
  .dict [("error".toList, .str (ofStr (sanitizeErrorMessage err operationFailed)))]

theorem sanitizeAuditDetails_errorDetails (err : Option PyText) :
    sanitizeAuditDetails ofStr (errorDetails err) = errorDetails err ↔
      sanitizeErrorMessage (some (ofStr (sanitizeErrorMessage err operationFailed)))
        operationFailed = sanitizeErrorMessage err operationFailed := by
  simp only [sanitizeAuditDetails, errorDetails, sanitizeValue, sanitizeFields,
    Value.dict.injEq, List.cons.injEq, Prod.mk.injEq, Value.str.injEq, true_and, and_true]
  exact ofStr_injective.eq_iff

/-- A second pass changes nothing exactly when no error text is lost, whether the first pass was
the repository's or the caller's. -/
theorem sanitizeAuditDetails_idempotent_iff (keyText : K → PyText) :
    (∀ details : Value K O,
      sanitizeAuditDetails keyText (sanitizeAuditDetails keyText details) =
          sanitizeAuditDetails keyText details ↔
        Stable keyText (leaves none details)) ∧
    ∀ err, sanitizeAuditDetails ofStr (errorDetails err) = errorDetails err ↔
      ∀ text, err = some text → ¬Lost text := by
  refine ⟨sanitizeValue_idempotent_iff keyText none, fun err => ?_⟩
  rw [sanitizeAuditDetails_errorDetails]
  cases err with
  | none => exact iff_of_true (by decide) nofun
  | some text =>
      rw [sanitizeErrorMessage_idempotent_iff]
      exact ⟨fun kept _ same => Option.some.inj same ▸ kept, fun kept => kept text rfl⟩

/-- `umount` says that a drive is not mounted. -/
def notMounted : PyText := ofStr "umount: /mnt/ecube/7: not mounted".toList

/-- The summary of that is taken for an unknown error. -/
theorem notMounted_lost :
    sanitizeErrorMessage (some notMounted) operationFailed =
        "Target was already unmounted".toList ∧
      sanitizeAuditDetails ofStr (errorDetails (some notMounted)) ≠
        errorDetails (some notMounted) := by
  have group : firstGroup (searched notMounted) = 2 := by decide
  refine ⟨?_, fun same => ?_⟩
  · rw [sanitizeErrorMessage_eq, group]
    rfl
  · rw [sanitizeAuditDetails_errorDetails, sanitizeErrorMessage_idempotent_iff] at same
    exact same (.inl group)

end Values

end Ecube.AuditDetails
