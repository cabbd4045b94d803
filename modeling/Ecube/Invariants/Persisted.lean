import Ecube.Basic.EnvLines
import Ecube.Services.Configuration

/-!
An update of the configuration and what is read from the file after it.

A value is written as text by its field and read by its field and the value that is held
(`readsBack`). A file keeps it as long as its text has no line break and stands for that value.

Theorem: `persisted_iff`. The settings are read back as they are held just if no field that
needs a value is set to null, no text has a line break in it, and the lines of the other
fields can be read.
-/

namespace Ecube.Configuration

open PosixPath Text EnvFile JsonText Integers

/-! ### The keys of the file -/

def keyOk (key : Str) : Bool := !key.isEmpty && key.all fun c => !isSpace c && c ≠ '=' && c ≠ '#'

theorem isKey_of_keyOk {key : Str} (h : keyOk key = true) : IsKey key := by
  rw [keyOk, Bool.and_eq_true] at h
  constructor
  · rintro rfl
    exact absurd h.1 (by decide)
  · intro c mem
    have each := List.all_eq_true.mp h.2 c mem
    simpa [and_assoc] using each

theorem isKey_envKey (f : Field) : IsKey f.envKey := by
  have all : Field.all.all (fun f => keyOk f.envKey) = true := by decide +kernel
  exact isKey_of_keyOk (List.all_eq_true.mp all f f.mem_all)

theorem envKey_injective {f g : Field} (h : f.envKey = g.envKey) : f = g := by
  have nodup : (Field.all.map Field.envKey).Nodup := by decide +kernel
  exact List.inj_on_of_nodup_map nodup f.mem_all g.mem_all h

/-! ### The sorts of fields -/

/-- A kind whose values are written as they are. -/
def Kind.isPlain : Kind → Bool
  | .literal options => options.all fun o => o.toList.all fun c => !isSpace c
  | .int _ _ | .bool => true
  | _ => false

/-- How a field is written and read. -/
inductive Field.Sort (f : Field) : Prop where
  | text (is : f.isText = true) (kind : f.kind = .safeStr)
      (serializer : f.spec.serializer = serializeText)
  | list (is : f = .callbackPayloadFields)
  | map (is : f = .callbackPayloadFieldMap)
  | plain (noText : f.isText = false) (noList : f ≠ .callbackPayloadFields)
      (noMap : f ≠ .callbackPayloadFieldMap) (kind : f.kind.isPlain = true)
      (serializer : f.spec.serializer = serializePlain)

theorem Field.sort (f : Field) : f.Sort := by
  cases f with
  | logFile | callbackDefaultUrl | callbackProxyUrl | callbackHmacSecret => exact .text rfl rfl rfl
  | callbackPayloadFields => exact .list rfl
  | callbackPayloadFieldMap => exact .map rfl
  | _ => exact .plain rfl nofun nofun (by decide) rfl

/-! ### Values in the file -/

/-- What a line of the file can hold for a field. -/
def Storable (f : Field) (v : Value) : Prop :=
  if f.isText then ∀ s, v = .text s → ∀ c ∈ strip s, isBreak c = false
  else f = .callbackPayloadFields ∨ f = .callbackPayloadFieldMap ∨ v ≠ .none

theorem not_isBreak_of_not_isSpace {c : Char} (h : isSpace c = false) : isBreak c = false := by
  cases br : isBreak c with
  | false => rfl
  | true =>
      rw [isBreak, Bool.or_eq_true, decide_eq_true_eq, decide_eq_true_eq] at br
      rcases br with rfl | rfl
      · exact absurd h (by decide)
      · exact absurd h (by decide)

theorem not_isBreak_of_printable {s : Str} (h : Printable s) : ∀ c ∈ s, isBreak c = false := by
  intro c mem
  have high := h c mem
  rw [isBreak, Bool.or_eq_false_iff, decide_eq_false_iff_not, decide_eq_false_iff_not]
  constructor
  · rintro rfl
    exact absurd high (by decide)
  · rintro rfl
    exact absurd high (by decide)

theorem strip_rstrip_of_no_space {s : Str} (h : ∀ c ∈ s, isSpace c = false) :
    strip (rstrip s) = s := by
  have whole : rstrip s = s := by
    rw [rstrip, List.rdropWhile_eq_self_iff]
    intro nonempty
    simp [h _ (List.getLast_mem nonempty)]
  rw [whole, strip_of_no_space h]

/-- What a field reads back from the text that is written for a value. -/
def ReadsBack (r : Reader) (f : Field) (v : Value) (text : Str) : Prop :=
  parsePersistedConfigurationValue r f (rstrip text) v = some v ∧ ∀ c ∈ text, isBreak c = false

variable {r : Reader} {f : Field} {v : Value} {text : Str}

theorem readsBack_blank (is : f.isText = true) : ReadsBack r f .none [] := by
  constructor
  · unfold parsePersistedConfigurationValue
    rw [if_pos is]
    rfl
  · intro c mem
    exact absurd mem List.not_mem_nil

theorem readsBack_text (is : f.isText = true) (serializer : f.spec.serializer = serializeText)
    (kind : Admissible .safeStr v) (storable : Storable f v)
    (written : f.spec.serializer (normalizedValue f v) = some text) :
    ReadsBack r f (normalizedValue f v) text := by
  rw [serializer] at written
  rw [Storable, if_pos is] at storable
  cases v with
  | none =>
      cases written
      exact readsBack_blank is
  | text s =>
      have plain := storable s rfl
      rw [normalizedValue, if_pos is, textOrNone] at written ⊢
      by_cases empty : strip s = []
      · rw [if_pos empty] at written ⊢
        cases written
        exact readsBack_blank is
      · rw [if_neg empty] at written ⊢
        have eq : text = strip s := by
          have same : some (strip (strip s)) = some text := written
          rw [strip_strip] at same
          exact (Option.some.inj same).symm
        subst eq
        constructor
        · unfold parsePersistedConfigurationValue
          rw [if_pos is, textOrNone, rstrip_strip, strip_strip, if_neg empty]
        · exact plain
  | bool | int | list | map | other => exact absurd kind id

theorem strip_bracketed {s : Str} {c d : Char} (hc : isSpace c = false) (hd : isSpace d = false)
    (inner : Str) (eq : s = c :: (inner ++ [d])) : strip (rstrip s) = s := by
  have whole : rstrip (c :: (inner ++ [d])) = c :: (inner ++ [d]) := by
    have last := rstrip_append_cons hd (c :: inner) []
    rwa [rstrip_nil, List.cons_append] at last
  rw [eq, whole, strip_cons hc, whole]

theorem readsBack_list (is : f = .callbackPayloadFields) (kind : Admissible f.kind v)
    (written : f.spec.serializer (normalizedValue f v) = some text) :
    ReadsBack r f (normalizedValue f v) text := by
  subst is
  cases v with
  | none =>
      cases written
      exact ⟨rfl, fun c mem => absurd mem List.not_mem_nil⟩
  | list items =>
      cases written
      obtain ⟨inner, eq⟩ := dumpsItems_eq_concat quoted ']' items
      have strips : strip (rstrip (dumpsList items)) = dumpsList items :=
        @strip_bracketed _ '[' ']' (by decide) (by decide) inner (by rw [dumpsList, eq])
      have nonempty : dumpsList items ≠ [] := List.cons_ne_nil _ _
      constructor
      · unfold parsePersistedConfigurationValue
        rw [if_neg (by decide), if_pos rfl, strips, if_neg nonempty, readList_dumpsList]
        rfl
      · exact not_isBreak_of_printable (printable_dumpsList items)
  | bool | int | text | map | other => exact absurd kind id

theorem readsBack_map (is : f = .callbackPayloadFieldMap) (kind : Admissible f.kind v)
    (written : f.spec.serializer (normalizedValue f v) = some text) :
    ReadsBack r f (normalizedValue f v) text := by
  subst is
  cases v with
  | none =>
      cases written
      exact ⟨rfl, fun c mem => absurd mem List.not_mem_nil⟩
  | map members =>
      cases written
      obtain ⟨inner, eq⟩ := dumpsItems_eq_concat member '\x7d' members
      have strips : strip (rstrip (dumpsMap members)) = dumpsMap members :=
        @strip_bracketed _ '\x7b' '\x7d' (by decide) (by decide) inner (by rw [dumpsMap, eq])
      have nonempty : dumpsMap members ≠ [] := List.cons_ne_nil _ _
      constructor
      · unfold parsePersistedConfigurationValue
        rw [if_neg (by decide), if_neg (by decide), if_pos rfl, strips, if_neg nonempty,
          readMap_dumpsMap kind]
        rfl
      · exact not_isBreak_of_printable (printable_dumpsMap members)
  | bool | int | text | list | other => exact absurd kind id

theorem boolText_no_space (b : Bool) :
    ∀ c ∈ if b then "True".toList else "False".toList, isSpace c = false := by
  have all : (if b then "True".toList else "False".toList).all (fun c => !isSpace c) = true := by
    cases b <;> decide
  intro c mem
  exact Bool.not_eq_true' _ ▸ List.all_eq_true.mp all c mem

theorem boolText_read (b : Bool) :
    decide (String.ofList (lower (if b then "True".toList else "False".toList)) ∈
      ["1", "true", "yes", "on"]) = b := by
  cases b <;> decide

/-- The text of a value of a plain kind has no blanks. -/
theorem serializePlain_no_space {k : Kind} (plain : k.isPlain = true) (kind : Admissible k v)
    (nonnull : v ≠ .none) (written : serializePlain v = some text) :
    ∀ c ∈ text, isSpace c = false := by
  cases v with
  | none => exact absurd rfl nonnull
  | bool b =>
      cases written
      exact boolText_no_space b
  | int n =>
      have number : strInt n = some text := written
      rw [strInt] at number
      split at number
      next =>
        cases number
        exact fun c mem => not_isSpace_of_mem_decimal mem
      next => cases number
  | text s =>
      cases written
      cases k with
      | literal options =>
          have clean := List.all_eq_true.mp (List.all_eq_true.mp plain _ kind)
          intro c mem
          simpa using clean c (by rwa [String.toList_ofList])
      | safeStr => cases plain
      | int | bool | safeStrs | safeStrMap => exact absurd kind id
  | list | map | other => cases written

theorem readsBack_plain (noText : f.isText = false) (noList : f ≠ .callbackPayloadFields)
    (noMap : f ≠ .callbackPayloadFieldMap) (plain : f.kind.isPlain = true)
    (serializer : f.spec.serializer = serializePlain) (kind : Admissible f.kind v)
    (storable : Storable f v)
    (written : f.spec.serializer (normalizedValue f v) = some text) :
    ReadsBack r f (normalizedValue f v) text := by
  rw [Storable, noText, if_neg Bool.false_ne_true] at storable
  have nonnull : v ≠ .none := (storable.resolve_left noList).resolve_left noMap
  have same : normalizedValue f v = v := by
    cases v with
    | text s => rw [normalizedValue, noText, if_neg Bool.false_ne_true]
    | _ => rfl
  rw [serializer, same] at written
  rw [same]
  have clean := serializePlain_no_space plain kind nonnull written
  refine ⟨?_, fun c mem => not_isBreak_of_not_isSpace (clean c mem)⟩
  unfold parsePersistedConfigurationValue
  rw [noText, if_neg Bool.false_ne_true, if_neg noList, if_neg noMap,
    strip_rstrip_of_no_space clean]
  cases v with
  | none => exact absurd rfl nonnull
  | bool b =>
      cases written
      exact congrArg (fun b => some (Value.bool b)) (boolText_read b)
  | int n =>
      dsimp only
      rw [parseInt_strInt r.digit written]
      rfl
  | text s =>
      cases written
      rfl
  | list | map | other => exact absurd written nofun

theorem readsBack (kind : Admissible f.kind v) (storable : Storable f v)
    (written : f.spec.serializer (normalizedValue f v) = some text) :
    ReadsBack r f (normalizedValue f v) text := by
  cases f.sort with
  | text is same serializer => exact readsBack_text is serializer (same ▸ kind) storable written
  | list is => exact readsBack_list is kind written
  | map is => exact readsBack_map is kind written
  | plain noText noList noMap plain serializer =>
      exact readsBack_plain noText noList noMap plain serializer kind storable written

/-- A value that is read back from a line is one that a line can hold. -/
theorem storable_of_parse {raw : Str} (kind : Admissible f.kind v)
    (quiet : ∀ c ∈ raw, isBreak c = false)
    (h : parsePersistedConfigurationValue r f raw (normalizedValue f v) =
      some (normalizedValue f v)) : Storable f v := by
  unfold parsePersistedConfigurationValue at h
  cases f.sort with
  | text is same serializer =>
      rw [Storable, if_pos is]
      rw [if_pos is] at h
      rintro s rfl c mem
      have stripped : strip s ≠ [] := List.ne_nil_of_mem mem
      rw [normalizedValue, if_pos is, textOrNone, textOrNone, if_neg stripped] at h
      split at h
      · exact absurd h nofun
      · have eq : strip raw = strip s := Value.text.inj (Option.some.inj h)
        exact quiet c (mem_of_mem_strip (eq ▸ mem))
  | list is =>
      rw [is]
      exact .inl rfl
  | map is =>
      rw [is]
      exact .inr (.inl rfl)
  | plain noText noList noMap plain serializer =>
      rw [Storable, noText, if_neg Bool.false_ne_true]
      right
      right
      rintro rfl
      rw [noText, if_neg Bool.false_ne_true, if_neg noList, if_neg noMap] at h
      exact absurd h nofun

/-! ### The file after an update -/

theorem readLines_translate (content : Str) :
    readLines (translate content) = readLines content := by
  rw [readLines, translate_translate, readLines]

theorem readEnvSetting_write {inDocker : Bool} {updates : List (Str × Str)} {content : Str}
    (some : updates ≠ []) (key : Str) :
    readEnvSetting (writeEnvSettings inDocker updates (.some content)) key =
      EnvFile.read (write updates content) key := by
  rw [writeEnvSettings, if_neg some, readEnvSetting, Option.getD_some, Option.getD_some]
  split
  · rw [EnvFile.read, readLines_translate, EnvFile.read]
  · rfl

/-! ### What an update sets -/

theorem sublist_settingsOf (values : List (Key × Value)) :
    ((settingsOf values).map fun e => Key.setting e.1).Sublist (values.map Prod.fst) := by
  induction values with
  | nil => exact List.Sublist.slnil
  | cons e values ih =>
      obtain ⟨key, value⟩ := e
      cases key with
      | setting f => exact ih.cons_cons _
      | allowInsecureCallbackDefaultUrl => exact ih.cons _
      | clearCallbackHmacSecret => exact ih.cons _

theorem mem_settingsOf {values : List (Key × Value)} {e : Field × Value}
    (h : e ∈ settingsOf values) : (Key.setting e.1, e.2) ∈ values := by
  obtain ⟨⟨key, value⟩, mem, eq⟩ := List.mem_filterMap.mp h
  cases key with
  | setting f =>
      cases eq
      exact mem
  | allowInsecureCallbackDefaultUrl => exact absurd eq nofun
  | clearCallbackHmacSecret => exact absurd eq nofun

theorem requested_nodup {values : List (Key × Value)} (h : (values.map Prod.fst).Nodup) :
    ((requested values).map Prod.fst).Nodup := by
  have settings : ((settingsOf values).map Prod.fst).Nodup := by
    have keys := h.sublist (sublist_settingsOf values)
    rw [show (fun e : Field × Value => Key.setting e.1) = Key.setting ∘ Prod.fst from rfl,
      ← List.map_map] at keys
    exact keys.of_map _
  rw [requested]
  split
  · split
    · have same : ((settingsOf values).map fun e =>
          if e.1 = .callbackHmacSecret then (e.1, Value.none) else e).map Prod.fst =
          (settingsOf values).map Prod.fst := by
        rw [List.map_map]
        apply List.map_congr_left
        intro e _
        rw [Function.comp_apply]
        split <;> rfl
      rw [same]
      exact settings
    next absent =>
      rw [List.map_append, List.map_singleton]
      refine List.nodup_append.mpr ⟨settings, List.nodup_singleton _, fun f mem g last same => ?_⟩
      rw [same, List.mem_singleton.mp last] at mem
      exact absent mem
  · exact settings

theorem admissible_none (k : Kind) : Admissible k .none := by
  cases k <;> trivial

theorem requested_admissible {values : List (Key × Value)}
    (h : ∀ e ∈ values, Admissible e.1.kind e.2) :
    ∀ e ∈ requested values, Admissible e.1.kind e.2 := by
  have settings : ∀ e ∈ settingsOf values, Admissible e.1.kind e.2 :=
    fun e mem => h _ (mem_settingsOf mem)
  intro e mem
  rw [requested] at mem
  split at mem
  · split at mem
    · obtain ⟨old, within, rfl⟩ := List.mem_map.mp mem
      split
      · exact admissible_none _
      · exact settings old within
    · rcases List.mem_append.mp mem with within | last
      · exact settings e within
      · rw [List.mem_singleton.mp last]
        exact admissible_none _
  · exact settings e mem

theorem assignAll_of_not_mem {settings : Field → Value} {values : List (Field × Value)}
    {f : Field} (absent : f ∉ values.map Prod.fst) :
    assignAll settings values f = settings f := by
  induction values generalizing settings with
  | nil => rfl
  | cons e values ih =>
      rw [List.map_cons, List.mem_cons, not_or] at absent
      rw [assignAll, List.foldl_cons, ← assignAll, ih absent.2,
        Function.update_of_ne absent.1]

theorem assignAll_of_mem {settings : Field → Value} {values : List (Field × Value)}
    (nodup : (values.map Prod.fst).Nodup) {e : Field × Value} (mem : e ∈ values) :
    assignAll settings values e.1 = e.2 := by
  induction values generalizing settings with
  | nil => exact absurd mem List.not_mem_nil
  | cons first values ih =>
      rw [List.map_cons, List.nodup_cons] at nodup
      rw [assignAll, List.foldl_cons, ← assignAll]
      rcases List.mem_cons.mp mem with rfl | later
      · rw [assignAll_of_not_mem nodup.1, Function.update_self]
      · exact ih nodup.2 later

/-- The new values of an update. -/
def pendingOf (values : List (Key × Value)) : List (Field × Value) :=
  (requested values).map fun e => (e.1, normalizedValue e.1 e.2)

theorem fields_pendingOf (values : List (Key × Value)) :
    (pendingOf values).map Prod.fst = (requested values).map Prod.fst := by
  rw [pendingOf, List.map_map]
  rfl

/-- An update that changes something: the state after it, and what its lines are. -/
theorem updateConfiguration_ok {r : Reader} {a : Answers} {scope : Scope}
    {values : List (Key × Value)} {s s' : State} {changes : List Change}
    {now restart : List Field}
    (h : updateConfiguration r a scope values s = (s', .ok (.updated changes now restart))) :
    ∃ updates, envUpdates (pendingOf values) = .ok updates ∧ pendingOf values ≠ [] ∧
      s' = { settings := assignAll s.settings (pendingOf values)
             envFile := writeEnvSettings a.inDocker updates s.envFile } ∧
      changes.map Change.field = (requested values).map Prod.fst := by
  rw [updateConfiguration] at h
  split at h
  · cases h
  next p prepared =>
    have parts : p.pending = pendingOf values ∧ envUpdates (pendingOf values) = .ok p.updates := by
      simp only [prepare, bind_eq_ok, pure_eq_ok] at prepared
      obtain ⟨_, -, _, -, updates, lines, _, -, rfl⟩ := prepared
      exact ⟨rfl, lines⟩
    split at h
    · cases h
    next some =>
      split at h
      · cases h
      · split at h
        · cases h
        · split at h
          · cases h
          · obtain ⟨rfl, result⟩ := Prod.mk.inj h
            have same : changes.map Change.field = p.pending.map Prod.fst := by
              cases result
              rw [List.map_map]
              rfl
            rw [parts.1] at some same ⊢
            exact ⟨p.updates, parts.2, some, rfl, same.trans (fields_pendingOf values)⟩

/-! ### Lines of an update -/

theorem keys_envUpdates {settings : List (Field × Value)} {updates : List (Str × Str)}
    (h : envUpdates settings = .ok updates) :
    updates.map Prod.fst = (settings.map Prod.fst).map Field.envKey := by
  have each := mapM_eq_ok.mp h
  clear h
  induction each with
  | nil => rfl
  | cons first _ ih =>
      simp only [bind_eq_ok, pure_eq_ok] at first
      obtain ⟨text, -, rfl⟩ := first
      rw [List.map_cons, List.map_cons, List.map_cons, ih]

theorem valid_envUpdates {settings : List (Field × Value)} {updates : List (Str × Str)}
    (h : envUpdates settings = .ok updates) (nodup : (settings.map Prod.fst).Nodup) :
    Valid updates := by
  constructor
  · intro u mem
    have key := List.mem_map_of_mem (f := Prod.fst) mem
    rw [keys_envUpdates h] at key
    obtain ⟨f, -, eq⟩ := List.mem_map.mp key
    rw [← eq]
    exact isKey_envKey f
  · rw [keys_envUpdates h]
    exact nodup.map fun _ _ same => envKey_injective same

/-- Each line of an update stands for one of its settings, and the other way around. -/
theorem mem_envUpdates {settings : List (Field × Value)} {updates : List (Str × Str)}
    (h : envUpdates settings = .ok updates) :
    (∀ u ∈ updates, ∃ e ∈ settings, e.1.envKey = u.1 ∧ e.1.spec.serializer e.2 = some u.2) ∧
      ∀ e ∈ settings, ∃ text, (e.1.envKey, text) ∈ updates ∧
        e.1.spec.serializer e.2 = some text := by
  have each := mem_mapM h
  simp only [bind_eq_ok, pure_eq_ok, orReject_eq_ok] at each
  constructor
  · intro u mem
    obtain ⟨e, within, text, written, rfl⟩ := each.1 u mem
    exact ⟨e, within, rfl, written⟩
  · intro e mem
    obtain ⟨u, within, text, written, rfl⟩ := each.2 e mem
    exact ⟨text, within, written⟩

theorem load_eq_some {r : Reader} {s : State} {overrides : Field → Option Value} :
    loadPersistedConfigurationOverrides r s = some overrides ↔
      ∀ f, persistedValue r s f = some (overrides f) := by
  rw [loadPersistedConfigurationOverrides]
  constructor
  · intro h f
    split at h
    next all =>
      cases h
      obtain ⟨v, eq⟩ := Option.isSome_iff_exists.mp (List.all_eq_true.mp all f f.mem_all)
      dsimp only
      rw [eq, Option.getD_some]
    next => exact absurd h nofun
  · intro h
    have all : Field.all.all (fun f => (persistedValue r s f).isSome) = true := by
      apply List.all_eq_true.mpr
      intro f _
      rw [h f, Option.isSome_some]
    rw [if_pos all]
    congr 1
    funext f
    rw [h f, Option.getD_some]

/-! ### An update and the file -/

/-- What is read from the file after an update: for the fields it has changed the values in the
settings, and for the others what was read before. -/
structure Persisted (r : Reader) (s s' : State) (fields : List Field) : Prop where
  changed : ∀ f ∈ fields, (loadPersistedConfigurationOverrides r s').map (· f) =
    some (some (s'.settings f))
  others : ∀ f ∉ fields, ∀ before, loadPersistedConfigurationOverrides r s = some before →
    (loadPersistedConfigurationOverrides r s').map (· f) = some (before f)

/-- An update that sets what lines can hold, of a file whose other lines can be read. -/
structure Fits (r : Reader) (values : List (Key × Value)) (s : State) : Prop where
  storable : ∀ e ∈ requested values, Storable e.1 e.2
  readable : ∀ f ∉ (requested values).map Prod.fst, ∀ raw,
    readEnvSetting s.envFile f.envKey = some raw →
      (parsePersistedConfigurationValue r f raw (s.settings f)).isSome = true

section Update

variable {r : Reader} {values : List (Key × Value)} {s s' : State} {content : Str}
  {inDocker : Bool} {updates : List (Str × Str)}
  (nodup : ((requested values).map Prod.fst).Nodup)
  (admissible : ∀ e ∈ requested values, Admissible e.1.kind e.2)
  (lines : envUpdates (pendingOf values) = .ok updates) (nonempty : pendingOf values ≠ [])
  (file : s.envFile = some content) (ends : EndsWithNewline content)
  (single : ∀ key, (valuesOf key (readLines content)).length ≤ 1)
  (after : s' = { settings := assignAll s.settings (pendingOf values)
                  envFile := writeEnvSettings inDocker updates s.envFile })

include nodup after in
theorem settings_requested {e : Field × Value} (mem : e ∈ requested values) :
    s'.settings e.1 = normalizedValue e.1 e.2 := by
  have pending : (e.1, normalizedValue e.1 e.2) ∈ pendingOf values :=
    List.mem_map.mpr ⟨e, mem, rfl⟩
  rw [after]
  exact assignAll_of_mem (by rwa [fields_pendingOf]) pending

include after in
theorem settings_other {f : Field} (absent : f ∉ (requested values).map Prod.fst) :
    s'.settings f = s.settings f := by
  rw [after]
  exact assignAll_of_not_mem (by rwa [fields_pendingOf])

include lines nonempty in
theorem updates_ne_nil : updates ≠ [] := by
  obtain ⟨e, rest, eq⟩ := List.exists_cons_of_ne_nil nonempty
  obtain ⟨text, mem, -⟩ := (mem_envUpdates lines).2 e (eq ▸ List.mem_cons_self)
  exact List.ne_nil_of_mem mem

include admissible lines in
/-- No line of an update with storable values is broken. -/
theorem updates_plain (r : Reader) (storable : ∀ e ∈ requested values, Storable e.1 e.2) :
    ∀ u ∈ updates, ∀ c ∈ u.2, isBreak c = false := by
  intro u mem
  obtain ⟨e, within, -, written⟩ := (mem_envUpdates lines).1 u mem
  obtain ⟨old, asked, rfl⟩ := List.mem_map.mp within
  have back : ReadsBack r old.1 (normalizedValue old.1 old.2) u.2 :=
    readsBack (admissible old asked) (storable old asked) written
  exact back.2

include nodup admissible lines nonempty file ends single after in
theorem persistedValue_requested (storable : ∀ e ∈ requested values, Storable e.1 e.2)
    {e : Field × Value} (mem : e ∈ requested values) :
    persistedValue r s' e.1 = some (some (s'.settings e.1)) := by
  have pending : (e.1, normalizedValue e.1 e.2) ∈ pendingOf values :=
    List.mem_map.mpr ⟨e, mem, rfl⟩
  obtain ⟨text, line, written⟩ := (mem_envUpdates lines).2 _ pending
  have valid := valid_envUpdates lines (by rwa [fields_pendingOf])
  have back : ReadsBack r e.1 (normalizedValue e.1 e.2) text :=
    readsBack (admissible e mem) (storable e mem) written
  have raw : readEnvSetting s'.envFile e.1.envKey = some (rstrip text) := by
    rw [after, file, readEnvSetting_write (updates_ne_nil lines nonempty)]
    exact read_write_mem valid (updates_plain admissible lines r storable) ends line (single _)
  rw [persistedValue, raw, settings_requested nodup after mem]
  dsimp only
  rw [back.1]
  rfl

include nodup admissible lines nonempty file ends after in
theorem persistedValue_other (storable : ∀ e ∈ requested values, Storable e.1 e.2)
    {f : Field} (absent : f ∉ (requested values).map Prod.fst) :
    persistedValue r s' f = persistedValue r s f := by
  have valid := valid_envUpdates lines (by rwa [fields_pendingOf])
  have others : ∀ u ∈ updates, u.1 ≠ f.envKey := by
    intro u mem same
    obtain ⟨e, within, key, -⟩ := (mem_envUpdates lines).1 u mem
    have field := envKey_injective (key.trans same)
    have listed := List.mem_map_of_mem (f := Prod.fst) within
    rw [fields_pendingOf, field] at listed
    exact absent listed
  have raw : readEnvSetting s'.envFile f.envKey = readEnvSetting s.envFile f.envKey := by
    rw [after, file, readEnvSetting_write (updates_ne_nil lines nonempty)]
    exact read_write_of_not_mem valid (updates_plain admissible lines r storable) ends others
  rw [persistedValue, persistedValue, raw, settings_other after absent]

include nodup admissible lines nonempty file ends single after in
theorem persisted_of_fits (fits : Fits r values s) :
    Persisted r s s' ((requested values).map Prod.fst) := by
  have other : ∀ f ∉ (requested values).map Prod.fst,
      persistedValue r s' f = persistedValue r s f :=
    fun f absent => persistedValue_other nodup admissible lines nonempty file ends after
      fits.storable absent
  have asked : ∀ f ∈ (requested values).map Prod.fst,
      persistedValue r s' f = some (some (s'.settings f)) := by
    intro f mem
    obtain ⟨e, within, rfl⟩ := List.mem_map.mp mem
    exact persistedValue_requested nodup admissible lines nonempty file ends single after
      fits.storable within
  have readable : ∀ f, ∃ v, persistedValue r s' f = some v := by
    intro f
    by_cases mem : f ∈ (requested values).map Prod.fst
    · exact ⟨_, asked f mem⟩
    · rw [other f mem, persistedValue]
      cases raw : readEnvSetting s.envFile f.envKey with
      | none => exact ⟨none, rfl⟩
      | some text =>
          obtain ⟨v, eq⟩ := Option.isSome_iff_exists.mp (fits.readable f mem text raw)
          refine ⟨some v, ?_⟩
          dsimp only
          rw [eq, Option.map_some]
  choose overrides eq using readable
  have loaded := load_eq_some.mpr eq
  constructor
  · intro f mem
    rw [loaded, Option.map_some, ← eq f, asked f mem]
  · intro f absent before loadedBefore
    rw [loaded, Option.map_some, ← eq f, other f absent, load_eq_some.mp loadedBefore f]

include nodup admissible lines nonempty file ends after in
theorem fits_of_persisted (persisted : Persisted r s s' ((requested values).map Prod.fst)) :
    Fits r values s := by
  have asked : ∀ e ∈ requested values, ∃ overrides,
      loadPersistedConfigurationOverrides r s' = some overrides ∧
        overrides e.1 = some (s'.settings e.1) := by
    intro e mem
    exact Option.map_eq_some_iff.mp (persisted.changed e.1 (List.mem_map_of_mem mem))
  have storable : ∀ e ∈ requested values, Storable e.1 e.2 := by
    intro e mem
    obtain ⟨overrides, loaded, held⟩ := asked e mem
    have value := load_eq_some.mp loaded e.1
    rw [held, settings_requested nodup after mem, persistedValue,
      settings_requested nodup after mem] at value
    split at value
    · exact absurd value nofun
    next raw found =>
      obtain ⟨v, parsed, same⟩ := Option.map_eq_some_iff.mp value
      rw [Option.some.inj same] at parsed
      exact storable_of_parse (admissible e mem) (not_isBreak_of_read found) parsed
  refine ⟨storable, fun f absent raw found => ?_⟩
  obtain ⟨e, rest, eq⟩ := List.exists_cons_of_ne_nil nonempty
  have first : e ∈ pendingOf values := eq ▸ List.mem_cons_self
  obtain ⟨old, mem, -⟩ := List.mem_map.mp first
  obtain ⟨overrides, loaded, -⟩ := asked old mem
  have value := load_eq_some.mp loaded f
  rw [persistedValue_other nodup admissible lines nonempty file ends after storable absent,
    persistedValue, found] at value
  obtain ⟨v, parsed, -⟩ := Option.map_eq_some_iff.mp value
  rw [parsed, Option.isSome_some]

end Update

/-! ### A timeout of null -/

def asciiUnicode : Url.Unicode := { lower := List.map Char.toLower, nfkc := id }

def asciiReader : Reader :=
  { digit := fun _ => none, listOf := fun _ => none, dictOf := fun _ => none }

def smoothHost : Answers :=
  { inDocker := false, logFile := .writable, writeRaises := false, applyRaises := false
    rollbackRaises := false }

def installedFile : Str :=
  "DATABASE_URL=postgresql://localhost/ecube\nDRIVE_FORMAT_TIMEOUT_SECONDS=900\n".toList

def installed : State := { settings := Field.default, envFile := some installedFile }

/-- A request that sets one key. -/
def oneKey (key : String) (value : Raw) : Body :=
  { entries := [(key.toList, value)], nodup := List.nodup_singleton _ }

def nullTimeout : List (Key × Value) := [(.setting .driveFormatTimeoutSeconds, .none)]

/-- The text that is written for null is read back as a text. -/
theorem null_not_persisted :
    validate asciiUnicode (oneKey "drive_format_timeout_seconds" .null) = .ok nullTimeout ∧
      EndsWithNewline installedFile ∧ OneLinePerKey installedFile ∧
      ∃ s' changes now restart,
        updateConfiguration asciiReader smoothHost .manager (requestValues nullTimeout) installed =
          (s', .ok (.updated changes now restart)) ∧
        ¬ Persisted asciiReader installed s' (changes.map Change.field) := by
  refine ⟨by decide +kernel, by decide +kernel, by decide +kernel, _, _, _, _, rfl, ?_⟩
  intro persisted
  have read := persisted.changed .driveFormatTimeoutSeconds List.mem_cons_self
  exact absurd read (by decide +kernel)

/-- After an accepted update of a file with one line for a key, the settings are read from the
file as they are held, and the others as before, just if the update sets what lines can hold and
the other lines can be read. -/
theorem persisted_iff {u : Url.Unicode} {body : Body} {values : List (Key × Value)} {r : Reader}
    {a : Answers} {scope : Scope} {s s' : State} {content : Str} {changes : List Change}
    {now restart : List Field} (accepted : validate u body = .ok values)
    (file : s.envFile = some content) (ends : EndsWithNewline content)
    (single : OneLinePerKey content)
    (applied : updateConfiguration r a scope (requestValues values) s =
      (s', .ok (.updated changes now restart))) :
    Persisted r s s' (changes.map Change.field) ↔ Fits r (requestValues values) s := by
  obtain ⟨nodupValues, admissibleValues⟩ := validate_admissible accepted
  have nodup : ((requested (requestValues values)).map Prod.fst).Nodup :=
    requested_nodup (nodupValues.sublist (List.filter_sublist.map Prod.fst))
  have admissible : ∀ e ∈ requested (requestValues values), Admissible e.1.kind e.2 :=
    requested_admissible fun e mem => admissibleValues e (List.mem_filter.mp mem).1
  obtain ⟨updates, lines, nonempty, after, changed⟩ := updateConfiguration_ok applied
  rw [changed]
  constructor
  · exact fits_of_persisted nodup admissible lines nonempty file ends after
  · exact persisted_of_fits nodup admissible lines nonempty file ends
      (length_valuesOf_le single) after

/-- A request for another log file and fewer fields in the payload of callbacks. -/
def auditLog : Body :=
  { entries := [("log_file".toList, .str " /var/log/ecube/audit.log".toList),
      ("callback_payload_fields".toList, .arr [.str "event".toList, .str "job_id".toList])]
    nodup := by decide +kernel }

def auditLogValues : List (Key × Value) :=
  [(.setting .logFile, .text " /var/log/ecube/audit.log".toList),
    (.setting .callbackPayloadFields, .list ["event".toList, "job_id".toList])]

theorem auditLog_fits : Fits asciiReader (requestValues auditLogValues) installed := by
  constructor
  · have quiet : (strip " /var/log/ecube/audit.log".toList).all (fun c => !isBreak c) = true := by
      decide +kernel
    intro e mem
    rcases List.mem_pair.mp mem with rfl | rfl
    · rintro s ⟨⟩ c within
      simpa using List.all_eq_true.mp quiet c within
    · exact .inl rfl
  · have all : Field.all.all (fun f => (persistedValue asciiReader installed f).isSome) = true := by
      decide +kernel
    intro f _ raw found
    have some := List.all_eq_true.mp all f f.mem_all
    rw [persistedValue, found] at some
    simpa using some

/-- Both settings are read back. -/
theorem auditLog_persisted :
    Persisted asciiReader installed
      (updateConfiguration asciiReader smoothHost .admin (requestValues auditLogValues) installed).1
      [.logFile, .callbackPayloadFields] :=
  have accepted : validate asciiUnicode auditLog = .ok auditLogValues := by decide +kernel
  have applied : updateConfiguration asciiReader smoothHost .admin (requestValues auditLogValues)
      installed =
      ((updateConfiguration asciiReader smoothHost .admin (requestValues auditLogValues)
        installed).1,
        .ok (.updated
          [⟨.logFile, .text "/var/log/ecube/app.log".toList,
              .text "/var/log/ecube/audit.log".toList⟩,
            ⟨.callbackPayloadFields, .none, .list ["event".toList, "job_id".toList]⟩]
          [.logFile, .callbackPayloadFields] [])) := rfl
  (persisted_iff accepted rfl (by decide +kernel) (by decide +kernel) applied).mpr auditLog_fits

end Ecube.Configuration
