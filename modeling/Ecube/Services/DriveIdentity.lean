import Ecube.Paths.Sanitize

/-!
Device identifiers of USB drives (`app/utils/drive_identity.py`).

A persistent identifier is `usb|key=value|...` with the vendor and product ids,
the USB serial number, the serial number of the disk behind it and the USB port
path. Components are trimmed and hold neither separator, so an identifier can be
read back: two identifiers are equal only if all their components are
(`bus_eq_of_build_eq`), and an identifier with a serial number is recognised as
persistent (`isPersistent_build`).
-/

namespace Ecube

open PosixPath

/-- `value.replace("|", "_").replace("=", "_")`, one character. -/
def replaceSeparator (c : Char) : Char := if c = '|' ∨ c = '=' then '_' else c

def normalizeIdentifierComponent (value : Option Str) : Option Str :=
  let normalized := strip (value.getD [])
  if normalized = [] then none else some (normalized.map replaceSeparator)

/-- The part `key=value`, when the component has a value. -/
def identifierPart (key : String) (value : Option Str) : List Str :=
  ((normalizeIdentifierComponent value).map fun v => key.toList ++ '=' :: v).toList

/-- The components of an identifier that belong to the device. -/
structure DeviceComponents where
  usbVendorId : Option Str
  usbProductId : Option Str
  usbSerialNumber : Option Str
  diskSerialNumber : Option Str
  deriving DecidableEq, Repr

def identifierParts (device : DeviceComponents) (usbBusPath : Option Str) : List Str :=
  identifierPart "vid" device.usbVendorId ++ (identifierPart "pid" device.usbProductId ++
    (identifierPart "serial" device.usbSerialNumber ++
      (identifierPart "disk" device.diskSerialNumber ++ identifierPart "bus" usbBusPath)))

def buildPersistentDeviceIdentifier (device : DeviceComponents) (usbBusPath : Option Str) : Str :=
  let parts := identifierParts device usbBusPath
  if parts ≠ [] then List.intercalate ['|'] ("usb".toList :: parts)
  else (normalizeIdentifierComponent usbBusPath).getD ['-']

/-- One `key=value` token of an identifier. -/
def parseToken (token : Str) : Option (Str × Str) :=
  if '=' ∉ token then none
  else
    let key := strip (token.takeWhile (· ≠ '='))
    let value := strip (token.dropWhile (· ≠ '=')).tail
    if key = [] ∨ value = [] then none else some (key, value)

/-- The entries of the dictionary, in the order they are written. -/
def parsePersistentDeviceIdentifier (deviceIdentifier : Option Str) : List (Str × Str) :=
  let identifier := strip (deviceIdentifier.getD [])
  if "usb|".toList <+: identifier then (identifier.splitOn '|').tail.filterMap parseToken else []

def isPersistentDeviceIdentifier (deviceIdentifier : Str) : Bool :=
  parsePersistentDeviceIdentifier (some deviceIdentifier) ≠ []

def extractUsbSerialNumber (deviceIdentifier : Option Str) (portSystemPath : Option Str) :
    Option Str :=
  -- A key that is written twice keeps its last value.
  match (parsePersistentDeviceIdentifier deviceIdentifier).reverse.lookup "serial".toList with
  | some serial => some serial
  | none =>
      let identifier := strip (deviceIdentifier.getD [])
      if identifier = [] ∨ truthy portSystemPath = some identifier then none else some identifier

/-- `device_identifier_matches`. -/
def deviceIdentifierMatches (deviceIdentifier candidate portSystemPath : Option Str) : Bool :=
  let normalizedCandidate := strip (candidate.getD [])
  let normalizedIdentifier := strip (deviceIdentifier.getD [])
  if normalizedCandidate = [] ∨ normalizedIdentifier = [] then false
  else if normalizedIdentifier = normalizedCandidate then true
  else
    let parsed := (parsePersistentDeviceIdentifier (some normalizedIdentifier)).reverse
    some normalizedCandidate ∈ [parsed.lookup "serial".toList, parsed.lookup "disk".toList,
      if portSystemPath = none then parsed.lookup "bus".toList else none]

/-! ### Reading identifiers back -/

theorem isSpace_replaceSeparator (c : Char) : isSpace (replaceSeparator c) = isSpace c := by
  rw [replaceSeparator]
  split
  next separator => rcases separator with rfl | rfl <;> rfl
  next => rfl

theorem strip_map_replaceSeparator (s : Str) :
    strip (s.map replaceSeparator) = (strip s).map replaceSeparator := by
  have same : isSpace ∘ replaceSeparator = isSpace := funext isSpace_replaceSeparator
  simp only [strip, lstrip, rstrip, List.rdropWhile, List.dropWhile_map, ← List.map_reverse, same]

theorem not_mem_map_replaceSeparator {s : Str} {c : Char} (separator : c = '|' ∨ c = '=') :
    c ∉ s.map replaceSeparator := by
  intro h
  obtain ⟨d, -, hd⟩ := List.mem_map.mp h
  rw [replaceSeparator] at hd
  split at hd
  next => subst hd; simp at separator
  next plain => subst hd; exact plain separator

/-- A component that has a value is trimmed and free of separators. -/
theorem normalizeIdentifierComponent_some {value : Option Str} {v : Str}
    (h : normalizeIdentifierComponent value = some v) :
    v ≠ [] ∧ strip v = v ∧ '|' ∉ v := by
  simp only [normalizeIdentifierComponent] at h
  split at h
  · cases h
  next full =>
    cases h
    refine ⟨by simpa using full, ?_, not_mem_map_replaceSeparator (.inl rfl)⟩
    rw [strip_map_replaceSeparator, strip_strip]

theorem mem_identifierPart {key : String} {value : Option Str} {p : Str} :
    p ∈ identifierPart key value ↔
      ∃ v, normalizeIdentifierComponent value = some v ∧ p = key.toList ++ '=' :: v := by
  rw [identifierPart, Option.mem_toList, Option.map_eq_some_iff]
  simp only [eq_comm (a := p)]

/-- The end of a component is the end of the whole part. -/
theorem rstrip_append_of_ne_nil {a x : Str} (ne : x ≠ []) (trimmed : rstrip x = x) :
    rstrip (a ++ x) = a ++ x := by
  rw [rstrip, List.rdropWhile_eq_self_iff] at trimmed ⊢
  intro _
  rw [List.getLast_append_of_ne_nil _ ne]
  exact trimmed ne

theorem rstrip_of_strip {v : Str} (trimmed : strip v = v) : rstrip v = v := by
  have once := rstrip_strip v
  rwa [trimmed] at once

theorem identifierPart_spec {key : String} {value : Option Str} (plain : '|' ∉ key.toList) :
    ∀ p ∈ identifierPart key value, '|' ∉ p ∧ p ≠ [] ∧ rstrip p = p := by
  intro p hp
  obtain ⟨v, hv, rfl⟩ := mem_identifierPart.mp hp
  obtain ⟨ne, trimmed, free⟩ := normalizeIdentifierComponent_some hv
  refine ⟨by simp [plain, free], by simp, ?_⟩
  have split : key.toList ++ '=' :: v = (key.toList ++ ['=']) ++ v := by simp
  rw [split]
  exact rstrip_append_of_ne_nil ne (rstrip_of_strip trimmed)

theorem identifierParts_spec (device : DeviceComponents) (usbBusPath : Option Str) :
    ∀ p ∈ identifierParts device usbBusPath, '|' ∉ p ∧ p ≠ [] ∧ rstrip p = p := by
  simp only [identifierParts, List.forall_mem_append]
  exact ⟨identifierPart_spec (by decide), identifierPart_spec (by decide),
    identifierPart_spec (by decide), identifierPart_spec (by decide),
    identifierPart_spec (by decide)⟩

theorem rstrip_intercalate {ps : List Str} (ne : ps ≠ [])
    (trimmed : ∀ p ∈ ps, p ≠ [] ∧ rstrip p = p) :
    List.intercalate ['|'] ps ≠ [] ∧ rstrip (List.intercalate ['|'] ps) = List.intercalate ['|'] ps := by
  induction ps with
  | nil => exact absurd rfl ne
  | cons p ps ih =>
      cases ps with
      | nil =>
          rw [List.intercalate_singleton]
          exact trimmed p (by simp)
      | cons q ps =>
          rw [List.intercalate_cons_cons]
          obtain ⟨full, rest⟩ := ih (by simp) fun r hr => trimmed r (by simp [hr])
          exact ⟨by simp, rstrip_append_of_ne_nil full rest⟩

/-- Splitting an identifier at its separators returns its parts. -/
theorem splitOn_build {device : DeviceComponents} {usbBusPath : Option Str} :
    (List.intercalate ['|'] ("usb".toList :: identifierParts device usbBusPath)).splitOn '|' =
      "usb".toList :: identifierParts device usbBusPath := by
  refine List.splitOn_intercalate '|' ?_ (by simp)
  intro p hp
  rcases List.mem_cons.mp hp with rfl | hp
  · decide
  · exact (identifierParts_spec device usbBusPath p hp).1

/-- Identifiers of one device are equal only at equal port paths. -/
theorem bus_eq_of_build_eq {device : DeviceComponents} {b c : Option Str}
    (serial : normalizeIdentifierComponent device.usbSerialNumber ≠ none)
    (h : buildPersistentDeviceIdentifier device b = buildPersistentDeviceIdentifier device c) :
    normalizeIdentifierComponent b = normalizeIdentifierComponent c := by
  have full : ∀ bus, identifierParts device bus ≠ [] := by
    intro bus
    obtain ⟨v, hv⟩ := Option.ne_none_iff_exists'.mp serial
    simp [identifierParts, identifierPart, hv]
  simp only [buildPersistentDeviceIdentifier, if_pos (full _)] at h
  have parts := congrArg (List.splitOn '|') h
  rw [splitOn_build, splitOn_build] at parts
  simp only [List.cons.injEq, true_and, identifierParts, List.append_cancel_left_eq] at parts
  cases hb : normalizeIdentifierComponent b <;> cases hc : normalizeIdentifierComponent c <;>
    simp_all [identifierPart]

theorem build_congr {device : DeviceComponents} {b c : Option Str}
    (h : normalizeIdentifierComponent b = normalizeIdentifierComponent c) :
    buildPersistentDeviceIdentifier device b = buildPersistentDeviceIdentifier device c := by
  have parts : identifierParts device b = identifierParts device c := by
    simp only [identifierParts, identifierPart, h]
  simp only [buildPersistentDeviceIdentifier, parts, h]

/-- A token is read at its first equals sign. -/
theorem parseToken_append {key : String} (plain : '=' ∉ key.toList) (v : Str) :
    parseToken (key.toList ++ '=' :: v) =
      if strip key.toList = [] ∨ strip v = [] then none
      else some (strip key.toList, strip v) := by
  have front : ∀ c ∈ key.toList, decide (c ≠ '=') = true := by
    intro c hc
    simpa using fun same : c = '=' => plain (same ▸ hc)
  have before : (key.toList ++ '=' :: v).takeWhile (· ≠ '=') = key.toList := by
    rw [List.takeWhile_append_of_pos front]
    simp
  have behind : ((key.toList ++ '=' :: v).dropWhile (· ≠ '=')).tail = v := by
    rw [List.dropWhile_append_of_pos front]
    simp
  have separator : '=' ∈ key.toList ++ '=' :: v := by simp
  rw [parseToken, if_neg (not_not.mpr separator)]
  simp only [before, behind]

theorem parseToken_part {key : String} {value : Option Str} {p : Str}
    (plain : '=' ∉ key.toList) (named : strip key.toList ≠ []) (hp : p ∈ identifierPart key value) :
    parseToken p ≠ none := by
  obtain ⟨v, hv, rfl⟩ := mem_identifierPart.mp hp
  obtain ⟨ne, trimmed, -⟩ := normalizeIdentifierComponent_some hv
  rw [parseToken_append plain, trimmed, if_neg (not_or.mpr ⟨named, ne⟩)]
  exact Option.some_ne_none _

/-- What is parsed from an identifier with components are the tokens of its parts. -/
theorem parse_build_of_parts {device : DeviceComponents} {usbBusPath : Option Str}
    (full : identifierParts device usbBusPath ≠ []) :
    parsePersistentDeviceIdentifier (some (buildPersistentDeviceIdentifier device usbBusPath)) =
      (identifierParts device usbBusPath).filterMap parseToken := by
  obtain ⟨p, ps, cons⟩ := List.exists_cons_of_ne_nil full
  -- The identifier starts with `usb|` and ends where its last component ends.
  have text : List.intercalate ['|'] ("usb".toList :: identifierParts device usbBusPath) =
      ['u', 's', 'b', '|'] ++ List.intercalate ['|'] (identifierParts device usbBusPath) := by
    rw [cons, List.intercalate_cons_cons]
    rfl
  have trimmed : strip (List.intercalate ['|'] ("usb".toList :: identifierParts device usbBusPath)) =
      List.intercalate ['|'] ("usb".toList :: identifierParts device usbBusPath) := by
    obtain ⟨ne, stripped⟩ := rstrip_intercalate full fun p hp =>
      (identifierParts_spec device usbBusPath p hp).2
    rw [text, List.cons_append, strip_cons rfl, ← List.cons_append]
    exact rstrip_append_of_ne_nil ne stripped
  have usb : "usb|".toList <+:
      List.intercalate ['|'] ("usb".toList :: identifierParts device usbBusPath) :=
    ⟨_, text.symm⟩
  simp only [parsePersistentDeviceIdentifier, buildPersistentDeviceIdentifier, if_pos full,
    Option.getD_some, trimmed, if_pos usb, splitOn_build, List.tail_cons]

/-- An identifier with a serial number is persistent. -/
theorem isPersistent_build {device : DeviceComponents} (b : Option Str)
    (serial : normalizeIdentifierComponent device.usbSerialNumber ≠ none) :
    isPersistentDeviceIdentifier (buildPersistentDeviceIdentifier device b) = true := by
  obtain ⟨v, hv⟩ := Option.ne_none_iff_exists'.mp serial
  have part : "serial".toList ++ '=' :: v ∈ identifierPart "serial" device.usbSerialNumber :=
    mem_identifierPart.mpr ⟨v, hv, rfl⟩
  have mem : "serial".toList ++ '=' :: v ∈ identifierParts device b := by
    simp only [identifierParts, List.mem_append]
    exact .inr (.inr (.inl part))
  obtain ⟨entry, parsed⟩ := Option.ne_none_iff_exists'.mp
    (parseToken_part (by decide) (by decide) part)
  have found : entry ∈ (identifierParts device b).filterMap parseToken :=
    List.mem_filterMap.mpr ⟨_, mem, parsed⟩
  rw [isPersistentDeviceIdentifier, parse_build_of_parts (List.ne_nil_of_mem mem)]
  exact decide_eq_true (List.ne_nil_of_mem found)

end Ecube
