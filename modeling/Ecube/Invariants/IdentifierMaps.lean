import Ecube.Services.DriveIdentity

/-!
Persistent device identifiers as maps of their components.

`identifier_faithful`: what is parsed from an identifier are the components it was built from,
and no two lists of components have the same identifier.
-/

namespace Ecube

open PosixPath

/-- `component_map`, in the order of the keys. -/
def componentMap (device : DeviceComponents) (usbBusPath : Option Str) :
    List (Str × Option Str) :=
  [("vid".toList, normalizeIdentifierComponent device.usbVendorId),
    ("pid".toList, normalizeIdentifierComponent device.usbProductId),
    ("serial".toList, normalizeIdentifierComponent device.usbSerialNumber),
    ("disk".toList, normalizeIdentifierComponent device.diskSerialNumber),
    ("bus".toList, normalizeIdentifierComponent usbBusPath)]

/-- The entries that have a value. -/
def presentComponents (components : List (Str × Option Str)) : List (Str × Str) :=
  components.filterMap fun entry => entry.2.map fun value => (entry.1, value)

/-- A key the parser reads as it was written. -/
structure IsComponentKey (key : String) : Prop where
  plain : '=' ∉ key.toList
  trimmed : strip key.toList = key.toList
  named : key.toList ≠ []

theorem filterMap_identifierPart {key : String} (valid : IsComponentKey key)
    (value : Option Str) :
    (identifierPart key value).filterMap parseToken =
      presentComponents [(key.toList, normalizeIdentifierComponent value)] := by
  rw [identifierPart]
  cases normalized : normalizeIdentifierComponent value with
  | none => rfl
  | some v =>
      obtain ⟨full, trimmed, -⟩ := normalizeIdentifierComponent_some normalized
      have token := parseToken_append valid.plain v
      rw [valid.trimmed, trimmed, if_neg (not_or.mpr ⟨valid.named, full⟩)] at token
      simp [presentComponents, token]

theorem filterMap_identifierParts (device : DeviceComponents) (usbBusPath : Option Str) :
    (identifierParts device usbBusPath).filterMap parseToken =
      presentComponents (componentMap device usbBusPath) := by
  simp only [identifierParts, List.filterMap_append]
  rw [filterMap_identifierPart ⟨by decide, by decide, by decide⟩,
    filterMap_identifierPart ⟨by decide, by decide, by decide⟩,
    filterMap_identifierPart ⟨by decide, by decide, by decide⟩,
    filterMap_identifierPart ⟨by decide, by decide, by decide⟩,
    filterMap_identifierPart ⟨by decide, by decide, by decide⟩]
  simp only [presentComponents, ← List.filterMap_append]
  rfl

/-- Without any component the identifier is a dash. -/
theorem build_of_no_parts {device : DeviceComponents} {usbBusPath : Option Str}
    (empty : identifierParts device usbBusPath = []) :
    buildPersistentDeviceIdentifier device usbBusPath = ['-'] := by
  have bus : identifierPart "bus" usbBusPath = [] := by
    simp only [identifierParts, List.append_eq_nil_iff] at empty
    exact empty.2.2.2.2
  have missing : normalizeIdentifierComponent usbBusPath = none := by
    cases normalized : normalizeIdentifierComponent usbBusPath with
    | none => rfl
    | some v => simp [identifierPart, normalized] at bus
  rw [buildPersistentDeviceIdentifier, if_neg (not_not.mpr empty), missing]
  rfl

theorem parse_build (device : DeviceComponents) (usbBusPath : Option Str) :
    parsePersistentDeviceIdentifier (some (buildPersistentDeviceIdentifier device usbBusPath)) =
      presentComponents (componentMap device usbBusPath) := by
  rw [← filterMap_identifierParts]
  by_cases empty : identifierParts device usbBusPath = []
  · rw [build_of_no_parts empty, empty]
    decide
  · exact parse_build_of_parts empty

theorem keys_presentComponents (components : List (Str × Option Str)) :
    ((presentComponents components).map Prod.fst).Sublist (components.map Prod.fst) := by
  induction components with
  | nil => exact .slnil
  | cons entry rest ih =>
      obtain ⟨key, value⟩ := entry
      cases value with
      | none => exact ih.cons key
      | some v => exact ih.cons_cons key

/-- A key of the map is in the dictionary when it has a value, with that value. -/
theorem lookup_presentComponents {components : List (Str × Option Str)}
    (unique : (components.map Prod.fst).Nodup) {key : Str} {value : Option Str}
    (mem : (key, value) ∈ components) :
    (presentComponents components).lookup key = value := by
  induction components with
  | nil => cases mem
  | cons entry rest ih =>
      obtain ⟨first, head⟩ := entry
      rw [List.map_cons, List.nodup_cons] at unique
      rcases List.mem_cons.mp mem with same | later
      · obtain ⟨rfl, rfl⟩ := Prod.mk.inj same
        cases value with
        | some v => simp [presentComponents]
        | none =>
            -- No later entry has the key.
            refine List.lookup_eq_none_iff.mpr fun p hp => ?_
            have key_mem := (keys_presentComponents rest).subset (List.mem_map_of_mem hp)
            simpa using fun same : key = p.1 => unique.1 (same ▸ key_mem)
      · have other : key ≠ first := by
          intro same
          exact unique.1 (same ▸ List.mem_map.mpr ⟨_, later, rfl⟩)
        have found := ih unique.2 later
        cases head with
        | none => exact found
        | some v =>
            have differs : (key == first) = false := beq_false_of_ne other
            simpa [presentComponents, List.lookup_cons, differs] using found

theorem keys_componentMap (device : DeviceComponents) (usbBusPath : Option Str) :
    ((componentMap device usbBusPath).map Prod.fst).Nodup := by
  simp only [componentMap, List.map_cons, List.map_nil]
  decide

/-- Two lists with the same keys are equal when every key has one value in both. -/
theorem eq_of_keys {fields others : List (Str × Option Str)}
    (keys : fields.map Prod.fst = others.map Prod.fst)
    (same : ∀ key v w, (key, v) ∈ fields → (key, w) ∈ others → v = w) : fields = others := by
  induction fields generalizing others with
  | nil => exact (List.map_eq_nil_iff.mp keys.symm).symm
  | cons field fields ih =>
      cases others with
      | nil => simp at keys
      | cons other others =>
          simp only [List.map_cons, List.cons.injEq] at keys
          obtain ⟨first, rest⟩ := keys
          have heads : field.2 = other.2 :=
            same field.1 _ _ List.mem_cons_self (first ▸ List.mem_cons_self)
          have tails : fields = others := ih rest fun key v w hv hw =>
            same key v w (List.mem_cons_of_mem _ hv) (List.mem_cons_of_mem _ hw)
          rw [tails, Prod.ext first heads]

/-- The dictionaries of two devices agree only where their components do. -/
theorem componentMap_eq_of_present {device other : DeviceComponents} {bus otherBus : Option Str}
    (h : presentComponents (componentMap device bus) =
      presentComponents (componentMap other otherBus)) :
    componentMap device bus = componentMap other otherBus := by
  refine eq_of_keys rfl fun key v w hv hw => ?_
  rw [← lookup_presentComponents (keys_componentMap device bus) hv, h]
  exact lookup_presentComponents (keys_componentMap other otherBus) hw

/-- The identifier is a function of the components that have a value. -/
theorem build_congr_componentMap {device other : DeviceComponents} {bus otherBus : Option Str}
    (h : componentMap device bus = componentMap other otherBus) :
    buildPersistentDeviceIdentifier device bus =
      buildPersistentDeviceIdentifier other otherBus := by
  simp only [componentMap, List.cons.injEq, Prod.mk.injEq, true_and, and_true] at h
  obtain ⟨vid, pid, serial, disk, last⟩ := h
  have parts : identifierParts device bus = identifierParts other otherBus := by
    simp only [identifierParts, identifierPart, vid, pid, serial, disk, last]
  simp only [buildPersistentDeviceIdentifier, parts, last]

/--
An identifier is read back as the dictionary of its components that have a value, and two
identifiers are equal exactly when all five normalized components are.
-/
theorem identifier_faithful (device other : DeviceComponents) (bus otherBus : Option Str) :
    parsePersistentDeviceIdentifier (some (buildPersistentDeviceIdentifier device bus)) =
        presentComponents (componentMap device bus) ∧
      (buildPersistentDeviceIdentifier device bus =
          buildPersistentDeviceIdentifier other otherBus ↔
        componentMap device bus = componentMap other otherBus) := by
  refine ⟨parse_build device bus, fun same => ?_, build_congr_componentMap⟩
  apply componentMap_eq_of_present
  rw [← parse_build, same, parse_build]

end Ecube
