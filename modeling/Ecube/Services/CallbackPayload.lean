import Ecube.Basic.Integers
import Ecube.Basic.MountStack
import Ecube.Services.ConfigurationRequest

/-!
What a callback sends: `utils/callback_payload_contract.py`.

A contract names the fields of the payload that may leave, and may map them to other names and
into templates.

* `flatMap_source_parts`: a template is the text of its parts, and `render_eq` fills them in one
  pass.
* `contract_confined`: the result depends on the named fields only, a template's text is its
  literal parts and the fields' values, and the normalized contract is accepted unchanged.
-/

namespace Ecube.CallbackPayload

open PosixPath Ecube.Configuration

/-! ### Payloads -/

/-- A value of a payload. -/
inductive PayloadValue (V : Type) where
  | none
  | str (s : Str)
  | other (v : V)
  deriving DecidableEq

abbrev Payload (V : Type) := List (Str × PayloadValue V)

def validateCallbackPayloadContract (payloadFields : Option (List Str))
    (payloadFieldMap : Option (List (Str × Str))) :
    Except Refusal (Option (List Str) × Option (List (Str × Str))) := do
  let normalizedFields ← normalizePayloadFields payloadFields
  let normalizedFieldMap ← normalizePayloadFieldMap normalizedFields payloadFieldMap
  return (normalizedFields, normalizedFieldMap)

/-- `_TEMPLATE_TOKEN_RE.sub`. The number says how many characters still belong to a token. -/
def subTokens (replace : Str → Str) : Nat → Str → Str
  | _, [] => []
  | skip + 1, _ :: rest => subTokens replace skip rest
  | 0, c :: rest =>
      match tokenAt (c :: rest) with
      | some name => replace name ++ subTokens replace (name.length + 2) rest
      | none => c :: subTokens replace 0 rest

section Apply

variable {V : Type}

-- `str(value)`
variable (str : V → Str)

/-- What stands in a text for a field. -/
def fieldText (payload : Payload V) (name : Str) : Str :=
  match payload.lookup name with
  | some (.str s) => s
  | some (.other v) => str v
  | some .none | none => []

/-- `_render_template_value`. -/
def renderTemplateValue (template : Str) (payload : Payload V) : Str :=
  subTokens (fieldText str payload) 0 template

def selectFields (payload : Payload V) (names : List Str) : Payload V :=
  names.filterMap fun name => (payload.lookup name).map (name, ·)

/-- The value that is sent for a member of the map. -/
def renderMember (payload : Payload V) (spec : Str) : PayloadValue V :=
  if isAllowed spec then (payload.lookup spec).getD .none
  else .str (renderTemplateValue str spec payload)

/-- What is sent of the fields. -/
def renderMembers (payload : Payload V) : Option (List (Str × Str)) → Payload V
  | none | some [] => payload
  | some members => members.map fun m => (m.1, renderMember str payload m.2)

def applyCallbackPayloadContract (payload : Payload V) (payloadFields : Option (List Str))
    (payloadFieldMap : Option (List (Str × Str))) : Except Refusal (Payload V) := do
  let (normalizedFields, normalizedFieldMap) ←
    validateCallbackPayloadContract payloadFields payloadFieldMap
  let sourcePayload :=
    match normalizedFields with
    | none => payload
    | some names => selectFields payload names
  return renderMembers str sourcePayload normalizedFieldMap

end Apply

/-! ### Templates -/

/-- A character of a template, or a token. -/
inductive Part where
  | char (c : Char)
  | field (name : Str)
  deriving DecidableEq, Repr

/-- As it is written. -/
def Part.source : Part → Str
  | .char c => [c]
  | .field name => '$' :: '\x7b' :: (name ++ ['\x7d'])

/-- As it is sent. -/
def Part.text (replace : Str → Str) : Part → Str
  | .char c => [c]
  | .field name => replace name

def Part.name? : Part → Option Str
  | .char _ => none
  | .field name => some name

def Part.char? : Part → Option Char
  | .char c => some c
  | .field _ => none

/-- The parts of a template, from where the number says. -/
def parts : Nat → Str → List Part
  | _, [] => []
  | skip + 1, _ :: rest => parts skip rest
  | 0, c :: rest =>
      match tokenAt (c :: rest) with
      | some name => .field name :: parts (name.length + 2) rest
      | none => .char c :: parts 0 rest

theorem eq_of_tokenAt {s name : Str} (h : tokenAt s = some name) :
    ∃ rest, s = '$' :: '\x7b' :: (name ++ '\x7d' :: rest) := by
  unfold tokenAt at h
  split at h
  next rest =>
    dsimp only at h
    split at h
    next token =>
      obtain ⟨more, stop⟩ := List.head?_eq_some_iff.mp token.2
      refine ⟨more, ?_⟩
      rw [← Option.some.inj h, ← stop, List.takeWhile_append_dropWhile]
    next => cases h
  next => cases h

/-- The parts are the template. -/
theorem flatMap_source_parts (skip : Nat) (template : Str) :
    (parts skip template).flatMap Part.source = template.drop skip := by
  induction template generalizing skip with
  | nil => cases skip <;> rfl
  | cons c rest ih =>
      cases skip with
      | succ skip => exact ih skip
      | zero =>
          rw [parts]
          split
          next name token =>
            obtain ⟨more, whole⟩ := eq_of_tokenAt token
            have behind : rest.drop (name.length + 2) = more := by
              rw [(List.cons.inj whole).2]
              simp
            rw [List.flatMap_cons, ih, behind, List.drop_zero, whole]
            simp [Part.source]
          next =>
            rw [List.flatMap_cons, ih, List.drop_zero, List.drop_zero]
            rfl

theorem subTokens_eq (replace : Str → Str) (skip : Nat) (template : Str) :
    subTokens replace skip template = (parts skip template).flatMap (Part.text replace) := by
  induction template generalizing skip with
  | nil => cases skip <;> rfl
  | cons c rest ih =>
      cases skip with
      | succ skip => exact ih skip
      | zero =>
          rw [parts, subTokens]
          cases tokenAt (c :: rest) with
          | some name =>
              dsimp only
              rw [List.flatMap_cons, ih]
              rfl
          | none =>
              dsimp only
              rw [List.flatMap_cons, ih]
              rfl

/-- What the validation finds in a template. -/
theorem tokens_eq (skip : Nat) (template : Str) :
    tokens skip template =
      ((parts skip template).filterMap Part.name?, (parts skip template).filterMap Part.char?) := by
  induction template generalizing skip with
  | nil => cases skip <;> rfl
  | cons c rest ih =>
      cases skip with
      | succ skip => exact ih skip
      | zero =>
          rw [parts, tokens]
          cases tokenAt (c :: rest) with
          | some name =>
              dsimp only
              rw [ih]
              rfl
          | none =>
              dsimp only
              rw [ih]
              rfl

/-! ### Contracts -/

theorem normalizeFields_iff {seen raw names : List Str} :
    normalizeFields seen raw = .ok names ↔
      (∀ name ∈ raw.map strip, name ≠ [] ∧ isAllowed name = true) ∧
      (raw.map strip).Nodup ∧ (∀ name ∈ raw.map strip, name ∉ seen) ∧
      names = seen ++ raw.map strip := by
  induction raw generalizing seen with
  | nil =>
      refine ⟨fun done => ?_, fun ⟨_, _, _, same⟩ => ?_⟩
      · cases done
        simp
      · rw [same, List.map_nil, List.append_nil, normalizeFields]
  | cons first rest ih =>
      simp only [normalizeFields, bind_eq_ok, ensure_eq_ok, ih, List.map_cons,
        List.forall_mem_cons, List.nodup_cons, List.mem_append, List.mem_singleton, not_or]
      constructor
      · rintro ⟨_, nonempty, _, allowed, _, fresh, valid, nodup, apart, rfl⟩
        exact ⟨⟨⟨nonempty, allowed⟩, valid⟩, ⟨fun again => (apart _ again).2 rfl, nodup⟩,
          ⟨fresh, fun name mem => (apart name mem).1⟩, by simp⟩
      · rintro ⟨⟨⟨nonempty, allowed⟩, valid⟩, ⟨once, nodup⟩, ⟨fresh, apart⟩, rfl⟩
        exact ⟨(), nonempty, (), allowed, (), fresh, valid, nodup,
          fun name mem => ⟨apart name mem, fun same => once (same ▸ mem)⟩, by simp⟩

theorem assign_eq (d : List (Str × Str)) (key value : Str) :
    assign d key value = MountStack.assign d key value := by
  rw [assign, MountStack.assign]
  by_cases present : key ∈ d.map Prod.fst
  · rw [if_pos present, if_pos present]
  · rw [if_neg present, if_neg present]

theorem normalizeMembers_iff {names : List Str} {normalized raw members : List (Str × Str)} :
    normalizeMembers names normalized raw = .ok members ↔
      (∀ m ∈ raw, strip m.1 ≠ [] ∧ isOutboundFieldName (strip m.1) = true ∧
        checkSourceSpec names (strip m.1) (strip m.2) = .ok ()) ∧
      members = raw.foldl (fun d m => MountStack.assign d (strip m.1) (strip m.2)) normalized := by
  induction raw generalizing normalized with
  | nil =>
      refine ⟨fun done => ?_, fun ⟨_, same⟩ => ?_⟩
      · cases done
        exact ⟨fun m mem => absurd mem List.not_mem_nil, rfl⟩
      · rw [same, normalizeMembers, List.foldl_nil]
  | cons first rest ih =>
      obtain ⟨name, spec⟩ := first
      simp only [normalizeMembers, bind_eq_ok, ensure_eq_ok, ih, List.forall_mem_cons,
        List.foldl_cons, assign_eq]
      constructor
      · rintro ⟨_, nonempty, _, named, _, checked, valid, rfl⟩
        exact ⟨⟨⟨nonempty, named, checked⟩, valid⟩, rfl⟩
      · rintro ⟨⟨⟨nonempty, named, checked⟩, valid⟩, rfl⟩
        exact ⟨(), nonempty, (), named, (), checked, valid, rfl⟩

/-- A dictionary with distinct keys is filled in their order. -/
theorem foldl_assign_of_nodup {members d : List (Str × Str)}
    (nodup : ((d ++ members).map Prod.fst).Nodup) :
    members.foldl (fun d m => MountStack.assign d m.1 m.2) d = d ++ members := by
  induction members generalizing d with
  | nil => exact (List.append_nil d).symm
  | cons m members ih =>
      have fresh : m.1 ∉ d.map Prod.fst := by
        rw [List.map_append, List.map_cons] at nodup
        exact fun again => (List.nodup_append.mp nodup).2.2 m.1 again m.1 List.mem_cons_self rfl
      rw [List.foldl_cons, MountStack.assign, if_neg fresh]
      have moved : d ++ [(m.1, m.2)] ++ members = d ++ m :: members := by simp
      rw [ih (by rwa [moved]), moved]

theorem normalizeFields_again {raw names : List Str} (done : normalizeFields [] raw = .ok names) :
    names.map strip = names ∧ normalizeFields [] names = .ok names := by
  obtain ⟨valid, nodup, -, rfl⟩ := normalizeFields_iff.mp done
  rw [List.nil_append]
  have stripped : (raw.map strip).map strip = raw.map strip := by
    rw [List.map_map]
    exact List.map_congr_left fun name _ => strip_strip name
  refine ⟨stripped, normalizeFields_iff.mpr ?_⟩
  rw [stripped]
  exact ⟨valid, nodup, fun _ _ => List.not_mem_nil, rfl⟩

theorem normalizeMembers_again {names : List Str} {raw members : List (Str × Str)}
    (done : normalizeMembers names [] raw = .ok members) :
    normalizeMembers names [] members = .ok members := by
  have start : (([] : List (Str × Str)).map Prod.fst).Nodup := List.nodup_nil
  have nodup : (members.map Prod.fst).Nodup := normalizeMembers_nodup start done
  obtain ⟨valid, filled⟩ := normalizeMembers_iff.mp done
  have stripped : ∀ m ∈ members, ∃ n ∈ raw, m = (strip n.1, strip n.2) := by
    intro m mem
    rw [filled] at mem
    exact (MountStack.mem_foldl_assign mem).resolve_left List.not_mem_nil
  refine normalizeMembers_iff.mpr ⟨fun m mem => ?_, ?_⟩
  · obtain ⟨n, within, rfl⟩ := stripped m mem
    simpa only [strip_strip] using valid n within
  · have same : members.foldl (fun d m => MountStack.assign d (strip m.1) (strip m.2)) [] =
        members.foldl (fun d m => MountStack.assign d m.1 m.2) [] := by
      refine List.foldl_ext _ _ [] fun d m mem => ?_
      obtain ⟨n, -, rfl⟩ := stripped m mem
      simp only [strip_strip]
    rw [same]
    exact (foldl_assign_of_nodup (by rwa [List.nil_append])).symm

/-- A contract with named fields that is accepted. -/
theorem validate_eq_ok {payloadFields : List Str} {payloadFieldMap : Option (List (Str × Str))}
    {names : Option (List Str)} {members : Option (List (Str × Str))} :
    validateCallbackPayloadContract (some payloadFields) payloadFieldMap = .ok (names, members) ↔
      ∃ fields, normalizeFields [] payloadFields = .ok fields ∧ fields ≠ [] ∧
        names = some fields ∧
        normalizePayloadFieldMap (some fields) payloadFieldMap = .ok members := by
  simp only [validateCallbackPayloadContract, normalizePayloadFields, bind_eq_ok, ensure_eq_ok,
    pure_eq_ok, Prod.mk.injEq]
  constructor
  · rintro ⟨_, ⟨fields, done, _, nonempty, rfl⟩, members, mapped, rfl, rfl⟩
    exact ⟨fields, done, nonempty, rfl, mapped⟩
  · rintro ⟨fields, done, nonempty, rfl, mapped⟩
    exact ⟨some fields, ⟨fields, done, (), nonempty, rfl⟩, members, mapped, rfl, rfl⟩

/-- What a source names lies among the fields. -/
theorem mem_of_checkSourceSpec {fields : List Str} {name spec : Str}
    (checked : checkSourceSpec fields name spec = .ok ()) :
    (isAllowed spec = true → spec ∈ fields) ∧
      (isAllowed spec = false → ∀ token, .field token ∈ parts 0 spec → token ∈ fields) := by
  rw [checkSourceSpec, bind_eq_ok] at checked
  obtain ⟨_, -, checked⟩ := checked
  cases allowed : isAllowed spec with
  | true =>
      rw [allowed, if_pos rfl, ensure_eq_ok] at checked
      exact ⟨fun _ => checked, fun other => Bool.noConfusion other⟩
  | false =>
      rw [allowed, if_neg Bool.false_ne_true] at checked
      simp only [bind_eq_ok, ensure_eq_ok, pure_eq_ok] at checked
      obtain ⟨_, -, _, -, _, loop, -⟩ := checked
      refine ⟨fun other => Bool.noConfusion other, fun _ token mem => ?_⟩
      have found : token ∈ (tokens 0 spec).1 := by
        rw [tokens_eq]
        exact List.mem_filterMap.mpr ⟨.field token, mem, rfl⟩
      have round := forIn_eq_ok (fun token r round => ?_) loop token found
      · simp only [bind_eq_ok, ensure_eq_ok, pure_eq_ok] at round
        obtain ⟨_, -, _, within, -⟩ := round
        exact within
      · simp only [bind_eq_ok, pure_eq_ok] at round
        obtain ⟨_, -, _, -, rfl⟩ := round
        rfl

/-- The members that come out of the validation. -/
theorem valid_members {fields : List Str} {payloadFieldMap : Option (List (Str × Str))}
    {specs : List (Str × Str)}
    (mapped : normalizePayloadFieldMap (some fields) payloadFieldMap = .ok (some specs)) :
    specs ≠ [] ∧ ∀ m ∈ specs, checkSourceSpec fields m.1 m.2 = .ok () := by
  cases payloadFieldMap with
  | none => cases mapped
  | some raw =>
      simp only [normalizePayloadFieldMap, bind_eq_ok, ensure_eq_ok, orReject_eq_ok, pure_eq_ok,
        Option.some.injEq] at mapped
      obtain ⟨_, given, _, rfl, _, loop, rfl⟩ := mapped
      obtain ⟨valid, filled⟩ := normalizeMembers_iff.mp loop
      constructor
      · rintro rfl
        obtain ⟨m, rest, rfl⟩ := List.exists_cons_of_ne_nil given
        have kept : ∃ s, (strip m.1, s) ∈ (m :: rest).foldl
            (fun d m => MountStack.assign d (strip m.1) (strip m.2)) [] :=
          MountStack.exists_mem_foldl_assign.mpr (.inr ⟨m, List.mem_cons_self, rfl⟩)
        obtain ⟨s, mem⟩ := kept
        rw [← filled] at mem
        exact List.not_mem_nil mem
      · intro m mem
        rw [filled] at mem
        obtain ⟨n, within, rfl⟩ :=
          (MountStack.mem_foldl_assign mem).resolve_left List.not_mem_nil
        exact (valid n within).2.2

theorem validate_again {payloadFields : List Str} {payloadFieldMap : Option (List (Str × Str))}
    {names : Option (List Str)} {members : Option (List (Str × Str))}
    (accepted : validateCallbackPayloadContract (some payloadFields) payloadFieldMap =
      .ok (names, members)) :
    validateCallbackPayloadContract names members = .ok (names, members) := by
  obtain ⟨fields, done, nonempty, rfl, mapped⟩ := validate_eq_ok.mp accepted
  refine validate_eq_ok.mpr ⟨fields, (normalizeFields_again done).2, nonempty, rfl, ?_⟩
  cases members with
  | none => rfl
  | some specs =>
      have given := (valid_members mapped).1
      cases payloadFieldMap with
      | none => cases mapped
      | some raw =>
          simp only [normalizePayloadFieldMap, bind_eq_ok, ensure_eq_ok, orReject_eq_ok, pure_eq_ok,
            Option.some.injEq] at mapped ⊢
          obtain ⟨_, -, _, rfl, _, loop, rfl⟩ := mapped
          exact ⟨(), given, _, rfl, _, normalizeMembers_again loop, rfl⟩

section Confined

variable {V : Type}

theorem lookup_selectFields (payload : Payload V) (names : List Str) (name : Str) :
    (selectFields payload names).lookup name =
      if name ∈ names then payload.lookup name else none := by
  induction names with
  | nil => rfl
  | cons first names ih =>
      rw [selectFields, List.filterMap_cons]
      cases found : payload.lookup first with
      | none =>
          rw [Option.map_none]
          dsimp only
          rw [← selectFields, ih]
          by_cases same : name = first
          · simp [same, found]
          · simp [same]
      | some value =>
          rw [Option.map_some]
          dsimp only
          rw [← selectFields, List.lookup_cons, ih]
          by_cases same : name = first
          · simp [same, found]
          · simp [same, beq_false_of_ne same]

theorem fieldText_congr {p q : Payload V} (str : V → Str) {name : Str}
    (same : p.lookup name = q.lookup name) : fieldText str p name = fieldText str q name := by
  rw [fieldText, fieldText, same]

theorem selectFields_congr {p q : Payload V} {names : List Str}
    (same : ∀ name ∈ names, p.lookup name = q.lookup name) :
    selectFields p names = selectFields q names := by
  refine List.filterMap_congr fun name mem => ?_
  rw [same name mem]

/-- What is sent for a member, from the payload itself. -/
theorem renderMember_selectFields (str : V → Str) (payload : Payload V) {fields : List Str}
    {name spec : Str} (checked : checkSourceSpec fields name spec = .ok ()) :
    renderMember str (selectFields payload fields) spec =
      if isAllowed spec then (payload.lookup spec).getD .none
      else .str ((parts 0 spec).flatMap (Part.text (fieldText str payload))) := by
  obtain ⟨field, template⟩ := mem_of_checkSourceSpec checked
  rw [renderMember, renderTemplateValue, subTokens_eq]
  split
  next allowed => rw [lookup_selectFields, if_pos (field allowed)]
  next other =>
    congr 1
    refine List.flatMap_congr fun part mem => ?_
    cases part with
    | char c => rfl
    | field token =>
        have known := template (Bool.eq_false_iff.mpr other) token mem
        exact fieldText_congr str (by rw [lookup_selectFields, if_pos known])

/-- What is sent under an accepted contract. -/
theorem apply_eq {payloadFields fields : List Str} {payloadFieldMap : Option (List (Str × Str))}
    {members : Option (List (Str × Str))}
    (accepted : validateCallbackPayloadContract (some payloadFields) payloadFieldMap =
      .ok (some fields, members)) (str : V → Str) (p : Payload V) :
    applyCallbackPayloadContract str p (some payloadFields) payloadFieldMap =
      .ok (renderMembers str (selectFields p fields) members) := by
  rw [applyCallbackPayloadContract, accepted]
  rfl

/-- A callback with named fields sends nothing but these, and a contract that has been normalized
stays as it is. -/
theorem contract_confined {payloadFields : List Str} {payloadFieldMap : Option (List (Str × Str))}
    {names : Option (List Str)} {members : Option (List (Str × Str))}
    (accepted : validateCallbackPayloadContract (some payloadFields) payloadFieldMap =
      .ok (names, members)) (str : V → Str) :
    (∀ p q : Payload V, (∀ name ∈ payloadFields, p.lookup (strip name) = q.lookup (strip name)) →
      applyCallbackPayloadContract str p (some payloadFields) payloadFieldMap =
        applyCallbackPayloadContract str q (some payloadFields) payloadFieldMap) ∧
    (∀ (p : Payload V) (specs : List (Str × Str)), members = some specs →
      applyCallbackPayloadContract str p (some payloadFields) payloadFieldMap =
        .ok (specs.map fun m => (m.1,
          if isAllowed m.2 then (p.lookup m.2).getD .none
          else .str ((parts 0 m.2).flatMap (Part.text (fieldText str p))))) ∧
      ∀ m ∈ specs, (parts 0 m.2).flatMap Part.source = m.2) ∧
    validateCallbackPayloadContract names members = .ok (names, members) := by
  obtain ⟨fields, done, nonempty, rfl, mapped⟩ := validate_eq_ok.mp accepted
  have named : fields = payloadFields.map strip := (normalizeFields_iff.mp done).2.2.2
  refine ⟨fun p q same => ?_, fun p specs same => ⟨?_, fun m _ => ?_⟩, validate_again accepted⟩
  · have selected : selectFields p fields = selectFields q fields := by
      refine selectFields_congr fun name mem => ?_
      rw [named] at mem
      obtain ⟨raw, within, rfl⟩ := List.mem_map.mp mem
      exact same raw within
    rw [apply_eq accepted, apply_eq accepted, selected]
  · subst same
    obtain ⟨given, checked⟩ := valid_members mapped
    have rendered : (specs.map fun m => (m.1, renderMember str (selectFields p fields) m.2)) =
        specs.map fun m => (m.1, if isAllowed m.2 then (p.lookup m.2).getD .none
          else .str ((parts 0 m.2).flatMap (Part.text (fieldText str p)))) := by
      refine List.map_congr_left fun m mem => ?_
      rw [renderMember_selectFields str p (checked m mem)]
    rw [apply_eq accepted, ← rendered]
    obtain ⟨first, rest, rfl⟩ := List.exists_cons_of_ne_nil given
    rfl
  · exact flatMap_source_parts 0 m.2

end Confined

def titleFields : List Str := ["event".toList, " project_id".toList]

def titleMap : List (Str × Str) :=
  [("title".toList, "Case $\x7bproject_id\x7d: $\x7bevent\x7d ".toList)]

/-- A value that looks like a template is sent as it is, and the path not at all. -/
theorem contract_confined_title :
    (∀ p q : Payload Int, (∀ name ∈ titleFields, p.lookup (strip name) = q.lookup (strip name)) →
      applyCallbackPayloadContract Integers.decimal p (some titleFields) (some titleMap) =
        applyCallbackPayloadContract Integers.decimal q (some titleFields) (some titleMap)) ∧
    applyCallbackPayloadContract Integers.decimal
        [("event".toList, .str "$\x7bproject_id\x7d".toList), ("project_id".toList, .other 7),
          ("source_path".toList, .str "/nfs/case".toList)]
        (some titleFields) (some titleMap) =
      .ok [("title".toList, .str "Case 7: $\x7bproject_id\x7d".toList)] := by
  have accepted : validateCallbackPayloadContract (some titleFields) (some titleMap) =
      .ok (some ["event".toList, "project_id".toList],
        some [("title".toList, "Case $\x7bproject_id\x7d: $\x7bevent\x7d".toList)]) := by
    decide +kernel
  exact ⟨(contract_confined accepted Integers.decimal).1, by decide +kernel⟩

end Ecube.CallbackPayload
