import Ecube.Basic.Quote
import Ecube.Paths.Sanitize
import Ecube.Services.Configuration

/-!
The connection URL of the database (`_build_database_url`, `_parse_database_url`) and the update
of its parts (`update_database_settings`, `app/services/database_service.py`).

The builder encodes the database and the credentials, and the parser does not decode them
(`parse_build`). `database_url_iff`: parts come back as they were, and an update of other fields
keeps the credentials, just if these have unreserved characters only.
-/

namespace Ecube.DatabaseUrl

open PosixPath Url Text IpAddress Integers Ecube.Configuration

structure Components where
  host : Str
  port : Nat
  database : Str
  username : Str
  password : Str
  deriving DecidableEq, Repr

def buildDatabaseUrl (c : Components) : Str :=
  "postgresql://".toList ++ quote c.username ++ ':' :: quote c.password ++
    '@' :: c.host ++ ':' :: Nat.toDigits 10 c.port ++ '/' :: quote c.database

/-- `_parse_database_url`; `none` is a `ValueError`. -/
def parseDatabaseUrl (u : Unicode) (url : Str) : Option Components := do
  let parsed ← urlparse u url
  let port ← parsed.port
  let path := if parsed.path = [] then "/ecube".toList else parsed.path
  let database := path.dropWhile (· = '/')
  return {
    host := (truthy (parsed.hostname u)).getD "localhost".toList
    port := (port.filter (· ≠ 0)).getD 5432
    database := if database = [] then "ecube".toList else database
    username := (truthy parsed.username).getD "ecube".toList
    password := (truthy parsed.password).getD [] }

/-! ### An update -/

structure DatabaseSettings where
  databaseUrl : Str
  dbPoolSize : Int
  dbPoolMaxOverflow : Int
  envFile : Option Str

/-- The arguments of `update_database_settings`. -/
structure SettingsRequest where
  host : Option Str
  port : Option Nat
  appDatabase : Option Str
  appUsername : Option Str
  appPassword : Option Str
  poolSize : Option Int
  poolMaxOverflow : Option Int

/-- The test of the new connection. -/
inductive ConnectionAnswer where
  | connected
  | operationalError
  | raised

/-- What the host does during an update. -/
structure SettingsAnswers where
  connection : ConnectionAnswer
  inDocker : Bool
  writeRaises : Bool
  engineRaises : Bool

inductive SettingsError where
  | connectionError (text : String)
  | raised
  deriving DecidableEq

/-- What is returned, besides that it was updated and connected. -/
structure SettingsUpdated where
  host : Str
  port : Nat
  database : Str

/-- The URL that was tested, and what came of it. -/
structure Attempt where
  tested : Option Str
  settings : DatabaseSettings
  result : Except SettingsError SettingsUpdated

/-- The current components with those that are given. -/
def merged (req : SettingsRequest) (current : Components) : Components where
  host := (truthy req.host).getD current.host
  port := (req.port.filter (· ≠ 0)).getD current.port
  database := (truthy req.appDatabase).getD current.database
  username := (truthy req.appUsername).getD current.username
  password := (truthy req.appPassword).getD current.password

def updateDatabaseSettings (u : Unicode) (a : SettingsAnswers) (req : SettingsRequest)
    (s : DatabaseSettings) : Attempt :=
  match parseDatabaseUrl u s.databaseUrl with
  | none => { tested := none, settings := s, result := .error .raised }
  | some current =>
      let new := merged req current
      let newPoolSize := (req.poolSize.filter (· ≠ 0)).getD s.dbPoolSize
      let newPoolMaxOverflow := req.poolMaxOverflow.getD s.dbPoolMaxOverflow
      let newUrl := buildDatabaseUrl new
      match a.connection with
      | .operationalError =>
          { tested := some newUrl, settings := s
            result := .error (.connectionError ("Could not connect to " ++ String.ofList new.host ++
              ":" ++ toString new.port ++ " with the supplied credentials")) }
      | .raised => { tested := some newUrl, settings := s, result := .error .raised }
      | .connected =>
          let envUpdates := [("DATABASE_URL".toList, newUrl)] ++
            (if req.poolSize.isSome then [("DB_POOL_SIZE".toList, decimal newPoolSize)] else []) ++
            (if req.poolMaxOverflow.isSome then
              [("DB_POOL_MAX_OVERFLOW".toList, decimal newPoolMaxOverflow)] else [])
          if a.writeRaises then { tested := some newUrl, settings := s, result := .error .raised }
          else
            { tested := some newUrl
              settings := {
                databaseUrl := newUrl
                dbPoolSize := newPoolSize
                dbPoolMaxOverflow := newPoolMaxOverflow
                envFile := writeEnvSettings a.inDocker envUpdates s.envFile }
              result :=
                if a.engineRaises then .error .raised
                else .ok { host := new.host, port := new.port, database := new.database } }

/-- One update after another. -/
def runUpdates (u : Unicode) :
    DatabaseSettings → List (SettingsAnswers × SettingsRequest) → List Attempt
  | _, [] => []
  | s, (a, req) :: rest =>
      let attempt := updateDatabaseSettings u a req s
      attempt :: runUpdates u attempt.settings rest

/-! ### Reading a URL that was built -/

def isHostChar (c : Char) : Bool := c.isLower || isDecimal c || c = '-' || c = '.'

/-- `str.lower` leaves the host names alone that are in lower case. -/
def KeepsHosts (u : Unicode) : Prop := ∀ s : Str, (∀ c ∈ s, isHostChar c = true) → u.lower s = s

/-- The host is a DNS name in lower case or an IPv4 address, the port is one, and nothing is
empty. -/
structure Valid (c : Components) : Prop where
  host : c.host ≠ []
  hostChars : ∀ d ∈ c.host, isHostChar d = true
  port : 0 < c.port
  portRange : c.port ≤ 65535
  database : c.database ≠ []
  username : c.username ≠ []
  password : c.password ≠ []

/-- The credentials have unreserved characters only. -/
structure Unreserved (c : Components) : Prop where
  database : ∀ d ∈ c.database, isUnreserved d = true
  username : ∀ d ∈ c.username, isUnreserved d = true
  password : ∀ d ∈ c.password, isUnreserved d = true

/-- The components as the URL has them. -/
def encoded (c : Components) : Components :=
  { c with
    database := quote c.database
    username := quote c.username
    password := quote c.password }

def netloc (c : Components) : Str :=
  quote c.username ++ ':' :: (quote c.password ++ '@' :: (c.host ++ ':' :: Nat.toDigits 10 c.port))

theorem buildDatabaseUrl_eq (c : Components) : buildDatabaseUrl c =
    "postgresql".toList ++ ':' :: '/' :: '/' :: (netloc c ++ '/' :: quote c.database) := by
  have scheme : "postgresql://".toList = "postgresql".toList ++ [':', '/', '/'] := rfl
  unfold buildDatabaseUrl
  rw [scheme, netloc]
  simp only [List.append_assoc, List.cons_append, List.nil_append]

theorem isUnreserved_of_isDecimal {c : Char} (h : isDecimal c = true) : isUnreserved c = true := by
  have digit : c.isDigit = true := by
    rw [isDecimal, decide_eq_true_eq] at h
    simp only [Char.isDigit, Bool.and_eq_true, decide_eq_true_eq]
    exact ⟨h.1, h.2⟩
  simp [isUnreserved, Char.isAlphanum, digit]

theorem isUnreserved_of_isHostChar {c : Char} (h : isHostChar c = true) :
    isUnreserved c = true := by
  simp only [isHostChar, Bool.or_eq_true, decide_eq_true_eq] at h
  rcases h with ((lower | digit) | rfl) | rfl
  · have letter : c.isAlpha = true := Bool.or_eq_true_iff.mpr (.inr lower)
    simp [isUnreserved, Char.isAlphanum, letter]
  · exact isUnreserved_of_isDecimal digit
  · rfl
  · rfl

theorem isDecimal_of_mem_toDigits {n : Nat} {c : Char} (h : c ∈ Nat.toDigits 10 n) :
    isDecimal c = true := by
  have digit := isDigit_of_mem_toDigits h
  simp only [Char.isDigit, Bool.and_eq_true, decide_eq_true_eq] at digit
  exact decide_eq_true ⟨digit.1, digit.2⟩

theorem number_toDigits (n : Nat) : number 10 (Nat.toDigits 10 n) = n := by
  have step : ∀ (digits : Str) (init : Nat), (∀ c ∈ digits, isDecimal c = true) →
      digits.foldl (fun n c => n * 10 + hexValue c) init = Nat.ofDigitChars 10 digits init := by
    intro digits
    induction digits with
    | nil => exact fun _ _ => rfl
    | cons c digits ih =>
        intro init all
        rw [List.forall_mem_cons] at all
        rw [List.foldl_cons, Nat.ofDigitChars_cons, ih _ all.2, hexValue, if_pos all.1,
          Nat.mul_comm init 10]
        rfl
  rw [number, step _ _ fun c mem => isDecimal_of_mem_toDigits mem, Nat.ofDigitChars_ten_toDigits]

/-- The part before the `@`, and the one behind it. -/
theorem isLocation_netloc {c : Components} (valid : Valid c) :
    ∀ d ∈ netloc c, isLocation d = true := by
  intro d mem
  have plain : isUnreserved d = true → isLocation d = true := fun h => by
    simp [isLocation, isEncoded, h]
  simp only [netloc, List.mem_append, List.mem_cons] at mem
  rcases mem with user | rfl | password | rfl | host | rfl | port
  · exact isLocation_of_isEncoded (isEncoded_quote d user)
  · rfl
  · exact isLocation_of_isEncoded (isEncoded_quote d password)
  · rfl
  · exact plain (isUnreserved_of_isHostChar (valid.hostChars d host))
  · rfl
  · exact plain (isUnreserved_of_isDecimal (isDecimal_of_mem_toDigits port))

theorem urlparse_build (u : Unicode) {c : Components} (valid : Valid c) :
    urlparse u (buildDatabaseUrl c) = some
      { scheme := "postgresql".toList, netloc := netloc c, path := '/' :: quote c.database
        params := [], query := [], fragment := [] } := by
  rw [buildDatabaseUrl_eq]
  exact urlparse_of_encoded (by decide) (by decide) (by decide) (isLocation_netloc valid)
    isEncoded_quote

theorem rtakeWhile_append_cons {c : Char} {front back : Str} (absent : c ∉ back) :
    (front ++ c :: back).rtakeWhile (· ≠ c) = back := by
  have kept : ∀ d ∈ back.reverse, decide (d ≠ c) = true := fun d mem =>
    decide_eq_true fun same => absent (same ▸ List.mem_reverse.mp mem)
  rw [List.rtakeWhile, List.reverse_append, List.reverse_cons, List.append_assoc,
    List.takeWhile_append_of_pos kept]
  simp

theorem rdropWhile_append_cons {c : Char} {front back : Str} (absent : c ∉ back) :
    (front ++ c :: back).rdropWhile (· ≠ c) = front ++ [c] := by
  have kept : ∀ d ∈ back.reverse, decide (d ≠ c) = true := fun d mem =>
    decide_eq_true fun same => absent (same ▸ List.mem_reverse.mp mem)
  rw [List.rdropWhile, List.reverse_append, List.reverse_cons, List.append_assoc,
    List.dropWhile_append_of_pos kept]
  simp

section Parsed

variable {c : Components} (valid : Valid c)

/-- The URL of the components, taken apart. -/
def parsedOf (c : Components) : ParseResult where
  scheme := "postgresql".toList
  netloc := netloc c
  path := '/' :: quote c.database
  params := []
  query := []
  fragment := []

theorem netloc_parsedOf (c : Components) :
    (parsedOf c).netloc = (quote c.username ++ ':' :: quote c.password) ++
      '@' :: (c.host ++ ':' :: Nat.toDigits 10 c.port) := by
  show netloc c = _
  simp only [netloc, List.append_assoc, List.cons_append]

include valid

theorem at_not_mem : '@' ∉ c.host ++ ':' :: Nat.toDigits 10 c.port := by
  intro mem
  rcases List.mem_append.mp mem with host | later
  · exact absurd (valid.hostChars _ host) (by decide)
  · rcases List.mem_cons.mp later with same | digit
    · exact absurd same (by decide)
    · exact absurd (isDecimal_of_mem_toDigits digit) (by decide)

theorem hostinfo_parsedOf :
    (parsedOf c).hostinfo = c.host ++ ':' :: Nat.toDigits 10 c.port := by
  rw [ParseResult.hostinfo, netloc_parsedOf, rtakeWhile_append_cons (at_not_mem valid)]

theorem userinfo_parsedOf :
    (parsedOf c).userinfo = some (quote c.username ++ ':' :: quote c.password) := by
  rw [ParseResult.userinfo, netloc_parsedOf, rdropWhile_append_cons (at_not_mem valid),
    List.dropLast_concat, if_pos (by simp)]

theorem username_parsedOf : (parsedOf c).username = some (quote c.username) := by
  have kept : ∀ d ∈ quote c.username, decide (d ≠ ':') = true := fun d mem =>
    decide_eq_true fun same => absurd (same ▸ isEncoded_quote d mem) (by decide)
  rw [ParseResult.username, userinfo_parsedOf valid, Option.map_some,
    List.takeWhile_append_of_pos kept]
  simp

theorem password_parsedOf : (parsedOf c).password = some (quote c.password) := by
  have absent : ':' ∉ quote c.username := fun mem =>
    absurd (isEncoded_quote _ mem) (by decide)
  rw [ParseResult.password, userinfo_parsedOf valid, Option.bind_some, cut_append_cons absent]
  rfl

theorem hostAndPort_parsedOf : (parsedOf c).hostAndPort = (c.host, Nat.toDigits 10 c.port) := by
  have bracket : '[' ∉ c.host ++ ':' :: Nat.toDigits 10 c.port := by
    intro mem
    rcases List.mem_append.mp mem with host | later
    · exact absurd (valid.hostChars _ host) (by decide)
    · rcases List.mem_cons.mp later with same | digit
      · exact absurd same (by decide)
      · exact absurd (isDecimal_of_mem_toDigits digit) (by decide)
  have colon : ':' ∉ c.host := fun mem => absurd (valid.hostChars _ mem) (by decide)
  rw [ParseResult.hostAndPort, hostinfo_parsedOf valid, cut_of_not_mem bracket]
  dsimp only
  rw [cut_append_cons colon, Option.getD_some]

theorem port_parsedOf : (parsedOf c).port = some (some c.port) := by
  have digits : Nat.toDigits 10 c.port ≠ [] := Nat.toDigits_ne_nil
  have all : (Nat.toDigits 10 c.port).all isDecimal = true :=
    List.all_eq_true.mpr fun d mem => isDecimal_of_mem_toDigits mem
  have short : (Nat.toDigits 10 c.port).length ≤ 5 :=
    (Nat.length_toDigits_le_iff (by decide) (by decide)).mpr
      (lt_of_le_of_lt valid.portRange (by decide))
  rw [ParseResult.port, hostAndPort_parsedOf valid]
  dsimp only
  rw [if_neg digits, number_toDigits, if_pos ⟨all, short.trans (by decide), valid.portRange⟩]

theorem hostname_parsedOf {u : Unicode} (keeps : KeepsHosts u) :
    (parsedOf c).hostname u = some c.host := by
  have percent : ∀ d ∈ c.host, decide (d ≠ '%') = true := fun d mem =>
    decide_eq_true fun same => absurd (same ▸ valid.hostChars d mem) (by decide)
  rw [ParseResult.hostname, hostAndPort_parsedOf valid]
  dsimp only
  rw [if_neg valid.host, List.takeWhile_eq_self_iff.mpr percent,
    List.dropWhile_eq_nil_iff.mpr percent, keeps _ valid.hostChars, List.append_nil]

/-- The components come back as the URL has them. -/
theorem parse_build {u : Unicode} (keeps : KeepsHosts u) :
    parseDatabaseUrl u (buildDatabaseUrl c) = some (encoded c) := by
  have parsed : urlparse u (buildDatabaseUrl c) = some (parsedOf c) := urlparse_build u valid
  have database : ('/' :: quote c.database).dropWhile (· = '/') = quote c.database := by
    obtain ⟨d, rest, eq⟩ := List.exists_cons_of_ne_nil (quote_ne_nil valid.database)
    have first : d ≠ '/' := fun same =>
      absurd (isEncoded_quote d (eq ▸ List.mem_cons_self)) (by rw [same]; decide)
    rw [eq, List.dropWhile_cons_of_pos rfl, List.dropWhile_cons_of_neg (by simpa using first)]
  have truthy_some : ∀ {s : Str}, s ≠ [] → truthy (some s) = some s := fun full =>
    Option.filter_eq_some_iff.mpr ⟨rfl, decide_eq_true full⟩
  have port : (some c.port).filter (· ≠ 0) = some c.port :=
    Option.filter_eq_some_iff.mpr ⟨rfl, decide_eq_true valid.port.ne'⟩
  have path : (parsedOf c).path = '/' :: quote c.database := rfl
  rw [parseDatabaseUrl, parsed, Option.bind_eq_bind, Option.bind_some, port_parsedOf valid]
  simp only [path, hostname_parsedOf valid keeps, username_parsedOf valid, password_parsedOf valid,
    truthy_some valid.host, truthy_some (quote_ne_nil valid.username),
    truthy_some (quote_ne_nil valid.password), List.cons_ne_nil, if_false, database,
    quote_ne_nil valid.database, Option.getD_some]
  rw [Option.bind_eq_bind, Option.bind_some, port]
  rfl

end Parsed

/-! ### The same credentials -/

theorem encoded_eq_self_iff {c : Components} : encoded c = c ↔ Unreserved c := by
  constructor
  · intro same
    have database : quote c.database = c.database := congrArg Components.database same
    have username : quote c.username = c.username := congrArg Components.username same
    have password : quote c.password = c.password := congrArg Components.password same
    exact ⟨quote_eq_self_iff.mp database, quote_eq_self_iff.mp username,
      quote_eq_self_iff.mp password⟩
  · intro plain
    rw [encoded, quote_of_unreserved plain.database, quote_of_unreserved plain.username,
      quote_of_unreserved plain.password]

/-- The components with another host and another port. -/
def moved (c : Components) (host : Str) (port : Nat) : Components :=
  { c with host := host, port := port }

/-- The URL names the same database and the same user with the same password. -/
def SameCredentials (c : Components) (url : Str) : Prop :=
  ∃ host port, Valid (moved c host port) ∧ url = buildDatabaseUrl (moved c host port)

/-- The update tests the credentials and leaves them in the settings. -/
structure Keeps (c : Components) (attempt : Attempt) : Prop where
  tested : ∃ url, attempt.tested = some url ∧ SameCredentials c url
  stored : SameCredentials c attempt.settings.databaseUrl

/-- A request that gives no credentials, and a host and a port that are valid. -/
structure OtherFields (req : SettingsRequest) : Prop where
  database : truthy req.appDatabase = none
  username : truthy req.appUsername = none
  password : truthy req.appPassword = none
  host : ∀ host ∈ req.host, ∀ d ∈ host, isHostChar d = true
  port : ∀ port ∈ req.port, port ≤ 65535

theorem merged_moved {c : Components} (valid : Valid c) {req : SettingsRequest}
    (other : OtherFields req) :
    ∃ host port, merged req c = moved c host port ∧ Valid (moved c host port) := by
  refine ⟨(truthy req.host).getD c.host, (req.port.filter (· ≠ 0)).getD c.port, ?_, ?_⟩
  · rw [merged, other.database, other.username, other.password]
    rfl
  · have host : (truthy req.host).getD c.host ≠ [] ∧
        ∀ d ∈ (truthy req.host).getD c.host, isHostChar d = true := by
      cases given : truthy req.host with
      | none => exact ⟨valid.host, valid.hostChars⟩
      | some host =>
          obtain ⟨requested, full⟩ := Option.filter_eq_some_iff.mp given
          exact ⟨of_decide_eq_true full, other.host host requested⟩
    have port : 0 < (req.port.filter (· ≠ 0)).getD c.port ∧
        (req.port.filter (· ≠ 0)).getD c.port ≤ 65535 := by
      cases given : req.port.filter (· ≠ 0) with
      | none => exact ⟨valid.port, valid.portRange⟩
      | some port =>
          obtain ⟨requested, nonzero⟩ := Option.filter_eq_some_iff.mp given
          exact ⟨Nat.pos_of_ne_zero (of_decide_eq_true nonzero), other.port port requested⟩
    exact ⟨host.1, host.2, port.1, port.2, valid.database, valid.username, valid.password⟩

/-- An update tests the URL of the merged components, and stores it or nothing. -/
theorem update_of_parse {u : Unicode} (a : SettingsAnswers) (req : SettingsRequest)
    {s : DatabaseSettings} {current : Components}
    (parsed : parseDatabaseUrl u s.databaseUrl = some current) :
    (updateDatabaseSettings u a req s).tested = some (buildDatabaseUrl (merged req current)) ∧
      ((updateDatabaseSettings u a req s).settings.databaseUrl = s.databaseUrl ∨
        (updateDatabaseSettings u a req s).settings.databaseUrl =
          buildDatabaseUrl (merged req current)) := by
  rw [updateDatabaseSettings, parsed]
  dsimp only
  cases a.connection with
  | operationalError => exact ⟨rfl, .inl rfl⟩
  | raised => exact ⟨rfl, .inl rfl⟩
  | connected =>
      dsimp only
      split
      · exact ⟨rfl, .inl rfl⟩
      · exact ⟨rfl, .inr rfl⟩

/-- An update changes nothing, or writes the URL that it stores to the file. -/
theorem update_written (u : Unicode) (a : SettingsAnswers) (req : SettingsRequest)
    (s : DatabaseSettings) :
    (updateDatabaseSettings u a req s).settings = s ∨
      ∃ rest, (updateDatabaseSettings u a req s).settings.envFile =
        writeEnvSettings a.inDocker
          (("DATABASE_URL".toList, (updateDatabaseSettings u a req s).settings.databaseUrl) :: rest)
          s.envFile := by
  rw [updateDatabaseSettings]
  cases parseDatabaseUrl u s.databaseUrl with
  | none => exact .inl rfl
  | some current =>
      dsimp only
      cases a.connection with
      | operationalError => exact .inl rfl
      | raised => exact .inl rfl
      | connected =>
          dsimp only
          split
          · exact .inl rfl
          · exact .inr ⟨_, rfl⟩

theorem keeps_of_unreserved {u : Unicode} (lower : KeepsHosts u) {c : Components}
    (plain : Unreserved c) {a : SettingsAnswers} {req : SettingsRequest} (other : OtherFields req)
    {s : DatabaseSettings} (start : SameCredentials c s.databaseUrl) :
    Keeps c (updateDatabaseSettings u a req s) := by
  obtain ⟨host, port, valid, url⟩ := start
  have parsed : parseDatabaseUrl u s.databaseUrl = some (moved c host port) := by
    have same : encoded (moved c host port) = moved c host port :=
      encoded_eq_self_iff.mpr ⟨plain.database, plain.username, plain.password⟩
    rw [url, parse_build valid lower, same]
  obtain ⟨newHost, newPort, new, newValid⟩ := merged_moved valid other
  obtain ⟨tested, stored⟩ := update_of_parse a req parsed
  rw [new] at tested stored
  refine ⟨⟨_, tested, newHost, newPort, newValid, rfl⟩, ?_⟩
  rcases stored with unchanged | updated
  · exact ⟨host, port, valid, unchanged.trans url⟩
  · exact ⟨newHost, newPort, newValid, updated⟩

theorem run_keeps {u : Unicode} (lower : KeepsHosts u) {c : Components} (plain : Unreserved c)
    {reqs : List (SettingsAnswers × SettingsRequest)} (other : ∀ r ∈ reqs, OtherFields r.2)
    {s : DatabaseSettings} (start : SameCredentials c s.databaseUrl) :
    ∀ attempt ∈ runUpdates u s reqs, Keeps c attempt := by
  induction reqs generalizing s with
  | nil => exact nofun
  | cons r reqs ih =>
      obtain ⟨a, req⟩ := r
      have first := keeps_of_unreserved lower plain (a := a) (other _ List.mem_cons_self) start
      rw [runUpdates, List.forall_mem_cons]
      exact ⟨first, ih (fun r mem => other r (List.mem_cons_of_mem _ mem)) first.stored⟩

/-- A URL that is built from the components as they were read has not the same credentials. -/
theorem unreserved_of_tested {u : Unicode} (lower : KeepsHosts u) {c : Components}
    (valid : Valid c) {a : SettingsAnswers} {req : SettingsRequest} (other : OtherFields req)
    {s : DatabaseSettings} (start : s.databaseUrl = buildDatabaseUrl c)
    (keeps : Keeps c (updateDatabaseSettings u a req s)) : Unreserved c := by
  have validEncoded : Valid (encoded c) :=
    { valid with
      database := quote_ne_nil valid.database
      username := quote_ne_nil valid.username
      password := quote_ne_nil valid.password }
  have parsed : parseDatabaseUrl u s.databaseUrl = some (encoded c) := by
    rw [start, parse_build valid lower]
  obtain ⟨newHost, newPort, new, newValid⟩ := merged_moved validEncoded other
  obtain ⟨url, tested, host, port, moved, same⟩ := keeps.tested
  rw [(update_of_parse a req parsed).1, new, Option.some.injEq] at tested
  -- The credentials that are tested are encoded once more.
  have twice : some (encoded (DatabaseUrl.moved (encoded c) newHost newPort)) =
      some (encoded (DatabaseUrl.moved c host port)) := by
    rw [← parse_build newValid lower, ← parse_build moved lower, tested, same]
  have again := Option.some.inj twice
  have database : quote (quote c.database) = quote c.database :=
    congrArg Components.database again
  have username : quote (quote c.username) = quote c.username :=
    congrArg Components.username again
  have password : quote (quote c.password) = quote c.password :=
    congrArg Components.password again
  exact ⟨unreserved_of_quote (quote_eq_self_iff.mp database),
    unreserved_of_quote (quote_eq_self_iff.mp username),
    unreserved_of_quote (quote_eq_self_iff.mp password)⟩

/-- Components come back from their URL, and updates of other fields keep testing and storing
the credentials, just if these have unreserved characters only. What an update stores it writes
to the file. -/
theorem database_url_iff {u : Unicode} (lower : KeepsHosts u) {c : Components} (valid : Valid c) :
    (parseDatabaseUrl u (buildDatabaseUrl c) = some c ↔ Unreserved c) ∧
      (∀ reqs : List (SettingsAnswers × SettingsRequest), reqs ≠ [] →
        (∀ r ∈ reqs, OtherFields r.2) → ∀ s : DatabaseSettings,
          s.databaseUrl = buildDatabaseUrl c →
            ((∀ attempt ∈ runUpdates u s reqs, Keeps c attempt) ↔ Unreserved c)) ∧
      ∀ (a : SettingsAnswers) (req : SettingsRequest) (s : DatabaseSettings),
        (updateDatabaseSettings u a req s).settings = s ∨
          ∃ rest, (updateDatabaseSettings u a req s).settings.envFile =
            writeEnvSettings a.inDocker (("DATABASE_URL".toList,
              (updateDatabaseSettings u a req s).settings.databaseUrl) :: rest) s.envFile := by
  refine ⟨?_, ?_, update_written u⟩
  · rw [parse_build valid lower, Option.some.injEq]
    exact encoded_eq_self_iff
  · intro reqs some other s start
    obtain ⟨⟨a, req⟩, rest, rfl⟩ := List.exists_cons_of_ne_nil some
    constructor
    · intro keeps
      rw [runUpdates, List.forall_mem_cons] at keeps
      exact unreserved_of_tested lower valid (other _ List.mem_cons_self) start keeps.1
    · intro plain
      exact run_keeps lower plain other ⟨c.host, c.port, valid, start⟩

def asciiUnicode : Unicode := { lower := List.map Char.toLower, nfkc := id }

theorem toLower_of_isHostChar {c : Char} (h : isHostChar c = true) : c.toLower = c := by
  delta Char.toLower
  rw [dif_neg]
  intro capital
  have low : 65 ≤ c.toNat := capital.1
  have high : c.toNat ≤ 90 := capital.2
  simp only [isHostChar, Bool.or_eq_true, decide_eq_true_eq, isDecimal] at h
  rcases h with ((lower | digit) | rfl) | rfl
  · delta Char.isLower at lower
    have small : 97 ≤ c.toNat := of_decide_eq_true (Bool.and_eq_true_iff.mp lower).1
    omega
  · have decimal : c.toNat ≤ 57 := digit.2
    omega
  · exact absurd low (by decide)
  · exact absurd low (by decide)

theorem asciiUnicode_keepsHosts : KeepsHosts asciiUnicode := fun s hosts => by
  have same : s.map Char.toLower = s.map id :=
    List.map_congr_left fun c mem => toLower_of_isHostChar (hosts c mem)
  exact same.trans (List.map_id s)

/-- The database of the installation, with a password. -/
def installedDatabase (password : String) : Components where
  host := "localhost".toList
  port := 5432
  database := "ecube".toList
  username := "ecube".toList
  password := password.toList

theorem valid_installedDatabase (password : String) (full : password.toList ≠ []) :
    Valid (installedDatabase password) where
  host := (by decide : "localhost".toList ≠ [])
  hostChars := List.all_eq_true.mp (by decide : "localhost".toList.all isHostChar = true)
  port := Nat.succ_pos 5431
  portRange := (by decide : 5432 ≤ 65535)
  database := (by decide : "ecube".toList ≠ [])
  username := (by decide : "ecube".toList ≠ [])
  password := full

def noRequest : SettingsRequest where
  host := none
  port := none
  appDatabase := none
  appUsername := none
  appPassword := none
  poolSize := none
  poolMaxOverflow := none

def settledAnswers : SettingsAnswers where
  connection := .connected
  inDocker := false
  writeRaises := false
  engineRaises := false

/-- Another host and a larger pool, one after the other, keep a plain password. -/
theorem installedDatabase_kept :
    parseDatabaseUrl asciiUnicode (buildDatabaseUrl (installedDatabase "s3cret")) =
        some (installedDatabase "s3cret") ∧
      ∀ attempt ∈ runUpdates asciiUnicode
          { databaseUrl := buildDatabaseUrl (installedDatabase "s3cret"), dbPoolSize := 5
            dbPoolMaxOverflow := 10, envFile := none }
          [(settledAnswers, { noRequest with host := some "db.local".toList }),
            (settledAnswers, { noRequest with poolSize := some 20 })],
        Keeps (installedDatabase "s3cret") attempt := by
  have plain : Unreserved (installedDatabase "s3cret") :=
    ⟨List.all_eq_true.mp (by decide), List.all_eq_true.mp (by decide),
      List.all_eq_true.mp (by decide)⟩
  obtain ⟨read, run, -⟩ :=
    database_url_iff asciiUnicode_keepsHosts (c := installedDatabase "s3cret")
      (valid_installedDatabase "s3cret" (by decide))
  refine ⟨read.mpr plain, (run _ (by simp) (fun r mem => ?_) _ rfl).mpr plain⟩
  rcases List.mem_pair.mp mem with rfl | rfl
  · refine ⟨rfl, rfl, rfl, fun host given => ?_, nofun⟩
    cases given
    exact List.all_eq_true.mp (by decide)
  · exact ⟨rfl, rfl, rfl, nofun, nofun⟩

/-- An at sign in the password is read as `%40`. -/
theorem password_not_read : ¬∀ c : Components, Valid c →
    parseDatabaseUrl asciiUnicode (buildDatabaseUrl c) = some c := fun claim => by
  have read := claim _ (valid_installedDatabase "p@ss" (by decide))
  exact absurd read (by decide +kernel)

end Ecube.DatabaseUrl
