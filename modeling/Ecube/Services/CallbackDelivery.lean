import Ecube.Basic.Integers
import Ecube.Basic.Url

/-!
The delivery of a webhook callback: `callback_service`.

A delivery looks the host of the URL up once, refuses it if an address is not globally
routable, writes the first address into the URL in place of the host, and posts to that URL
until there is an answer other than a server error.

Theorem: `posts_pinned`. Unless private addresses are allowed, every POST goes to an address
of that one lookup, whose addresses are all global and not multicast.
-/

namespace Ecube.CallbackDelivery

open IpAddress Url

/-- What `getaddrinfo` does: an address counts by its host, which need not be a text. -/
inductive Answer where
  | infos (hosts : List (Option Str))
  | unresolved (error : Str)
  /-- A `ValueError`, as for a host name that IDNA cannot encode. -/
  | invalid (error : Str)
  | raises
  deriving DecidableEq, Repr

/-- What comes of a POST. -/
inductive Reply where
  | status (code : Nat)
  /-- An `httpx.HTTPError` or an `OSError`. -/
  | failed (error : Str)
  | raises
  deriving DecidableEq, Repr

/-- A POST, with the `Host` header and the TLS server name if they are set. -/
structure Request where
  url : Str
  host : Option Str
  serverName : Option Str
  deriving DecidableEq, Repr

/-- What a delivery meets: the `n`-th lookup and the `n`-th POST may each be answered
differently. -/
structure World where
  unicode : Unicode
  registry : Registry
  repr : Str → Str
  idna : Str → Option Str
  dns : Nat → Str → Answer
  http : Nat → Request → Reply

inductive Event where
  | lookup (host : Str)
  | post (request : Request)
  deriving DecidableEq, Repr

abbrev Log := List Event

def lookups (log : Log) : List Str :=
  log.filterMap fun
    | .lookup host => some host
    | .post _ => none

def posts (log : Log) : List Request :=
  log.filterMap fun
    | .lookup _ => none
    | .post request => some request

inductive Raised where
  | valueError (text : Str)
  | other
  deriving DecidableEq, Repr

structure Details where
  callbackUrl : Str
  statusCode : Option Nat := none
  reason : Option Str := none
  attempt : Option Nat := none
  attempts : Option Nat := none
  deriving DecidableEq, Repr

/-- The audit record a delivery ends with, or the exception. -/
inductive Ending where
  | sent (details : Details)
  | deliveryFailed (details : Details)
  | raised
  deriving DecidableEq, Repr

variable (w : World)

def decimal (n : Nat) : Str := Nat.toDigits 10 n

/-! ### The lookup -/

def unsafeAddress (a : Address) : Bool := !w.registry.isGlobal a || w.registry.isMulticast a

/-- The loop over the addresses, with the first one so far. -/
def firstSafe : Option Str → List (Option Str) → Except Raised (Option Str)
  | first, [] => .ok first
  | first, none :: rest => firstSafe first rest
  | first, some ip :: rest =>
      match ipAddress ip with
      | none =>
          .error (.valueError
            (w.repr ip ++ " does not appear to be an IPv4 or IPv6 address".toList))
      | some a =>
          if unsafeAddress w a then
            .error (.valueError ("Resolved to non-globally-routable address: ".toList ++ ip))
          else firstSafe (first.or (some ip)) rest

/-- `_resolve_safe`. -/
def resolveSafe (hostname : Str) (log : Log) : Log × Except Raised (Option Str) :=
  (log ++ [.lookup hostname],
    match w.dns (lookups log).length hostname with
    | .unresolved error => .error (.valueError ("DNS resolution failed: ".toList ++ error))
    | .invalid error => .error (.valueError error)
    | .raises => .error .other
    | .infos [] => .error (.valueError "DNS returned no addresses".toList)
    | .infos hosts => firstSafe w none hosts)

/-! ### The URL -/

/-- `_sanitize_url_for_log`. -/
def sanitizeUrlForLog (url : Str) : Str :=
  match urlparse w.unicode url with
  | none => "<unparseable>".toList
  | some p =>
      let host := (p.hostname w.unicode).getD []
      let hostPart (port : Option Nat) : Str :=
        match port with
        | none | some 0 => host
        | some n => host ++ ':' :: decimal n
      match p.port with
      | none => "<unparseable>".toList
      | some port => p.scheme ++ "://".toList ++ hostPart port ++ p.path

/-- Where the requests of a delivery go, and the name to be encoded as the server name. -/
structure Target where
  url : Str
  host : Option Str
  sniHostname : Option Str
  deriving DecidableEq, Repr

/-- The host as it is written in a URL. -/
def ipHost (ip : Str) : Str := if ':' ∈ ip then '[' :: ip ++ [']'] else ip

def pinnedNetloc (ip : Str) (port : Nat) : Str := ipHost ip ++ ':' :: decimal port

def isHttps (p : ParseResult) : Bool := p.scheme.map Char.toLower = "https".toList

/-- The URL with the address in place of the host; a port that is no port is a `ValueError`. -/
def pinned (p : ParseResult) (hostname ip : Str) : Option Target :=
  p.port.map fun given =>
    let port := (given.filter (· ≠ 0)).getD (if isHttps p then 443 else 80)
    { url := urlunparse { p with netloc := pinnedNetloc ip port, fragment := [] }
      host := some (if (given.filter (· ≠ 0)).isSome then hostname ++ ':' :: decimal port
        else hostname)
      sniHostname := if isHttps p then some hostname else none }

/-! ### The requests -/

def maxRetries : Nat := 4

def post (request : Request) (log : Log) : Log × Reply :=
  (log ++ [.post request], w.http (posts log).length request)

/-- One attempt. The server name is encoded first, which may raise. -/
def send (target : Target) (log : Log) : Log × Reply :=
  match target.sniHostname with
  | none => post w ⟨target.url, target.host, none⟩ log
  | some name =>
      match w.idna name with
      | none => (log, .raises)
      | some encoded => post w ⟨target.url, target.host, some encoded⟩ log

/-- The loop over the attempts, with the number of those left and the last error. -/
def deliverLoop (target : Target) (safeUrl : Str) : Nat → Option Str → Log → Log × Ending
  | 0, lastError, log =>
      (log, .deliveryFailed
        { callbackUrl := safeUrl, attempts := some maxRetries
          reason := some ((lastError.filter (· ≠ [])).getD "unknown".toList) })
  | left + 1, _, log =>
      let details : Details := { callbackUrl := safeUrl, attempt := some (maxRetries - left) }
      match send w target log with
      | (log, .status code) =>
          let http := "HTTP ".toList ++ decimal code
          if code < 300 then (log, .sent { details with statusCode := some code })
          else if code < 400 then
            (log, .deliveryFailed { details with
              statusCode := some code
              reason := some (http ++ ": redirect not followed (SSRF protection)".toList) })
          else if code < 500 then
            (log, .deliveryFailed { details with
              statusCode := some code
              reason := some (http ++ ": receiver rejected the request".toList) })
          else deliverLoop target safeUrl left (some http) log
      | (log, .failed error) => deliverLoop target safeUrl left (some error) log
      | (log, .raises) => (log, .raised)

/-- `_do_deliver`. -/
def doDeliver (allowPrivateIps : Bool) (url : Str) : Log × Ending :=
  let safeUrl := sanitizeUrlForLog w url
  let blocked (reason : Str) : Ending :=
    .deliveryFailed { callbackUrl := safeUrl, reason := some reason }
  let deliver (target : Target) (log : Log) := deliverLoop w target safeUrl maxRetries none log
  match urlparse w.unicode url with
  | none => ([], blocked "Malformed callback URL: unable to parse".toList)
  | some parsed =>
      let hostname := (parsed.hostname w.unicode).getD []
      if parsed.scheme.map Char.toLower ∉ ["https".toList, "http".toList] then
        ([], blocked ("Callback URL uses disallowed scheme: ".toList ++ parsed.scheme))
      else if parsed.username.getD [] ≠ [] ∨ parsed.password.getD [] ≠ [] then
        ([], blocked "Callback URL contains embedded credentials (userinfo)".toList)
      else if hostname = [] then ([], blocked "Empty hostname".toList)
      else if allowPrivateIps then deliver ⟨url, none, none⟩ []
      else
        match resolveSafe w hostname [] with
        | (log, .error (.valueError error)) => (log, blocked ("SSRF protection: ".toList ++ error))
        | (log, .error .other) => (log, .raised)
        | (log, .ok none) => deliver ⟨url, none, none⟩ log
        | (log, .ok (some ip)) =>
            match pinned parsed hostname ip with
            | none => (log, .raised)
            | some target => deliver target log

/-! ### What a lookup lets through -/

/-- An address that a callback may go to. -/
def Routable (ip : Str) : Prop :=
  ∃ a, ipAddress ip = some a ∧ w.registry.isGlobal a = true ∧ w.registry.isMulticast a = false

/-- The loop ends with the first text if all texts are addresses a callback may go to. -/
theorem firstSafe_ok {first result : Option Str} {hosts : List (Option Str)}
    (h : firstSafe w first hosts = .ok result) :
    (∀ ip, some ip ∈ hosts → Routable w ip) ∧ result = first.or (hosts.findSome? id) := by
  induction hosts generalizing first with
  | nil =>
      cases h
      exact ⟨fun _ mem => absurd mem List.not_mem_nil, (Option.or_none).symm⟩
  | cons host rest ih =>
      cases host with
      | none =>
          obtain ⟨routable, eq⟩ := ih h
          exact ⟨fun ip mem => routable ip ((List.mem_cons.mp mem).resolve_left nofun), eq⟩
      | some ip =>
          rw [firstSafe] at h
          split at h
          · exact absurd h nofun
          next a parsed =>
            split at h
            · exact absurd h nofun
            next passed =>
              obtain ⟨routable, eq⟩ := ih h
              simp only [unsafeAddress, Bool.or_eq_true, Bool.not_eq_true', not_or,
                Bool.not_eq_false, Bool.not_eq_true] at passed
              constructor
              · intro other mem
                rcases List.mem_cons.mp mem with same | later
                · cases same
                  exact ⟨a, parsed, passed⟩
                · exact routable other later
              · rw [eq]
                cases first <;> rfl

/-- A lookup that lets a delivery through: its answer has the address to be used in front. -/
theorem resolveSafe_ok {hostname : Str} {log : Log} {result : Option Str}
    (h : (resolveSafe w hostname log).2 = .ok result) :
    ∃ host hosts, w.dns (lookups log).length hostname = .infos (host :: hosts) ∧
      (∀ ip, some ip ∈ host :: hosts → Routable w ip) ∧
      result = (host :: hosts).findSome? id := by
  simp only [resolveSafe] at h
  split at h
  · exact absurd h nofun
  · exact absurd h nofun
  · exact absurd h nofun
  · exact absurd h nofun
  next hosts some answer =>
    cases hosts with
    | nil => exact absurd rfl some
    | cons host hosts =>
        obtain ⟨routable, eq⟩ := firstSafe_ok w h
        exact ⟨host, hosts, answer, routable, eq⟩

/-! ### Where the requests go -/

/-- An attempt posts to the target, if it posts at all. -/
theorem send_log (target : Target) (log : Log) :
    (send w target log).1 = log ∨
      ∃ request, request.url = target.url ∧ (send w target log).1 = log ++ [.post request] := by
  rw [send]
  split
  · exact .inr ⟨_, rfl, rfl⟩
  · split
    · exact .inl rfl
    · exact .inr ⟨_, rfl, rfl⟩

/-- A delivery only adds posts to its target. -/
theorem deliverLoop_log (target : Target) (safeUrl : Str) (left : Nat) (lastError : Option Str)
    (log : Log) : ∃ requests : List Request,
      (deliverLoop w target safeUrl left lastError log).1 = log ++ requests.map .post ∧
      ∀ request ∈ requests, request.url = target.url := by
  induction left generalizing lastError log with
  | zero => exact ⟨[], (List.append_nil log).symm, fun _ mem => absurd mem List.not_mem_nil⟩
  | succ left ih =>
      have sent : ∃ requests : List Request,
          (send w target log).1 = log ++ requests.map .post ∧
          ∀ request ∈ requests, request.url = target.url := by
        rcases send_log w target log with none | ⟨request, url, one⟩
        · exact ⟨[], by simpa using none, fun _ mem => absurd mem List.not_mem_nil⟩
        · exact ⟨[request], one, fun r mem => List.mem_singleton.mp mem ▸ url⟩
      obtain ⟨first, eq, urls⟩ := sent
      have again : ∀ error, ∃ requests : List Request,
          (deliverLoop w target safeUrl left error (send w target log).1).1 =
            log ++ requests.map .post ∧ ∀ request ∈ requests, request.url = target.url := by
        intro error
        obtain ⟨more, moreEq, moreUrls⟩ := ih error (send w target log).1
        refine ⟨first ++ more, ?_, ?_⟩
        · rw [moreEq, eq, List.map_append, List.append_assoc]
        · intro request mem
          rcases List.mem_append.mp mem with early | late
          · exact urls request early
          · exact moreUrls request late
      rw [deliverLoop]
      split
      next log' code answer =>
        have stop : log' = (send w target log).1 := by rw [answer]
        subst stop
        dsimp only
        split
        · exact ⟨first, eq, urls⟩
        · split
          · exact ⟨first, eq, urls⟩
          · split
            · exact ⟨first, eq, urls⟩
            · exact again _
      next log' error answer =>
        have stop : log' = (send w target log).1 := by rw [answer]
        subst stop
        exact again _
      next log' answer =>
        have stop : log' = (send w target log).1 := by rw [answer]
        subst stop
        exact ⟨first, eq, urls⟩

/-! ### The authority of the pinned URL -/

theorem plain_of_mem_decimal {n : Nat} {c : Char} (mem : c ∈ decimal n) : Plain c := by
  have digit := Integers.isDigit_of_mem_toDigits mem
  rw [Char.isDigit, Bool.and_eq_true, decide_eq_true_eq, decide_eq_true_eq] at digit
  exact .inl (decide_eq_true (.inl (decide_eq_true digit)))

theorem plain_not_delimiter {c : Char} (plain : Plain c) : isDelimiter c = false := by
  rw [isDelimiter, decide_eq_false_iff_not]
  intro delimiter
  simp only [List.mem_cons, List.not_mem_nil, or_false] at delimiter
  rcases delimiter with rfl | rfl | rfl
  · exact absurd plain (by unfold Plain; decide)
  · exact absurd plain (by unfold Plain; decide)
  · exact absurd plain (by unfold Plain; decide)

theorem clean_pinnedNetloc {ip : Str} {a : Address} (scope : '%' ∉ ip)
    (parsed : ipAddress ip = some a) (port : Nat) :
    ∀ c ∈ pinnedNetloc ip port, isDelimiter c = false := by
  have clean : ∀ c ∈ ip, isDelimiter c = false :=
    fun c mem => plain_not_delimiter (plain_ipAddress scope parsed c mem)
  intro c mem
  rw [pinnedNetloc] at mem
  rcases List.mem_append.mp mem with host | port
  · rw [ipHost] at host
    split at host
    · simp only [List.cons_append, List.mem_cons, List.mem_append, List.not_mem_nil,
        or_false] at host
      rcases host with rfl | within | rfl
      · rfl
      · exact clean c within
      · rfl
    · exact clean c host
  · rcases List.mem_cons.mp port with rfl | digit
    · rfl
    · exact plain_not_delimiter (plain_of_mem_decimal digit)

theorem pinned_authority {p : ParseResult} {hostname ip : Str} {a : Address} {target : Target}
    (scheme : isScheme p.scheme = true) (scope : '%' ∉ ip) (parsed : ipAddress ip = some a)
    (h : pinned p hostname ip = some target) :
    ∃ port, authority target.url = some (pinnedNetloc ip port) := by
  obtain ⟨given, -, rfl⟩ := Option.map_eq_some_iff.mp h
  have located : ∀ port, pinnedNetloc ip port ≠ [] := by
    intro port
    exact List.append_ne_nil_of_right_ne_nil _ (List.cons_ne_nil _ _)
  exact ⟨_, authority_urlunparse scheme (located _) (clean_pinnedNetloc scope parsed _)⟩

/-! ### A whole delivery -/

/-- A delivery stops before its lookup, stops after it, or posts to what the lookup let
through. -/
theorem doDeliver_cases (url : Str) :
    (doDeliver w false url).1 = [] ∨
      ∃ parsed hostname, isScheme parsed.scheme = true ∧
        ((doDeliver w false url).1 = [.lookup hostname] ∨
          ∃ result target safeUrl, (resolveSafe w hostname []).2 = .ok result ∧
            (∀ ip ∈ result, pinned parsed hostname ip = some target) ∧
            (doDeliver w false url).1 =
              (deliverLoop w target safeUrl maxRetries none [.lookup hostname]).1) := by
  simp only [doDeliver]
  split
  · exact .inl rfl
  next parsed read =>
    split
    · exact .inl rfl
    next allowed =>
      have scheme : isScheme parsed.scheme = true := by
        rw [urlparse_scheme read, not_not, List.mem_pair] at allowed
        rcases allowed with eq | eq
        · rw [eq]
          decide
        · rw [eq]
          decide
      split
      · exact .inl rfl
      · split
        · exact .inl rfl
        · refine .inr ⟨parsed, (parsed.hostname w.unicode).getD [], scheme, ?_⟩
          rw [if_neg Bool.false_ne_true]
          have looked : (resolveSafe w ((parsed.hostname w.unicode).getD []) []).1 =
              [.lookup ((parsed.hostname w.unicode).getD [])] := rfl
          split
          next log error resolved =>
            left
            rw [← looked, resolved]
          next log resolved =>
            left
            rw [← looked, resolved]
          next log resolved =>
            have eq : log = [.lookup ((parsed.hostname w.unicode).getD [])] := by
              rw [← looked, resolved]
            subst eq
            exact .inr ⟨none, _, _, by rw [resolved], fun ip mem => absurd mem nofun, rfl⟩
          next log ip resolved =>
            have eq : log = [.lookup ((parsed.hostname w.unicode).getD [])] := by
              rw [← looked, resolved]
            subst eq
            split
            · exact .inl rfl
            next target pins =>
              right
              refine ⟨some ip, target, _, by rw [resolved], ?_, rfl⟩
              intro other mem
              rw [← Option.some.inj mem]
              exact pins

theorem lookups_posts (log : Log) (requests : List Request) :
    lookups (log ++ requests.map .post) = lookups log := by
  have none : lookups (requests.map .post) = [] := by
    induction requests with
    | nil => rfl
    | cons request requests ih => exact ih
  rw [lookups, List.filterMap_append]
  exact (congrArg _ none).trans (List.append_nil _)

theorem posts_posts (host : Str) (requests : List Request) :
    posts (.lookup host :: requests.map .post) = requests := by
  induction requests with
  | nil => rfl
  | cons request requests ih => exact congrArg _ ih

/-- The answers of the name service whose addresses are all texts without a scope id. -/
def PlainAnswers : Prop :=
  ∀ n hostname hosts, w.dns n hostname = .infos hosts →
    ∀ host ∈ hosts, ∃ ip, host = some ip ∧ '%' ∉ ip

/-- A delivery that posts does so after one lookup, to the first of its addresses. -/
theorem posts_or_pinned (plain : PlainAnswers w) (url : Str) :
    posts (doDeliver w false url).1 = [] ∨
      ∃ hostname ip rest port, lookups (doDeliver w false url).1 = [hostname] ∧
        w.dns 0 hostname = .infos (some ip :: rest) ∧
        (∀ other, some other ∈ some ip :: rest → Routable w other) ∧
        ∀ request ∈ posts (doDeliver w false url).1,
          authority request.url = some (pinnedNetloc ip port) := by
  rcases doDeliver_cases w url with none | ⟨parsed, hostname, scheme, none | delivered⟩
  · exact .inl (congrArg posts none)
  · exact .inl (congrArg posts none)
  · obtain ⟨result, target, safeUrl, resolved, pins, log⟩ := delivered
    obtain ⟨host, rest, answer, routable, first⟩ := resolveSafe_ok w resolved
    obtain ⟨ip, rfl, scope⟩ := plain 0 hostname _ answer host List.mem_cons_self
    obtain ⟨a, read, -⟩ := routable ip List.mem_cons_self
    obtain ⟨port, located⟩ := pinned_authority scheme scope read (pins ip first)
    obtain ⟨requests, eq, urls⟩ :=
      deliverLoop_log w target safeUrl maxRetries Option.none [.lookup hostname]
    rw [log, eq]
    refine .inr ⟨hostname, ip, rest, port, lookups_posts _ requests, answer, routable, ?_⟩
    intro request mem
    rw [List.singleton_append, posts_posts] at mem
    rw [urls request mem, located]

/-- Every POST goes to the first address of one lookup, and all addresses of it are global and
not multicast; a lookup that has another address is followed by no POST. -/
theorem posts_pinned (plain : PlainAnswers w) (url : Str) :
    (∀ request ∈ posts (doDeliver w false url).1, ∃ hostname ip rest port,
      lookups (doDeliver w false url).1 = [hostname] ∧
      w.dns 0 hostname = .infos (some ip :: rest) ∧
      (∀ other, some other ∈ some ip :: rest → Routable w other) ∧
      authority request.url = some (pinnedNetloc ip port)) ∧
    ∀ hostname ∈ lookups (doDeliver w false url).1, ∀ hosts ip,
      w.dns 0 hostname = .infos hosts → some ip ∈ hosts → ¬ Routable w ip →
      posts (doDeliver w false url).1 = [] := by
  rcases posts_or_pinned w plain url with none | pinned
  · constructor
    · intro request mem
      rw [none] at mem
      exact absurd mem List.not_mem_nil
    · exact fun _ _ _ _ _ _ _ => none
  · obtain ⟨hostname, ip, rest, port, looked, answer, routable, located⟩ := pinned
    constructor
    · intro request mem
      exact ⟨hostname, ip, rest, port, looked, answer, routable, located request mem⟩
    · intro other mem hosts bad otherAnswer within refused
      rw [looked, List.mem_singleton] at mem
      subst mem
      rw [answer] at otherAnswer
      cases otherAnswer
      exact absurd (routable bad within) refused

/-- The networks of the registries. -/
def registries : Registry where
  privateV4 := [⟨0, 8⟩, ⟨0x0a000000, 8⟩, ⟨0x7f000000, 8⟩, ⟨0xa9fe0000, 16⟩, ⟨0xac100000, 12⟩,
    ⟨0xc0000000, 24⟩, ⟨0xc00000aa, 31⟩, ⟨0xc0000200, 24⟩, ⟨0xc0a80000, 16⟩, ⟨0xc6120000, 15⟩,
    ⟨0xc6336400, 24⟩, ⟨0xcb007100, 24⟩, ⟨0xf0000000, 4⟩, ⟨0xffffffff, 32⟩]
  exceptionsV4 := [⟨0xc0000009, 32⟩, ⟨0xc000000a, 32⟩]
  sharedV4 := ⟨0x64400000, 10⟩
  multicastV4 := ⟨0xe0000000, 4⟩
  privateV6 := [⟨1, 128⟩, ⟨0, 128⟩, ⟨0xffff00000000, 96⟩, ⟨0x0064ff9b000100000000000000000000, 48⟩,
    ⟨0x01000000000000000000000000000000, 64⟩, ⟨0x20010000000000000000000000000000, 23⟩,
    ⟨0x20010db8000000000000000000000000, 32⟩, ⟨0x20020000000000000000000000000000, 16⟩,
    ⟨0xfc000000000000000000000000000000, 7⟩, ⟨0xfe800000000000000000000000000000, 10⟩]
  exceptionsV6 := [⟨0x20010001000000000000000000000001, 128⟩,
    ⟨0x20010001000000000000000000000002, 128⟩, ⟨0x20010003000000000000000000000000, 32⟩,
    ⟨0x20010004011200000000000000000000, 48⟩, ⟨0x20010020000000000000000000000000, 28⟩,
    ⟨0x20010030000000000000000000000000, 28⟩]
  multicastV6 := ⟨0xff000000000000000000000000000000, 8⟩

/-- A receiver that is out of service for one request; its name changes its address after the
first lookup. -/
def busyReceiver : World where
  unicode := { lower := List.map Char.toLower, nfkc := id }
  registry := registries
  repr text := "'".toList ++ text ++ "'".toList
  idna := some
  dns
    | 0, _ => .infos [some "93.184.216.34".toList, some "2606:2800:21f::1".toList]
    | _ + 1, _ => .infos [some "127.0.0.1".toList]
  http
    | 0, _ => .status 503
    | _ + 1, _ => .status 200

theorem busyReceiver_plain : PlainAnswers busyReceiver := by
  intro n hostname hosts answer host mem
  cases n with
  | zero =>
      cases answer
      rcases List.mem_pair.mp mem with rfl | rfl
      · exact ⟨_, rfl, by decide⟩
      · exact ⟨_, rfl, by decide⟩
  | succ n =>
      cases answer
      cases List.mem_singleton.mp mem
      exact ⟨_, rfl, by decide⟩

/-- Both requests to the busy receiver go to the address of the first lookup. -/
theorem retry_pinned :
    ((posts (doDeliver busyReceiver false "https://Receiver.example:8443/hook".toList).1).map
        fun request => (String.ofList request.url, request.host.map String.ofList)) =
      List.replicate 2
        ("https://93.184.216.34:8443/hook", some "receiver.example:8443") ∧
    ∀ request ∈ posts (doDeliver busyReceiver false "https://Receiver.example:8443/hook".toList).1,
      ∃ hostname ip rest port,
        lookups (doDeliver busyReceiver false "https://Receiver.example:8443/hook".toList).1 =
          [hostname] ∧
        busyReceiver.dns 0 hostname = .infos (some ip :: rest) ∧
        (∀ other, some other ∈ some ip :: rest → Routable busyReceiver other) ∧
        authority request.url = some (pinnedNetloc ip port) :=
  ⟨by decide +kernel, (posts_pinned busyReceiver busyReceiver_plain _).1⟩

end Ecube.CallbackDelivery
