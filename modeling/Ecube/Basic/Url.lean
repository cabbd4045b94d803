import Ecube.Basic.IpAddress
import Ecube.Basic.Text

/-!
URLs as `urllib.parse` takes them apart and puts them together.

`authority` is the part of a URL that names the host and the port a client connects to.
`authority_urlunparse`: for a URL that was put together from its parts it is the network
location that was put in, as long as this has no delimiter in it.
-/

namespace Ecube.Url

open IpAddress Text

/-- What depends on the Unicode tables: the lower case of a text, and its normal form
NFKC. -/
structure Unicode where
  lower : Str → Str
  nfkc : Str → Str

structure ParseResult where
  scheme : Str
  netloc : Str
  path : Str
  params : Str
  query : Str
  fragment : Str
  deriving DecidableEq, Repr

/-! ### The authority of a URL -/

def isSchemeChar (c : Char) : Bool := c.isAlpha || isDecimal c || c ∈ ['+', '-', '.']

def isScheme (s : Str) : Bool := s.head?.any Char.isAlpha && s.all isSchemeChar

/-- The scheme in front of a colon. -/
def splitScheme (url : Str) : Str × Str :=
  match cut ':' url with
  | some (scheme, rest) => if isScheme scheme then (scheme.map Char.toLower, rest) else ([], url)
  | none => ([], url)

def isDelimiter (c : Char) : Bool := c ∈ ['/', '?', '#']

/-- `_splitnetloc`, for what follows two slashes. -/
def splitNetloc (rest : Str) : Str × Str :=
  (rest.takeWhile (!isDelimiter ·), rest.dropWhile (!isDelimiter ·))

def authority (url : Str) : Option Str :=
  match (splitScheme url).2 with
  | '/' :: '/' :: rest => some (splitNetloc rest).1
  | _ => none

/-! ### Taking a URL apart -/

/-- The control characters and blanks that a URL may start with. -/
def isControlOrSpace (c : Char) : Bool := c.toNat ≤ 0x20

/-- `_check_bracketed_host`. -/
def checkBracketedHost : Str → Bool
  | 'v' :: rest =>
      match cut '.' rest with
      | some (version, after) =>
          version ≠ [] ∧ version.all isHex ∧ after ≠ [] ∧ '\n' ∉ after
      | none => false
  | host =>
      match ipAddress host with
      | some (.v6 _) => true
      | _ => false

/-- Brackets come in pairs, with an address in them. -/
def checkBrackets (netloc : Str) : Bool :=
  match cut '[' netloc with
  | none => ']' ∉ netloc
  | some (_, bracketed) =>
      ']' ∈ netloc ∧ checkBracketedHost (bracketed.takeWhile (· ≠ ']'))

/-- `_checknetloc`: no character may turn into a delimiter. -/
def checkNetloc (u : Unicode) (netloc : Str) : Bool :=
  let kept := netloc.filter (· ∉ ['@', ':', '#', '?'])
  netloc.all (·.toNat < 128) || u.nfkc kept == kept ||
    (u.nfkc kept).all (· ∉ ['/', '?', '#', '@', ':'])

/-- `urlsplit`; `none` is a `ValueError`. -/
def urlsplit (u : Unicode) (url : Str) : Option ParseResult :=
  let url := (url.dropWhile isControlOrSpace).filter (· ∉ ['\t', '\r', '\n'])
  let (scheme, url) := splitScheme url
  let (netloc, url) :=
    match url with
    | '/' :: '/' :: rest => splitNetloc rest
    | _ => ([], url)
  if checkBrackets netloc ∧ checkNetloc u netloc then
    let (url, fragment) := (cut '#' url).getD (url, [])
    let (path, query) := (cut '?' url).getD (url, [])
    some { scheme, netloc, path, params := [], query, fragment }
  else none

def usesParams : List String :=
  ["", "ftp", "hdl", "prospero", "http", "imap", "https", "shttp", "rtsp", "rtsps", "rtspu", "sip",
    "sips", "mms", "sftp", "tel"]

/-- `_splitparams`: the parameters follow a semicolon in the last segment of the path. -/
def splitParams (path : Str) : Str × Str :=
  match cut ';' (path.rtakeWhile (· ≠ '/')) with
  | some (segment, params) => (path.rdropWhile (· ≠ '/') ++ segment, params)
  | none => (path, [])

def urlparse (u : Unicode) (url : Str) : Option ParseResult :=
  (urlsplit u url).map fun parts =>
    if String.ofList parts.scheme ∈ usesParams ∧ ';' ∈ parts.path then
      { parts with path := (splitParams parts.path).1, params := (splitParams parts.path).2 }
    else parts

namespace ParseResult

variable (p : ParseResult)

/-- What follows the last `@`. -/
def hostinfo : Str := p.netloc.rtakeWhile (· ≠ '@')

def userinfo : Option Str :=
  if '@' ∈ p.netloc then some (p.netloc.rdropWhile (· ≠ '@')).dropLast else none

def username : Option Str := p.userinfo.map (·.takeWhile (· ≠ ':'))

def password : Option Str := p.userinfo.bind fun info => (cut ':' info).map (·.2)

/-- `_hostinfo`: the host and what is written as the port. -/
def hostAndPort : Str × Str :=
  match cut '[' p.hostinfo with
  | some (_, bracketed) =>
      (bracketed.takeWhile (· ≠ ']'),
        ((cut ']' bracketed).bind fun (_, rest) => (cut ':' rest).map (·.2)).getD [])
  | none => (cut ':' p.hostinfo).getD (p.hostinfo, [])

/-- The host in lower case, but for a scope id. -/
def hostname (u : Unicode) : Option Str :=
  let host := p.hostAndPort.1
  if host = [] then none
  else some (u.lower (host.takeWhile (· ≠ '%')) ++ host.dropWhile (· ≠ '%'))

/-- The port, if there is one; `none` is a `ValueError`. Python turns at most 4300 digits into a
number. -/
def port : Option (Option Nat) :=
  let text := p.hostAndPort.2
  if text = [] then some none
  else if text.all isDecimal ∧ text.length ≤ 4300 ∧ number 10 text ≤ 65535 then
    some (some (number 10 text))
  else none

end ParseResult

theorem lower_splitScheme (url : Str) :
    (splitScheme url).1.map Char.toLower = (splitScheme url).1 := by
  rw [splitScheme]
  split
  · split
    · rw [List.map_map]
      exact List.map_congr_left fun c _ => toLower_toLower c
    · rfl
  · rfl

theorem urlsplit_scheme {u : Unicode} {url : Str} {p : ParseResult}
    (h : urlsplit u url = some p) : ∃ rest, p.scheme = (splitScheme rest).1 := by
  rw [urlsplit] at h
  simp only [Option.ite_none_right_eq_some, Option.some.injEq] at h
  obtain ⟨-, rfl⟩ := h
  exact ⟨_, rfl⟩

/-- The scheme is in lower case. -/
theorem urlparse_scheme {u : Unicode} {url : Str} {p : ParseResult}
    (h : urlparse u url = some p) : p.scheme.map Char.toLower = p.scheme := by
  obtain ⟨parts, parted, rfl⟩ := Option.map_eq_some_iff.mp h
  obtain ⟨rest, scheme⟩ := urlsplit_scheme parted
  have lowered : parts.scheme.map Char.toLower = parts.scheme := by
    rw [scheme, lower_splitScheme]
  split
  · exact lowered
  · exact lowered

/-! ### Putting a URL together -/

def usesNetloc : List String :=
  ["", "ftp", "http", "gopher", "nntp", "telnet", "imap", "wais", "file", "mms", "https", "shttp",
    "snews", "prospero", "rtsp", "rtsps", "rtspu", "rsync", "svn", "svn+ssh", "sftp", "nfs", "git",
    "git+ssh", "ws", "wss"]

/-- The path behind a network location: it starts with a slash. -/
def rooted (path : Str) : Str :=
  if path ≠ [] ∧ path.head? ≠ some '/' then '/' :: path else path

/-- A component that is written with the character before it, if there is one. -/
def marked (c : Char) (component : Str) : Str := if component = [] then [] else c :: component

def urlunsplit (scheme netloc path query fragment : Str) : Str :=
  let url :=
    if netloc ≠ [] ∨ (scheme ≠ [] ∧ String.ofList scheme ∈ usesNetloc) ∨ ['/', '/'] <+: path then
      '/' :: '/' :: (netloc ++ rooted path)
    else path
  let url := if scheme = [] then url else scheme ++ ':' :: url
  url ++ marked '?' query ++ marked '#' fragment

def urlunparse (p : ParseResult) : Str :=
  urlunsplit p.scheme p.netloc (p.path ++ marked ';' p.params) p.query p.fragment

/-! ### The authority of what was put together -/

theorem splitScheme_append_colon {scheme rest : Str} (h : isScheme scheme = true) :
    splitScheme (scheme ++ ':' :: rest) = (scheme.map Char.toLower, rest) := by
  have absent : ':' ∉ scheme := by
    intro mem
    have valid := List.all_eq_true.mp (Bool.and_eq_true_iff.mp h).2 ':' mem
    exact absurd valid (by decide)
  rw [splitScheme, cut_append_cons absent]
  exact if_pos h

/-- The network location ends at the first delimiter. -/
theorem splitNetloc_append {netloc rest : Str} (clean : ∀ c ∈ netloc, isDelimiter c = false)
    (delimited : ∀ c ∈ rest.head?, isDelimiter c = true) :
    (splitNetloc (netloc ++ rest)).1 = netloc := by
  rw [splitNetloc, List.takeWhile_append_of_pos (by simpa using clean)]
  cases rest with
  | nil => exact List.append_nil netloc
  | cons c rest => simp [delimited c rfl]

theorem head_marked {c d : Char} {component : Str} (h : d ∈ (marked c component).head?) :
    d = c := by
  rw [marked] at h
  split at h
  · exact absurd h nofun
  · exact (Option.some.inj h).symm

theorem head_rooted {path : Str} {c : Char} (h : c ∈ (rooted path).head?) : c = '/' := by
  rw [rooted] at h
  split at h
  · exact (Option.some.inj h).symm
  next stop =>
    cases path with
    | nil => exact absurd h nofun
    | cons d path =>
        cases h
        by_contra other
        exact stop ⟨List.cons_ne_nil c path, fun slash => other (Option.some.inj slash)⟩

theorem authority_urlunparse {p : ParseResult} (scheme : isScheme p.scheme = true)
    (located : p.netloc ≠ []) (clean : ∀ c ∈ p.netloc, isDelimiter c = false) :
    authority (urlunparse p) = some p.netloc := by
  have named : p.scheme ≠ [] := by
    intro empty
    rw [empty] at scheme
    exact absurd scheme (by decide)
  have eq : urlunparse p = p.scheme ++ ':' :: '/' :: '/' :: (p.netloc ++
      (rooted (p.path ++ marked ';' p.params) ++ marked '?' p.query ++ marked '#' p.fragment)) := by
    simp [urlunparse, urlunsplit, located, named]
  rw [authority, eq, splitScheme_append_colon scheme]
  refine congrArg some (splitNetloc_append clean fun c h => ?_)
  rw [List.append_assoc, List.head?_append, Option.mem_def, Option.or_eq_some_iff] at h
  rcases h with slash | ⟨-, h⟩
  · rw [head_rooted slash]
    rfl
  · rw [List.head?_append, Option.or_eq_some_iff] at h
    rcases h with question | ⟨-, hash⟩
    · rw [head_marked question]
      rfl
    · rw [head_marked hash]
      rfl

end Ecube.Url
