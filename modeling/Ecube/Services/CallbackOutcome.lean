import Ecube.Basic.Retries
import Ecube.Services.AuditDetails
import Ecube.Services.CallbackDelivery
import Ecube.Services.ConfigurationRequest

/-!
The audit records of a callback delivery: `_do_deliver` with its exits and exceptions.

The trace of a delivery has its lookup, its POSTs with what came of each, and the audit records
it writes. Audit writes succeed.

* `trace_deliverLoop`: the POSTs are the tries of one request, and the last one decides.
* `doDeliver_erase`: without the answers and the records it is the delivery of
  `CallbackDelivery`.
* `oneOutcome_iff`: for a URL that has been accepted, when there is exactly one record.
-/

namespace Ecube.CallbackOutcome

open PosixPath FileFailures Url CallbackDelivery Retries AuditDetails

/-- A URL that is stored: what the validation returns for some value. -/
def Accepted (u : Unicode) (url : Str) : Prop :=
  ∃ fieldName allowInsecureHttp confirmationFieldName value,
    Configuration.validateCallbackUrlValue u fieldName allowInsecureHttp confirmationFieldName
      value = .ok (some url)

/-! ### The delivery -/

inductive Action where
  | callbackSent
  | callbackDeliveryFailed
  deriving DecidableEq, Repr

inductive Event where
  | lookup (host : Str)
  | post (request : Request) (reply : Reply)
  | audit (action : Action) (details : Details)
  deriving DecidableEq, Repr

abbrev Trace := List Event

def posts (trace : Trace) : List (Request × Reply) :=
  trace.filterMap fun
    | .post request reply => some (request, reply)
    | _ => none

def audits (trace : Trace) : List Action :=
  trace.filterMap fun
    | .audit action _ => some action
    | _ => none

/-- What a delivery leaves: its trace, and whether it returned or raised. -/
abbrev Run := Trace × Except Raised Unit

/-- `audit_repo.add` and the return after it. -/
def record (action : Action) (details : Details) (trace : Trace) : Run :=
  (trace ++ [.audit action details], .ok ())

section Deliver

variable (w : World)

def post (request : Request) (trace : Trace) : Trace × Reply :=
  let reply := w.http (posts trace).length request
  (trace ++ [.post request reply], reply)

/-- The request of an attempt. `none` is the `UnicodeError` of a server name that cannot be
encoded. -/
def requestOf (target : Target) : Option Request :=
  match target.sniHostname with
  | none => some ⟨target.url, target.host, none⟩
  | some name => (w.idna name).map fun encoded => ⟨target.url, target.host, some encoded⟩

/-- The loop over the attempts, with the number of those left and the last error. -/
def deliverLoop (target : Target) (safeUrl : Str) : Nat → Option Str → Trace → Run
  | 0, lastError, trace =>
      record .callbackDeliveryFailed
        { callbackUrl := safeUrl, attempts := some maxRetries
          reason := some ((lastError.filter (· ≠ [])).getD "unknown".toList) } trace
  | left + 1, _, trace =>
      let details : Details := { callbackUrl := safeUrl, attempt := some (maxRetries - left) }
      match requestOf w target with
      | none => (trace, .error .other)
      | some request =>
          match post w request trace with
          | (trace, .status code) =>
              let http := "HTTP ".toList ++ decimal code
              if code < 300 then
                record .callbackSent { details with statusCode := some code } trace
              else if code < 400 then
                record .callbackDeliveryFailed { details with
                  statusCode := some code
                  reason :=
                    some (http ++ ": redirect not followed (SSRF protection)".toList) } trace
              else if code < 500 then
                record .callbackDeliveryFailed { details with
                  statusCode := some code
                  reason := some (http ++ ": receiver rejected the request".toList) } trace
              else deliverLoop target safeUrl left (some http) trace
          | (trace, .failed error) => deliverLoop target safeUrl left (some error) trace
          | (trace, .raises) => (trace, .error .other)

variable {P : Type}

-- `json.dumps`; `none` is an exception
variable (dumps : P → Option PyText)

/-- A text without surrogates, in UTF-8. -/
def encodeUtf8 (text : PyText) : Option (List UInt8) :=
  if ofStr (chars text) = text then some (Json.utf8 (chars text)) else none

def serializePayloadBytes (payload : P) : Option (List UInt8) := (dumps payload).bind encodeUtf8

/-- `_do_deliver`. -/
def doDeliver (allowPrivateIps : Bool) (url : Str) (payload : P) : Run :=
  let safeUrl := sanitizeUrlForLog w url
  let blocked (reason : Str) :=
    record .callbackDeliveryFailed { callbackUrl := safeUrl, reason := some reason }
  let deliver (target : Target) := deliverLoop w target safeUrl maxRetries none
  match urlparse w.unicode url with
  | none => blocked "Malformed callback URL: unable to parse".toList []
  | some parsed =>
      let hostname := (parsed.hostname w.unicode).getD []
      if parsed.scheme.map Char.toLower ∉ ["https".toList, "http".toList] then
        blocked ("Callback URL uses disallowed scheme: ".toList ++ parsed.scheme) []
      else if parsed.username.getD [] ≠ [] ∨ parsed.password.getD [] ≠ [] then
        blocked "Callback URL contains embedded credentials (userinfo)".toList []
      else if hostname = [] then blocked "Empty hostname".toList []
      else if allowPrivateIps then
        match serializePayloadBytes dumps payload with
        | none => ([], .error .other)
        | some _ => deliver ⟨url, none, none⟩ []
      else
        let trace := [Event.lookup hostname]
        match (resolveSafe w hostname []).2 with
        | .error (.valueError error) => blocked ("SSRF protection: ".toList ++ error) trace
        | .error .other => (trace, .error .other)
        | .ok pinnedIp =>
            match serializePayloadBytes dumps payload with
            | none => (trace, .error .other)
            | some _ =>
                match pinnedIp with
                | none => deliver ⟨url, none, none⟩ trace
                | some ip =>
                    match pinned parsed hostname ip with
                    | none => (trace, .error .other)
                    | some target => deliver target trace

/-! ### The loop -/

@[simp] theorem posts_append (trace more : Trace) :
    posts (trace ++ more) = posts trace ++ posts more := List.filterMap_append

@[simp] theorem audits_append (trace more : Trace) :
    audits (trace ++ more) = audits trace ++ audits more := List.filterMap_append

@[simp] theorem posts_record (action : Action) (details : Details) (trace : Trace) :
    posts (record action details trace).1 = posts trace := by
  rw [record, posts_append]
  exact List.append_nil _

@[simp] theorem audits_record (action : Action) (details : Details) (trace : Trace) :
    audits (record action details trace).1 = audits trace ++ [action] := audits_append _ _

/-- A server error or a network error. -/
def asksAgain : Reply → Bool
  | .status code => 500 ≤ code
  | .failed _ => true
  | .raises => false

/-- The records that the last answer leads to. -/
def verdict : Option Reply → List Action
  | some (.status code) => if code < 300 then [.callbackSent] else [.callbackDeliveryFailed]
  | some .raises => []
  | some (.failed _) | none => [.callbackDeliveryFailed]

theorem verdict_cons {reply : Reply} (again : asksAgain reply = true) (rest : List Reply) :
    verdict (reply :: rest).getLast? = verdict rest.getLast? := by
  cases rest with
  | cons next rest => rw [List.getLast?_cons_cons]
  | nil =>
      cases reply with
      | status code =>
          have large : ¬code < 300 := fun small => by
            have := of_decide_eq_true again
            omega
          exact if_neg large
      | failed error => rfl
      | raises => cases again

/-- The answers to the attempts from the `n`-th on. -/
def answers (request : Request) (left n : Nat) : List Reply :=
  tries (fun n => w.http n request) asksAgain left n

theorem answers_succ (request : Request) (left n : Nat) :
    answers w request (left + 1) n = w.http n request ::
      if asksAgain (w.http n request) then answers w request left (n + 1) else [] := rfl

/-- The POSTs are the tries of one request, and the last of them decides what is recorded. -/
theorem trace_deliverLoop {target : Target} {request : Request}
    (encoded : requestOf w target = some request) (safeUrl : Str) (left : Nat)
    (lastError : Option Str) (trace : Trace) :
    posts (deliverLoop w target safeUrl left lastError trace).1 =
        posts trace ++ (answers w request left (posts trace).length).map (request, ·) ∧
      audits (deliverLoop w target safeUrl left lastError trace).1 =
        audits trace ++ verdict (answers w request left (posts trace).length).getLast? := by
  induction left generalizing lastError trace with
  | zero =>
      rw [deliverLoop, posts_record, audits_record]
      exact ⟨(List.append_nil _).symm, rfl⟩
  | succ left ih =>
      have one : posts (trace ++ [Event.post request (w.http (posts trace).length request)]) =
          posts trace ++ [(request, w.http (posts trace).length request)] := posts_append _ _
      have none : audits (trace ++ [Event.post request (w.http (posts trace).length request)]) =
          audits trace := (audits_append _ _).trans (List.append_nil _)
      rw [deliverLoop, encoded, answers_succ]
      simp only [post]
      generalize w.http (posts trace).length request = reply at one none ⊢
      -- a further attempt sees the answers that follow
      have again : asksAgain reply = true → ∀ error,
          posts (deliverLoop w target safeUrl left error (trace ++ [.post request reply])).1 =
              posts trace ++ (reply :: if asksAgain reply then
                answers w request left ((posts trace).length + 1) else []).map (request, ·) ∧
            audits (deliverLoop w target safeUrl left error (trace ++ [.post request reply])).1 =
              audits trace ++ verdict (reply :: if asksAgain reply then
                answers w request left ((posts trace).length + 1) else []).getLast? := by
        intro asks error
        obtain ⟨posted, audited⟩ := ih error (trace ++ [.post request reply])
        rw [one, List.length_append, List.length_singleton] at posted audited
        rw [posted, audited, none, if_pos asks, verdict_cons asks, List.map_cons,
          List.append_assoc]
        exact ⟨rfl, rfl⟩
      cases reply with
      | failed error => exact again rfl _
      | raises => exact ⟨one, none.trans (List.append_nil _).symm⟩
      | status code =>
          by_cases server : 500 ≤ code
          · simp only [if_neg (show ¬code < 300 by omega), if_neg (show ¬code < 400 by omega),
              if_neg (show ¬code < 500 by omega)]
            exact again (decide_eq_true server) _
          · have stops : asksAgain (.status code) = false := decide_eq_false server
            rw [stops, if_neg Bool.false_ne_true]
            dsimp only
            split
            next sent =>
              rw [posts_record, audits_record, none, one]
              exact ⟨rfl, by rw [List.getLast?_singleton, verdict, if_pos sent]⟩
            next other =>
              have failed : verdict [Reply.status code].getLast? = [.callbackDeliveryFailed] := by
                rw [List.getLast?_singleton, verdict, if_neg other]
              rw [failed]
              split
              · rw [posts_record, audits_record, none, one]
                exact ⟨rfl, rfl⟩
              · rw [if_pos (show code < 500 by omega), posts_record, audits_record, none, one]
                exact ⟨rfl, rfl⟩

/-! ### Outcomes -/

/-- The last POST was answered with a status below 300. -/
def Delivered (trace : Trace) : Prop :=
  ∃ request code, (posts trace).getLast? = some (request, .status code) ∧ code < 300

/-- A delivery has one outcome on record. -/
structure OneOutcome (trace : Trace) : Prop where
  recorded : (audits trace).length = 1
  few : (posts trace).length ≤ maxRetries
  again : ∀ sent ∈ (posts trace).dropLast, asksAgain sent.2 = true
  sent : .callbackSent ∈ audits trace ↔ Delivered trace

/-- No attempt that is made ends with an exception that is not caught. -/
def Answered (request : Request) : Prop :=
  ∀ i < maxRetries, (∀ j < i, asksAgain (w.http j request) = true) → w.http i request ≠ .raises

theorem oneOutcome_deliverLoop {target : Target} {request : Request}
    (encoded : requestOf w target = some request) (safeUrl : Str) {trace : Trace}
    (unposted : posts trace = []) (unrecorded : audits trace = []) :
    OneOutcome (deliverLoop w target safeUrl maxRetries none trace).1 ↔ Answered w request := by
  obtain ⟨posted, audited⟩ := trace_deliverLoop w encoded safeUrl maxRetries none trace
  rw [unposted, List.nil_append, List.length_nil] at posted
  rw [unposted, unrecorded, List.nil_append, List.length_nil] at audited
  have raised : (answers w request maxRetries 0).getLast? = some .raises ↔ ¬Answered w request := by
    rw [answers, last_tries_iff rfl, Answered]
    simp only [Nat.zero_add]
    push Not
    rfl
  constructor
  · intro outcome
    by_contra unanswered
    have recorded := outcome.recorded
    rw [audited, raised.mpr unanswered] at recorded
    cases recorded
  · intro answered
    have ends : (answers w request maxRetries 0).getLast? ≠ some .raises :=
      fun last => raised.mp last answered
    refine ⟨?_, ?_, ?_, ?_⟩
    · rw [audited]
      generalize (answers w request maxRetries 0).getLast? = last at ends
      match last with
      | none | some (.failed _) => rfl
      | some .raises => exact absurd rfl ends
      | some (.status code) =>
          rw [verdict]
          split <;> rfl
    · rw [posted, List.length_map]
      exact length_tries_le
    · rw [posted, ← List.map_dropLast]
      rintro sent mem
      obtain ⟨reply, within, rfl⟩ := List.mem_map.mp mem
      exact again_of_mem_dropLast within
    · rw [audited, Delivered, posted, List.getLast?_map]
      generalize (answers w request maxRetries 0).getLast? = last at ends
      match last with
      | none => simp [verdict]
      | some (.failed _) => simp [verdict]
      | some .raises => exact absurd rfl ends
      | some (.status code) =>
          rw [verdict]
          split
          next small => simp [small]
          next large => simp [large]

/-! ### Deliveries -/

/-- The request that each attempt makes, to the address of the lookup if there is one. -/
def requestTo (parsed : ParseResult) (url : Str) : Option Str → Option Request
  | none => some ⟨url, none, none⟩
  | some ip => (pinned parsed ((parsed.hostname w.unicode).getD []) ip).bind (requestOf w)

/-- A pinned request can be made if the port is one and the host of an HTTPS URL has an
encoding. -/
theorem requestTo_isSome_iff (parsed : ParseResult) (url ip : Str) :
    (requestTo w parsed url (some ip)).isSome ↔ parsed.port.isSome ∧
      (isHttps parsed = true → (w.idna ((parsed.hostname w.unicode).getD [])).isSome) := by
  rw [requestTo, pinned]
  cases parsed.port with
  | none => simp
  | some given =>
      cases secure : isHttps parsed with
      | true => simp [requestOf]
      | false => simp [requestOf]

/-- The payload can be sent, the request can be made, and all its attempts are answered. -/
def Posts (url : Str) (payload : P) (parsed : ParseResult) (pinnedIp : Option Str) : Prop :=
  (serializePayloadBytes dumps payload).isSome ∧
    ∃ request, requestTo w parsed url pinnedIp = some request ∧ Answered w request

/-- The lookup refuses the host, or lets it through to requests that are all answered. -/
def Completes (allowPrivateIps : Bool) (url : Str) (payload : P) (parsed : ParseResult) : Prop :=
  if allowPrivateIps then Posts w dumps url payload parsed none
  else
    match (resolveSafe w ((parsed.hostname w.unicode).getD []) []).2 with
    | .error (.valueError _) => True
    | .error .other => False
    | .ok pinnedIp => Posts w dumps url payload parsed pinnedIp

/-- A URL that is accepted passes the checks before the lookup. -/
theorem parsed_of_accepted {u : Unicode} {url : Str} (accepted : Accepted u url) :
    ∃ parsed, urlparse u url = some parsed ∧
      parsed.scheme.map Char.toLower ∈ ["https".toList, "http".toList] ∧
      ¬(parsed.username.getD [] ≠ [] ∨ parsed.password.getD [] ≠ []) ∧
      (parsed.hostname u).getD [] ≠ [] := by
  obtain ⟨fieldName, allowInsecureHttp, confirmationFieldName, value, ok⟩ := accepted
  cases value with
  | none => exact absurd ok nofun
  | some value =>
      simp only [Configuration.validateCallbackUrlValue, bind_eq_ok, ensure_eq_ok, orReject_eq_ok,
        pure_eq_ok, Option.some.injEq] at ok
      obtain ⟨_, -, parsed, read, _, scheme, _, -, _, host, _, plain, rfl⟩ := ok
      refine ⟨parsed, read, List.mem_pair.mpr scheme, ?_, host⟩
      simpa only [Configuration.hasCredentials, decide_eq_true_eq] using plain

theorem oneOutcome_record {action : Action} {details : Details} {trace : Trace}
    (failed : action = .callbackDeliveryFailed) (unposted : posts trace = [])
    (unrecorded : audits trace = []) : OneOutcome (record action details trace).1 := by
  subst failed
  have posted : posts (record .callbackDeliveryFailed details trace).1 = [] := by
    rw [posts_record, unposted]
  have audited : audits (record .callbackDeliveryFailed details trace).1 =
      [.callbackDeliveryFailed] := by rw [audits_record, unrecorded, List.nil_append]
  refine ⟨by rw [audited]; rfl, by rw [posted]; exact Nat.zero_le _, ?_, ?_⟩
  · rw [posted]
    exact fun sent mem => absurd mem List.not_mem_nil
  · rw [audited, Delivered, posted]
    simp

/-- Without a record there is no outcome. -/
theorem not_oneOutcome {trace : Trace} (unrecorded : audits trace = []) : ¬OneOutcome trace := by
  intro outcome
  have recorded := outcome.recorded
  rw [unrecorded] at recorded
  cases recorded

/-- What follows the lookup, with the trace so far. -/
theorem oneOutcome_posts (url : Str) (payload : P) (parsed : ParseResult) (pinnedIp : Option Str)
    {trace : Trace} (safeUrl : Str) (unposted : posts trace = []) (unrecorded : audits trace = []) :
    OneOutcome (match serializePayloadBytes dumps payload with
      | none => (trace, .error .other)
      | some _ =>
          match pinnedIp with
          | none => deliverLoop w ⟨url, none, none⟩ safeUrl maxRetries none trace
          | some ip =>
              match pinned parsed ((parsed.hostname w.unicode).getD []) ip with
              | none => (trace, .error .other)
              | some target => deliverLoop w target safeUrl maxRetries none trace : Run).1 ↔
      Posts w dumps url payload parsed pinnedIp := by
  rw [Posts]
  cases serializePayloadBytes dumps payload with
  | none => exact iff_of_false (not_oneOutcome unrecorded) (fun sent => nomatch sent.1)
  | some content =>
      rw [and_iff_right (Option.isSome_some)]
      cases pinnedIp with
      | none =>
          have encoded : requestOf w ⟨url, none, none⟩ = some ⟨url, none, none⟩ := rfl
          dsimp only
          rw [oneOutcome_deliverLoop w encoded safeUrl unposted unrecorded]
          simp [requestTo]
      | some ip =>
          dsimp only
          rw [requestTo]
          cases pinned parsed ((parsed.hostname w.unicode).getD []) ip with
          | none => exact iff_of_false (not_oneOutcome unrecorded) fun ⟨_, made, _⟩ => nomatch made
          | some target =>
              rw [Option.bind_some]
              cases encoded : requestOf w target with
              | some request =>
                  dsimp only
                  rw [oneOutcome_deliverLoop w encoded safeUrl unposted unrecorded]
                  simp
              | none =>
                  refine iff_of_false (not_oneOutcome ?_) fun ⟨_, made, _⟩ => nomatch made
                  change audits (deliverLoop w target safeUrl (3 + 1) none trace).1 = []
                  rw [deliverLoop, encoded]
                  exact unrecorded

/-- The delivery to an accepted URL has exactly one outcome on record, and posts as it should,
exactly when nothing in it raises what is not caught. -/
theorem oneOutcome_iff {url : Str} (accepted : Accepted w.unicode url) (allowPrivateIps : Bool)
    (payload : P) :
    OneOutcome (doDeliver w dumps allowPrivateIps url payload).1 ↔
      ∃ parsed, urlparse w.unicode url = some parsed ∧
        Completes w dumps allowPrivateIps url payload parsed := by
  obtain ⟨parsed, read, scheme, plain, host⟩ := parsed_of_accepted accepted
  have only : (∃ other, urlparse w.unicode url = some other ∧
      Completes w dumps allowPrivateIps url payload other) ↔
        Completes w dumps allowPrivateIps url payload parsed := by simp [read]
  rw [only, doDeliver]
  simp only [read, if_neg (not_not_intro scheme), if_neg plain, if_neg host, Completes]
  cases allowPrivateIps with
  | true =>
      rw [if_pos rfl, if_pos rfl]
      exact oneOutcome_posts w dumps url payload parsed none _ (show posts [] = [] from rfl) rfl
  | false =>
      rw [if_neg Bool.false_ne_true, if_neg Bool.false_ne_true]
      match (resolveSafe w ((parsed.hostname w.unicode).getD []) []).2 with
      | .error (.valueError error) => exact iff_of_true (oneOutcome_record rfl rfl rfl) trivial
      | .error .other => exact iff_of_false (not_oneOutcome rfl) id
      | .ok pinnedIp =>
          exact oneOutcome_posts w dumps url payload parsed pinnedIp _
            (show posts [.lookup ((parsed.hostname w.unicode).getD [])] = [] from rfl) rfl

/-! ### Without the records -/

/-- The lookups and the POSTs alone. -/
def erase (trace : Trace) : Log :=
  trace.filterMap fun
    | .lookup host => some (.lookup host)
    | .post request _ => some (.post request)
    | .audit _ _ => none

/-- What a run ends with. -/
def ending (run : Run) : Ending :=
  match run.2, run.1.getLast? with
  | .ok (), some (.audit .callbackSent details) => .sent details
  | .ok (), some (.audit .callbackDeliveryFailed details) => .deliveryFailed details
  | _, _ => .raised

theorem erase_append (trace more : Trace) : erase (trace ++ more) = erase trace ++ erase more :=
  List.filterMap_append

theorem posts_erase (trace : Trace) :
    CallbackDelivery.posts (erase trace) = (posts trace).map Prod.fst := by
  rw [CallbackDelivery.posts, erase, posts, List.filterMap_filterMap, List.map_filterMap]
  congr 1
  funext event
  cases event <;> rfl

theorem erase_record (action : Action) (details : Details) (trace : Trace) :
    erase (record action details trace).1 = erase trace :=
  (erase_append _ _).trans (List.append_nil _)

theorem ending_sent (details : Details) (trace : Trace) :
    ending (record .callbackSent details trace) = .sent details := by
  rw [ending, record, List.getLast?_append_of_ne_nil _ (List.cons_ne_nil _ _)]
  rfl

theorem ending_failed (details : Details) (trace : Trace) :
    ending (record .callbackDeliveryFailed details trace) = .deliveryFailed details := by
  rw [ending, record, List.getLast?_append_of_ne_nil _ (List.cons_ne_nil _ _)]
  rfl

theorem deliverLoop_erase (target : Target) (safeUrl : Str) (left : Nat) (lastError : Option Str)
    (trace : Trace) :
    CallbackDelivery.deliverLoop w target safeUrl left lastError (erase trace) =
      (erase (deliverLoop w target safeUrl left lastError trace).1,
        ending (deliverLoop w target safeUrl left lastError trace)) := by
  induction left generalizing lastError trace with
  | zero => rw [deliverLoop, erase_record, ending_failed, CallbackDelivery.deliverLoop]
  | succ left ih =>
      have sent : send w target (erase trace) = match requestOf w target with
          | none => (erase trace, .raises)
          | some request => (erase (trace ++ [.post request (w.http (posts trace).length request)]),
              w.http (posts trace).length request) := by
        have count : (CallbackDelivery.posts (erase trace)).length = (posts trace).length := by
          rw [posts_erase, List.length_map]
        rw [send, requestOf]
        cases target.sniHostname with
        | none =>
            dsimp only
            rw [CallbackDelivery.post, count, erase_append]
            rfl
        | some name =>
            dsimp only
            cases w.idna name with
            | none => rfl
            | some encoded =>
                dsimp only [Option.map_some]
                rw [CallbackDelivery.post, count, erase_append]
                rfl
      rw [CallbackDelivery.deliverLoop, sent, deliverLoop]
      cases requestOf w target with
      | none => rfl
      | some request =>
          dsimp only [post]
          generalize w.http (posts trace).length request = reply
          cases reply with
          | failed error => exact ih _ _
          | raises => rfl
          | status code =>
              dsimp only
              split
              · rw [erase_record, ending_sent]
              split
              · rw [erase_record, ending_failed]
              split
              · rw [erase_record, ending_failed]
              · exact ih _ _

/-- A payload that can be sent changes nothing else: the lookups, the POSTs and the ending are
those of a delivery without one. -/
theorem doDeliver_erase {payload : P} (serializes : (serializePayloadBytes dumps payload).isSome)
    (allowPrivateIps : Bool) (url : Str) :
    CallbackDelivery.doDeliver w allowPrivateIps url =
      (erase (doDeliver w dumps allowPrivateIps url payload).1,
        ending (doDeliver w dumps allowPrivateIps url payload)) := by
  obtain ⟨content, eq⟩ := Option.isSome_iff_exists.mp serializes
  have blocked : ∀ (details : Details) (trace : Trace),
      (erase trace, Ending.deliveryFailed details) =
        (erase (record .callbackDeliveryFailed details trace).1,
          ending (record .callbackDeliveryFailed details trace)) := fun details trace => by
    rw [erase_record, ending_failed]
  rw [CallbackDelivery.doDeliver, doDeliver]
  simp only [eq]
  cases urlparse w.unicode url with
  | none => exact blocked _ []
  | some parsed =>
      dsimp only
      by_cases scheme : parsed.scheme.map Char.toLower ∉ ["https".toList, "http".toList]
      · rw [if_pos scheme, if_pos scheme]
        exact blocked _ []
      rw [if_neg scheme, if_neg scheme]
      by_cases userinfo : parsed.username.getD [] ≠ [] ∨ parsed.password.getD [] ≠ []
      · rw [if_pos userinfo, if_pos userinfo]
        exact blocked _ []
      rw [if_neg userinfo, if_neg userinfo]
      by_cases host : (parsed.hostname w.unicode).getD [] = []
      · rw [if_pos host, if_pos host]
        exact blocked _ []
      rw [if_neg host, if_neg host]
      cases allowPrivateIps with
      | true => exact deliverLoop_erase w _ _ _ _ []
      | false =>
          have looked : resolveSafe w ((parsed.hostname w.unicode).getD []) [] =
              ([.lookup ((parsed.hostname w.unicode).getD [])],
                (resolveSafe w ((parsed.hostname w.unicode).getD []) []).2) := rfl
          rw [if_neg Bool.false_ne_true, if_neg Bool.false_ne_true, looked]
          generalize (resolveSafe w ((parsed.hostname w.unicode).getD []) []).2 = answer
          cases answer with
          | error failure =>
              cases failure with
              | valueError error => exact blocked _ [.lookup _]
              | other => rfl
          | ok address =>
              cases address with
              | none => exact deliverLoop_erase w _ _ _ _ [.lookup _]
              | some ip =>
                  dsimp only
                  cases pinned parsed ((parsed.hostname w.unicode).getD []) ip with
                  | none => rfl
                  | some target => exact deliverLoop_erase w _ _ _ _ [.lookup _]

end Deliver

/-- The JSON text of a payload that has an event only. -/
def eventText (event : Str) : Option PyText :=
  some (ofStr ('\x7b' :: (Json.quoted "event".toList ++ ':' :: Json.quoted event ++ ['\x7d'])))

/-- The busy receiver takes the second POST. -/
theorem oneOutcome_iff_busyReceiver :
    OneOutcome (doDeliver busyReceiver eventText false "https://receiver.example:8443/hook".toList
      "JOB_COMPLETED".toList).1 := by
  have accepted : Accepted busyReceiver.unicode "https://receiver.example:8443/hook".toList :=
    ⟨"callback_url", false, "allow_insecure_callback_url",
      some "https://receiver.example:8443/hook".toList, by decide +kernel⟩
  have resolved : (resolveSafe busyReceiver "receiver.example".toList []).2 =
      .ok (some "93.184.216.34".toList) := by decide +kernel
  refine (oneOutcome_iff busyReceiver eventText accepted false _).mpr
    ⟨⟨"https".toList, "receiver.example:8443".toList, "/hook".toList, [], [], []⟩,
      by decide +kernel, ?_⟩
  have host : (ParseResult.hostname
      ⟨"https".toList, "receiver.example:8443".toList, "/hook".toList, [], [], []⟩
      busyReceiver.unicode).getD [] = "receiver.example".toList := by decide +kernel
  rw [Completes, if_neg Bool.false_ne_true, host, resolved]
  refine ⟨by decide +kernel, ⟨"https://93.184.216.34:8443/hook".toList,
    some "receiver.example:8443".toList, some "receiver.example".toList⟩, by decide +kernel, ?_⟩
  intro i _ _
  cases i with
  | zero => exact nofun
  | succ i => exact nofun

/-- The validation does not look at the port, which the delivery cannot read. -/
theorem port_unrecorded :
    Accepted busyReceiver.unicode "https://receiver.example:99999/hook".toList ∧
      (doDeliver busyReceiver eventText false "https://receiver.example:99999/hook".toList
        "JOB_COMPLETED".toList).1 = [.lookup "receiver.example".toList] ∧
      ¬OneOutcome (doDeliver busyReceiver eventText false
        "https://receiver.example:99999/hook".toList "JOB_COMPLETED".toList).1 := by
  have trace : (doDeliver busyReceiver eventText false
      "https://receiver.example:99999/hook".toList "JOB_COMPLETED".toList).1 =
        [.lookup "receiver.example".toList] := by decide +kernel
  refine ⟨⟨"callback_url", false, "allow_insecure_callback_url",
    some "https://receiver.example:99999/hook".toList, by decide +kernel⟩, trace, ?_⟩
  rw [trace]
  exact not_oneOutcome rfl

end Ecube.CallbackOutcome
