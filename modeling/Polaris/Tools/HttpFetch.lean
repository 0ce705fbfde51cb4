import Mathlib.Logic.Relation
import Polaris.Library.Binary64
import Polaris.Library.PyText
import Polaris.Providers.Base

namespace Polaris.HTTPFetch
open PyJson Relation

/-! What Python, the resolver and `httpx` answer. -/

inductive FetchError where
  | httpFetchError (message : String)
  | httpSSRFError (message : String)
  | httpResponseTooLargeError (message : String)
  | timeoutError
  | httpError
  | invalidURL
  | valueError
  | unicodeError
  | overflowError
deriving DecidableEq

/-- The last two are classes below the first. -/
def FetchError.isHTTPFetchError : FetchError → Bool
  | .httpFetchError _ | .httpSSRFError _ | .httpResponseTooLargeError _ => true
  | _ => false

/-- A port that is no number, or none of 16 bits, fails when it is read. -/
structure SplitResult where
  scheme : String
  hostname : Option PyText
  username : Option PyText
  password : Option PyText
  port : Option (Option ℕ)

structure IpAddress where
  isPrivate : Bool
  isLoopback : Bool
  isLinkLocal : Bool
  isMulticast : Bool
  isReserved : Bool
  isUnspecified : Bool

/-- `bytes.decode` with `errors="replace"`; the codecs that know no such handler raise. -/
inductive Decoded where
  | text (t : PyText)
  | lookupError
  | unicodeError

/-- `none` is a `ValueError`, and of `httpx.URL` an exception that is no `HTTPError`. -/
structure Libraries where
  urlsplit : PyText → Option SplitResult
  urljoin : String → String → Option PyText
  ipAddress : PyText → Option IpAddress
  url : PyText → Option String
  lower : PyText → PyText
  decode : List UInt8 → String → Decoded

inductive Ending where
  | complete
  | failed
  | timedOut

structure Response where
  status : ℕ
  isRedirect : Bool
  location : Option String
  contentType : Option String
  encoding : Option String
  chunks : List (List UInt8)
  ending : Ending

inductive Answer where
  | response (response : Response)
  | failed
  | timedOut

/-- The resolver fails with one of the exceptions that are caught; `expires` says whether the time
of the call is over while a target is being resolved. -/
structure Network where
  getaddrinfo : PyText → ℕ → Option (List PyText)
  expires : ℕ → Bool
  answer : ℕ → Answer

/-! The adapter. -/

structure HTTPFetchTool where
  allowPrivate : Bool
  timeout : ℚ
  maxResponseBytes : ℕ
  maxRedirects : ℕ
  timeout_pos : 0 < timeout
  maxResponseBytes_pos : 0 < maxResponseBytes

structure HttpResult where
  status : ℕ
  finalUrl : String
  contentType : String
  content : PyText
  encoding : String
  size : ℕ
  redirects : ℕ
deriving DecidableEq

/-- A URL that was let through, and the one that `httpx` reads it as. -/
structure Request where
  url : PyText
  target : String

structure Fetched where
  requests : List Request
  outcome : Except FetchError HttpResult

def blockedAddress (address : IpAddress) : Bool :=
  address.isPrivate || address.isLoopback || address.isLinkLocal || address.isMulticast ||
    address.isReserved || address.isUnspecified

section Validation
variable (tool : HTTPFetchTool) (lib : Libraries) (network : Network)

/-- The name under which a host is looked up. -/
def targetName (hostname : PyText) : PyText :=
  lib.lower (hostname.rdropWhile (· = CodePoint.ofChar '.'))

def portOf (parsed : SplitResult) : Option ℕ :=
  parsed.port.map fun port =>
    match port with
    | none | some 0 => if parsed.scheme = "https" then 443 else 80
    | some port => port

def resolve (parsed : SplitResult) (name : PyText) : Option (List PyText) :=
  (portOf parsed).bind (network.getaddrinfo name)

def privateTarget : FetchError := .httpSSRFError "private HTTP targets are disabled"

def checkRecords : List PyText → Except FetchError Unit
  | [] => .ok ()
  | record :: records =>
      match lib.ipAddress record with
      | none => .error (.httpFetchError "HTTP target resolved to an invalid address")
      | some address =>
          if blockedAddress address then .error privateTarget else checkRecords records

def isLocalName (name : PyText) : Bool :=
  name = PyText.ofString "localhost" || (PyText.ofString ".localhost").isSuffixOf name

def checkTarget (hop : ℕ) (parsed : SplitResult) (name : PyText) : Except FetchError Unit :=
  if isLocalName name then .error privateTarget
  else
    match lib.ipAddress name with
    | some literal => if blockedAddress literal then .error privateTarget else .ok ()
    | none =>
        if network.expires hop then .error .timeoutError
        else
          match resolve network parsed name with
          | none | some [] => .error (.httpFetchError "HTTP target could not be resolved")
          | some records => checkRecords lib records

def openUrl (url : PyText) : Except FetchError String :=
  (lib.url url).elim (.error .invalidURL) .ok

def validateUrl (hop : ℕ) (url : PyText) : Except FetchError String :=
  match lib.urlsplit url with
  | none => .error (.httpFetchError "URL is invalid")
  | some parsed =>
      let hostname := parsed.hostname.getD []
      if parsed.scheme ∉ ["http", "https"] ∨ hostname = [] then
        .error (.httpSSRFError "only HTTP and HTTPS URLs are allowed")
      else if parsed.username.isSome || parsed.password.isSome then
        .error (.httpSSRFError "URL credentials are not allowed")
      else if tool.allowPrivate then openUrl lib url
      else do
        checkTarget lib network hop parsed (targetName lib hostname)
        openUrl lib url

end Validation

section Answers
variable (tool : HTTPFetchTool) (lib : Libraries)

def readBody (limit : ℕ) (ending : Ending) (body : List UInt8) :
    List (List UInt8) → Except FetchError (List UInt8)
  | [] =>
      match ending with
      | .complete => .ok body
      | .failed => .error .httpError
      | .timedOut => .error .timeoutError
  | chunk :: chunks =>
      if limit < body.length + chunk.length then
        .error (.httpResponseTooLargeError "HTTP response exceeds the configured byte limit")
      else readBody limit ending (body ++ chunk) chunks

def mediaType (contentType : String) : PyText :=
  lib.lower (PyText.ofString (pyStrip (String.ofList (contentType.toList.takeWhile (· ≠ ';')))))

def isTextual (mediaType : PyText) : Bool :=
  (PyText.ofString "text/").isPrefixOf mediaType ||
    (PyText.ofString "+json").isSuffixOf mediaType ||
    (PyText.ofString "+xml").isSuffixOf mediaType ||
    mediaType ∈
      ["application/json", "application/javascript", "application/xml"].map PyText.ofString

def base64Digit (n : ℕ) : Char :=
  "ABCDEFGHIJKLMNOPQRSTUVWXYZabcdefghijklmnopqrstuvwxyz0123456789+/".toList.getD n '='

def b64encode : List UInt8 → List Char
  | [] => []
  | [a] => [base64Digit (a.toNat / 4), base64Digit (a.toNat % 4 * 16), '=', '=']
  | [a, b] =>
      [base64Digit (a.toNat / 4), base64Digit (a.toNat % 4 * 16 + b.toNat / 16),
        base64Digit (b.toNat % 16 * 4), '=']
  | a :: b :: c :: rest =>
      base64Digit (a.toNat / 4) :: base64Digit (a.toNat % 4 * 16 + b.toNat / 16) ::
        base64Digit (b.toNat % 16 * 4 + c.toNat / 64) :: base64Digit (c.toNat % 64) ::
        b64encode rest

/-- `response.encoding or "utf-8"` -/
def encodingOf (response : Response) : String :=
  match response.encoding with
  | none | some "" => "utf-8"
  | some encoding => encoding

def contentOf (response : Response) (body : List UInt8) : Except FetchError (PyText × String) :=
  if isTextual (mediaType lib (response.contentType.getD "")) then
    match lib.decode body (encodingOf response) with
    | .text content => .ok (content, encodingOf response)
    | .lookupError => .error (.httpFetchError "HTTP response declared an unknown encoding")
    | .unicodeError => .error .unicodeError
  else .ok (PyText.ofString (String.ofList (b64encode body)), "base64")

def resultOf (current : Request) (redirects : ℕ) (response : Response) :
    Except FetchError HttpResult := do
  let body ← readBody tool.maxResponseBytes response.ending [] response.chunks
  let (content, encoding) ← contentOf lib response body
  return ⟨response.status, current.target, response.contentType.getD "", content, encoding,
    body.length, redirects⟩

end Answers

section Fetch
variable (tool : HTTPFetchTool) (lib : Libraries) (network : Network)

/-- The loop of `_fetch_url`. -/
def follow (current : Request) (redirects : ℕ) : Fetched :=
  match network.answer redirects with
  | .timedOut => ⟨[current], .error .timeoutError⟩
  | .failed => ⟨[current], .error .httpError⟩
  | .response response =>
      if response.isRedirect then
        match response.location with
        | none => ⟨[current], .error (.httpFetchError "redirect response has no location")⟩
        | some location =>
            if _ : tool.maxRedirects ≤ redirects then
              ⟨[current], .error (.httpFetchError "HTTP redirect limit exceeded")⟩
            else
              match lib.urljoin current.target location with
              | none => ⟨[current], .error .valueError⟩
              | some url =>
                  match validateUrl tool lib network (redirects + 1) url with
                  | .error e => ⟨[current], .error e⟩
                  | .ok target =>
                      let rest := follow ⟨url, target⟩ (redirects + 1)
                      ⟨current :: rest.requests, rest.outcome⟩
      else ⟨[current], resultOf tool lib current redirects response⟩
termination_by tool.maxRedirects - redirects

def fetchUrl (rawUrl : PyText) : Fetched :=
  match validateUrl tool lib network 0 rawUrl with
  | .error e => ⟨[], .error e⟩
  | .ok target => follow tool lib network ⟨rawUrl, target⟩ 0

/-- The except clauses of `fetch`. -/
def reported : FetchError → FetchError
  | .timeoutError => .httpFetchError "HTTP request timed out"
  | .httpError => .httpFetchError "HTTP request failed"
  | e => e

inductive PyReal where
  | finite (q : ℚ)
  | infinite (negative : Bool)
  | nan

inductive Argument where
  | none
  | bool (b : Bool)
  | int (n : ℤ)
  | float (x : PyReal)
  | str (t : PyText)
  | other

def argument (name : String) (arguments : List (String × Argument)) : Argument :=
  (arguments.lookup name).getD .none

def urlOf : Argument → Except FetchError PyText
  | .str rawUrl =>
      if rawUrl = [] ∨ CodePoint.ofChar '\x00' ∈ rawUrl then
        .error (.httpFetchError "url must be a non-empty string without NUL")
      else .ok rawUrl
  | _ => .error (.httpFetchError "url must be a non-empty string without NUL")

def outsideLimit : FetchError := .httpFetchError "timeout is outside the configured limit"

/-- `math.isfinite` takes a whole number as the nearest double. -/
def toDouble (n : ℤ) : Except FetchError ℚ :=
  (Binary64.nearest n).elim (.error .overflowError) .ok

def withinLimit (value timeout : ℚ) : Except FetchError ℚ :=
  if value ≤ 0 ∨ tool.timeout < value then .error outsideLimit else .ok timeout

def timeoutOf : Argument → Except FetchError ℚ
  | .none => .ok tool.timeout
  | .int n => (toDouble n).bind (withinLimit tool n)
  | .float (.finite q) => withinLimit tool q q
  | _ => .error outsideLimit

def checkArguments (arguments : List (String × Argument)) : Except FetchError PyText := do
  let rawUrl ← urlOf (argument "url" arguments)
  -- how long the call may take shows in the answers of the network only
  let _ ← timeoutOf tool (argument "timeout" arguments)
  return rawUrl

def fetch (arguments : List (String × Argument)) : Fetched :=
  match checkArguments tool arguments with
  | .error e => ⟨[], .error e⟩
  | .ok rawUrl =>
      let fetched := fetchUrl tool lib network rawUrl
      ⟨fetched.requests, fetched.outcome.mapError reported⟩

end Fetch

/-! The targets that are let through. -/

variable {tool : HTTPFetchTool} {lib : Libraries} {network : Network}

/-- The addresses of a host: its own when it is a literal, else those that it resolves to. -/
def addresses (lib : Libraries) (network : Network) (parsed : SplitResult) (name : PyText) :
    Option (List IpAddress) :=
  match lib.ipAddress name with
  | some literal => some [literal]
  | none => (resolve network parsed name).bind (·.mapM lib.ipAddress)

structure IsPublic (lib : Libraries) (network : Network) (parsed : SplitResult) (name : PyText) :
    Prop where
  notLocal : isLocalName name = false
  resolved : ∃ as, addresses lib network parsed name = some as ∧ as ≠ [] ∧
    ∀ address ∈ as, blockedAddress address = false

structure IsHttp (lib : Libraries) (url : PyText) (parsed : SplitResult) (hostname : PyText) :
    Prop where
  split : lib.urlsplit url = some parsed
  scheme : parsed.scheme = "http" ∨ parsed.scheme = "https"
  host : parsed.hostname = some hostname
  nonempty : hostname ≠ []
  username : parsed.username = none
  password : parsed.password = none

def IsAllowed (tool : HTTPFetchTool) (lib : Libraries) (network : Network) (url : PyText) : Prop :=
  ∃ parsed hostname, IsHttp lib url parsed hostname ∧
    (tool.allowPrivate = false → IsPublic lib network parsed (targetName lib hostname))

/-- The time of the call does not end while the target is resolved. -/
def InTime (lib : Libraries) (network : Network) (hop : ℕ) (url : PyText) : Prop :=
  ∀ parsed hostname, IsHttp lib url parsed hostname →
    lib.ipAddress (targetName lib hostname) = none → network.expires hop = false

structure Passes (tool : HTTPFetchTool) (lib : Libraries) (network : Network) (hop : ℕ)
    (url : PyText) : Prop where
  allowed : IsAllowed tool lib network url
  inTime : tool.allowPrivate = false → InTime lib network hop url

theorem IsHttp.unique {url : PyText} {parsed parsed' : SplitResult} {hostname hostname' : PyText}
    (h : IsHttp lib url parsed hostname) (h' : IsHttp lib url parsed' hostname') :
    parsed = parsed' ∧ hostname = hostname' := by
  obtain rfl := Option.some.inj (h.split.symm.trans h'.split)
  exact ⟨rfl, Option.some.inj (h.host.symm.trans h'.host)⟩

/-- What `fetch` turns into an error of its own, or what is one. -/
def FetchError.isCaught (e : FetchError) : Bool := (reported e).isHTTPFetchError

theorem checkRecords_ok {records : List PyText} : checkRecords lib records = .ok () ↔
    ∃ as, records.mapM lib.ipAddress = some as ∧ ∀ a ∈ as, blockedAddress a = false := by
  induction records with
  | nil => simp [checkRecords]
  | cons record records ih =>
      simp only [List.mapM_cons, checkRecords]
      cases hrecord : lib.ipAddress record with
      | none => simp
      | some address =>
          cases hrest : records.mapM lib.ipAddress with
          | none => cases hblocked : blockedAddress address <;> simp [hblocked, ih, hrest]
          | some as => cases hblocked : blockedAddress address <;> simp [hblocked, ih, hrest]

theorem checkRecords_error {records : List PyText} {e : FetchError}
    (h : checkRecords lib records = .error e) : e.isCaught = true := by
  induction records with
  | nil => simp [checkRecords] at h
  | cons record records ih =>
      simp only [checkRecords] at h
      split at h
      · obtain rfl := Except.error.inj h
        rfl
      · split at h
        · obtain rfl := Except.error.inj h
          rfl
        · exact ih h

theorem checkTarget_ok {hop : ℕ} {parsed : SplitResult} {name : PyText} :
    checkTarget lib network hop parsed name = .ok () ↔ IsPublic lib network parsed name ∧
      (lib.ipAddress name = none → network.expires hop = false) := by
  unfold checkTarget
  cases hlocal : isLocalName name with
  | true =>
      simp only [if_true, reduceCtorEq, false_iff, not_and]
      intro h
      simp [h.notLocal] at hlocal
  | false =>
      have hpublic : IsPublic lib network parsed name ↔ ∃ as, addresses lib network parsed name =
          some as ∧ as ≠ [] ∧ ∀ address ∈ as, blockedAddress address = false :=
        ⟨fun h => h.resolved, fun h => ⟨hlocal, h⟩⟩
      rw [hpublic]
      unfold addresses
      cases hliteral : lib.ipAddress name with
      | some literal => cases hblocked : blockedAddress literal <;> simp [hblocked]
      | none =>
          cases hexpires : network.expires hop with
          | true => simp
          | false =>
              rcases hresolve : resolve network parsed name with _ | _ | ⟨record, records⟩
              · simp
              · simp
              · simp only [Bool.false_eq_true, if_false, checkRecords_ok, Option.bind_some,
                  forall_const, and_true]
                refine exists_congr fun as => and_congr_right fun has => ?_
                have hne : as ≠ [] := by
                  rintro rfl
                  cases hrecord : lib.ipAddress record <;>
                    cases hrecords : records.mapM lib.ipAddress <;>
                    simp [List.mapM_cons, hrecord, hrecords] at has
                simp [hne]

theorem checkTarget_error {hop : ℕ} {parsed : SplitResult} {name : PyText} {e : FetchError}
    (h : checkTarget lib network hop parsed name = .error e) : e.isCaught = true := by
  simp only [checkTarget] at h
  split at h
  · obtain rfl := Except.error.inj h
    rfl
  · split at h
    · split at h
      · obtain rfl := Except.error.inj h
        rfl
      · simp at h
    · split at h
      · obtain rfl := Except.error.inj h
        rfl
      · split at h
        · obtain rfl := Except.error.inj h
          rfl
        · obtain rfl := Except.error.inj h
          rfl
        · exact checkRecords_error h

theorem validateUrl_passes {hop : ℕ} {url : PyText} (h : Passes tool lib network hop url) :
    validateUrl tool lib network hop url = openUrl lib url := by
  obtain ⟨parsed, hostname, hhttp, hpublic⟩ := h.allowed
  have hscheme : ¬(parsed.scheme ∉ ["http", "https"] ∨ hostname = []) := by
    rcases hhttp.scheme with hscheme | hscheme <;> simp [hhttp.nonempty, hscheme]
  simp only [validateUrl, hhttp.split, hhttp.host, Option.getD_some]
  rw [if_neg hscheme, hhttp.username, hhttp.password]
  cases hprivate : tool.allowPrivate with
  | true => rfl
  | false =>
      have hcheck := checkTarget_ok.2 ⟨hpublic hprivate, h.inTime hprivate parsed hostname hhttp⟩
      rw [hcheck]
      rfl

theorem validateUrl_refuses {hop : ℕ} {url : PyText} (h : ¬ Passes tool lib network hop url) :
    ∃ e, validateUrl tool lib network hop url = .error e ∧ e.isCaught = true := by
  unfold validateUrl
  cases hsplit : lib.urlsplit url with
  | none => exact ⟨_, rfl, rfl⟩
  | some parsed =>
      dsimp only
      split
      · exact ⟨_, rfl, rfl⟩
      · rename_i hscheme
        split
        · exact ⟨_, rfl, rfl⟩
        · rename_i hcredentials
          obtain ⟨hscheme, hhost⟩ := not_or.1 hscheme
          obtain ⟨hostname, hsome⟩ : ∃ hostname, parsed.hostname = some hostname := by
            cases hnone : parsed.hostname with
            | none => simp [hnone] at hhost
            | some hostname => exact ⟨hostname, rfl⟩
          rw [hsome, Option.getD_some] at hhost ⊢
          have hhttp : IsHttp lib url parsed hostname :=
            ⟨hsplit, by simpa using not_not.1 hscheme, hsome, hhost, by simp_all, by simp_all⟩
          cases hprivate : tool.allowPrivate with
          | true =>
              have hallowed : IsAllowed tool lib network url :=
                ⟨parsed, hostname, hhttp, by simp [hprivate]⟩
              exact absurd ⟨hallowed, by simp [hprivate]⟩ h
          | false =>
              cases hcheck : checkTarget lib network hop parsed (targetName lib hostname) with
              | error e => exact ⟨e, rfl, checkTarget_error hcheck⟩
              | ok u =>
                  obtain ⟨hpublic, htime⟩ := checkTarget_ok.1 hcheck
                  refine absurd ⟨⟨parsed, hostname, hhttp, fun _ => hpublic⟩, fun _ => ?_⟩ h
                  intro parsed' hostname' hhttp'
                  obtain ⟨rfl, rfl⟩ := hhttp.unique hhttp'
                  exact htime

theorem validateUrl_ok {hop : ℕ} {url : PyText} {target : String} :
    validateUrl tool lib network hop url = .ok target ↔
      Passes tool lib network hop url ∧ lib.url url = some target := by
  by_cases hpasses : Passes tool lib network hop url
  · rw [validateUrl_passes hpasses, openUrl]
    cases lib.url url <;> simp [hpasses]
  · obtain ⟨e, he, -⟩ := validateUrl_refuses hpasses
    simp [he, hpasses]

/-! The body of an answer. -/

theorem readBody_ok {limit : ℕ} {ending : Ending} {body content : List UInt8}
    {chunks : List (List UInt8)} (hbody : body.length ≤ limit) :
    readBody limit ending body chunks = .ok content ↔
      ending = .complete ∧ content = body ++ chunks.flatten ∧ content.length ≤ limit := by
  induction chunks generalizing body with
  | nil =>
      cases ending <;> simp only [readBody, List.flatten_nil, List.append_nil, true_and, false_and,
        reduceCtorEq, Except.ok.injEq]
      exact ⟨fun h => ⟨h.symm, h ▸ hbody⟩, fun h => h.1.symm⟩
  | cons chunk chunks ih =>
      simp only [readBody, List.flatten_cons]
      split
      · rename_i hlong
        simp only [reduceCtorEq, false_iff, not_and]
        rintro - rfl
        simp only [List.length_append]
        omega
      · rename_i hshort
        have hnext : (body ++ chunk).length ≤ limit := by
          rw [List.length_append]
          omega
        rw [ih hnext, List.append_assoc]

theorem readBody_whole {limit : ℕ} {ending : Ending} {content : List UInt8}
    {chunks : List (List UInt8)} : readBody limit ending [] chunks = .ok content ↔
      ending = .complete ∧ content = chunks.flatten ∧ content.length ≤ limit :=
  readBody_ok (Nat.zero_le _)

theorem readBody_error {limit : ℕ} {ending : Ending} {body : List UInt8}
    {chunks : List (List UInt8)} {e : FetchError}
    (h : readBody limit ending body chunks = .error e) : e.isCaught = true := by
  induction chunks generalizing body with
  | nil => cases ending <;> simp [readBody] at h <;> subst h <;> rfl
  | cons chunk chunks ih =>
      simp only [readBody] at h
      split at h
      · obtain rfl := Except.error.inj h
        rfl
      · exact ih h

/-- The result of a response that has been read to its end. -/
structure Carries (tool : HTTPFetchTool) (lib : Libraries) (get : Request) (response : Response)
    (result : HttpResult) : Prop where
  complete : response.ending = .complete
  size : result.size = response.chunks.flatten.length
  within : result.size ≤ tool.maxResponseBytes
  content : contentOf lib response response.chunks.flatten = .ok (result.content, result.encoding)
  status : result.status = response.status
  finalUrl : result.finalUrl = get.target
  contentType : result.contentType = response.contentType.getD ""

/-- The text of the body is declared in an encoding whose codec raises a `UnicodeError`. -/
structure Undecodable (tool : HTTPFetchTool) (lib : Libraries) (response : Response) : Prop where
  complete : response.ending = .complete
  within : response.chunks.flatten.length ≤ tool.maxResponseBytes
  textual : isTextual (mediaType lib (response.contentType.getD "")) = true
  codec : lib.decode response.chunks.flatten (encodingOf response) = .unicodeError

theorem resultOf_ok {current : Request} {redirects : ℕ} {response : Response} {result : HttpResult}
    (h : resultOf tool lib current redirects response = .ok result) :
    Carries tool lib current response result ∧ result.redirects = redirects := by
  unfold resultOf at h
  cases hbody : readBody tool.maxResponseBytes response.ending [] response.chunks with
  | error e => simp [hbody, bind, Except.bind] at h
  | ok body =>
      obtain ⟨hcomplete, rfl, hwithin⟩ := readBody_whole.1 hbody
      cases hcontent : contentOf lib response response.chunks.flatten with
      | error e =>
          rw [hbody] at h
          simp [bind, Except.bind, hcontent] at h
      | ok content =>
          rw [hbody] at h
          simp only [bind, Except.bind, hcontent, pure, Except.pure] at h
          obtain rfl := Except.ok.inj h
          exact ⟨⟨hcomplete, rfl, hwithin, hcontent, rfl, rfl, rfl⟩, rfl⟩

theorem contentOf_error {response : Response} {body : List UInt8} {e : FetchError}
    (h : contentOf lib response body = .error e) : e.isCaught = false ↔
      isTextual (mediaType lib (response.contentType.getD "")) = true ∧
        lib.decode body (encodingOf response) = .unicodeError := by
  unfold contentOf at h
  split at h
  · rename_i htextual
    cases hdecode : lib.decode body (encodingOf response) with
    | text content => simp [hdecode] at h
    | lookupError =>
        rw [hdecode] at h
        obtain rfl := Except.error.inj h
        simp [FetchError.isCaught, reported, FetchError.isHTTPFetchError]
    | unicodeError =>
        rw [hdecode] at h
        obtain rfl := Except.error.inj h
        simp [FetchError.isCaught, reported, FetchError.isHTTPFetchError, htextual]
  · simp at h

theorem resultOf_escapes {current : Request} {redirects : ℕ} {response : Response} :
    (∃ e, resultOf tool lib current redirects response = .error e ∧ e.isCaught = false) ↔
      Undecodable tool lib response := by
  unfold resultOf
  cases hbody : readBody tool.maxResponseBytes response.ending [] response.chunks with
  | error e =>
      have hcaught := readBody_error hbody
      constructor
      · rintro ⟨e', he', hescapes⟩
        obtain rfl := Except.error.inj he'
        simp [hcaught] at hescapes
      · intro h
        rw [readBody_whole.2 ⟨h.complete, rfl, h.within⟩] at hbody
        simp at hbody
  | ok body =>
      obtain ⟨hcomplete, rfl, hwithin⟩ := readBody_whole.1 hbody
      simp only [bind, Except.bind]
      cases hcontent : contentOf lib response response.chunks.flatten with
      | error e =>
          have hescapes := contentOf_error hcontent
          constructor
          · rintro ⟨e', he', hcaught⟩
            obtain rfl := Except.error.inj he'
            obtain ⟨htextual, hcodec⟩ := hescapes.1 hcaught
            exact ⟨hcomplete, hwithin, htextual, hcodec⟩
          · intro h
            exact ⟨e, rfl, hescapes.2 ⟨h.textual, h.codec⟩⟩
      | ok content =>
          constructor
          · rintro ⟨e', he', -⟩
            simp [pure, Except.pure] at he'
          · intro h
            simp [contentOf, h.textual, h.codec] at hcontent

/-! The chain of the hops. -/

/-- The number of redirects before it, and its URL. -/
abbrev Hop := ℕ × PyText

/-- The hop is let through and answered with a redirect within the limit. -/
def Joins (tool : HTTPFetchTool) (lib : Libraries) (network : Network) (hop : Hop)
    (joined : Option PyText) : Prop :=
  Passes tool lib network hop.1 hop.2 ∧ hop.1 < tool.maxRedirects ∧
    ∃ target response location, lib.url hop.2 = some target ∧
      network.answer hop.1 = .response response ∧ response.isRedirect = true ∧
      response.location = some location ∧ lib.urljoin target location = joined

def Redirects (tool : HTTPFetchTool) (lib : Libraries) (network : Network) (hop next : Hop) :
    Prop :=
  Joins tool lib network hop (some next.2) ∧ next.1 = hop.1 + 1

inductive EscapesAt (tool : HTTPFetchTool) (lib : Libraries) (network : Network) (hop : Hop) : Prop
  | url (passes : Passes tool lib network hop.1 hop.2) (refused : lib.url hop.2 = none)
  | location (malformed : Joins tool lib network hop none)
  | body (response : Response) (passes : Passes tool lib network hop.1 hop.2)
      (accepted : lib.url hop.2 ≠ none) (answered : network.answer hop.1 = .response response)
      (direct : response.isRedirect = false) (undecodable : Undecodable tool lib response)

def Escapes (tool : HTTPFetchTool) (lib : Libraries) (network : Network) (hop : Hop) : Prop :=
  ∃ last, ReflTransGen (Redirects tool lib network) hop last ∧ EscapesAt tool lib network last

theorem escapes_iff {hop : Hop} : Escapes tool lib network hop ↔ EscapesAt tool lib network hop ∨
    ∃ next, Redirects tool lib network hop next ∧ Escapes tool lib network next := by
  constructor
  · rintro ⟨last, hchain, hlast⟩
    rcases ReflTransGen.cases_head hchain with rfl | ⟨next, hstep, hrest⟩
    · exact .inl hlast
    · exact .inr ⟨next, hstep, last, hrest, hlast⟩
  · rintro (hhere | ⟨next, hstep, last, hrest, hlast⟩)
    · exact ⟨hop, .refl, hhere⟩
    · exact ⟨last, .head hstep hrest, hlast⟩

def Fetched.escapes (f : Fetched) : Prop := ∃ e, f.outcome = .error e ∧ e.isCaught = false

theorem not_escapes {requests : List Request} {e : FetchError} (h : e.isCaught = true) :
    ¬ Fetched.escapes ⟨requests, .error e⟩ := by
  rintro ⟨e', he', hescapes⟩
  obtain rfl := Except.error.inj he'
  simp [h] at hescapes

/-- A hop of the chain whose URL `httpx` has accepted. -/
structure Opened (tool : HTTPFetchTool) (lib : Libraries) (network : Network) (k : ℕ)
    (current : Request) : Prop where
  passes : Passes tool lib network k current.url
  target : lib.url current.url = some current.target

namespace Opened
variable {k : ℕ} {current : Request} {response : Response}

theorem joins_iff {joined : Option PyText} (h : Opened tool lib network k current)
    (hanswer : network.answer k = .response response) :
    Joins tool lib network (k, current.url) joined ↔ k < tool.maxRedirects ∧
      response.isRedirect = true ∧ ∃ location, response.location = some location ∧
        lib.urljoin current.target location = joined := by
  constructor
  · rintro ⟨-, hlimit, target, response', location, htarget, hanswer', hrest⟩
    obtain rfl := Option.some.inj (h.target.symm.trans htarget)
    obtain rfl := Answer.response.inj (hanswer.symm.trans hanswer')
    exact ⟨hlimit, hrest.1, location, hrest.2⟩
  · rintro ⟨hlimit, hredirect, location, hlocation⟩
    exact ⟨h.passes, hlimit, current.target, response, location, h.target, hanswer, hredirect,
      hlocation⟩

theorem not_joins {joined : Option PyText}
    (hanswer : ∀ response, network.answer k ≠ .response response) :
    ¬ Joins tool lib network (k, current.url) joined := by
  rintro ⟨-, -, target, response, location, -, hresponse, -⟩
  exact hanswer response hresponse

theorem escapesAt_iff (h : Opened tool lib network k current)
    (hanswer : network.answer k = .response response) :
    EscapesAt tool lib network (k, current.url) ↔ Joins tool lib network (k, current.url) none ∨
      response.isRedirect = false ∧ Undecodable tool lib response := by
  constructor
  · intro hescapes
    cases hescapes with
    | url passes refused => simp [h.target] at refused
    | location malformed => exact .inl malformed
    | body response' passes accepted answered direct undecodable =>
        obtain rfl := Answer.response.inj (hanswer.symm.trans answered)
        exact .inr ⟨direct, undecodable⟩
  · rintro (hjoins | ⟨hdirect, hundecodable⟩)
    · exact .location hjoins
    · exact .body response h.passes (by simp [h.target]) hanswer hdirect hundecodable

theorem not_escapesAt (h : Opened tool lib network k current)
    (hanswer : ∀ response, network.answer k ≠ .response response) :
    ¬ EscapesAt tool lib network (k, current.url) := by
  intro hescapes
  cases hescapes with
  | url passes refused => simp [h.target] at refused
  | location malformed => exact not_joins hanswer malformed
  | body response passes accepted answered direct undecodable => exact hanswer response answered

theorem escapes_iff_next (h : Opened tool lib network k current) {location : String}
    (hanswer : network.answer k = .response response) (hredirect : response.isRedirect = true)
    (hlocation : response.location = some location) (hlimit : k < tool.maxRedirects)
    {next : PyText} (hjoined : lib.urljoin current.target location = some next) :
    Escapes tool lib network (k, current.url) ↔ Escapes tool lib network (k + 1, next) := by
  rw [escapes_iff, h.escapesAt_iff hanswer, h.joins_iff hanswer]
  constructor
  · rintro ((⟨-, -, location', hlocation', hnone⟩ | ⟨hdirect, -⟩) |
      ⟨⟨n, url⟩, ⟨hjoins, hn⟩, hescapes⟩)
    · obtain rfl := Option.some.inj (hlocation.symm.trans hlocation')
      simp [hjoined] at hnone
    · simp [hredirect] at hdirect
    · obtain ⟨-, -, location', hlocation', hsome⟩ := (h.joins_iff hanswer).1 hjoins
      obtain rfl := Option.some.inj (hlocation.symm.trans hlocation')
      obtain rfl : next = url := Option.some.inj (hjoined.symm.trans hsome)
      obtain rfl : n = k + 1 := hn
      exact hescapes
  · intro hescapes
    exact .inr ⟨(k + 1, next),
      ⟨(h.joins_iff hanswer).2 ⟨hlimit, hredirect, location, hlocation, hjoined⟩, rfl⟩, hescapes⟩

end Opened

theorem escapes_iff_here {hop : Hop} (h : ∀ next, ¬ Joins tool lib network hop (some next)) :
    Escapes tool lib network hop ↔ EscapesAt tool lib network hop := by
  rw [escapes_iff]
  exact or_iff_left fun ⟨next, hstep, _⟩ => h next.2 hstep.1

theorem escapes_of_refused {k : ℕ} {url : PyText} (h : ¬ Passes tool lib network k url) :
    ¬ Escapes tool lib network (k, url) := by
  rw [escapes_iff]
  rintro (hescapes | ⟨next, ⟨hjoins, -⟩, -⟩)
  · cases hescapes with
    | url passes refused => exact h passes
    | location malformed => exact h malformed.1
    | body response passes accepted answered direct undecodable => exact h passes
  · exact h hjoins.1

theorem escapes_of_invalid {k : ℕ} {url : PyText} (h : Passes tool lib network k url)
    (hurl : lib.url url = none) : Escapes tool lib network (k, url) :=
  ⟨(k, url), .refl, .url h hurl⟩

theorem validateUrl_escapes {k : ℕ} {url : PyText} {e : FetchError}
    (h : validateUrl tool lib network k url = .error e) :
    e.isCaught = false ↔ Escapes tool lib network (k, url) := by
  by_cases hpasses : Passes tool lib network k url
  · rw [validateUrl_passes hpasses, openUrl] at h
    cases hurl : lib.url url with
    | some target => simp [hurl] at h
    | none =>
        rw [hurl] at h
        obtain rfl := Except.error.inj h
        exact iff_of_true rfl (escapes_of_invalid hpasses hurl)
  · obtain ⟨e', he', hcaught⟩ := validateUrl_refuses hpasses
    obtain rfl := Except.error.inj (he'.symm.trans h)
    exact iff_of_false (by simp [hcaught]) (escapes_of_refused hpasses)

theorem error_escapes_iff {requests : List Request} {e : FetchError} :
    Fetched.escapes ⟨requests, .error e⟩ ↔ e.isCaught = false := by
  constructor
  · rintro ⟨e', he', hescapes⟩
    obtain rfl := Except.error.inj he'
    exact hescapes
  · intro h
    exact ⟨e, rfl, h⟩

/-! The loop. -/

theorem follow_escapes {current : Request} {k : ℕ} (h : Opened tool lib network k current) :
    (follow tool lib network current k).escapes ↔ Escapes tool lib network (k, current.url) := by
  fun_induction follow tool lib network current k with
  | case1 current k hanswer =>
      have hnone : ∀ response, network.answer k ≠ .response response := by simp [hanswer]
      rw [escapes_iff_here fun _ => Opened.not_joins hnone]
      exact iff_of_false (not_escapes rfl) (h.not_escapesAt hnone)
  | case2 current k hanswer =>
      have hnone : ∀ response, network.answer k ≠ .response response := by simp [hanswer]
      rw [escapes_iff_here fun _ => Opened.not_joins hnone]
      exact iff_of_false (not_escapes rfl) (h.not_escapesAt hnone)
  | case3 current k response hanswer hredirect hlocation =>
      have hnone : ∀ joined, ¬ Joins tool lib network (k, current.url) joined := by
        simp [h.joins_iff hanswer, hlocation]
      rw [escapes_iff_here fun _ => hnone _, h.escapesAt_iff hanswer]
      exact iff_of_false (not_escapes rfl) (by simp [hnone, hredirect])
  | case4 current k response hanswer hredirect location hlocation hlimit =>
      have hnone : ∀ joined, ¬ Joins tool lib network (k, current.url) joined := by
        simp [h.joins_iff hanswer, Nat.not_lt.2 hlimit]
      rw [escapes_iff_here fun _ => hnone _, h.escapesAt_iff hanswer]
      exact iff_of_false (not_escapes rfl) (by simp [hnone, hredirect])
  | case5 current k response hanswer hredirect location hlocation hlimit hjoined =>
      have hhere : Joins tool lib network (k, current.url) none :=
        (h.joins_iff hanswer).2 ⟨Nat.not_le.1 hlimit, hredirect, location, hlocation, hjoined⟩
      exact iff_of_true (error_escapes_iff.2 rfl) ⟨_, .refl, .location hhere⟩
  | case6 current k response hanswer hredirect location hlocation hlimit url hjoined e hinvalid =>
      rw [h.escapes_iff_next hanswer hredirect hlocation (Nat.not_le.1 hlimit) hjoined,
        error_escapes_iff]
      exact validateUrl_escapes hinvalid
  | case7 current k response hanswer hredirect location hlocation hlimit url hjoined target hvalid
      rest ih =>
      obtain ⟨hpasses, htarget⟩ := validateUrl_ok.1 hvalid
      rw [h.escapes_iff_next hanswer hredirect hlocation (Nat.not_le.1 hlimit) hjoined]
      exact ih ⟨hpasses, htarget⟩
  | case8 current k response hanswer hdirect =>
      have hnone : ∀ joined, ¬ Joins tool lib network (k, current.url) joined := by
        simp [h.joins_iff hanswer, hdirect]
      rw [escapes_iff_here fun _ => hnone _, h.escapesAt_iff hanswer]
      simp only [hnone, Bool.eq_false_iff.2 hdirect, false_or, true_and]
      exact resultOf_escapes

theorem follow_opened {current : Request} {k : ℕ} (h : Opened tool lib network k current) :
    ∀ get ∈ (follow tool lib network current k).requests,
      ∃ hop, Opened tool lib network hop get := by
  fun_induction follow tool lib network current k with
  | case7 current k response hanswer hredirect location hlocation hlimit url hjoined target hvalid
      rest ih =>
      obtain ⟨hpasses, htarget⟩ := validateUrl_ok.1 hvalid
      intro get hget
      rcases List.mem_cons.1 hget with rfl | hrest
      · exact ⟨k, h⟩
      · exact ih ⟨hpasses, htarget⟩ get hrest
  | _ =>
      intro get hget
      obtain rfl := List.mem_singleton.1 hget
      exact ⟨_, h⟩

theorem follow_length {current : Request} {k : ℕ} :
    (follow tool lib network current k).requests.length ≤ tool.maxRedirects - k + 1 := by
  fun_induction follow tool lib network current k with
  | case7 current k response hanswer hredirect location hlocation hlimit url hjoined target hvalid
      rest ih =>
      rw [List.length_cons]
      have hrest : rest.requests.length ≤ tool.maxRedirects - (k + 1) + 1 := ih
      omega
  | _ => exact Nat.succ_le_succ (Nat.zero_le _)

/-- The last request is answered with the result's body, after a redirect for each one before. -/
def Delivers (tool : HTTPFetchTool) (lib : Libraries) (network : Network)
    (requests : List Request) (k : ℕ) (result : HttpResult) : Prop :=
  ∃ get response, requests.getLast? = some get ∧ result.redirects + 1 = k + requests.length ∧
    network.answer result.redirects = .response response ∧ response.isRedirect = false ∧
    Carries tool lib get response result

theorem follow_delivers {current : Request} {k : ℕ} {result : HttpResult}
    (h : (follow tool lib network current k).outcome = .ok result) :
    Delivers tool lib network (follow tool lib network current k).requests k result := by
  fun_induction follow tool lib network current k with
  | case7 current k response hanswer hredirect location hlocation hlimit url hjoined target hvalid
      rest ih =>
      obtain ⟨get, last, hlast, hcount, hdelivered⟩ := ih h
      refine ⟨get, last, ?_, ?_, hdelivered⟩
      · rw [List.getLast?_cons, show rest.requests.getLast? = some get from hlast]
        rfl
      · rw [List.length_cons]
        have hcount' : result.redirects + 1 = k + 1 + rest.requests.length := hcount
        omega
  | case8 current k response hanswer hdirect =>
      obtain ⟨hcarries, rfl⟩ := resultOf_ok h
      exact ⟨current, response, rfl, rfl, hanswer, Bool.eq_false_iff.2 hdirect, hcarries⟩
  | _ => simp at h

/-! A whole call. -/

theorem fetchUrl_escapes {rawUrl : PyText} :
    (fetchUrl tool lib network rawUrl).escapes ↔ Escapes tool lib network (0, rawUrl) := by
  unfold fetchUrl
  cases hvalid : validateUrl tool lib network 0 rawUrl with
  | error e => exact error_escapes_iff.trans (validateUrl_escapes hvalid)
  | ok target =>
      obtain ⟨hpasses, htarget⟩ := validateUrl_ok.1 hvalid
      exact follow_escapes ⟨hpasses, htarget⟩

theorem fetchUrl_opened {rawUrl : PyText} :
    ∀ get ∈ (fetchUrl tool lib network rawUrl).requests,
      ∃ hop, Opened tool lib network hop get := by
  unfold fetchUrl
  cases hvalid : validateUrl tool lib network 0 rawUrl with
  | error e => simp
  | ok target =>
      obtain ⟨hpasses, htarget⟩ := validateUrl_ok.1 hvalid
      exact follow_opened ⟨hpasses, htarget⟩

theorem fetchUrl_length {rawUrl : PyText} :
    (fetchUrl tool lib network rawUrl).requests.length ≤ tool.maxRedirects + 1 := by
  unfold fetchUrl
  cases validateUrl tool lib network 0 rawUrl with
  | error e => exact Nat.zero_le _
  | ok target => exact follow_length

theorem fetchUrl_delivers {rawUrl : PyText} {result : HttpResult}
    (h : (fetchUrl tool lib network rawUrl).outcome = .ok result) :
    Delivers tool lib network (fetchUrl tool lib network rawUrl).requests 0 result := by
  unfold fetchUrl at h ⊢
  cases hvalid : validateUrl tool lib network 0 rawUrl with
  | error e => simp [hvalid] at h
  | ok target =>
      rw [hvalid] at h
      exact follow_delivers h

section Arguments
variable {arguments : List (String × Argument)} {rawUrl : PyText}

def IsUrl (arguments : List (String × Argument)) (rawUrl : PyText) : Prop :=
  argument "url" arguments = .str rawUrl ∧ rawUrl ≠ [] ∧ CodePoint.ofChar '\x00' ∉ rawUrl

def IsTimeout (tool : HTTPFetchTool) : Argument → Prop
  | .none => True
  | .int n => (Binary64.nearest n).isSome ∧ 0 < n ∧ n ≤ tool.timeout
  | .float (.finite q) => 0 < q ∧ q ≤ tool.timeout
  | _ => False

/-- A whole number that is no double: `math.isfinite` fails on it. -/
def IsOversized (arguments : List (String × Argument)) : Prop :=
  ∃ n : ℤ, argument "timeout" arguments = .int n ∧ Binary64.nearest n = none

theorem urlOf_ok {a : Argument} : urlOf a = .ok rawUrl ↔
    a = .str rawUrl ∧ rawUrl ≠ [] ∧ CodePoint.ofChar '\x00' ∉ rawUrl := by
  cases a with
  | str t =>
      simp only [urlOf, Argument.str.injEq]
      split
      · rename_i hbad
        simp only [reduceCtorEq, false_iff, not_and, not_not]
        rintro rfl hne
        exact hbad.resolve_left hne
      · rename_i hgood
        rw [Except.ok.injEq]
        exact ⟨fun h => ⟨h, h ▸ not_or.1 hgood⟩, fun h => h.1⟩
  | _ => simp [urlOf]

theorem urlOf_error {a : Argument} {e : FetchError} (h : urlOf a = .error e) :
    e.isHTTPFetchError = true := by
  unfold urlOf at h
  split at h
  · split at h
    · obtain rfl := Except.error.inj h
      rfl
    · simp at h
  · obtain rfl := Except.error.inj h
    rfl

theorem withinLimit_isOk {value timeout : ℚ} :
    (∃ q, withinLimit tool value timeout = .ok q) ↔ 0 < value ∧ value ≤ tool.timeout := by
  unfold withinLimit
  split
  · rename_i hout
    simp only [reduceCtorEq, exists_false, false_iff, not_and, not_le]
    exact fun hpos => hout.resolve_left (not_le.2 hpos)
  · rename_i hin
    obtain ⟨hpos, hle⟩ := not_or.1 hin
    exact iff_of_true ⟨timeout, rfl⟩ ⟨not_le.1 hpos, not_lt.1 hle⟩

theorem withinLimit_error {value timeout : ℚ} {e : FetchError}
    (h : withinLimit tool value timeout = .error e) : e = outsideLimit := by
  unfold withinLimit at h
  split at h
  · exact (Except.error.inj h).symm
  · simp at h

theorem timeoutOf_isOk {a : Argument} : (∃ q, timeoutOf tool a = .ok q) ↔ IsTimeout tool a := by
  cases a with
  | none => exact iff_of_true ⟨tool.timeout, rfl⟩ trivial
  | int n =>
      rw [timeoutOf, toDouble, IsTimeout]
      cases Binary64.nearest n with
      | none => exact iff_of_false (fun ⟨q, hq⟩ => by simp [Except.bind] at hq) (by simp)
      | some double => exact withinLimit_isOk.trans (by simp)
  | float x =>
      cases x with
      | finite q => exact withinLimit_isOk
      | _ => exact iff_of_false (fun ⟨q, hq⟩ => by simp [timeoutOf] at hq) id
  | _ => exact iff_of_false (fun ⟨q, hq⟩ => by simp [timeoutOf] at hq) id

theorem timeoutOf_error {a : Argument} {e : FetchError} (h : timeoutOf tool a = .error e) :
    e.isHTTPFetchError = false ↔ ∃ n : ℤ, a = .int n ∧ Binary64.nearest n = none := by
  cases a with
  | none => simp [timeoutOf] at h
  | int n =>
      rw [timeoutOf, toDouble] at h
      cases hnearest : Binary64.nearest n with
      | none =>
          rw [hnearest] at h
          obtain rfl := Except.error.inj h
          exact iff_of_true rfl ⟨n, rfl, hnearest⟩
      | some double =>
          rw [hnearest] at h
          obtain rfl := withinLimit_error h
          refine iff_of_false (by simp [outsideLimit, FetchError.isHTTPFetchError]) ?_
          rintro ⟨m, hm, hnone⟩
          obtain rfl := Argument.int.inj hm
          simp [hnearest] at hnone
  | float x =>
      have he : e = outsideLimit := by
        cases x with
        | finite q => exact withinLimit_error h
        | _ => exact (Except.error.inj h).symm
      subst he
      exact iff_of_false (by simp [outsideLimit, FetchError.isHTTPFetchError]) (by simp)
  | _ =>
      obtain rfl := Except.error.inj h
      exact iff_of_false (by simp [outsideLimit, FetchError.isHTTPFetchError]) (by simp)

theorem checkArguments_ok : checkArguments tool arguments = .ok rawUrl ↔
    IsUrl arguments rawUrl ∧ IsTimeout tool (argument "timeout" arguments) := by
  rw [IsUrl, ← urlOf_ok, ← timeoutOf_isOk, checkArguments]
  cases urlOf (argument "url" arguments) with
  | error e => exact iff_of_false (fun h => nomatch h) fun h => nomatch h.1
  | ok url =>
      cases timeoutOf tool (argument "timeout" arguments) with
      | error e => exact iff_of_false (fun h => nomatch h) fun ⟨_, q, hq⟩ => nomatch hq
      | ok q => exact ⟨fun h => ⟨h, q, rfl⟩, fun h => h.1⟩

theorem checkArguments_error {e : FetchError} (h : checkArguments tool arguments = .error e) :
    e.isHTTPFetchError = false ↔ (∃ rawUrl, IsUrl arguments rawUrl) ∧ IsOversized arguments := by
  unfold checkArguments at h
  cases hurl : urlOf (argument "url" arguments) with
  | error e' =>
      rw [hurl] at h
      obtain rfl : e' = e := Except.error.inj h
      refine iff_of_false (by simp [urlOf_error hurl]) ?_
      rintro ⟨⟨rawUrl, hok⟩, -⟩
      simp [urlOf_ok.2 hok] at hurl
  | ok url =>
      rw [hurl] at h
      cases htimeout : timeoutOf tool (argument "timeout" arguments) with
      | ok q =>
          rw [htimeout] at h
          exact nomatch h
      | error e' =>
          rw [htimeout] at h
          obtain rfl : e' = e := Except.error.inj h
          rw [timeoutOf_error htimeout]
          exact ⟨fun hn => ⟨⟨url, urlOf_ok.1 hurl⟩, hn⟩, fun hn => hn.2⟩

structure FetchesSafely (tool : HTTPFetchTool) (lib : Libraries) (network : Network)
    (arguments : List (String × Argument)) : Prop where
  guarded : tool.allowPrivate = false → ∀ get ∈ (fetch tool lib network arguments).requests,
    ∃ parsed hostname, IsHttp lib get.url parsed hostname ∧
      IsPublic lib network parsed (targetName lib hostname)
  bounded : (fetch tool lib network arguments).requests.length ≤ tool.maxRedirects + 1
  complete : ∀ result, (fetch tool lib network arguments).outcome = .ok result →
    Delivers tool lib network (fetch tool lib network arguments).requests 0 result
  fails : ∀ e, (fetch tool lib network arguments).outcome = .error e → e.isHTTPFetchError = true

/-- The timeout is no double, a URL that is let through is refused by `httpx`, a location cannot be
joined or a body cannot be decoded. -/
def EscapesCall (tool : HTTPFetchTool) (lib : Libraries) (network : Network)
    (arguments : List (String × Argument)) : Prop :=
  ∃ rawUrl, IsUrl arguments rawUrl ∧ (IsOversized arguments ∨
    IsTimeout tool (argument "timeout" arguments) ∧ Escapes tool lib network (0, rawUrl))

theorem IsUrl.unique {rawUrl' : PyText} (h : IsUrl arguments rawUrl)
    (h' : IsUrl arguments rawUrl') : rawUrl = rawUrl' :=
  Argument.str.inj (h.1.symm.trans h'.1)

theorem IsTimeout.not_oversized (h : IsTimeout tool (argument "timeout" arguments)) :
    ¬ IsOversized arguments := by
  rintro ⟨n, hn, hnone⟩
  rw [hn] at h
  simp [IsTimeout, hnone] at h

theorem fetch_opened : ∀ get ∈ (fetch tool lib network arguments).requests,
    ∃ hop, Opened tool lib network hop get := by
  unfold fetch
  cases checkArguments tool arguments with
  | error e => simp
  | ok rawUrl => exact fetchUrl_opened

theorem fetch_length :
    (fetch tool lib network arguments).requests.length ≤ tool.maxRedirects + 1 := by
  unfold fetch
  cases checkArguments tool arguments with
  | error e => exact Nat.zero_le _
  | ok rawUrl => exact fetchUrl_length

theorem fetch_delivers {result : HttpResult}
    (h : (fetch tool lib network arguments).outcome = .ok result) :
    Delivers tool lib network (fetch tool lib network arguments).requests 0 result := by
  unfold fetch at h ⊢
  cases harguments : checkArguments tool arguments with
  | error e => simp [harguments] at h
  | ok rawUrl =>
      rw [harguments] at h
      dsimp only at h ⊢
      cases houtcome : (fetchUrl tool lib network rawUrl).outcome with
      | error e => simp [houtcome, Except.mapError] at h
      | ok result' =>
          rw [houtcome] at h
          obtain rfl := Except.ok.inj h
          exact fetchUrl_delivers houtcome

theorem fetch_fails_iff : (∀ e, (fetch tool lib network arguments).outcome = .error e →
    e.isHTTPFetchError = true) ↔ ¬ EscapesCall tool lib network arguments := by
  unfold fetch
  cases harguments : checkArguments tool arguments with
  | error e =>
      have herror := checkArguments_error harguments
      constructor
      · rintro hfails ⟨rawUrl, hurl, hoversized | ⟨htimeout, -⟩⟩
        · have hescapes := herror.2 ⟨⟨rawUrl, hurl⟩, hoversized⟩
          simp [hfails e rfl] at hescapes
        · simp [checkArguments_ok.2 ⟨hurl, htimeout⟩] at harguments
      · intro hnot e' he'
        obtain rfl := Except.error.inj he'
        rw [← Bool.not_eq_false]
        intro hescapes
        obtain ⟨⟨rawUrl, hurl⟩, hoversized⟩ := herror.1 hescapes
        exact hnot ⟨rawUrl, hurl, .inl hoversized⟩
  | ok rawUrl =>
      obtain ⟨hurl, htimeout⟩ := checkArguments_ok.1 harguments
      have hcall : EscapesCall tool lib network arguments ↔
          (fetchUrl tool lib network rawUrl).escapes := by
        rw [fetchUrl_escapes]
        constructor
        · rintro ⟨rawUrl', hurl', hoversized | ⟨-, hescapes⟩⟩
          · exact absurd hoversized htimeout.not_oversized
          · rwa [hurl.unique hurl']
        · intro hescapes
          exact ⟨rawUrl, hurl, .inr ⟨htimeout, hescapes⟩⟩
      rw [hcall]
      dsimp only
      cases houtcome : (fetchUrl tool lib network rawUrl).outcome with
      | ok result => simp [Except.mapError, Fetched.escapes, houtcome]
      | error e =>
          simp only [Except.mapError, Except.error.injEq, forall_eq', Fetched.escapes, houtcome,
            exists_eq_left', Bool.not_eq_false]
          rfl

theorem fetches_safely_iff :
    FetchesSafely tool lib network arguments ↔ ¬ EscapesCall tool lib network arguments := by
  rw [← fetch_fails_iff]
  constructor
  · intro h
    exact h.fails
  · intro hfails
    refine ⟨fun hprivate get hget => ?_, fetch_length, fun result => fetch_delivers, hfails⟩
    obtain ⟨hop, hopened⟩ := fetch_opened get hget
    obtain ⟨parsed, hostname, hhttp, hpublic⟩ := hopened.passes.allowed
    exact ⟨parsed, hostname, hhttp, hpublic hprivate⟩

end Arguments

def defaultTool : HTTPFetchTool := ⟨false, 20, 2000000, 5, by decide, by decide⟩

def oversized : List (String × Argument) :=
  [("url", .str (PyText.ofString "https://example.com/")), ("timeout", .int (10 ^ 400))]

theorem checkArguments_oversized :
    checkArguments defaultTool oversized = .error .overflowError := by decide +kernel

/-- Whatever the network and the libraries do: no URL is read before the timeout is looked at. -/
theorem not_fetches_safely : ∃ tool arguments, ∀ lib network,
    ¬ FetchesSafely tool lib network arguments := by
  refine ⟨defaultTool, oversized, fun lib network h => ?_⟩
  have houtcome : (fetch defaultTool lib network oversized).outcome = .error .overflowError := by
    rw [fetch, checkArguments_oversized]
  have hfails := h.fails .overflowError houtcome
  simp [FetchError.isHTTPFetchError] at hfails

end Polaris.HTTPFetch
