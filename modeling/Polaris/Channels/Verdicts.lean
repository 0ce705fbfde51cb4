import Polaris.Channels.Classification

namespace Polaris
open PyJson ChannelStore

/-! Telegram. -/

namespace TelegramAdapter

/-- A response with a status and the entries of its body. -/
def response? : TelegramAnswer → Option (ℤ × List (String × PyVal))
  | .response _ (.raised _) => none
  | .response statusCode body => some (statusCode, bodyEntries body)
  | _ => none

def saysOk (body : List (String × PyVal)) : Bool := getOrNone "ok" body = .bool true

/-- The remote has not accepted a request that it answers so. -/
def rejects : TelegramAnswer → Bool
  | .response statusCode body => (400 ≤ statusCode && statusCode < 500) ||
      isSuccess statusCode && getOrNone "ok" (bodyEntries body) = .bool false
  | _ => false

def confirms : TelegramAnswer → Bool
  | .response statusCode body => isSuccess statusCode && saysOk (bodyEntries body)
  | _ => false

/-- The answer is taken for a refusal by its status, or else by the code in its body. -/
def isRefusal (statusCode : ℤ) (body : List (String × PyVal)) : Bool :=
  retryAfterFits body && statusCode < 500 && !(isSuccess statusCode && saysOk body) &&
    (400 ≤ effectiveCode statusCode body && effectiveCode statusCode body < 500)

def isLimit (statusCode : ℤ) (body : List (String × PyVal)) : Bool :=
  statusCode = 429 || errorCode body = some 429

def verdicts (adapter : TelegramAdapter) : Verdicts TelegramAnswer where
  rejects := rejects
  confirms := confirms
  limited := fun a => (response? a).any fun r => isRefusal r.1 r.2 && isLimit r.1 r.2
  refused := fun a => isClosed a || (response? a).any fun r => isRefusal r.1 r.2 && !isLimit r.1 r.2
  delivered := fun part a => (response? a).any fun r => retryAfterFits r.2 && isSuccess r.1 &&
    saysOk r.2 && decide (effectiveCode r.1 r.2 < 500) &&
    (adapter.remoteId part (getOrNone "result" r.2)).toOption.isSome

variable {adapter : TelegramAdapter}

theorem readAnswer_response {method : String} {a : TelegramAnswer} {statusCode : ℤ}
    {body : List (String × PyVal)} (h : response? a = some (statusCode, body)) :
    adapter.readAnswer method a = adapter.readResponse method statusCode body := by
  cases a with
  | response code reading =>
      cases reading with
      | raised message => simp [response?] at h
      | json value =>
          obtain ⟨rfl, rfl⟩ := Prod.mk.inj (Option.some.inj h)
          rfl
      | invalid =>
          obtain ⟨rfl, rfl⟩ := Prod.mk.inj (Option.some.inj h)
          rfl
  | closed => simp [response?] at h
  | httpError => simp [response?] at h
  | interrupted => simp [response?] at h

/-- How a response is read: it is a refusal, a result, or anything else. -/
theorem readResponse_cases (method : String) (statusCode : ℤ) (body : List (String × PyVal)) :
    (isRefusal statusCode body = true ∧ ∃ message, adapter.readResponse method statusCode body =
        .error (.api message (some statusCode) (errorCode body))) ∨
      ((retryAfterFits body && isSuccess statusCode && saysOk body &&
          decide (effectiveCode statusCode body < 500)) = true ∧
        isRefusal statusCode body = false ∧
        adapter.readResponse method statusCode body = .ok (getOrNone "result" body)) ∨
      ((retryAfterFits body && isSuccess statusCode && saysOk body &&
          decide (effectiveCode statusCode body < 500)) = false ∧
        isRefusal statusCode body = false ∧
        ∃ e, adapter.readResponse method statusCode body = .error e ∧ ¬e.Refuses ∧
          isRateLimit e = false) := by
  have htransport : ∀ text, adapter.readResponse method statusCode body =
        .error (.transport ("Telegram " ++ method ++ text)) →
      ∃ e, adapter.readResponse method statusCode body = .error e ∧ ¬e.Refuses ∧
        isRateLimit e = false := fun _ he => ⟨_, he, AdapterFailure.transport_not_refuses, rfl⟩
  by_cases hfits : retryAfterFits body = true
  · by_cases hstatus : 500 ≤ statusCode
    · have hfailed : isSuccess statusCode = false := by
        simp only [isSuccess, Bool.and_eq_false_iff, decide_eq_false_iff_not]
        omega
      exact .inr (.inr ⟨by simp [hfailed], by simp [isRefusal, hstatus],
        htransport " delivery outcome is unknown" (by simp [readResponse, hfits, hstatus])⟩)
    · by_cases hcode : 500 ≤ effectiveCode statusCode body
      · exact .inr (.inr ⟨by simp [hcode], by simp [isRefusal, hcode],
          htransport " delivery outcome is unknown" (by simp [readResponse, hfits, hcode])⟩)
      · cases hok : isSuccess statusCode && saysOk body with
        | true =>
            have hread : adapter.readResponse method statusCode body =
                .ok (getOrNone "result" body) := by
              simp only [saysOk] at hok
              simp [readResponse, hfits, hstatus, hcode, hok]
            refine .inr (.inl ⟨?_, by simp [isRefusal, hok], hread⟩)
            rw [hfits, Bool.true_and, hok, Bool.true_and, decide_eq_true_eq]
            omega
        | false =>
            by_cases hrefusal : 400 ≤ effectiveCode statusCode body
            · refine .inl ⟨?_, "Telegram " ++ method ++ " failed: " ++
                adapter.description statusCode body, ?_⟩
              · simp only [isRefusal, hfits, hok]
                simp only [Bool.and_eq_true, decide_eq_true_eq, Bool.not_false, and_true, true_and]
                omega
              · simp only [saysOk] at hok
                have hcodes : 400 ≤ effectiveCode statusCode body ∧
                    effectiveCode statusCode body < 500 := by omega
                simp only [readResponse, hfits, hstatus, hcode, hok, hcodes, Bool.not_true,
                  Bool.false_eq_true, if_false, and_true, not_true]
            · refine .inr (.inr ⟨by simp [Bool.and_assoc, hok],
                by simp [isRefusal, hrefusal], htransport " returned an invalid response" ?_⟩)
              simp only [saysOk] at hok
              simp only [readResponse, hfits, hstatus, hcode, hok, hrefusal, Bool.not_true,
                Bool.false_eq_true, if_false, false_and, not_false_eq_true, if_true]
  · exact .inr (.inr ⟨by simp [hfits], by simp [isRefusal, hfits],
      floatOverflow, by simp [readResponse, hfits], AdapterFailure.interrupted_not_refuses, rfl⟩)

theorem isRateLimit_api {message : String} {statusCode : ℤ} {body : List (String × PyVal)} :
    isRateLimit (.api message (some statusCode) (errorCode body)) = isLimit statusCode body := by
  simp [isRateLimit, isLimit]

/-- An answer that is no response fails with an error of its own. -/
theorem readAnswer_other {method : String} {a : TelegramAnswer} (h : response? a = none) :
    ∃ e, adapter.readAnswer method a = .error e ∧ isRateLimit e = false ∧
      (e.Refuses ↔ isClosed a = true) := by
  cases a with
  | closed => exact ⟨_, rfl, rfl, by simp [isClosed, AdapterFailure.Refuses, AdapterFailure.sendFailure]⟩
  | httpError message => exact ⟨_, rfl, rfl, by simp [isClosed, AdapterFailure.transport_not_refuses]⟩
  | interrupted i =>
      exact ⟨_, rfl, rfl,
        by simp [isClosed, AdapterFailure.interrupted_not_refuses]⟩
  | response code reading =>
      cases reading with
      | raised message =>
          exact ⟨_, rfl, rfl,
            by simp [isClosed, AdapterFailure.interrupted_not_refuses]⟩
      | json value => simp [response?] at h
      | invalid => simp [response?] at h

theorem isClosed_of_response {a : TelegramAnswer} {r : ℤ × List (String × PyVal)}
    (h : response? a = some r) : isClosed a = false := by
  cases a <;> simp_all [response?, isClosed]

theorem reads (method : String) (a : TelegramAnswer) :
    ChannelAdapter.ReadAs adapter.channel adapter.verdicts method a := by
  cases hresponse : response? a with
  | none =>
      obtain ⟨e, he, hnot, hrefuses⟩ := @readAnswer_other adapter method a hresponse
      cases hclosed : isClosed a with
      | true =>
          exact .refusal he (hrefuses.2 hclosed) (by simp [verdicts, hresponse, channel, hnot])
            (by simp [verdicts, hresponse, hclosed]) (by simp [verdicts, hresponse])
      | false =>
          exact .unclear he (by simp [hrefuses, hclosed]) hnot (by simp [verdicts, hresponse])
            (by simp [verdicts, hresponse, hclosed]) (by simp [verdicts, hresponse])
  | some r =>
      obtain ⟨statusCode, body⟩ := r
      have hread := @readAnswer_response adapter method a statusCode body hresponse
      have hopen := isClosed_of_response hresponse
      rcases @readResponse_cases adapter method statusCode body with ⟨hrefusal, message, he⟩ |
        ⟨hok, hnot, hresult⟩ | ⟨hnot, hrefusal, e, he, hrefuses, hlimit⟩
      · have hnot : (isSuccess statusCode && saysOk body) = false := by
          simp only [isRefusal, Bool.and_eq_true, Bool.not_eq_true'] at hrefusal
          exact hrefusal.1.2
        refine .refusal (hread.trans he) AdapterFailure.api_refuses ?_ ?_ fun part => ?_
        · simp [verdicts, hresponse, hrefusal, channel, isRateLimit_api]
        · simp [verdicts, hresponse, hrefusal, hopen]
        · simp only [verdicts, hresponse, Option.any_some, Bool.and_assoc]
          rw [← Bool.and_assoc (isSuccess statusCode), hnot]
          simp
      · refine .result (hread.trans hresult) ?_ ?_ fun part => ?_
        · simp [verdicts, hresponse, hnot]
        · simp [verdicts, hresponse, hnot, hopen]
        · simp only [verdicts, hresponse, Option.any_some, hok, Bool.true_and]
          rfl
      · refine .unclear (hread.trans he) hrefuses hlimit ?_ ?_ fun part => ?_
        · simp [verdicts, hresponse, hrefusal]
        · simp [verdicts, hresponse, hrefusal, hopen]
        · simp only [verdicts, hresponse, Option.any_some, hnot, Bool.false_and]

theorem prepareOutbound_single {message part : OutboundMessage} {parts : List OutboundMessage}
    (h : prepareOutbound message = .ok parts) (hpart : part ∈ parts) :
    prepareOutbound part.stored = .ok [part.stored] ∧ part.platform = .telegram := by
  unfold prepareOutbound at h
  by_cases hplatform : message.platform = .telegram
  · rw [if_neg (not_not.2 hplatform)] at h
    cases hoperation : message.operation with
    | send =>
        simp only [hoperation] at h
        obtain ⟨hle, hpart, hsame⟩ := chunkOutbound_part h hpart
        refine ⟨?_, hpart.trans hplatform⟩
        have hstored : part.stored.platform = .telegram ∧ part.stored.operation = .send :=
          ⟨hpart.trans hplatform, hsame.trans hoperation⟩
        simp only [prepareOutbound, hstored, ne_eq, not_true, if_false]
        exact chunkOutbound_of_le (by decide) hle
    | answerCallback =>
        simp only [hoperation] at h
        split at h
        · simp at h
        · rename_i hfits
          obtain rfl := Except.ok.inj h
          obtain rfl := List.mem_singleton.1 hpart
          refine ⟨?_, hplatform⟩
          have hstored : part.stored.platform = .telegram ∧
              part.stored.operation = .answerCallback ∧ part.stored.text = part.text :=
            ⟨hplatform, hoperation, rfl⟩
          simp [prepareOutbound, hstored, hfits]
    | edit =>
        simp only [hoperation] at h
        split at h
        · simp at h
        · rename_i hfits
          obtain rfl := Except.ok.inj h
          obtain rfl := List.mem_singleton.1 hpart
          refine ⟨?_, hplatform⟩
          have hstored : part.stored.platform = .telegram ∧ part.stored.operation = .edit ∧
              part.stored.text = part.text := ⟨hplatform, hoperation, rfl⟩
          simp [prepareOutbound, hstored, hfits]
  · simp [hplatform] at h

theorem shownText_sentText {message : OutboundMessage} {payload : List (String × PyVal)}
    (h : SortedDict.lookup "text" payload = some (.str (sentText message)))
    (hplatform : message.platform = .telegram) : shownText message payload = some message.text := by
  unfold shownText
  rw [h]
  simp only [sentText]
  by_cases hescaped : message.parseMode = .html ∧ !isTrusted message
  · simp [hplatform, hescaped, safeHtml, unescapeHtml_escaped]
  · rw [if_neg hescaped, if_neg fun h => hescaped h.2]

theorem sendPayload_text {message : OutboundMessage} {method : String}
    {payload : List (String × PyVal)} (h : sendPayload message = .ok (method, payload)) :
    SortedDict.lookup "text" payload = some (.str (sentText message)) := by
  unfold sendPayload at h
  simp only at h
  split at h
  · split_ifs at h
    obtain ⟨-, rfl⟩ := Prod.mk.inj (Except.ok.inj h)
    rfl
  · split_ifs at h
    obtain ⟨-, rfl⟩ := Prod.mk.inj (Except.ok.inj h)
    rfl
  · obtain ⟨-, rfl⟩ := Prod.mk.inj (Except.ok.inj h)
    rfl

theorem classifies : adapter.channel.Classifies adapter.verdicts where
  reads := reads
  undelivered part r e h := by
    have hinvalid : e = invalidDelivery := by
      simp only [channel, remoteId] at h
      split_ifs at h
      split at h
      · exact (Except.error.inj h).symm
      · split_ifs at h
        exact (Except.error.inj h).symm
    rw [hinvalid]
    exact AdapterFailure.transport_not_refuses
  opened part a h := by
    obtain ⟨r, hresponse, -⟩ := (Option.any_eq_true _ _).1 h
    exact isClosed_of_response hresponse
  confirmed part a h := by
    obtain ⟨⟨statusCode, body⟩, hresponse, h⟩ := (Option.any_eq_true _ _).1 h
    simp only [Bool.and_eq_true] at h
    cases a with
    | response code reading =>
        cases reading with
        | raised message => simp [response?] at hresponse
        | json value =>
            obtain ⟨rfl, rfl⟩ := Prod.mk.inj (Option.some.inj hresponse)
            simp [verdicts, confirms, h]
        | invalid =>
            obtain ⟨rfl, rfl⟩ := Prod.mk.inj (Option.some.inj hresponse)
            simp [verdicts, confirms, h]
    | closed => simp [response?] at hresponse
    | httpError => simp [response?] at hresponse
    | interrupted => simp [response?] at hresponse
  consistent a h := by
    cases a with
    | response statusCode body =>
        simp only [verdicts, confirms, saysOk, isSuccess, Bool.and_eq_true, decide_eq_true_eq] at h
        have hstatus : ¬400 ≤ statusCode := by omega
        simp [verdicts, rejects, hstatus, h.2]
    | closed => rfl
    | httpError => rfl
    | interrupted => rfl
  carries part method payload hplatform h := shownText_sentText (sendPayload_text h) hplatform
  single _ _ _ h hpart := prepareOutbound_single h hpart

end TelegramAdapter

/-! Slack. -/

namespace SlackAdapter

def saysOk (data : Option (List (String × PyVal))) : Bool :=
  data.any fun es => getOrNone "ok" es = .bool true

def inClientErrors (status : ℤ) : Bool := 400 ≤ status && status < 500

/-- The parts of the response that an answer brings, and whether it is an exception. -/
def parts? : SlackAnswer → Option ResponseParts
  | .returned response => some (responseParts response)
  | .raised _ _ response => some (responseParts response)
  | .cancelled => none

/-- The remote has not accepted a request that it answers so. -/
def rejects (a : SlackAnswer) : Bool :=
  (parts? a).any fun parts => parts.status.any fun status =>
    inClientErrors status || isSuccess status && saysNotOk parts.data

def confirms : SlackAnswer → Bool
  | .returned response => saysOk (responseParts response).data &&
      !(responseParts response).status.any inClientErrors
  | _ => false

/-- A return value that is looked at: it is a mapping, or it has a status. -/
def isRead (response : SdkObject) : Bool :=
  (response.entries.isSome || (responseParts response).status.isSome) &&
    retryAfterFits (responseParts response).headers

/-- A status that is none of an error. -/
def isPlain (status : Option ℤ) : Bool := status.all fun s => 100 ≤ s && s < 400

def limited : SlackAnswer → Bool
  | .returned response => isRead response && (responseParts response).status = some 429
  | .raised _ _ response => retryAfterFits (responseParts response).headers &&
      exceptionStatus (responseParts response) = some 429
  | .cancelled => false

def refused : SlackAnswer → Bool
  | .returned response =>
      let parts := responseParts response
      isRead response && !decide (parts.status = some 429) &&
        (parts.status.any inClientErrors || isPlain parts.status && saysNotOk parts.data)
  | .raised className _ response =>
      let parts := responseParts response
      retryAfterFits parts.headers && !decide (exceptionStatus parts = some 429) &&
        className = "SlackApiError" && parts.status.any fun status =>
          inClientErrors status || isSuccess status && saysNotOk parts.data
  | .cancelled => false

def delivered : SlackAnswer → Bool
  | .returned response =>
      let parts := responseParts response
      isRead response && isPlain parts.status && saysOk parts.data
  | _ => false

def verdicts : Verdicts SlackAnswer where
  rejects := rejects
  confirms := confirms
  limited := limited
  refused := refused
  delivered := fun _ => delivered

variable {adapter : SlackAdapter}

theorem isRateLimit_rejected {data : Option (List (String × PyVal))} {status : Option ℤ}
    (h : status ≠ some 429) : isRateLimit (adapter.rejected data status) = false := by
  simpa [isRateLimit, rejected] using h

theorem reads_raised {method className message : String} {response : SdkObject} :
    ChannelAdapter.ReadAs adapter.channel verdicts method (.raised className message response) := by
  have hread : ∀ {e : AdapterFailure},
      adapter.readException className message (responseParts response) = e →
      adapter.channel.readAnswer method (.raised className message response) = .error e := by
    rintro e rfl
    rfl
  generalize hparts : responseParts response = parts at hread
  by_cases hfits : retryAfterFits parts.headers = true
  · by_cases hlimit : exceptionStatus parts = some 429
    · exact .refusal (hread (by simp [readException, hfits, hlimit]; rfl)) AdapterFailure.api_refuses
        (by simp [verdicts, limited, hparts, hfits, hlimit, channel, isRateLimit])
        (by simp [verdicts, limited, refused, hparts, hfits, hlimit]) fun _ => rfl
    · have hnotlimited : verdicts.limited (.raised className message response) = false := by
        simp [verdicts, limited, hparts, hlimit]
      by_cases hrefused : verdicts.refused (.raised className message response) = true
      · have hrefuses := hrefused
        simp only [verdicts, refused, hparts, hfits, hlimit, decide_false, Bool.not_false,
          Bool.true_and, Bool.and_eq_true, decide_eq_true_eq, Option.any_eq_true, Bool.or_eq_true,
          inClientErrors, isSuccess] at hrefuses
        obtain ⟨hclass, status, hstatus, hrange⟩ := hrefuses
        have hvalid : ¬(status < 100 ∨ 500 ≤ status) := by omega
        have hnot429 : parts.status ≠ some 429 := fun h => hlimit (by simp [exceptionStatus, h])
        have hvalue : adapter.readException className message parts =
            adapter.rejected parts.data (some status) := by
          simp only [readException, hfits, hlimit, hclass, hstatus, hvalid, Bool.not_true,
            Bool.false_eq_true, if_false, if_true]
          rw [if_pos (by simpa [isSuccess, and_assoc] using hrange)]
        refine .refusal (hread hvalue) AdapterFailure.api_refuses ?_ (by rw [hrefused, hnotlimited]; rfl)
          fun _ => rfl
        rw [hnotlimited]
        exact @isRateLimit_rejected adapter parts.data (some status) (hstatus ▸ hnot429)
      · have hunclear : adapter.readException className message parts = outcomeUnknown ∨
            adapter.readException className message parts =
              .transport ("Slack Web API transport failed: " ++ adapter.redact message) := by
          simp only [verdicts, refused, hparts, hfits, hlimit, decide_false, Bool.not_false,
            Bool.true_and, Bool.and_eq_true, decide_eq_true_eq, Option.any_eq_true, Bool.or_eq_true,
            inClientErrors, not_and, not_exists] at hrefused
          by_cases hclass : className = "SlackApiError"
          · cases hstatus : parts.status with
            | none => exact .inl (by simp [readException, hfits, hlimit, hclass, hstatus])
            | some status =>
                have hnot := hrefused hclass status hstatus
                refine .inl ?_
                simp only [readException, hfits, hlimit, hclass, hstatus, Bool.not_true,
                  Bool.false_eq_true, if_false, if_true]
                have hinner : ¬(400 ≤ status ∧ status < 500 ∨
                    isSuccess status = true ∧ saysNotOk parts.data = true) := by
                  simpa [and_assoc] using hnot
                rw [if_neg hinner, ite_self]
          · exact .inr (by simp [readException, hfits, hlimit, hclass])
        have hnotrefused := Bool.eq_false_iff.2 hrefused
        rcases hunclear with he | he
        · exact .unclear (hread he) AdapterFailure.transport_not_refuses rfl hnotlimited hnotrefused
            fun _ => rfl
        · exact .unclear (hread he) AdapterFailure.transport_not_refuses rfl hnotlimited hnotrefused
            fun _ => rfl
  · exact .unclear (hread (by simp [readException, hfits]; rfl)) AdapterFailure.interrupted_not_refuses rfl
      (by simp [verdicts, limited, hparts, hfits]) (by simp [verdicts, refused, hparts, hfits])
      fun _ => rfl

/-- The parts of a status: one that has no error is none of those of an error. -/
theorem status_cases (status : Option ℤ) :
    status = some 429 ∨ status ≠ some 429 ∧
      (status.any (500 ≤ ·) = true ∧ status.any inClientErrors = false ∧ isPlain status = false ∨
        status.any (500 ≤ ·) = false ∧
          (status.any (400 ≤ ·) = true ∧ status.any inClientErrors = true ∧
              isPlain status = false ∨
            status.any (400 ≤ ·) = false ∧ status.any inClientErrors = false ∧
              isPlain status = !status.any (· < 100))) := by
  cases status with
  | none => simp [isPlain]
  | some s =>
      by_cases h : s = 429
      · exact .inl (by rw [h])
      · refine .inr ⟨by simpa using h, ?_⟩
        simp only [Option.any_some, inClientErrors, isPlain, Option.all_some, Bool.and_eq_true,
          decide_eq_true_eq, Bool.and_eq_false_iff, decide_eq_false_iff_not]
        by_cases hserver : 500 ≤ s
        · exact .inl (by omega)
        · refine .inr ⟨hserver, ?_⟩
          by_cases hclient : 400 ≤ s
          · exact .inl (by omega)
          · refine .inr ⟨hclient, .inl hclient, ?_⟩
            by_cases hlow : s < 100
            · simp [hlow]
            · simp [hlow]
              omega

theorem reads_returned {method : String} {response : SdkObject} :
    ChannelAdapter.ReadAs adapter.channel verdicts method (.returned response) := by
  have hread : ∀ {result : Except AdapterFailure (List (String × PyVal))},
      adapter.readReturned response = result →
      adapter.channel.readAnswer method (.returned response) = result := by
    rintro result rfl
    rfl
  generalize hparts : responseParts response = parts at hread
  have hinvalid : ∀ {e : AdapterFailure}, adapter.readReturned response = .error e → ¬e.Refuses →
      isRateLimit e = false → verdicts.limited (.returned response) = false →
      verdicts.refused (.returned response) = false → delivered (.returned response) = false →
      ChannelAdapter.ReadAs adapter.channel verdicts method (.returned response) :=
    fun he hnot hlimit hlimited hrefused hdelivered =>
      .unclear (hread he) hnot hlimit hlimited hrefused fun _ => hdelivered
  cases hisRead : isRead response with
  | false =>
      have hvalue : ∃ e, adapter.readReturned response = .error e ∧ ¬e.Refuses ∧
          isRateLimit e = false := by
        simp only [isRead, hparts, Bool.and_eq_false_iff, Bool.or_eq_false_iff,
          Option.isSome_eq_false_iff] at hisRead
        by_cases hempty : response.entries.isNone = true ∧ parts.status = none
        · exact ⟨invalidResponse, by simp [readReturned, hparts, hempty],
            AdapterFailure.transport_not_refuses, rfl⟩
        · have hfits : retryAfterFits parts.headers = false := by
            rcases hisRead with ⟨hentries, hstatus⟩ | hfits
            · exact absurd ⟨hentries, Option.isNone_iff_eq_none.1 hstatus⟩ hempty
            · exact hfits
          exact ⟨floatOverflow, by simp only [readReturned, hparts, hempty, hfits]; rfl,
            AdapterFailure.interrupted_not_refuses, rfl⟩
      obtain ⟨e, he, hnot, hlimit⟩ := hvalue
      exact hinvalid he hnot hlimit (by simp [verdicts, limited, hisRead])
        (by simp [verdicts, refused, hisRead]) (by simp [delivered, hisRead])
  | true =>
      have hpass : ¬(response.entries.isNone = true ∧ parts.status = none) ∧
          retryAfterFits parts.headers = true := by
        simp only [isRead, hparts, Bool.and_eq_true, Bool.or_eq_true] at hisRead
        refine ⟨?_, hisRead.2⟩
        rintro ⟨hentries, hstatus⟩
        rcases hisRead.1 with hsome | hsome
        · simp [Option.isNone_iff_eq_none.1 hentries] at hsome
        · simp [hstatus] at hsome
      obtain ⟨hpass, hfits⟩ := hpass
      rcases status_cases parts.status with hlimit | ⟨hlimit, ⟨hserver, hclient, hplain⟩ |
        ⟨hserver, ⟨herror, hclient, hplain⟩ | ⟨herror, hclient, hplain⟩⟩⟩
      · exact .refusal (hread (by simp [readReturned, hparts, hfits, hlimit]; rfl))
          AdapterFailure.api_refuses
          (by simp [verdicts, limited, hparts, hisRead, hlimit, channel, isRateLimit])
          (by simp [verdicts, limited, refused, hparts, hisRead, hlimit])
          fun _ => by simp [verdicts, delivered, hparts, hlimit, isPlain]
      · exact hinvalid (by simp only [readReturned, hparts, hpass, hfits, hlimit, hserver]; rfl)
          AdapterFailure.transport_not_refuses rfl (by simp [verdicts, limited, hparts, hlimit])
          (by simp [verdicts, refused, hparts, hclient, hplain])
          (by simp [delivered, hparts, hplain])
      · refine .refusal
          (hread (by simp only [readReturned, hparts, hpass, hfits, hlimit, hserver, herror]; rfl))
          AdapterFailure.api_refuses ?_
          (by simp [verdicts, limited, refused, hparts, hisRead, hlimit, hclient])
          fun _ => by simp [verdicts, delivered, hparts, hplain]
        have hlimited : verdicts.limited (.returned response) = false := by
          simp [verdicts, limited, hparts, hlimit]
        rw [hlimited]
        exact @isRateLimit_rejected adapter parts.data parts.status hlimit
      · have hlimited : verdicts.limited (.returned response) = false := by
          simp [verdicts, limited, hparts, hlimit]
        cases hdata : parts.data with
        | none =>
            exact hinvalid
              (by simp only [readReturned, hparts, hpass, hfits, hlimit, hserver, herror, hdata]; rfl)
              AdapterFailure.transport_not_refuses rfl hlimited
              (by simp [verdicts, refused, hparts, hclient, saysNotOk, hdata])
              (by simp [delivered, hparts, saysOk, hdata])
        | some data =>
            cases hlow : parts.status.any (· < 100) with
            | true =>
                rw [hlow] at hplain
                exact hinvalid (by simp only [readReturned, hparts, hpass, hfits, hlimit, hserver,
                    herror, hdata, hlow]; rfl)
                  AdapterFailure.transport_not_refuses rfl hlimited
                  (by simp [verdicts, refused, hparts, hclient, hplain])
                  (by simp [delivered, hparts, hplain])
            | false =>
                rw [hlow] at hplain
                by_cases hnotok : getOrNone "ok" data = .bool false
                · refine .refusal (hread (by simp only [readReturned, hparts, hpass, hfits, hlimit,
                      hserver, herror, hdata, hlow, hnotok]; rfl)) AdapterFailure.api_refuses ?_
                    (by simp [verdicts, limited, refused, hparts, hisRead, hlimit, hplain, saysNotOk,
                      hdata, hnotok])
                    fun _ => by simp [verdicts, delivered, hparts, saysOk, hdata, hnotok]
                  rw [hlimited]
                  exact @isRateLimit_rejected adapter (some data) parts.status hlimit
                · have hrefused : verdicts.refused (.returned response) = false := by
                    simp [verdicts, refused, hparts, hclient, saysNotOk, hdata, hnotok]
                  by_cases hok : getOrNone "ok" data = .bool true
                  · refine .result (hread (by simp only [readReturned, hparts, hpass, hfits, hlimit,
                      hserver, herror, hdata, hlow, hok]; rfl)) hlimited hrefused
                      fun part => ?_
                    simp [verdicts, delivered, hparts, hisRead, hplain, saysOk, hdata, hok, channel,
                      remoteId, Except.toOption]
                  · exact @hinvalid invalidResponse
                      (by simp [readReturned, hparts, hfits, hlimit, hserver, herror, hdata, hlow, hnotok,
                        hok])
                      AdapterFailure.transport_not_refuses rfl hlimited hrefused
                      (by simp [delivered, hparts, saysOk, hdata, hok])

theorem prepareOutbound_single {message part : OutboundMessage} {parts : List OutboundMessage}
    (h : prepareOutbound message = .ok parts) (hpart : part ∈ parts) :
    prepareOutbound part.stored = .ok [part.stored] ∧ part.platform = .slack := by
  have hfits : ∀ {part : OutboundMessage}, part.platform = .slack →
      part.text.toList.length ≤ textLimit → prepareOutbound part.stored = .ok [part.stored] := by
    intro part hplatform hlength
    have hstored : part.stored.platform = .slack ∧ part.stored.text = part.text := ⟨hplatform, rfl⟩
    simp [prepareOutbound, hstored, hlength]
  unfold prepareOutbound at h
  by_cases hplatform : message.platform = .slack
  · rw [if_neg (not_not.2 hplatform)] at h
    split at h
    · rename_i hlength
      obtain rfl := Except.ok.inj h
      obtain rfl := List.mem_singleton.1 hpart
      exact ⟨hfits hplatform hlength, hplatform⟩
    · split at h
      · simp at h
      · obtain ⟨chunks, hchunks, h⟩ := bind_eq_ok.1 h
        have hchunk : ∀ chunk ∈ chunks, chunk.platform = .slack ∧
            chunk.text.toList.length ≤ textLimit := fun chunk hchunk => by
          obtain ⟨hle, hsame, -⟩ := chunkOutbound_part hchunks hchunk
          exact ⟨hsame.trans hplatform, (length_le_utf16Units _).trans hle⟩
        split at h
        · obtain rfl := Except.ok.inj h
          exact ⟨hfits (hchunk _ hpart).1 (hchunk _ hpart).2, (hchunk _ hpart).1⟩
        · obtain rfl := Except.ok.inj h
          obtain ⟨chunk, hmem, rfl⟩ := List.mem_map.1 hpart
          obtain ⟨hsame, hlength⟩ := hchunk chunk hmem
          exact ⟨@hfits (withoutBlocks chunk) hsame hlength, hsame⟩
  · simp [hplatform] at h

theorem sendPayload_text {message : OutboundMessage} {method : String}
    {payload : List (String × PyVal)} (h : adapter.sendPayload message = .ok (method, payload)) :
    SortedDict.lookup "text" payload = some (.str message.text) := by
  unfold sendPayload at h
  simp only at h
  split at h
  · split_ifs at h
    obtain ⟨-, rfl⟩ := Prod.mk.inj (Except.ok.inj h)
    rfl
  · split_ifs at h
    · obtain ⟨-, rfl⟩ := Prod.mk.inj (Except.ok.inj h)
      rfl
    · obtain ⟨-, rfl⟩ := Prod.mk.inj (Except.ok.inj h)
      rfl
  · obtain ⟨-, rfl⟩ := Prod.mk.inj (Except.ok.inj h)
    rfl

theorem classifies : adapter.channel.Classifies verdicts where
  reads method a := by
    cases a with
    | returned response => exact reads_returned
    | raised className message response => exact reads_raised
    | cancelled => exact .unclear rfl AdapterFailure.interrupted_not_refuses rfl rfl rfl fun _ => rfl
  undelivered part r e h := by simp [channel, remoteId] at h
  opened _ _ _ := rfl
  confirmed part a h := by
    cases a with
    | returned response =>
        simp only [verdicts, delivered, Bool.and_eq_true] at h
        have hclient : (responseParts response).status.any inClientErrors = false := by
          rcases hstatus : (responseParts response).status with _ | status
          · rfl
          · simp only [isPlain, hstatus, Option.all_some, Bool.and_eq_true, decide_eq_true_eq] at h
            simp only [Option.any_some, inClientErrors, Bool.and_eq_false_iff,
              decide_eq_false_iff_not]
            omega
        simp [verdicts, confirms, h.2, hclient]
    | raised => simp [verdicts, delivered] at h
    | cancelled => simp [verdicts, delivered] at h
  consistent a h := by
    cases a with
    | returned response =>
        simp only [verdicts, confirms, Bool.and_eq_true, Bool.not_eq_true'] at h
        obtain ⟨hok, hclient⟩ := h
        have hnotok : saysNotOk (responseParts response).data = false := by
          rcases hdata : (responseParts response).data with _ | data
          · rfl
          · simp only [saysOk, hdata, Option.any_some, decide_eq_true_eq] at hok
            simp [saysNotOk, hok]
        rcases hstatus : (responseParts response).status with _ | status
        · simp [verdicts, rejects, parts?, hstatus]
        · simp only [hstatus, Option.any_some] at hclient
          simp [verdicts, rejects, parts?, hstatus, hclient, hnotok]
    | raised => simp [verdicts, confirms] at h
    | cancelled => simp [verdicts, confirms] at h
  carries part method payload hplatform h := by
    have hslack : part.platform ≠ .telegram := by
      rw [hplatform]
      simp [channel]
    simp [shownText, sendPayload_text h, hslack]
  single _ _ _ h hpart := prepareOutbound_single h hpart

end SlackAdapter

/-- Each attempt at a row that `prepare_outbound` has let through is recorded soundly, except where
an answer misleads it; without such answers no row is delivered twice by the retry of a failure. -/
structure DeliveryClassified {α ρ : Type} (store : ChannelStore) (adapter : ChannelAdapter α ρ)
    (v : Verdicts α) : Prop where
  attempt : ∀ (p : ChannelProcessor) (x : Attempt α) (t t' : ChannelTables) (record : OutboxRow)
    (requests : List OutboundRequest), OutboxKeyed t →
    p.sendOutboxOnce store adapter x t = (some record, requests, t') → adapter.Enqueued record →
    (ChannelProcessor.SoundlyRecorded v x record requests t' ↔
      ¬p.Misled adapter v x record.message)
  retries : ∀ (key : String) (n : ℕ) (t : ChannelTables),
    ClearAttempts store adapter v key n t → DeliveredOnce key n t

theorem ChannelAdapter.Classifies.deliveryClassified {α ρ : Type} {adapter : ChannelAdapter α ρ}
    {v : Verdicts α} (h : adapter.Classifies v) (store : ChannelStore) :
    DeliveryClassified store adapter v where
  attempt _ _ _ _ _ _ hkeyed hsend henqueued :=
    ChannelProcessor.soundlyRecorded_iff h hkeyed hsend henqueued
  retries _ _ _ hattempts := h.attempts hattempts

theorem delivery_classified (store : ChannelStore) (telegram : TelegramAdapter)
    (slack : SlackAdapter) :
    DeliveryClassified store telegram.channel telegram.verdicts ∧
      DeliveryClassified store slack.channel SlackAdapter.verdicts :=
  ⟨TelegramAdapter.classifies.deliveryClassified store,
    SlackAdapter.classifies.deliveryClassified store⟩

/-! A message of which the remote says no more than an error code. -/

namespace Parcel

def store : ChannelStore :=
  { Relay.store with
    sha := .ofTable [
      ("\x7b\x7d", "44136fa355b3678a1146ad16f7e8649e94fb4fc21fe77e8310c060f61caaff8a"),
      ("\x7b\"channel_id\":\"C1\",\"chunk_index\":0,\"operation\":\"send_message\"" ++
        ",\"parse_mode\":\"plain\",\"platform\":\"telegram\",\"text\":\"done\"\x7d",
        "d105bdcd06606572b95097f3649fb38f3a942b6645ec0e1318d3557891dd8ffd")] }

def message : OutboundMessage :=
  { Relay.message with
    platform := .telegram
    threadKey := "telegram:C1" }

def queued : ChannelTables :=
  (Performed.mk (.enqueueOutbox message) ⟨1, 1, ""⟩).after store ⟨[], [], [], []⟩

def courier : ChannelProcessor := ⟨"relay", .telegram, 60, .idle⟩

def telegram : TelegramAdapter := ⟨3, id, store.py⟩

def attempt : Attempt TelegramAnswer where
  claimedAt := ⟨2, 2, ""⟩
  beats := []
  exchanges := fun _ => ⟨.response 200 (.json (dict [("error_code", .int 400)])), none⟩
  markedAt := ⟨3, 3, ""⟩

def sent : Option OutboxRow × List OutboundRequest × ChannelTables :=
  courier.sendOutboxOnce store telegram.channel attempt queued

theorem sent_record : sent.1.map (fun record => (record.idempotencyKey, record.message)) =
    some ("reply", message) := by decide +kernel

theorem sent_requests : sent.2.1.map OutboundRequest.exchange = [0] := by decide +kernel

theorem sent_failed : (sent.2.2.findOutbox "reply").map OutboxRow.status = some .failed := by
  decide +kernel

end Parcel

/-- The remote accepts the one request of the attempt, and the row fails. -/
theorem accepted_request_fails : ∃ record requests row,
    Parcel.courier.sendOutboxOnce Parcel.store Parcel.telegram.channel Parcel.attempt Parcel.queued =
        (some record, requests, Parcel.sent.2.2) ∧ OutboxKeyed Parcel.queued ∧
      Parcel.telegram.channel.Enqueued record ∧
      Parcel.sent.2.2.findOutbox record.idempotencyKey = some row ∧ row.status = .failed ∧
      ∃ accepted, Accepts Parcel.telegram.verdicts Parcel.attempt.exchanges accepted ∧
        acceptedCount accepted requests = 1 := by
  obtain ⟨record, hrecord, hsame⟩ := Option.map_eq_some_iff.1 Parcel.sent_record
  obtain ⟨row, hrow, hfailed⟩ := Option.map_eq_some_iff.1 Parcel.sent_failed
  obtain ⟨hkey, hmessage⟩ := Prod.mk.inj hsame
  have hkeyed : (Parcel.queued.outbox.map OutboxRow.idempotencyKey).Nodup := by decide +kernel
  refine ⟨record, Parcel.sent.2.1, row, ?_, hkeyed, ?_, by rw [hkey, hrow], hfailed, fun _ => true,
    ?_, ?_⟩
  · rw [← hrecord]
    rfl
  · exact ⟨Parcel.message, [Parcel.message], Parcel.message, by decide +kernel,
      List.mem_singleton.2 rfl, by rw [hmessage]; decide +kernel, by rw [hkey]; rfl⟩
  · exact ⟨fun _ h => by simp [TelegramAdapter.verdicts, TelegramAdapter.rejects, Parcel.attempt,
      TelegramAdapter.isSuccess, TelegramAdapter.bodyEntries, mapping?, dict, getOrNone,
      SortedDict.lookup] at h, fun _ _ => rfl⟩
  · have hlength := congrArg List.length Parcel.sent_requests
    rw [List.length_map, List.length_singleton] at hlength
    rw [acceptedCount, List.countP_true, hlength]

end Polaris
