import Polaris.Channels.Delivery

namespace Polaris
open PyJson ChannelStore

/-- What the remote's answers say of the request, and what the adapter takes them for. -/
structure Verdicts (α : Type) where
  rejects : α → Bool
  confirms : α → Bool
  limited : α → Bool
  refused : α → Bool
  delivered : OutboundMessage → α → Bool

/-- The text that the remote shows for a request of a message. -/
def shownText (message : OutboundMessage) (payload : List (String × PyVal)) : Option String :=
  match SortedDict.lookup "text" payload with
  | some (.str text) =>
      if message.platform = .telegram ∧ message.parseMode = .html ∧
          !TelegramAdapter.isTrusted message then
        some (String.ofList (unescapeHtml text.toList))
      else some text
  | _ => none

namespace AdapterFailure

/-- The failure says that nothing has been delivered. -/
def Refuses (e : AdapterFailure) : Prop :=
  ∃ failure, e.sendFailure = some failure ∧ failure.deliveryUnknown = false

theorem api_refuses {message : String} {statusCode errorCode : Option ℤ} :
    (api message statusCode errorCode).Refuses := ⟨_, rfl, rfl⟩

theorem transport_not_refuses {message : String} : ¬(transport message).Refuses := by
  rintro ⟨failure, hfailure, hknown⟩
  obtain rfl := Option.some.inj hfailure
  simp at hknown

theorem interrupted_not_refuses {i : Interrupt} : ¬(interrupted i).Refuses := by
  rintro ⟨failure, hfailure, hknown⟩
  cases i with
  | cancelled => simp [sendFailure] at hfailure
  | raised message =>
      obtain rfl := Option.some.inj hfailure
      simp at hknown

end AdapterFailure

namespace ChannelAdapter
variable {α ρ : Type}

/-- The three ways in which an answer is read: as a refusal, as nothing that is known, or as a result,
which is a delivery if it names the message. -/
inductive ReadAs (adapter : ChannelAdapter α ρ) (v : Verdicts α) (method : String) (a : α) : Prop
  | refusal {e : AdapterFailure} : adapter.readAnswer method a = .error e → e.Refuses →
      adapter.isRateLimit e = v.limited a → v.refused a = !v.limited a →
      (∀ part, v.delivered part a = false) → ReadAs adapter v method a
  | unclear {e : AdapterFailure} : adapter.readAnswer method a = .error e → ¬e.Refuses →
      adapter.isRateLimit e = false → v.limited a = false → v.refused a = false →
      (∀ part, v.delivered part a = false) → ReadAs adapter v method a
  | result {r : ρ} : adapter.readAnswer method a = .ok r → v.limited a = false →
      v.refused a = false →
      (∀ part, v.delivered part a = (adapter.remoteId part r).toOption.isSome) →
      ReadAs adapter v method a

/-- The answers are read as the verdicts say, and a prepared message is sent as it is. -/
structure Classifies (adapter : ChannelAdapter α ρ) (v : Verdicts α) : Prop where
  reads : ∀ method a, ReadAs adapter v method a
  undelivered : ∀ part r e, adapter.remoteId part r = .error e → ¬e.Refuses
  opened : ∀ part a, v.delivered part a = true → adapter.isClosed a = false
  confirmed : ∀ part a, v.delivered part a = true → v.confirms a = true
  consistent : ∀ a, v.confirms a = true → v.rejects a = false
  carries : ∀ part method payload, part.platform = adapter.platform →
    adapter.sendPayload part = .ok (method, payload) → shownText part payload = some part.text
  single : ∀ message parts part, adapter.prepareOutbound message = .ok parts → part ∈ parts →
    adapter.prepareOutbound part.stored = .ok [part.stored] ∧ part.platform = adapter.platform

namespace Classifies
variable {adapter : ChannelAdapter α ρ} {v : Verdicts α} {method : String} {a : α}
  {part : OutboundMessage} {e : AdapterFailure} {r : ρ}

theorem limited (h : adapter.Classifies v) (method : String) (hlimited : v.limited a = true) :
    ∃ e, adapter.readAnswer method a = .error e ∧ adapter.isRateLimit e = true ∧ e.Refuses := by
  cases h.reads method a with
  | refusal he hrefuses hlimit => exact ⟨_, he, by rw [hlimit, hlimited], hrefuses⟩
  | unclear _ _ _ hnot => simp [hnot] at hlimited
  | result _ hnot => simp [hnot] at hlimited

theorem refused (h : adapter.Classifies v) (method : String) (hrefused : v.refused a = true) :
    ∃ e, adapter.readAnswer method a = .error e ∧ adapter.isRateLimit e = false ∧ e.Refuses := by
  cases h.reads method a with
  | refusal he hrefuses hlimit hopposite =>
      have hnot : v.limited a = false := by simpa [hrefused] using hopposite
      exact ⟨_, he, by rw [hlimit, hnot], hrefuses⟩
  | unclear _ _ _ _ hnot => simp [hnot] at hrefused
  | result _ _ hnot => simp [hnot] at hrefused

theorem delivered (h : adapter.Classifies v) (method : String)
    (hdelivered : v.delivered part a = true) :
    ∃ r remoteId, adapter.readAnswer method a = .ok r ∧ adapter.remoteId part r = .ok remoteId := by
  cases h.reads method a with
  | refusal _ _ _ _ hnot => simp [hnot] at hdelivered
  | unclear _ _ _ _ _ hnot => simp [hnot] at hdelivered
  | @result r hok _ _ hid =>
      rw [hid] at hdelivered
      cases hremote : adapter.remoteId part r with
      | ok remoteId => exact ⟨r, remoteId, hok, hremote⟩
      | error e => simp [hremote, Except.toOption] at hdelivered

theorem failed (h : adapter.Classifies v) (he : adapter.readAnswer method a = .error e)
    (hrefuses : e.Refuses) : v.limited a = true ∨ v.refused a = true := by
  cases h.reads method a with
  | refusal _ _ _ hopposite =>
      rw [hopposite]
      cases v.limited a <;> simp
  | unclear he' hnot =>
      obtain rfl := Except.error.inj (he.symm.trans he')
      exact absurd hrefuses hnot
  | result hok => simp [he] at hok

theorem retried (h : adapter.Classifies v) (he : adapter.readAnswer method a = .error e)
    (hlimit : adapter.isRateLimit e = true) : v.limited a = true := by
  cases h.reads method a with
  | refusal he' _ hlimited =>
      obtain rfl := Except.error.inj (he.symm.trans he')
      rw [← hlimited, hlimit]
  | unclear he' _ hnot =>
      obtain rfl := Except.error.inj (he.symm.trans he')
      simp [hlimit] at hnot
  | result hok => simp [he] at hok

theorem answered (h : adapter.Classifies v) {remoteId : Option String}
    (hok : adapter.readAnswer method a = .ok r) (hremote : adapter.remoteId part r = .ok remoteId) :
    v.delivered part a = true := by
  cases h.reads method a with
  | refusal he => simp [hok] at he
  | unclear he => simp [hok] at he
  | result hok' _ _ hid =>
      obtain rfl := Except.ok.inj (hok.symm.trans hok')
      simp [hid, hremote, Except.toOption]

end Classifies

variable (adapter : ChannelAdapter α ρ) (v : Verdicts α)

/-- The row of a message that has been put in the outbox after `prepare_outbound`. -/
def Enqueued (record : OutboxRow) : Prop :=
  ∃ message parts part, adapter.prepareOutbound message = .ok parts ∧ part ∈ parts ∧
    record.message = part.stored ∧ record.idempotencyKey = part.idempotencyKey

/-- An answer that is taken for a refusal, without being one. -/
def Misleads (a : α) : Prop :=
  (v.limited a = true ∨ v.refused a = true) ∧ v.rejects a = false ∧ adapter.isClosed a = false

/-- The exchange is over, and what it has come to is known. -/
def Settles (message : OutboundMessage) (exchanges : ℕ → Exchange α) (last : ℕ) : Prop :=
  v.delivered message (exchanges last).answer = true ∨ v.refused (exchanges last).answer = true ∨
    v.limited (exchanges last).answer = true ∧ last = adapter.maxSendRetries

/-- A send that settles after an answer that misleads it. -/
def Misled (message : OutboundMessage) (exchanges : ℕ → Exchange α) : Prop :=
  ∃ last ≤ adapter.maxSendRetries,
    (∀ n < last, v.limited (exchanges n).answer = true ∧ (exchanges n).pause = none) ∧
      adapter.Settles v message exchanges last ∧
      ∃ n ≤ last, adapter.Misleads v (exchanges n).answer

/-- The adapter comes to make a request of the message. -/
def Sends (message : OutboundMessage) : Prop :=
  adapter.ready = .ok () ∧ ∃ payload, adapter.sendPayload message = .ok payload

end ChannelAdapter

/-- What the remote may have accepted: nothing that it rejects, and all that it confirms. -/
structure Accepts {α : Type} (v : Verdicts α) (exchanges : ℕ → Exchange α) (accepted : ℕ → Bool) :
    Prop where
  rejected : ∀ n, v.rejects (exchanges n).answer = true → accepted n = false
  confirmed : ∀ n, v.confirms (exchanges n).answer = true → accepted n = true

/-- The number of the requests that the remote has accepted. -/
def acceptedCount (accepted : ℕ → Bool) (requests : List OutboundRequest) : ℕ :=
  requests.countP fun request => accepted request.exchange

/-! The loop over the exchanges. -/

namespace ChannelAdapter
variable {α ρ : Type} {adapter : ChannelAdapter α ρ} {v : Verdicts α}
  {exchanges : ℕ → Exchange α} {part : OutboundMessage}

/-- The exchange ends with a rate limit, and the pause after it is over. -/
def Retried (adapter : ChannelAdapter α ρ) (exchanges : ℕ → Exchange α) (part : OutboundMessage)
    (n : ℕ) : Prop :=
  (∃ e, (adapter.sendPart exchanges part n).1 = .error e ∧ adapter.isRateLimit e = true) ∧
    (exchanges n).pause = none

/-- How the last exchange ends the loop, with so many retries left. -/
inductive Ends (adapter : ChannelAdapter α ρ) (exchanges : ℕ → Exchange α) (part : OutboundMessage)
    (n : ℕ) : ℕ → Except AdapterFailure ρ → Prop
  | answered {retries : ℕ} {r : ρ} : (adapter.sendPart exchanges part n).1 = .ok r →
      Ends adapter exchanges part n retries (.ok r)
  | failed {retries : ℕ} {e : AdapterFailure} : (adapter.sendPart exchanges part n).1 = .error e →
      adapter.isRateLimit e = false → Ends adapter exchanges part n retries (.error e)
  | exhausted {e : AdapterFailure} : (adapter.sendPart exchanges part n).1 = .error e →
      Ends adapter exchanges part n 0 (.error e)
  | interrupted {retries : ℕ} {e : AdapterFailure} {i : Interrupt} :
      (adapter.sendPart exchanges part n).1 = .error e → adapter.isRateLimit e = true →
      (exchanges n).pause = some i →
      Ends adapter exchanges part n (retries + 1) (.error (.interrupted i))

theorem sendPartWithRetry_spec (retries n : ℕ) :
    ∃ k left, k + left = retries ∧ (∀ m < k, adapter.Retried exchanges part (n + m)) ∧
      (adapter.sendPartWithRetry exchanges part retries n).requests =
        (List.range' n (k + 1)).flatMap (fun m => (adapter.sendPart exchanges part m).2) ∧
      adapter.Ends exchanges part (n + k) left
        (adapter.sendPartWithRetry exchanges part retries n).result := by
  induction retries generalizing n with
  | zero =>
      refine ⟨0, 0, rfl, fun m hm => absurd hm (Nat.not_lt_zero m), ?_, ?_⟩
      · simp [sendPartWithRetry]
      · cases hresult : (adapter.sendPart exchanges part n).1 with
        | error e => simpa [sendPartWithRetry, hresult] using Ends.exhausted hresult
        | ok r => simpa [sendPartWithRetry, hresult] using Ends.answered hresult
  | succ retries ih =>
      rcases hsent : adapter.sendPart exchanges part n with ⟨e | r, requests⟩
      · have hresult : (adapter.sendPart exchanges part n).1 = .error e := by rw [hsent]
        by_cases hlimit : adapter.isRateLimit e = true
        · cases hpause : (exchanges n).pause with
          | some i =>
              refine ⟨0, retries + 1, by omega, fun m hm => absurd hm (Nat.not_lt_zero m), ?_, ?_⟩
              · simp [sendPartWithRetry, hsent, hlimit, hpause]
              · simpa [sendPartWithRetry, hsent, hlimit, hpause] using
                  Ends.interrupted hresult hlimit hpause
          | none =>
              obtain ⟨k, left, hk, hretried, hrequests, hends⟩ := ih (n + 1)
              refine ⟨k + 1, left, by omega, fun m hm => ?_, ?_, ?_⟩
              · cases m with
                | zero => exact ⟨⟨e, hresult, hlimit⟩, hpause⟩
                | succ m => simpa [Nat.add_right_comm, Nat.add_assoc] using hretried m (by omega)
              · rw [List.range'_succ, List.flatMap_cons, ← hrequests]
                simp [sendPartWithRetry, hsent, hlimit, hpause]
              · have hlast : n + (k + 1) = n + 1 + k := by omega
                rw [hlast]
                simpa [sendPartWithRetry, hsent, hlimit, hpause] using hends
        · refine ⟨0, retries + 1, by omega, fun m hm => absurd hm (Nat.not_lt_zero m), ?_, ?_⟩
          · simp [sendPartWithRetry, hsent, hlimit]
          · simpa [sendPartWithRetry, hsent, hlimit] using
              Ends.failed hresult (Bool.eq_false_iff.2 hlimit)
      · have hresult : (adapter.sendPart exchanges part n).1 = .ok r := by rw [hsent]
        refine ⟨0, retries + 1, by omega, fun m hm => absurd hm (Nat.not_lt_zero m), ?_, ?_⟩
        · simp [sendPartWithRetry, hsent]
        · simpa [sendPartWithRetry, hsent] using Ends.answered hresult

theorem send_single (hplatform : part.platform = adapter.platform)
    (hready : adapter.ready = .ok ()) (hsingle : adapter.prepareOutbound part = .ok [part]) :
    let sent := adapter.sendPartWithRetry exchanges part adapter.maxSendRetries 0
    (adapter.send exchanges part).requests = sent.requests ∧
      (adapter.send exchanges part).result =
        (sent.result.bind (adapter.remoteId part)).map fun remoteId =>
          adapter.receipt part remoteId.toList := by
  intro sent
  simp only [send, hplatform, ne_eq, not_true, if_false, hready, hsingle, sendParts]
  cases hresult : sent.result.bind (adapter.remoteId part) with
  | error e => simp [sent, Except.map]
  | ok remoteId => simp [sent, Except.map]

/-- Where no request is made, the send fails. -/
theorem send_nothing (hplatform : part.platform = adapter.platform)
    (hsingle : adapter.prepareOutbound part = .ok [part]) (hsends : ¬adapter.Sends part) :
    (adapter.send exchanges part).requests = [] ∧
      ∃ e, (adapter.send exchanges part).result = .error e := by
  cases hready : adapter.ready with
  | error e => simp [send, hplatform, hready]
  | ok =>
      obtain ⟨e, hpayload⟩ : ∃ e, adapter.sendPayload part = .error e := by
        cases hpayload : adapter.sendPayload part with
        | error e => exact ⟨e, rfl⟩
        | ok payload => exact absurd ⟨hready, payload, hpayload⟩ hsends
      have hsent : ∀ m, adapter.sendPart exchanges part m = (.error (.raised e), []) := fun m => by
        simp [sendPart, hpayload]
      obtain ⟨hrequests, hresult⟩ := @send_single α ρ adapter exchanges part hplatform hready hsingle
      obtain ⟨k, left, -, -, hall, hends⟩ :=
        @sendPartWithRetry_spec α ρ adapter exchanges part adapter.maxSendRetries 0
      rw [hrequests, hresult, hall]
      refine ⟨by simp [hsent], ?_⟩
      generalize (adapter.sendPartWithRetry exchanges part adapter.maxSendRetries 0).result = result
        at hends ⊢
      cases hends with
      | answered hok => simp [hsent] at hok
      | failed => exact ⟨_, rfl⟩
      | exhausted => exact ⟨_, rfl⟩
      | interrupted => exact ⟨_, rfl⟩

theorem acceptedCount_sendPart {accepted : ℕ → Bool} {method : String}
    {payload : List (String × PyVal)} (hpayload : adapter.sendPayload part = .ok (method, payload))
    (ns : List ℕ) :
    acceptedCount accepted (ns.flatMap fun m => (adapter.sendPart exchanges part m).2) =
      ns.countP fun m => !adapter.isClosed (exchanges m).answer && accepted m := by
  induction ns with
  | nil => rfl
  | cons m ns ih =>
      have hone : acceptedCount accepted (adapter.sendPart exchanges part m).2 =
          if !adapter.isClosed (exchanges m).answer && accepted m then 1 else 0 := by
        cases hclosed : adapter.isClosed (exchanges m).answer <;>
          simp [sendPart, hpayload, hclosed, acceptedCount, List.countP_cons]
      rw [List.flatMap_cons, List.countP_cons, ← ih, ← hone]
      simp [acceptedCount, List.countP_append, Nat.add_comm]

theorem not_settled {e : AdapterFailure} {status : OutboxStatus} (h : ¬e.Refuses)
    (hstatus : status = settledStatus (e.sendFailure.map .error)) :
    status ≠ .sent ∧ status ≠ .failed := by
  subst hstatus
  cases hfailure : e.sendFailure with
  | none => simp [settledStatus]
  | some failure =>
      have hunknown : failure.deliveryUnknown = true := by
        by_contra hknown
        exact h ⟨failure, hfailure, by simpa using hknown⟩
      simp [settledStatus, hunknown]

theorem failed_of_refuses {e : AdapterFailure} (h : e.Refuses) :
    settledStatus (e.sendFailure.map .error) = .failed := by
  obtain ⟨failure, hfailure, hknown⟩ := h
  simp [settledStatus, hfailure, hknown]

theorem Classifies.settles_ok (h : adapter.Classifies v) {method : String} {last : ℕ} {r : ρ}
    (hsettles : adapter.Settles v part exchanges last)
    (hok : adapter.readAnswer method (exchanges last).answer = .ok r) :
    ∃ remoteId, adapter.remoteId part r = .ok remoteId := by
  rcases hsettles with hdelivered | hrefused | ⟨hlimit, -⟩
  · obtain ⟨r', remoteId, hok', hid⟩ := h.delivered method hdelivered
    obtain rfl := Except.ok.inj (hok.symm.trans hok')
    exact ⟨remoteId, hid⟩
  · obtain ⟨e, he, -⟩ := h.refused method hrefused
    simp [hok] at he
  · obtain ⟨e, he, -⟩ := h.limited method hlimit
    simp [hok] at he

theorem Classifies.settles_error (h : adapter.Classifies v) {method : String} {last : ℕ}
    {e : AdapterFailure} (hsettles : adapter.Settles v part exchanges last)
    (he : adapter.readAnswer method (exchanges last).answer = .error e) :
    e.Refuses ∧ (adapter.isRateLimit e = false ∨ last = adapter.maxSendRetries) := by
  rcases hsettles with hdelivered | hrefused | ⟨hlimit, hlast⟩
  · obtain ⟨r, remoteId, hok, -⟩ := h.delivered method hdelivered
    simp [he] at hok
  · obtain ⟨e', he', hnot, hrefuses⟩ := h.refused method hrefused
    obtain rfl := Except.error.inj (he.symm.trans he')
    exact ⟨hrefuses, .inl hnot⟩
  · obtain ⟨e', he', -, hrefuses⟩ := h.limited method hlimit
    obtain rfl := Except.error.inj (he.symm.trans he')
    exact ⟨hrefuses, .inr hlast⟩

/-- What a send that makes requests comes to: the exchanges before the last one are retried, and the
last one decides. -/
theorem Classifies.send_spec (h : adapter.Classifies v) (hplatform : part.platform = adapter.platform)
    (hsingle : adapter.prepareOutbound part = .ok [part]) {method : String}
    {payload : List (String × PyVal)} (hready : adapter.ready = .ok ())
    (hpayload : adapter.sendPayload part = .ok (method, payload)) :
    ∃ k ≤ adapter.maxSendRetries,
      (∀ m < k, v.limited (exchanges m).answer = true ∧ (exchanges m).pause = none) ∧
      (adapter.send exchanges part).requests =
        (List.range (k + 1)).flatMap (fun m => (adapter.sendPart exchanges part m).2) ∧
      (settledStatus (adapter.send exchanges part).outcome = .sent ∧
          v.delivered part (exchanges k).answer = true ∨
        settledStatus (adapter.send exchanges part).outcome = .failed ∧
          (v.refused (exchanges k).answer = true ∨
            v.limited (exchanges k).answer = true ∧ k = adapter.maxSendRetries) ∨
        ((settledStatus (adapter.send exchanges part).outcome ≠ .sent ∧
          settledStatus (adapter.send exchanges part).outcome ≠ .failed) ∧
            ¬adapter.Settles v part exchanges k)) ∧
      (v.limited (exchanges k).answer = true → (exchanges k).pause = none →
        k = adapter.maxSendRetries) := by
  have hread : ∀ m, (adapter.sendPart exchanges part m).1 =
      adapter.readAnswer method (exchanges m).answer := fun m => by simp [sendPart, hpayload]
  obtain ⟨hrequests, hresult⟩ := @send_single α ρ adapter exchanges part hplatform hready hsingle
  obtain ⟨k, left, hk, hretried, hall, hends⟩ :=
    @sendPartWithRetry_spec α ρ adapter exchanges part adapter.maxSendRetries 0
  have houtcome : ∀ {e : AdapterFailure},
      (adapter.sendPartWithRetry exchanges part adapter.maxSendRetries 0).result = .error e →
      (adapter.send exchanges part).outcome = e.sendFailure.map .error := by
    intro e he
    simp [SendEnd.outcome, hresult, he, Except.bind, Except.map]
  refine ⟨k, by omega, fun m hm => ?_, by rw [hrequests, hall, List.range_eq_range'], ?_⟩
  · obtain ⟨⟨e, he, hlimit⟩, hpause⟩ := hretried m hm
    rw [Nat.zero_add, hread] at he
    rw [Nat.zero_add] at hpause
    exact ⟨h.retried he hlimit, hpause⟩
  · rw [Nat.zero_add] at hends
    generalize hsent : (adapter.sendPartWithRetry exchanges part adapter.maxSendRetries 0).result =
      result at hends houtcome
    cases hends with
    | @answered _ r hok =>
        rw [hread] at hok
        refine ⟨?_, fun hlimit _ => ?_⟩
        · cases hid : adapter.remoteId part r with
          | ok remoteId =>
              refine .inl ⟨?_, h.answered hok hid⟩
              simp [SendEnd.outcome, hresult, hsent, Except.bind, Except.map, hid, settledStatus]
          | error e =>
              refine .inr (.inr ⟨not_settled (h.undelivered _ _ _ hid) ?_, fun hsettles => ?_⟩)
              · simp [SendEnd.outcome, hresult, hsent, Except.bind, Except.map, hid]
              · obtain ⟨remoteId, hid'⟩ := h.settles_ok hsettles hok
                simp [hid] at hid'
        · obtain ⟨e, he, -⟩ := h.limited method hlimit
          simp [hok] at he
    | @failed _ e he hnot =>
        rw [hread] at he
        refine ⟨?_, fun hlimit _ => ?_⟩
        · by_cases hrefuses : e.Refuses
          · refine .inr (.inl ⟨by rw [houtcome rfl, failed_of_refuses hrefuses], ?_⟩)
            rcases h.failed he hrefuses with hlimit | hrefused
            · obtain ⟨e', he', hlimit, -⟩ := h.limited method hlimit
              obtain rfl := Except.error.inj (he.symm.trans he')
              simp [hnot] at hlimit
            · exact .inl hrefused
          · exact .inr (.inr ⟨not_settled hrefuses (by rw [houtcome rfl]),
              fun hsettles => hrefuses (h.settles_error hsettles he).1⟩)
        · obtain ⟨e', he', hlimit, -⟩ := h.limited method hlimit
          obtain rfl := Except.error.inj (he.symm.trans he')
          simp [hnot] at hlimit
    | @exhausted e he =>
        rw [hread] at he
        refine ⟨?_, fun _ _ => by omega⟩
        by_cases hrefuses : e.Refuses
        · refine .inr (.inl ⟨by rw [houtcome rfl, failed_of_refuses hrefuses], ?_⟩)
          rcases h.failed he hrefuses with hlimit | hrefused
          · exact .inr ⟨hlimit, by omega⟩
          · exact .inl hrefused
        · exact .inr (.inr ⟨not_settled hrefuses (by rw [houtcome rfl]),
            fun hsettles => hrefuses (h.settles_error hsettles he).1⟩)
    | @interrupted _ e i he hlimit hpause =>
        refine ⟨.inr (.inr ⟨not_settled AdapterFailure.interrupted_not_refuses
          (by rw [houtcome rfl]), fun hsettles => ?_⟩), fun _ hnone => ?_⟩
        · rw [hread] at he
          rcases (h.settles_error hsettles he).2 with hnot | hlast
          · simp [hlimit] at hnot
          · omega
        · simp [hpause] at hnone

end ChannelAdapter

/-- What a status says of the requests of an attempt, and of those that have been accepted. -/
structure Sound (message : OutboundMessage) (requests : List OutboundRequest)
    (accepted : ℕ → Bool) (status : OutboxStatus) : Prop where
  failed : status = .failed → acceptedCount accepted requests = 0
  sent : status = .sent → acceptedCount accepted requests = 1 ∧
    ∀ request ∈ requests, shownText message request.payload = some message.text
  unsure : 0 < acceptedCount accepted requests → status ∈ [OutboxStatus.sent, .unknown, .sending]

theorem Sound.sending {message : OutboundMessage} {requests : List OutboundRequest}
    {accepted : ℕ → Bool} : Sound message requests accepted .sending :=
  ⟨by simp, by simp, by simp⟩

namespace ChannelAdapter
variable {α ρ : Type} {adapter : ChannelAdapter α ρ} {v : Verdicts α}
  {exchanges : ℕ → Exchange α} {part : OutboundMessage} {accepted : ℕ → Bool}

theorem settledStatus_mem (outcome : Option (Except SendFailure RemoteReceipt))
    (h : settledStatus outcome ≠ .failed) :
    settledStatus outcome ∈ [OutboxStatus.sent, .unknown, .sending] := by
  rcases outcome with _ | e | receipt
  · simp [settledStatus]
  · cases hunknown : e.deliveryUnknown <;> simp_all [settledStatus]
  · simp [settledStatus]

theorem settledStatus_error (e : AdapterFailure) :
    settledStatus (e.sendFailure.map .error) ≠ .sent := by
  cases e.sendFailure with
  | none => simp [settledStatus]
  | some failure => cases hunknown : failure.deliveryUnknown <;> simp [settledStatus, hunknown]

theorem sendPart_payload {method : String} {payload : List (String × PyVal)} {m : ℕ}
    {request : OutboundRequest} (hpayload : adapter.sendPayload part = .ok (method, payload))
    (h : request ∈ (adapter.sendPart exchanges part m).2) : request.payload = payload := by
  simp only [sendPart, hpayload] at h
  split at h
  · simp at h
  · obtain rfl := List.mem_singleton.1 h
    rfl

/-- An exchange that does not mislead and that is not the delivery has nothing accepted. -/
theorem not_accepted {n : ℕ} (haccepts : Accepts v exchanges accepted)
    (hfails : v.limited (exchanges n).answer = true ∨ v.refused (exchanges n).answer = true)
    (hclear : ¬adapter.Misleads v (exchanges n).answer) :
    (!adapter.isClosed (exchanges n).answer && accepted n) = false := by
  cases hrejects : v.rejects (exchanges n).answer with
  | true => simp [haccepts.rejected n hrejects]
  | false =>
      cases hclosed : adapter.isClosed (exchanges n).answer with
      | true => rfl
      | false => exact absurd ⟨hfails, hrejects, hclosed⟩ hclear

/-- A send that is not misled is sound. -/
theorem Classifies.sound (h : adapter.Classifies v) (hplatform : part.platform = adapter.platform)
    (hsingle : adapter.prepareOutbound part = .ok [part]) (haccepts : Accepts v exchanges accepted)
    (hclear : ¬(adapter.Sends part ∧ adapter.Misled v part exchanges)) :
    Sound part (adapter.send exchanges part).requests accepted
      (settledStatus (adapter.send exchanges part).outcome) := by
  by_cases hsends : adapter.Sends part
  · obtain ⟨hready, ⟨method, payload⟩, hpayload⟩ := id hsends
    obtain ⟨k, hk, hretried, hrequests, hstatus, -⟩ :=
      @Classifies.send_spec α ρ adapter v exchanges part h hplatform hsingle method payload hready
        hpayload
    have hcount := @acceptedCount_sendPart α ρ adapter exchanges part accepted method payload hpayload
      (List.range (k + 1))
    rw [← hrequests] at hcount
    have hnone : adapter.Settles v part exchanges k → ∀ n ≤ k,
        v.limited (exchanges n).answer = true ∨ v.refused (exchanges n).answer = true →
        (!adapter.isClosed (exchanges n).answer && accepted n) = false :=
      fun hsettles n hn hfails => not_accepted haccepts hfails fun hmisleads =>
        hclear ⟨hsends, k, hk, hretried, hsettles, n, hn, hmisleads⟩
    rcases hstatus with ⟨hsent, hdelivered⟩ | ⟨hfailed, hfails⟩ | ⟨⟨hsent, hfailed⟩, -⟩
    · have hbefore : (List.range k).countP
          (fun m => !adapter.isClosed (exchanges m).answer && accepted m) = 0 :=
        List.countP_eq_zero.2 fun m hm => by
          rw [List.mem_range] at hm
          simpa using hnone (.inl hdelivered) m (by omega) (.inl (hretried m hm).1)
      have hlast : (!adapter.isClosed (exchanges k).answer && accepted k) = true := by
        simp [h.opened _ _ hdelivered, haccepts.confirmed k (h.confirmed _ _ hdelivered)]
      rw [List.range_succ, List.countP_append, hbefore, List.countP_singleton, hlast] at hcount
      rw [hsent]
      refine ⟨by simp, fun _ => ⟨by simpa using hcount, fun request hrequest => ?_⟩, by simp⟩
      rw [hrequests, List.mem_flatMap] at hrequest
      obtain ⟨m, -, hrequest⟩ := hrequest
      rw [sendPart_payload hpayload hrequest]
      exact h.carries _ _ _ hplatform hpayload
    · have hsettles : adapter.Settles v part exchanges k := .inr hfails
      have hzero : acceptedCount accepted (adapter.send exchanges part).requests = 0 := by
        rw [hcount]
        refine List.countP_eq_zero.2 fun m hm => ?_
        rw [List.mem_range] at hm
        rcases Nat.lt_or_ge m k with hlt | hge
        · simpa using hnone hsettles m (by omega) (.inl (hretried m hlt).1)
        · obtain rfl : m = k := by omega
          simpa using hnone hsettles m le_rfl (hfails.symm.imp And.left id)
      rw [hfailed]
      exact ⟨fun _ => hzero, by simp, by simp [hzero]⟩
    · exact ⟨fun hstatus => absurd hstatus hfailed, fun hstatus => absurd hstatus hsent,
        fun _ => settledStatus_mem _ hfailed⟩
  · obtain ⟨hrequests, e, he⟩ :=
      @send_nothing α ρ adapter exchanges part hplatform hsingle hsends
    have hnotsent : settledStatus (adapter.send exchanges part).outcome ≠ .sent := by
      rw [SendEnd.outcome, he]
      exact settledStatus_error e
    rw [hrequests]
    exact ⟨fun _ => rfl, fun hsent => absurd hsent hnotsent, by simp [acceptedCount]⟩

/-- A send that is misled is not, if the remote has accepted all that it may have. -/
theorem Classifies.unsound (h : adapter.Classifies v)
    (hplatform : part.platform = adapter.platform)
    (hsingle : adapter.prepareOutbound part = .ok [part]) (hsends : adapter.Sends part)
    (hmisled : adapter.Misled v part exchanges) :
    ∃ accepted, Accepts v exchanges accepted ∧
      ¬Sound part (adapter.send exchanges part).requests accepted
        (settledStatus (adapter.send exchanges part).outcome) := by
  obtain ⟨hready, ⟨method, payload⟩, hpayload⟩ := id hsends
  obtain ⟨last, hlast, hbefore, hsettles, n, hn, hfails, hrejects, hclosed⟩ := hmisled
  obtain ⟨k, hk, hretried, hrequests, hstatus, hend⟩ :=
    @Classifies.send_spec α ρ adapter v exchanges part h hplatform hsingle method payload hready
      hpayload
  -- the loop ends where the condition says that it does
  obtain rfl : k = last := by
    rcases Nat.lt_trichotomy k last with hlt | heq | hgt
    · have hmax := hend (hbefore k hlt).1 (hbefore k hlt).2
      omega
    · exact heq
    · obtain ⟨e, he, hlimit, -⟩ := h.limited method (hretried last hgt).1
      rcases (h.settles_error hsettles he).2 with hnot | hmax
      · simp [hlimit] at hnot
      · omega
  refine ⟨fun m => !v.rejects (exchanges m).answer, ⟨fun m hm => by simp [hm], fun m hm => ?_⟩,
    fun hsound => ?_⟩
  · simp [h.consistent _ hm]
  · have hcount := @acceptedCount_sendPart α ρ adapter exchanges part
      (fun m => !v.rejects (exchanges m).answer) method payload hpayload (List.range (k + 1))
    rw [← hrequests] at hcount
    rcases hstatus with ⟨hsent, hdelivered⟩ | ⟨hfailed, -⟩ | ⟨-, hnot⟩
    · have hne : n ≠ k := by
        rintro rfl
        obtain ⟨r, remoteId, hok, -⟩ := h.delivered method hdelivered
        rcases hfails with hlimit | hrefused
        · obtain ⟨e, he, -⟩ := h.limited method hlimit
          simp [hok] at he
        · obtain ⟨e, he, -⟩ := h.refused method hrefused
          simp [hok] at he
      have hmisleading : 0 < (List.range k).countP
          (fun m => !adapter.isClosed (exchanges m).answer && !v.rejects (exchanges m).answer) :=
        List.countP_pos_iff.2 ⟨n, List.mem_range.2 (by omega), by simp [hclosed, hrejects]⟩
      have hdelivery : (!adapter.isClosed (exchanges k).answer && !v.rejects (exchanges k).answer) =
          true := by
        simp [h.opened _ _ hdelivered, h.consistent _ (h.confirmed _ _ hdelivered)]
      rw [List.range_succ, List.countP_append, List.countP_singleton, hdelivery, if_pos rfl] at hcount
      have hone := (hsound.sent hsent).1
      omega
    · have hzero := hsound.failed hfailed
      rw [hcount, List.countP_eq_zero] at hzero
      exact hzero n (List.mem_range.2 (by omega)) (by simp [hclosed, hrejects])
    · exact hnot hsettles

/-- A message that has been prepared is a single part, and it has the key of its row. -/
theorem Classifies.enqueued (h : adapter.Classifies v) {record : OutboxRow}
    (henqueued : adapter.Enqueued record) :
    adapter.prepareOutbound record.message = .ok [record.message] ∧
      record.message.platform = adapter.platform ∧
      record.message.idempotencyKey = record.idempotencyKey := by
  obtain ⟨message, parts, part, hparts, hpart, hmessage, hkey⟩ := henqueued
  obtain ⟨hsingle, hplatform⟩ := h.single message parts part hparts hpart
  rw [hmessage, hkey]
  exact ⟨hsingle, hplatform, rfl⟩

end ChannelAdapter

/-! A processor with its adapter. -/

namespace ChannelProcessor
variable {α ρ : Type} (adapter : ChannelAdapter α ρ) (v : Verdicts α)

/-- An attempt whose end is recorded as known, after an answer that misleads it. -/
def Misled (p : ChannelProcessor) (x : Attempt α) (message : OutboundMessage) : Prop :=
  p.InTime x ∧ adapter.Sends message ∧ adapter.Misled v message x.exchanges

/-- The row of an attempt says of its requests what is true of them, whatever the remote has made
of those that it has neither rejected nor confirmed. -/
def SoundlyRecorded (x : Attempt α) (record : OutboxRow) (requests : List OutboundRequest)
    (t : ChannelTables) : Prop :=
  ∀ accepted, Accepts v x.exchanges accepted → ∃ row, t.findOutbox record.idempotencyKey = some row ∧
    Sound record.message requests accepted row.status

variable {adapter v} {store : ChannelStore} {p : ChannelProcessor} {x : Attempt α}
  {t t' : ChannelTables} {record : OutboxRow} {requests : List OutboundRequest}

theorem soundlyRecorded_iff (h : adapter.Classifies v) (hkeyed : OutboxKeyed t)
    (hsend : p.sendOutboxOnce store adapter x t = (some record, requests, t'))
    (henqueued : adapter.Enqueued record) :
    SoundlyRecorded v x record requests t' ↔ ¬p.Misled adapter v x record.message := by
  obtain ⟨hsingle, hplatform, hmessage⟩ := h.enqueued henqueued
  obtain ⟨hrequests, row, hrow, htime, hlate⟩ := sendOutboxOnce_status hkeyed hsend hmessage
  constructor
  · rintro hsound ⟨hintime, hsends, hmisled⟩
    obtain ⟨accepted, haccepts, hunsound⟩ := h.unsound hplatform hsingle hsends hmisled
    obtain ⟨row', hrow', hsound⟩ := hsound accepted haccepts
    obtain rfl := Option.some.inj (hrow.symm.trans hrow')
    rw [htime hintime, hrequests] at hsound
    exact hunsound hsound
  · intro hclear accepted haccepts
    refine ⟨row, hrow, ?_⟩
    by_cases hintime : p.InTime x
    · rw [htime hintime, hrequests]
      exact h.sound hplatform hsingle haccepts fun hmisled => hclear ⟨hintime, hmisled⟩
    · rw [hlate hintime]
      exact .sending

end ChannelProcessor

/-- An attempt at a row that is not misled, with the number of the requests that the remote has
accepted in it. -/
inductive ClearAttempt {α ρ : Type} (store : ChannelStore) (adapter : ChannelAdapter α ρ)
    (v : Verdicts α) (key : String) (t : ChannelTables) : ℕ → ChannelTables → Prop
  | sends {p : ChannelProcessor} {x : Attempt α} {record : OutboxRow}
      {requests : List OutboundRequest} {accepted : ℕ → Bool} {t' : ChannelTables} :
      OutboxKeyed t → p.sendOutboxOnce store adapter x t = (some record, requests, t') →
      record.idempotencyKey = key → adapter.Enqueued record →
      ¬p.Misled adapter v x record.message → Accepts v x.exchanges accepted →
      ClearAttempt store adapter v key t (acceptedCount accepted requests) t'

/-- Attempts at a row, each after the one before it has failed. Anything may happen to the store
between them. -/
inductive ClearAttempts {α ρ : Type} (store : ChannelStore) (adapter : ChannelAdapter α ρ)
    (v : Verdicts α) (key : String) : ℕ → ChannelTables → Prop
  | first {t t' : ChannelTables} {n : ℕ} :
      ClearAttempt store adapter v key t n t' → ClearAttempts store adapter v key n t'
  | again {t t₁ t' : ChannelTables} {row : OutboxRow} {n m : ℕ} :
      ClearAttempts store adapter v key n t → t.findOutbox key = some row → row.status = .failed →
      ClearAttempt store adapter v key t₁ m t' → ClearAttempts store adapter v key (n + m) t'

/-- A row that has failed has had nothing accepted, and one that has been sent has had it once. -/
def DeliveredOnce (key : String) (n : ℕ) (t : ChannelTables) : Prop :=
  ∃ row, t.findOutbox key = some row ∧ (row.status = .failed → n = 0) ∧ (row.status = .sent → n = 1)

namespace ChannelAdapter
variable {α ρ : Type} {adapter : ChannelAdapter α ρ} {v : Verdicts α} {store : ChannelStore}
  {key : String} {n : ℕ} {t t' : ChannelTables}

theorem Classifies.attempt (h : adapter.Classifies v)
    (hattempt : ClearAttempt store adapter v key t n t') : DeliveredOnce key n t' := by
  cases hattempt with
  | sends hkeyed hsend hkey henqueued hclear haccepts =>
      subst hkey
      obtain ⟨row, hrow, hsound⟩ :=
        (ChannelProcessor.soundlyRecorded_iff h hkeyed hsend henqueued).2 hclear _ haccepts
      exact ⟨row, hrow, hsound.failed, fun hsent => (hsound.sent hsent).1⟩

theorem Classifies.attempts (h : adapter.Classifies v)
    (hattempts : ClearAttempts store adapter v key n t) : DeliveredOnce key n t := by
  induction hattempts with
  | first hattempt => exact h.attempt hattempt
  | again _ hrow hfailed hattempt ih =>
      obtain ⟨row, hrow', hnone, -⟩ := ih
      obtain rfl := Option.some.inj (hrow.symm.trans hrow')
      rw [hnone hfailed, Nat.zero_add]
      exact h.attempt hattempt

end ChannelAdapter

end Polaris
