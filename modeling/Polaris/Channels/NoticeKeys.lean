import Polaris.Channels.Notifications

namespace Polaris
open PyJson SortedDict ChannelStore

theorem eq_of_append_colon {xs ys a b : List Char} (ha : ':' ∉ a) (hb : ':' ∉ b)
    (h : xs ++ ':' :: a = ys ++ ':' :: b) : xs = ys ∧ a = b := by
  rcases List.append_eq_append_iff.1 h with ⟨cs, rfl, hcs⟩ | ⟨cs, rfl, hcs⟩
  · cases cs with
    | nil => simpa using hcs
    | cons c cs =>
        obtain ⟨rfl, rfl⟩ := List.cons.inj hcs
        exact absurd (by simp) ha
  · cases cs with
    | nil => simpa using hcs.symm
    | cons c cs =>
        obtain ⟨rfl, rfl⟩ := List.cons.inj hcs
        exact absurd (by simp) hb

/-- The key of a part of a message: its own key, or one with the place of the part. -/
def partKey (key : String) : Option ℕ → String
  | none => key
  | some index => key ++ ":chunk:" ++ toString index

/-- The last segment of a key, which no number can be. -/
structure EndsIn (key : String) (base segment : List Char) : Prop where
  split : key.toList = base ++ ':' :: segment
  noColon : ':' ∉ segment
  noNumber : ∃ c cs, segment = c :: cs ∧ c.isDigit = false

section
variable {key key' : String} {base base' segment segment' : List Char}

theorem toString_toList (n : ℕ) : (toString n).toList = Nat.toDigits 10 n := by
  simp [toString, Nat.repr]

theorem colon_notMem_toDigits (n : ℕ) : ':' ∉ Nat.toDigits 10 n := fun h =>
  absurd (Nat.isDigit_of_mem_toDigits (by decide) (by decide) h) (by decide)

theorem partKey_toList (index : ℕ) : (partKey key (some index)).toList =
    (key.toList ++ ":chunk".toList) ++ ':' :: Nat.toDigits 10 index := by
  have hseparator : ":chunk:".toList = ":chunk".toList ++ [':'] := rfl
  simp only [partKey, String.toList_append, toString_toList, hseparator, List.append_assoc,
    List.singleton_append]

/-- A number at the end of a key tells a part from a whole message. -/
theorem EndsIn.ne_part {index : ℕ} (h : EndsIn key base segment) :
    partKey key none ≠ partKey key' (some index) := by
  intro heq
  have hlist := congrArg String.toList heq
  rw [partKey_toList, partKey, h.split] at hlist
  obtain ⟨-, hsegment⟩ := eq_of_append_colon h.noColon (colon_notMem_toDigits index) hlist
  obtain ⟨c, cs, hc, hdigit⟩ := h.noNumber
  have hmem : c ∈ Nat.toDigits 10 index := by rw [← hsegment, hc]; exact List.mem_cons_self
  simp [Nat.isDigit_of_mem_toDigits (by decide) (by decide) hmem] at hdigit

theorem EndsIn.part_inj {part part' : Option ℕ} (h : EndsIn key base segment)
    (h' : EndsIn key' base' segment') (heq : partKey key part = partKey key' part') :
    part = part' ∧ base = base' ∧ segment = segment' := by
  cases part with
  | none =>
      cases part' with
      | none =>
          have hlist := congrArg String.toList heq
          rw [partKey, partKey, h.split, h'.split] at hlist
          exact ⟨rfl, eq_of_append_colon h.noColon h'.noColon hlist⟩
      | some index => exact absurd heq h.ne_part
  | some index =>
      cases part' with
      | none => exact absurd heq.symm h'.ne_part
      | some index' =>
          have hlist := congrArg String.toList heq
          rw [partKey_toList, partKey_toList] at hlist
          obtain ⟨hkeys, hdigits⟩ := eq_of_append_colon (colon_notMem_toDigits _)
            (colon_notMem_toDigits _) hlist
          have hindex := (digits_of_separator (c := ':') (x := []) (y := []) (by decide)
            (congrArg (· ++ [':']) hdigits)).1
          rw [List.append_left_inj, h.split, h'.split] at hkeys
          exact ⟨congrArg some hindex, eq_of_append_colon h.noColon h'.noColon hkeys⟩

theorem partKey_injective : Function.Injective (partKey key) := by
  have hlonger : ∀ index, partKey key none ≠ partKey key (some index) := fun index heq => by
    have hlength := congrArg List.length (congrArg String.toList heq)
    rw [partKey_toList] at hlength
    simp only [partKey, List.length_append, List.length_cons] at hlength
    omega
  rintro (_ | index) (_ | index') heq
  · rfl
  · exact absurd heq (hlonger index')
  · exact absurd heq.symm (hlonger index)
  · have hlist := congrArg String.toList heq
    rw [partKey_toList, partKey_toList, List.append_cancel_left_eq, List.cons.injEq] at hlist
    exact congrArg some (digits_of_separator (c := ':') (x := []) (y := []) (by decide)
      (congrArg (· ++ [':']) hlist.2)).1

end

/-- How the key of a notification goes on after the event. -/
inductive IsNoticeSuffix : String → Prop
  | terminal : IsNoticeSuffix "terminal"
  | approval {ids : String} (rest : List Char) : ids.toList = "approval_".toList ++ rest →
      ':' ∉ rest → IsNoticeSuffix ("approval:" ++ ids)

namespace RunView
variable {run : RunView} {suffix : String}

theorem approvalIds_toList (h : run.pendingApprovals ≠ []) :
    ∃ rest, run.approvalIds.toList = "approval_".toList ++ rest ∧ ':' ∉ rest := by
  obtain ⟨id, ids, hids⟩ := List.exists_cons_of_ne_nil h
  have hcolon : ∀ id : ApprovalId, ':' ∉ id.value.toList := fun id => by
    rw [ApprovalId.value, String.toList_append, List.mem_append, not_or]
    exact ⟨by decide, id.noColon⟩
  have hjoined : ':' ∉ run.approvalIds.toList := by
    rw [approvalIds, String.toList_intercalate, hids]
    clear hids h
    induction ids generalizing id with
    | nil => simpa using hcolon id
    | cons other ids ih =>
        have hrest := ih other
        simp only [List.map_cons, List.intercalate_cons_cons, List.mem_append, not_or] at hrest ⊢
        exact ⟨⟨hcolon id, by decide⟩, hrest⟩
  obtain ⟨rest, hrest⟩ : ∃ rest, run.approvalIds.toList = "approval_".toList ++ rest := by
    rw [approvalIds, hids, List.map_cons, ApprovalId.value, String.intercalate_cons_append,
      String.toList_append]
    exact ⟨_, rfl⟩
  exact ⟨rest, hrest, fun hmem => hjoined (hrest ▸ List.mem_append_right _ hmem)⟩

theorem noticeSuffix_cases (h : run.noticeSuffix = some suffix) :
    run.status.isTerminal = true ∧ suffix = "terminal" ∨
      run.status.isTerminal = false ∧ run.status = .paused ∧ run.pendingApprovals ≠ [] ∧
        suffix = "approval:" ++ run.approvalIds := by
  unfold noticeSuffix at h
  split at h
  · rename_i hterminal
    exact .inl ⟨hterminal, (Option.some.inj h).symm⟩
  · rename_i hopen
    split at h
    · rename_i hpaused
      simp only [Bool.and_eq_true, decide_eq_true_eq, Bool.not_eq_true', List.isEmpty_eq_false_iff]
        at hpaused
      exact .inr ⟨by simpa using hopen, hpaused.1, hpaused.2, (Option.some.inj h).symm⟩
    · cases h

theorem noticeSuffix_isNoticeSuffix (h : run.noticeSuffix = some suffix) : IsNoticeSuffix suffix := by
  rcases noticeSuffix_cases h with ⟨-, rfl⟩ | ⟨-, -, hpending, rfl⟩
  · exact .terminal
  · obtain ⟨rest, hids, hcolon⟩ := approvalIds_toList hpending
    exact .approval rest hids hcolon

end RunView

section
variable {envelope envelope' : ChannelEnvelope} {suffix suffix' : String} {part part' : Option ℕ}

def eventKey (envelope : ChannelEnvelope) : String :=
  "channel:" ++ envelope.platform.value ++ ":" ++ envelope.externalEventId

theorem toList_append_colon (key rest : String) :
    (key ++ ":" ++ rest).toList = key.toList ++ ':' :: rest.toList := by
  simp [String.toList_append]

theorem notificationKey_toList : (notificationKey envelope suffix).toList =
    (eventKey envelope).toList ++ ':' :: suffix.toList := toList_append_colon _ _

theorem eventKey_inj (h : (eventKey envelope).toList = (eventKey envelope').toList) :
    envelope.platform = envelope'.platform ∧
      envelope.externalEventId = envelope'.externalEventId := by
  unfold eventKey at h
  cases hp : envelope.platform <;> cases hp' : envelope'.platform <;>
    simp [hp, hp', Platform.value] at h ⊢
  all_goals exact String.toList_inj.1 h

theorem notificationKey_endsIn (hcolon : ':' ∉ suffix.toList)
    (hdigit : ∃ c cs, suffix.toList = c :: cs ∧ c.isDigit = false) :
    EndsIn (notificationKey envelope suffix) (eventKey envelope).toList suffix.toList :=
  ⟨notificationKey_toList, hcolon, hdigit⟩

/-- Where the last segment of the key begins depends on what the notification is about. -/
theorem IsNoticeSuffix.endsIn (h : IsNoticeSuffix suffix) :
    suffix = "terminal" ∧
        EndsIn (notificationKey envelope suffix) (eventKey envelope).toList "terminal".toList ∨
      ∃ ids rest, suffix = "approval:" ++ ids ∧ ids.toList = "approval_".toList ++ rest ∧
        EndsIn (notificationKey envelope suffix) ((eventKey envelope).toList ++ ":approval".toList)
          ids.toList := by
  cases h with
  | terminal => exact .inl ⟨rfl, notificationKey_endsIn (by decide) ⟨'t', "erminal".toList, rfl, rfl⟩⟩
  | @approval ids rest hids hcolon =>
      refine .inr ⟨ids, rest, rfl, hids, ?_, ?_, ?_⟩
      · have hseparator : "approval:".toList = "approval".toList ++ [':'] := rfl
        have happroval : ":approval".toList = ':' :: "approval".toList := rfl
        rw [notificationKey_toList, String.toList_append, hseparator, happroval]
        generalize (eventKey envelope).toList = base
        simp only [List.append_assoc, List.cons_append, List.nil_append]
      · rw [hids, List.mem_append, not_or]
        exact ⟨by decide, hcolon⟩
      · exact ⟨'a', "pproval_".toList ++ rest, hids, rfl⟩

/-- The key of a notification, or of a part of it, tells the event and the suffix. -/
theorem noticeKey_inj (h : IsNoticeSuffix suffix) (h' : IsNoticeSuffix suffix')
    (heq : partKey (notificationKey envelope suffix) part =
      partKey (notificationKey envelope' suffix') part') :
    part = part' ∧ envelope.platform = envelope'.platform ∧
      envelope.externalEventId = envelope'.externalEventId ∧ suffix = suffix' := by
  rcases @IsNoticeSuffix.endsIn envelope _ h with ⟨rfl, hends⟩ | ⟨ids, rest, rfl, hids, hends⟩ <;>
    rcases @IsNoticeSuffix.endsIn envelope' _ h' with
      ⟨rfl, hends'⟩ | ⟨ids', rest', rfl, hids', hends'⟩ <;>
    obtain ⟨hpart, hbase, hsegment⟩ := hends.part_inj hends' heq
  · obtain ⟨hplatform, hevent⟩ := eventKey_inj hbase
    exact ⟨hpart, hplatform, hevent, rfl⟩
  · simp [hids'] at hsegment
  · simp [hids] at hsegment
  · obtain ⟨hplatform, hevent⟩ := eventKey_inj (List.append_cancel_right hbase)
    exact ⟨hpart, hplatform, hevent, by rw [String.toList_inj.1 hsegment]⟩

end

/-- The key of a notification about some event, or of a part of one. -/
def IsNoticeKey (key : String) : Prop :=
  ∃ envelope suffix part, IsNoticeSuffix suffix ∧ key = partKey (notificationKey envelope suffix) part

/-- The reply to a message has a key of the same form, and so has a delivery of the scheduler. -/
theorem not_isNoticeKey {key : String} {base segment : List Char} {part : Option ℕ}
    (h : EndsIn key base segment) (hterminal : segment ≠ "terminal".toList)
    (happroval : ¬"approval_".toList <+: segment) : ¬IsNoticeKey (partKey key part) := by
  rintro ⟨envelope, suffix, part', hsuffix, heq⟩
  rcases @IsNoticeSuffix.endsIn envelope _ hsuffix with ⟨-, hends⟩ | ⟨ids, rest, -, hids, hends⟩
  · exact hterminal (h.part_inj hends heq).2.2
  · exact happroval ⟨rest, by rw [(h.part_inj hends heq).2.2, hids]⟩

end Polaris
