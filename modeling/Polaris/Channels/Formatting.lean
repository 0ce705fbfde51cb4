import Mathlib.Data.List.Infix
import Polaris.Channels.Models

namespace Polaris

def telegramTextLimit : ℕ := 4096

def charUnits (c : Char) : ℕ := if 0xffff < c.toNat then 2 else 1

def utf16Units (value : List Char) : ℕ := (value.map charUnits).sum

def escapeChar (c : Char) : List Char :=
  if c = '&' then "&amp;".toList
  else if c = '<' then "&lt;".toList
  else if c = '>' then "&gt;".toList
  else [c]

def safeHtml (value : String) : String := String.ofList (value.toList.flatMap escapeChar)

/-- The text that is shown for an escaped one. -/
def unescapeHtml : List Char → List Char
  | '&' :: 'a' :: 'm' :: 'p' :: ';' :: cs => '&' :: unescapeHtml cs
  | '&' :: 'l' :: 't' :: ';' :: cs => '<' :: unescapeHtml cs
  | '&' :: 'g' :: 't' :: ';' :: cs => '>' :: unescapeHtml cs
  | c :: cs => c :: unescapeHtml cs
  | [] => []

theorem unescapeHtml_escaped (value : List Char) :
    unescapeHtml (value.flatMap escapeChar) = value := by
  induction value with
  | nil => rfl
  | cons c cs ih =>
      rw [List.flatMap_cons, escapeChar]
      split_ifs with hamp hless hgreater
      · subst hamp
        exact congrArg (List.cons '&') ih
      · subst hless
        exact congrArg (List.cons '<') ih
      · subst hgreater
        exact congrArg (List.cons '>') ih
      · have hplain : unescapeHtml (c :: cs.flatMap escapeChar) =
            c :: unescapeHtml (cs.flatMap escapeChar) := by
          rw [unescapeHtml]
          all_goals exact fun _ heq => absurd heq hamp
        simpa [ih] using hplain

def isBreak (c : Char) : Bool := c ∈ "\n \t".toList

/-- How many characters fit, and how many of them end with a blank. -/
def takeUnitsLoop (limit : ℕ) : List Char → ℕ → ℕ → ℕ → ℕ × ℕ
  | [], _, lastBreak, stop => (lastBreak, stop)
  | c :: cs, used, lastBreak, stop =>
      if limit < used + charUnits c then (lastBreak, stop)
      else takeUnitsLoop limit cs (used + charUnits c)
        (if isBreak c then stop + 1 else lastBreak) (stop + 1)

def takeUnits (value : List Char) (limit : ℕ) : List Char × List Char :=
  let (lastBreak, stop) := takeUnitsLoop limit value 0 0 0
  if stop = value.length then (value, [])
  else
    let stop := if lastBreak ≠ 0 ∧ stop / 2 ≤ lastBreak then lastBreak else stop
    (value.take stop, value.drop stop)

/-- The loop over what remains; no chunk is empty, so it ends before the fuel does. -/
def takeChunks (limit : ℕ) : ℕ → List Char → Except PyError (List (List Char))
  | 0, _ => .ok []
  | fuel + 1, remaining =>
      if remaining = [] then .ok []
      else
        let (chunk, rest) := takeUnits remaining limit
        if chunk = [] then
          .error ⟨.valueError, "limit is too small for a Unicode code point"⟩
        else do
          let chunks ← takeChunks limit fuel rest
          return chunk :: chunks

def codeFence : List Char := "```".toList

/-- How often the fence occurs, without overlaps; the count skips what it has just met. -/
def countFences : ℕ → List Char → ℕ
  | _, [] => 0
  | skip + 1, _ :: cs => countFences skip cs
  | 0, c :: cs =>
      if codeFence.isPrefixOf (c :: cs) then countFences 2 cs + 1 else countFences 0 cs

/-- A fence that a chunk leaves open is closed there and opened again, where both have room. -/
def fenceChunks (limit : ℕ) : Bool → List (List Char) → Option (List (List Char))
  | _, [] => some []
  | inFence, original :: rest =>
      let chunk := if inFence then codeFence ++ '\n' :: original else original
      if inFence ∧ limit < utf16Units chunk then none
      else
        let inFence := inFence ^^ decide (countFences 0 original % 2 = 1)
        if inFence ∧ rest ≠ [] then
          let closed := chunk ++ '\n' :: codeFence
          if utf16Units closed ≤ limit then (fenceChunks limit inFence rest).map (closed :: ·)
          else none
        else (fenceChunks limit inFence rest).map (chunk :: ·)

def preserveCodeFences (chunks : List (List Char)) (limit : ℕ) : List (List Char) :=
  if chunks.length < 2 ∨ ¬codeFence <:+: chunks.flatten then chunks
  else (fenceChunks limit false chunks).getD chunks

def chunkText (value : List Char) (limit : ℕ) : Except PyError (List (List Char)) :=
  if limit < 1 then .error ⟨.valueError, "limit must be positive"⟩
  else if value = [] then .ok [[]]
  else do
    let chunks ← takeChunks limit value.length value
    return preserveCodeFences chunks limit

def OutboundMessage.chunk (message : OutboundMessage) (count index : ℕ) (text : List Char) :
    OutboundMessage :=
  { message with
    idempotencyKey := message.idempotencyKey ++ ":chunk:" ++ toString index
    text := String.ofList text
    chunkIndex := index
    chunkCount := count }

def chunkOutbound (message : OutboundMessage) (limit : ℕ) :
    Except PyError (List OutboundMessage) := do
  let chunks ← chunkText message.text.toList limit
  if chunks.length = 1 then return [message]
  else return chunks.mapIdx (message.chunk chunks.length)

/-! A chunk is within the limit, and it is not split again. -/

section
variable {limit : ℕ} {value : List Char}

@[simp] theorem utf16Units_nil : utf16Units [] = 0 := rfl

@[simp] theorem utf16Units_cons (c : Char) (cs : List Char) :
    utf16Units (c :: cs) = charUnits c + utf16Units cs := rfl

theorem charUnits_pos (c : Char) : 0 < charUnits c := by
  unfold charUnits
  split <;> decide

theorem length_le_utf16Units (value : List Char) : value.length ≤ utf16Units value := by
  induction value with
  | nil => rfl
  | cons c cs ih =>
      have hpos := charUnits_pos c
      rw [List.length_cons, utf16Units_cons]
      omega

theorem utf16Units_take_le (value : List Char) {n m : ℕ} (h : n ≤ m) :
    utf16Units (value.take n) ≤ utf16Units (value.take m) := by
  induction value generalizing n m with
  | nil => simp
  | cons c cs ih =>
      cases n with
      | zero => simp
      | succ n =>
          obtain ⟨m, rfl⟩ : ∃ k, m = k + 1 := ⟨m - 1, by omega⟩
          have hrest := @ih n m (by omega)
          simp only [List.take_succ_cons, utf16Units_cons]
          omega

/-- Where the loop stops; the last break is one that it has passed. -/
theorem takeUnitsLoop_spec {used lastBreak stop : ℕ} (hbreak : lastBreak ≤ stop)
    (hused : used ≤ limit) :
    ∃ n, (takeUnitsLoop limit value used lastBreak stop).2 = stop + n ∧ n ≤ value.length ∧
      (takeUnitsLoop limit value used lastBreak stop).1 ≤ stop + n ∧
      used + utf16Units (value.take n) ≤ limit ∧
      (used + utf16Units value ≤ limit → n = value.length) := by
  induction value generalizing used lastBreak stop with
  | nil => exact ⟨0, rfl, le_rfl, hbreak, by simpa using hused, fun _ => rfl⟩
  | cons c cs ih =>
      unfold takeUnitsLoop
      by_cases hfull : limit < used + charUnits c
      · rw [if_pos hfull]
        refine ⟨0, rfl, Nat.zero_le _, hbreak, by simpa using hused, fun hfits => ?_⟩
        rw [utf16Units_cons] at hfits
        omega
      · rw [if_neg hfull]
        obtain ⟨n, hstop, hn, hlast, hunits, hall⟩ :=
          @ih (used + charUnits c) (if isBreak c then stop + 1 else lastBreak) (stop + 1)
            (by split <;> omega) (by omega)
        refine ⟨n + 1, by omega, by simpa using hn, by omega, ?_, fun hfits => ?_⟩
        · rw [List.take_succ_cons, utf16Units_cons]
          omega
        · rw [utf16Units_cons] at hfits
          rw [List.length_cons, hall (by omega)]

theorem takeUnits_le (value : List Char) : utf16Units (takeUnits value limit).1 ≤ limit := by
  obtain ⟨n, hstop, hn, hlast, hunits, -⟩ :=
    @takeUnitsLoop_spec limit value 0 0 0 le_rfl (Nat.zero_le _)
  simp only [Nat.zero_add] at hstop hlast hunits
  unfold takeUnits
  simp only
  split
  · rename_i hend
    rw [hstop] at hend
    rwa [hend, List.take_length] at hunits
  · refine le_trans (utf16Units_take_le value ?_) hunits
    split <;> omega

theorem takeUnits_append (value : List Char) :
    (takeUnits value limit).1 ++ (takeUnits value limit).2 = value := by
  unfold takeUnits
  simp only
  split
  · exact List.append_nil value
  · exact List.take_append_drop _ _

theorem takeUnits_of_le (h : utf16Units value ≤ limit) : takeUnits value limit = (value, []) := by
  obtain ⟨n, hstop, -, -, -, hall⟩ :=
    @takeUnitsLoop_spec limit value 0 0 0 le_rfl (Nat.zero_le _)
  have hend : (takeUnitsLoop limit value 0 0 0).2 = value.length := by
    rw [hstop, hall (by omega), Nat.zero_add]
  simp [takeUnits, hend]

/-- The chunks are within the limit, and together they are the text. -/
theorem takeChunks_spec {fuel : ℕ} {chunks : List (List Char)} (hfuel : value.length ≤ fuel)
    (h : takeChunks limit fuel value = .ok chunks) :
    (∀ chunk ∈ chunks, utf16Units chunk ≤ limit) ∧ chunks.flatten = value := by
  induction fuel generalizing value chunks with
  | zero =>
      obtain rfl : value = [] := List.length_eq_zero_iff.1 (by omega)
      obtain rfl := Except.ok.inj h
      simp
  | succ fuel ih =>
      unfold takeChunks at h
      by_cases hnil : value = []
      · rw [if_pos hnil] at h
        obtain rfl := Except.ok.inj h
        simp [hnil]
      · rw [if_neg hnil] at h
        simp only at h
        by_cases hempty : (takeUnits value limit).1 = []
        · simp [hempty] at h
        · rw [if_neg hempty] at h
          obtain ⟨rest, hrest, hchunks⟩ := bind_eq_ok.1 h
          obtain rfl := Except.ok.inj hchunks
          have happend := @takeUnits_append limit value
          have hlength := congrArg List.length happend
          rw [List.length_append] at hlength
          have hpos := List.length_pos_iff.2 hempty
          obtain ⟨hle, hflatten⟩ := ih (by omega) hrest
          refine ⟨fun chunk hchunk => ?_, by rw [List.flatten_cons, hflatten, happend]⟩
          rcases List.mem_cons.1 hchunk with rfl | hchunk
          · exact takeUnits_le value
          · exact hle chunk hchunk

theorem fenceChunks_spec {inFence : Bool} {chunks fenced : List (List Char)}
    (hle : ∀ chunk ∈ chunks, utf16Units chunk ≤ limit)
    (h : fenceChunks limit inFence chunks = some fenced) :
    (∀ chunk ∈ fenced, utf16Units chunk ≤ limit) ∧ fenced.length = chunks.length := by
  induction chunks generalizing inFence fenced with
  | nil =>
      obtain rfl := Option.some.inj h
      simp
  | cons original rest ih =>
      have hrest : ∀ chunk ∈ rest, utf16Units chunk ≤ limit := fun chunk hchunk =>
        hle chunk (List.mem_cons_of_mem _ hchunk)
      have hcons : ∀ {first : List Char} {more : List (List Char)} {fence : Bool},
          utf16Units first ≤ limit → fenceChunks limit fence rest = some more →
          (∀ chunk ∈ first :: more, utf16Units chunk ≤ limit) ∧
            (first :: more).length = (original :: rest).length := by
        intro first more fence hfirst hmore
        obtain ⟨hmore, hlength⟩ := ih hrest hmore
        exact ⟨List.forall_mem_cons.2 ⟨hfirst, hmore⟩, by simp [hlength]⟩
      unfold fenceChunks at h
      generalize hopened : (if inFence = true then codeFence ++ '\n' :: original else original) =
        chunk at h
      dsimp only at h
      by_cases hfull : inFence = true ∧ limit < utf16Units chunk
      · simp [hfull] at h
      · rw [if_neg hfull] at h
        have hchunk : utf16Units chunk ≤ limit := by
          cases inFence with
          | true => simpa using hfull
          | false => exact hopened ▸ hle original List.mem_cons_self
        split at h
        · split at h
          · rename_i hclosed
            obtain ⟨more, hmore, rfl⟩ := Option.map_eq_some_iff.1 h
            exact hcons hclosed hmore
          · simp at h
        · obtain ⟨more, hmore, rfl⟩ := Option.map_eq_some_iff.1 h
          exact hcons hchunk hmore

theorem preserveCodeFences_spec {chunks : List (List Char)}
    (hle : ∀ chunk ∈ chunks, utf16Units chunk ≤ limit) :
    (∀ chunk ∈ preserveCodeFences chunks limit, utf16Units chunk ≤ limit) ∧
      (preserveCodeFences chunks limit).length = chunks.length := by
  unfold preserveCodeFences
  split
  · exact ⟨hle, rfl⟩
  · cases hfenced : fenceChunks limit false chunks with
    | none => exact ⟨hle, rfl⟩
    | some fenced => exact fenceChunks_spec hle hfenced

theorem chunkText_le {chunks : List (List Char)} (h : chunkText value limit = .ok chunks) :
    ∀ chunk ∈ chunks, utf16Units chunk ≤ limit := by
  unfold chunkText at h
  split at h
  · simp at h
  · split at h
    · obtain rfl := Except.ok.inj h
      simp
    · obtain ⟨taken, htaken, hchunks⟩ := bind_eq_ok.1 h
      obtain rfl := Except.ok.inj hchunks
      exact (preserveCodeFences_spec (takeChunks_spec le_rfl htaken).1).1

/-- A text that makes one chunk is that chunk. -/
theorem chunkText_single {chunks : List (List Char)} (h : chunkText value limit = .ok chunks)
    (hone : chunks.length = 1) : utf16Units value ≤ limit := by
  unfold chunkText at h
  split at h
  · simp at h
  · split at h
    · rename_i hnil
      simp [hnil]
    · obtain ⟨taken, htaken, hchunks⟩ := bind_eq_ok.1 h
      obtain rfl := Except.ok.inj hchunks
      obtain ⟨hle, hflatten⟩ := takeChunks_spec le_rfl htaken
      rw [(preserveCodeFences_spec hle).2] at hone
      obtain ⟨chunk, rfl⟩ := List.length_eq_one_iff.1 hone
      rw [List.flatten_singleton] at hflatten
      exact hflatten ▸ hle chunk List.mem_cons_self

theorem chunkText_of_le (hlimit : 0 < limit) (h : utf16Units value ≤ limit) :
    chunkText value limit = .ok [value] := by
  unfold chunkText
  rw [if_neg (by omega)]
  split
  · rename_i hnil
    rw [hnil]
  · rename_i hvalue
    obtain ⟨n, hn⟩ : ∃ n, value.length = n + 1 :=
      ⟨value.length - 1, by have := List.length_pos_iff.2 hvalue; omega⟩
    have hrest : takeChunks limit n [] = .ok [] := by cases n <;> simp [takeChunks]
    rw [hn]
    simp [takeChunks, hvalue, takeUnits_of_le h, hrest, preserveCodeFences, bind, Except.bind, pure,
      Except.pure]

theorem chunkOutbound_of_le {message : OutboundMessage} (hlimit : 0 < limit)
    (h : utf16Units message.text.toList ≤ limit) : chunkOutbound message limit = .ok [message] := by
  simp [chunkOutbound, chunkText_of_le hlimit h, bind, Except.bind, pure, Except.pure]

/-- A part differs from the message in its text, its key and its place. -/
theorem chunkOutbound_part {message part : OutboundMessage} {parts : List OutboundMessage}
    (h : chunkOutbound message limit = .ok parts) (hpart : part ∈ parts) :
    utf16Units part.text.toList ≤ limit ∧ part.platform = message.platform ∧
      part.operation = message.operation := by
  obtain ⟨chunks, hchunks, h⟩ := bind_eq_ok.1 h
  split at h
  · rename_i hone
    obtain rfl := Except.ok.inj h
    obtain rfl := List.mem_singleton.1 hpart
    exact ⟨chunkText_single hchunks hone, rfl, rfl⟩
  · obtain rfl := Except.ok.inj h
    obtain ⟨i, hi, rfl⟩ := List.mem_mapIdx.1 hpart
    refine ⟨?_, rfl, rfl⟩
    simpa [OutboundMessage.chunk] using chunkText_le hchunks _ (List.getElem_mem hi)

end

end Polaris
