import Polaris.Backup.Disk
import Polaris.Library.AuthenticatedStream
import Polaris.Library.PyText

namespace Polaris.BackupContainer
open PyJson

inductive ContainerError where
  | backupFormatError (message : String)
  | backupAuthenticationError (message : String)
  | valueError (message : String)
deriving DecidableEq

def magic : Bytes := [0x50, 0x4f, 0x4c, 0x41, 0x52, 0x49, 0x53, 0x2d, 0x42, 0x41, 0x43, 0x4b, 0x55,
  0x50, 0x00, 0x00]

def version : UInt8 := 1

def saltSize : ℕ := 16

def nonceSize : ℕ := 12

def tagSize : ℕ := 16

def headerSize : ℕ := 45

def chunkSize : ℕ := 1024 * 1024

/-- Scrypt, and AES in Galois counter mode. -/
structure Cryptography where
  Key : Type
  scrypt : Bytes → String → Key
  gcm : AuthenticatedCipher Key Bytes UInt8
  gcm_tagSize : gcm.tagSize = tagSize

/-- `HEADER.pack` -/
def packHeader (salt nonce : Bytes) : Bytes := magic ++ version :: (salt ++ nonce)

theorem size_pos {remaining : Option ℕ} (h : remaining ≠ some 0) :
    0 < remaining.elim chunkSize (min chunkSize) := by
  cases remaining with
  | none => decide
  | some n =>
      have hn : n ≠ 0 := fun hn => h (congrArg some hn)
      exact Nat.lt_min.2 ⟨by decide, Nat.pos_of_ne_zero hn⟩

theorem size_le {remaining : Option ℕ} : remaining.elim chunkSize (min chunkSize) ≤ chunkSize := by
  cases remaining with
  | none => exact Nat.le_refl _
  | some n => exact Nat.min_le_left _ _

/-- The pieces that are read, and what the reading ends with. -/
def chunks (remaining : Option ℕ) (handle : Bytes) : List Bytes × Option ContainerError :=
  if remaining = some 0 ∨ handle = [] then
    if remaining = none ∨ remaining = some 0 then ([], none)
    else ([], some (.backupFormatError "encrypted backup is truncated"))
  else
    let size := remaining.elim chunkSize (min chunkSize)
    let chunk := handle.take size
    let rest := chunks (remaining.map (· - chunk.length)) (handle.drop size)
    (chunk :: rest.1, rest.2)
termination_by handle.length
decreasing_by
  rename_i h
  rw [not_or] at h
  have hpos := List.length_pos_iff.2 h.2
  have hsize := size_pos h.1
  rw [List.length_drop]
  omega

/-- The file has the header of an encryption, and room for a tag. -/
def IsPacked (source : Bytes) : Prop :=
  ∃ salt nonce body tag, salt.length = saltSize ∧ nonce.length = nonceSize ∧
    tag.length = tagSize ∧ source = packHeader salt nonce ++ (body ++ tag)

namespace Cryptography

/-- A cipher that changes nothing. -/
instance : Inhabited Cryptography where
  default :=
    { Key := Unit
      scrypt := fun _ _ => ()
      gcm :=
        { State := Unit
          start := fun _ _ _ => ()
          encrypt := fun s x => (s, x)
          decrypt := fun s c => (s, c)
          tag := fun _ => List.replicate tagSize 0
          tagSize := tagSize
          encrypt_nil := fun _ => rfl
          encrypt_append := fun _ _ _ => rfl
          decrypt_nil := fun _ => rfl
          decrypt_append := fun _ _ _ => rfl
          decrypt_encrypt := fun _ _ => rfl
          encrypt_decrypt := fun _ _ => rfl
          length_tag := fun _ => List.length_replicate }
      gcm_tagSize := rfl }

variable (c : Cryptography)

def deriveKey (passphrase : PyText) (salt : Bytes) : Except ContainerError c.Key :=
  if passphrase = [] then .error (.valueError "passphrase must not be empty")
  else
    match passphrase.encode with
    | some text => .ok (c.scrypt salt text)
    | none => .error (.valueError "surrogates not allowed")

/-- The salt and the nonce are drawn at random. -/
def encryptFile (salt nonce : Bytes) (source : Bytes) (passphrase : PyText) :
    Except ContainerError Bytes :=
  match c.deriveKey passphrase salt with
  | .error e => .error e
  | .ok key =>
      let header := packHeader salt nonce
      let read := chunks none source
      let done := feed c.gcm.encrypt (c.gcm.start key nonce header) read.1
      match read.2 with
      | some e => .error e
      | none => .ok (header ++ done.2 ++ c.gcm.tag done.1)

/-- How the decryption ends, and what is then at the destination. -/
def decryptFile (source : Bytes) (passphrase : PyText) :
    Except ContainerError Unit × Option Bytes :=
  if source.length < headerSize + tagSize then
    (.error (.backupFormatError "encrypted backup is too short"), none)
  else
    let header := source.take headerSize
    let found := (header.drop magic.length).headD 0
    let salt := (header.drop (magic.length + 1)).take saltSize
    let nonce := header.drop (magic.length + 1 + saltSize)
    if header.take magic.length ≠ magic then
      (.error (.backupFormatError "backup magic is invalid"), none)
    else if found ≠ version then
      (.error (.backupFormatError ("unsupported backup version: " ++ toString found.toNat)), none)
    else
      let tag := source.drop (source.length - tagSize)
      let size := source.length - headerSize - tagSize
      match c.deriveKey passphrase salt with
      | .error e => (.error e, none)
      | .ok key =>
          let read := chunks (some size) (source.drop headerSize)
          let done := feed c.gcm.decrypt (c.gcm.start key nonce header) read.1
          match read.2 with
          | some e => (.error e, some done.2)
          | none =>
              if c.gcm.tag done.1 = tag then (.ok (), some done.2)
              else (.error (.backupAuthenticationError
                "backup authentication failed: wrong passphrase or modified archive"), none)

end Cryptography

section
variable {remaining : Option ℕ} {handle : Bytes}

theorem chunks_end (h : remaining = some 0 ∨ handle = []) : chunks remaining handle =
    if remaining = none ∨ remaining = some 0 then ([], none)
    else ([], some (.backupFormatError "encrypted backup is truncated")) := by
  rw [chunks, if_pos h]

theorem chunks_next (h : ¬ (remaining = some 0 ∨ handle = [])) : chunks remaining handle =
    let size := remaining.elim chunkSize (min chunkSize)
    let rest := chunks (remaining.map (· - (handle.take size).length)) (handle.drop size)
    (handle.take size :: rest.1, rest.2) := by
  rw [chunks, if_neg h]

/-- A first piece, and what is left of what there is to read. -/
theorem take_next (h : ∀ n, remaining = some n → n ≤ handle.length) {size : ℕ}
    (hsize : size = remaining.elim chunkSize (min chunkSize)) :
    (∀ n, remaining.map (· - (handle.take size).length) = some n →
      n ≤ (handle.drop size).length) ∧
    handle.take size ++ (handle.drop size).take
        ((remaining.map (· - (handle.take size).length)).getD (handle.drop size).length) =
      handle.take (remaining.getD handle.length) := by
  cases remaining with
  | none =>
      refine ⟨by simp, ?_⟩
      rw [Option.map_none, Option.getD_none, Option.getD_none, List.take_length, List.take_length,
        List.take_append_drop]
  | some n =>
      have hn := h n rfl
      have hle : size ≤ n := hsize.trans_le (Nat.min_le_right _ _)
      have htaken : (handle.take size).length = size := by
        rw [List.length_take]
        omega
      rw [Option.map_some, Option.getD_some, Option.getD_some, htaken, List.take_drop,
        Nat.add_sub_cancel' hle]
      refine ⟨fun m hm => ?_, ?_⟩
      · obtain rfl := Option.some.inj hm
        rw [List.length_drop]
        omega
      · have htwice : (handle.take n).take size = handle.take size := by
          rw [List.take_take, Nat.min_eq_left hle]
        rw [← htwice, List.take_append_drop]

/-- What there is to read is read whole, in pieces that are not longer than the bound. -/
theorem chunks_whole (h : ∀ n, remaining = some n → n ≤ handle.length) :
    (chunks remaining handle).2 = none ∧
      (chunks remaining handle).1.flatten = handle.take (remaining.getD handle.length) ∧
      ∀ chunk ∈ (chunks remaining handle).1, chunk ≠ [] ∧ chunk.length ≤ chunkSize := by
  induction hlength : handle.length using Nat.strong_induction_on generalizing remaining handle with
  | _ length ih =>
      subst hlength
      by_cases hend : remaining = some 0 ∨ handle = []
      · have hzero : remaining = none ∨ remaining = some 0 := by
          rcases hend with hzero | rfl
          · exact .inr hzero
          · cases remaining with
            | none => exact .inl rfl
            | some n => simpa using h n rfl
        rw [chunks_end hend, if_pos hzero]
        refine ⟨rfl, ?_, by simp⟩
        rcases hend with rfl | rfl <;> simp
      · rw [chunks_next hend]
        rw [not_or] at hend
        have hpos := List.length_pos_iff.2 hend.2
        have hsize := size_pos hend.1
        have hbound := @size_le remaining
        obtain ⟨hrest, hwhole⟩ := take_next h rfl
        obtain ⟨hnone, hflatten, hpieces⟩ := ih _ (by rw [List.length_drop]; omega) hrest rfl
        refine ⟨hnone, ?_, fun chunk hchunk => ?_⟩
        · rw [List.flatten_cons, hflatten, hwhole]
        · rcases List.mem_cons.1 hchunk with rfl | hchunk
          · refine ⟨?_, (List.length_take_le _ _).trans hbound⟩
            rw [← List.length_pos_iff, List.length_take]
            omega
          · exact hpieces chunk hchunk

end

namespace Cryptography
variable {c : Cryptography} {source salt nonce x : Bytes} {passphrase : PyText}

theorem packHeader_length (hsalt : salt.length = saltSize) (hnonce : nonce.length = nonceSize) :
    (packHeader salt nonce).length = headerSize := by
  simp [packHeader, magic, hsalt, hnonce, saltSize, nonceSize, headerSize]

theorem encryptFile_ok : c.encryptFile salt nonce x passphrase = .ok source ↔
    ∃ key, c.deriveKey passphrase salt = .ok key ∧
      source = packHeader salt nonce ++ c.gcm.sealed key nonce (packHeader salt nonce) x := by
  obtain ⟨hnone, hflatten, -⟩ := @chunks_whole none x (by simp)
  rw [Option.getD_none, List.take_length] at hflatten
  unfold encryptFile
  cases hkey : c.deriveKey passphrase salt with
  | error e => simp
  | ok key =>
      simp only [hnone, c.gcm.feed_encrypt, hflatten, Except.ok.injEq, exists_eq_left',
        AuthenticatedCipher.sealed, List.append_assoc]
      exact eq_comm

/-- The decryption of a file with the header of an encryption. -/
theorem decryptFile_packed {body tag : Bytes} (hsalt : salt.length = saltSize)
    (hnonce : nonce.length = nonceSize) (htag : tag.length = tagSize) :
    c.decryptFile (packHeader salt nonce ++ (body ++ tag)) passphrase =
      match c.deriveKey passphrase salt with
      | .error e => (.error e, none)
      | .ok key =>
          let done := c.gcm.decrypt (c.gcm.start key nonce (packHeader salt nonce)) body
          if c.gcm.tag done.1 = tag then (.ok (), some done.2)
          else (.error (.backupAuthenticationError
            "backup authentication failed: wrong passphrase or modified archive"), none) := by
  have hheader := packHeader_length hsalt hnonce
  have hlength : (packHeader salt nonce ++ (body ++ tag)).length =
      headerSize + (body.length + tagSize) := by
    rw [List.length_append, hheader, List.length_append, htag]
  have htake : (packHeader salt nonce ++ (body ++ tag)).take headerSize =
      packHeader salt nonce := by
    rw [← hheader, List.take_left]
  have hdrop : (packHeader salt nonce ++ (body ++ tag)).drop headerSize = body ++ tag := by
    rw [← hheader, List.drop_left]
  have hend : (packHeader salt nonce ++ (body ++ tag)).drop
      ((packHeader salt nonce ++ (body ++ tag)).length - tagSize) = tag := by
    rw [hlength, ← List.append_assoc]
    have hat : headerSize + (body.length + tagSize) - tagSize =
        (packHeader salt nonce ++ body).length := by
      rw [List.length_append, hheader]
      omega
    rw [hat, List.drop_left]
  have hmagic : (packHeader salt nonce).take magic.length = magic := List.take_left
  have hrest : (packHeader salt nonce).drop magic.length = version :: (salt ++ nonce) :=
    List.drop_left
  have hafter : (packHeader salt nonce).drop (magic.length + 1) = salt ++ nonce := by
    rw [← List.drop_drop, hrest, List.drop_one, List.tail_cons]
  have hsaltRead : ((packHeader salt nonce).drop (magic.length + 1)).take saltSize = salt := by
    rw [hafter, ← hsalt, List.take_left]
  have hnonceRead : (packHeader salt nonce).drop (magic.length + 1 + saltSize) = nonce := by
    rw [← List.drop_drop, hafter, ← hsalt, List.drop_left]
  have hsize : (packHeader salt nonce ++ (body ++ tag)).length - headerSize - tagSize =
      body.length := by
    rw [hlength]
    omega
  obtain ⟨hnone, hflatten, -⟩ := @chunks_whole (some body.length) (body ++ tag) (by simp)
  rw [Option.getD_some, List.take_left] at hflatten
  unfold decryptFile
  rw [if_neg (by rw [hlength]; omega)]
  simp only [htake, hdrop, hend, hmagic, hrest, hsaltRead, hnonceRead, hsize, List.headD_cons,
    ne_eq, not_true_eq_false, if_false, hnone, c.gcm.feed_decrypt, hflatten]

theorem packHeader_of_parts {header : Bytes} (hlength : header.length = headerSize)
    (hmagic : header.take magic.length = magic)
    (hversion : (header.drop magic.length).headD 0 = version) :
    header = packHeader ((header.drop (magic.length + 1)).take saltSize)
      (header.drop (magic.length + 1 + saltSize)) := by
  have hnext : header.drop (magic.length + 1) = (header.drop magic.length).drop 1 := by
    rw [List.drop_drop]
  have hlast : header.drop (magic.length + 1 + saltSize) =
      (header.drop (magic.length + 1)).drop saltSize := by
    rw [List.drop_drop]
  rw [packHeader, hlast, List.take_append_drop, hnext]
  have hcons : header.drop magic.length =
      version :: (header.drop magic.length).drop 1 := by
    rw [List.drop_one, ← hversion]
    have hpos : 0 < (header.drop magic.length).length := by
      rw [List.length_drop, hlength]
      decide
    cases hdrop : header.drop magic.length with
    | nil => simp [hdrop] at hpos
    | cons found rest => rfl
  rw [← hcons]
  conv_lhs => rw [← List.take_append_drop magic.length header, hmagic]

/-- A file with another header, or with none, is not decrypted. -/
theorem decryptFile_unpacked (h : ¬ IsPacked source) :
    ∃ message, c.decryptFile source passphrase = (.error (.backupFormatError message), none) := by
  unfold decryptFile
  split
  · exact ⟨_, rfl⟩
  · rename_i hlong
    dsimp only
    split
    · exact ⟨_, rfl⟩
    · rename_i hmagic
      split
      · exact ⟨_, rfl⟩
      · rename_i hversion
        rw [not_not] at hmagic hversion
        have hheader : (source.take headerSize).length = headerSize := by
          rw [List.length_take]
          omega
        refine absurd ⟨((source.take headerSize).drop (magic.length + 1)).take saltSize,
          (source.take headerSize).drop (magic.length + 1 + saltSize),
          (source.drop headerSize).take (source.length - headerSize - tagSize),
          source.drop (source.length - tagSize), ?_, ?_, ?_, ?_⟩ h
        · rw [List.length_take, List.length_drop, hheader]
          decide
        · rw [List.length_drop, hheader]
          decide
        · rw [List.length_drop]
          omega
        · have hrest : source.drop (source.length - tagSize) =
              (source.drop headerSize).drop (source.length - headerSize - tagSize) := by
            rw [List.drop_drop]
            congr 1
            omega
          rw [← packHeader_of_parts hheader hmagic hversion, hrest, List.take_append_drop,
            List.take_append_drop]

theorem decryptFile_ok : c.decryptFile source passphrase = (.ok (), some x) ↔
    ∃ salt nonce, salt.length = saltSize ∧ nonce.length = nonceSize ∧
      c.encryptFile salt nonce x passphrase = .ok source := by
  constructor
  · intro h
    by_cases hpacked : IsPacked source
    · obtain ⟨salt, nonce, body, tag, hsalt, hnonce, htag, rfl⟩ := hpacked
      refine ⟨salt, nonce, hsalt, hnonce, encryptFile_ok.2 ?_⟩
      rw [decryptFile_packed hsalt hnonce htag] at h
      cases hkey : c.deriveKey passphrase salt with
      | error e => simp [hkey] at h
      | ok key =>
          simp only [hkey] at h
          split at h
          · rename_i hsame
            have hx := Option.some.inj (Prod.mk.inj h).2
            obtain ⟨hbody, hend⟩ := c.gcm.opens_iff.1 ⟨hx, hsame⟩
            refine ⟨key, rfl, ?_⟩
            rw [AuthenticatedCipher.sealed, hbody, hend]
          · simp at h
    · obtain ⟨message, hfails⟩ := @decryptFile_unpacked c source passphrase hpacked
      simp [hfails] at h
  · rintro ⟨salt, nonce, hsalt, hnonce, hsealed⟩
    obtain ⟨key, hkey, rfl⟩ := encryptFile_ok.1 hsealed
    have htag := (c.gcm.length_tag (c.gcm.encrypt (c.gcm.start key nonce
      (packHeader salt nonce)) x).1).trans c.gcm_tagSize
    rw [AuthenticatedCipher.sealed, decryptFile_packed hsalt hnonce htag, hkey]
    simp only [c.gcm.decrypt_encrypt, if_true]

theorem decryptFile_destination :
    (c.decryptFile source passphrase).1 = .ok () ↔ (c.decryptFile source passphrase).2 ≠ none := by
  by_cases hpacked : IsPacked source
  · obtain ⟨salt, nonce, body, tag, hsalt, hnonce, htag, rfl⟩ := hpacked
    rw [decryptFile_packed hsalt hnonce htag]
    cases c.deriveKey passphrase salt with
    | error e => simp
    | ok key =>
        dsimp only
        split <;> simp
  · obtain ⟨message, hfails⟩ := @decryptFile_unpacked c source passphrase hpacked
    simp [hfails]

theorem deriveKey_ok : (∃ key, c.deriveKey passphrase salt = .ok key) ↔
    passphrase ≠ [] ∧ passphrase.isEncodable = true := by
  unfold deriveKey PyText.isEncodable
  by_cases hempty : passphrase = []
  · simp [hempty]
  · cases passphrase.encode <;> simp [hempty]

/-- The authentication fails for a file with the right header and a passphrase that is one. -/
theorem decryptFile_authentication :
    (∃ message, (c.decryptFile source passphrase).1 =
        .error (.backupAuthenticationError message)) ↔
      IsPacked source ∧
      (passphrase ≠ [] ∧ passphrase.isEncodable = true) ∧
      (c.decryptFile source passphrase).1 ≠ .ok () := by
  by_cases hpacked : IsPacked source
  · rw [and_iff_right hpacked]
    obtain ⟨salt, nonce, body, tag, hsalt, hnonce, htag, rfl⟩ := hpacked
    rw [decryptFile_packed hsalt hnonce htag, ← @deriveKey_ok c salt passphrase]
    cases hkey : c.deriveKey passphrase salt with
    | error e =>
        have he : ∀ message, e ≠ .backupAuthenticationError message := by
          rintro message rfl
          unfold deriveKey at hkey
          split at hkey
          · simp at hkey
          · split at hkey <;> simp at hkey
        simp [he]
    | ok key =>
        dsimp only
        split <;> simp
  · obtain ⟨message, hfails⟩ := @decryptFile_unpacked c source passphrase hpacked
    rw [hfails]
    exact iff_of_false (by simp) fun h => hpacked h.1

end Cryptography

end Polaris.BackupContainer
