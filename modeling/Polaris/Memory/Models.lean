import Polaris.Providers.Base

namespace Polaris

inductive TrustLevel where
  | userAsserted
  | modelInferred
  | verified
deriving DecidableEq, Repr

def TrustLevel.value : TrustLevel → String
  | .userAsserted => "user_asserted"
  | .modelInferred => "model_inferred"
  | .verified => "verified"

inductive MemoryKind where
  | user
  | agent
  | fact
  | preference
deriving DecidableEq, Repr

def MemoryKind.value : MemoryKind → String
  | .user => "user"
  | .agent => "agent"
  | .fact => "fact"
  | .preference => "preference"

def NonBlank.defaultProfile : NonBlank := ⟨"default", by decide⟩

structure MemoryScope where
  profileId : NonBlank
  subjectKey : NonBlank
deriving DecidableEq

structure Provenance where
  runId : Option String
  sessionId : Option String
  messageId : Option String
deriving DecidableEq

structure MemoryWrite where
  content : NonBlank
  kind : MemoryKind
  trustLevel : TrustLevel
  entryId : Option NonBlank
  provenance : Provenance
deriving DecidableEq

structure MemoryEntry where
  id : String
  scope : MemoryScope
  content : String
  kind : MemoryKind
  trustLevel : TrustLevel
  provenance : Provenance
  createdAt : Timestamp
  updatedAt : Timestamp
  revision : ℕ
  contentHash : String
  blockedReason : Option String
  tombstoned : Bool
deriving DecidableEq

structure MemorySnapshot where
  version : ℕ
  hash : String
  entries : List MemoryEntry

end Polaris
