import Polaris.Memory.Models
import Polaris.Runtime.Effects

namespace Polaris
open PyJson

def optSeconds (seconds : Option ℚ) : PyVal := seconds.elim .null exactSeconds

/-- `AgentRuntime` where it creates runs: its approval policy by name, the sorted names the
policy has approved beforehand, and the memory of the run. -/
structure RunCreator where
  runtime : AgentRuntime
  approvalPolicy : String
  preapprovedToolNames : List String
  memoryScope : Option MemoryScope
  memorySnapshotHash : Option String

def MemoryScope.toDict (scope : MemoryScope) : PyVal :=
  dict [("profile_id", .str scope.profileId), ("subject_key", .str scope.subjectKey)]

namespace RunCreator
variable (c : RunCreator)

def persistedConfig : PyVal :=
  dict [("provider", .str c.runtime.providerName), ("model", .str c.runtime.providerModel),
    ("system_prompt", .str c.runtime.config.systemPrompt),
    ("max_iterations", .int c.runtime.config.maxIterations),
    ("lease_seconds", exactSeconds c.runtime.config.leaseSeconds),
    ("approval_policy", .str c.approvalPolicy),
    ("preapproved_tool_names", .seq .list (c.preapprovedToolNames.map .str)),
    ("reservation_tokens", .int c.runtime.config.reservationTokens),
    ("reservation_calls", .int c.runtime.config.reservationCalls),
    ("reservation_micro_usd", .int c.runtime.config.reservationMicroUsd),
    ("no_progress_threshold", .int c.runtime.config.noProgressThreshold),
    ("memory_context", optStr c.runtime.config.memoryContext),
    ("memory_scope", c.memoryScope.elim .null MemoryScope.toDict),
    ("memory_snapshot_hash", optStr c.memorySnapshotHash)]

def runRequest (request : String) : PyVal := dict [("prompt", .str request)]

def createRun (request mode : String) (budget : Budget) (externalKey : Option String) :
    JournalCall RunRecord :=
  .createRun mode (runRequest request) c.persistedConfig budget none externalKey

end RunCreator

end Polaris
