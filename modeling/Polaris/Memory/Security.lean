import Mathlib.Data.List.Dedup
import Polaris.Memory.Models

namespace Polaris

def blockedContent : String := "[BLOCKED MEMORY: unsafe content omitted]"

structure Pattern where
  name : String
  regex : String
  ignoreCase : Bool
  dotAll : Bool

/-- `re.search` and `re.sub` for a pattern of the scanner. -/
structure RegexEngine where
  search : Pattern → String → Bool
  sub : Pattern → String → String → String

def injectionPatterns : List Pattern := [
  ⟨"prompt_injection:ignore_previous",
    "\\bignore\\s+(?:all\\s+)?(?:previous|prior|above)\\s+instructions?\\b", true, false⟩,
  ⟨"prompt_injection:system_prompt", "\\bsystem\\s+prompt\\b", true, false⟩,
  ⟨"prompt_injection:tool_execution", "\\b(?:execute|invoke|call|run|use)\\s+(?:the\\s+)?" ++
    "(?:tool|command|shell|terminal)\\b", true, false⟩,
  ⟨"prompt_injection:role_takeover",
    "\\b(?:you\\s+are\\s+now|act\\s+as|switch\\s+(?:your\\s+)?role\\s+to|" ++
    "new\\s+(?:system|developer)\\s+instructions?)\\b", true, false⟩,
  ⟨"prompt_injection:fence_breakout", "```", false, false⟩,
  ⟨"prompt_injection:memory_tag_breakout",
    "</?\\s*(?:memory|memory_context|polaris-memory|system|developer)(?:\\s|>|/)", true, false⟩]

def secretPatterns : List Pattern := [
  ⟨"secret:private_key", "-----BEGIN (?:[A-Z0-9 ]+ )?PRIVATE KEY-----.*?" ++
    "-----END (?:[A-Z0-9 ]+ )?PRIVATE KEY-----", true, true⟩,
  ⟨"secret:jwt", "\\beyJ[A-Za-z0-9_-]\x7b5,\x7d\\.[A-Za-z0-9_-]\x7b5,\x7d\\.[A-Za-z0-9_-]" ++
    "\x7b5,\x7d\\b", false, false⟩,
  ⟨"secret:api_token", "\\b(?:sk-[A-Za-z0-9_-]\x7b16,\x7d|ghp_[A-Za-z0-9]\x7b20,\x7d|" ++
    "github_pat_[A-Za-z0-9_]\x7b20,\x7d|AKIA[0-9A-Z]\x7b16\x7d)\\b", false, false⟩]

structure ThreatScanner where
  regex : RegexEngine
  configuredSecrets : List String

namespace ThreatScanner
variable (scanner : ThreatScanner)

/-- `sorted({secret ... if secret}, key=lambda item: (-len(item), item))` -/
def orderedSecrets : List String :=
  (scanner.configuredSecrets.filter (· ≠ "")).dedup.insertionSort fun a b =>
    b.length < a.length || (a.length = b.length && !(b < a))

def isWithin (needle text : String) : Bool :=
  text.toList.tails.any needle.toList.isPrefixOf

/-- The joined reasons, `none` for content without a threat. -/
def scan (content : String) : Option String :=
  let matched := (injectionPatterns ++ secretPatterns).filter fun p => scanner.regex.search p content
  let reasons := matched.map Pattern.name ++
    if scanner.orderedSecrets.any (isWithin · content) then ["secret:configured"] else []
  if reasons = [] then none else some (";".intercalate reasons.dedup)

def redact (content : String) : String :=
  let withoutPatterns := secretPatterns.foldl
    (fun text p => scanner.regex.sub p "[REDACTED SECRET]" text) content
  scanner.orderedSecrets.foldl
    (fun text secret => text.replace secret "[REDACTED CONFIGURED SECRET]") withoutPatterns

variable {scanner}

theorem mem_orderedSecrets {secret : String} :
    secret ∈ scanner.orderedSecrets ↔ secret ∈ scanner.configuredSecrets ∧ secret ≠ "" := by
  simp [orderedSecrets, List.mem_insertionSort]

end ThreatScanner

end Polaris
