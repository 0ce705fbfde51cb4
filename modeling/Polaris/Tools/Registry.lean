import Polaris.Providers.Base

namespace Polaris
open PyJson SortedDict

structure ToolEntry where
  name : NonBlank
  schema : JsonObject
  description : String
  safetyClass : SafetyClass
deriving DecidableEq

structure ToolRegistry where
  entries : List (String × ToolEntry)
  aliases : List (String × String)
deriving DecidableEq

namespace ToolEntry

def functionEntries (entry : ToolEntry) : List (String × PyVal) :=
  let function := setKey "name" (.str entry.name) entry.schema.entries
  if entry.description ≠ "" ∧ (lookup "description" function).isNone then
    setKey "description" (.str entry.description) function
  else function

def definition (entry : ToolEntry) : PyVal :=
  dict [("type", .str "function"), ("function", dict entry.functionEntries)]

end ToolEntry

namespace ToolRegistry

def getEntry (tools : ToolRegistry) (name : String) : Except PyError ToolEntry :=
  match lookup ((lookup name tools.aliases).getD name) tools.entries with
  | some entry => .ok entry
  | none => .error ⟨.other "UnknownToolError", "unknown tool: " ++ Journal.pyRepr name⟩

def selected (tools : ToolRegistry) (available : ToolEntry → Bool) : List ToolEntry :=
  ((tools.entries.map Prod.snd).insertionSort fun a b => !(b.name.1 < a.name.1)).filter available

def getDefinitions (tools : ToolRegistry) (available : ToolEntry → Bool) : List PyVal :=
  (tools.selected available).map ToolEntry.definition

end ToolRegistry

end Polaris
