import Mathlib.Data.List.Basic

/-!
The values and errors shared by the agent contracts. A JSON object keeps its
entries in insertion order, as a Python dictionary does; the first entry of a
key is the one that counts. A float is represented by its literal.
-/

namespace Spakky.Agent

inductive JsonValue where
  | null
  | boolean (value : Bool)
  | integer (value : Int)
  | number (literal : String)
  | string (value : String)
  | array (items : List JsonValue)
  | object (entries : List (String × JsonValue))
  deriving Repr, Inhabited

abbrev JsonObject := List (String × JsonValue)

inductive AgentError where
  | agentDefinitionError (message : String)
  | agentOutputGuardError (message : String)
  deriving DecidableEq, Repr

/-- `str.isspace` on one character. -/
def isSpace (c : Char) : Bool :=
  let code := c.toNat
  (9 ≤ code && code ≤ 13) || (28 ≤ code && code ≤ 32) || code == 0x85 || code == 0xa0 ||
    code == 0x1680 || (0x2000 ≤ code && code ≤ 0x200a) || code == 0x2028 || code == 0x2029 ||
    code == 0x202f || code == 0x205f || code == 0x3000

def isBlank (value : String) : Bool := value.toList.all isSpace

def requireNonBlank (value label : String) : Except AgentError Unit :=
  if isBlank value then .error (.agentDefinitionError (label ++ " cannot be blank"))
  else .ok ()

end Spakky.Agent
