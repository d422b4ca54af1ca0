import PrimitiveAbi.Decimal.Shortest
import PrimitiveAbi.Text.Quoted

/-!
# Faults in documents

A text is refused because it ends too early, because it is no JSON or goes on after the document, or
because it is JSON of the wrong shape. A mismatch of the last kind says what was found and what was
expected.
-/

namespace PrimitiveAbi.Json

/-- What stands where something else was expected. -/
inductive Found where
  | null
  | boolean (value : Bool)
  | integer (value : Int)
  | real (value : Decimal.Binary64)
  | text (value : String)
  | sequence
  | map
  deriving DecidableEq, Repr

/-- JSON of the wrong shape. -/
inductive Mismatch where
  | wrongType (found : Found) (expected : String)
  | outOfRange (value : Int) (expected : String)
  /-- A record written as an array that lacks the element at this position. -/
  | tooShort (position : Nat) (title : String) (size : Nat)
  | unknownField (name : String) (known : List String)
  | unknownVariant (name : String) (known : List String)
  | duplicateField (name : String)
  | missingField (name : String)
  deriving DecidableEq, Repr

/-- Why a text is refused. -/
inductive Fault where
  /-- The text ends too early. -/
  | truncated
  /-- The text is no JSON, or goes on after the document. -/
  | malformed
  | mismatch (what : Mismatch)
  deriving DecidableEq, Repr

def Found.description : Found → String
  | .null => "null"
  | .boolean value => "boolean `" ++ (if value then "true" else "false") ++ "`"
  | .integer value => "integer `" ++ toString value ++ "`"
  | .real value => "floating point `" ++ value.text ++ "`"
  | .text value => "string " ++ Text.quote value
  | .sequence => "sequence"
  | .map => "map"

/-- A name as messages show it. -/
def ticked (name : String) : String := "`" ++ name ++ "`"

/-- The names that would have been known. -/
def alternatives : List String → String
  | [name] => ticked name
  | [first, second] => ticked first ++ " or " ++ ticked second
  | names => "one of " ++ String.intercalate ", " (names.map ticked)

def Mismatch.message : Mismatch → String
  | .wrongType found expected => "invalid type: " ++ found.description ++ ", expected " ++ expected
  | .outOfRange value expected =>
      "invalid value: " ++ (Found.integer value).description ++ ", expected " ++ expected
  | .tooShort position title size =>
      "invalid length " ++ toString position ++ ", expected struct " ++ title ++ " with " ++
        toString size ++ " elements"
  | .unknownField name known =>
      "unknown field " ++ ticked name ++ ", expected " ++ alternatives known
  | .unknownVariant name known =>
      "unknown variant " ++ ticked name ++ ", expected " ++ alternatives known
  | .duplicateField name => "duplicate field " ++ ticked name
  | .missingField name => "missing field " ++ ticked name

end PrimitiveAbi.Json
