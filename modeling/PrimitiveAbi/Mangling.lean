import PrimitiveAbi.Catalog

/-!
# From names to symbols

A name becomes a C symbol character by character: ASCII letters, digits and the underscore stay, a
hyphen becomes an underscore, and any other character an underscore with its decimal code point.
Different names may share a symbol, so the way back is by the catalog and not by the text.
-/

namespace PrimitiveAbi.Mangling

/-- The characters that a symbol keeps. -/
def isKept (c : Char) : Bool :=
  c.isAlphanum || c = '_'

/-- What one character contributes to the symbol. -/
def mangleChar (c : Char) : List Char :=
  if isKept c then [c]
  else if c = '-' then ['_']
  else '_' :: Nat.toDigits 10 c.toNat

/-- The C symbol of a name. -/
def mangle (name : String) : String :=
  String.ofList (name.toList.flatMap mangleChar)

/-- The names of the primitive with a symbol. -/
def demangle? (symbol : String) : Option (List (Surface × String)) :=
  (Catalog.findSymbol? symbol).map (·.names)

theorem toList_mangle (name : String) : (mangle name).toList = name.toList.flatMap mangleChar := by
  simp [mangle]

end PrimitiveAbi.Mangling
