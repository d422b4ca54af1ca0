/-!
# White space and case

`isBlank` is the Unicode property White_Space, all 25 characters of it; `trim` takes such characters
off both ends of a text. Case is a matter of the ASCII letters alone.
-/

namespace PrimitiveAbi.Text

/-- Unicode White_Space. -/
def isBlank (c : Char) : Bool :=
  (9 ≤ c.toNat && c.toNat ≤ 13) || c.toNat = 0x20 || c.toNat = 0x85 || c.toNat = 0xa0 ||
  c.toNat = 0x1680 || (0x2000 ≤ c.toNat && c.toNat ≤ 0x200a) || c.toNat = 0x2028 ||
  c.toNat = 0x2029 || c.toNat = 0x202f || c.toNat = 0x205f || c.toNat = 0x3000

/-- The text without the blanks at its end. -/
def trimEnd (cs : List Char) : List Char :=
  (cs.reverse.dropWhile isBlank).reverse

/-- The text without the blanks at either end. -/
def trim (cs : List Char) : List Char :=
  trimEnd (cs.dropWhile isBlank)

/-- What two texts share that differ in blanks around them and in the case of ASCII letters. -/
def canonical (s : String) : String :=
  String.ofList ((trim s.toList).map Char.toLower)

end PrimitiveAbi.Text
