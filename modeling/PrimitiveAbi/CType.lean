import PrimitiveAbi.Arithmetic

/-!
# C types

The types of parameters and results as C sees them. A machine word has 64 bits, and a `char` is a
byte. A pointer has the signedness of what it points to.
-/

namespace PrimitiveAbi

inductive CType where
  | void
  | i32
  | u32
  | char
  /-- A signed machine word. -/
  | word
  /-- An unsigned machine word. -/
  | uword
  | wordPtr
  | wordPtrMut
  | uwordPtr
  | uwordPtrMut
  /-- A byte string that ends with a NUL. -/
  | cstr
  deriving DecidableEq, Repr

namespace CType

/-- The type as it is written in C. -/
def text : CType → String
  | .void => "void"
  | .i32 => "int32_t"
  | .u32 => "uint32_t"
  | .char => "char"
  | .word => "intptr_t"
  | .uword => "uintptr_t"
  | .wordPtr => "const intptr_t *"
  | .wordPtrMut => "intptr_t *"
  | .uwordPtr => "const uintptr_t *"
  | .uwordPtrMut => "uintptr_t *"
  | .cstr => "const char *"

def signedness : CType → Option Signedness
  | .i32 | .word | .wordPtr | .wordPtrMut => some .signed
  | .u32 | .uword | .uwordPtr | .uwordPtrMut => some .unsigned
  | .void | .char | .cstr => none

end CType

end PrimitiveAbi
