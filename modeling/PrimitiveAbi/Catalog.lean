import PrimitiveAbi.Primitive

/-!
# The catalog

Every exported primitive: the checked ones first, then the four that follow addresses. Symbols are
distinct, and so are the names on each surface, so a look-up has one answer.
-/

namespace PrimitiveAbi.Catalog

/-- Signed arithmetic under a spelled name, which is its own symbol. -/
def signedArithmetic (symbol : String) (op : Operator) : Primitive :=
  { symbol, names := [(.spelled, symbol)], kind := .binary op,
    params := [⟨"a", .i32⟩, ⟨"b", .i32⟩], result := .i32 }

/-- Unsigned arithmetic under a symbolic name. -/
def unsignedArithmetic (symbol name : String) (op : Operator) : Primitive :=
  { symbol, names := [(.symbolic, name)], kind := .binary op,
    params := [⟨"x", .u32⟩, ⟨"y", .u32⟩], result := .u32 }

/-- Arithmetic, comparison, negation and text output. -/
def checked : List Primitive :=
  [signedArithmetic "add" .add,
   signedArithmetic "sub" .sub,
   signedArithmetic "mul" .mul,
   signedArithmetic "div" .div,
   signedArithmetic "remainder" .rem,
   signedArithmetic "lt" .lt,
   signedArithmetic "gt" .gt,
   signedArithmetic "eql" .eql,
   unsignedArithmetic "_43" "+" .add,
   unsignedArithmetic "_" "-" .sub,
   unsignedArithmetic "_42" "*" .mul,
   unsignedArithmetic "_47" "/" .div,
   unsignedArithmetic "_60" "<" .lt,
   unsignedArithmetic "_62" ">" .gt,
   unsignedArithmetic "_61" "=" .eql,
   { symbol := "char_61_63", names := [(.symbolic, "char=?")], kind := .charEql,
     params := [⟨"x", .char⟩, ⟨"y", .char⟩], result := .i32 },
   { symbol := "not", names := [(.spelled, "not"), (.symbolic, "not")], kind := .logicalNot,
     params := [⟨"x", .i32⟩], result := .i32 },
   { symbol := "display", names := [(.spelled, "display"), (.symbolic, "display")],
     kind := .display, params := [⟨"s", .cstr⟩], result := .void },
   { symbol := "display_line", names := [(.spelled, "display_line"), (.symbolic, "display-line")],
     kind := .displayLine, params := [⟨"s", .cstr⟩], result := .void },
   { symbol := "newline", names := [(.spelled, "newline"), (.symbolic, "newline")],
     kind := .newline, params := [], result := .void }]

/-- Loads and stores of machine words at addresses of the caller's. -/
def unchecked : List Primitive :=
  [{ symbol := "peek", names := [(.spelled, "peek")], kind := .load,
     params := [⟨"addr", .wordPtr⟩], result := .word, unchecked := true },
   { symbol := "poke", names := [(.spelled, "poke")], kind := .store,
     params := [⟨"addr", .wordPtrMut⟩, ⟨"x", .word⟩], result := .void, unchecked := true },
   { symbol := "ref", names := [(.symbolic, "ref")], kind := .load,
     params := [⟨"x", .uwordPtr⟩], result := .uword, unchecked := true },
   { symbol := "set_42", names := [(.symbolic, "set*")], kind := .store,
     params := [⟨"x", .uwordPtrMut⟩, ⟨"y", .uword⟩], result := .void, unchecked := true }]

/-- All primitives, in the order in which documents list them. -/
def all : List Primitive := checked ++ unchecked

/-- The primitive with a symbol. -/
def findSymbol? (symbol : String) : Option Primitive :=
  all.find? (·.symbol = symbol)

/-- The primitive with a name on a surface. -/
def findName? (surface : Surface) (name : String) : Option Primitive :=
  all.find? (·.name? surface = some name)

/-- The names on a surface, each with its primitive. -/
def namesOn (surface : Surface) : List (String × Primitive) :=
  all.filterMap fun p => (p.name? surface).map (·, p)

theorem symbols_nodup : (all.map (·.symbol)).Nodup := by decide

theorem names_nodup (surface : Surface) : ((namesOn surface).map (·.1)).Nodup := by
  cases surface <;> decide

end PrimitiveAbi.Catalog
