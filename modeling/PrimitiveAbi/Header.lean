import PrimitiveAbi.Manifest

/-!
# C headers

The header of a manifest declares the symbols that generated code defines and every primitive, each
under a comment with its names. A type that ends with a star stands right before the name that it
declares, any other with a space between.
-/

namespace PrimitiveAbi.Header

/-- The macro that guards the header. -/
def guardName : String := "DOIT_RT_H"

/-- A name declared with a type. -/
def declarator (ctype name : String) : String :=
  if ctype.toList.getLast? = some '*' then ctype ++ name else ctype ++ " " ++ name

/-- The parameters of a prototype, between its parentheses. -/
def parameters : List DeclaredParam → String
  | [] => "void"
  | params => String.intercalate ", " (params.map fun p => declarator p.ctype p.name)

/-- The C prototype of a primitive. -/
def prototype (d : Declaration) : String :=
  declarator d.result d.symbol ++ "(" ++ parameters d.params ++ ")"

/-- A name as a comment shows it. -/
def mention (n : PublicName) : String :=
  n.surface ++ " `" ++ n.name ++ "`"

/-- What the comment of a primitive says. -/
def description (d : Declaration) : String :=
  String.intercalate ", " (d.names.map mention) ++
    if d.unchecked then "; unchecked address" else ""

/-- The lines of a primitive. -/
def primitiveLines (d : Declaration) : List String :=
  ["", "/* " ++ description d ++ " */", prototype d ++ ";"]

/-- The first line. -/
def title (m : Manifest) : String :=
  "/* " ++ m.runtime ++ " runtime ABI (" ++ m.version ++ ", abi_major " ++ toString m.abiMajor ++
    ", surface " ++ m.surface.name ++ "). Generated by doit-abi. */"

/-- The lines between the first one and the declarations. -/
def opening : List String :=
  ["#ifndef " ++ guardName, "#define " ++ guardName, "", "#include <stdint.h>", "",
   "#ifdef __cplusplus", "extern \"C\" \x7b", "#endif", "",
   "/* Defined by the generated program. */"]

/-- The declaration of a symbol that generated code defines. -/
def importLine (symbol : String) : String :=
  "void " ++ symbol ++ "(void);"

/-- The lines after the declarations. -/
def ending : List String :=
  ["", "#ifdef __cplusplus", "\x7d", "#endif", "", "#endif /* " ++ guardName ++ " */"]

/-- The lines of the header. -/
def lines (m : Manifest) : List String :=
  title m :: opening ++ m.imports.map importLine ++ m.primitives.flatMap primitiveLines ++ ending

/-- The header of a manifest. -/
def render (m : Manifest) : String :=
  String.join ((lines m).map (· ++ "\n"))

end PrimitiveAbi.Header
