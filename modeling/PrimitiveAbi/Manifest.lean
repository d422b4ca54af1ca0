import PrimitiveAbi.Catalog
import PrimitiveAbi.Contract
import PrimitiveAbi.Document.Parse

/-!
# Manifests

A manifest lists the primitives that have a name on the surfaces of a filter, with those names only.
It is a closed document: other members are refused.
-/

namespace PrimitiveAbi

open Document (Shape Fields map_map_of_inverse)

/-- A name on a surface, as documents hold it. -/
structure PublicName where
  surface : String
  name : String
  deriving DecidableEq, Repr

structure DeclaredParam where
  name : String
  ctype : String
  deriving DecidableEq, Repr

structure Declaration where
  symbol : String
  names : List PublicName
  kind : String
  signedness : Option String
  unchecked : Bool
  params : List DeclaredParam
  result : String
  deriving DecidableEq, Repr

structure Manifest where
  version : String
  abiMajor : UInt32
  runtime : String
  surface : SurfaceFilter
  /-- Symbols that generated code defines. -/
  imports : List String
  primitives : List Declaration
  deriving DecidableEq, Repr

/-! ### The document -/

namespace PublicName

def fields : Fields :=
  .field "surface" true .text <|
  .field "name" true .text .nil

def ofVal : fields.Val → PublicName
  | (surface, name, ()) => { surface, name }

def toVal (n : PublicName) : fields.Val :=
  (n.surface, n.name, ())

@[simp] theorem ofVal_toVal (n : PublicName) : ofVal n.toVal = n := rfl

@[simp] theorem toVal_ofVal (v : fields.Val) : (ofVal v).toVal = v := rfl

end PublicName

namespace DeclaredParam

def fields : Fields :=
  .field "name" true .text <|
  .field "c_type" true .text .nil

def ofVal : fields.Val → DeclaredParam
  | (name, ctype, ()) => { name, ctype }

def toVal (p : DeclaredParam) : fields.Val :=
  (p.name, p.ctype, ())

@[simp] theorem ofVal_toVal (p : DeclaredParam) : ofVal p.toVal = p := rfl

@[simp] theorem toVal_ofVal (v : fields.Val) : (ofVal v).toVal = v := rfl

end DeclaredParam

namespace Declaration

def fields : Fields :=
  .field "symbol" true .text <|
  .field "names" true (.list (.record "NameEntry" true PublicName.fields)) <|
  .field "kind" true .text <|
  .field "signedness" false .note <|
  .field "unchecked" true .flag <|
  .field "params" true (.list (.record "ParamEntry" true DeclaredParam.fields)) <|
  .field "ret" true .text .nil

def ofVal : fields.Val → Declaration
  | (symbol, names, kind, signedness, unchecked, params, result, ()) =>
      { symbol, names := names.map PublicName.ofVal, kind, signedness, unchecked,
        params := params.map DeclaredParam.ofVal, result }

def toVal (d : Declaration) : fields.Val :=
  (d.symbol, d.names.map PublicName.toVal, d.kind, d.signedness, d.unchecked,
    d.params.map DeclaredParam.toVal, d.result, ())

@[simp] theorem ofVal_toVal (d : Declaration) : ofVal d.toVal = d :=
  congr (congrArg (fun names params => { d with names, params })
    (map_map_of_inverse PublicName.ofVal_toVal d.names))
    (map_map_of_inverse DeclaredParam.ofVal_toVal d.params)

@[simp] theorem toVal_ofVal : (v : fields.Val) → (ofVal v).toVal = v
  | (symbol, names, kind, signedness, unchecked, params, result, ()) =>
      congr (congrArg (fun names params =>
        (symbol, names, kind, signedness, unchecked, params, result, ()))
          (map_map_of_inverse PublicName.toVal_ofVal names))
          (map_map_of_inverse DeclaredParam.toVal_ofVal params)

end Declaration

namespace Manifest

def fields : Fields :=
  .field "schema_version" true .text <|
  .field "abi_major" true .nat32 <|
  .field "runtime" true .text <|
  .field "surface" true .filter <|
  .field "imports" true (.list .text) <|
  .field "primitives" true (.list (.record "PrimitiveEntry" true Declaration.fields)) .nil

/-- The shape of the document. -/
def shape : Shape := .record "AbiManifest" true fields

def ofVal : shape.Val → Manifest
  | (version, abiMajor, runtime, surface, imports, primitives, ()) =>
      { version, abiMajor, runtime, surface, imports,
        primitives := primitives.map Declaration.ofVal }

def toVal (m : Manifest) : shape.Val :=
  (m.version, m.abiMajor, m.runtime, m.surface, m.imports, m.primitives.map Declaration.toVal, ())

@[simp] theorem ofVal_toVal (m : Manifest) : ofVal m.toVal = m :=
  congrArg (fun primitives => { m with primitives })
    (map_map_of_inverse Declaration.ofVal_toVal m.primitives)

@[simp] theorem toVal_ofVal : (v : shape.Val) → (ofVal v).toVal = v
  | (version, abiMajor, runtime, surface, imports, primitives, ()) =>
      congrArg (fun primitives =>
        (version, abiMajor, runtime, surface, imports, primitives, ()))
          (map_map_of_inverse Declaration.toVal_ofVal primitives)

/-- The manifest that a text is a document of. -/
def parse (text : String) : Except Json.Fault Manifest :=
  (shape.parse text).map ofVal

def compact (m : Manifest) : String := shape.compact m.toVal

def pretty (m : Manifest) : String := shape.pretty m.toVal

end Manifest

/-! ### The manifest of the catalog -/

/-- The declaration of a primitive, with its names on the surfaces of a filter. -/
def Primitive.declare (p : Primitive) (filter : SurfaceFilter) : Declaration where
  symbol := p.symbol
  names := (p.names.filter (filter.includes ·.1)).map fun (surface, name) => ⟨surface.name, name⟩
  kind := p.kind.name
  signedness := p.signedness.map (·.name)
  unchecked := p.unchecked
  params := p.params.map fun param => ⟨param.name, param.type.text⟩
  result := p.result.text

/-- The manifest of the primitives that have a name on a surface of the filter. -/
def Manifest.build (filter : SurfaceFilter) : Manifest where
  version := Contract.manifestVersion
  abiMajor := Contract.abiMajor
  runtime := Contract.runtime
  surface := filter
  imports := [Contract.entry]
  primitives := (Catalog.all.map (·.declare filter)).filter (!·.names.isEmpty)

end PrimitiveAbi
