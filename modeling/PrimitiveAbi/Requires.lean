import PrimitiveAbi.Catalog
import PrimitiveAbi.Contract
import PrimitiveAbi.Document.Parse

/-!
# What a program requires

A requires document names the symbols and the source names that a generated program binds against.
Checking it looks each of them up in the catalog, the symbols first, and yields a report. A document
of another version or ABI, or one with a surface that cannot be read, is not checked. A requires
document is closed, and a report is open: other members of a report are read past.
-/

namespace PrimitiveAbi

open Document (Shape Fields map_map_of_inverse)

/-- A source name that is required. -/
structure NameRequest where
  surface : String
  name : String
  deriving DecidableEq, Repr

structure Requires where
  version : String
  abiMajor : UInt32
  symbols : List String
  names : List NameRequest
  deriving DecidableEq, Repr

/-- A request and the symbol that it is bound to. -/
structure Resolution where
  requested : String
  symbol : String
  deriving DecidableEq, Repr

structure Report where
  version : String
  ok : Bool
  resolved : List Resolution
  missing : List String
  deriving DecidableEq, Repr

/-! ### The documents -/

namespace NameRequest

def fields : Fields :=
  .field "surface" true .text <|
  .field "name" true .text .nil

def ofVal : fields.Val → NameRequest
  | (surface, name, ()) => { surface, name }

def toVal (r : NameRequest) : fields.Val :=
  (r.surface, r.name, ())

@[simp] theorem ofVal_toVal (r : NameRequest) : ofVal r.toVal = r := rfl

@[simp] theorem toVal_ofVal (v : fields.Val) : (ofVal v).toVal = v := rfl

end NameRequest

namespace Requires

def fields : Fields :=
  .field "schema_version" true .text <|
  .field "abi_major" true .nat32 <|
  .field "symbols" false (.list .text) <|
  .field "names" false (.list (.record "NameReq" true NameRequest.fields)) .nil

/-- The shape of the document. -/
def shape : Shape := .record "AbiRequires" true fields

def ofVal : shape.Val → Requires
  | (version, abiMajor, symbols, names, ()) =>
      { version, abiMajor, symbols, names := names.map NameRequest.ofVal }

def toVal (r : Requires) : shape.Val :=
  (r.version, r.abiMajor, r.symbols, r.names.map NameRequest.toVal, ())

@[simp] theorem ofVal_toVal (r : Requires) : ofVal r.toVal = r :=
  congrArg (fun names => { r with names }) (map_map_of_inverse NameRequest.ofVal_toVal r.names)

@[simp] theorem toVal_ofVal : (v : shape.Val) → (ofVal v).toVal = v
  | (version, abiMajor, symbols, names, ()) =>
      congrArg (fun names => (version, abiMajor, symbols, names, ()))
        (map_map_of_inverse NameRequest.toVal_ofVal names)

/-- The requirements that a text is a document of. -/
def parse (text : String) : Except Json.Fault Requires :=
  (shape.parse text).map ofVal

def compact (r : Requires) : String := shape.compact r.toVal

end Requires

namespace Resolution

def fields : Fields :=
  .field "requested" true .text <|
  .field "symbol" true .text .nil

def ofVal : fields.Val → Resolution
  | (requested, symbol, ()) => { requested, symbol }

def toVal (r : Resolution) : fields.Val :=
  (r.requested, r.symbol, ())

@[simp] theorem ofVal_toVal (r : Resolution) : ofVal r.toVal = r := rfl

@[simp] theorem toVal_ofVal (v : fields.Val) : (ofVal v).toVal = v := rfl

end Resolution

namespace Report

def fields : Fields :=
  .field "schema_version" true .text <|
  .field "ok" true .flag <|
  .field "resolved" true (.list (.record "Resolved" false Resolution.fields)) <|
  .field "missing" true (.list .text) .nil

/-- The shape of the document. -/
def shape : Shape := .record "CheckReport" false fields

def ofVal : shape.Val → Report
  | (version, ok, resolved, missing, ()) =>
      { version, ok, resolved := resolved.map Resolution.ofVal, missing }

def toVal (r : Report) : shape.Val :=
  (r.version, r.ok, r.resolved.map Resolution.toVal, r.missing, ())

@[simp] theorem ofVal_toVal (r : Report) : ofVal r.toVal = r :=
  congrArg (fun resolved => { r with resolved })
    (map_map_of_inverse Resolution.ofVal_toVal r.resolved)

/-- The report that a text is a document of. -/
def parse (text : String) : Except Json.Fault Report :=
  (shape.parse text).map ofVal

def compact (r : Report) : String := shape.compact r.toVal

end Report

/-! ### The check -/

/-- Why requirements are not checked. -/
inductive CheckError where
  | version (given : String)
  | abiMajor (given : UInt32)
  /-- A name with a surface that cannot be read. -/
  | surface (name : String) (error : SurfaceError)
  deriving DecidableEq, Repr

/-- What went wrong, the outermost circumstance first. -/
def CheckError.chain : CheckError → List String
  | .version given =>
      ["requires schema_version mismatch: expected " ++ Contract.requiresVersion ++
        " got " ++ given]
  | .abiMajor given =>
      ["runtime ABI mismatch: requires abi_major=" ++ toString given ++
        ", runtime has abi_major=" ++ toString Contract.abiMajor]
  | .surface name error => ["requires name " ++ Text.quote name, error.message]

/-- A request: how a report names it, and the primitive that the catalog has for it. -/
structure Lookup where
  requested : String
  found : Option Primitive
  deriving DecidableEq, Repr

/-- The request of a symbol. -/
def Lookup.ofSymbol (symbol : String) : Lookup :=
  ⟨symbol, Catalog.findSymbol? symbol⟩

/-- The request of a name on a surface. -/
def Lookup.ofName (surface : Surface) (name : String) : Lookup :=
  ⟨surface.name ++ ":" ++ name, Catalog.findName? surface name⟩

/-- The request of a source name; its surface must be readable. -/
def NameRequest.lookup (r : NameRequest) : Except CheckError Lookup :=
  match Surface.parse r.surface with
  | .error e => .error (.surface r.name e)
  | .ok surface => .ok (Lookup.ofName surface r.name)

/-- The report on some requests. -/
def Report.ofLookups (lookups : List Lookup) : Report where
  version := Contract.reportVersion
  ok := lookups.all (·.found.isSome)
  resolved := lookups.filterMap fun l => l.found.map fun p => ⟨l.requested, p.symbol⟩
  missing := (lookups.filter (·.found.isNone)).map (·.requested)

/-- Looks up all that is required. -/
def Requires.check (r : Requires) : Except CheckError Report :=
  if r.version ≠ Contract.requiresVersion then .error (.version r.version)
  else if r.abiMajor ≠ Contract.abiMajor then .error (.abiMajor r.abiMajor)
  else
    match r.names.mapM NameRequest.lookup with
    | .error e => .error e
    | .ok names => .ok (Report.ofLookups (r.symbols.map Lookup.ofSymbol ++ names))

end PrimitiveAbi
