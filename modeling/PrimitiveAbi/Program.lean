import PrimitiveAbi.Catalog
import PrimitiveAbi.Output

/-!
# Programs

A generated program is a list of calls of primitives over some words of memory. Each call is bound
by symbol or by a name on a surface; a call that the catalog cannot bind does nothing. A call may
use the results of earlier calls, and integers are reduced into the type of the parameter they go
to. A zero divisor aborts the program before the call has any effect; otherwise it ends when its
calls do.
-/

namespace PrimitiveAbi

/-- What a call passes for a parameter. -/
inductive Argument where
  | number (value : Int)
  /-- The result of an earlier call. -/
  | result (call : Nat)
  /-- The address of a word of memory. -/
  | word (index : Nat)
  | null
  /-- A string: these bytes and a NUL. -/
  | bytes (content : List UInt8)
  /-- The decimal text of the result of an earlier call. -/
  | decimal (call : Nat)
  deriving DecidableEq, Repr

/-- How a call says which primitive it means. -/
inductive Binding where
  | bySymbol (symbol : String)
  | byName (surface : Surface) (name : String)
  deriving DecidableEq, Repr

/-- The primitive that a binding means. -/
def Binding.resolve? : Binding → Option Primitive
  | .bySymbol symbol => Catalog.findSymbol? symbol
  | .byName surface name => Catalog.findName? surface name

structure Call where
  binding : Binding
  arguments : List Argument
  deriving DecidableEq, Repr

/-- What a running program can observe: the words of memory and the results so far, with nothing
for a call without a result. -/
structure Machine where
  words : List (BitVec 64)
  results : List (Option Int) := []
  deriving DecidableEq, Repr

namespace Machine

/-- The result of a call; a call without one counts as 0. -/
def resultOf (m : Machine) (call : Nat) : Int :=
  (m.results[call]?).join.getD 0

/-- The integer that an argument passes; what is no integer counts as 0. -/
def integer (m : Machine) : Argument → Int
  | .number value => value
  | .result call => m.resultOf call
  | _ => 0

/-- The string that an argument passes; what is no string counts as the null pointer. -/
def string (m : Machine) : Argument → Option (List UInt8)
  | .bytes content => some content
  | .decimal call => some (toString (m.resultOf call)).toUTF8.toList
  | _ => none

/-- The word of memory that an argument points to; what is no address counts as the first. -/
def address : Argument → Nat
  | .word index => index
  | _ => 0

end Machine

/-- What a call does: its result, its output, and the words of memory after it. -/
structure Effect where
  result : Option Int := none
  output : List UInt8 := []
  words : List (BitVec 64)
  deriving DecidableEq, Repr

/-- An argument by position; a missing one counts as 0, null and the first word. -/
def argument (arguments : List Argument) (position : Nat) : Argument :=
  arguments[position]?.getD .null

namespace Primitive

/-- How the primitive reads its operands; it makes no difference where they are no integers. -/
def view (p : Primitive) : Signedness :=
  p.signedness.getD .signed

/-- What a call of a primitive does; nothing if it aborts the program. -/
def effect? (p : Primitive) (arguments : List Argument) (m : Machine) : Option Effect :=
  let first := argument arguments 0
  let second := argument arguments 1
  match p.kind with
  | .binary op =>
      match op.eval p.view (.ofInt 32 (m.integer first)) (.ofInt 32 (m.integer second)) with
      | .ok value => some { result := some (p.view.toInt value), words := m.words }
      | .error _ => none
  | .logicalNot =>
      some { result := some (logicalNot (.ofInt 32 (m.integer first))).toInt, words := m.words }
  | .charEql =>
      some { result := some (truth (BitVec.ofInt 8 (m.integer first) =
               BitVec.ofInt 8 (m.integer second))).toInt,
             words := m.words }
  | .display => some { output := Output.cstring (m.string first), words := m.words }
  | .displayLine =>
      some { output := Output.cstring (m.string first) ++ Output.lineFeed, words := m.words }
  | .newline => some { output := Output.lineFeed, words := m.words }
  | .load =>
      some { result := some (p.view.toInt (m.words[Machine.address first]?.getD 0)),
             words := m.words }
  | .store =>
      some { words := m.words.set (Machine.address first) (.ofInt 64 (m.integer second)) }

end Primitive

/-- What is seen of one call. -/
inductive CallAnswer where
  /-- The catalog has no such primitive. -/
  | unresolved
  | done (primitive : Primitive) (effect : Effect)
  deriving DecidableEq, Repr

/-- How a program ends. -/
inductive Ending where
  | finished
  | aborted
  deriving DecidableEq, Repr

/-- The exit status of the process. -/
def Ending.status : Ending → Option Nat
  | .finished => some 0
  | .aborted => none

/-- The signal that ended the process. -/
def Ending.signal : Ending → Option Nat
  | .finished => none
  | .aborted => some 6

/-- One call: what is seen of it and the machine after it; nothing if it aborts the program. -/
def Machine.step? (m : Machine) (c : Call) : Option (CallAnswer × Machine) :=
  match c.binding.resolve? with
  | none => some (.unresolved, { m with results := m.results ++ [none] })
  | some p =>
      (p.effect? c.arguments m).map fun e =>
        (.done p e, { words := e.words, results := m.results ++ [e.result] })

/-- Runs calls in order: what is seen of each that finished, and how the run ends. -/
def Machine.run (m : Machine) : List Call → List CallAnswer × Ending
  | [] => ([], .finished)
  | c :: rest =>
      match m.step? c with
      | none => ([], .aborted)
      | some (a, m') =>
          let others := m'.run rest
          (a :: others.1, others.2)

/-- A generated program. -/
structure Program where
  memory : List (BitVec 64) := []
  calls : List Call
  deriving DecidableEq, Repr

def Program.run (p : Program) : List CallAnswer × Ending :=
  Machine.run { words := p.memory } p.calls

end PrimitiveAbi
