import PrimitiveAbi.Proofs.Document.FrontShape
import PrimitiveAbi.Proofs.Document.RoundTrip
import PrimitiveAbi.Requires

/-!
# Truncated documents

A document is read from left to right, and the first fault is final: what follows changes it only if
the text ended too early, or ended with a number that goes on. So a document that was cut off is told
apart from a wrong one. A report may be cut in a number that is skipped, and is then refused as no
JSON.
-/

namespace PrimitiveAbi

open Json (Fault NumberEnds InsideNumber)

variable {α β : Type}

/-- A fault stays what it is, whatever follows, if it is not that the text ends too early and no
number goes on. -/
def FaultsFinal (parse : String → Except Fault α) : Prop :=
  ∀ ⦃front : String⦄ ⦃e : Fault⦄, parse front = .error e → e ≠ .truncated →
    ∀ ⦃back : String⦄, NumberEnds back.toList → parse (front ++ back) = .error e

/-- If the whole is read, its front is read as the same or ends too early. -/
def FrontReads (parse : String → Except Fault α) (front back : String) : Prop :=
  ∀ ⦃v : α⦄, parse (front ++ back) = .ok v → parse front = .ok v ∨ parse front = .error .truncated

/-! ### Shapes -/

namespace Document

open Json

end Document

/-! ### Documents -/

theorem FaultsFinal.map {parse : String → Except Fault α} (h : FaultsFinal parse) (f : α → β) :
    FaultsFinal fun text => (parse text).map f := by
  intro front e he hne back hends
  dsimp only at he ⊢
  cases hp : parse front with
  | error e' =>
    rw [hp] at he
    cases he
    rw [h hp hne hends]
    rfl
  | ok v =>
    rw [hp] at he
    cases he

theorem FrontReads.map {parse : String → Except Fault α} {front back : String}
    (h : FrontReads parse front back) (f : α → β) :
    FrontReads (fun text => (parse text).map f) front back := by
  intro v hv
  dsimp only at hv ⊢
  cases hp : parse (front ++ back) with
  | error e =>
    rw [hp] at hv
    cases hv
  | ok w =>
    rw [hp] at hv
    cases hv
    refine (h hp).imp ?_ ?_ <;> exact congrArg (Except.map f)

end PrimitiveAbi
