import Mathlib.Logic.Relation
import PrimitiveAbi.Proofs.Document.Insertion
import PrimitiveAbi.Proofs.Document.RoundTrip
import PrimitiveAbi.Requires

/-!
# Open reports, closed documents

A report may have members that nobody knows, in itself and in its resolutions: with any number of
them it is the same report. Requirements and manifests may not: one such member, at any place and
with any value, and the document is refused by the name of that member.
-/

namespace PrimitiveAbi

open Document
open Json (Gap)

/-- To one object of a record in a document of the shape a member is added that the record does not
have; the record is closed or not. -/
def Adds (s : Shape) (closed : Bool) (name text extended : String) : Prop :=
  ∃ front added back : String, text = front ++ back ∧ extended = front ++ (added ++ back) ∧
    ValueSpot name added.toList back.toList closed s front.toList

/-- A member of another name may be added in front of the first one of an object. -/
theorem adds_first {title : String} {closed : Bool} {fs : Fields} {name added back : String}
    {after : List Char} (hname : name ∉ fs.names) (hmember : IsMember true name added.toList [','])
    (hback : Gap back.toList ('"' :: after)) :
    Adds (.record title closed fs) closed name ("\x7b" ++ back) ("\x7b" ++ (added ++ back)) :=
  ⟨"\x7b", added, back, rfl, rfl,
    .object .nil (.here hname (.before .first .nil hmember .nil .nil hback))⟩

theorem Adds.altered {s : Shape} {closed : Bool} {name text extended : String}
    (h : Adds s closed name text extended) : Altered name closed (s.parse text) (s.parse extended) := by
  obtain ⟨front, added, back, rfl, rfl, hspot⟩ := h
  have h := hspot.altered
  simp only [Shape.parse, String.toList_append]
  generalize s.reader.run (front.toList ++ back.toList) = x,
    s.reader.run (front.toList ++ (added.toList ++ back.toList)) = y at h ⊢
  apply h.bind (by intro e; rfl)

/-- A member that an open record does not have changes nothing. -/
theorem Adds.parse_open {s : Shape} {α : Type} {ofVal : s.Val → α} {name text extended : String}
    (h : Adds s false name text extended) {v : α} (hv : (s.parse text).map ofVal = .ok v) :
    (s.parse extended).map ofVal = .ok v := by
  have h := h.altered
  generalize s.parse text = x, s.parse extended = y at h hv ⊢
  cases h with
  | same => exact hv
  | fault => cases hv

/-- A member that a closed record does not have is refused by its name. -/
theorem Adds.parse_closed {s : Shape} {α : Type} {ofVal : s.Val → α} {name text extended : String}
    (h : Adds s true name text extended) {v : α} (hv : (s.parse text).map ofVal = .ok v) :
    ∃ what more, (s.parse extended).map ofVal = .error (.mismatch what) ∧
      what.message = "unknown field " ++ Json.ticked name ++ more := by
  have h := h.altered
  generalize s.parse text = x, s.parse extended = y at h hv ⊢
  cases h with
  | refused known =>
    exact ⟨_, _, rfl, String.append_assoc⟩
  | fault => cases hv

/-- Reports stay the same with members that their records do not have. Requirements and manifests
with one such member are refused by its name. -/
theorem reports_open_documents_closed :
    (∀ text extended : String, ∀ r : Report, Report.parse text = .ok r →
      Relation.ReflTransGen (fun text extended => ∃ name, Adds Report.shape false name text extended)
        text extended → Report.parse extended = .ok r) ∧
    (∀ name text extended : String, ∀ r : Requires, Requires.parse text = .ok r →
      Adds Requires.shape true name text extended →
      ∃ what more, Requires.parse extended = .error (.mismatch what) ∧
        what.message = "unknown field " ++ Json.ticked name ++ more) ∧
    ∀ name text extended : String, ∀ m : Manifest, Manifest.parse text = .ok m →
      Adds Manifest.shape true name text extended →
      ∃ what more, Manifest.parse extended = .error (.mismatch what) ∧
        what.message = "unknown field " ++ Json.ticked name ++ more := by
  refine ⟨fun text extended r hr hadds => ?_, fun _ _ _ _ hr h => h.parse_closed hr,
    fun _ _ _ _ hm h => h.parse_closed hm⟩
  induction hadds with
  | refl => exact hr
  | tail _ h ih =>
    obtain ⟨name, h⟩ := h
    exact h.parse_open ih

/-- A report with two members of one unknown name, and requirements with one. -/
theorem reports_open_documents_closed_null :
    Report.parse ("\x7b" ++ ("\"x\":null," ++ ("\"x\":null," ++
      "\"schema_version\":\"v\",\"ok\":true,\"resolved\":[],\"missing\":[]\x7d"))) =
        .ok ⟨"v", true, [], []⟩ ∧
    ∃ what more, Requires.parse ("\x7b" ++ ("\"x\":null," ++
      "\"schema_version\":\"v\",\"abi_major\":1,\"symbols\":[],\"names\":[]\x7d")) =
        .error (.mismatch what) ∧ what.message = "unknown field " ++ Json.ticked "x" ++ more := by
  have hreport : Report.compact ⟨"v", true, [], []⟩ = "\x7b" ++
      "\"schema_version\":\"v\",\"ok\":true,\"resolved\":[],\"missing\":[]\x7d" := by decide
  have hrequires : Requires.compact ⟨"v", 1, [], []⟩ = "\x7b" ++
      "\"schema_version\":\"v\",\"abi_major\":1,\"symbols\":[],\"names\":[]\x7d" := by decide
  have hmember : IsMember true "x" "\"x\":null,".toList [','] := by
    refine ⟨_, ⟨_, _, _, .first, .nil, ?_, .nil⟩, .word (w := ['n', 'u', 'l', 'l']) (by decide) .nil⟩
    exact .plain (by decide) (by decide) (by decide) .close
  constructor
  · refine reports_open_documents_closed.1 _ _ _ (hreport ▸ Report.parse_compact _) ?_
    exact .tail (.single ⟨"x", adds_first (by decide) hmember .nil⟩)
      ⟨"x", adds_first (by decide) hmember .nil⟩
  · exact reports_open_documents_closed.2.1 "x" _ _ _ (hrequires ▸ Requires.parse_compact _)
      (adds_first (by decide) hmember .nil)

end PrimitiveAbi
