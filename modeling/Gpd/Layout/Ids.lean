import Gpd.Layout.Precondition

/-! The ids of a document as the numbers they are, beside the indices they are converted to. -/
namespace Gpd.Layout
open Cxx Ogdf Arcs Machine

/-- An id, in whichever representation it is stored. -/
inductive IdValue
  | number (x : ℚ)
  | boolean (b : Bool)
  deriving DecidableEq

def idValue : Json → Except Fault IdValue
  | .boolean b => .ok (.boolean b)
  | .numberInteger n => .ok (.number n)
  | .numberUnsigned n => .ok (.number n)
  | .numberFloat x => .ok (.number x.value)
  | _ => .error .jsonDomain

structure Id where
  value : IdValue
  index : ℤ
  deriving DecidableEq

variable (js : JsonLibrary)

def toId (j : Json) : Except Fault Id := do
  return ⟨← idValue j, ← j.toInt js⟩

def stateIdentity (state : Json) : Except Fault Id := do
  toId js (← state.member (ascii "id"))

def readArc (edge : Json) : Except Fault (Arc Id) := do
  let source ← toId js (← edge.member (ascii "from"))
  let target ← toId js (← edge.member (ascii "to"))
  let type ← edge.member (ascii "type")
  return ⟨source, target, kindOf type⟩

def identitiesOf (doc : Json) : Except Fault (List Id) := do
  (← doc.member (ascii "states")).elements.mapM (stateIdentity js)

def arcsOf (doc : Json) : Except Fault (List (Arc Id)) := do
  (← doc.member (ascii "transitions")).elements.mapM (readArc js)

/-- The transition that is left of it after the conversions. -/
abbrev converted (t : Arc Id) : Transition := t.map Id.index

variable {js}

lemma toInt_eq (j : Json) : j.toInt js = (toId js j).map Id.index := by
  cases j <;> simp [toId, idValue, Json.toInt, Except.map, pure, Except.pure]

lemma stateId_eq (state : Json) : stateId js state = (stateIdentity js state).map Id.index := by
  rw [stateId, stateIdentity]
  cases state.member (ascii "id") with
  | error e => rfl
  | ok j => exact toInt_eq j

lemma readTransition_eq (edge : Json) :
    readTransition js edge = (readArc js edge).map converted := by
  rw [readTransition, readArc]
  cases edge.member (ascii "from") with
  | error e => rfl
  | ok jFrom =>
    simp only [ok_bind, toInt_eq]
    cases toId js jFrom with
    | error e => rfl
    | ok source =>
      cases edge.member (ascii "to") with
      | error e => rfl
      | ok jTo =>
        simp only [ok_bind, Except.map]
        cases toId js jTo with
        | error e => rfl
        | ok target => cases edge.member (ascii "type") <;> rfl

end Gpd.Layout
