import Gpd.Cxx.Json
import Gpd.Ogdf.Graph

/-! From a machine document to the document with node positions: the class `OgdfTest` and
the processing callback of the server. -/
namespace Gpd.Layout
open Cxx Ogdf

structure OgdfTest where
  G : Graph
  GC : Graph
  GA : GraphAttributes
  graphIsPlanar : Bool
  isValidMachine : Bool

/-- The members before the constructor's body. -/
def OgdfTest.initial : OgdfTest where
  G := Graph.empty
  GC := Graph.empty
  GA := ⟨fun _ => .finite (.number 0), fun _ => .finite (.number 0)⟩
  graphIsPlanar := false
  isValidMachine := true

/-- The first node with the index; without one the pointer stays uninitialized. -/
def getNodeByIndex (g : Graph) (index : ℤ) : Option Node := g.nodes.findIdx? (· = index)

def transitionAlreadyExists (g : Graph) (iSource iTarget : ℤ) : Bool :=
  g.edges.any fun e => g.nodes[e.1]? = some iSource ∧ g.nodes[e.2]? = some iTarget

/-- `G.newEdge(v, w)`, which must not see an uninitialized pointer. -/
def newEdge (g : Graph) : Option Node → Option Node → Except Fault Graph
  | some v, some w => .ok (g.newEdge v w)
  | _, _ => .error .wildPointer

section Loading

variable (js : JsonLibrary)

def stateId (state : Json) : Except Fault ℤ := do
  (← state.member (ascii "id")).toInt js

def loadState (s : Graph × NodeTable) (state : Json) : Except Fault (Graph × NodeTable) := do
  s.1.newNode s.2 (← stateId js state)

def loadStates (g : Graph) (states : List Json) : Except Fault Graph := do
  return (← states.foldlM (loadState js) (g, .initial)).1

def loadTransition (g : Graph) (edge : Json) : Except Fault Graph := do
  let iSource ← (← edge.member (ascii "from")).toInt js
  let iTarget ← (← edge.member (ascii "to")).toInt js
  let type ← edge.member (ascii "type")
  if type.eqInt 2 then
    if !transitionAlreadyExists g iTarget iSource then
      newEdge g (getNodeByIndex g iSource) (getNodeByIndex g iTarget)
    else
      return g
  else if type.eqInt 0 then
    newEdge g (getNodeByIndex g iSource) (getNodeByIndex g iTarget)
  else
    -- recursive transitions are ignored
    return g

def loadTransitions (g : Graph) (edges : List Json) : Except Fault Graph :=
  edges.foldlM (loadTransition js) g

/-- The body of `JSONMachineToGraph` after parsing. -/
def documentToGraph (o : OgdfTest) (j : Json) : Except Fault OgdfTest := do
  let states ← j.member (ascii "states")
  if states.size < 2 then
    return { o with isValidMachine := false }
  else
    let g ← loadStates js o.G states.elements
    let edges ← j.member (ascii "transitions")
    if edges.size = 0 then
      return { o with G := g, isValidMachine := false }
    else
      return { o with G := ← loadTransitions js g edges.elements }

def JSONMachineToGraph (o : OgdfTest) (JSONstrng : Bytes) : Except Fault OgdfTest := do
  documentToGraph js o (← js.parse JSONstrng)

def OgdfTest.new (JSONstrng : Bytes) : Except Fault OgdfTest :=
  JSONMachineToGraph js OgdfTest.initial JSONstrng

end Loading

def OgdfTest.isValid (o : OgdfTest) : Bool := o.isValidMachine

/-- The copy after `MPS.callAndDelete(GC, delEdges)`, whose return value is ignored. -/
def callAndDelete (og : Library) (GC : Graph) : Graph :=
  match og.callAndDelete GC with
  | some deleted => GC.delEdges deleted
  | none => GC

def OgdfTest.graphToPlanarRep (og : Library) (o : OgdfTest) : Except Fault OgdfTest :=
  if o.G.Consistent then
    if og.isPlanar o.G then do
      return { o with graphIsPlanar := true, GA := ← og.layout o.G }
    else do
      let GC := callAndDelete og o.G.copy
      return { o with graphIsPlanar := false, GC := GC, GA := ← og.layout GC }
  else
    -- the node arrays of the algorithms have no entry, or a shared one, for some node
    .error .inconsistentGraph

def stateEntry (index : ℤ) (x y : Double) : Json :=
  .object [(ascii "id", .numberInteger index), (ascii "xPos", .ofDouble x),
    (ascii "yPos", .ofDouble y)]

/-- The value that `planarRepToJSON` serializes. -/
def OgdfTest.planarRep (o : OgdfTest) : Json :=
  let nodes := if o.graphIsPlanar then o.G.nodes else o.GC.nodes
  .object [(ascii "states", .array (nodes.map fun i => stateEntry i (o.GA.x i) (o.GA.y i)))]

def OgdfTest.planarRepToJSON (js : JsonLibrary) (o : OgdfTest) : Bytes := js.dump o.planarRep

/-- The processing callback handed to the server. -/
def processingCallback (js : JsonLibrary) (og : Library) (machine : Bytes) :
    Except Fault Bytes := do
  let o ← OgdfTest.new js machine
  if o.isValid then
    return (← o.graphToPlanarRep og).planarRepToJSON js
  else
    -- an invalid machine, like an empty one
    return machine

end Gpd.Layout
