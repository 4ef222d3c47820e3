import Gpd.Cxx.String

/-! The values of the JSON library, as far as the server reads and builds them. Numbers
keep the three representations of the library; strings are byte strings. -/
namespace Gpd.Cxx

/-- A finite `double`: a number, or the zero with a minus sign. -/
inductive FiniteDouble
  | number (x : ℚ)
  | negativeZero
  deriving DecidableEq

def FiniteDouble.value : FiniteDouble → ℚ
  | number x => x
  | negativeZero => 0

/-- A `double`. The sign of what is not finite is never looked at. -/
inductive Double
  | finite (x : FiniteDouble)
  | infinity
  | nan
  deriving DecidableEq

inductive Json
  | null
  | boolean (b : Bool)
  | string (s : Bytes)
  | numberInteger (n : ℤ)
  | numberUnsigned (n : ℕ)
  | numberFloat (x : FiniteDouble)
  | array (elements : List Json)
  | object (members : List (Bytes × Json))

/-- What is used of the library unread: the parser, the serializer, and the conversion of
a floating number outside `int`, whose result the language leaves open. -/
structure JsonLibrary where
  parse : Bytes → Except Fault Json
  dump : Json → Bytes
  outOfInt : ℚ → ℤ

namespace Json

/-- The value of a `double`, which is null unless it is finite. -/
def ofDouble : Double → Json
  | .finite x => .numberFloat x
  | .infinity | .nan => .null

/-- `j[key]`: a null turns into an object, and a missing member into null. -/
def member (key : Bytes) : Json → Except Fault Json
  | .null => .ok .null
  | .object members => .ok ((members.lookup key).getD .null)
  | _ => .error .jsonDomain

def size : Json → ℕ
  | .null => 0
  | .array elements => elements.length
  | .object members => members.length
  | _ => 1

/-- What a range-based `for` visits. -/
def elements : Json → List Json
  | .null => []
  | .array elements => elements
  | .object members => members.map Prod.snd
  | j => [j]

theorem size_eq (j : Json) : j.size = j.elements.length := by
  cases j <;> simp [size, elements]

def truncate (x : ℚ) : ℤ := if 0 ≤ x then ⌊x⌋ else ⌈x⌉

/-- `get<int>`: a `static_cast` from the stored representation. -/
def toInt (js : JsonLibrary) : Json → Except Fault ℤ
  | .boolean b => .ok (if b then 1 else 0)
  | .numberInteger n => .ok (n.bmod (2 ^ 32))
  | .numberUnsigned n => .ok ((n : ℤ).bmod (2 ^ 32))
  | .numberFloat x =>
    .ok (if -2147483649 < x.value ∧ x.value < 2147483648 then truncate x.value
      else js.outOfInt x.value)
  | _ => .error .jsonDomain

/-- `j == k` for a number `k` of type `int`. -/
def eqInt (k : ℤ) : Json → Bool
  | .numberInteger n => n = k
  | .numberUnsigned n => (n : ℤ).bmod (2 ^ 64) = k
  | .numberFloat x => x.value = k
  | _ => false

end Json

end Gpd.Cxx
