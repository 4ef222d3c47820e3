import Gpd.Jsonparser.Escape
import Gpd.Jsonparser.GetNumber

/-! The serializer: `numtostr` for numbers, and `dump` with the indentation of each level. -/
namespace Gpd.Jsonparser
open Text Cxx

section Numtostr

/-- The loop of `x_write` for integers, with the number of characters that the buffer leaves to
it; the last digit comes first. -/
def digitLoop : ℕ → ℤ → Bytes
  | 0, _ => []
  | n + 1, x =>
    if x = 0 then [] else UInt8.ofNat (48 + (x.tmod 10).natAbs) :: digitLoop n (x.tdiv 10)

/-- `x_write` for integers. -/
def writeInteger (x : ℤ) : Bytes :=
  if x = 0 then ascii "0"
  else
    let digits := digitLoop 63 x
    (if x < 0 then digits ++ ascii "-" else digits).reverse

def isIntLike (text : Bytes) : Bool :=
  text.all fun c => c != '.'.toUInt8 && c != 'e'.toUInt8 && c != 'E'.toUInt8

/-- `x_write` for floating numbers. -/
def writeFloat (libc : Libc) (x : FiniteDouble) : Bytes :=
  if x.value = 0 then
    if x = .negativeZero then ascii "-0.0" else ascii "0.0"
  else
    let text := libc.snprintf x.value
    if isIntLike text then text ++ ascii ".0" else text

end Numtostr

section Dump

variable (libc : Libc) (pretty_print : Bool) (indent_step : UInt32)

/-- `string_t(indent, ' ')` -/
def spaces (indent : UInt32) : Bytes := List.replicate indent.toNat 32

def newline : Bytes := if pretty_print then [10] else []

def raise (indent : UInt32) : UInt32 := if pretty_print then indent + indent_step else indent

def lower (indent : UInt32) : UInt32 := if pretty_print then indent - indent_step else indent

/-- In front of each element but the first. -/
def separator (first : Bool) : Bytes := if first then [] else 44 :: newline pretty_print

mutual

def dumpAt (current_indent : UInt32) : Json → Bytes
  | .null => ascii "null"
  | .boolean b => if b then ascii "true" else ascii "false"
  | .string s => 34 :: (escape_string s ++ [34])
  | .numberInteger n => writeInteger n
  | .numberUnsigned n => writeInteger n
  | .numberFloat x => writeFloat libc x
  | .array [] => ascii "[]"
  | .array (j :: js) =>
    let new_indent := raise pretty_print indent_step current_indent
    91 :: (newline pretty_print ++ (dumpElements new_indent true (j :: js) ++
      (newline pretty_print ++ (spaces (lower pretty_print indent_step new_indent) ++ [93]))))
  | .object [] => ascii "\x7b\x7d"
  | .object (m :: ms) =>
    let new_indent := raise pretty_print indent_step current_indent
    123 :: (newline pretty_print ++ (dumpMembers new_indent true (m :: ms) ++
      (newline pretty_print ++ (spaces (lower pretty_print indent_step new_indent) ++ [125]))))

def dumpElements (indent : UInt32) (first : Bool) : List Json → Bytes
  | [] => []
  | j :: js =>
    separator pretty_print first ++
      (spaces indent ++ (dumpAt indent j ++ dumpElements indent false js))

def dumpMembers (indent : UInt32) (first : Bool) : List (Bytes × Json) → Bytes
  | [] => []
  | (key, j) :: ms =>
    separator pretty_print first ++ (spaces indent ++ (34 :: (escape_string key ++ (34 :: 58 ::
      ((if pretty_print then [32] else []) ++ (dumpAt indent j ++ dumpMembers indent false ms))))))

end

end Dump

def dump (libc : Libc) (indent : ℤ) (j : Json) : Bytes :=
  if 0 ≤ indent then dumpAt libc true (UInt32.ofInt indent) 0 j else dumpAt libc false 0 0 j

end Gpd.Jsonparser
