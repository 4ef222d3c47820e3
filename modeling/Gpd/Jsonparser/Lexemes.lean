import Gpd.Text.Utf8
import Gpd.Jsonparser.Lexer

/-! The texts of the tokens, as the rules say that the scanner was generated from. -/
namespace Gpd.Jsonparser
open Text Cxx

def isWs (b : UInt8) : Bool := b == 32 || b == 9 || b == 10 || b == 13

def isHex (b : UInt8) : Bool :=
  isDigit b || (65 ≤ b.toNat && b.toNat ≤ 70) || (97 ≤ b.toNat && b.toNat ≤ 102)

def isSingleEscaped (b : UInt8) : Bool :=
  b == 34 || b == 92 || b == 47 || b == 98 || b == 102 || b == 110 || b == 114 || b == 116

/-- The four digits of `unicode_escaped`. -/
structure Hex4 where
  d₁ : UInt8
  d₂ : UInt8
  d₃ : UInt8
  d₄ : UInt8
  hex : (isHex d₁ && isHex d₂ && isHex d₃ && isHex d₄) = true

def Hex4.text (x : Hex4) : Bytes := [x.d₁, x.d₂, x.d₃, x.d₄]

/-- `char`: what a string is made of. -/
inductive StringChar
  | unescaped (c : Char) (h : 0x20 ≤ c.toNat ∧ c ≠ '"' ∧ c ≠ '\\')
  | single (b : UInt8) (h : isSingleEscaped b = true)
  | unicode (x : Hex4)

def StringChar.text : StringChar → Bytes
  | unescaped c _ => String.utf8EncodeChar c
  | single b _ => [92, b]
  | unicode x => 92 :: 117 :: x.text

def stringText (cs : List StringChar) : Bytes := cs.flatMap StringChar.text

def quoted (body : Bytes) : Bytes := 34 :: (body ++ [34])

/-- `digit+` -/
structure Digits where
  text : Bytes
  nonempty : text ≠ []
  digits : ∀ b ∈ text, isDigit b = true

/-- `int` -/
inductive IntText : Bytes → Prop
  | zero : IntText [48]
  | positive {d : UInt8} {ds : Bytes} : isDigit d = true → d ≠ 48 → (∀ b ∈ ds, isDigit b = true) →
      IntText (d :: ds)

/-- `exp` -/
structure Exponent where
  e : UInt8
  sign : Bytes
  digits : Digits
  e_ok : e = 101 ∨ e = 69
  sign_ok : sign = [] ∨ sign = [43] ∨ sign = [45]

def Exponent.text (x : Exponent) : Bytes := x.e :: (x.sign ++ x.digits.text)

/-- `minus? int frac? exp?` -/
structure NumberText where
  minus : Bool
  int : Bytes
  frac : Option Digits
  exp : Option Exponent
  int_ok : IntText int

def minusText (minus : Bool) : Bytes := if minus then [45] else []

def fracText (frac : Option Digits) : Bytes := frac.elim [] fun ds => 46 :: ds.text

def expText (exp : Option Exponent) : Bytes := exp.elim [] Exponent.text

namespace NumberText

def text (n : NumberText) : Bytes :=
  minusText n.minus ++ (n.int ++ (fracText n.frac ++ expText n.exp))

def isInteger (n : NumberText) : Bool := n.frac.isNone && n.exp.isNone

/-- The first of the number rules that fits. -/
def tokenType (n : NumberText) : TokenType :=
  if n.isInteger then if n.minus then .value_integer else .value_unsigned else .value_float

end NumberText

/-- The bytes that are a token by themselves. -/
def structural (b : UInt8) : Option TokenType :=
  if b = 91 then some .begin_array
  else if b = 93 then some .end_array
  else if b = 123 then some .begin_object
  else if b = 125 then some .end_object
  else if b = 44 then some .value_separator
  else if b = 58 then some .name_separator
  else if b = 0 then some .end_of_input
  else none

/-- The rules of the scanner except the one for white space. -/
inductive Lexeme : TokenType → Bytes → Prop
  | structural {b : UInt8} {t : TokenType} (h : structural b = some t) : Lexeme t [b]
  | literal_null : Lexeme .literal_null (ascii "null")
  | literal_true : Lexeme .literal_true (ascii "true")
  | literal_false : Lexeme .literal_false (ascii "false")
  | string (cs : List StringChar) : Lexeme .value_string (quoted (stringText cs))
  | number (n : NumberText) : Lexeme n.tokenType n.text
  | invalidInt (minus : Bool) (ds : Digits) : Lexeme .parse_error (minusText minus ++ 48 :: ds.text)
  | other {b : UInt8} (h : structural b = none) (hws : isWs b = false)
      (hdigit : isDigit b = false) : Lexeme .parse_error [b]

end Gpd.Jsonparser
