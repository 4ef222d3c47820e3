import Gpd.Jsonparser.Lexemes

/-! The transitions of the generated automaton, by the classes of characters that the rules
speak of. -/
namespace Gpd.Jsonparser
open Text Cxx

lemma forall_byte {P : UInt8 → Prop} (h : ∀ n < 256, P (UInt8.ofNat n)) (b : UInt8) : P b := by
  have hb := h b.toNat b.toNat_lt
  rwa [UInt8.ofNat_toNat] at hb

/-- What a string is made of besides escapes and characters of several bytes. -/
def isPlain (b : UInt8) : Bool := 0x20 ≤ b.toNat && b.toNat < 0x80 && b != 34 && b != 92

def isExp (b : UInt8) : Bool := b == 101 || b == 69

def one (p : Bool) (target : Label) : Option Label := if p then some target else none

def between (low high : ℕ) (b : UInt8) : Bool := low ≤ b.toNat && b.toNat ≤ high

/-- The first byte of a character of several bytes. -/
def leadByClass (b : UInt8) : Option Label :=
  if between 0xC2 0xDF b then some .l36
  else if b = 0xE0 then some .l37
  else if b = 0xED then some .l39
  else if between 0xE1 0xEF b then some .l38
  else if b = 0xF0 then some .l40
  else if between 0xF1 0xF3 b then some .l41
  else one (b = 0xF4) .l42

/-- Inside a string. -/
def stringByClass (b : UInt8) : Option Label :=
  if isPlain b then some .l30
  else if b = 34 then some .l33
  else if b = 92 then some .l35
  else leadByClass b

/-- Behind an integer part that `target` goes on with. -/
def intByClass (target : Label) (b : UInt8) : Option Label :=
  if isDigit b then some target
  else if b = 46 then some .l47
  else one (isExp b) .l51

/-- The first character decides the kind of the token. -/
def startByClass (b : UInt8) : Label :=
  if isWs b then .l6
  else if b = 0 then .l2
  else if b = 34 then .l9
  else if b = 44 then .l10
  else if b = 45 then .l12
  else if b = 48 then .l13
  else if isDigit b then .l15
  else if b = 58 then .l17
  else if b = 91 then .l19
  else if b = 93 then .l21
  else if b = 102 then .l23
  else if b = 110 then .l24
  else if b = 116 then .l25
  else if b = 123 then .l26
  else if b = 125 then .l28
  else .l4

def byClass : Label → UInt8 → Option Label
  | .start, b => some (startByClass b)
  | .l6, b => one (isWs b) .l6
  | .l9, b | .l30, b => stringByClass b
  | .l12, b => if b = 48 then some .l43 else one (isDigit b) .l45
  | .l13, b | .l43, b => intByClass .l48 b
  | .l15, b => intByClass .l15 b
  | .l45, b => intByClass .l45 b
  | .l23, b => one (b = 97) .l52
  | .l24, b => one (b = 117) .l53
  | .l25, b => one (b = 114) .l54
  | .l35, b => if isSingleEscaped b then some .l30 else one (b = 117) .l55
  | .l36, b => one (between 0x80 0xBF b) .l30
  | .l37, b => one (between 0xA0 0xBF b) .l36
  | .l38, b => one (between 0x80 0xBF b) .l36
  | .l39, b => one (between 0x80 0x9F b) .l36
  | .l40, b => one (between 0x90 0xBF b) .l38
  | .l41, b => one (between 0x80 0xBF b) .l38
  | .l42, b => one (between 0x80 0x8F b) .l38
  | .l47, b => one (isDigit b) .l56
  | .l48, b => one (isDigit b) .l48
  | .l51, b => if isDigit b then some .l60 else one (b = 43 ∨ b = 45) .l59
  | .l52, b => one (b = 108) .l62
  | .l53, b => one (b = 108) .l63
  | .l54, b => one (b = 117) .l64
  | .l55, b => one (isHex b) .l65
  | .l56, b => if isDigit b then some .l56 else one (isExp b) .l51
  | .l59, b | .l60, b => one (isDigit b) .l60
  | .l62, b => one (b = 115) .l66
  | .l63, b => one (b = 108) .l67
  | .l64, b => one (b = 101) .l69
  | .l65, b => one (isHex b) .l71
  | .l66, b => one (b = 101) .l72
  | .l71, b => one (isHex b) .l74
  | .l74, b => one (isHex b) .l30
  | _, _ => none

def labels : List Label :=
  [.start, .l2, .l4, .l6, .l9, .l10, .l12, .l13, .l15, .l17, .l19, .l21, .l23, .l24, .l25, .l26,
    .l28, .l30, .l33, .l35, .l36, .l37, .l38, .l39, .l40, .l41, .l42, .l43, .l45, .l47, .l48,
    .l51, .l52, .l53, .l54, .l55, .l56, .l59, .l60, .l62, .l63, .l64, .l65, .l66, .l67, .l69,
    .l71, .l72, .l74]

lemma mem_labels (q : Label) : q ∈ labels := by cases q <;> simp [labels]

lemma byClass_table (b : UInt8) : ∀ q ∈ labels, next q b = byClass q b := by
  revert b
  exact forall_byte (by decide +kernel)

/-- The comparisons of the generated code sort the characters into these classes. -/
theorem next_eq_byClass (q : Label) (b : UInt8) : next q b = byClass q b :=
  byClass_table b q (mem_labels q)

end Gpd.Jsonparser
