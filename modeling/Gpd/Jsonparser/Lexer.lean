import Gpd.Text.Scanner
import Gpd.Cxx.String

/-! The scanner of the JSON library: the automaton that re2c generated for it, one label for
each `basic_json_parser_<n>` that is entered with a character read, and the loop around it. -/
namespace Gpd.Jsonparser
open Text Cxx

inductive TokenType
  | uninitialized
  | literal_true
  | literal_false
  | literal_null
  | value_string
  | value_unsigned
  | value_integer
  | value_float
  | begin_array
  | begin_object
  | end_array
  | end_object
  | name_separator
  | value_separator
  | parse_error
  | end_of_input
  deriving DecidableEq, Repr

/-- Entry of the automaton, then the labels. -/
inductive Label
  | start
  | l2 | l4 | l6 | l9 | l10 | l12 | l13 | l15 | l17 | l19 | l21 | l23 | l24 | l25 | l26 | l28
  | l30 | l33 | l35 | l36 | l37 | l38 | l39 | l40 | l41 | l42 | l43 | l45 | l47 | l48 | l51
  | l52 | l53 | l54 | l55 | l56 | l59 | l60 | l62 | l63 | l64 | l65 | l66 | l67 | l69 | l71
  | l72 | l74
  deriving DecidableEq, Repr

/-- Character classes in rows of eight: 32 for white space, 64 for digits, 128 for plain
characters of a string. -/
def yybm : List (List UInt8) :=
  [[0, 0, 0, 0, 0, 0, 0, 0],
   [0, 32, 32, 0, 0, 32, 0, 0],
   [0, 0, 0, 0, 0, 0, 0, 0],
   [0, 0, 0, 0, 0, 0, 0, 0],
   [160, 128, 0, 128, 128, 128, 128, 128],
   [128, 128, 128, 128, 128, 128, 128, 128],
   [192, 192, 192, 192, 192, 192, 192, 192],
   [192, 192, 128, 128, 128, 128, 128, 128],
   [128, 128, 128, 128, 128, 128, 128, 128],
   [128, 128, 128, 128, 128, 128, 128, 128],
   [128, 128, 128, 128, 128, 128, 128, 128],
   [128, 128, 128, 128, 0, 128, 128, 128],
   [128, 128, 128, 128, 128, 128, 128, 128],
   [128, 128, 128, 128, 128, 128, 128, 128],
   [128, 128, 128, 128, 128, 128, 128, 128],
   [128, 128, 128, 128, 128, 128, 128, 128]] ++
  List.replicate 16 [0, 0, 0, 0, 0, 0, 0, 0]

/-- `yybm[0 + yych] & mask` -/
def inClass (mask yych : UInt8) : Bool :=
  (yybm.getD (yych.toNat / 8) []).getD (yych.toNat % 8) 0 &&& mask != 0

def nextStart (yych : UInt8) : Option Label :=
  if inClass 32 yych then some .l6
  else if yych ≤ '['.toUInt8 then
    if yych ≤ '-'.toUInt8 then
      if yych ≤ '"'.toUInt8 then
        if yych ≤ 0x00 then some .l2
        else if yych ≤ '!'.toUInt8 then some .l4
        else some .l9
      else if yych ≤ '+'.toUInt8 then some .l4
      else if yych ≤ ','.toUInt8 then some .l10
      else some .l12
    else if yych ≤ '9'.toUInt8 then
      if yych ≤ '/'.toUInt8 then some .l4
      else if yych ≤ '0'.toUInt8 then some .l13
      else some .l15
    else if yych ≤ ':'.toUInt8 then some .l17
    else if yych ≤ 'Z'.toUInt8 then some .l4
    else some .l19
  else if yych ≤ 'n'.toUInt8 then
    if yych ≤ 'e'.toUInt8 then
      if yych = ']'.toUInt8 then some .l21 else some .l4
    else if yych ≤ 'f'.toUInt8 then some .l23
    else if yych ≤ 'm'.toUInt8 then some .l4
    else some .l24
  else if yych ≤ 'z'.toUInt8 then
    if yych = 't'.toUInt8 then some .l25 else some .l4
  else if yych ≤ '\x7b'.toUInt8 then some .l26
  else if yych = '\x7d'.toUInt8 then some .l28
  else some .l4

/-- `basic_json_parser_31`: inside a string. -/
def next31 (yych : UInt8) : Option Label :=
  if inClass 128 yych then some .l30
  else if yych ≤ 0xE0 then
    if yych ≤ '\\'.toUInt8 then
      if yych ≤ 0x1F then none
      else if yych ≤ '"'.toUInt8 then some .l33
      else some .l35
    else if yych ≤ 0xC1 then none
    else if yych ≤ 0xDF then some .l36
    else some .l37
  else if yych ≤ 0xEF then
    if yych = 0xED then some .l39 else some .l38
  else if yych ≤ 0xF0 then some .l40
  else if yych ≤ 0xF3 then some .l41
  else if yych ≤ 0xF4 then some .l42
  else none

/-- Behind a backslash. -/
def next35 (yych : UInt8) : Option Label :=
  if yych ≤ 'e'.toUInt8 then
    if yych ≤ '/'.toUInt8 then
      if yych = '"'.toUInt8 then some .l30
      else if yych ≤ '.'.toUInt8 then none
      else some .l30
    else if yych ≤ '\\'.toUInt8 then
      if yych ≤ '['.toUInt8 then none else some .l30
    else if yych = 'b'.toUInt8 then some .l30
    else none
  else if yych ≤ 'q'.toUInt8 then
    if yych ≤ 'f'.toUInt8 then some .l30
    else if yych = 'n'.toUInt8 then some .l30
    else none
  else if yych ≤ 's'.toUInt8 then
    if yych ≤ 'r'.toUInt8 then some .l30 else none
  else if yych ≤ 't'.toUInt8 then some .l30
  else if yych ≤ 'u'.toUInt8 then some .l55
  else none

/-- A continuation byte between two bounds. -/
def nextTail (low high : UInt8) (target : Label) (yych : UInt8) : Option Label :=
  if yych < low then none
  else if yych ≤ high then some target
  else none

/-- A hexadecimal digit. -/
def nextHex (target : Label) (yych : UInt8) : Option Label :=
  if yych ≤ '@'.toUInt8 then
    if yych ≤ '/'.toUInt8 then none
    else if yych ≤ '9'.toUInt8 then some target
    else none
  else if yych ≤ 'F'.toUInt8 then some target
  else if yych ≤ '\x60'.toUInt8 then none
  else if yych ≤ 'f'.toUInt8 then some target
  else none

/-- Behind a leading zero. -/
def nextZero (yych : UInt8) : Option Label :=
  if yych ≤ '9'.toUInt8 then
    if yych = '.'.toUInt8 then some .l47
    else if '0'.toUInt8 ≤ yych then some .l48
    else none
  else if yych ≤ 'E'.toUInt8 then
    if 'E'.toUInt8 ≤ yych then some .l51 else none
  else if yych = 'e'.toUInt8 then some .l51
  else none

def next15 (yych : UInt8) : Option Label :=
  if inClass 64 yych then some .l15
  else if yych ≤ 'D'.toUInt8 then
    if yych = '.'.toUInt8 then some .l47 else none
  else if yych ≤ 'E'.toUInt8 then some .l51
  else if yych = 'e'.toUInt8 then some .l51
  else none

def next45 (yych : UInt8) : Option Label :=
  if yych ≤ '9'.toUInt8 then
    if yych = '.'.toUInt8 then some .l47
    else if yych ≤ '/'.toUInt8 then none
    else some .l45
  else if yych ≤ 'E'.toUInt8 then
    if yych ≤ 'D'.toUInt8 then none else some .l51
  else if yych = 'e'.toUInt8 then some .l51
  else none

def next51 (yych : UInt8) : Option Label :=
  if yych ≤ ','.toUInt8 then
    if yych = '+'.toUInt8 then some .l59 else none
  else if yych ≤ '-'.toUInt8 then some .l59
  else if yych ≤ '/'.toUInt8 then none
  else if yych ≤ '9'.toUInt8 then some .l60
  else none

def next56 (yych : UInt8) : Option Label :=
  if yych ≤ 'D'.toUInt8 then
    if yych ≤ '/'.toUInt8 then none
    else if yych ≤ '9'.toUInt8 then some .l56
    else none
  else if yych ≤ 'E'.toUInt8 then some .l51
  else if yych = 'e'.toUInt8 then some .l51
  else none

/-- One character that must follow. -/
def nextChar (c : Char) (target : Label) (yych : UInt8) : Option Label :=
  if yych = c.toUInt8 then some target else none

/-- A decimal digit. -/
def nextDigit (target : Label) (yych : UInt8) : Option Label :=
  if yych ≤ '/'.toUInt8 then none
  else if yych ≤ '9'.toUInt8 then some target
  else none

def next : Label → UInt8 → Option Label
  | .start, yych => nextStart yych
  | .l6, yych => if inClass 32 yych then some .l6 else none
  | .l9, yych =>
    if yych ≤ 0x1F then none
    else if yych ≤ 0x7F then next31 yych
    else if yych ≤ 0xC1 then none
    else if yych ≤ 0xF4 then next31 yych
    else none
  | .l12, yych =>
    if yych ≤ '/'.toUInt8 then none
    else if yych ≤ '0'.toUInt8 then some .l43
    else if yych ≤ '9'.toUInt8 then some .l45
    else none
  | .l13, yych => nextZero yych
  | .l15, yych => next15 yych
  | .l23, yych => nextChar 'a' .l52 yych
  | .l24, yych => nextChar 'u' .l53 yych
  | .l25, yych => nextChar 'r' .l54 yych
  | .l30, yych => next31 yych
  | .l35, yych => next35 yych
  | .l36, yych => nextTail 0x80 0xBF .l30 yych
  | .l37, yych => nextTail 0xA0 0xBF .l36 yych
  | .l38, yych => nextTail 0x80 0xBF .l36 yych
  | .l39, yych => nextTail 0x80 0x9F .l36 yych
  | .l40, yych => nextTail 0x90 0xBF .l38 yych
  | .l41, yych => nextTail 0x80 0xBF .l38 yych
  | .l42, yych => nextTail 0x80 0x8F .l38 yych
  | .l43, yych => nextZero yych
  | .l45, yych => next45 yych
  | .l47, yych => nextDigit .l56 yych
  | .l48, yych => nextDigit .l48 yych
  | .l51, yych => next51 yych
  | .l52, yych => nextChar 'l' .l62 yych
  | .l53, yych => nextChar 'l' .l63 yych
  | .l54, yych => nextChar 'u' .l64 yych
  | .l55, yych => nextHex .l65 yych
  | .l56, yych => next56 yych
  | .l59, yych => nextDigit .l60 yych
  | .l60, yych => nextDigit .l60 yych
  | .l62, yych => nextChar 's' .l66 yych
  | .l63, yych => nextChar 'l' .l67 yych
  | .l64, yych => nextChar 'e' .l69 yych
  | .l65, yych => nextHex .l71 yych
  | .l66, yych => nextChar 'e' .l72 yych
  | .l71, yych => nextHex .l74 yych
  | .l74, yych => nextHex .l30 yych
  | _, _ => none

/-- What happens when no character leads on: `continue`, or a token and `break`. -/
inductive Action
  | skip
  | emit (token : TokenType)
  deriving DecidableEq, Repr

/-- The labels that end in an action; the others go back to the marker. -/
def action : Label → Option Action
  | .l2 => some (.emit .end_of_input)
  | .l4 | .l9 | .l12 | .l23 | .l24 | .l25 | .l48 => some (.emit .parse_error)
  | .l6 => some .skip
  | .l10 => some (.emit .value_separator)
  | .l13 | .l15 => some (.emit .value_unsigned)
  | .l17 => some (.emit .name_separator)
  | .l19 => some (.emit .begin_array)
  | .l21 => some (.emit .end_array)
  | .l26 => some (.emit .begin_object)
  | .l28 => some (.emit .end_object)
  | .l33 => some (.emit .value_string)
  | .l43 | .l45 => some (.emit .value_integer)
  | .l56 | .l60 => some (.emit .value_float)
  | .l67 => some (.emit .literal_null)
  | .l69 => some (.emit .literal_true)
  | .l72 => some (.emit .literal_false)
  | _ => none

def automaton : Scanner UInt8 Label Action := ⟨next, action⟩

/-- The last token, its text from `m_start` to `m_cursor`, and what follows the cursor. -/
structure Lexer where
  last_token : TokenType
  token : Bytes
  rest : Bytes
  deriving DecidableEq, Repr

/-- The loop of `scan`, from the cursor on. -/
def scanLoop : ℕ → Bytes → Lexer
  | 0, s => ⟨.end_of_input, [], s⟩
  | n + 1, s =>
    match automaton.munch s .start none with
    | some (.skip, rest) => scanLoop n rest
    | some (.emit t, rest) => ⟨t, s.take (s.length - rest.length), rest⟩
    -- the buffer is used up and padded with a null byte again
    | none => ⟨.end_of_input, [], s⟩

/-- Each round of the loop reads at least one character. -/
def scan (s : Bytes) : Lexer := scanLoop (s.length + 1) s

/-- `fill_line_buffer` puts a null byte behind the text. -/
def buffer (s : Bytes) : Bytes := s ++ [0]

example : scan (buffer (ascii " \"a\\u00e9\", -1.5e3")) =
    ⟨.value_string, ascii "\"a\\u00e9\"", buffer (ascii ", -1.5e3")⟩ := by decide

end Gpd.Jsonparser
