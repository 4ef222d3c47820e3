import Gpd.Machine.Action
import Gpd.Cxx.Map
import Gpd.Jsonparser.GetString
import Gpd.Jsonparser.GetNumber

/-! The recursive descent parser, which looks one token ahead. It is called without a
callback, so every value is kept; a value without a result stays discarded. -/
namespace Gpd.Jsonparser
open Text Cxx

instance byteOrder : LinearOrder UInt8 where
  le := (· ≤ ·)
  lt := (· < ·)
  le_refl := UInt8.le_refl
  le_trans _ _ _ := UInt8.le_trans
  le_antisymm _ _ := UInt8.le_antisymm
  le_total := UInt8.le_total
  lt_iff_le_not_ge a b := by
    rw [UInt8.lt_iff_toNat_lt, UInt8.le_iff_toNat_le, UInt8.le_iff_toNat_le]
    omega
  toDecidableLE := inferInstance
  toDecidableEq := inferInstance
  toDecidableLT := inferInstance

def TokenType.name : TokenType → Bytes
  | .uninitialized => ascii "<uninitialized>"
  | .literal_true => ascii "true literal"
  | .literal_false => ascii "false literal"
  | .literal_null => ascii "null literal"
  | .value_string => ascii "string literal"
  | .value_unsigned | .value_integer | .value_float => ascii "number literal"
  | .begin_array => ascii "'['"
  | .begin_object => ascii "'\x7b'"
  | .end_array => ascii "']'"
  | .end_object => ascii "'\x7d'"
  | .name_separator => ascii "':'"
  | .value_separator => ascii "','"
  | .parse_error => ascii "<parse error>"
  | .end_of_input => ascii "end of input"

/-- The parser ends with an exception of its own, or the rounds allowed to it are used up. -/
inductive Stop
  | thrown (e : ParseError)
  | exhausted
  deriving DecidableEq, Repr

namespace Lexer

/-- "parse error - unexpected ..." -/
def unexpectedText (lx : Lexer) : Bytes :=
  ascii "parse error - unexpected " ++
    if lx.last_token = .parse_error then ascii "'" ++ lx.token ++ ascii "'"
    else lx.last_token.name

def get_token (lx : Lexer) : Lexer := scan lx.rest

def expect (lx : Lexer) (t : TokenType) : Except Stop Unit :=
  if t ≠ lx.last_token then
    .error (.thrown (.invalid_argument (lx.unexpectedText ++ ascii "; expected " ++ t.name)))
  else .ok ()

def unexpect (lx : Lexer) (t : TokenType) : Except Stop Unit :=
  if t = lx.last_token then .error (.thrown (.invalid_argument lx.unexpectedText))
  else .ok ()

/-- `get_string` where an exception ends the parser. -/
def string (lx : Lexer) : Except Stop Bytes :=
  match lx.get_string with
  | .ok s => .ok s
  | .error e => .error (.thrown e)

/-- At the beginning of a round of the loops, a comma is left behind. -/
def skipSeparator (lx : Lexer) : Lexer :=
  if lx.last_token = .value_separator then lx.get_token else lx

end Lexer

/-- `push_back` unless the value is discarded. -/
def pushBack (js : List Json) (v : Option Json) : List Json :=
  match v with
  | some j => js ++ [j]
  | none => js

/-- `result[key] = value` unless the value is discarded. -/
def store (members : List (Bytes × Json)) (key : Bytes) (v : Option Json) : List (Bytes × Json) :=
  match v with
  | some j => Map.insert key j members
  | none => members

section Parser

variable (libc : Libc)

mutual

/-- `parse_internal`: the value that begins with the last token, and the lexer behind it. -/
def parse_internal : ℕ → Lexer → Except Stop (Option Json × Lexer)
  | 0, _ => .error .exhausted
  | n + 1, lx =>
    match lx.last_token with
    | .begin_object =>
      let lx := lx.get_token
      if lx.last_token = .end_object then .ok (some (.object []), lx.get_token)
      else do
        lx.unexpect .value_separator
        let (members, lx) ← parse_members n [] lx
        lx.expect .end_object
        return (some (.object members), lx.get_token)
    | .begin_array =>
      let lx := lx.get_token
      if lx.last_token = .end_array then .ok (some (.array []), lx.get_token)
      else do
        lx.unexpect .value_separator
        let (elements, lx) ← parse_elements n [] lx
        lx.expect .end_array
        return (some (.array elements), lx.get_token)
    | .literal_null => .ok (some .null, lx.get_token)
    | .value_string => do
      let s ← lx.string
      return (some (.string s), lx.get_token)
    | .literal_true => .ok (some (.boolean true), lx.get_token)
    | .literal_false => .ok (some (.boolean false), lx.get_token)
    | .value_unsigned | .value_integer | .value_float => .ok (lx.get_number libc, lx.get_token)
    | _ => .error (.thrown (.invalid_argument lx.unexpectedText))

def parse_members : ℕ → List (Bytes × Json) → Lexer →
    Except Stop (List (Bytes × Json) × Lexer)
  | 0, _, _ => .error .exhausted
  | n + 1, members, lx => do
    let lx := lx.skipSeparator
    lx.expect .value_string
    let key ← lx.string
    let lx := lx.get_token
    lx.expect .name_separator
    let (value, lx) ← parse_internal n lx.get_token
    let members := store members key value
    if lx.last_token = .value_separator then parse_members n members lx
    else return (members, lx)

def parse_elements : ℕ → List Json → Lexer → Except Stop (List Json × Lexer)
  | 0, _, _ => .error .exhausted
  | n + 1, elements, lx => do
    let (value, lx) ← parse_internal n lx.skipSeparator
    let elements := pushBack elements value
    if lx.last_token = .value_separator then parse_elements n elements lx
    else return (elements, lx)

end

/-- `parse` of a text, with as many rounds as its length can need. -/
def parse (s : Bytes) : Except Stop Json := do
  let (result, lx) ← parse_internal libc (2 * (buffer s).length + 1) (scan (buffer s))
  lx.expect .end_of_input
  return result.getD .null

end Parser

section Equations

variable {libc : Libc} {n : ℕ} {lx : Lexer}

lemma parse_internal_array (h : lx.last_token = .begin_array) :
    parse_internal libc (n + 1) lx =
      if lx.get_token.last_token = .end_array then
        .ok (some (.array []), lx.get_token.get_token)
      else lx.get_token.unexpect .value_separator >>= fun _ =>
        parse_elements libc n [] lx.get_token >>= fun r =>
          r.2.expect .end_array >>= fun _ => .ok (some (.array r.1), r.2.get_token) := by
  rw [parse_internal, h]
  rfl

lemma parse_internal_object (h : lx.last_token = .begin_object) :
    parse_internal libc (n + 1) lx =
      if lx.get_token.last_token = .end_object then
        .ok (some (.object []), lx.get_token.get_token)
      else lx.get_token.unexpect .value_separator >>= fun _ =>
        parse_members libc n [] lx.get_token >>= fun r =>
          r.2.expect .end_object >>= fun _ => .ok (some (.object r.1), r.2.get_token) := by
  rw [parse_internal, h]
  rfl

lemma parse_internal_string (h : lx.last_token = .value_string) :
    parse_internal libc (n + 1) lx =
      lx.string >>= fun s => .ok (some (.string s), lx.get_token) := by
  rw [parse_internal, h]
  rfl

lemma parse_internal_number (h : lx.last_token.isNumber = true) :
    parse_internal libc (n + 1) lx = .ok (lx.get_number libc, lx.get_token) := by
  rw [parse_internal]
  cases ht : lx.last_token <;> rw [ht] at h <;> first | rfl | cases h

lemma parse_elements_succ (js : List Json) :
    parse_elements libc (n + 1) js lx =
      parse_internal libc n lx.skipSeparator >>= fun r =>
        if r.2.last_token = .value_separator then parse_elements libc n (pushBack js r.1) r.2
        else .ok (pushBack js r.1, r.2) := by
  rw [parse_elements]
  rfl

lemma parse_members_succ (ms : List (Bytes × Json)) :
    parse_members libc (n + 1) ms lx =
      lx.skipSeparator.expect .value_string >>= fun _ =>
        lx.skipSeparator.string >>= fun key =>
          lx.skipSeparator.get_token.expect .name_separator >>= fun _ =>
            parse_internal libc n lx.skipSeparator.get_token.get_token >>= fun r =>
              if r.2.last_token = .value_separator then
                parse_members libc n (store ms key r.1) r.2
              else .ok (store ms key r.1, r.2) := by
  rw [parse_members]
  rfl

lemma expect_self {t : TokenType} (h : lx.last_token = t) : lx.expect t = .ok () :=
  if_neg (not_not.mpr h.symm)

lemma unexpect_of_ne {t : TokenType} (h : lx.last_token ≠ t) : lx.unexpect t = .ok () :=
  if_neg (Ne.symm h)

end Equations

example : (parse testLibc (ascii "[1, \"a\", \x7b\"k\":null, \"b\":[]\x7d]")).toOption.isSome := by
  decide

end Gpd.Jsonparser
