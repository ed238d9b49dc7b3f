import WireSchema.Number.Word
import WireSchema.Text.Blank

/-
  Values of literals in sources.

  Key definitions include:
    * `intOf?`: integer literals
    * `unquote`: texts in double quotes
    * `rawContent`: texts in backquotes
    * `runeOf?`: single characters
-/

namespace WireSchema.Source

------------------------------------------------------------
-- Integers
------------------------------------------------------------

def digitValue? (radix : Nat) (c : Char) : Option Nat :=
  let value? :=
    if c.isDigit then some (c.toNat - '0'.toNat)
    else if 'a' ≤ c && c ≤ 'z' then
      some (c.toNat - 'a'.toNat + 10)
    else if 'A' ≤ c && c ≤ 'Z' then
      some (c.toNat - 'A'.toNat + 10)
    else none
  value?.filter fun d => d < radix

/- The number that digits spell behind a number. -/
def digitsFrom? (radix : Nat) : Nat → List Char → Option Nat
  | n, [] => some n
  | n, c :: s => do
      let d ← digitValue? radix c
      digitsFrom? radix (n * radix + d) s

/- The number that digits spell; there has to be one. -/
def naturalOf? (radix : Nat) (digits : List Char) :
    Option Nat :=
  if digits.isEmpty then none else digitsFrom? radix 0 digits

/- Digits with or without a sign, within 64 bits. -/
def signedOf? (radix : Nat) : List Char → Option Int
  | '+' :: s => do within64? (← naturalOf? radix s)
  | '-' :: s => do within64? (-(← naturalOf? radix s))
  | s => do within64? (← naturalOf? radix s)

/-
  The value of an integer literal: the start tells the base,
  and underscores do not count.
-/
def intOf? (text : String) : Option Int :=
  match text.toList.filter fun c => c != '_' with
  | '0' :: 'x' :: s => signedOf? 16 s
  | '0' :: 'X' :: s => signedOf? 16 s
  | '0' :: 'b' :: s => signedOf? 2 s
  | '0' :: 'B' :: s => signedOf? 2 s
  | '0' :: 'o' :: s => signedOf? 8 s
  | '0' :: 'O' :: s => signedOf? 8 s
  | '0' :: c :: s => signedOf? 8 (c :: s)
  | s => signedOf? 10 s

/- The length of an array, if its text is a literal. -/
def lengthOf? (text : String) : Option Nat :=
  (intOf? text).bind fun n =>
    if 0 ≤ n then some n.toNat else none

------------------------------------------------------------
-- Texts
------------------------------------------------------------

/- The character that stands for an escaped one. -/
def escaped : Char → Char
  | 'n' => '\n'
  | 't' => '\t'
  | 'r' => '\r'
  | '0' => '\x00'
  | c => c

/- Put what escapes stand for in their place. -/
def decodeEscapes : List Char → List Char
  | [] => []
  | ['\\'] => []
  | '\\' :: c :: s => escaped c :: decodeEscapes s
  | c :: s => c :: decodeEscapes s

/- Drop one quote at each end where there is one. -/
def dropQuotes (s : List Char) : List Char :=
  let s :=
    match s with
    | '"' :: rest => rest
    | s => s
  match s.reverse with
  | '"' :: rest => rest.reverse
  | _ => s

def unquoteChars (s : List Char) : List Char :=
  decodeEscapes (dropQuotes s)

/- The content of a text in double quotes. -/
def unquote (text : String) : String :=
  String.ofList (unquoteChars text.toList)

/- The content of a text in backquotes. -/
def rawContent (text : String) : String :=
  String.ofList
    (Text.dropEdgesWhile (fun c => c == '`') text.toList)

/- The number of the character that a literal holds. -/
def runeOf? (text : String) : Option Int :=
  let inner :=
    Text.dropEdgesWhile (fun c => c == '\'') text.toList
  match unquoteChars inner with
  | [c] => some c.toNat
  | _ => none

end WireSchema.Source
