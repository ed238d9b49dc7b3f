import WireSchema.Text.Unprintable

/-
  Strings in quotes: as literals of the emitted language, and
  as diagnostics show them.

  Both have short escapes for quotes, backslashes and common
  control characters.  A diagnostic shows the number of a
  character that has no shape of its own.

  Key definitions include:
    * `quote`, `escapeForQuote`
    * `shown`, `escapeForDiagnostic`
-/

namespace WireSchema.Text

------------------------------------------------------------
-- Literals
------------------------------------------------------------

def hexCharacter (n : Nat) : Char :=
  if n < 10 then Char.ofNat ('0'.toNat + n)
  else Char.ofNat ('a'.toNat + (n - 10))

/-
  How a character stands inside a string literal: quotes,
  backslashes, line ends and tabs have short escapes, other
  control characters an escape of four digits.
-/
def escapeForQuote (c : Char) : List Char :=
  if c = '"' then ['\\', '"']
  else if c = '\\' then ['\\', '\\']
  else if c = '\n' then ['\\', 'n']
  else if c = '\r' then ['\\', 'r']
  else if c = '\t' then ['\\', 't']
  else if c.toNat < 0x20 then
    ['\\', 'u', '0', '0', hexCharacter (c.toNat / 16),
      hexCharacter (c.toNat % 16)]
  else [c]

/- A string as a literal in double quotes. -/
def quote (s : String) : String :=
  String.ofList
    ('"' :: (s.toList.flatMap escapeForQuote ++ ['"']))

------------------------------------------------------------
-- Diagnostics
------------------------------------------------------------

/- The hexadecimal digits of a number. -/
def hexDigits (n : Nat) : String :=
  String.ofList (Nat.toDigits 16 n)

def escapeForDiagnostic (c : Char) : String :=
  if c = '"' then "\\\""
  else if c = '\\' then "\\\\"
  else if c = '\n' then "\\n"
  else if c = '\r' then "\\r"
  else if c = '\t' then "\\t"
  else if c.toNat = 0 then "\\0"
  else if isEscapedNumber c.toNat then
    "\\u\x7b" ++ hexDigits c.toNat ++ "\x7d"
  else String.ofList [c]

/- A string as diagnostics show it. -/
def shown (s : String) : String :=
  "\"" ++ String.join (s.toList.map escapeForDiagnostic) ++ "\""

end WireSchema.Text
