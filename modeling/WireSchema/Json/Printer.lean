import WireSchema.Json.Basic

/-
  Writing JSON documents, on one line or indented.

  Key definitions include:
    * `Json.quoteText`
    * `Json.compact`
    * `Json.pretty`
-/

namespace WireSchema

namespace Json

------------------------------------------------------------
-- Strings and Numbers
------------------------------------------------------------

def hexChar (n : Nat) : Char :=
  if n < 10 then Char.ofNat ('0'.toNat + n)
  else Char.ofNat ('a'.toNat + (n - 10))

/- The escape of a character by its number, four digits. -/
def unicodeEscape (c : Char) : List Char :=
  let n := c.toNat
  ['\\', 'u', hexChar (n / 4096 % 16), hexChar (n / 256 % 16),
    hexChar (n / 16 % 16), hexChar (n % 16)]

def escapeChar (c : Char) : List Char :=
  if c = '"' then ['\\', '"']
  else if c = '\\' then ['\\', '\\']
  else if c = '\x08' then ['\\', 'b']
  else if c = '\x0c' then ['\\', 'f']
  else if c = '\n' then ['\\', 'n']
  else if c = '\r' then ['\\', 'r']
  else if c = '\t' then ['\\', 't']
  else if c.toNat < 0x20 then unicodeEscape c
  else [c]

/- A string in quotes, control characters escaped. -/
def quoteText (s : String) : String :=
  String.ofList
    ('"' :: (s.toList.flatMap escapeChar ++ ['"']))

def numberText : JsonNumber → String
  | .natural n => toString n
  | .negative n => "-" ++ toString n
  | .float x => x.jsonText

------------------------------------------------------------
-- On One Line
------------------------------------------------------------

mutual

/- A document without blanks. -/
def compact : Json → String
  | .null => "null"
  | .bool b => if b then "true" else "false"
  | .number n => numberText n
  | .text s => quoteText s
  | .array items => "[" ++ compactItems items ++ "]"
  | .object members =>
      "\x7b" ++ compactMembers members ++ "\x7d"
  | .unusable => "null"

def compactItems : List Json → String
  | [] => ""
  | [v] => compact v
  | v :: w :: rest =>
      compact v ++ "," ++ compactItems (w :: rest)

def compactMembers : List (String × Json) → String
  | [] => ""
  | [(name, v)] => quoteText name ++ ":" ++ compact v
  | (name, v) :: m :: rest =>
      quoteText name ++ ":" ++ compact v ++ ","
        ++ compactMembers (m :: rest)

end

------------------------------------------------------------
-- Indented
------------------------------------------------------------

def indentText (level : Nat) : String :=
  String.ofList (List.replicate (2 * level) ' ')

mutual

/-
  A document with two blanks of indentation for each level.
  Empty arrays and objects stay on one line.
-/
def prettyAt (level : Nat) : Json → String
  | .null => "null"
  | .bool b => if b then "true" else "false"
  | .number n => numberText n
  | .text s => quoteText s
  | .array [] => "[]"
  | .array (v :: rest) =>
      "[\n" ++ prettyItems (level + 1) (v :: rest)
        ++ "\n" ++ indentText level ++ "]"
  | .object [] => "\x7b\x7d"
  | .object (m :: rest) =>
      "\x7b\n" ++ prettyMembers (level + 1) (m :: rest)
        ++ "\n" ++ indentText level ++ "\x7d"
  | .unusable => "null"

def prettyItems (level : Nat) : List Json → String
  | [] => ""
  | [v] => indentText level ++ prettyAt level v
  | v :: w :: rest =>
      indentText level ++ prettyAt level v ++ ",\n"
        ++ prettyItems level (w :: rest)

def prettyMembers
    (level : Nat) : List (String × Json) → String
  | [] => ""
  | [(name, v)] =>
      indentText level ++ quoteText name ++ ": "
        ++ prettyAt level v
  | (name, v) :: m :: rest =>
      indentText level ++ quoteText name ++ ": "
        ++ prettyAt level v ++ ",\n"
        ++ prettyMembers level (m :: rest)

end

def pretty (v : Json) : String :=
  prettyAt 0 v

end Json

end WireSchema
