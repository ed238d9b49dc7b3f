import WireSchema.Json.Numeral

/-
  Reading JSON documents.

  Documents follow the standard grammar without extensions:
  no comments, no trailing commas, nothing after the value.
  A value that is well formed but stands for nothing is
  unusable; so are arrays and objects more than 127 deep.

  Key definitions include:
    * `Json.readString?`
    * `Json.readValue?`
    * `Json.parse?`
-/

namespace WireSchema

namespace Json

------------------------------------------------------------
-- Strings
------------------------------------------------------------

def hexDigit? (c : Char) : Option Nat :=
  if c.isDigit then some (c.toNat - '0'.toNat)
  else if 'a' ≤ c ∧ c ≤ 'f' then
    some (c.toNat - 'a'.toNat + 10)
  else if 'A' ≤ c ∧ c ≤ 'F' then
    some (c.toNat - 'A'.toNat + 10)
  else none

/- The number that four hexadecimal digits denote. -/
def hexWord? (a b c d : Char) : Option Nat := do
  let a ← hexDigit? a
  let b ← hexDigit? b
  let c ← hexDigit? c
  let d ← hexDigit? d
  some (((a * 16 + b) * 16 + c) * 16 + d)

/- The character that follows a backslash in a short escape. -/
def shortEscape? : Char → Option Char
  | '"' => some '"'
  | '\\' => some '\\'
  | '/' => some '/'
  | 'b' => some '\x08'
  | 'f' => some '\x0c'
  | 'n' => some '\n'
  | 'r' => some '\r'
  | 't' => some '\t'
  | _ => none

/- The character that a pair of surrogates stands for. -/
def joinSurrogates (high low : Nat) : Char :=
  Char.ofNat (0x10000 + (high - 0xD800) * 0x400
    + (low - 0xDC00))

def isHighSurrogate (n : Nat) : Bool :=
  0xD800 ≤ n && n ≤ 0xDBFF

def isLowSurrogate (n : Nat) : Bool :=
  0xDC00 ≤ n && n ≤ 0xDFFF

/- The characters of a string, if they are all characters,
   and what follows its closing quote. -/
abbrev ReadString := Option (List Char) × List Char

/- A character in front of the others. -/
def ReadString.cons (c : Char) (p : ReadString) : ReadString :=
  (p.1.map fun s => c :: s, p.2)

/- Half of a surrogate pair in front of the others. -/
def ReadString.spoil (p : ReadString) : ReadString :=
  (none, p.2)

/-
  The characters of a string up to its closing quote, and the
  rest of the text.  Control characters have to be escaped,
  and surrogates only stand for characters in pairs.
-/
def readString? : List Char → Option ReadString
  | [] => none
  | '"' :: rest => some (some [], rest)
  | '\\' :: 'u' :: a :: b :: c :: d :: rest =>
      match hexWord? a b c d with
      | none => none
      | some n =>
          if isHighSurrogate n then
            match rest with
            | '\\' :: 'u' :: e :: f :: g :: h :: more =>
                let low := hexWord? e f g h
                match low.filter isLowSurrogate with
                | some m =>
                    (readString? more).map
                      (ReadString.cons (joinSurrogates n m))
                | none =>
                    (readString?
                        ('\\' :: 'u' :: e :: f :: g :: h
                          :: more)).map
                      ReadString.spoil
            | rest => (readString? rest).map ReadString.spoil
          else if isLowSurrogate n then
            (readString? rest).map ReadString.spoil
          else
            (readString? rest).map
              (ReadString.cons (Char.ofNat n))
  | '\\' :: c :: rest =>
      match shortEscape? c with
      | none => none
      | some e => (readString? rest).map (ReadString.cons e)
  | c :: rest =>
      if c.toNat < 0x20 ∨ c = '\\' then none
      else (readString? rest).map (ReadString.cons c)

------------------------------------------------------------
-- Values
------------------------------------------------------------

/- The blanks between the tokens of a document. -/
def isSpace (c : Char) : Bool :=
  c == ' ' || c == '\n' || c == '\t' || c == '\r'

def skipSpace (s : List Char) : List Char :=
  s.dropWhile isSpace

/- How deep arrays and objects may nest. -/
def maxDepth : Nat := 127

/- What stands between brackets, unless it is too deep. -/
def nested (depth : Nat) (v : Json) : Json :=
  match depth with
  | 0 => .unusable
  | _ => v

/-
  An object; a name that stands for nothing makes it
  unusable.
-/
def objectOf (members : List (Option String × Json)) : Json :=
  let member := fun (m : Option String × Json) =>
    m.1.map fun name => (name, m.2)
  match members.mapM member with
  | some members => .object members
  | none => .unusable

mutual

/-
  Read a value.  The first argument bounds the number of
  steps, the second one how many levels may still open.
-/
def readValue? :
    Nat → Nat → List Char → Option (Json × List Char)
  | 0, _, _ => none
  | fuel + 1, depth, s =>
      match skipSpace s with
      | [] => none
      | '"' :: rest =>
          (readString? rest).map fun p =>
            ((p.1.map fun s => Json.text (String.ofList s)).getD
                .unusable,
              p.2)
      | '[' :: rest =>
          match skipSpace rest with
          | ']' :: rest => some (nested depth (.array []), rest)
          | rest =>
              (readItems? fuel (depth - 1) rest).map fun p =>
                (nested depth (.array p.1), p.2)
      | '{' :: rest =>
          match skipSpace rest with
          | '}' :: rest => some (nested depth (.object []), rest)
          | rest =>
              (readMembers? fuel (depth - 1) rest).map fun p =>
                (nested depth (objectOf p.1), p.2)
      | 'n' :: 'u' :: 'l' :: 'l' :: rest => some (.null, rest)
      | 't' :: 'r' :: 'u' :: 'e' :: rest =>
          some (.bool true, rest)
      | 'f' :: 'a' :: 'l' :: 's' :: 'e' :: rest =>
          some (.bool false, rest)
      | c :: rest =>
          (readNumeral? (c :: rest)).map fun p =>
            ((p.1.map Json.number).getD .unusable, p.2)

/- The items of an array up to its closing bracket. -/
def readItems? :
    Nat → Nat → List Char → Option (List Json × List Char)
  | 0, _, _ => none
  | fuel + 1, depth, s =>
      match readValue? fuel depth s with
      | none => none
      | some (v, rest) =>
          match skipSpace rest with
          | ']' :: rest => some ([v], rest)
          | ',' :: rest =>
              (readItems? fuel depth rest).map fun p =>
                (v :: p.1, p.2)
          | _ => none

/- The members of an object up to its closing brace. -/
def readMembers? :
    Nat → Nat → List Char →
      Option (List (Option String × Json) × List Char)
  | 0, _, _ => none
  | fuel + 1, depth, s =>
      match skipSpace s with
      | '"' :: rest =>
          match readString? rest with
          | none => none
          | some (name, rest) =>
              match skipSpace rest with
              | ':' :: rest =>
                  match readValue? fuel depth rest with
                  | none => none
                  | some (v, rest) =>
                      let m := (name.map String.ofList, v)
                      match skipSpace rest with
                      | '}' :: rest => some ([m], rest)
                      | ',' :: rest =>
                          (readMembers? fuel depth rest).map
                            fun p => (m :: p.1, p.2)
                      | _ => none
              | _ => none
      | _ => none

end

/-
  Read a document.  Every step consumes a character or ends
  the reading, so twice the length of the text is enough.
-/
def parse? (s : String) : Option Json :=
  let chars := s.toList
  match readValue? (2 * chars.length + 2) maxDepth chars with
  | none => none
  | some (v, rest) =>
      if (skipSpace rest).isEmpty then some v else none

end Json

end WireSchema
