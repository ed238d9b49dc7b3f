import WireSchema.Toml.Table
import WireSchema.Toml.Text

/-
  Reading TOML documents of strings, booleans, arrays and
  tables.

  Numbers, dates and arrays of tables have no use in a
  configuration; a document that holds one is refused.

  Key definitions include:
    * `Toml.readKey?`
    * `Toml.readValue?`
    * `Toml.parse?`
-/

namespace WireSchema.Toml

------------------------------------------------------------
-- Keys
------------------------------------------------------------

/- The characters of a key without quotes. -/
def isKeyChar (c : Char) : Bool :=
  c.isAlphanum || c == '-' || c == '_'

/- One part of a dotted key. -/
def readKeyPart? : List Char → Reading
  | '"' :: s => readBasic s
  | '\'' :: s => readLiteral s
  | s =>
      let name := s.takeWhile isKeyChar
      if name.isEmpty then none
      else some (name, s.dropWhile isKeyChar)

/- A key: the parts in front of the last one, and that. -/
structure DottedKey where
  path : List String
  last : String
  deriving DecidableEq, Repr, Inhabited

/-
  A dotted key at the start of a text.  The first argument
  bounds the number of parts.
-/
def readKey? :
    Nat → List Char → Option (DottedKey × List Char)
  | 0, _ => none
  | fuel + 1, s => do
      let (part, rest) ← readKeyPart? s
      let part := String.ofList part
      match skipBlanks rest with
      | '.' :: rest =>
          let (key, rest) ← readKey? fuel (skipBlanks rest)
          some ({ key with path := part :: key.path }, rest)
      | rest => some ({ path := [], last := part }, rest)

------------------------------------------------------------
-- Values
------------------------------------------------------------

/- A boolean at the start of a text. -/
def readBool? (s : List Char) : Option (Bool × List Char) :=
  match Text.afterHead? "true".toList s with
  | some rest => some (true, rest)
  | none =>
      (Text.afterHead? "false".toList s).map fun rest =>
        (false, rest)

mutual

/-
  A value at the start of a text.  The first argument bounds
  the number of steps.
-/
def readValue? :
    Nat → List Char → Option (TomlNode × List Char)
  | 0, _ => none
  | fuel + 1, s =>
      match s with
      | '[' :: rest => do
          let (items, rest) ←
            readItems? fuel (skipFiller false rest)
          some (.array items, rest)
      | '\x7b' :: rest => do
          let (members, rest) ←
            readMembers? fuel [] (skipBlanks rest)
          some (.table .inline members, rest)
      | s =>
          match readBool? s with
          | some (b, rest) => some (.bool b, rest)
          | none =>
              (readText? s).map fun p =>
                (.text (String.ofList p.1), p.2)

/- The items of an array up to its closing bracket. -/
def readItems? :
    Nat → List Char → Option (List TomlNode × List Char)
  | 0, _ => none
  | fuel + 1, s =>
      match s with
      | ']' :: rest => some ([], rest)
      | s => do
          let (item, rest) ← readValue? fuel s
          match skipFiller false rest with
          | ',' :: rest =>
              let (items, rest) ←
                readItems? fuel (skipFiller false rest)
              some (item :: items, rest)
          | ']' :: rest => some ([item], rest)
          | _ => none

/-
  The members of an inline table up to its closing brace,
  added to the members in front of them.
-/
def readMembers? :
    Nat → TomlMembers → List Char →
      Option (TomlMembers × List Char)
  | 0, _, _ => none
  | fuel + 1, members, s =>
      match s with
      | '\x7d' :: rest =>
          if members.isEmpty then some ([], rest) else none
      | s => do
          let (key, rest) ← readKey? s.length s
          match rest with
          | '=' :: rest =>
              let (v, rest) ← readValue? fuel (skipBlanks rest)
              let members ←
                TomlNode.assign [] key.path key.last v members
              match skipBlanks rest with
              | ',' :: rest =>
                  readMembers? fuel members (skipBlanks rest)
              | '\x7d' :: rest => some (members, rest)
              | _ => none
          | _ => none

end

------------------------------------------------------------
-- Documents
------------------------------------------------------------

/- A document under way: the open table and all members. -/
structure Document where
  header : List String := []
  members : TomlMembers := []
  deriving Repr, Inhabited

/- A header in brackets, and what follows on its line. -/
def readHeader? (d : Document) (s : List Char) :
    Option (Document × List Char) := do
  let (key, rest) ← readKey? s.length (skipBlanks s)
  match rest with
  | ']' :: rest =>
      let members ←
        TomlNode.openTable key.path key.last d.members
      some ({ header := key.path ++ [key.last], members }, rest)
  | _ => none

/- A key and its value, and what follows on their line. -/
def readMember? (d : Document) (s : List Char) :
    Option (Document × List Char) := do
  let (key, rest) ← readKey? s.length s
  match rest with
  | '=' :: rest =>
      let (v, rest) ←
        readValue? (2 * rest.length + 2) (skipBlanks rest)
      let members ←
        TomlNode.assign d.header key.path key.last v d.members
      some ({ d with members }, rest)
  | _ => none

/- What one line, or one value of many lines, says. -/
def readLine? (d : Document) (s : List Char) :
    Option (Document × List Char) :=
  match skipBlanks s with
  | [] => some (d, [])
  | '[' :: rest => readHeader? d rest
  | c :: rest =>
      if c = '#' || c = '\n' || c = '\r' then some (d, c :: rest)
      else readMember? d (c :: rest)

/- All lines.  The first argument bounds their number. -/
def readLines? : Nat → Document → List Char → Option Document
  | _, d, [] => some d
  | 0, _, _ => none
  | fuel + 1, d, s => do
      let (d, rest) ← readLine? d s
      let rest ← afterLine? rest
      readLines? fuel d rest

/- Drop the mark of byte order in front of a document. -/
def dropMark : List Char → List Char
  | '\uFEFF' :: s => s
  | s => s

/- The members of the table that a document is. -/
def parse? (text : String) : Option TomlMembers :=
  let s := dropMark text.toList
  (readLines? (s.length + 1) {} s).map Document.members

end WireSchema.Toml
