import WireSchema.Text.Split

/-
  Strings and blanks of TOML documents.

  Key definitions include:
    * `Toml.afterLine?`: what may follow on a line
    * `Toml.skipFiller`
    * `Toml.readText?`
-/

namespace WireSchema.Toml

/- Text that has been read, and what is left. -/
abbrev Reading := Option (List Char × List Char)

/- Put a character in front of the text of a reading. -/
def Reading.push (c : Char) (r : Reading) : Reading :=
  r.map fun p => (c :: p.1, p.2)

------------------------------------------------------------
-- Blanks and Comments
------------------------------------------------------------

/- The blanks within a line. -/
def isBlank (c : Char) : Bool :=
  c == ' ' || c == '\t'

/- The characters that comments and strings may hold. -/
def isPlain (c : Char) : Bool :=
  c == '\t' || (0x20 ≤ c.toNat && c.toNat != 0x7F)

def skipBlanks (s : List Char) : List Char :=
  s.dropWhile isBlank

/- What follows the end of a line. -/
def afterNewline? : List Char → Option (List Char)
  | '\n' :: s => some s
  | '\r' :: '\n' :: s => some s
  | _ => none

/- Skip blanks and a comment. -/
def skipToLineEnd (s : List Char) : List Char :=
  match skipBlanks s with
  | '#' :: rest => rest.dropWhile isPlain
  | s => s

/- What follows a line of which the rest says nothing. -/
def afterLine? (s : List Char) : Option (List Char) :=
  match skipToLineEnd s with
  | [] => some []
  | s => afterNewline? s

/-
  Skip blanks, line ends and comments, inside an array.  The
  first argument says whether a comment is under way.
-/
def skipFiller : Bool → List Char → List Char
  | _, [] => []
  | _, '\n' :: s => skipFiller false s
  | _, '\r' :: s =>
      match s with
      | '\n' :: rest => skipFiller false rest
      | _ => '\r' :: s
  | true, c :: s =>
      if isPlain c then skipFiller true s else c :: s
  | false, c :: s =>
      if isBlank c then skipFiller false s
      else if c = '#' then skipFiller true s
      else c :: s

------------------------------------------------------------
-- Escapes
------------------------------------------------------------

def hexValue? (c : Char) : Option Nat :=
  if c.isDigit then some (c.toNat - '0'.toNat)
  else if 'a' ≤ c && c ≤ 'f' then
    some (c.toNat - 'a'.toNat + 10)
  else if 'A' ≤ c && c ≤ 'F' then
    some (c.toNat - 'A'.toNat + 10)
  else none

/- The number that digits of base 16 spell. -/
def hexNumber? (digits : List Char) : Option Nat :=
  digits.foldl
    (fun n? c => do
      let n ← n?
      let d ← hexValue? c
      some (n * 16 + d))
    (some 0)

/- The character of a number that is one. -/
def charOf? (n : Nat) : Option Char :=
  if h : n.isValidChar then some (Char.ofNatAux n h) else none

def codePoint? (digits : List Char) : Option Char :=
  (hexNumber? digits).bind charOf?

/- The character that an escape of one letter stands for. -/
def simpleEscape? : Char → Option Char
  | 'b' => some '\x08'
  | 't' => some '\t'
  | 'n' => some '\n'
  | 'f' => some '\x0c'
  | 'r' => some '\r'
  | '"' => some '"'
  | '\\' => some '\\'
  | _ => none

------------------------------------------------------------
-- Strings of One Line
------------------------------------------------------------

/- The rest of a string in double quotes. -/
def readBasic : List Char → Reading
  | [] => none
  | '"' :: s => some ([], s)
  | '\\' :: 'u' :: a :: b :: c :: d :: s => do
      let x ← codePoint? [a, b, c, d]
      (readBasic s).push x
  | '\\' :: 'U' :: a :: b :: c :: d :: e :: f :: g :: h :: s => do
      let x ← codePoint? [a, b, c, d, e, f, g, h]
      (readBasic s).push x
  | '\\' :: c :: s => do
      let x ← simpleEscape? c
      (readBasic s).push x
  | c :: s =>
      if isPlain c && c != '\\' then (readBasic s).push c
      else none

/- The rest of a string in single quotes. -/
def readLiteral : List Char → Reading
  | [] => none
  | '\'' :: s => some ([], s)
  | c :: s => if isPlain c then (readLiteral s).push c else none

------------------------------------------------------------
-- Strings of Many Lines
------------------------------------------------------------

/-
  Where the reader of a string of many lines stands: in the
  text, behind a backslash that ends a line, or before the
  next text behind such a line.
-/
inductive LineState where
  | text
  | lineEnd
  | lineStart
  deriving DecidableEq, Repr

/-
  The rest of a string in three double quotes.  One or two
  quotes may stand right before the closing ones.
-/
def readLongBasic : LineState → List Char → Reading
  | _, [] => none
  | .lineEnd, '\n' :: s => readLongBasic .lineStart s
  | .lineEnd, '\r' :: '\n' :: s => readLongBasic .lineStart s
  | .lineEnd, c :: s =>
      if isBlank c then readLongBasic .lineEnd s else none
  | .lineStart, ' ' :: s => readLongBasic .lineStart s
  | .lineStart, '\t' :: s => readLongBasic .lineStart s
  | .lineStart, '\n' :: s => readLongBasic .lineStart s
  | .lineStart, '\r' :: '\n' :: s => readLongBasic .lineStart s
  | _, '"' :: '"' :: '"' :: '"' :: '"' :: s =>
      some (['"', '"'], s)
  | _, '"' :: '"' :: '"' :: '"' :: s => some (['"'], s)
  | _, '"' :: '"' :: '"' :: s => some ([], s)
  | _, '\n' :: s => (readLongBasic .text s).push '\n'
  | _, '\r' :: '\n' :: s => (readLongBasic .text s).push '\n'
  | _, '\\' :: '\n' :: s => readLongBasic .lineStart s
  | _, '\\' :: '\r' :: '\n' :: s => readLongBasic .lineStart s
  | _, '\\' :: ' ' :: s => readLongBasic .lineEnd s
  | _, '\\' :: '\t' :: s => readLongBasic .lineEnd s
  | _, '\\' :: 'u' :: a :: b :: c :: d :: s => do
      let x ← codePoint? [a, b, c, d]
      (readLongBasic .text s).push x
  | _, '\\' :: 'U' :: a :: b :: c :: d :: e :: f :: g :: h :: s =>
      do
        let x ← codePoint? [a, b, c, d, e, f, g, h]
        (readLongBasic .text s).push x
  | _, '\\' :: c :: s => do
      let x ← simpleEscape? c
      (readLongBasic .text s).push x
  | _, c :: s =>
      if isPlain c && c != '\\' then
        (readLongBasic .text s).push c
      else none

/- The rest of a string in three single quotes. -/
def readLongLiteral : List Char → Reading
  | [] => none
  | '\'' :: '\'' :: '\'' :: '\'' :: '\'' :: s =>
      some (['\'', '\''], s)
  | '\'' :: '\'' :: '\'' :: '\'' :: s => some (['\''], s)
  | '\'' :: '\'' :: '\'' :: s => some ([], s)
  | '\n' :: s => (readLongLiteral s).push '\n'
  | '\r' :: '\n' :: s => (readLongLiteral s).push '\n'
  | c :: s =>
      if isPlain c then (readLongLiteral s).push c else none

/- A line end right behind the opening quotes is dropped. -/
def dropFirstNewline (s : List Char) : List Char :=
  (afterNewline? s).getD s

------------------------------------------------------------
-- Any String
------------------------------------------------------------

/- A string at the start of a text. -/
def readText? : List Char → Reading
  | '"' :: '"' :: '"' :: s =>
      readLongBasic .text (dropFirstNewline s)
  | '"' :: s => readBasic s
  | '\'' :: '\'' :: '\'' :: s =>
      readLongLiteral (dropFirstNewline s)
  | '\'' :: s => readLiteral s
  | _ => none

end WireSchema.Toml
