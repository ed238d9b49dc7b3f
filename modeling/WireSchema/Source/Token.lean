import WireSchema.Schema.Name

/-
  Tokens of source files.

  A token keeps what stands in front of it: the comments, and
  whether a line ended there.  Texts of declarations can be
  put together again from their tokens.

  Key definitions include:
    * `Comment`, `TokenKind`, `Token`
    * `splitSymbol`: part of a symbol as a token of its own
    * `spanText`: the text of a run of tokens
-/

namespace WireSchema.Source

/- A comment with its markers and its lines, from zero. -/
structure Comment where
  text : String
  firstLine : Nat
  lastLine : Nat
  deriving DecidableEq, Repr, Inhabited

/- The kinds of tokens; `stop` is the end of the file. -/
inductive TokenKind where
  | name
  | keyword
  | int
  | float
  | imaginary
  | text
  | rawText
  | rune
  | symbol
  | stop
  deriving DecidableEq, Repr, Inhabited

/-
  A token.  The gap is all text between the token in front
  and this one; lines and columns count from zero, columns
  in bytes.
-/
structure Token where
  kind : TokenKind
  text : String
  gap : String := ""
  comments : List Comment := []
  lineStart : Bool := false
  line : Nat := 0
  column : Nat := 0
  deriving DecidableEq, Repr, Inhabited

abbrev Tokens := List Token

namespace Token

def isSymbol (t : Token) (s : String) : Bool :=
  t.kind == .symbol && t.text == s

def isKeyword (t : Token) (s : String) : Bool :=
  t.kind == .keyword && t.text == s

def isName (t : Token) : Bool :=
  t.kind == .name

/- Texts in quotes of either kind. -/
def isText (t : Token) : Bool :=
  t.kind == .text || t.kind == .rawText

def isStop (t : Token) : Bool :=
  t.kind == .stop

/- Marks that end what stands in front of them, as a line
   end does. -/
def isEndMark (t : Token) : Bool :=
  t.isSymbol ";" || t.isSymbol "\x00"

/- Where a token stands in a file. -/
def place (file : String) (t : Token) : SourcePlace :=
  { file, line := t.line + 1, column := t.column + 1 }

end Token

/- What is left of a symbol behind its first character. -/
def Token.tail (t : Token) : Token :=
  { t with
    text := String.ofList (t.text.toList.drop 1)
    gap := ""
    comments := []
    lineStart := false
    column := t.column + 1 }

/- Tokens with the first character of a symbol on its own. -/
def splitSymbol : Tokens → Tokens
  | [] => []
  | t :: rest =>
      { t with text := String.ofList (t.text.toList.take 1) }
        :: t.tail :: rest

------------------------------------------------------------
-- Texts
------------------------------------------------------------

/- The tokens that were read when others are left. -/
def consumed (tokens rest : Tokens) : Tokens :=
  tokens.take (tokens.length - rest.length)

/- The text from the first token to the end of the last. -/
def spanText : Tokens → String
  | [] => ""
  | t :: rest =>
      t.text ++ String.join (rest.map fun u => u.gap ++ u.text)

/- The text of the tokens that were read. -/
def consumedText (tokens rest : Tokens) : String :=
  spanText (consumed tokens rest)

end WireSchema.Source
