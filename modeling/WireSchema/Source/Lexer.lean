import WireSchema.Source.Token
import WireSchema.Text.Letter

/-
  Cutting source files into tokens.

  The character with the number zero ends what stands in
  front of it, like a semicolon.  It is nowhere part of a
  longer token, and it ends a comment to the end of the line.

  Key definitions include:
    * `Spot`: a place in a file
    * `scanGap`: blanks and comments
    * `scanToken?`
    * `tokenize?`
-/

namespace WireSchema.Source

------------------------------------------------------------
-- Places
------------------------------------------------------------

/- A line and a column from zero, columns in bytes. -/
structure Spot where
  line : Nat := 0
  column : Nat := 0
  deriving DecidableEq, Repr, Inhabited

/- The place behind a character. -/
def Spot.step (p : Spot) (c : Char) : Spot :=
  if c = '\n' then { line := p.line + 1, column := 0 }
  else { p with column := p.column + c.utf8Size }

/- The place behind a text. -/
def Spot.advance (p : Spot) (s : List Char) : Spot :=
  s.foldl Spot.step p

------------------------------------------------------------
-- Gaps
------------------------------------------------------------

/- The blanks between tokens. -/
def isGapBlank (c : Char) : Bool :=
  c == ' ' || ('\t' ≤ c && c ≤ '\r')

/- The characters that tokens are made of. -/
def isContent (c : Char) : Bool :=
  c != '\x00'

/- A block comment up to its end, and what follows. -/
def splitBlock : List Char → Option (List Char × List Char)
  | [] => none
  | '*' :: '/' :: s => some (['*', '/'], s)
  | c :: s =>
      if isContent c then
        (splitBlock s).map fun p => (c :: p.1, p.2)
      else none

/- A comment at the start of a text, and what follows. -/
def splitComment? :
    List Char → Option (List Char × List Char)
  | '/' :: '/' :: s =>
      let goesOn := fun (c : Char) => c != '\n' && isContent c
      some ('/' :: '/' :: s.takeWhile goesOn, s.dropWhile goesOn)
  | '/' :: '*' :: s =>
      (splitBlock s).map fun p => ('/' :: '*' :: p.1, p.2)
  | _ => none

/- What stands in front of a token. -/
structure Gap where
  text : List Char := []
  comments : List Comment := []
  hasNewline : Bool := false
  deriving DecidableEq, Repr, Inhabited

/- A blank in front of a gap. -/
def Gap.addBlank (c : Char) (g : Gap) : Gap :=
  { g with
    text := c :: g.text
    hasNewline := c == '\n' || g.hasNewline }

/- A comment in front of a gap. -/
def Gap.addComment
    (p : Spot)
    (text : List Char)
    (g : Gap) : Gap :=
  let comment : Comment :=
    { text := String.ofList text
      firstLine := p.line
      lastLine := (p.advance text).line }
  { g with
    text := text ++ g.text
    comments := comment :: g.comments }

/-
  The gap at the start of a text and what follows it.  The
  first argument bounds the number of steps.
-/
def scanGap : Nat → Spot → List Char → Gap × List Char
  | 0, _, s => ({}, s)
  | _, _, [] => ({}, [])
  | fuel + 1, p, c :: s =>
      if isGapBlank c then
        let (g, rest) := scanGap fuel (p.step c) s
        (g.addBlank c, rest)
      else
        match splitComment? (c :: s) with
        | some (text, rest) =>
            let (g, rest) :=
              scanGap fuel (p.advance text) rest
            (g.addComment p text, rest)
        | none => ({}, c :: s)

------------------------------------------------------------
-- Numbers
------------------------------------------------------------

/- A piece of a token, and what follows it. -/
abbrev Piece := List Char × List Char

/-
  Digits of a class with single underscores between them.
  The first argument says whether an underscore may follow.
-/
def digitRun (p : Char → Bool) : Bool → List Char → Piece
  | _, [] => ([], [])
  | canSplit, c :: s =>
      if p c then
        let (run, rest) := digitRun p true s
        (c :: run, rest)
      else if canSplit && c == '_' then
        match s with
        | [] => ([], c :: s)
        | d :: _ =>
            if p d then
              let (run, rest) := digitRun p false s
              ('_' :: run, rest)
            else ([], c :: s)
      else ([], c :: s)

def isHex (c : Char) : Bool :=
  c.isDigit || ('a' ≤ c && c ≤ 'f') || ('A' ≤ c && c ≤ 'F')

def isOctal (c : Char) : Bool :=
  '0' ≤ c && c ≤ '7'

def isBinary (c : Char) : Bool :=
  c == '0' || c == '1'

/- An exponent behind one of two letters, if there is one. -/
def exponentPart (small large : Char) (s : List Char) : Piece :=
  match s with
  | e :: rest =>
      if e == small || e == large then
        let (sign, rest') :=
          match rest with
          | '+' :: r => (['+'], r)
          | '-' :: r => (['-'], r)
          | r => ([], r)
        let (run, rest'') := digitRun Char.isDigit false rest'
        if run.isEmpty then ([], s)
        else (e :: (sign ++ run), rest'')
      else ([], s)
  | [] => ([], [])

/- A number as it was scanned. -/
structure ScannedNumber where
  kind : TokenKind
  text : List Char
  rest : List Char
  deriving DecidableEq, Repr, Inhabited

/- A number behind which a letter may make it imaginary. -/
def ScannedNumber.finish (n : ScannedNumber) : ScannedNumber :=
  match n.rest with
  | 'i' :: rest =>
      { kind := .imaginary, text := n.text ++ ['i'], rest }
  | _ => n

/- Digits behind the prefix of a base. -/
def scanBased?
    (head : List Char)
    (p : Char → Bool)
    (s : List Char) : Option ScannedNumber :=
  let (run, rest) := digitRun p true s
  if run.isEmpty then none
  else some { kind := .int, text := head ++ run, rest }

/-
  A hexadecimal number behind its prefix.  With an exponent
  it is a floating-point number, which may have a point.
-/
def scanHex? (head : List Char) (s : List Char) :
    Option ScannedNumber :=
  let (whole, rest) := digitRun isHex true s
  let (fraction, rest') :=
    match rest with
    | '.' :: r =>
        let (run, r) := digitRun isHex false r
        ('.' :: run, r)
    | r => ([], r)
  let (exponent, rest'') := exponentPart 'p' 'P' rest'
  if !exponent.isEmpty && (1 < (whole ++ fraction).length
      || !whole.isEmpty) then
    some
      { kind := .float
        text := head ++ whole ++ fraction ++ exponent
        rest := rest'' }
  else if whole.isEmpty then none
  else some { kind := .int, text := head ++ whole, rest }

/- Whether digits are an integer literal. -/
def isWholeLiteral : List Char → Bool
  | '0' :: c :: s =>
      (c :: s).all fun d => isOctal d || d == '_'
  | _ => true

/- A decimal number. -/
def scanDecimal? (s : List Char) : Option ScannedNumber :=
  let (whole, rest) := digitRun Char.isDigit false s
  let (fraction, rest') :=
    match rest with
    | '.' :: r =>
        let (run, r) := digitRun Char.isDigit false r
        ('.' :: run, r)
    | r => ([], r)
  let (exponent, rest'') := exponentPart 'e' 'E' rest'
  if whole.isEmpty && fraction.length < 2 then none
  else if fraction.isEmpty && exponent.isEmpty then
    let n : ScannedNumber := { kind := .int, text := whole, rest }
    if isWholeLiteral whole || n.finish.kind == .imaginary then
      some n
    else none
  else
    some
      { kind := .float
        text := whole ++ fraction ++ exponent
        rest := rest'' }

/- A number at the start of a text. -/
def scanNumber? (s : List Char) : Option ScannedNumber :=
  let based :=
    match s with
    | '0' :: 'x' :: r => scanHex? ['0', 'x'] r
    | '0' :: 'X' :: r => scanHex? ['0', 'X'] r
    | '0' :: 'b' :: r => scanBased? ['0', 'b'] isBinary r
    | '0' :: 'B' :: r => scanBased? ['0', 'B'] isBinary r
    | '0' :: 'o' :: r => scanBased? ['0', 'o'] isOctal r
    | '0' :: 'O' :: r => scanBased? ['0', 'O'] isOctal r
    | _ => none
  let number? :=
    match based with
    | some n => some n
    | none => scanDecimal? s
  number?.map ScannedNumber.finish

------------------------------------------------------------
-- Quoted Texts
------------------------------------------------------------

/- Characters of a class at the start of a text. -/
def takeExactly?
    (p : Char → Bool) : Nat → List Char → Option Piece
  | 0, s => some ([], s)
  | _ + 1, [] => none
  | n + 1, c :: s =>
      if p c then
        (takeExactly? p n s).map fun q => (c :: q.1, q.2)
      else none

/- How many digits the escapes of some letters need. -/
def escapeDigits? : Char → Option Nat
  | 'x' => some 2
  | 'u' => some 4
  | 'U' => some 8
  | _ => none

/- An escape behind its backslash in a text. -/
def scanTextEscape? : List Char → Option Piece
  | [] => none
  | c :: s =>
      match escapeDigits? c with
      | some n =>
          (takeExactly? isHex n s).map fun q => (c :: q.1, q.2)
      | none => if isContent c then some ([c], s) else none

/- The rest of a text in double quotes. -/
def scanText? : Nat → List Char → Option Piece
  | 0, _ => none
  | _, [] => none
  | fuel + 1, c :: s =>
      if c = '"' then some (['"'], s)
      else if c = '\n' || !isContent c then none
      else if c = '\\' then do
        let (escape, rest) ← scanTextEscape? s
        let (more, rest) ← scanText? fuel rest
        some (c :: (escape ++ more), rest)
      else do
        let (more, rest) ← scanText? fuel s
        some (c :: more, rest)

/- The rest of a text in backquotes. -/
def scanRaw? : List Char → Option Piece
  | [] => none
  | c :: s =>
      if c = '`' then some (['`'], s)
      else if isContent c then
        (scanRaw? s).map fun q => (c :: q.1, q.2)
      else none

/- An escape behind its backslash in a character literal. -/
def scanRuneEscape? : List Char → Option Piece
  | [] => none
  | c :: s =>
      match escapeDigits? c with
      | some n =>
          (takeExactly? isHex n s).map fun q => (c :: q.1, q.2)
      | none =>
          if isOctal c then takeExactly? isOctal 3 (c :: s)
          else if "abfnrtv\\'\"".toList.contains c then
            some ([c], s)
          else none

/- The rest of a character literal. -/
def scanRune? : List Char → Option Piece
  | [] => none
  | c :: s => do
      let (body, rest) ←
        if c = '\\' then
          (scanRuneEscape? s).map fun q => ('\\' :: q.1, q.2)
        else if c = '\'' || !isContent c then none
        else some ([c], s)
      match rest with
      | '\'' :: rest => some (body ++ ['\''], rest)
      | _ => none

------------------------------------------------------------
-- Tokens
------------------------------------------------------------

def keywords : List String :=
  ["break", "case", "chan", "const", "continue", "default",
    "defer", "else", "fallthrough", "for", "func", "go",
    "goto", "if", "import", "interface", "map", "package",
    "range", "return", "select", "struct", "switch", "type",
    "var"]

/- The symbols, longer ones before their beginnings. -/
def symbols : List String :=
  ["<<=", ">>=", "&^=", "...", "&&", "||", "<-", "++", "--",
    "==", "!=", "<=", ">=", ":=", "+=", "-=", "*=", "/=",
    "%=", "&=", "|=", "^=", "<<", ">>", "&^", "+", "-", "*",
    "/", "%", "&", "|", "^", "<", ">", "=", "!", "(", ")",
    "[", "]", "\x7b", "\x7d", ",", ";", ".", ":", "~",
    "\x00"]

/- A symbol at the start of a text. -/
def scanSymbol? (s : List Char) : Option (String × List Char) :=
  symbols.findSome? fun symbol =>
    (Text.afterHead? symbol.toList s).map fun rest =>
      (symbol, rest)

/-
  The kind and the text of a token, and what follows.  The
  first argument bounds the length of a text in quotes.
-/
def scanToken? (fuel : Nat) (s : List Char) :
    Option (TokenKind × String × List Char) :=
  let quoted := fun (kind : TokenKind) (mark : Char) (q : Piece) =>
    (kind, String.ofList (mark :: q.1), q.2)
  match s with
  | [] => some (.stop, "", [])
  | c :: rest =>
      if Text.startsIdentifier c then
        let name :=
          String.ofList (s.takeWhile Text.continuesIdentifier)
        let kind :=
          if keywords.contains name then TokenKind.keyword
          else .name
        some (kind, name, s.dropWhile Text.continuesIdentifier)
      else if c = '"' then
        (scanText? fuel rest).map (quoted .text '"')
      else if c = '`' then
        (scanRaw? rest).map (quoted .rawText '`')
      else if c = '\'' then
        (scanRune? rest).map (quoted .rune '\'')
      else
        match scanNumber? s with
        | some n => some (n.kind, String.ofList n.text, n.rest)
        | none =>
            (scanSymbol? s).map fun p => (.symbol, p.1, p.2)

/-
  The tokens of a text from a place on.  The first argument
  is greater than the length of the text: every token but the
  last takes a character.
-/
def tokensFrom : Nat → Spot → List Char → Option Tokens
  | 0, _, _ => none
  | fuel + 1, p, s => do
      let (g, s) := scanGap fuel p s
      let p := p.advance g.text
      let (kind, text, rest) ← scanToken? fuel s
      let token : Token :=
        { kind, text
          gap := String.ofList g.text
          comments := g.comments
          lineStart := g.hasNewline
          line := p.line
          column := p.column }
      if kind = .stop then some [token]
      else do
        let more ←
          tokensFrom fuel (p.advance text.toList) rest
        some (token :: more)

/- Drop the mark of byte order in front of a file. -/
def dropMark (s : List Char) : Spot × List Char :=
  match s with
  | '\uFEFF' :: rest => (Spot.step {} '\uFEFF', rest)
  | s => ({}, s)

/- The tokens of a file, if it is made of tokens. -/
def tokenize? (source : String) : Option Tokens :=
  let (p, s) := dropMark source.toList
  tokensFrom (s.length + 1) p s

end WireSchema.Source
