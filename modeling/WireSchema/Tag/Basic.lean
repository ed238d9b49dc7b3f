import WireSchema.Schema.Type

/-
  Tags behind the fields of a struct: `key:"value"` pairs
  with blanks between them, values in the escapes of a string
  literal.

  Key definitions include:
    * `FieldTag`, `FieldTag.parse`
    * `FieldTag.get?`
    * `closeQuote?`, `unescape`
-/

namespace WireSchema

/- The pairs of a tag, in order. -/
structure FieldTag where
  entries : List (String × String) := []
  deriving DecidableEq, Repr, Inhabited

namespace FieldTag

------------------------------------------------------------
-- Escapes
------------------------------------------------------------

/-
  Undo the escapes of a literal.  A backslash stands for a
  line feed or a tab with `n` and `t`, for itself at the end,
  and for the character behind it otherwise.
-/
def unescape : List Char → List Char
  | [] => []
  | ['\\'] => ['\\']
  | '\\' :: 'n' :: s => '\n' :: unescape s
  | '\\' :: 't' :: s => '\t' :: unescape s
  | '\\' :: c :: s => c :: unescape s
  | c :: s => c :: unescape s

/-
  Cut at the first quote that no backslash escapes.  The
  quote belongs to neither piece.
-/
def closeQuote? :
    List Char → Option (List Char × List Char)
  | [] => none
  | '"' :: s => some ([], s)
  | ['\\'] => none
  | '\\' :: c :: s =>
      (closeQuote? s).map fun p => ('\\' :: c :: p.1, p.2)
  | c :: s => (closeQuote? s).map fun p => (c :: p.1, p.2)

------------------------------------------------------------
-- Pairs
------------------------------------------------------------

/- The character that quotes a raw literal. -/
def backquote : Char := '\x60'

/- The text between two characters at the ends of a text. -/
def between?
    (quote : Char)
    (s : List Char) : Option (List Char) :=
  (Text.afterHead? [quote] s).bind (Text.beforeTail? [quote])

/-
  The content of a tag that may stand as a literal: raw in
  back quotes, or with escapes in double quotes.
-/
def stripLiteral (s : List Char) : List Char :=
  let s := Text.trim s
  match between? backquote s with
  | some inner => inner
  | none =>
      match between? '"' s with
      | some inner => unescape inner
      | none => s

/- The characters that end a key. -/
def endsKey (c : Char) : Bool :=
  c.toNat ≤ 32 || c == ':' || c == '"' || c.toNat == 0x7F

/-
  The pairs at the start of a text, up to the first place
  where none stands.  Every pair takes at least three
  characters, so the length of the text bounds their number.
-/
def readPairs : Nat → List Char → List (String × String)
  | 0, _ => []
  | fuel + 1, s =>
      let s := s.dropWhile fun c => c == ' '
      let key := s.takeWhile fun c => !endsKey c
      match s.dropWhile fun c => !endsKey c with
      | ':' :: '"' :: rest =>
          if key.isEmpty then []
          else
            match closeQuote? rest with
            | none => []
            | some (value, rest) =>
                (String.ofList key,
                  String.ofList (unescape value))
                  :: readPairs fuel rest
      | _ => []

/- Read a tag, as written in the source or bare. -/
def parse (raw : String) : FieldTag :=
  let content := stripLiteral raw.toList
  { entries := readPairs content.length content }

/- The value of a key's first pair. -/
def get? (t : FieldTag) (key : String) : Option String :=
  t.entries.lookup key

def isEmpty (t : FieldTag) : Bool :=
  t.entries.isEmpty

end FieldTag

end WireSchema
