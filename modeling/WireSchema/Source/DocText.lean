import WireSchema.Schema.Name
import WireSchema.Source.Token

/-
  Documentation in the comments in front of a token, and its
  parts out of the lines of a comment.

  Key definitions include:
    * `paragraphs`
    * `Doc.ofLines`
    * `Comment.lines`
    * `Token.docLines`: the lines of the comment block that
      ends right above a token
-/

namespace WireSchema

------------------------------------------------------------
-- Documentation
------------------------------------------------------------

/-
  The paragraphs of a comment: maximal runs of lines that are
  not blank, blanks at the line ends dropped.  The first
  argument holds the run under way.
-/
def paragraphsFrom :
    List (List Char) → List (List Char) →
      List (List (List Char))
  | [], [] => []
  | run, [] => [run]
  | run, line :: rest =>
      let line := Text.trimEnd line
      if line.isEmpty then
        if run.isEmpty then paragraphsFrom [] rest
        else run :: paragraphsFrom [] rest
      else paragraphsFrom (run ++ [line]) rest

def paragraphs (lines : List String) :
    List (List (List Char)) :=
  paragraphsFrom [] (lines.map String.toList)

/- The lines of a paragraph in one, with single blanks. -/
def joinLine (run : List (List Char)) : String :=
  Text.joinWith " "
    (run.map fun line => String.ofList (Text.trim line))

/- The text of a paragraph that marks a deprecation. -/
def deprecation? : List (List Char) → Option String
  | [] => none
  | line :: rest =>
      (Text.afterHead? "Deprecated:".toList line).map fun note =>
        Text.trimString (joinLine (note :: rest))

/- A paragraph behind the first one keeps its lines. -/
def bodyText (run : List (List Char)) : String :=
  Text.joinWith "\n" (run.map String.ofList)

/-
  The first paragraph is the summary and the others are the
  body.  A paragraph that marks a deprecation is neither; the
  last one of these counts.
-/
def Doc.ofLines (lines : List String) : Doc :=
  let runs := paragraphs lines
  let notes := runs.filterMap deprecation?
  let plain := fun (run : List (List Char)) =>
    (deprecation? run).isNone
  { summary :=
      match runs with
      | [] => ""
      | run :: _ => if plain run then joinLine run else ""
    body :=
      Text.joinWith "\n\n"
        ((runs.drop 1).filter plain |>.map bodyText)
    deprecated := notes.getLast? }

------------------------------------------------------------
-- Comments
------------------------------------------------------------

namespace Source

namespace Comment

/- Drop every copy of a text at the start. -/
def dropCopies (head : List Char) : Nat → List Char → List Char
  | 0, s => s
  | fuel + 1, s =>
      match Text.afterHead? head s with
      | some rest => dropCopies head fuel rest
      | none => s

/- The text between the markers of a block comment. -/
def blockContent (s : List Char) : List Char :=
  let body := dropCopies ['/', '*'] s.length s
  (dropCopies ['/', '*'] body.length body.reverse).reverse

/- Whether a line comment is an instruction to a tool. -/
def isDirective (s : List Char) : Bool :=
  (Text.afterHead? "go:".toList s).isSome
    || (Text.afterHead? "nolint".toList s).isSome

/- The lines of a comment without its markers. -/
def lines (c : Comment) : List String :=
  match c.text.toList with
  | '/' :: '/' :: s =>
      if isDirective s then []
      else
        match s with
        | ' ' :: rest => [String.ofList rest]
        | s => [String.ofList s]
  | s =>
      (Text.lines (blockContent s)).map fun line =>
        String.ofList (Text.trim line)

/-
  The comments that stand line above line, up to a given
  line.  The comments are given from the last one back.
-/
def blockAbove (line : Nat) : List Comment → List Comment
  | [] => []
  | c :: rest =>
      if c.lastLine + 1 = line then
        blockAbove c.firstLine rest ++ [c]
      else []

end Comment

/-
  The lines of the comments right above a token.  A comment
  that stands behind an item, on its last line, is above what
  is on the next line: the line end between them, which ends
  the item, does not part comments.
-/
def Token.docLines (t : Token) : List String :=
  (Comment.blockAbove t.line t.comments.reverse).flatMap
    Comment.lines

end Source

end WireSchema
