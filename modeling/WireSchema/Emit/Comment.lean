import WireSchema.Schema.Name

/-
  Documentation comments of emitted code.

  Key definitions include:
    * `Doc.comment`
    * `closeGuard`: how a comment's end is written inside it
-/

namespace WireSchema

/-
  Put a backslash between a star and a slash, so that no line
  can end the comment it stands in.
-/
def closeGuard : List Char → List Char
  | [] => []
  | '*' :: '/' :: s => '*' :: '\\' :: '/' :: closeGuard s
  | c :: s => c :: closeGuard s

def guardLine (line : String) : String :=
  String.ofList (closeGuard line.toList)

/- An empty line between what is there and what follows. -/
def withGap (before after : List String) : List String :=
  match before, after with
  | before, [] => before
  | [], after => after
  | before, after => before ++ "" :: after

/- The note of a deprecation. -/
def deprecationNote (text : String) : String :=
  String.ofList
    (Text.trimEnd ("@deprecated " ++ text).toList)

/- Summary, body and deprecation, with empty lines between. -/
def Doc.commentLines (d : Doc) : List String :=
  let summary := if d.summary.isEmpty then [] else [d.summary]
  let note :=
    match d.deprecated with
    | none => []
    | some text => [deprecationNote text]
  withGap (withGap summary (Text.linesString d.body)) note

/- A line of a comment that takes several. -/
def commentLine (indent line : String) : String :=
  if line.isEmpty then indent ++ " *\n"
  else indent ++ " * " ++ guardLine line ++ "\n"

/-
  The comment of a declaration: one line if one is enough,
  and nothing for empty documentation.
-/
def Doc.comment (d : Doc) (indent : String) : String :=
  if d.isEmpty then ""
  else
    match d.commentLines with
    | [line] => indent ++ "/** " ++ guardLine line ++ " */\n"
    | lines =>
        indent ++ "/**\n"
          ++ String.join (lines.map (commentLine indent))
          ++ indent ++ " */\n"

end WireSchema
