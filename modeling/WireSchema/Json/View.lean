import WireSchema.Json.Basic

/-
  Reading domain values out of JSON documents.

  A record stands in a document as an object, or as an array
  of its values in the order of its members.  Members that a
  record does not have are ignored; a member of it that is
  given twice is refused.

  Key definitions include:
    * `View`, `Json.view?`
    * `View.required?`, `View.optional?`, `View.orElse?`
    * `Json.tagged?`, `Json.innerTagged?`: a value with a
      member that names its form
-/

namespace WireSchema

namespace Json

------------------------------------------------------------
-- Plain Values
------------------------------------------------------------

def text? : Json → Option String
  | .text s => some s
  | _ => none

def bool? : Json → Option Bool
  | .bool b => some b
  | _ => none

/- A natural number within a bound. -/
def natUpTo? (bound : Nat) : Json → Option Nat
  | .number (.natural n) => if n ≤ bound then some n else none
  | _ => none

def maxByte : Nat := 255

/- An array of values of one kind. -/
def list? {α : Type} (read : Json → Option α) :
    Json → Option (List α)
  | .array items => items.mapM read
  | _ => none

/- A value that may be `null`. -/
def orNull? {α : Type} (read : Json → Option α) :
    Json → Option (Option α)
  | .null => some none
  | v => (read v).map some

/-
  The name of one of several forms without content: a
  string, or an object that holds nothing but `null` under
  that name.
-/
def variant? : Json → Option String
  | .text s => some s
  | .object [(name, .null)] => some name
  | _ => none

/-
  The same inside a value with a form: there an empty object
  may stand in the place of `null`.
-/
def innerVariant? : Json → Option String
  | .object [(name, .object [])] => some name
  | v => variant? v

end Json

------------------------------------------------------------
-- Records
------------------------------------------------------------

/- The members of a record that a document gives. -/
structure View where
  values : List (String × Json)

/- Whether a name occurs more than once among members. -/
def repeatsName
    (members : List (String × Json))
    (name : String) : Bool :=
  1 < (members.filter fun m => m.1 == name).length

/- The view of a document as a record with given members. -/
def Json.view? (names : List String) : Json → Option View
  | .object members =>
      if names.any (repeatsName members) then none
      else
        some
          { values := members.filter fun m =>
              names.contains m.1 }
  | .array items =>
      if items.length ≤ names.length then
        some { values := names.zip items }
      else none
  | _ => none

namespace View

def get? (v : View) (name : String) : Option Json :=
  v.values.lookup name

/- A member that has to be there. -/
def required? {α : Type}
    (v : View)
    (name : String)
    (read : Json → Option α) : Option α :=
  (v.get? name).bind read

/- A member with a value to use in its absence. -/
def orElse? {α : Type}
    (v : View)
    (name : String)
    (absent : α)
    (read : Json → Option α) : Option α :=
  match v.get? name with
  | none => some absent
  | some j => read j

/- A member that may be absent or `null`. -/
def optional? {α : Type}
    (v : View)
    (name : String)
    (read : Json → Option α) : Option (Option α) :=
  v.orElse? name none (Json.orNull? read)

end View

------------------------------------------------------------
-- Tagged Values
------------------------------------------------------------

namespace Json

/- The member that names a form, and the document without
   it.  In an array the form comes first. -/
def splitTag? (tag : String) : Json → Option (Json × Json)
  | .object members =>
      if repeatsName members tag then none
      else
        (members.lookup tag).map fun form =>
          (form, .object (members.filter fun m => m.1 != tag))
  | .array (form :: rest) => some (form, .array rest)
  | _ => none

/- The form that a document names, and its content. -/
def tagged? (tag : String) (j : Json) :
    Option (String × Json) := do
  let (form, content) ← j.splitTag? tag
  some (← form.text?, content)

/-
  The same inside a value with a form: there the number of a
  form may stand for its name.  A number without a name
  stands for a form that there is not.
-/
def innerTagged?
    (tag : String)
    (names : List String)
    (j : Json) : Option (String × Json) := do
  let (form, content) ← j.splitTag? tag
  match form with
  | .number (.natural n) => some (names.getD n "", content)
  | form => some (← form.text?, content)

end Json

end WireSchema
