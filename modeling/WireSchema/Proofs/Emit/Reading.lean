import WireSchema.Proofs.Emit.Identifiers
import WireSchema.Proofs.Emit.Rendering
import WireSchema.Proofs.Schema.Forms
import WireSchema.Proofs.Schema.Plain
import WireSchema.Text.Blank

/-
  Reading type expressions back.

  A reader of the emitted language gives brackets behind a
  type to the last operand of a union alone, unless there are
  parentheses around the union.  What it makes of the
  expression for a type is the form of that type: an array of
  this, a dictionary of that, or one of several alternatives.

  Key definitions include:
    * `TypeForm`, `TypeForm.flatten`
    * `TypeReader.step`, `TypeForm.read`
    * `TypeReader.ReadsAs`
    * `EmitScope.formOf?`
    * `EmitScope.read_expression`
-/

namespace WireSchema

------------------------------------------------------------
-- Forms of Types
------------------------------------------------------------

/-
  A type of the emitted language.  What a word names is up to
  the declarations around; a dictionary has texts as its keys.
-/
inductive TypeForm where
  | word (name : String)
  | array (elem : TypeForm)
  | dictionary (value : TypeForm)
  | union (members : List TypeForm)
  deriving Repr, Inhabited

namespace TypeForm

/- The type of the one value that stands for none. -/
def null : TypeForm := .word "null"

/- A single alternative is a type by itself. -/
def oneOf : List TypeForm → TypeForm
  | [f] => f
  | fs => .union fs

mutual

/- The alternatives of a type, with no union among them. -/
def alternatives : TypeForm → List TypeForm
  | .word name => [.word name]
  | .array elem => [.array (oneOf (alternatives elem))]
  | .dictionary value =>
      [.dictionary (oneOf (alternatives value))]
  | .union members => allAlternatives members

def allAlternatives : List TypeForm → List TypeForm
  | [] => []
  | f :: rest => alternatives f ++ allAlternatives rest

end

/- The type with all unions inside unions dissolved. -/
def flatten (f : TypeForm) : TypeForm :=
  oneOf f.alternatives

end TypeForm

------------------------------------------------------------
-- Words and Marks
------------------------------------------------------------

/- A word or one of the marks around words. -/
inductive TypeToken where
  | word (name : String)
  | mark (c : Char)
  deriving DecidableEq, Repr

namespace TypeToken

def isTypeMark (c : Char) : Bool :=
  "|()[]<>,".toList.contains c

/- The token of a word that has ended, if it has begun. -/
def ofWord (front : List Char) : List TypeToken :=
  if front.isEmpty then [] else [.word (String.ofList front)]

/-
  The tokens of a text.  The first argument holds the
  characters of the word under way.
-/
def scan : List Char → List Char → List TypeToken
  | front, [] => ofWord front
  | front, c :: s =>
      if Text.isBlank c then ofWord front ++ scan [] s
      else if isTypeMark c then ofWord front ++ .mark c :: scan [] s
      else scan (front ++ [c]) s

/- Whether a character cannot stand in a word. -/
def endsWord (c : Char) : Bool :=
  Text.isBlank c || isTypeMark c

/- What may stand behind a word. -/
def EndsWord (rest : List Char) : Prop :=
  ∀ c ∈ rest.head?, endsWord c = true

theorem EndsWord.cons
    {c : Char}
    (hc : endsWord c = true)
    (s : List Char) : EndsWord (c :: s) := by
  intro d hd
  rwa [← Option.mem_some.mp hd]

theorem scan_of_endsWord
    {rest : List Char}
    (hEnds : EndsWord rest)
    (front : List Char) :
    scan front rest = ofWord front ++ scan [] rest := by
  cases rest with
  | nil => simp [scan, ofWord]
  | cons c s =>
      have hc := hEnds c rfl
      unfold scan
      cases hBlank : Text.isBlank c with
      | true => simp [ofWord]
      | false =>
          have hMark : isTypeMark c = true := by
            simpa [endsWord, hBlank] using hc
          simp [hMark, ofWord]

/- The characters of a word are kept together. -/
theorem scan_append
    {name rest : List Char}
    (hName : ∀ c ∈ name, endsWord c = false)
    (hEnds : EndsWord rest)
    (front : List Char) :
    scan front (name ++ rest) =
      ofWord (front ++ name) ++ scan [] rest := by
  induction name generalizing front with
  | nil =>
      rw [List.append_nil]
      exact scan_of_endsWord hEnds front
  | cons c name ih =>
      rw [List.forall_mem_cons] at hName
      have hc := hName.1
      rw [endsWord, Bool.or_eq_false_iff] at hc
      rw [List.cons_append, scan, hc.1, hc.2, if_neg nofun,
        if_neg nofun, ih hName.2, List.append_assoc]
      rfl

end TypeToken

/- A text that is one word of the emitted language. -/
structure IsTypeWord (name : String) : Prop where
  ne_nil : name.toList ≠ []
  inside : ∀ c ∈ name.toList, TypeToken.endsWord c = false

/- No letter, digit or sign of an identifier ends a word. -/
theorem endsWord_of_identifierChar
    {c : Char}
    (h : (c.isAlphanum || c == '_' || c == '$') = true) :
    TypeToken.endsWord c = false := by
  have hMark : TypeToken.isTypeMark c = false := by
    rw [TypeToken.isTypeMark, Bool.eq_false_iff]
    intro hMem
    rw [List.contains_iff_mem] at hMem
    have hNone : "|()[]<>,".toList.all (fun d =>
        !(d.isAlphanum || d == '_' || d == '$')) = true := by
      decide
    have hNot := List.all_eq_true.mp hNone c hMem
    rw [h] at hNot
    cases hNot
  have hBlank : Text.isBlank c = false := by
    simp only [Char.isAlphanum, Bool.or_eq_true, beq_iff_eq,
      isAlpha_iff_toNat, Char.isDigit_iff_toNat] at h
    have hZero : '0'.toNat = 48 := rfl
    have hNine : '9'.toNat = 57 := rfl
    rcases h with (hLetter | rfl) | rfl
    · simp only [Text.isBlank, Bool.or_eq_false_iff,
        Bool.and_eq_false_iff, decide_eq_false_iff_not,
        beq_eq_false_iff_ne]
      omega
    · rfl
    · rfl
  rw [TypeToken.endsWord, hBlank, hMark]
  rfl

/- Identifiers are words. -/
theorem isTypeWord_of_isIdentifier
    {name : String}
    (h : isIdentifier name.toList = true) : IsTypeWord name := by
  refine ⟨?some, ?inside⟩
  case some =>
    intro hNone
    rw [hNone] at h
    cases h
  case inside =>
    intro c hc
    exact endsWord_of_identifierChar (isPart_of_isIdentifier h c hc)

------------------------------------------------------------
-- The Reader
------------------------------------------------------------

/- The brackets that can be open. -/
inductive Bracket where
  | group
  | key
  | value
  | index
  deriving DecidableEq, Repr

/-
  A union that is being read.  Brackets may still follow the
  last operand; the ones before it are complete.
-/
structure OpenUnion where
  done : List TypeForm
  last : Option TypeForm
  deriving Repr, Inhabited

/- The union under way, and those around its brackets. -/
structure TypeReader where
  outer : List (Bracket × OpenUnion)
  inner : OpenUnion
  deriving Repr, Inhabited

namespace TypeReader

def start : TypeReader := ⟨[], ⟨[], none⟩⟩

/-
  Read a token.  A bar completes the last operand, and index
  brackets take nothing but the last operand.
-/
def step : TypeReader → TypeToken → Option TypeReader
  | ⟨outer, ⟨done, none⟩⟩, .word name =>
      some ⟨outer, ⟨done, some (.word name)⟩⟩
  | ⟨outer, ⟨done, some f⟩⟩, .mark '|' =>
      some ⟨outer, ⟨done ++ [f], none⟩⟩
  | ⟨outer, ⟨done, some f⟩⟩, .mark '[' =>
      some ⟨(.index, ⟨done, some f⟩) :: outer, ⟨[], none⟩⟩
  | ⟨(.index, ⟨done, some f⟩) :: outer, ⟨[], none⟩⟩, .mark ']' =>
      some ⟨outer, ⟨done, some (.array f)⟩⟩
  | ⟨outer, ⟨done, none⟩⟩, .mark '(' =>
      some ⟨(.group, ⟨done, none⟩) :: outer, ⟨[], none⟩⟩
  | ⟨(.group, around) :: outer, ⟨done, some f⟩⟩, .mark ')' =>
      some
        ⟨outer, ⟨around.done, some (.oneOf (done ++ [f]))⟩⟩
  | ⟨outer, ⟨done, some (.word "Record")⟩⟩, .mark '<' =>
      some ⟨(.key, ⟨done, none⟩) :: outer, ⟨[], none⟩⟩
  | ⟨(.key, around) :: outer, ⟨[], some (.word "string")⟩⟩,
      .mark ',' =>
      some ⟨(.value, around) :: outer, ⟨[], none⟩⟩
  | ⟨(.value, around) :: outer, ⟨done, some f⟩⟩, .mark '>' =>
      some
        ⟨outer,
          ⟨around.done,
            some (.dictionary (.oneOf (done ++ [f])))⟩⟩
  | _, _ => none

/- Read a text to its end. -/
def readFrom (r : TypeReader) (s : List Char) :
    Option TypeReader :=
  (TypeToken.scan [] s).foldlM step r

/- The type that has been read, if all brackets are closed. -/
def result? : TypeReader → Option TypeForm
  | ⟨[], ⟨done, some f⟩⟩ => some (.oneOf (done ++ [f]))
  | _ => none

end TypeReader

/- The type that an expression is read as. -/
def TypeForm.read (text : String) : Option TypeForm := do
  let r ← TypeReader.start.readFrom text.toList
  r.result?

example : TypeForm.read "A | B[]" =
    some (.union [.word "A", .array (.word "B")]) := rfl

example : TypeForm.read "(A | B)[]" =
    some (.array (.union [.word "A", .word "B"])) := rfl

example : TypeForm.read "A B" = none := rfl

------------------------------------------------------------
-- Steps of the Reader
------------------------------------------------------------

namespace TypeReader

open TypeToken

theorem readFrom_blank (r : TypeReader) (s : List Char) :
    r.readFrom (' ' :: s) = r.readFrom s :=
  rfl

theorem readFrom_mark
    {r next : TypeReader}
    {c : Char}
    (hBlank : Text.isBlank c = false)
    (hMark : isTypeMark c = true)
    (hStep : r.step (.mark c) = some next)
    (s : List Char) :
    r.readFrom (c :: s) = next.readFrom s := by
  simp only [readFrom, scan, hBlank, hMark, ofWord,
    List.isEmpty_nil, if_true, List.nil_append,
    List.foldlM_cons, hStep, Bool.false_eq_true, if_false]
  rfl

theorem readFrom_word
    {outer : List (Bracket × OpenUnion)}
    {done : List TypeForm}
    {name : String}
    {rest : List Char}
    (hName : IsTypeWord name)
    (hEnds : EndsWord rest) :
    readFrom ⟨outer, ⟨done, none⟩⟩ (name.toList ++ rest) =
      readFrom ⟨outer, ⟨done, some (.word name)⟩⟩ rest := by
  have hWord : ofWord name.toList = [.word name] := by
    simp [ofWord, hName.ne_nil]
  unfold readFrom
  rw [scan_append hName.inside hEnds, List.nil_append, hWord]
  rfl

/-
  A text is read as some alternatives, whatever is around it,
  as long as its last word ends where the text does.
-/
def ReadsAs
    (text : String)
    (front : List TypeForm)
    (last : TypeForm) : Prop :=
  ∀ outer done rest, EndsWord rest →
    readFrom ⟨outer, ⟨done, none⟩⟩ (text.toList ++ rest) =
      readFrom ⟨outer, ⟨done ++ front, some last⟩⟩ rest

theorem readsAs_word
    {name : String}
    (h : IsTypeWord name) : ReadsAs name [] (.word name) := by
  intro outer done rest hEnds
  rw [List.append_nil]
  exact readFrom_word h hEnds

section Combined

variable {text other : String}
variable {front more : List TypeForm}
variable {last next : TypeForm}

theorem readsAs_array (h : ReadsAs text [] last) :
    ReadsAs (text ++ "[]") [] (.array last) := by
  intro outer done rest _
  calc readFrom ⟨outer, ⟨done, none⟩⟩ ((text ++ "[]").toList ++ rest)
    _ = readFrom ⟨outer, ⟨done, none⟩⟩
          (text.toList ++ '[' :: ']' :: rest) := by
        rw [String.toList_append, List.append_assoc]
        rfl
    _ = readFrom ⟨outer, ⟨done ++ [], some last⟩⟩
          ('[' :: ']' :: rest) :=
        h outer done _ (.cons rfl _)
    _ = readFrom
          ⟨(.index, ⟨done ++ [], some last⟩) :: outer, ⟨[], none⟩⟩
          (']' :: rest) :=
        readFrom_mark rfl rfl rfl _
    _ = readFrom ⟨outer, ⟨done ++ [], some (.array last)⟩⟩ rest :=
        readFrom_mark rfl rfl rfl _

/- Parentheses make one operand of all alternatives. -/
theorem readsAs_group (h : ReadsAs text front last) :
    ReadsAs ("(" ++ text ++ ")") [] (.oneOf (front ++ [last])) := by
  intro outer done rest _
  calc readFrom ⟨outer, ⟨done, none⟩⟩
        (("(" ++ text ++ ")").toList ++ rest)
    _ = readFrom ⟨outer, ⟨done, none⟩⟩
          ('(' :: (text.toList ++ ')' :: rest)) := by
        simp only [String.toList_append, List.append_assoc]
        rfl
    _ = readFrom ⟨(.group, ⟨done, none⟩) :: outer, ⟨[], none⟩⟩
          (text.toList ++ ')' :: rest) :=
        readFrom_mark rfl rfl rfl _
    _ = readFrom
          ⟨(.group, ⟨done, none⟩) :: outer, ⟨front, some last⟩⟩
          (')' :: rest) :=
        h _ [] _ (.cons rfl _)
    _ = readFrom
          ⟨outer, ⟨done, some (.oneOf (front ++ [last]))⟩⟩ rest :=
        readFrom_mark rfl rfl rfl _
    _ = readFrom
          ⟨outer, ⟨done ++ [], some (.oneOf (front ++ [last]))⟩⟩
          rest := by
        rw [List.append_nil]

theorem readsAs_dictionary (h : ReadsAs text front last) :
    ReadsAs ("Record<string, " ++ text ++ ">") []
      (.dictionary (.oneOf (front ++ [last]))) := by
  have hRecord : IsTypeWord "Record" :=
    isTypeWord_of_isIdentifier rfl
  have hString : IsTypeWord "string" :=
    isTypeWord_of_isIdentifier rfl
  intro outer done rest _
  calc readFrom ⟨outer, ⟨done, none⟩⟩
        (("Record<string, " ++ text ++ ">").toList ++ rest)
    _ = readFrom ⟨outer, ⟨done, none⟩⟩
          ("Record".toList ++ '<' :: ("string".toList
            ++ ',' :: ' ' :: (text.toList ++ '>' :: rest))) := by
        simp only [String.toList_append, List.append_assoc]
        rfl
    _ = readFrom ⟨outer, ⟨done, some (.word "Record")⟩⟩
          ('<' :: ("string".toList
            ++ ',' :: ' ' :: (text.toList ++ '>' :: rest))) :=
        readFrom_word hRecord (.cons rfl _)
    _ = readFrom ⟨(.key, ⟨done, none⟩) :: outer, ⟨[], none⟩⟩
          ("string".toList
            ++ ',' :: ' ' :: (text.toList ++ '>' :: rest)) :=
        readFrom_mark rfl rfl rfl _
    _ = readFrom
          ⟨(.key, ⟨done, none⟩) :: outer,
            ⟨[], some (.word "string")⟩⟩
          (',' :: ' ' :: (text.toList ++ '>' :: rest)) :=
        readFrom_word hString (.cons rfl _)
    _ = readFrom ⟨(.value, ⟨done, none⟩) :: outer, ⟨[], none⟩⟩
          (' ' :: (text.toList ++ '>' :: rest)) :=
        readFrom_mark rfl rfl rfl _
    _ = readFrom ⟨(.value, ⟨done, none⟩) :: outer, ⟨[], none⟩⟩
          (text.toList ++ '>' :: rest) :=
        readFrom_blank _ _
    _ = readFrom
          ⟨(.value, ⟨done, none⟩) :: outer, ⟨front, some last⟩⟩
          ('>' :: rest) :=
        h _ [] _ (.cons rfl _)
    _ = readFrom
          ⟨outer,
            ⟨done, some (.dictionary (.oneOf (front ++ [last])))⟩⟩
          rest :=
        readFrom_mark rfl rfl rfl _
    _ = readFrom
          ⟨outer,
            ⟨done ++ [],
              some (.dictionary (.oneOf (front ++ [last])))⟩⟩
          rest := by
        rw [List.append_nil]

/- The alternatives of two texts around a bar are put together. -/
theorem readsAs_bar
    (h : ReadsAs text front last)
    (hOther : ReadsAs other more next) :
    ReadsAs (text ++ " | " ++ other) (front ++ last :: more)
      next := by
  intro outer done rest hEnds
  calc readFrom ⟨outer, ⟨done, none⟩⟩
        ((text ++ " | " ++ other).toList ++ rest)
    _ = readFrom ⟨outer, ⟨done, none⟩⟩
          (text.toList
            ++ ' ' :: '|' :: ' ' :: (other.toList ++ rest)) := by
        simp only [String.toList_append, List.append_assoc]
        rfl
    _ = readFrom ⟨outer, ⟨done ++ front, some last⟩⟩
          (' ' :: '|' :: ' ' :: (other.toList ++ rest)) :=
        h outer done _ (.cons rfl _)
    _ = readFrom ⟨outer, ⟨done ++ front, some last⟩⟩
          ('|' :: ' ' :: (other.toList ++ rest)) :=
        readFrom_blank _ _
    _ = readFrom ⟨outer, ⟨done ++ front ++ [last], none⟩⟩
          (' ' :: (other.toList ++ rest)) :=
        readFrom_mark rfl rfl rfl _
    _ = readFrom ⟨outer, ⟨done ++ front ++ [last], none⟩⟩
          (other.toList ++ rest) :=
        readFrom_blank _ _
    _ = readFrom
          ⟨outer, ⟨done ++ front ++ [last] ++ more, some next⟩⟩
          rest :=
        hOther outer _ rest hEnds
    _ = readFrom
          ⟨outer, ⟨done ++ (front ++ last :: more), some next⟩⟩
          rest := by
        simp only [List.append_assoc, List.singleton_append]

end Combined

end TypeReader

------------------------------------------------------------
-- Expressions for Forms
------------------------------------------------------------

namespace TypeForm

open TypeReader

/-
  A text that is read as the alternatives of a type.  If there
  are several, the bars between them have spaces.
-/
def IsReadFrom (f : TypeForm) (text : String) : Prop :=
  ∃ front last,
    f.alternatives = front ++ [last]
      ∧ ReadsAs text front last
      ∧ (' ' ∉ text.toList → front = [])

variable {f g : TypeForm}
variable {text other : String}

theorem IsReadFrom.read_eq (h : f.IsReadFrom text) :
    read text = some f.flatten := by
  rcases h with ⟨front, last, hParts, hReads, -⟩
  have hAll := hReads [] [] [] nofun
  rw [List.append_nil] at hAll
  unfold read start flatten
  rw [hAll, hParts]
  rfl

theorem isReadFrom_word
    {name : String}
    (h : IsTypeWord name) : (word name).IsReadFrom name :=
  ⟨[], .word name, rfl, readsAs_word h, fun _ => rfl⟩

/-
  An array is taken of the whole element type: its text has
  parentheses around it unless it is a single operand.
-/
theorem IsReadFrom.array (h : f.IsReadFrom text) :
    (array f).IsReadFrom (arrayExpression text) := by
  rcases h with ⟨front, last, hParts, hReads, hSingle⟩
  refine ⟨[], .array (oneOf (front ++ [last])), ?forms, ?reads,
    fun _ => rfl⟩
  case forms =>
    rw [alternatives, hParts]
    rfl
  case reads =>
    unfold arrayExpression
    split
    · have hText : "(" ++ text ++ ")[]" =
          "(" ++ text ++ ")" ++ "[]" := by
        rw [← String.toList_inj]
        simp
      rw [hText]
      exact readsAs_array (readsAs_group hReads)
    · next hSpace =>
        rw [List.contains_iff_mem] at hSpace
        have hFront : front = [] := hSingle hSpace
        subst hFront
        exact readsAs_array hReads

theorem IsReadFrom.dictionary (h : f.IsReadFrom text) :
    (dictionary f).IsReadFrom
      ("Record<string, " ++ text ++ ">") := by
  rcases h with ⟨front, last, hParts, hReads, -⟩
  refine ⟨[], .dictionary (oneOf (front ++ [last])), ?forms,
    readsAs_dictionary hReads, fun _ => rfl⟩
  case forms =>
    rw [alternatives, hParts]
    rfl

/- Both sides of a bar are alternatives of one union. -/
theorem IsReadFrom.bar
    {fs : List TypeForm}
    (h : f.IsReadFrom text)
    (hOthers : (union fs).IsReadFrom other) :
    (union (f :: fs)).IsReadFrom (text ++ " | " ++ other) := by
  rcases h with ⟨front, last, hParts, hReads, -⟩
  rcases hOthers with ⟨more, next, hMore, hOther, -⟩
  refine ⟨front ++ last :: more, next, ?forms,
    readsAs_bar hReads hOther, ?space⟩
  case forms =>
    rw [alternatives, allAlternatives, hParts]
    rw [alternatives] at hMore
    rw [hMore]
    simp
  case space =>
    intro hSpace
    apply absurd _ hSpace
    simp

theorem IsReadFrom.single (h : f.IsReadFrom text) :
    (union [f]).IsReadFrom text := by
  have hSame : (union [f]).alternatives = f.alternatives := by
    simp [alternatives, allAlternatives]
  unfold IsReadFrom
  rw [hSame]
  exact h

/- Alternatives between bars are those of a union. -/
theorem IsReadFrom.join
    {fs : List TypeForm}
    {texts : List String}
    (hSome : texts ≠ [])
    (h : List.Forall₂ IsReadFrom fs texts) :
    (union fs).IsReadFrom (Text.joinWith " | " texts) := by
  induction h with
  | nil => exact absurd rfl hSome
  | cons hFirst hRest ih =>
      cases hRest with
      | nil => exact hFirst.single
      | cons hSecond hMore =>
          exact hFirst.bar (ih (List.cons_ne_nil _ _))

end TypeForm

------------------------------------------------------------
-- Forms of Described Types
------------------------------------------------------------

/- The form of the values of a base kind. -/
def baseForm : BaseKind → TypeForm
  | .bool => .word "boolean"
  | .int | .uint | .float | .duration => .word "number"
  | .string | .bytes | .time => .word "string"
  | .any => .word "unknown"
  | .empty => .dictionary (.word "never")

theorem isReadFrom_baseForm (kind : BaseKind) :
    (baseForm kind).IsReadFrom (baseExpression kind) := by
  have hWord : ∀ name : String, isIdentifier name.toList = true →
      (TypeForm.word name).IsReadFrom name :=
    fun name h =>
      TypeForm.isReadFrom_word (isTypeWord_of_isIdentifier h)
  cases kind with
  | empty =>
      exact (hWord "never" rfl).dictionary
  | _ => exact hWord _ rfl

namespace EmitScope

variable {x : EmitScope}
variable {t : WireType}

mutual

/-
  The form of a type that is no declaration.  A pointer has
  null as an alternative, and one to nothing is null itself.
-/
def formOf? (x : EmitScope) : WireType → Option TypeForm
  | .base kind _ => some (baseForm kind)
  | .array elem _ => (formOf? x elem).map .array
  | .map _ value => (formOf? x value).map .dictionary
  | .reference id => (x.names.find? id).map .word
  | .pointer (.base .empty _) => some .null
  | .pointer elem =>
      (formOf? x elem).map fun f => .union [f, .null]
  | .union members => (formsOf? x members).map .union
  | .param p => some (.word p.name)
  | .record _ | .synonym _ | .enum _ => none

def formsOf? (x : EmitScope) :
    List WireType → Option (List TypeForm)
  | [] => some []
  | t :: rest => do
      let f ← formOf? x t
      let fs ← formsOf? x rest
      some (f :: fs)

end

/-
  A type without declarations or empty unions in it, where all
  names are words of the emitted language.
-/
structure IsReadable (x : EmitScope) (t : WireType) : Prop where
  plain : t.IsExpression
  inhabited : WireType.union [] ∉ t.walk
  names : ∀ id ∈ t.references,
    ∃ name, x.name id = .ok name ∧ IsTypeWord name
  params : ∀ p, WireType.param p ∈ t.walk → IsTypeWord p.name

/- What is asked of a type is asked of the types inside. -/
theorem IsReadable.child
    {u : WireType}
    (h : x.IsReadable t)
    (hu : u ∈ t.children) : x.IsReadable u := by
  have hParts : u.walk ⊆ t.walk := WireType.walk_subset_of_child hu
  refine ⟨fun w hw => h.plain w (hParts hw),
    fun hEmpty => h.inhabited (hParts hEmpty), ?names,
    fun p hp => h.params p (hParts hp)⟩
  case names =>
    intro id hId
    exact h.names id (List.filterMap_subset _ hParts hId)

/- A type whose expression is read as its form. -/
def ReadsBack (x : EmitScope) (t : WireType) : Prop :=
  ∃ text f,
    x.expression t = .ok text
      ∧ x.formOf? t = some f
      ∧ f.IsReadFrom text

theorem readsBack_reference
    {id : TypeName}
    {name : String}
    (hName : x.name id = .ok name)
    (hWord : IsTypeWord name) :
    x.ReadsBack (.reference id) := by
  refine ⟨name, .word name, ?text, ?form,
    TypeForm.isReadFrom_word hWord⟩
  case text => rw [expression, hName]
  case form =>
    unfold EmitScope.name at hName
    split at hName
    · next n hFind =>
        cases hName
        rw [formOf?, hFind]
        rfl
    · cases hName

/- A pointer is read as its target or null. -/
theorem ReadsBack.pointer
    (h : x.ReadsBack t) : x.ReadsBack (.pointer t) := by
  have hNull : TypeForm.null.IsReadFrom "null" :=
    TypeForm.isReadFrom_word (isTypeWord_of_isIdentifier rfl)
  by_cases hNothing : t.IsNothing
  · rcases hNothing with ⟨bits, rfl⟩
    exact ⟨"null", .null, rfl, rfl, hNull⟩
  · rcases h with ⟨text, f, hText, hForm, hRead⟩
    refine ⟨text ++ " | null", .union [f, .null], ?text, ?form,
      ?read⟩
    case text =>
      rw [expression_pointer hNothing, hText]
      rfl
    case form =>
      rw [formOf?, hForm]
      · rfl
      · intro bits hBase
        exact hNothing ⟨bits, hBase⟩
    case read =>
      have hBoth := hRead.bar hNull.single
      simpa [String.append_assoc] using hBoth

/- The members of a union one by one. -/
theorem readsBack_members
    {ts : List WireType}
    (h : ∀ u ∈ ts, x.ReadsBack u) :
    ∃ texts fs,
      x.expressions ts = .ok texts
        ∧ x.formsOf? ts = some fs
        ∧ List.Forall₂ TypeForm.IsReadFrom fs texts := by
  induction ts with
  | nil => exact ⟨[], [], rfl, rfl, .nil⟩
  | cons u rest ih =>
      rw [List.forall_mem_cons] at h
      rcases h.1 with ⟨text, f, hText, hForm, hRead⟩
      rcases ih h.2 with ⟨texts, fs, hTexts, hForms, hReads⟩
      refine ⟨text :: texts, f :: fs, ?texts, ?forms,
        .cons hRead hReads⟩
      case texts =>
        rw [expressions, hText, hTexts]
        rfl
      case forms =>
        rw [formsOf?, hForm, hForms]
        rfl

theorem IsReadable.readsBack
    (h : x.IsReadable t) : x.ReadsBack t := by
  induction t using WireType.inductionOnParts with
  | hRecord d => cases h.plain.id?_eq_none
  | hSynonym d => cases h.plain.id?_eq_none
  | hEnum d => cases h.plain.id?_eq_none
  | hBase kind bits =>
      exact ⟨_, _, rfl, rfl, isReadFrom_baseForm kind⟩
  | hArray elem len hElem =>
      have hPart := h.child (List.mem_singleton_self elem)
      rcases hElem hPart with ⟨text, f, hText, hForm, hRead⟩
      refine ⟨arrayExpression text, .array f, ?text, ?form,
        hRead.array⟩
      case text =>
        rw [expression, hText]
        rfl
      case form =>
        rw [formOf?, hForm]
        rfl
  | hMap key value _ hValue =>
      have hValueIn : value ∈ (WireType.map key value).children :=
        List.mem_cons_of_mem key (List.mem_singleton_self value)
      have hPart := h.child hValueIn
      rcases hValue hPart with ⟨text, f, hText, hForm, hRead⟩
      refine ⟨"Record<string, " ++ text ++ ">", .dictionary f,
        ?text, ?form, hRead.dictionary⟩
      case text =>
        rw [expression, hText]
        rfl
      case form =>
        rw [formOf?, hForm]
        rfl
  | hReference id =>
      rcases h.names id (by simp) with ⟨name, hName, hWord⟩
      exact readsBack_reference hName hWord
  | hPointer elem hElem =>
      exact (hElem (h.child (List.mem_singleton_self elem))).pointer
  | hUnion members hMembers =>
      rcases readsBack_members fun u hu => hMembers u hu (h.child hu)
        with ⟨texts, fs, hTexts, hForms, hReads⟩
      have hSome : texts ≠ [] := by
        rintro rfl
        cases hReads
        cases members with
        | nil => exact h.inhabited (WireType.self_mem_walk _)
        | cons u rest =>
            rw [expressions] at hTexts
            rcases eq_ok_of_bind hTexts with ⟨_, _, hTexts⟩
            rcases eq_ok_of_bind hTexts with ⟨_, _, hTexts⟩
            cases hTexts
      refine ⟨Text.joinWith " | " texts, .union fs, ?text, ?form,
        .join hSome hReads⟩
      case text =>
        rw [expression, hTexts]
        rfl
      case form =>
        rw [formOf?, hForms]
        rfl
  | hParam p =>
      exact ⟨p.name, .word p.name, rfl, rfl,
        TypeForm.isReadFrom_word
          (h.params p (WireType.self_mem_walk _))⟩

/- The expression for a type is read as the form of the type. -/
theorem read_expression (h : x.IsReadable t) :
    ∃ text f,
      x.expression t = .ok text
        ∧ x.formOf? t = some f
        ∧ TypeForm.read text = some f.flatten := by
  rcases h.readsBack with ⟨text, f, hText, hForm, hRead⟩
  exact ⟨text, f, hText, hForm, hRead.read_eq⟩

/- Lines of orders, each of which may be absent. -/
def linesScope : EmitScope :=
  .ofSchema
    { types := [.record { id := { name := "Line", space := "shop" } }] }
    {}

/- A list of lines, of nothing, or of values by key. -/
def linesType : WireType :=
  .array
    (.union
      [.pointer (.reference { name := "Line", space := "shop" }),
        .map (.base .string 0) (.param { name := "T" })])
    0

example : linesScope.expression linesType =
    .ok "(Line | null | Record<string, T>)[]" := by
  decide +kernel

/- Null is one of three alternatives behind the parenthesis. -/
theorem read_expression_lines :
    linesScope.IsReadable linesType
      ∧ ∃ text f,
          linesScope.expression linesType = .ok text
            ∧ linesScope.formOf? linesType = some f
            ∧ TypeForm.read text = some f.flatten := by
  have hReadable : linesScope.IsReadable linesType := by
    refine ⟨?plain, ?inhabited, ?names, ?params⟩
    case plain =>
      simp [linesType, WireType.IsExpression, WireType.id?,
        WireType.boundWalk]
    case inhabited => simp [linesType, WireType.boundWalk]
    case names =>
      intro id hId
      have hLine : id = { name := "Line", space := "shop" } := by
        simpa [linesType, WireType.boundReferences] using hId
      subst hLine
      exact ⟨"Line", by decide +kernel,
        isTypeWord_of_isIdentifier rfl⟩
    case params =>
      intro p hp
      have hParam : p = { name := "T" } := by
        simpa [linesType, WireType.boundWalk] using hp
      subst hParam
      exact isTypeWord_of_isIdentifier rfl
  exact ⟨hReadable, read_expression hReadable⟩

end EmitScope

end WireSchema
