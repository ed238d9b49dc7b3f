import WireSchema.Text.Split

/-
  The validation rules of a field: entries of a tag between
  commas, each a name with or without a parameter.

  Key definitions include:
    * `Rule`, `Rule.text`
    * `Rule.parseAll`
    * `listedWords`: the words of a parameter
-/

namespace WireSchema

structure Rule where
  name : String
  param : Option String := none
  deriving DecidableEq, Repr, Inhabited

namespace Rule

/- The rule as a tag writes it. -/
def text (r : Rule) : String :=
  match r.param with
  | some p => r.name ++ "=" ++ p
  | none => r.name

/-
  Read one entry.  A parameter begins behind the first equals
  sign and keeps its blanks; the name does not.
-/
def ofEntry (entry : List Char) : Rule :=
  match Text.splitFirst '=' entry with
  | some (name, param) =>
      { name := String.ofList (Text.trim name)
        param := some (String.ofList param) }
  | none => { name := String.ofList entry }

/- The rules of a tag; entries of blanks are dropped. -/
def parseAll (tag : String) : List Rule :=
  ((Text.splitEvery ',' tag.toList).map Text.trim
    |>.filter fun entry => !entry.isEmpty).map ofEntry

end Rule

------------------------------------------------------------
-- Listed Words
------------------------------------------------------------

/-
  The first word of a text that starts with no blank, and the
  text behind it.  A word in single quotes may hold blanks; a
  missing quote is put at the end.
-/
def firstWord : List Char → List Char × List Char
  | [] => ([], [])
  | '\'' :: s =>
      (s.takeWhile fun c => c != '\'',
        (s.dropWhile fun c => c != '\'').drop 1)
  | c :: s =>
      ((c :: s).takeWhile fun c => c != ' ',
        (c :: s).dropWhile fun c => c != ' ')

/- Something of a text is used up by its first word. -/
theorem length_trimStart_firstWord_lt
    {c : Char}
    {s : List Char}
    (h : Text.isBlank c = false) :
    (Text.trimStart (firstWord (c :: s)).2).length
      < (c :: s).length := by
  refine Nat.lt_of_le_of_lt
    (Text.length_dropWhile_le _ _) ?_
  unfold firstWord
  split
  · contradiction
  · rename_i t heq
    obtain ⟨rfl, rfl⟩ := List.cons.inj heq
    simp only [List.length_drop, List.length_cons]
    have := Text.length_dropWhile_le (fun c => c != '\'') s
    omega
  · rename_i d t hq heq
    obtain ⟨rfl, rfl⟩ := List.cons.inj heq
    have hc : (c != ' ') = true := by
      simp only [bne_iff_ne, ne_eq]
      rintro rfl
      simp [Text.isBlank] at h
    have := Text.length_dropWhile_le (fun c => c != ' ') s
    simp only [List.dropWhile_cons, hc, List.length_cons]
    simp only [if_true]
    omega

/-
  The words of a text: what a blank leads is skipped, and
  each word uses up at least one character.
-/
def wordsOf (s : List Char) : List (List Char) :=
  match s with
  | [] => []
  | c :: rest =>
      if h : Text.isBlank c then wordsOf rest
      else
        let word := firstWord (c :: rest)
        have := length_trimStart_firstWord_lt (s := rest)
          (by simpa using h)
        word.1 :: wordsOf (Text.trimStart word.2)
  termination_by s.length
  decreasing_by
    · exact Nat.lt_succ_self _
    · exact this

/- The words that a parameter lists. -/
def listedWords (param : String) : List String :=
  (wordsOf (Text.trim param.toList)).map String.ofList

end WireSchema
