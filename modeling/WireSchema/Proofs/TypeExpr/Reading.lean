import WireSchema.Proofs.Number.Digits
import WireSchema.Proofs.TypeExpr.Names

/-
  Reading the parts of an expression from their texts.

  A word is a name unless it starts with something else that
  the notation knows.  The text of an expression with a mark
  behind it is read from its front: what each of its parts is
  read as tells what the whole is read as.

  Key definitions include:
    * `TypeExpr.IsScannable`
    * `TypeExpr.EndsWord`, `TypeExpr.Follows`
    * `TypeExpr.argsBody`
    * `TypeExpr.ReadsTo`, `TypeExpr.ReadTo`
-/

namespace WireSchema

------------------------------------------------------------
-- Qualified Names
------------------------------------------------------------

/- A simple name is cut off behind its namespace. -/
theorem splitQualifiedChars_append
    {name : List Char}
    (hDot : '.' ∉ name)
    (hSlash : '/' ∉ name)
    (space : List Char) :
    splitQualifiedChars (space ++ '.' :: name) =
      some (space, name) := by
  have hCut : ∀ s : List Char,
      Text.splitLast '.' (s ++ '.' :: name) = some (s, name) :=
    Text.splitLast_append hDot
  unfold splitQualifiedChars
  cases hSpace : Text.splitLast '/' space with
  | none =>
      have hNone :
          Text.splitLast '/' (space ++ '.' :: name) = none := by
        rw [Text.splitLast_eq_none_iff] at hSpace ⊢
        simp [hSpace, hSlash]
      rw [hNone]
      exact hCut space
  | some p =>
      rcases p with ⟨path, tail⟩
      rcases Text.append_of_splitLast hSpace with ⟨rfl, hTail⟩
      have hSome :
          Text.splitLast '/'
              ((path ++ '/' :: tail) ++ '.' :: name) =
            some (path, tail ++ '.' :: name) := by
        rw [List.append_assoc, List.cons_append]
        apply Text.splitLast_append
        simp [hTail, hSlash]
      rw [hSome]
      simp [hCut]

/- A simple name is not qualified. -/
theorem splitQualifiedChars_simple
    {name : List Char}
    (hDot : '.' ∉ name)
    (hSlash : '/' ∉ name) :
    splitQualifiedChars name = none := by
  unfold splitQualifiedChars
  rw [Text.splitLast_eq_none_iff.mpr hSlash]
  exact Text.splitLast_eq_none_iff.mpr hDot

/- The pieces of a qualified name, and the dot between them. -/
theorem append_of_splitQualifiedChars
    {word space name : List Char}
    (h : splitQualifiedChars word = some (space, name)) :
    word = space ++ '.' :: name
      ∧ '.' ∉ name ∧ '/' ∉ name := by
  unfold splitQualifiedChars at h
  cases hSlash : Text.splitLast '/' word with
  | none =>
      rw [hSlash] at h
      rw [Text.splitLast_eq_none_iff] at hSlash
      rcases Text.append_of_splitLast h with ⟨rfl, hDot⟩
      refine ⟨rfl, hDot, ?_⟩
      intro hMem
      exact hSlash (by simp [hMem])
  | some p =>
      rcases p with ⟨path, tail⟩
      rw [hSlash] at h
      rcases Text.append_of_splitLast hSlash with ⟨rfl, hTail⟩
      rcases Option.map_eq_some_iff.mp h with ⟨q, hq, hSame⟩
      cases hSame
      rcases Text.append_of_splitLast hq with ⟨hCut, hDot⟩
      rw [hCut] at hTail ⊢
      refine ⟨by simp, hDot, ?_⟩
      intro hMem
      exact hTail (by simp [hMem])

namespace TypeExpr

variable {rest : List Char}

------------------------------------------------------------
-- Words
------------------------------------------------------------

/- A word that is read as a name. -/
structure IsScannable (word : List Char) : Prop where
  ne_nil : word ≠ []
  inner : ∀ c ∈ word, endsName c = false
  first :
    ∀ c ∈ word.head?, Text.isBlank c = false ∧ c ≠ '*'
  braced : ∀ p ∈ bracedTypes, ¬p.2.toList <+: word

/- Characters that are not the end of a name, as a test. -/
theorem forall_of_all
    {s : List Char}
    (h : (s.all fun c => !endsName c) = true) :
    ∀ c ∈ s, endsName c = false := by
  simpa using h

instance (word : List Char) : Decidable (IsScannable word) :=
  decidable_of_iff
    (word ≠ [] ∧ (word.all fun c => !endsName c) = true
      ∧ (word.head?.all
        fun c => !Text.isBlank c && c != '*') = true
      ∧ (bracedTypes.all
        fun p => !decide (p.2.toList <+: word)) = true)
    ⟨fun h => ⟨h.1, forall_of_all h.2.1,
        by simpa [Option.all_eq_true] using h.2.2.1,
        by simpa using h.2.2.2⟩,
      fun h => ⟨h.ne_nil, by simpa using h.inner,
        by simpa [Option.all_eq_true] using h.first,
        by simpa using h.braced⟩⟩

/- What may stand behind a name. -/
def EndsWord (rest : List Char) : Prop :=
  ∀ c ∈ rest.head?, c = '[' ∨ c = ',' ∨ c = ']'

/- The word that a text begins with. -/
def openingWord (s : List Char) : List Char :=
  s.takeWhile fun c => !endsName c

def behindWord (s : List Char) : List Char :=
  s.dropWhile fun c => !endsName c

theorem openingWord_append
    {word : List Char}
    (hWord : ∀ c ∈ word, endsName c = false)
    (hEnds : EndsWord rest) :
    openingWord (word ++ rest) = word := by
  unfold openingWord
  rw [List.takeWhile_append_of_pos]
  · cases rest with
    | nil => simp
    | cons c rest =>
        have hc : endsName c = true := by
          rcases hEnds c rfl with rfl | rfl | rfl <;> rfl
        simp [hc]
  · intro c hc
    simp [hWord c hc]

theorem behindWord_append
    {word : List Char}
    (hWord : ∀ c ∈ word, endsName c = false)
    (hEnds : EndsWord rest) :
    behindWord (word ++ rest) = rest := by
  unfold behindWord
  rw [List.dropWhile_append_of_pos]
  · cases rest with
    | nil => simp
    | cons c rest =>
        have hc : endsName c = true := by
          rcases hEnds c rfl with rfl | rfl | rfl <;> rfl
        simp [hc]
  · intro c hc
    simp [hWord c hc]

/-
  What has no end of a name in it, in front of a text, is in
  front of the word that the text begins with.
-/
theorem exists_of_word_append
    {word front more : List Char}
    (hWord : ∀ c ∈ word, endsName c = false)
    (hEnds : EndsWord rest)
    (hFront : ∀ c ∈ front, endsName c = false)
    (hSame : word ++ rest = front ++ more) :
    ∃ tail, word = front ++ tail ∧ more = tail ++ rest := by
  rcases List.append_eq_append_iff.mp hSame with
    ⟨tail, rfl, hRest⟩ | ⟨tail, rfl, hMore⟩
  · cases tail with
    | nil => exact ⟨[], by simp, by simpa using hRest.symm⟩
    | cons c tail =>
        have hc := hFront c (by simp)
        rcases hEnds c (by simp [hRest]) with rfl | rfl | rfl
        · cases hc
        · cases hc
        · cases hc
  · exact ⟨tail, rfl, hMore⟩

/- Only blanks in front of the end of a word are dropped. -/
theorem trimStart_append
    (hEnds : EndsWord rest)
    (word : List Char) :
    Text.trimStart (word ++ rest) =
      Text.trimStart word ++ rest := by
  have hRest : Text.trimStart rest = rest := by
    cases rest with
    | nil => rfl
    | cons c rest =>
        have hc : Text.isBlank c = false := by
          rcases hEnds c rfl with rfl | rfl | rfl <;> rfl
        simp [Text.trimStart, hc]
  unfold Text.trimStart at hRest ⊢
  rw [List.dropWhile_append]
  split
  · next hNil =>
      rw [List.isEmpty_iff] at hNil
      rw [hRest, hNil, List.nil_append]
  · rfl

/- No blank stands in front of a word. -/
theorem trimStart_word
    {word : List Char}
    (hWord : IsScannable word) :
    Text.trimStart (word ++ rest) = word ++ rest := by
  cases word with
  | nil => exact absurd rfl hWord.ne_nil
  | cons c word =>
      have hc := (hWord.first c rfl).1
      simp [Text.trimStart, hc]

theorem afterToken?_word
    {word : List Char}
    (hWord : IsScannable word)
    {token : String}
    (hOther : ∀ more, word ++ rest ≠ token.toList ++ more) :
    afterToken? token (word ++ rest) = none := by
  unfold afterToken?
  rw [trimStart_word hWord]
  cases hAfter :
      Text.afterHead? token.toList (word ++ rest) with
  | none => rfl
  | some more =>
      rw [Text.afterHead?_eq_some_iff] at hAfter
      exact absurd hAfter (hOther more)

/-
  A token with an end of a name in it only starts a text with
  this end behind the word.
-/
theorem afterToken?_word_of_end
    {word : List Char}
    (hWord : IsScannable word)
    (hEnds : EndsWord rest)
    {token : String}
    (front : List Char)
    {more : List Char}
    {m : Char}
    (hToken : token.toList = front ++ m :: more)
    (hFront : ∀ c ∈ front, endsName c = false)
    (hEnd : endsName m = true)
    (hOther : word = front → rest.head? ≠ some m) :
    afterToken? token (word ++ rest) = none := by
  apply afterToken?_word hWord
  intro tail hSame
  rw [hToken, List.append_assoc, List.cons_append] at hSame
  rcases exists_of_word_append hWord.inner hEnds hFront hSame with
    ⟨mid, hMid, hMore⟩
  cases mid with
  | nil =>
      apply hOther
      · rw [hMid, List.append_nil]
      · rw [← List.nil_append rest, ← hMore]
        rfl
  | cons c mid =>
      rw [List.cons_append, List.cons.injEq] at hMore
      rcases hMore with ⟨rfl, -⟩
      rw [hWord.inner m (by simp [hMid])] at hEnd
      cases hEnd

/- No braced type stands where a word does. -/
theorem readBraced?_word
    {word : List Char}
    (hWord : IsScannable word)
    (hEnds : EndsWord rest) :
    readBraced? (word ++ rest) = none := by
  have hSpace : ∀ token front : String, ∀ more,
      token.toList = front.toList ++ ' ' :: more →
      (front.toList.all fun c => !endsName c) = true →
        afterToken? token (word ++ rest) = none := by
    intro token front more hToken hFront
    apply afterToken?_word_of_end hWord hEnds _ hToken
      (forall_of_all hFront) rfl
    intro _ hHead
    rcases hEnds ' ' hHead with h | h | h
    · cases h
    · cases h
    · cases h
  have hFull : ∀ p ∈ bracedTypes,
      afterToken? p.2 (word ++ rest) = none := by
    intro p hp
    have hFront : ∀ p ∈ bracedTypes,
        (p.2.toList.all fun c => !endsName c) = true := by
      decide
    apply afterToken?_word hWord
    intro more hSame
    rcases exists_of_word_append hWord.inner hEnds
      (forall_of_all (hFront p hp)) hSame with
      ⟨tail, hTail, -⟩
    exact hWord.braced p hp ⟨tail, hTail.symm⟩
  have hNone : ∀ p ∈ bracedTypes,
      afterToken? p.1 (word ++ rest) = none := by
    simp only [bracedTypes, List.forall_mem_cons] at hFull ⊢
    exact ⟨hSpace _ "struct" _ rfl (by decide), hFull.2.1,
      hSpace _ "interface" _ rfl (by decide), hFull.2.2.2.1,
      List.forall_mem_nil _⟩
  unfold readBraced?
  rw [List.findSome?_eq_none_iff]
  intro p hp
  rw [hNone p hp]
  rfl

/- A name stands at the start of a text. -/
structure Opens (s : List Char) : Prop where
  pointer : afterToken? "*" s = none
  slice : afterToken? "[]" s = none
  array : afterToken? "[" s = none
  map : afterToken? "map[" s = none
  braced : readBraced? s = none

theorem opens_word
    {word : List Char}
    (hWord : IsScannable word)
    (hEnds : EndsWord rest)
    (hMap : rest.head? = some '[' → word ≠ "map".toList) :
    Opens (word ++ rest) where
  pointer := by
    apply afterToken?_word hWord
    intro more hSame
    cases word with
    | nil => exact hWord.ne_nil rfl
    | cons c word =>
        cases hSame
        exact (hWord.first '*' rfl).2 rfl
  slice := afterToken?_word_of_end hWord hEnds [] rfl
    (by simp) rfl fun h => absurd h hWord.ne_nil
  array := afterToken?_word_of_end hWord hEnds [] rfl
    (by simp) rfl fun h => absurd h hWord.ne_nil
  map := afterToken?_word_of_end hWord hEnds "map".toList rfl
    (forall_of_all (by decide)) rfl fun h hHead => hMap hHead h
  braced := readBraced?_word hWord hEnds

/- What is read behind a word. -/
def readBehind
    (fuel : Nat)
    (word : List Char) :
    List Char → Except Fault (TypeExpr × List Char)
  | '[' :: rest => do
      let (args, rest) ← readArgs fuel rest
      .ok (ofName word args, rest)
  | rest => .ok (ofName word [], rest)

/- The name at the start of a text is read up to its end. -/
theorem readExpr_of_opens
    {s : List Char}
    (hOpens : Opens s)
    (fuel : Nat) :
    readExpr (fuel + 1) s =
      if (openingWord (Text.trimStart s)).isEmpty then
        .error (.name, Text.trimStart s)
      else
        readBehind fuel (openingWord (Text.trimStart s))
          (behindWord (Text.trimStart s)) := by
  rw [readExpr, hOpens.pointer, hOpens.slice, hOpens.array,
    hOpens.map, hOpens.braced]
  rfl

/- A word is read up to its end, with arguments behind it. -/
theorem readExpr_scannable
    {word : List Char}
    (hWord : IsScannable word)
    (hEnds : EndsWord rest)
    (hMap : rest.head? = some '[' → word ≠ "map".toList)
    (fuel : Nat) :
    readExpr (fuel + 1) (word ++ rest) =
      readBehind fuel word rest := by
  have hSome : word.isEmpty = false := by
    simpa using hWord.ne_nil
  rw [readExpr_of_opens (opens_word hWord hEnds hMap),
    trimStart_word hWord, openingWord_append hWord.inner hEnds,
    behindWord_append hWord.inner hEnds, hSome]
  rfl

------------------------------------------------------------
-- Lengths
------------------------------------------------------------

/- A length is read up to the bracket behind it. -/
theorem readLength?_toString
    {len : Nat}
    (hLen : len ≤ maxWord)
    (rest : List Char) :
    readLength? ((toString len).toList ++ ']' :: rest) =
      some (len, ']' :: rest) := by
  have hDigits : ∀ c ∈ (toString len).toList,
      c.isDigit = true :=
    fun _ h => isDigit_of_mem_toString h
  have hTake :
      ((toString len).toList ++ ']' :: rest).takeWhile
        Char.isDigit = (toString len).toList := by
    rw [List.takeWhile_append_of_pos hDigits]
    simp
  have hDrop :
      ((toString len).toList ++ ']' :: rest).dropWhile
        Char.isDigit = ']' :: rest := by
    rw [List.dropWhile_append_of_pos hDigits]
    simp
  have hSome : (toString len).toList.isEmpty = false := by
    rw [List.isEmpty_eq_false_iff]
    exact toList_toString_ne_nil len
  unfold readLength?
  simp only [hTake, hDrop, hSome, digitsValue_toString,
    if_pos hLen]
  rfl

/- The digits of a length do not close a bracket. -/
theorem afterToken?_slice_toString
    (len : Nat)
    (rest : List Char) :
    afterToken? "[]" ('[' :: ((toString len).toList ++ rest)) =
      none := by
  cases hDigits : (toString len).toList with
  | nil => exact absurd hDigits (toList_toString_ne_nil len)
  | cons d ds =>
      have hDigit : d.isDigit = true := by
        apply isDigit_of_mem_toString (n := len)
        rw [hDigits]
        exact List.mem_cons_self
      have hne : ']' ≠ d := by
        rintro rfl
        cases hDigit
      have hTrim :
          Text.trimStart ('[' :: (d :: ds ++ rest)) =
            '[' :: d :: (ds ++ rest) := rfl
      have hToken : "[]".toList = ['[', ']'] := rfl
      unfold afterToken?
      rw [hTrim, hToken]
      simp [Text.afterHead?, hne]

------------------------------------------------------------
-- Texts
------------------------------------------------------------

/- A name with its namespace, as texts show it. -/
def wordOf (space name : String) : List Char :=
  if space.isEmpty then name.toList
  else space.toList ++ '.' :: name.toList

/- The arguments of a named type without their brackets. -/
def argsBody : List TypeExpr → String
  | [] => ""
  | arg :: rest => text arg ++ moreArgsText rest

theorem argsText_eq
    {args : List TypeExpr}
    (h : args ≠ []) :
    argsText args = "[" ++ argsBody args ++ "]" := by
  cases args with
  | nil => exact absurd rfl h
  | cons arg rest => simp [argsText, argsBody, String.append_assoc]

theorem moreArgsText_eq
    {args : List TypeExpr}
    (h : args ≠ []) :
    moreArgsText args = "," ++ argsBody args := by
  cases args with
  | nil => exact absurd rfl h
  | cons arg rest =>
      simp [moreArgsText, argsBody, String.append_assoc]

theorem text_named (space name : String) (args : List TypeExpr) :
    (text (.named space name args)).toList =
      wordOf space name ++ (argsText args).toList := by
  unfold text wordOf
  split
  · simp
  · simp

------------------------------------------------------------
-- Names
------------------------------------------------------------

/- Whether a name without a namespace or arguments is built in. -/
def isPredeclared
    (space name : String)
    (args : List TypeExpr) : Bool :=
  space.isEmpty && args.isEmpty && (builtinType? name).isSome

/- A qualified word stands for what is declared by its pieces. -/
theorem ofName_of_split
    {word : List Char}
    {space name : String}
    (h : splitQualifiedChars word =
      some (space.toList, name.toList))
    (args : List TypeExpr) :
    ofName word args = .named space name args := by
  unfold ofName splitQualified
  rw [String.toList_ofList, h, Option.map_some,
    String.ofList_toList, String.ofList_toList]

/- Any other word is a name as it is. -/
theorem ofName_of_split_none
    {name : String}
    (h : splitQualifiedChars name.toList = none)
    (args : List TypeExpr) :
    ofName name.toList args =
      if isPredeclared "" name args then .builtin name
      else .named "" name args := by
  unfold ofName splitQualified
  rw [String.ofList_toList, h]
  rfl

theorem ofName_simple
    {name : String}
    (args : List TypeExpr)
    (hDot : '.' ∉ name.toList)
    (hSlash : '/' ∉ name.toList) :
    ofName name.toList args =
      if isPredeclared "" name args then .builtin name
      else .named "" name args :=
  ofName_of_split_none (splitQualifiedChars_simple hDot hSlash)
    args

/- A name in a namespace is found in its word. -/
theorem ofName_qualified
    {space name : String}
    (args : List TypeExpr)
    (hSpace : space.isEmpty = false)
    (hDot : '.' ∉ name.toList)
    (hSlash : '/' ∉ name.toList) :
    ofName (wordOf space name) args = .named space name args := by
  unfold wordOf
  rw [hSpace, if_neg Bool.false_ne_true]
  exact ofName_of_split
    (splitQualifiedChars_append hDot hSlash _) args

/- A word that is no predeclared name stands for a type. -/
theorem ofName_wordOf
    {space name : String}
    {args : List TypeExpr}
    (hDot : '.' ∉ name.toList)
    (hSlash : '/' ∉ name.toList)
    (hOther : isPredeclared space name args = false) :
    ofName (wordOf space name) args = .named space name args := by
  cases hSpace : space.isEmpty with
  | true =>
      rw [String.isEmpty_iff] at hSpace
      subst hSpace
      have hWord : wordOf "" name = name.toList := rfl
      rw [hWord, ofName_simple args hDot hSlash, hOther]
      rfl
  | false => exact ofName_qualified args hSpace hDot hSlash

------------------------------------------------------------
-- Readers
------------------------------------------------------------

/- What may stand behind an expression. -/
def Follows (rest : List Char) : Prop :=
  ∀ c ∈ rest.head?, c = ',' ∨ c = ']'

theorem Follows.endsWord (h : Follows rest) : EndsWord rest := by
  intro c hc
  exact .inr (h c hc)

theorem follows_comma (s : List Char) : Follows (',' :: s) := by
  intro c hc
  cases hc
  exact .inl rfl

theorem follows_close (s : List Char) : Follows (']' :: s) := by
  intro c hc
  cases hc
  exact .inr rfl

/- An expression whose text is read as another one. -/
def ReadsTo (e found : TypeExpr) : Prop :=
  ∀ fuel rest, Follows rest →
    2 * e.text.toList.length ≤ fuel →
      readExpr fuel (e.text.toList ++ rest) = .ok (found, rest)

/- Arguments that are read up to the closing bracket. -/
def ReadTo (args found : List TypeExpr) : Prop :=
  args ≠ [] → ∀ fuel rest,
    2 * (argsBody args).toList.length + 1 ≤ fuel →
      readArgs fuel ((argsBody args).toList ++ ']' :: rest) =
        .ok (found, rest)

------------------------------------------------------------
-- Reading Texts
------------------------------------------------------------

/- A word with nothing of its own behind it is a name. -/
theorem readExpr_plain
    {word : List Char}
    (hWord : IsScannable word)
    (hFollows : Follows rest)
    (fuel : Nat) :
    readExpr (fuel + 1) (word ++ rest) =
      .ok (ofName word [], rest) := by
  have hHead : rest.head? ≠ some '[' := by
    intro hHead
    rcases hFollows '[' hHead with h | h
    · cases h
    · cases h
  rw [readExpr_scannable hWord hFollows.endsWord
    fun h => absurd h hHead]
  unfold readBehind
  split
  · exact absurd rfl hHead
  · rfl

theorem endsWord_bracket (s : List Char) :
    EndsWord ('[' :: s) := by
  intro c hc
  cases hc
  exact .inl rfl

/- A word with a bracket behind it has arguments. -/
theorem readExpr_bracket
    {word : List Char}
    (hWord : IsScannable word)
    (hMap : word ≠ "map".toList)
    (fuel : Nat)
    (s : List Char) :
    readExpr (fuel + 1) (word ++ '[' :: s) =
      readBehind fuel word ('[' :: s) :=
  readExpr_scannable hWord (endsWord_bracket s)
    (fun _ => hMap) fuel

theorem readExpr_applied
    {word s : List Char}
    {args : List TypeExpr}
    {fuel : Nat}
    (hWord : IsScannable word)
    (hMap : word ≠ "map".toList)
    (hRead : readArgs fuel s = .ok (args, rest)) :
    readExpr (fuel + 1) (word ++ '[' :: s) =
      .ok (ofName word args, rest) := by
  rw [readExpr_bracket hWord hMap, readBehind, hRead]
  rfl

/- A name alone is read alike, whatever it stands for. -/
theorem reads_word
    {word : List Char}
    (hWord : IsScannable word)
    (hFollows : Follows rest)
    {fuel : Nat}
    (hFuel : 2 * word.length ≤ fuel) :
    readExpr fuel (word ++ rest) = .ok (ofName word [], rest) := by
  have hLength := List.length_pos_iff.mpr hWord.ne_nil
  cases fuel with
  | zero => omega
  | succ fuel => exact readExpr_plain hWord hFollows fuel

/- A named type, from its arguments. -/
theorem readsTo_named
    {space name : String}
    {args found : List TypeExpr}
    (hWord : IsScannable (wordOf space name))
    (hMap : args ≠ [] → wordOf space name ≠ "map".toList)
    (hNone : args = [] → found = [])
    (hArgs : ReadTo args found) :
    ReadsTo (.named space name args)
      (ofName (wordOf space name) found) := by
  intro fuel rest hFollows hFuel
  have hLength := List.length_pos_iff.mpr hWord.ne_nil
  rw [text_named, List.length_append] at hFuel
  rw [text_named]
  by_cases hNil : args = []
  · subst hNil
    rw [hNone rfl]
    simp only [argsText, String.toList_empty, List.append_nil]
    exact reads_word hWord hFollows (by omega)
  · rw [argsText_eq hNil] at hFuel ⊢
    simp only [String.toList_append, List.length_append] at hFuel
    have hOne : "[".toList.length = 1 := rfl
    cases fuel with
    | zero => omega
    | succ fuel =>
        have hRead := hArgs hNil fuel rest (by omega)
        have hText :
            wordOf space name
                ++ ("[" ++ argsBody args ++ "]").toList ++ rest =
              wordOf space name
                ++ '[' :: ((argsBody args).toList
                  ++ ']' :: rest) := by
          simp
        rw [hText]
        exact readExpr_applied hWord (hMap hNil) hRead

/- A braced type is read as it is written. -/
theorem readExpr_braced
    {name : String}
    (hName : isBracedName name = true)
    (fuel : Nat)
    (rest : List Char) :
    readExpr (fuel + 1) (name.toList ++ rest) =
      .ok (.builtin name, rest) := by
  unfold isBracedName at hName
  rw [Bool.or_eq_true, beq_iff_eq, beq_iff_eq] at hName
  rcases hName with rfl | rfl
  · rfl
  · rfl

theorem readsTo_braced
    {name : String}
    (hName : isBracedName name = true) :
    ReadsTo (.builtin name) (.builtin name) := by
  intro fuel rest _ hFuel
  have hText : (TypeExpr.builtin name).text = name := by
    simp [text]
  have hLong : 0 < name.toList.length := by
    unfold isBracedName at hName
    rw [Bool.or_eq_true, beq_iff_eq, beq_iff_eq] at hName
    rcases hName with rfl | rfl
    · decide
    · decide
  rw [hText] at hFuel ⊢
  cases fuel with
  | zero => omega
  | succ fuel => exact readExpr_braced hName fuel rest

/- Steps are left for a text that is not empty. -/
theorem exists_fuel
    {c : Char}
    {s : List Char}
    {fuel : Nat}
    (h : 2 * (c :: s).length ≤ fuel) :
    ∃ more, fuel = more + 1 ∧ 2 * s.length + 1 ≤ more := by
  rw [List.length_cons] at h
  exact ⟨fuel - 1, by omega, by omega⟩

theorem readsTo_pointer
    {elem found : TypeExpr}
    (hElem : ReadsTo elem found) :
    ReadsTo (.pointer elem) (.pointer found) := by
  intro fuel rest hFollows hFuel
  have hText : (TypeExpr.pointer elem).text.toList =
      '*' :: elem.text.toList := by
    simp [text]
  rw [hText] at hFuel ⊢
  rcases exists_fuel hFuel with ⟨fuel, rfl, hEnough⟩
  exact readExpr_pointer (hElem fuel rest hFollows (by omega))

theorem readsTo_slice
    {elem found : TypeExpr}
    (hElem : ReadsTo elem found) :
    ReadsTo (.slice elem) (.slice found) := by
  intro fuel rest hFollows hFuel
  have hText : (TypeExpr.slice elem).text.toList =
      '[' :: ']' :: elem.text.toList := by
    simp [text]
  rw [hText] at hFuel ⊢
  rcases exists_fuel hFuel with ⟨fuel, rfl, hEnough⟩
  rw [List.length_cons] at hEnough
  exact readExpr_slice (hElem fuel rest hFollows (by omega))

/- The text of an array, up to what it is an array of. -/
theorem text_array (len : Nat) (elem : TypeExpr) :
    (TypeExpr.array len elem).text.toList =
      '[' :: ((toString len).toList
        ++ ']' :: elem.text.toList) := by
  simp [text]

/- An array is read as soon as its elements are. -/
theorem readExpr_array
    {len : Nat}
    (hLen : len ≤ maxWord)
    (fuel : Nat)
    (s : List Char) :
    readExpr (fuel + 1)
        ('[' :: ((toString len).toList ++ ']' :: s)) =
      (do
        let (elem, rest) ← readExpr fuel s
        .ok (.array len elem, rest)) := by
  have hStar : ∀ s, afterToken? "*" ('[' :: s) = none :=
    fun _ => rfl
  have hOpen : ∀ s, afterToken? "[" ('[' :: s) = some s :=
    fun _ => rfl
  have hClose : ∀ s, afterToken? "]" (']' :: s) = some s :=
    fun _ => rfl
  simp only [readExpr, hStar, afterToken?_slice_toString, hOpen,
    readLength?_toString hLen, hClose]

theorem readsTo_array
    {len : Nat}
    {elem found : TypeExpr}
    (hLen : len ≤ maxWord)
    (hElem : ReadsTo elem found) :
    ReadsTo (.array len elem) (.array len found) := by
  intro fuel rest hFollows hFuel
  rw [text_array] at hFuel ⊢
  rcases exists_fuel hFuel with ⟨fuel, rfl, hEnough⟩
  rw [List.length_append, List.length_cons] at hEnough
  have hRead := hElem fuel rest hFollows (by omega)
  simp only [List.cons_append, List.append_assoc,
    readExpr_array hLen, hRead]
  rfl

theorem text_map (key value : TypeExpr) :
    (TypeExpr.map key value).text.toList =
      'm' :: 'a' :: 'p' :: '[' :: (key.text.toList
        ++ ']' :: value.text.toList) := by
  simp [text]

theorem readsTo_map
    {key value keyFound valueFound : TypeExpr}
    (hKey : ReadsTo key keyFound)
    (hValue : ReadsTo value valueFound) :
    ReadsTo (.map key value) (.map keyFound valueFound) := by
  intro fuel rest hFollows hFuel
  rw [text_map] at hFuel ⊢
  rcases exists_fuel hFuel with ⟨fuel, rfl, hEnough⟩
  simp only [List.length_cons, List.length_append] at hEnough
  have hReadKey := hKey fuel
    (']' :: (value.text.toList ++ rest)) (follows_close _)
    (by omega)
  have hReadValue := hValue fuel rest hFollows (by omega)
  simp only [List.cons_append, List.append_assoc]
  exact readExpr_map hReadKey hReadValue

/- A single argument is read up to the closing bracket. -/
theorem readTo_last
    {arg found : TypeExpr}
    (hArg : ReadsTo arg found) : ReadTo [arg] [found] := by
  intro _ fuel rest hFuel
  have hText : argsBody [arg] = arg.text := by
    simp [argsBody, moreArgsText]
  rw [hText] at hFuel ⊢
  cases fuel with
  | zero => omega
  | succ fuel =>
      exact readArgs_last
        (hArg fuel _ (follows_close rest) (by omega))

/- A comma stands between an argument and those behind it. -/
theorem argsBody_cons
    {args : List TypeExpr}
    (hSome : args ≠ [])
    (arg : TypeExpr) :
    (argsBody (arg :: args)).toList =
      arg.text.toList ++ ',' :: (argsBody args).toList := by
  simp [argsBody, moreArgsText_eq hSome]

theorem readTo_more
    {arg found : TypeExpr}
    {args more : List TypeExpr}
    (hArg : ReadsTo arg found)
    (hArgs : ReadTo args more)
    (hSome : args ≠ []) : ReadTo (arg :: args) (found :: more) := by
  intro _ fuel rest hFuel
  rw [argsBody_cons hSome, List.length_append,
    List.length_cons] at hFuel
  rw [argsBody_cons hSome, List.append_assoc, List.cons_append]
  cases fuel with
  | zero => omega
  | succ fuel =>
      exact readArgs_more
        (hArg fuel _ (follows_comma _) (by omega))
        (hArgs hSome fuel rest (by omega))

theorem readTo_cons
    {arg found : TypeExpr}
    {args more : List TypeExpr}
    (hArg : ReadsTo arg found)
    (hArgs : ReadTo args more)
    (hNone : args = [] → more = []) :
    ReadTo (arg :: args) (found :: more) := by
  by_cases hNil : args = []
  · rw [hNil, hNone hNil]
    exact readTo_last hArg
  · exact readTo_more hArg hArgs hNil

end TypeExpr

end WireSchema
