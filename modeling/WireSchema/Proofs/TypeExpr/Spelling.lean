import Mathlib.Data.List.Chain
import WireSchema.Proofs.Number.Digits
import WireSchema.TypeExpr.Instance

/-
  What names are made of.

  A text is spelled by its words, which are the longest runs
  of letters and digits in it, with an underscore between any
  two of them.  Markers and separators are spelled in this
  way as well, so every name that is made is the name of some
  text, and two texts have one name only if they have the
  same words.

  The more slices an argument is made of, the longer is the
  name of the instance.

  Key definitions include:
    * `Spelling.wordsOf`, `Spelling.nameOf`
    * `Spelling.nameOf_eq_iff`
    * `IsNormalName`
    * `TypeExpr.phrase`: the text that spells an argument
    * `wordsOf_syntheticName`, `syntheticName_normal`
    * `TypeExpr.nest`, `TypeExpr.length_nest_lt`
-/

namespace WireSchema

namespace Spelling

------------------------------------------------------------
-- Words
------------------------------------------------------------

/-
  Cut a text into words.  The first argument holds the word
  under way, the last character first.
-/
def wordsFrom : List Char → List Char → List (List Char)
  | [], [] => []
  | word, [] => [word.reverse]
  | word, c :: s =>
      if c.isAlphanum then wordsFrom (c :: word) s
      else if word.isEmpty then wordsFrom [] s
      else word.reverse :: wordsFrom [] s

/- The longest runs of letters and digits, in order. -/
def wordsOf (s : List Char) : List (List Char) :=
  wordsFrom [] s

/- Some letters and digits and nothing else. -/
structure IsWord (word : List Char) : Prop where
  ne_nil : word ≠ []
  all : ∀ c ∈ word, c.isAlphanum = true

instance (word : List Char) : Decidable (IsWord word) :=
  decidable_of_iff
    (word ≠ [] ∧ word.all Char.isAlphanum = true)
    ⟨fun h => ⟨h.1, List.all_eq_true.mp h.2⟩,
      fun h => ⟨h.ne_nil, List.all_eq_true.mpr h.all⟩⟩

theorem isWord_of_mem_wordsFrom
    {word s w : List Char}
    (hWord : ∀ c ∈ word, c.isAlphanum = true)
    (hw : w ∈ wordsFrom word s) : IsWord w := by
  have hDone : ∀ word : List Char, word ≠ [] →
      (∀ c ∈ word, c.isAlphanum = true) →
        IsWord word.reverse := by
    intro word hSome hAll
    refine ⟨by simpa using hSome, ?_⟩
    intro c hc
    exact hAll c (List.mem_reverse.mp hc)
  fun_induction wordsFrom word s with
  | case1 => cases hw
  | case2 word hSome =>
      rw [List.mem_singleton] at hw
      subst hw
      exact hDone word (fun h => hSome h) hWord
  | case3 word c s hc ih =>
      refine ih ?_ hw
      rw [List.forall_mem_cons]
      exact ⟨hc, hWord⟩
  | case4 word c s _ _ ih => exact ih (by simp) hw
  | case5 word c s _ hSome ih =>
      rcases List.mem_cons.mp hw with rfl | hw
      · exact hDone word (by simpa using hSome) hWord
      · exact ih (by simp) hw

theorem isWord_of_mem_wordsOf
    {s w : List Char}
    (hw : w ∈ wordsOf s) : IsWord w :=
  isWord_of_mem_wordsFrom (by simp) hw

/- A character that is no letter or digit ends a word. -/
theorem wordsFrom_append
    {c : Char}
    (hc : c.isAlphanum = false)
    (word s t : List Char) :
    wordsFrom word (s ++ c :: t) =
      wordsFrom word s ++ wordsOf t := by
  induction s generalizing word with
  | nil =>
      cases word with
      | nil => simp [wordsFrom, wordsOf, hc]
      | cons d word => simp [wordsFrom, wordsOf, hc]
  | cons d s ih =>
      rw [List.cons_append, wordsFrom, wordsFrom]
      · split
        · exact ih _
        · split
          · exact ih _
          · rw [ih, List.cons_append]

/- Letters and digits go on with the word under way. -/
theorem wordsFrom_of_isAlphanum
    {s : List Char}
    (hs : ∀ c ∈ s, c.isAlphanum = true)
    (word : List Char)
    (hSome : word.reverse ++ s ≠ []) :
    wordsFrom word s = [word.reverse ++ s] := by
  induction s generalizing word with
  | nil =>
      cases word with
      | nil => exact absurd rfl hSome
      | cons c word => simp [wordsFrom]
  | cons c s ih =>
      rw [List.forall_mem_cons] at hs
      have hRest := ih hs.2 (c :: word) (by simp)
      simpa [wordsFrom, hs.1] using hRest

/- A word is the only word in itself. -/
theorem IsWord.wordsOf_eq
    {word : List Char}
    (h : IsWord word) : wordsOf word = [word] :=
  wordsFrom_of_isAlphanum h.all [] h.ne_nil

theorem wordsOf_append
    {c : Char}
    (hc : c.isAlphanum = false)
    (s t : List Char) :
    wordsOf (s ++ c :: t) = wordsOf s ++ wordsOf t :=
  wordsFrom_append hc [] s t

/- Underscores at the ends are part of no word. -/
theorem wordsOf_dropEdges (s : List Char) :
    wordsOf (Text.dropEdgesWhile (fun c => c == '_') s) =
      wordsOf s := by
  have hFront : ∀ s : List Char,
      wordsOf (s.dropWhile fun c => c == '_') = wordsOf s := by
    intro s
    induction s with
    | nil => rfl
    | cons c s ih =>
        rw [List.dropWhile_cons]
        split
        · next hc =>
            rw [beq_iff_eq] at hc
            subst hc
            exact ih.trans (wordsOf_append rfl [] s).symm
        · rfl
  have hBack : ∀ s : List Char,
      wordsOf (Text.dropEndWhile (fun c => c == '_') s) =
        wordsOf s := by
    intro s
    induction s using List.reverseRecOn with
    | nil => rfl
    | append_singleton s c ih =>
        unfold Text.dropEndWhile at ih ⊢
        rw [List.reverse_append, List.reverse_singleton,
          List.singleton_append, List.dropWhile_cons]
        split
        · next hc =>
            rw [beq_iff_eq] at hc
            subst hc
            rw [ih, wordsOf_append rfl]
            simp [wordsOf, wordsFrom]
        · simp
  exact (hBack _).trans (hFront s)

------------------------------------------------------------
-- Spelled Words
------------------------------------------------------------

/- Words in a spelling, each with an underscore behind it. -/
def ended (words : List (List Char)) : Spelling :=
  (words.flatMap fun w => w ++ ['_']).reverse

theorem ended_cons (w : List Char) (ws : List (List Char)) :
    ended (w :: ws) = ended ws ++ '_' :: w.reverse := by
  simp [ended]

theorem spell_append (out : Spelling) (s t : List Char) :
    out.spell (s ++ t) = (out.spell s).spell t := by
  unfold spell
  rw [List.foldl_append]

/- An underscore in a text is spelled as a separator. -/
theorem spell_bar (out : Spelling) (s : List Char) :
    out.spell ('_' :: s) = out.separate.spell s := by
  rfl

/- Letters and digits are spelled as they are. -/
theorem spell_of_isAlphanum
    {s : List Char}
    (hs : ∀ c ∈ s, c.isAlphanum = true)
    (out : Spelling) : out.spell s = s.reverse ++ out := by
  unfold spell
  induction s generalizing out with
  | nil => rfl
  | cons c s ih =>
      rw [List.forall_mem_cons] at hs
      rw [List.foldl_cons, if_pos hs.1, ih hs.2,
        List.reverse_cons, List.append_assoc]
      rfl

theorem ne_underscore_of_isAlphanum
    {c : Char}
    (h : c.isAlphanum) : (c == '_') = false := by
  rw [beq_eq_false_iff_ne]
  rintro rfl
  exact absurd h (by decide)

theorem separate_word
    {word : List Char}
    (hWord : ∀ c ∈ word, c.isAlphanum = true)
    (hSome : word ≠ [])
    (out : Spelling) :
    separate (word ++ out) = '_' :: (word ++ out) := by
  cases word with
  | nil => exact absurd rfl hSome
  | cons c word =>
      have hc := ne_underscore_of_isAlphanum
        (hWord c List.mem_cons_self)
      exact if_neg (by simpa using hc)

/-
  The text of a marker: a word with a separator behind it.
  Equations about markers do not have to look into the word.
-/
@[irreducible] def markerOf (word : String) : List Char :=
  word.toList ++ ['_']

/- A marker is spelled like any other text. -/
theorem mark_eq_spell
    {word : String}
    (hWord : IsWord word.toList)
    (out : Spelling) :
    out.mark (word ++ "_") = out.spell (markerOf word) := by
  have hReverse : ∀ c ∈ word.toList.reverse,
      c.isAlphanum = true :=
    fun c hc => hWord.all c (List.mem_reverse.mp hc)
  have hMarker : (word ++ "_").toList = word.toList ++ ['_'] := by
    simp
  rw [mark, hMarker, markerOf, spell_append,
    spell_of_isAlphanum hWord.all, spell_bar,
    separate_word hReverse (by simpa using hWord.ne_nil)]
  simp [spell]

/-
  With a separator behind it, a text is spelled as its words.
  The word under way is in the spelling already.
-/
theorem separate_spell
    {word s : List Char}
    (hWord : ∀ c ∈ word, c.isAlphanum = true)
    {out : Spelling}
    (hOut : out.separate = out) :
    (spell (word ++ out) s).separate =
      ended (wordsFrom word s) ++ out := by
  fun_induction wordsFrom word s generalizing out with
  | case1 => simpa [spell, ended] using hOut
  | case2 word hSome =>
      have hEnd := separate_word hWord (fun h => hSome h) out
      simpa [spell, ended] using hEnd
  | case3 word c s hc ih =>
      have hStep :
          spell (word ++ out) (c :: s) =
            spell ((c :: word) ++ out) s := by
        simp [spell, hc]
      rw [hStep]
      apply ih _ hOut
      rw [List.forall_mem_cons]
      exact ⟨hc, hWord⟩
  | case4 word c s hc hNone ih =>
      rw [List.isEmpty_iff] at hNone
      subst hNone
      have hStep :
          spell ([] ++ out) (c :: s) = spell ([] ++ out) s := by
        simp [spell, hc, hOut]
      rw [hStep]
      exact ih (by simp) hOut
  | case5 word c s hc hSome ih =>
      have hSome' : word ≠ [] := by simpa using hSome
      have hEnd := separate_word hWord hSome' out
      have hStep :
          spell (word ++ out) (c :: s) =
            spell ([] ++ '_' :: (word ++ out)) s := by
        simp [spell, hc, hEnd]
      rw [hStep, ih (by simp) rfl, ended_cons]
      simp

/- A separator at the end is not part of a name. -/
theorem finish_separate (out : Spelling) :
    out.separate.finish = out.finish := by
  have hDrop : ∀ s : List Char,
      Text.dropEdgesWhile (fun c => c == '_') (s ++ ['_']) =
        Text.dropEdgesWhile (fun c => c == '_') s := by
    intro s
    unfold Text.dropEdgesWhile Text.dropEndWhile
    rw [List.dropWhile_append]
    split
    · next hNone =>
        rw [List.isEmpty_iff] at hNone
        simp [hNone]
    · simp
  cases out with
  | nil => rfl
  | cons c out =>
      rw [separate]
      split
      · rfl
      · unfold finish
        rw [List.reverse_cons, hDrop]

------------------------------------------------------------
-- Names of Texts
------------------------------------------------------------

/- The name that a text is spelled as. -/
def nameOf (s : List Char) : String :=
  (spell [] s).finish

theorem nameOf_eq_finish (s : List Char) :
    nameOf s = (ended (wordsOf s)).finish := by
  have hWords : (spell ([] ++ []) s).separate =
      ended (wordsFrom [] s) ++ [] :=
    separate_spell (by simp) rfl
  rw [List.append_nil, List.append_nil] at hWords
  rw [nameOf, ← finish_separate, hWords]
  rfl

theorem wordsOf_reverse_ended
    {words : List (List Char)}
    (hWords : ∀ w ∈ words, IsWord w) :
    wordsOf (ended words).reverse = words := by
  unfold ended
  rw [List.reverse_reverse]
  induction words with
  | nil => rfl
  | cons w words ih =>
      rw [List.forall_mem_cons] at hWords
      rw [List.flatMap_cons, List.append_assoc,
        List.singleton_append, wordsOf_append (by decide),
        hWords.1.wordsOf_eq, ih hWords.2]
      rfl

theorem wordsOf_finish (out : Spelling) :
    wordsOf out.finish.toList = wordsOf out.reverse := by
  have hEdges := wordsOf_dropEdges out.reverse
  unfold finish
  dsimp only
  split
  · next hNone =>
      rw [hNone] at hEdges
      exact hEdges
  · next c rest hName =>
      rw [← hEdges, hName]
      split
      · rw [String.toList_ofList]
        exact wordsOf_append (c := '_') (by decide) [] _
      · rw [String.toList_ofList]

/- A name has the words of the text it is made of. -/
theorem wordsOf_nameOf (s : List Char) :
    wordsOf (nameOf s).toList = wordsOf s := by
  rw [nameOf_eq_finish, wordsOf_finish,
    wordsOf_reverse_ended fun _ h => isWord_of_mem_wordsOf h]

/- Two texts have one name exactly if their words are equal. -/
theorem nameOf_eq_iff {s t : List Char} :
    nameOf s = nameOf t ↔ wordsOf s = wordsOf t := by
  constructor
  · intro h
    rw [← wordsOf_nameOf s, ← wordsOf_nameOf t, h]
  · intro h
    rw [nameOf_eq_finish, nameOf_eq_finish, h]

/- A name is the name of itself. -/
theorem nameOf_nameOf (s : List Char) :
    nameOf (nameOf s).toList = nameOf s :=
  nameOf_eq_iff.mpr (wordsOf_nameOf s)

------------------------------------------------------------
-- Normal Form
------------------------------------------------------------

/- Letters, digits and single underscores. -/
structure IsTidy (s : List Char) : Prop where
  chars : ∀ c ∈ s, c.isAlphanum = true ∨ c = '_'
  single : s.IsChain fun a b => a ≠ '_' ∨ b ≠ '_'

theorem isTidy_nil : IsTidy [] :=
  ⟨by simp, .nil⟩

theorem IsTidy.cons
    {c : Char}
    {s : List Char}
    (h : IsTidy s)
    (hc : c.isAlphanum = true) : IsTidy (c :: s) where
  chars := by
    rw [List.forall_mem_cons]
    exact ⟨.inl hc, h.chars⟩
  single := h.single.cons fun _ _ =>
    .inl (by simpa using ne_underscore_of_isAlphanum hc)

/- An underscore in front of anything else. -/
theorem IsTidy.bar
    {s : List Char}
    (h : IsTidy s)
    (hHead : ∀ c ∈ s.head?, c ≠ '_') : IsTidy ('_' :: s) where
  chars := by
    rw [List.forall_mem_cons]
    exact ⟨.inr rfl, h.chars⟩
  single := h.single.cons fun c hc => .inr (hHead c hc)

theorem IsTidy.reverse
    {s : List Char}
    (h : IsTidy s) : IsTidy s.reverse where
  chars c hc := h.chars c (List.mem_reverse.mp hc)
  single := List.isChain_reverse.mpr
    (h.single.imp fun _ _ hEither => hEither.symm)

theorem IsTidy.dropWhile
    {s : List Char}
    (h : IsTidy s)
    (p : Char → Bool) : IsTidy (s.dropWhile p) := by
  induction s with
  | nil => exact h
  | cons c s ih =>
      rw [List.dropWhile_cons]
      split
      · apply ih
        exact ⟨fun d hd => h.chars d (List.mem_cons_of_mem _ hd),
          h.single.tail⟩
      · exact h

theorem IsTidy.dropEdges
    {s : List Char}
    (h : IsTidy s)
    (p : Char → Bool) : IsTidy (Text.dropEdgesWhile p s) :=
  ((h.dropWhile p).reverse.dropWhile p).reverse

theorem isTidy_separate
    {out : Spelling}
    (h : IsTidy out) : IsTidy out.separate := by
  cases out with
  | nil => exact isTidy_nil
  | cons c out =>
      rw [separate]
      split
      · exact h
      · next hc =>
          apply h.bar
          rintro d ⟨⟩
          exact hc

theorem isTidy_spell
    {out : Spelling}
    (h : IsTidy out)
    (s : List Char) : IsTidy (out.spell s) := by
  induction s generalizing out with
  | nil => exact h
  | cons c s ih =>
      have hStep :
          out.spell (c :: s) =
            spell (if c.isAlphanum then c :: out
              else out.separate) s := rfl
      rw [hStep]
      apply ih
      split
      · next hc => exact h.cons hc
      · exact isTidy_separate h

/- What is left begins with none of the characters dropped. -/
theorem head_dropEdgesWhile
    {p : Char → Bool}
    {c : Char}
    {s rest : List Char}
    (h : Text.dropEdgesWhile p s = c :: rest) : p c = false := by
  rcases List.dropWhile_suffix p (l := (s.dropWhile p).reverse)
    with ⟨more, hMore⟩
  have hFront : s.dropWhile p = c :: (rest ++ more.reverse) := by
    unfold Text.dropEdgesWhile Text.dropEndWhile at h
    rw [← List.reverse_reverse (s.dropWhile p), ← hMore,
      List.reverse_append, h]
    rfl
  have hHead := List.head?_dropWhile_not p s
  rw [hFront] at hHead
  exact hHead

end Spelling

/-
  A letter or an underscore, then letters, digits and
  underscores, no two of which are next to each other.
-/
structure IsNormalName (name : String) : Prop where
  first : ∃ c rest, name.toList = c :: rest
    ∧ (c.isAlpha = true ∨ c = '_')
  tidy : Spelling.IsTidy name.toList

namespace Spelling

theorem isNormalName_finish
    {out : Spelling}
    (h : IsTidy out) : IsNormalName out.finish := by
  have hTidy := h.reverse.dropEdges fun c => c == '_'
  unfold finish
  dsimp only
  split
  · exact ⟨⟨'_', [], rfl, .inr rfl⟩, isTidy_nil.bar (by simp)⟩
  · next c rest hName =>
      have hHead := head_dropEdgesWhile hName
      rw [beq_eq_false_iff_ne] at hHead
      rw [hName] at hTidy ⊢
      split
      · next hDigit =>
          refine ⟨⟨'_', _, String.toList_ofList, .inr rfl⟩, ?_⟩
          rw [String.toList_ofList]
          apply hTidy.bar
          rintro d ⟨⟩
          exact hHead
      · next hDigit =>
          refine ⟨⟨c, rest, String.toList_ofList, ?_⟩, ?_⟩
          · rcases hTidy.chars c List.mem_cons_self with hc | hc
            · rw [Char.isAlphanum, Bool.or_eq_true] at hc
              exact .inl (hc.resolve_right hDigit)
            · exact absurd hc hHead
          · rwa [String.toList_ofList]

/- Every name of a text is in normal form. -/
theorem isNormalName_nameOf (s : List Char) :
    IsNormalName (nameOf s) :=
  isNormalName_finish (isTidy_spell isTidy_nil s)

end Spelling

------------------------------------------------------------
-- Synthetic Names
------------------------------------------------------------

open Spelling

/-
  Cut a description into tokens.  The first argument holds the
  token under way, the last character first.
-/
def tokensFrom : List Char → List Char → List (List Char)
  | token, [] => [token.reverse]
  | token, c :: s =>
      if isTokenChar c then tokensFrom (c :: token) s
      else token.reverse :: tokensFrom [] s

/- The words of a description, without what qualifies them. -/
def wordsOfDescription (s : List Char) : List (List Char) :=
  (tokensFrom [] s).flatMap fun token =>
    Spelling.wordsOf (tokenTail token)

/-
  What is spelled token by token is the spelling of a text,
  whose words are those of the tokens.
-/
theorem exists_spell_spellTokens
    (out : Spelling)
    (token s : List Char) :
    ∃ text, spellTokens out token s = out.spell text
      ∧ Spelling.wordsOf text =
        (tokensFrom token s).flatMap fun token =>
          Spelling.wordsOf (tokenTail token) := by
  fun_induction spellTokens out token s with
  | case1 out token =>
      refine ⟨_, rfl, ?_⟩
      rw [tokensFrom, List.flatMap_singleton]
  | case2 out token c s hToken ih =>
      rwa [tokensFrom, if_pos hToken]
  | case3 out token c s hToken ih =>
      rcases ih with ⟨text, hText, hWords⟩
      refine ⟨tokenTail token.reverse ++ '_' :: text, ?_, ?_⟩
      · rw [hText, spell_append, spell_bar]
      · rw [tokensFrom, if_neg hToken, List.flatMap_cons,
          wordsOf_append (by decide), hWords]

theorem exists_nameOf_syntheticName (description : String) :
    ∃ text, syntheticName description = nameOf text
      ∧ Spelling.wordsOf text =
        wordsOfDescription description.toList := by
  rcases exists_spell_spellTokens [] [] description.toList with
    ⟨text, hText, hWords⟩
  refine ⟨text, ?_, hWords⟩
  unfold syntheticName nameOf
  rw [hText]

/- The name of a description keeps its words, in order. -/
theorem wordsOf_syntheticName (description : String) :
    Spelling.wordsOf (syntheticName description).toList =
      wordsOfDescription description.toList := by
  rcases exists_nameOf_syntheticName description with
    ⟨text, hText, hWords⟩
  rw [hText, wordsOf_nameOf, hWords]

/- Two descriptions have one name only if their words agree. -/
theorem syntheticName_eq_iff {first second : String} :
    syntheticName first = syntheticName second ↔
      wordsOfDescription first.toList =
        wordsOfDescription second.toList := by
  rcases exists_nameOf_syntheticName first with
    ⟨text, hText, hWords⟩
  rcases exists_nameOf_syntheticName second with
    ⟨other, hOther, hOtherWords⟩
  rw [hText, hOther, nameOf_eq_iff, hWords, hOtherWords]

/- A text of token characters is one token. -/
theorem spellTokens_of_isTokenChar
    {s : List Char}
    (hs : ∀ c ∈ s, isTokenChar c = true)
    (out : Spelling)
    (token : List Char) :
    spellTokens out token s =
      out.spell (tokenTail (token.reverse ++ s)) := by
  induction s generalizing token with
  | nil => simp [spellTokens]
  | cons c s ih =>
      rw [List.forall_mem_cons] at hs
      rw [spellTokens, if_pos hs.1, ih hs.2]
      simp

/- Nothing qualifies a name in normal form. -/
theorem syntheticName_of_isTidy
    {name : String}
    (h : IsTidy name.toList) :
    syntheticName name = nameOf name.toList := by
  have hOther : ∀ c, c.isAlphanum = false → c ≠ '_' →
      c ∉ name.toList := by
    intro c hc hBar hMem
    rcases h.chars c hMem with h | h
    · rw [h] at hc
      cases hc
    · exact hBar h
  have hDot := Text.splitLast_eq_none_iff.mpr
    (hOther '.' (by decide) (by decide))
  have hSlash := Text.splitLast_eq_none_iff.mpr
    (hOther '/' (by decide) (by decide))
  have hToken : ∀ c ∈ name.toList, isTokenChar c = true := by
    intro c hc
    rcases h.chars c hc with h | h
    · simp [isTokenChar, h]
    · simp [isTokenChar, h]
  unfold syntheticName nameOf
  rw [spellTokens_of_isTokenChar hToken]
  simp [tokenTail, hDot, hSlash]

------------------------------------------------------------
-- Instances
------------------------------------------------------------

namespace TypeExpr

mutual

/- The text that a type argument is spelled as. -/
def phrase : TypeExpr → List Char
  | .named space name args =>
      let package := lastSegment space
      (if package.isEmpty then [] else package ++ ['_'])
        ++ (name.toList ++ argsPhrase args)
  | .pointer elem => markerOf "Ptr" ++ phrase elem
  | .slice elem => markerOf "Slice" ++ phrase elem
  | .array len elem =>
      markerOf ("Array" ++ toString len) ++ phrase elem
  | .map key value =>
      markerOf "Map" ++ (phrase key ++ '_' :: phrase value)
  | .builtin name => name.toList
  | .param name => name.toList

/- A separator stands in front of each argument. -/
def argsPhrase : List TypeExpr → List Char
  | [] => []
  | arg :: rest => '_' :: (phrase arg ++ argsPhrase rest)

end

/- The word of a marker with a length in it. -/
theorem isWord_array (len : Nat) :
    IsWord ("Array" ++ toString len).toList := by
  refine ⟨by simp, ?_⟩
  intro c hc
  rw [String.toList_append, List.mem_append] at hc
  rcases hc with hc | hc
  · have hArray : IsWord "Array".toList := by decide
    exact hArray.all c hc
  · have hDigit := isDigit_of_mem_toString hc
    simp [Char.isAlphanum, hDigit]

/- Arguments are spelled by their phrases. -/
theorem describe_eq_spell_all :
    (∀ e out, describe out e = out.spell e.phrase)
      ∧ ∀ args out,
        describeArgs out args = out.spell (argsPhrase args) := by
  refine phrase.mutual_induct _ _
    ?named ?pointer ?slice ?array ?map ?builtin ?param
    ?noArg ?arg
  case named =>
    intro space name args hArgs out
    simp only [describe, phrase, hArgs, spell_append]
    cases (lastSegment space).isEmpty with
    | true => rfl
    | false =>
        rw [if_neg (by simp), if_neg (by simp), spell_append]
        rfl
  case pointer =>
    intro elem hElem out
    have hWord : IsWord "Ptr".toList := by decide
    have hPtr := mark_eq_spell hWord out
    rw [describe, phrase, spell_append, hElem]
    exact congrArg (spell · _) hPtr
  case slice =>
    intro elem hElem out
    have hWord : IsWord "Slice".toList := by decide
    have hSlice := mark_eq_spell hWord out
    rw [describe, phrase, spell_append, hElem]
    exact congrArg (spell · _) hSlice
  case array =>
    intro len elem hElem out
    rw [describe, phrase, spell_append, hElem,
      mark_eq_spell (isWord_array len)]
  case map =>
    intro key value hKey hValue out
    have hWord : IsWord "Map".toList := by decide
    have hMap := mark_eq_spell hWord out
    rw [describe, phrase, spell_append, spell_append, spell_bar,
      hValue, hKey]
    exact congrArg
      (fun out => (spell out (phrase key)).separate.spell _) hMap
  case builtin => exact fun name out => rfl
  case param => exact fun name out => rfl
  case noArg => exact fun out => rfl
  case arg =>
    intro arg rest hArg hRest out
    rw [describeArgs, argsPhrase, spell_bar, spell_append, hArg,
      hRest]

/- The name of an instance is the name of a text. -/
theorem instanceName_eq_nameOf
    {args : List TypeExpr}
    (hArgs : args ≠ [])
    (space name : String) :
    instanceName space name args =
      { name := nameOf (name.toList ++ argsPhrase args)
        space } := by
  cases args with
  | nil => exact absurd rfl hArgs
  | cons arg rest =>
      simp only [instanceName, nameOf, spell_append,
        describe_eq_spell_all.2]

end TypeExpr

/-
  Names that are made are in normal form, whatever they are
  made of, and an identifier in this form that was made of a
  description is the name of itself.
-/
theorem syntheticName_normal :
    (∀ description,
      IsNormalName (syntheticName description)
        ∧ syntheticName (syntheticName description) =
          syntheticName description)
      ∧ ∀ space name arg rest,
        IsNormalName
          (TypeExpr.instanceName space name
            (arg :: rest)).name := by
  constructor
  · intro description
    rcases exists_nameOf_syntheticName description with
      ⟨text, hText, -⟩
    have hNormal := isNormalName_nameOf text
    rw [hText]
    refine ⟨hNormal, ?_⟩
    rw [syntheticName_of_isTidy hNormal.tidy, nameOf_nameOf]
  · intro space name arg rest
    rw [TypeExpr.instanceName_eq_nameOf (List.cons_ne_nil _ _)]
    exact isNormalName_nameOf _

example : syntheticName "[4]a-b.c/d-e.F[G]" = "_4_F_G" := by
  decide +kernel

------------------------------------------------------------
-- Plain Texts
------------------------------------------------------------

namespace Spelling

/- A text with something in it, all letters and digits. -/
structure IsPlain (text : String) : Prop where
  some : text.toList ≠ []
  all : text.toList.all Char.isAlphanum = true

variable {text : String}

theorem IsPlain.isAlphanum
    (h : IsPlain text)
    {c : Char}
    (hc : c ∈ text.toList) : c.isAlphanum :=
  List.all_eq_true.mp h.all c hc

theorem IsPlain.isWord (h : IsPlain text) : IsWord text.toList :=
  ⟨h.some, fun _ hc => h.isAlphanum hc⟩

theorem IsPlain.spell
    (h : IsPlain text)
    (out : Spelling) :
    out.spell text.toList = text.toList.reverse ++ out :=
  spell_of_isAlphanum h.isWord.all out

theorem IsPlain.separate
    (h : IsPlain text) :
    Spelling.separate text.toList.reverse =
      '_' :: text.toList.reverse := by
  have hAll : ∀ c ∈ text.toList.reverse, c.isAlphanum :=
    fun _ hc => h.isAlphanum (List.mem_reverse.mp hc)
  cases hReverse : text.toList.reverse with
  | nil => exact absurd (List.reverse_eq_nil_iff.mp hReverse) h.some
  | cons c rest =>
      rw [hReverse] at hAll
      have hFirst := ne_underscore_of_isAlphanum
        (hAll c List.mem_cons_self)
      exact if_neg (by simpa using hFirst)

/- Between letters and digits, a spelling is kept whole. -/
theorem length_finish
    {first last : Char}
    (hFirst : first.isAlphanum)
    (hLast : last.isAlphanum)
    (inner : List Char) :
    (finish (last :: (inner ++ [first]))).length =
      inner.length + 2 + if first.isDigit then 1 else 0 := by
  have hName :
      Text.dropEdgesWhile (fun c => c == '_')
          (last :: (inner ++ [first])).reverse =
        first :: (inner.reverse ++ [last]) := by
    simp [Text.dropEdgesWhile, Text.dropEndWhile,
      ne_underscore_of_isAlphanum hFirst,
      ne_underscore_of_isAlphanum hLast]
  unfold finish
  rw [hName]
  dsimp only
  split
  · simp only [String.length_ofList, List.length_cons,
      List.length_append, List.length_reverse, List.length_nil]
  · simp only [String.length_ofList, List.length_cons,
      List.length_append, List.length_reverse, List.length_nil]

end Spelling

------------------------------------------------------------
-- Slices of Slices
------------------------------------------------------------

namespace TypeExpr

/- Slices inside each other, with a built-in type inside. -/
def nest (inner : String) : Nat → TypeExpr
  | 0 => .builtin inner
  | n + 1 => .slice (nest inner n)

variable {name inner : String}

theorem describe_nest
    (hInner : Spelling.IsPlain inner)
    (n : Nat)
    (out : Spelling) :
    ∃ marks : List Char, marks.length = 6 * n
      ∧ describe out (nest inner n) =
        inner.toList.reverse ++ (marks ++ out) := by
  induction n generalizing out with
  | zero =>
      refine ⟨[], rfl, ?_⟩
      rw [nest, describe, hInner.spell]
      rfl
  | succ n ih =>
      rcases ih (out.mark "Slice_") with
        ⟨marks, hLength, hDescribe⟩
      refine ⟨marks ++ "Slice_".toList.reverse, ?_, ?_⟩
      · have hMark : "Slice_".toList.reverse.length = 6 := rfl
        rw [List.length_append, hLength, hMark]
        omega
      · rw [nest, describe, hDescribe, Spelling.mark,
          List.append_assoc]

/- The name of an instance grows with each slice. -/
theorem length_instanceName_nest
    (hName : Spelling.IsPlain name)
    (hInner : Spelling.IsPlain inner)
    (space : String) :
    ∃ k, ∀ n,
      (instanceName space name [nest inner n]).name.length =
        6 * n + k := by
  rcases List.exists_cons_of_ne_nil hName.some with
    ⟨first, tail, hChars⟩
  rcases List.eq_nil_or_concat inner.toList with
    hNone | ⟨front, last, hLast⟩
  · exact absurd hNone hInner.some
  have hFirstPlain : first.isAlphanum :=
    hName.isAlphanum (hChars ▸ List.mem_cons_self)
  have hLastPlain : last.isAlphanum := by
    apply hInner.isAlphanum
    rw [hLast, List.concat_eq_append]
    exact List.mem_append_right front List.mem_cons_self
  refine ⟨front.length + tail.length + 3
    + if first.isDigit then 1 else 0, ?_⟩
  intro n
  rcases describe_nest hInner n ('_' :: name.toList.reverse) with
    ⟨marks, hMarks, hDescribe⟩
  have hWhole :
      describe ('_' :: name.toList.reverse) (nest inner n) =
        last :: (front.reverse ++ (marks ++ '_' :: tail.reverse)
          ++ [first]) := by
    rw [hDescribe, hLast, hChars]
    simp
  simp only [instanceName, describeArgs]
  rw [hName.spell, List.append_nil, hName.separate, hWhole,
    Spelling.length_finish hFirstPlain hLastPlain]
  simp only [List.length_append, List.length_reverse,
    List.length_cons, hMarks]
  omega

theorem length_nest_lt
    (hName : Spelling.IsPlain name)
    (hInner : Spelling.IsPlain inner)
    (space : String)
    (n : Nat) :
    (instanceName space name [nest inner n]).name.length <
      (instanceName space name
        [nest inner (n + 1)]).name.length := by
  rcases length_instanceName_nest hName hInner space with
    ⟨k, hLength⟩
  rw [hLength, hLength]
  omega

end TypeExpr

end WireSchema
