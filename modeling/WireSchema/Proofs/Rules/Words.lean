import WireSchema.Rules.Effect

/-
  Words that a parameter lists.

  A word stands as it is if it has characters and none of them
  is a blank; any other word stands in single quotes.  Words
  without single quotes are read back from such a text, each
  one and in order.  On any text the search for words ends: a
  round takes characters away, and what is left starts with no
  blank.

  Key definitions include:
    * `isBareWord`, `wordText`, `wordsText`
    * `WordSearch`, `WordSearch.Ends`
    * `WordSearch.ends_wordsOf`
    * `listedWords_wordsText`
-/

namespace WireSchema

------------------------------------------------------------
-- Spelled Words
------------------------------------------------------------

/- Whether a word may stand without quotes. -/
def isBareWord (w : String) : Bool :=
  !w.isEmpty && w.toList.all fun c => !Text.isBlank c

/- A word as it stands in a parameter. -/
def wordText (w : String) : String :=
  if isBareWord w then w else "'" ++ w ++ "'"

/- Words with one blank between neighbours. -/
def wordsText (words : List String) : String :=
  Text.joinWith " " (words.map wordText)

theorem isBareWord_iff {w : String} :
    isBareWord w = true ↔
      w.toList ≠ [] ∧ ∀ c ∈ w.toList, Text.isBlank c = false := by
  simp [isBareWord]

theorem toList_wordText_of_quoted
    {w : String}
    (h : isBareWord w = false) :
    (wordText w).toList = '\'' :: (w.toList ++ ['\'']) := by
  have hQuote : "'".toList = ['\''] := rfl
  simp [wordText, h, hQuote]

theorem toList_wordsText_cons_cons
    (w v : String)
    (words : List String) :
    (wordsText (w :: v :: words)).toList =
      (wordText w).toList
        ++ ' ' :: (wordsText (v :: words)).toList := by
  have hBlank : " ".toList = [' '] := rfl
  simp [wordsText, Text.joinWith, hBlank]

/- A text that has characters and no blank at its ends. -/
structure IsSolid (s : List Char) : Prop where
  trimmed : Text.IsTrimmed s
  ne_nil : s ≠ []

theorem IsSolid.exists_cons
    {s : List Char}
    (h : IsSolid s) :
    ∃ c rest, s = c :: rest ∧ Text.isBlank c = false := by
  rcases List.exists_cons_of_ne_nil h.ne_nil with ⟨c, rest, rfl⟩
  exact ⟨c, rest, rfl, h.trimmed.first c rfl⟩

/- What stands between two such texts is of no account. -/
theorem IsSolid.append
    {s t : List Char}
    (hs : IsSolid s)
    (ht : IsSolid t)
    (c : Char) : IsSolid (s ++ c :: t) := by
  have hFirst : (s ++ c :: t).head? = s.head? := by
    rw [List.head?_append, Option.or_of_isSome]
    exact List.isSome_head?.mpr hs.ne_nil
  have hLast : (s ++ c :: t).getLast? = t.getLast? := by
    rw [List.append_cons, List.getLast?_append, Option.or_of_isSome]
    exact List.getLast?_isSome.mpr ht.ne_nil
  constructor
  case trimmed =>
    constructor
    · rw [hFirst]
      exact hs.trimmed.first
    · rw [hLast]
      exact ht.trimmed.last
  case ne_nil => simp

theorem isSolid_wordText (w : String) :
    IsSolid (wordText w).toList := by
  cases hBare : isBareWord w with
  | true =>
      rcases isBareWord_iff.mp hBare with ⟨hSome, hNone⟩
      rw [wordText, if_pos hBare]
      constructor
      case trimmed =>
        constructor
        · exact fun c hc => hNone c (List.mem_of_mem_head? hc)
        · exact fun c hc => hNone c (List.mem_of_mem_getLast? hc)
      case ne_nil => exact hSome
  | false =>
      rw [toList_wordText_of_quoted hBare]
      constructor
      case trimmed => exact Text.isTrimmed_between rfl rfl w.toList
      case ne_nil => exact List.cons_ne_nil _ _

theorem isSolid_wordsText
    (w : String)
    (words : List String) :
    IsSolid (wordsText (w :: words)).toList := by
  induction words generalizing w with
  | nil => exact isSolid_wordText w
  | cons v words ih =>
      rw [toList_wordsText_cons_cons]
      exact (isSolid_wordText w).append (ih v) ' '

------------------------------------------------------------
-- First Words
------------------------------------------------------------

theorem firstWord_of_ne_quote
    {c : Char}
    (h : c ≠ '\'')
    (s : List Char) :
    firstWord (c :: s) =
      ((c :: s).takeWhile fun d => d != ' ',
        (c :: s).dropWhile fun d => d != ' ') := by
  unfold firstWord
  split
  · next hNil => cases hNil
  · next hQuote => exact absurd (List.cons.inj hQuote).1 h
  · next hCons => rw [hCons]

theorem bne_of_notMem
    {c : Char}
    {s : List Char}
    (h : c ∉ s) : ∀ d ∈ s, (d != c) = true := by
  intro d hd
  rw [bne_iff_ne]
  rintro rfl
  exact h hd

/- A word without quotes ends at the first blank. -/
theorem firstWord_bare
    {word rest : List Char}
    (hSome : word ≠ [])
    (hQuote : '\'' ∉ word)
    (hBlank : ' ' ∉ word)
    (hRest : ∀ c ∈ rest.head?, c = ' ') :
    firstWord (word ++ rest) = (word, rest) := by
  have hInside := bne_of_notMem hBlank
  have hDrop : rest.dropWhile (fun c => c != ' ') = rest := by
    apply Text.dropWhile_of_head
    intro c hc
    rw [hRest c hc]
    rfl
  have hTake : rest.takeWhile (fun c => c != ' ') = [] := by
    cases rest with
    | nil => rfl
    | cons c rest =>
        rw [hRest c rfl]
        rfl
  rcases List.exists_cons_of_ne_nil hSome with ⟨c, s, rfl⟩
  have hc : c ≠ '\'' := by
    rintro rfl
    exact hQuote List.mem_cons_self
  rw [List.cons_append, firstWord_of_ne_quote hc,
    ← List.cons_append, List.takeWhile_append_of_pos hInside,
    List.dropWhile_append_of_pos hInside, hTake, hDrop,
    List.append_nil]

/- A word in quotes ends at the second of them. -/
theorem firstWord_quoted
    {word : List Char}
    (hQuote : '\'' ∉ word)
    (rest : List Char) :
    firstWord ('\'' :: (word ++ '\'' :: rest)) = (word, rest) := by
  have hInside := bne_of_notMem hQuote
  rw [firstWord, List.takeWhile_append_of_pos hInside,
    List.dropWhile_append_of_pos hInside]
  simp

/- A spelled word is the first one in front of a blank or of
   nothing. -/
theorem firstWord_wordText
    {w : String}
    (hQuote : '\'' ∉ w.toList)
    {rest : List Char}
    (hRest : ∀ c ∈ rest.head?, c = ' ') :
    firstWord ((wordText w).toList ++ rest) =
      (w.toList, rest) := by
  cases hBare : isBareWord w with
  | true =>
      rcases isBareWord_iff.mp hBare with ⟨hSome, hNone⟩
      have hBlank : ' ' ∉ w.toList := by
        intro hMem
        exact absurd (hNone ' ' hMem) (by decide)
      rw [wordText, if_pos hBare]
      exact firstWord_bare hSome hQuote hBlank hRest
  | false =>
      rw [toList_wordText_of_quoted hBare, List.cons_append,
        List.append_assoc, List.singleton_append]
      exact firstWord_quoted hQuote rest

------------------------------------------------------------
-- All Words
------------------------------------------------------------

theorem wordsOf_nil : wordsOf [] = [] := by
  rw [wordsOf]

theorem wordsOf_blank
    {c : Char}
    (h : Text.isBlank c = true)
    (s : List Char) : wordsOf (c :: s) = wordsOf s := by
  rw [wordsOf, dif_pos h]

theorem wordsOf_cons
    {c : Char}
    (h : Text.isBlank c = false)
    (s : List Char) :
    wordsOf (c :: s) =
      (firstWord (c :: s)).1
        :: wordsOf (Text.trimStart (firstWord (c :: s)).2) := by
  rw [wordsOf, dif_neg (by simp [h])]

theorem wordsOf_trimStart (s : List Char) :
    wordsOf (Text.trimStart s) = wordsOf s := by
  unfold Text.trimStart
  induction s with
  | nil => rfl
  | cons c s ih =>
      cases hBlank : Text.isBlank c with
      | true =>
          rw [List.dropWhile_cons_of_pos hBlank, ih,
            wordsOf_blank hBlank]
      | false =>
          rw [List.dropWhile_cons_of_neg (by simp [hBlank])]

/- A spelled word is read, whatever stands behind it. -/
theorem wordsOf_wordText
    {w : String}
    (hQuote : '\'' ∉ w.toList)
    {rest : List Char}
    (hRest : ∀ c ∈ rest.head?, c = ' ') :
    wordsOf ((wordText w).toList ++ rest) =
      w.toList :: wordsOf rest := by
  have hFirst := firstWord_wordText hQuote hRest
  rcases (isSolid_wordText w).exists_cons with
    ⟨c, s, hChars, hBlank⟩
  rw [hChars, List.cons_append] at hFirst ⊢
  rw [wordsOf_cons hBlank, hFirst, wordsOf_trimStart]

theorem wordsOf_wordsText
    {words : List String}
    (hQuotes : ∀ w ∈ words, '\'' ∉ w.toList) :
    wordsOf (wordsText words).toList = words.map String.toList := by
  induction words with
  | nil => exact wordsOf_nil
  | cons w words ih =>
      rw [List.forall_mem_cons] at hQuotes
      have hRest := ih hQuotes.2
      cases words with
      | nil =>
          have hOne : wordsOf ((wordText w).toList ++ []) =
              w.toList :: wordsOf [] :=
            wordsOf_wordText hQuotes.1 nofun
          rw [List.append_nil, wordsOf_nil] at hOne
          exact hOne
      | cons v words =>
          rw [toList_wordsText_cons_cons, wordsOf_wordText hQuotes.1,
            wordsOf_blank rfl, hRest]
          · rfl
          · intro c hc
            exact (Option.some.inj hc).symm

------------------------------------------------------------
-- The Search
------------------------------------------------------------

/- The words that are found so far, and what is left. -/
structure WordSearch where
  found : List String
  left : List Char
  deriving DecidableEq, Repr, Inhabited

namespace WordSearch

/- The search begins with the text between its outer blanks. -/
def start (param : String) : WordSearch where
  found := []
  left := Text.trim param.toList

/- A round takes the first word and the blanks behind it. -/
def next (x : WordSearch) : WordSearch where
  found := x.found ++ [String.ofList (firstWord x.left).1]
  left := Text.trimStart (firstWord x.left).2

/-
  A search that ends after a number of rounds.  There is a
  further round as long as something is left.
-/
inductive Ends : WordSearch → Nat → WordSearch → Prop
  | here {x : WordSearch} (h : x.left = []) : Ends x 0 x
  | round
      {x y : WordSearch}
      {n : Nat}
      (h : x.left ≠ [])
      (hRest : Ends x.next n y) : Ends x (n + 1) y

variable {x y z : WordSearch}
variable {n m : Nat}

/- A search has one end. -/
theorem Ends.unique
    (h : x.Ends n y)
    (h' : x.Ends m z) : n = m ∧ y = z := by
  induction h generalizing m with
  | here hNone =>
      cases h' with
      | here => exact ⟨rfl, rfl⟩
      | round hSome => exact absurd hNone hSome
  | round hSome _ ih =>
      cases h' with
      | here hNone => exact absurd hNone hSome
      | round _ hRest =>
          rcases ih hRest with ⟨hRounds, hSame⟩
          exact ⟨congrArg _ hRounds, hSame⟩

/- What is left starts with no blank. -/
def IsTight (x : WordSearch) : Prop :=
  ∀ c ∈ x.left.head?, Text.isBlank c = false

theorem isTight_start (param : String) : (start param).IsTight :=
  (Text.isTrimmed_trim param.toList).first

theorem isTight_next (x : WordSearch) : x.next.IsTight :=
  fun _ hc => Text.head_of_dropWhile hc

theorem IsTight.length_next_lt
    (h : x.IsTight)
    (hSome : x.left ≠ []) :
    x.next.left.length < x.left.length := by
  rcases List.exists_cons_of_ne_nil hSome with ⟨c, s, hLeft⟩
  have hBlank : Text.isBlank c = false := h c (by rw [hLeft]; rfl)
  unfold next
  rw [hLeft]
  exact length_trimStart_firstWord_lt hBlank

/- No search has more rounds than characters to look at. -/
theorem Ends.le_length
    (h : x.Ends n y)
    (hTight : x.IsTight) : n ≤ x.left.length := by
  induction h with
  | here => exact Nat.zero_le _
  | @round x y n hSome hRest ih =>
      have hLess := hTight.length_next_lt hSome
      have hRounds := ih x.isTight_next
      omega

/- Every search ends, with the words of what is left. -/
theorem ends_wordsOf (h : x.IsTight) :
    x.Ends (wordsOf x.left).length
      { found := x.found ++ (wordsOf x.left).map String.ofList
        left := [] } := by
  -- on the length of what is left, which a round makes less
  induction hLength : x.left.length using Nat.strongRecOn
    generalizing x with
  | ind length ih =>
      by_cases hSome : x.left = []
      · rw [hSome, wordsOf_nil, List.map_nil, List.append_nil,
          ← hSome]
        exact .here hSome
      · have hLess := h.length_next_lt hSome
        rw [hLength] at hLess
        have hRest := ih _ hLess x.isTight_next rfl
        rcases List.exists_cons_of_ne_nil hSome with ⟨c, s, hLeft⟩
        have hBlank : Text.isBlank c = false :=
          h c (by rw [hLeft]; rfl)
        have hWords : wordsOf x.left =
            (firstWord x.left).1 :: wordsOf x.next.left := by
          rw [hLeft, wordsOf_cons hBlank, ← hLeft]
          rfl
        rw [hWords, List.length_cons, List.map_cons,
          List.append_cons]
        exact .round hSome hRest

theorem length_start_le (param : String) :
    (start param).left.length ≤ param.toList.length := by
  rcases Text.exists_dropEndWhile_append Text.isBlank
      (param.toList.dropWhile Text.isBlank) with ⟨more, hMore⟩
  have hFront :=
    Text.length_dropWhile_le Text.isBlank param.toList
  rw [← hMore, List.length_append] at hFront
  exact Nat.le_of_add_right_le hFront

/- The search in a parameter has one end: the listed words. -/
theorem start_ends_iff (param : String) :
    (start param).Ends n y ↔
      n = (listedWords param).length
        ∧ y = { found := listedWords param, left := [] } := by
  have hEnds := ends_wordsOf (isTight_start param)
  have hCount : (wordsOf (start param).left).length =
      (listedWords param).length := by
    rw [listedWords, List.length_map]
    rfl
  rw [hCount] at hEnds
  constructor
  · exact fun h => h.unique hEnds
  · rintro ⟨rfl, rfl⟩
    exact hEnds

end WordSearch

------------------------------------------------------------
-- Listed Words
------------------------------------------------------------

theorem listedWords_of_unquoted
    {words : List String}
    (hQuotes : ∀ w ∈ words, '\'' ∉ w.toList) :
    listedWords (wordsText words) = words := by
  have hTrimmed : Text.trim (wordsText words).toList =
      (wordsText words).toList := by
    cases words with
    | nil => rfl
    | cons w words => exact (isSolid_wordsText w words).trimmed.trim_eq
  rw [listedWords, hTrimmed, wordsOf_wordsText hQuotes,
    List.map_map]
  simp

/- Words that a rule lists are the texts that it allows. -/
theorem effect_oneof_text
    {param : String}
    (hSome : listedWords param ≠ []) :
    Rule.effect { name := "oneof", param := some param } .text =
      .oneOf ((listedWords param).map .text) := by
  have hPassed : "oneof" ∉ passedOver := by decide
  have hBound : "oneof" ∉ boundNames := by decide
  simp [Rule.effect, oneOfEffect, hPassed, hBound, hSome]

/-
  Words without single quotes come back from the text that
  lists them, so a rule with this text allows exactly them.
  On every text the search for words ends, after no more
  rounds than there are characters, and in no other way than
  with the words that are listed.
-/
theorem listedWords_wordsText :
    (∀ words : List String, (∀ w ∈ words, '\'' ∉ w.toList) →
      listedWords (wordsText words) = words
        ∧ (words ≠ [] →
          Rule.effect
              { name := "oneof", param := some (wordsText words) }
              .text =
            .oneOf (words.map .text)))
      ∧ ∀ param : String,
        (listedWords param).length ≤ param.toList.length
          ∧ ∀ n y, (WordSearch.start param).Ends n y ↔
            n = (listedWords param).length
              ∧ y = { found := listedWords param, left := [] } := by
  refine ⟨?words, ?ends⟩
  case words =>
    intro words hQuotes
    have hWords := listedWords_of_unquoted hQuotes
    refine ⟨hWords, fun hSome => ?_⟩
    rw [effect_oneof_text (by rwa [hWords]), hWords]
  case ends =>
    intro param
    have hEnds := (WordSearch.start_ends_iff param).mpr ⟨rfl, rfl⟩
    have hRounds :=
      hEnds.le_length (WordSearch.isTight_start param)
    exact ⟨Nat.le_trans hRounds (WordSearch.length_start_le param),
      fun _ _ => WordSearch.start_ends_iff param⟩

/- Words with blanks at all places, and one without characters. -/
def looseWords : List String :=
  ["", "in stock", " ", "sold", "\t", "a\"b ", "\u00a0x"]

theorem listedWords_wordsText_loose :
    (∀ w ∈ looseWords, '\'' ∉ w.toList)
      ∧ wordsText looseWords =
        "'' 'in stock' ' ' sold '\t' 'a\"b ' '\u00a0x'"
      ∧ listedWords (wordsText looseWords) = looseWords := by
  have hQuotes : ∀ w ∈ looseWords, '\'' ∉ w.toList := by decide
  exact ⟨hQuotes, by decide,
    (listedWords_wordsText.1 looseWords hQuotes).1⟩

end WireSchema
