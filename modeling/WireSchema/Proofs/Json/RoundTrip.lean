import Mathlib.Data.List.DropRight
import Mathlib.Tactic.SplitIfs
import WireSchema.Json.Printer
import WireSchema.Json.Reader
import WireSchema.Proofs.Json.Numeral

/-
  Documents are read back from their indented texts.

  Each character of a string is read back from its escape, so
  the whole string is, up to the quote that closes it.  A value
  is read up to the end of its text, whatever follows.  Twice
  the length of the text is enough for the reading, and a value
  that nests no deeper than is allowed is read back.

  Key definitions include:
    * `Json.readString?_escaped`
    * `Json.Prints`, `Json.depth`
    * `Json.IsRead`
    * `Json.parse?_pretty`
-/

namespace WireSchema

namespace Json

------------------------------------------------------------
-- Quoted Strings
------------------------------------------------------------

/- The four digits of a control character denote it. -/
theorem hexWord?_control
    {n : Nat}
    (h : n < 0x20) :
    hexWord? (hexChar (n / 4096 % 16)) (hexChar (n / 256 % 16))
      (hexChar (n / 16 % 16)) (hexChar (n % 16)) = some n := by
  revert n
  decide

/- A character that stands for itself is read as it is. -/
theorem readString?_plain
    {c : Char}
    (hQuote : c ≠ '"')
    (hSlash : c ≠ '\\')
    (hPrints : ¬c.toNat < 0x20)
    (rest : List Char) :
    readString? (c :: rest) =
      (readString? rest).map (ReadString.cons c) := by
  have hTaken : ¬(c.toNat < 0x20 ∨ c = '\\') :=
    not_or.mpr ⟨hPrints, hSlash⟩
  rw [readString?.eq_def]
  split
  · next h => cases h
  · next h => exact absurd (List.cons.inj h).1 hQuote
  · next h => exact absurd (List.cons.inj h).1 hSlash
  · next h => exact absurd (List.cons.inj h).1 hSlash
  · next h =>
      cases h
      rw [if_neg hTaken]

theorem readString?_short
    {c e : Char}
    (hShort : shortEscape? c = some e)
    (rest : List Char) :
    readString? ('\\' :: c :: rest) =
      (readString? rest).map (ReadString.cons e) := by
  have hPlain : c ≠ 'u' := by
    rintro rfl
    cases hShort
  rw [readString?.eq_def]
  simp [hPlain, hShort]

/- A control character is read from its number. -/
theorem readString?_unicodeEscape
    {c : Char}
    (hControl : c.toNat < 0x20)
    (rest : List Char) :
    readString? (unicodeEscape c ++ rest) =
      (readString? rest).map (ReadString.cons c) := by
  have hHigh : isHighSurrogate c.toNat = false := by
    unfold isHighSurrogate
    simp
    omega
  have hLow : isLowSurrogate c.toNat = false := by
    unfold isLowSurrogate
    simp
    omega
  unfold unicodeEscape
  simp only [List.cons_append, List.nil_append]
  rw [readString?.eq_def]
  simp only [hexWord?_control hControl, hHigh, hLow,
    Char.ofNat_toNat]
  simp

/- Each character is read back from its escape. -/
theorem readString?_escapeChar (c : Char) (rest : List Char) :
    readString? (escapeChar c ++ rest) =
      (readString? rest).map (ReadString.cons c) := by
  unfold escapeChar
  split_ifs with hQuote hSlash hBack hFeed hLine hReturn hTab
    hControl
  · rw [hQuote]
    exact readString?_short rfl rest
  · rw [hSlash]
    exact readString?_short rfl rest
  · rw [hBack]
    exact readString?_short rfl rest
  · rw [hFeed]
    exact readString?_short rfl rest
  · rw [hLine]
    exact readString?_short rfl rest
  · rw [hReturn]
    exact readString?_short rfl rest
  · rw [hTab]
    exact readString?_short rfl rest
  · exact readString?_unicodeEscape hControl rest
  · exact readString?_plain hQuote hSlash hControl rest

/- A string is read back from its characters' escapes. -/
theorem readString?_escaped (s rest : List Char) :
    readString? (s.flatMap escapeChar ++ '"' :: rest) =
      some (some s, rest) := by
  induction s with
  | nil => rfl
  | cons c s ih =>
      rw [List.flatMap_cons, List.append_assoc,
        readString?_escapeChar, ih]
      rfl

------------------------------------------------------------
-- Values That Can Be Read Back
------------------------------------------------------------

/- Nothing inside is unusable, and all numbers read back. -/
inductive Prints : Json → Prop where
  | null : Prints .null
  | bool (b : Bool) : Prints (.bool b)
  | number {n : JsonNumber} (h : n.ReadsBack) :
      Prints (.number n)
  | text (s : String) : Prints (.text s)
  | array {items : List Json} (h : ∀ v ∈ items, Prints v) :
      Prints (.array items)
  | object {members : List (String × Json)}
      (h : ∀ m ∈ members, Prints m.2) : Prints (.object members)

mutual

/- How deep arrays and objects nest. -/
def depth : Json → Nat
  | .array items => depthItems items + 1
  | .object members => depthMembers members + 1
  | _ => 0

def depthItems : List Json → Nat
  | [] => 0
  | v :: rest => max (depth v) (depthItems rest)

def depthMembers : List (String × Json) → Nat
  | [] => 0
  | (_, v) :: rest => max (depth v) (depthMembers rest)

end

theorem depthItems_le_iff
    {items : List Json}
    {n : Nat} :
    depthItems items ≤ n ↔ ∀ v ∈ items, v.depth ≤ n := by
  induction items with
  | nil => simp [depthItems]
  | cons v rest ih => simp [depthItems, ih]

theorem depthMembers_le_iff
    {members : List (String × Json)}
    {n : Nat} :
    depthMembers members ≤ n ↔ ∀ m ∈ members, m.2.depth ≤ n := by
  induction members with
  | nil => simp [depthMembers]
  | cons m rest ih => simp [depthMembers, ih]

theorem depth_array_le_iff
    {items : List Json}
    {n : Nat} :
    (array items).depth ≤ n + 1 ↔ ∀ v ∈ items, v.depth ≤ n := by
  rw [depth, Nat.add_le_add_iff_right, depthItems_le_iff]

theorem depth_object_le_iff
    {members : List (String × Json)}
    {n : Nat} :
    (object members).depth ≤ n + 1 ↔
      ∀ m ∈ members, m.2.depth ≤ n := by
  rw [depth, Nat.add_le_add_iff_right, depthMembers_le_iff]

theorem areSound_iff {items : List Json} :
    areSound items = true ↔ ∀ v ∈ items, v.isSound = true := by
  induction items with
  | nil => simp [areSound]
  | cons v rest ih => simp [areSound, ih]

theorem haveSound_iff {members : List (String × Json)} :
    haveSound members = true ↔
      ∀ m ∈ members, m.2.isSound = true := by
  induction members with
  | nil => simp [haveSound]
  | cons m rest ih => simp [haveSound, ih]

/- What can be read back is usable. -/
theorem Prints.isSound
    {v : Json}
    (h : Prints v) : v.isSound = true := by
  induction h with
  | array _ ih =>
      rw [Json.isSound]
      exact areSound_iff.mpr ih
  | object _ ih =>
      rw [Json.isSound]
      exact haveSound_iff.mpr ih
  | _ => rfl

------------------------------------------------------------
-- Blanks
------------------------------------------------------------

variable {fuel level bound : Nat}
variable {s t rest : List Char}

theorem skipSpace_indent (level : Nat) (s : List Char) :
    skipSpace ((indentText level).toList ++ s) = skipSpace s := by
  unfold indentText skipSpace
  rw [String.toList_ofList, List.dropWhile_append_of_pos]
  intro c hc
  rw [List.eq_of_mem_replicate hc]
  rfl

theorem skipSpace_newline (s : List Char) :
    skipSpace ('\n' :: s) = skipSpace s :=
  rfl

theorem skipSpace_of_not_space
    {c : Char}
    (h : isSpace c = false)
    (s : List Char) : skipSpace (c :: s) = c :: s := by
  unfold skipSpace
  rw [List.dropWhile_cons_of_neg (by simp [h])]

/- Blanks in front of a value do not count. -/
theorem readValue?_skip
    (h : skipSpace s = skipSpace t)
    (fuel bound : Nat) :
    readValue? fuel bound s = readValue? fuel bound t := by
  cases fuel with
  | zero => rfl
  | succ fuel => unfold readValue?; rw [h]

theorem readValue?_blank (s : List Char) (fuel bound : Nat) :
    readValue? fuel bound (' ' :: s) = readValue? fuel bound s := by
  have hSkip : skipSpace (' ' :: s) = skipSpace s := rfl
  exact readValue?_skip hSkip fuel bound

theorem skipSpace_skipSpace (s : List Char) :
    skipSpace (skipSpace s) = skipSpace s :=
  List.dropWhile_idempotent isSpace s

------------------------------------------------------------
-- Reading One Value
------------------------------------------------------------

/-
  A value is read from its text, wherever it stands, as long
  as what follows does not go on with a numeral.
-/
def IsRead (v : Json) : Prop :=
  ∀ (level fuel bound : Nat) (rest : List Char),
    v.depth ≤ bound → EndsNumeral rest →
    2 * (prettyAt level v).toList.length ≤ fuel →
      readValue? fuel bound ((prettyAt level v).toList ++ rest) =
        some (v, rest)

theorem readValue?_numeral
    {c : Char}
    {p : ReadNumeral}
    (h : readNumeral? (c :: s) = some p) :
    readValue? (fuel + 1) bound (c :: s) =
      some ((p.1.map Json.number).getD .unusable, p.2) := by
  have hNot : ∀ d : Char, d ≠ '-' → d.isDigit = false → c ≠ d := by
    rintro d hMinus hDigit rfl
    rcases head_of_readNumeral? h with hHead | hHead
    · exact hMinus hHead
    · rw [hHead] at hDigit
      cases hDigit
  have hSpace : isSpace c = false := by
    simp [isSpace, hNot ' ', hNot '\n', hNot '\t', hNot '\r']
  unfold readValue?
  rw [skipSpace_of_not_space hSpace]
  split
  · next hText => cases hText
  · next hText =>
      exact absurd (List.cons.inj hText).1
        (hNot '"' (by decide) (by decide))
  · next hText =>
      exact absurd (List.cons.inj hText).1
        (hNot '[' (by decide) (by decide))
  · next hText =>
      exact absurd (List.cons.inj hText).1
        (hNot '{' (by decide) (by decide))
  · next hText =>
      exact absurd (List.cons.inj hText).1
        (hNot 'n' (by decide) (by decide))
  · next hText =>
      exact absurd (List.cons.inj hText).1
        (hNot 't' (by decide) (by decide))
  · next hText =>
      exact absurd (List.cons.inj hText).1
        (hNot 'f' (by decide) (by decide))
  · next hText =>
      cases hText
      rw [h]
      rfl

/- A value with the same text at every level. -/
theorem isRead_of_text
    {v : Json}
    (text : String)
    (hText : ∀ level, prettyAt level v = text)
    (hSome : text.toList ≠ [])
    (hRead : ∀ fuel bound rest, EndsNumeral rest →
      readValue? (fuel + 1) bound (text.toList ++ rest) =
        some (v, rest)) :
    IsRead v := by
  intro level fuel bound rest _ hEnds hFuel
  have hLength := List.length_pos_iff.mpr hSome
  rw [hText] at hFuel ⊢
  rcases Nat.exists_eq_succ_of_ne_zero (n := fuel) (by omega)
    with ⟨fuel, rfl⟩
  exact hRead fuel bound rest hEnds

theorem isRead_null : IsRead .null := by
  apply isRead_of_text "null"
  · intro level
    rw [prettyAt]
  · decide
  · intro fuel bound rest _
    rfl

theorem isRead_bool (b : Bool) : IsRead (.bool b) := by
  cases b with
  | false =>
      apply isRead_of_text "false"
      · intro level
        rw [prettyAt]
        rfl
      · decide
      · intro fuel bound rest _
        rfl
  | true =>
      apply isRead_of_text "true"
      · intro level
        rw [prettyAt]
        rfl
      · decide
      · intro fuel bound rest _
        rfl

theorem isRead_number
    {n : JsonNumber}
    (h : n.ReadsBack) : IsRead (.number n) := by
  have hSome : (numberText n).toList ≠ [] := by
    intro hNil
    rw [JsonNumber.ReadsBack, hNil] at h
    cases h
  apply isRead_of_text (numberText n)
  · intro level
    rw [prettyAt]
  · exact hSome
  · intro fuel bound rest hEnds
    have hRead := readNumeral?_append hEnds h
    cases hText : (numberText n).toList with
    | nil => exact absurd hText hSome
    | cons c s =>
        rw [hText] at hRead
        exact readValue?_numeral hRead

theorem toList_quoteText (s : String) :
    (quoteText s).toList =
      '"' :: (s.toList.flatMap escapeChar ++ ['"']) := by
  unfold quoteText
  rw [String.toList_ofList]

theorem toList_quoteText_append (s : String) (rest : List Char) :
    (quoteText s).toList ++ rest =
      '"' :: (s.toList.flatMap escapeChar ++ '"' :: rest) := by
  rw [toList_quoteText, List.cons_append, List.append_assoc]
  rfl

theorem isRead_text (s : String) : IsRead (.text s) := by
  apply isRead_of_text (quoteText s)
  · intro level
    rw [prettyAt]
  · rw [toList_quoteText]
    exact List.cons_ne_nil _ _
  · intro fuel bound rest _
    rw [toList_quoteText_append]
    unfold readValue?
    rw [skipSpace_of_not_space rfl]
    simp [readString?_escaped]

------------------------------------------------------------
-- Reading Many Values
------------------------------------------------------------

/- What closes an array or an object behind its last value. -/
structure Closes (mark : Char) (close rest : List Char) :
    Prop where
  ends : EndsNumeral close
  skip : skipSpace close = mark :: rest

theorem endsNumeral_comma (s : List Char) :
    EndsNumeral (',' :: s) :=
  endsNumeral_cons rfl (by decide) (by decide) (by decide)

theorem closes_indent
    (mark : Char)
    (hMark : isSpace mark = false)
    (level : Nat)
    (rest : List Char) :
    Closes mark
      ('\n' :: ((indentText level).toList ++ mark :: rest))
      rest where
  ends :=
    endsNumeral_cons rfl (by decide) (by decide) (by decide)
  skip := by
    rw [skipSpace_newline, skipSpace_indent,
      skipSpace_of_not_space hMark]

theorem length_indentText (level : Nat) :
    (indentText level).toList.length = 2 * level := by
  unfold indentText
  rw [String.toList_ofList, List.length_replicate]

/- A value that stands on a line of its own. -/
theorem IsRead.indented
    {v : Json}
    (h : IsRead v)
    (hDepth : v.depth ≤ bound)
    (hEnds : EndsNumeral rest)
    (hFuel : 2 * (prettyAt level v).toList.length ≤ fuel) :
    readValue? fuel bound
        ((indentText level).toList
          ++ ((prettyAt level v).toList ++ rest)) =
      some (v, rest) := by
  rw [readValue?_skip (skipSpace_indent level _)]
  exact h level fuel bound rest hDepth hEnds hFuel

theorem readItems?_skip
    (h : skipSpace s = skipSpace t)
    (fuel bound : Nat) :
    readItems? fuel bound s = readItems? fuel bound t := by
  cases fuel with
  | zero => rfl
  | succ fuel =>
      unfold readItems?
      rw [readValue?_skip h]

theorem readItems?_last
    {v : Json}
    (hFirst : readValue? fuel bound s = some (v, t))
    (hSkip : skipSpace t = ']' :: rest) :
    readItems? (fuel + 1) bound s = some ([v], rest) := by
  unfold readItems?
  simp only [hFirst, hSkip]

theorem readItems?_more
    {v : Json}
    {items : List Json}
    {u : List Char}
    (hFirst : readValue? fuel bound s = some (v, t))
    (hSkip : skipSpace t = ',' :: u)
    (hMore : readItems? fuel bound u = some (items, rest)) :
    readItems? (fuel + 1) bound s =
      some (v :: items, rest) := by
  unfold readItems?
  simp only [hFirst, hSkip, hMore, Option.map_some]

/- The items of an array are read one after the other. -/
theorem readItems?_pretty
    {items : List Json}
    (hSome : items ≠ [])
    (hRead : ∀ v ∈ items, IsRead v)
    (hDepth : ∀ v ∈ items, v.depth ≤ bound)
    {close : List Char}
    (hClose : Closes ']' close rest)
    (hFuel :
      2 * (prettyItems (level + 1) items).toList.length ≤ fuel) :
    readItems? fuel bound
        ((prettyItems (level + 1) items).toList ++ close) =
      some (items, rest) := by
  induction items generalizing fuel with
  | nil => exact absurd rfl hSome
  | cons v more ih =>
      rw [List.forall_mem_cons] at hRead hDepth
      have hIndent := length_indentText (level + 1)
      cases more with
      | nil =>
          rw [prettyItems] at hFuel ⊢
          simp only [String.toList_append,
            List.length_append, List.append_assoc] at hFuel ⊢
          rcases Nat.exists_eq_succ_of_ne_zero (n := fuel)
            (by omega) with ⟨fuel, rfl⟩
          have hLine :
              2 * (prettyAt (level + 1) v).toList.length
                ≤ fuel := by
            omega
          have hFirst :=
            hRead.1.indented hDepth.1 hClose.ends hLine
          exact readItems?_last hFirst hClose.skip
      | cons w more =>
          rw [prettyItems] at hFuel ⊢
          simp only [String.toList_append,
            List.length_append, List.append_assoc] at hFuel ⊢
          rcases Nat.exists_eq_succ_of_ne_zero (n := fuel)
            (by omega) with ⟨fuel, rfl⟩
          have hLine :
              2 * (prettyAt (level + 1) v).toList.length
                ≤ fuel := by
            omega
          have hMore :
              2 * (prettyItems (level + 1)
                (w :: more)).toList.length ≤ fuel := by
            omega
          have hFirst := hRead.1.indented hDepth.1
            (endsNumeral_comma
              ('\n' :: ((prettyItems (level + 1)
                (w :: more)).toList ++ close))) hLine
          have hRest := ih (List.cons_ne_nil w more) hRead.2
            hDepth.2 hMore
          rw [← readItems?_skip (skipSpace_newline _)] at hRest
          exact readItems?_more hFirst
            (skipSpace_of_not_space rfl _) hRest

theorem readMembers?_skip
    (h : skipSpace s = skipSpace t)
    (fuel bound : Nat) :
    readMembers? fuel bound s = readMembers? fuel bound t := by
  cases fuel with
  | zero => rfl
  | succ fuel =>
      unfold readMembers?
      rw [h]

/- A name with the value behind it. -/
theorem readMembers?_last
    {name : String}
    {v : Json}
    {u : List Char}
    (hName : skipSpace s =
      '"' :: (name.toList.flatMap escapeChar
        ++ '"' :: ':' :: ' ' :: u))
    (hFirst : readValue? fuel bound u = some (v, t))
    (hSkip : skipSpace t = '}' :: rest) :
    readMembers? (fuel + 1) bound s =
      some ([(some name, v)], rest) := by
  have hColon : skipSpace (':' :: ' ' :: u) = ':' :: ' ' :: u :=
    skipSpace_of_not_space rfl _
  have hBlank : readValue? fuel bound (' ' :: u) = some (v, t) :=
    (readValue?_blank u fuel bound).trans hFirst
  unfold readMembers?
  simp only [hName, readString?_escaped, hColon, hBlank, hSkip,
    Option.map_some, String.ofList_toList]

theorem readMembers?_more
    {name : String}
    {v : Json}
    {u w : List Char}
    {members : List (Option String × Json)}
    (hName : skipSpace s =
      '"' :: (name.toList.flatMap escapeChar
        ++ '"' :: ':' :: ' ' :: u))
    (hFirst : readValue? fuel bound u = some (v, t))
    (hSkip : skipSpace t = ',' :: w)
    (hMore : readMembers? fuel bound w = some (members, rest)) :
    readMembers? (fuel + 1) bound s =
      some ((some name, v) :: members, rest) := by
  have hColon : skipSpace (':' :: ' ' :: u) = ':' :: ' ' :: u :=
    skipSpace_of_not_space rfl _
  have hBlank : readValue? fuel bound (' ' :: u) = some (v, t) :=
    (readValue?_blank u fuel bound).trans hFirst
  unfold readMembers?
  simp only [hName, readString?_escaped, hColon, hBlank, hSkip,
    hMore, Option.map_some, String.ofList_toList]

theorem skipSpace_member
    (name : String)
    (s : List Char) :
    skipSpace
        ((indentText level).toList
          ++ ((quoteText name).toList ++ (": ".toList ++ s))) =
      '"' :: (name.toList.flatMap escapeChar
        ++ '"' :: ':' :: ' ' :: s) := by
  rw [skipSpace_indent, toList_quoteText_append,
    skipSpace_of_not_space rfl]
  rfl

/- The members of an object are read one after the other. -/
theorem readMembers?_pretty
    {members : List (String × Json)}
    (hSome : members ≠ [])
    (hRead : ∀ m ∈ members, IsRead m.2)
    (hDepth : ∀ m ∈ members, m.2.depth ≤ bound)
    {close : List Char}
    (hClose : Closes '}' close rest)
    (hFuel :
      2 * (prettyMembers (level + 1) members).toList.length ≤
        fuel) :
    readMembers? fuel bound
        ((prettyMembers (level + 1) members).toList ++ close) =
      some (members.map fun m => (some m.1, m.2), rest) := by
  induction members generalizing fuel with
  | nil => exact absurd rfl hSome
  | cons m more ih =>
      rcases m with ⟨name, v⟩
      rw [List.forall_mem_cons] at hRead hDepth
      dsimp only at hRead hDepth
      have hIndent := length_indentText (level + 1)
      cases more with
      | nil =>
          rw [prettyMembers] at hFuel ⊢
          simp only [String.toList_append,
            List.length_append, List.append_assoc] at hFuel ⊢
          rcases Nat.exists_eq_succ_of_ne_zero (n := fuel)
            (by omega) with ⟨fuel, rfl⟩
          have hFirst := hRead.1 (level + 1) fuel bound close
            hDepth.1 hClose.ends (by omega)
          exact readMembers?_last (skipSpace_member name _) hFirst
            hClose.skip
      | cons w more =>
          rw [prettyMembers] at hFuel ⊢
          simp only [String.toList_append,
            List.length_append, List.append_assoc] at hFuel ⊢
          rcases Nat.exists_eq_succ_of_ne_zero (n := fuel)
            (by omega) with ⟨fuel, rfl⟩
          have hFirst := hRead.1 (level + 1) fuel bound
            (',' :: '\n' ::
              ((prettyMembers (level + 1) (w :: more)).toList
                ++ close))
            hDepth.1 (endsNumeral_comma _) (by omega)
          have hMore :
              2 * (prettyMembers (level + 1)
                (w :: more)).toList.length ≤ fuel := by
            omega
          have hRest := ih (List.cons_ne_nil w more) hRead.2
            hDepth.2 hMore
          rw [← readMembers?_skip (skipSpace_newline _)] at hRest
          exact readMembers?_more (skipSpace_member name _) hFirst
            (skipSpace_of_not_space rfl _) hRest

------------------------------------------------------------
-- Reading Documents
------------------------------------------------------------

/- What is read as an item does not close an array. -/
theorem skipSpace_ne_of_readItems?
    {items : List Json}
    (hRead : readItems? fuel bound s = some (items, rest)) :
    ∀ t, skipSpace s ≠ ']' :: t := by
  intro t hSkip
  cases fuel with
  | zero => cases hRead
  | succ fuel =>
      unfold readItems? at hRead
      cases fuel with
      | zero => cases hRead
      | succ fuel =>
          unfold readValue? at hRead
          rw [hSkip] at hRead
          simp [readNumeral?] at hRead

theorem skipSpace_ne_of_readMembers?
    {members : List (Option String × Json)}
    (hRead : readMembers? fuel bound s = some (members, rest)) :
    ∀ t, skipSpace s ≠ '}' :: t := by
  intro t hSkip
  cases fuel with
  | zero => cases hRead
  | succ fuel =>
      unfold readMembers? at hRead
      rw [hSkip] at hRead
      simp at hRead

theorem readValue?_array
    {items : List Json}
    (hRead : readItems? fuel bound s = some (items, rest)) :
    readValue? (fuel + 1) (bound + 1) ('[' :: s) =
      some (.array items, rest) := by
  have hSkip := skipSpace_ne_of_readItems? hRead
  rw [← readItems?_skip (skipSpace_skipSpace s)] at hRead
  unfold readValue?
  simp only [skipSpace_of_not_space (c := '[') rfl]
  rw [Nat.add_sub_cancel, hRead]
  rfl

/- Names that are all there make an object. -/
theorem objectOf_some (members : List (String × Json)) :
    objectOf (members.map fun m => (some m.1, m.2)) =
      .object members := by
  have hNames :
      (members.map fun m => (some m.1, m.2)).mapM
          (fun m : Option String × Json =>
            m.1.map fun name => (name, m.2)) =
        some members := by
    induction members with
    | nil => rfl
    | cons m rest ih => simp [List.mapM_cons, ih]
  unfold objectOf
  simp only [hNames]

theorem readValue?_object
    {members : List (String × Json)}
    (hRead : readMembers? fuel bound s =
      some (members.map fun m => (some m.1, m.2), rest)) :
    readValue? (fuel + 1) (bound + 1) ('{' :: s) =
      some (.object members, rest) := by
  have hSkip := skipSpace_ne_of_readMembers? hRead
  rw [← readMembers?_skip (skipSpace_skipSpace s)] at hRead
  unfold readValue?
  simp only [skipSpace_of_not_space (c := '{') rfl]
  rw [Nat.add_sub_cancel, hRead, Option.map_some, objectOf_some]
  rfl

/- What is not shallow has a level to go down. -/
theorem exists_succ_of_depth
    {v : Json}
    {n bound : Nat}
    (hDepth : v.depth ≤ bound)
    (hNested : v.depth = n + 1) : ∃ m, bound = m + 1 :=
  Nat.exists_eq_succ_of_ne_zero (by omega)

theorem isRead_array
    {items : List Json}
    (h : ∀ v ∈ items, IsRead v) : IsRead (.array items) := by
  intro level fuel bound rest hDepth hEnds hFuel
  rcases exists_succ_of_depth hDepth (by rw [depth])
    with ⟨bound, rfl⟩
  have hItems := depth_array_le_iff.mp hDepth
  cases items with
  | nil =>
      rw [prettyAt] at hFuel ⊢
      rcases Nat.exists_eq_succ_of_ne_zero (n := fuel)
        (by rintro rfl; cases hFuel) with ⟨fuel, rfl⟩
      rfl
  | cons v more =>
      rw [prettyAt] at hFuel ⊢
      have hOpen : "[\n".toList.length = 2 := rfl
      simp only [String.toList_append, List.length_append,
        List.append_assoc, hOpen] at hFuel ⊢
      rcases Nat.exists_eq_succ_of_ne_zero (n := fuel)
        (by omega) with ⟨fuel, rfl⟩
      have hClose := closes_indent ']' rfl level rest
      have hLines :
          2 * (prettyItems (level + 1) (v :: more)).toList.length
            ≤ fuel := by
        omega
      have hRead := readItems?_pretty (List.cons_ne_nil v more)
        h hItems hClose hLines
      rw [← readItems?_skip (skipSpace_newline _)] at hRead
      exact readValue?_array hRead

theorem isRead_object
    {members : List (String × Json)}
    (h : ∀ m ∈ members, IsRead m.2) :
    IsRead (.object members) := by
  intro level fuel bound rest hDepth hEnds hFuel
  rcases exists_succ_of_depth hDepth (by rw [depth])
    with ⟨bound, rfl⟩
  have hMembers := depth_object_le_iff.mp hDepth
  cases members with
  | nil =>
      rw [prettyAt] at hFuel ⊢
      rcases Nat.exists_eq_succ_of_ne_zero (n := fuel)
        (by rintro rfl; cases hFuel) with ⟨fuel, rfl⟩
      rfl
  | cons m more =>
      rw [prettyAt] at hFuel ⊢
      have hOpen : "\x7b\n".toList.length = 2 := rfl
      simp only [String.toList_append, List.length_append,
        List.append_assoc, hOpen] at hFuel ⊢
      rcases Nat.exists_eq_succ_of_ne_zero (n := fuel)
        (by omega) with ⟨fuel, rfl⟩
      have hClose := closes_indent '}' rfl level rest
      have hLines :
          2 * (prettyMembers (level + 1) (m :: more)).toList.length
            ≤ fuel := by
        omega
      have hRead := readMembers?_pretty (List.cons_ne_nil m more)
        h hMembers hClose hLines
      rw [← readMembers?_skip (skipSpace_newline _)] at hRead
      exact readValue?_object hRead

/- Every value that can be printed is read from its text. -/
theorem Prints.isRead
    {v : Json}
    (h : Prints v) : IsRead v := by
  induction h with
  | null => exact isRead_null
  | bool b => exact isRead_bool b
  | number h => exact isRead_number h
  | text s => exact isRead_text s
  | array _ ih => exact isRead_array ih
  | object _ ih => exact isRead_object ih

/-
  A document is read back from its indented text unless it
  nests too deeply.
-/
theorem parse?_pretty
    {v : Json}
    (h : Prints v)
    (hDepth : v.depth ≤ maxDepth) : parse? v.pretty = some v := by
  have hEnds : EndsNumeral [] := nofun
  have hRead := h.isRead 0 (2 * v.pretty.toList.length + 2)
    maxDepth [] hDepth hEnds (Nat.le_add_right _ 2)
  rw [List.append_nil] at hRead
  unfold parse?
  unfold pretty at hRead ⊢
  dsimp only
  rw [hRead]
  rfl

end Json

end WireSchema
