import WireSchema.Proofs.Source.Arithmetic

/-
  Integer literals are read as the numbers that they spell.

  A literal is decimal, or it begins with a zero that tells its
  base, with or without a letter.  Single underscores may stand
  between its digits, and between the first of them and what
  tells the base.  Each literal is read as its number, up to
  the greatest of 64 bits, whatever base and underscores it
  has.

  Key definitions include:
    * `SpelledDigits`
    * `IntLiteral`
    * `SpelledDigits.naturalOf?_eq`
    * `IntLiteral.reads_exactly`
-/

namespace WireSchema.Source

------------------------------------------------------------
-- Literals
------------------------------------------------------------

/- The characters of a digit: letters of either case stand for
   ten and more. -/
def digitChars (d : Nat) : List Char :=
  [Nat.digitChar d, (Nat.digitChar d).toUpper]

/- Where an underscore may stand. -/
def IsGap (gap : List Char) : Prop :=
  gap = [] ∨ gap = ['_']

/- Digits of a base, with the number that they spell. -/
inductive SpelledDigits (radix : Nat) : List Char → Nat → Prop
  | one
      {c : Char}
      {d : Nat}
      (hLess : d < radix)
      (hChar : c ∈ digitChars d) : SpelledDigits radix [c] d
  | more
      {s gap : List Char}
      {n d : Nat}
      {c : Char}
      (h : SpelledDigits radix s n)
      (hGap : IsGap gap)
      (hLess : d < radix)
      (hChar : c ∈ digitChars d) :
      SpelledDigits radix (s ++ gap ++ [c]) (n * radix + d)

/- The base that a letter behind a zero stands for. -/
def markedBase? : Char → Option Nat
  | 'b' | 'B' => some 2
  | 'o' | 'O' => some 8
  | 'x' | 'X' => some 16
  | _ => none

/- An integer literal, with the number that it spells. -/
inductive IntLiteral : List Char → Nat → Prop
  | zero : IntLiteral ['0'] 0
  | decimal
      {c : Char}
      {s : List Char}
      {n : Nat}
      (hFirst : c ≠ '0')
      (h : SpelledDigits 10 (c :: s) n) : IntLiteral (c :: s) n
  | marked
      {mark : Char}
      {gap s : List Char}
      {radix n : Nat}
      (hMark : markedBase? mark = some radix)
      (hGap : IsGap gap)
      (h : SpelledDigits radix s n) :
      IntLiteral ('0' :: mark :: (gap ++ s)) n
  | octal
      {gap s : List Char}
      {n : Nat}
      (hGap : IsGap gap)
      (h : SpelledDigits 8 s n) : IntLiteral ('0' :: (gap ++ s)) n

------------------------------------------------------------
-- Digits
------------------------------------------------------------

variable {radix : Nat}
variable {s gap : List Char}
variable {n d : Nat}
variable {c : Char}

/- Both characters of a digit, one by one. -/
theorem forall_mem_digitChars {P : Char → Prop} :
    (∀ c ∈ digitChars d, P c) ↔
      P (Nat.digitChar d) ∧ P (Nat.digitChar d).toUpper := by
  simp [digitChars]

theorem digitValue?_of_mem_digitChars
    (hRadix : radix ≤ 16)
    (hLess : d < radix)
    (hChar : c ∈ digitChars d) : digitValue? radix c = some d := by
  have hAll : ∀ d < 16, ∀ c ∈ digitChars d,
      digitValue? 16 c = some d := by
    simp only [forall_mem_digitChars]
    decide
  have hDigit := hAll d (by omega) c hChar
  unfold digitValue? at hDigit ⊢
  rw [Option.filter_eq_some_iff] at hDigit ⊢
  exact ⟨hDigit.1, by simpa using hLess⟩

theorem ne_of_mem_digitChars
    (hLess : d < 16)
    (hChar : c ∈ digitChars d) : c ≠ '_' := by
  have hAll : ∀ d < 16, ∀ c ∈ digitChars d, c ≠ '_' := by
    simp only [forall_mem_digitChars]
    decide
  exact hAll d hLess c hChar

/- What is left of a literal without its underscores. -/
def withoutGaps (s : List Char) : List Char :=
  s.filter fun c => c != '_'

theorem withoutGaps_append (s t : List Char) :
    withoutGaps (s ++ t) = withoutGaps s ++ withoutGaps t :=
  List.filter_append s t

theorem IsGap.withoutGaps_eq
    (h : IsGap gap) : withoutGaps gap = [] := by
  rcases h with rfl | rfl
  · rfl
  · rfl

theorem withoutGaps_cons
    (h : c ≠ '_')
    (s : List Char) : withoutGaps (c :: s) = c :: withoutGaps s :=
  List.filter_cons_of_pos (bne_iff_ne.mpr h)

theorem digitsFrom?_append
    (radix n : Nat)
    (s t : List Char) :
    digitsFrom? radix n (s ++ t) =
      (digitsFrom? radix n s).bind fun m =>
        digitsFrom? radix m t := by
  induction s generalizing n with
  | nil => rfl
  | cons c s ih =>
      rw [List.cons_append, digitsFrom?, digitsFrom?]
      cases digitValue? radix c with
      | none => rfl
      | some d => exact ih _

namespace SpelledDigits

/- Digits begin with a digit. -/
theorem exists_cons (h : SpelledDigits radix s n) :
    ∃ c t, s = c :: t ∧ ∃ d < radix, c ∈ digitChars d := by
  induction h with
  | one hLess hChar => exact ⟨_, [], rfl, _, hLess, hChar⟩
  | more _ _ _ _ ih =>
      rcases ih with ⟨c, t, rfl, hDigit⟩
      exact ⟨c, _, rfl, hDigit⟩

theorem digitsFrom?_eq
    (hRadix : radix ≤ 16)
    (h : SpelledDigits radix s n) :
    digitsFrom? radix 0 (withoutGaps s) = some n := by
  induction h with
  | @one c d hLess hChar =>
      have hValue := digitValue?_of_mem_digitChars hRadix hLess hChar
      have hPlain := ne_of_mem_digitChars (by omega) hChar
      rw [withoutGaps_cons hPlain, digitsFrom?, hValue]
      simp [withoutGaps, digitsFrom?]
  | @more s gap n d c _ hGap hLess hChar ih =>
      have hValue := digitValue?_of_mem_digitChars hRadix hLess hChar
      have hPlain := ne_of_mem_digitChars (by omega) hChar
      rw [withoutGaps_append, withoutGaps_append,
        hGap.withoutGaps_eq, List.append_nil, digitsFrom?_append,
        ih, withoutGaps_cons hPlain]
      simp [withoutGaps, digitsFrom?, hValue]

/- The digits of a base are read as what they spell. -/
theorem naturalOf?_eq
    (hRadix : radix ≤ 16)
    (h : SpelledDigits radix s n) :
    naturalOf? radix (withoutGaps s) = some n := by
  rcases h.exists_cons with ⟨c, t, rfl, d, hLess, hChar⟩
  have hPlain := ne_of_mem_digitChars (by omega) hChar
  have hDigits := h.digitsFrom?_eq hRadix
  rw [withoutGaps_cons hPlain] at hDigits ⊢
  exact hDigits

end SpelledDigits

------------------------------------------------------------
-- Signs
------------------------------------------------------------

/- What is read as a number without a sign has none. -/
theorem signedOf?_of_naturalOf?
    (h : naturalOf? radix s = some n) :
    signedOf? radix s = within64? n := by
  have hPlus : digitValue? radix '+' = none := rfl
  have hMinus : digitValue? radix '-' = none := rfl
  unfold signedOf?
  split
  · simp [naturalOf?, digitsFrom?, hPlus] at h
  · simp [naturalOf?, digitsFrom?, hMinus] at h
  · rw [h]
    rfl

theorem within64?_natCast (n : Nat) :
    within64? n = if n < 2 ^ 63 then some (n : Int) else none :=
  if_congr fits64_natCast rfl rfl

------------------------------------------------------------
-- Bases
------------------------------------------------------------

theorem ne_and_le_of_markedBase?
    (h : markedBase? c = some radix) : c ≠ '_' ∧ radix ≤ 16 := by
  unfold markedBase? at h
  split at h
  case h_7 => cases h
  all_goals
    cases h
    decide

/- No octal digit is taken for such a letter. -/
theorem markedBase?_of_mem_digitChars
    (hLess : d < 8)
    (hChar : c ∈ digitChars d) : markedBase? c = none := by
  have hAll : ∀ d < 8, ∀ c ∈ digitChars d,
      markedBase? c = none := by
    simp only [forall_mem_digitChars]
    decide
  exact hAll d hLess c hChar

/-
  The base of a number is told without its underscores: by the
  first character, or by a letter that may follow a zero.
-/
theorem intOf?_of_decimal
    {text : String}
    (hFirst : c ≠ '0')
    (hText : withoutGaps text.toList = c :: s) :
    intOf? text = signedOf? 10 (c :: s) := by
  unfold withoutGaps at hText
  unfold intOf?
  rw [hText]
  split
  case h_8 => rfl
  -- all other cases begin with a zero
  all_goals
    next hZero => exact absurd (List.cons.inj hZero).1 hFirst

theorem intOf?_of_marked
    {text : String}
    {mark : Char}
    (hMark : markedBase? mark = some radix)
    (hText : withoutGaps text.toList = '0' :: mark :: s) :
    intOf? text = signedOf? radix s := by
  unfold withoutGaps at hText
  unfold intOf?
  rw [hText]
  unfold markedBase? at hMark
  split at hMark
  case h_7 => cases hMark
  all_goals
    cases hMark
    rfl

theorem intOf?_of_octal
    {text : String}
    (hPlain : markedBase? c = none)
    (hText : withoutGaps text.toList = '0' :: c :: s) :
    intOf? text = signedOf? 8 (c :: s) := by
  unfold withoutGaps at hText
  unfold intOf?
  rw [hText]
  split
  case h_7 hZero =>
    cases hZero
    rfl
  case h_8 hNone => exact absurd rfl (hNone c s)
  -- all other cases have one of the letters behind the zero
  all_goals
    next hZero =>
      cases hZero
      cases hPlain

namespace IntLiteral

/- A literal is read as its number, if 64 bits hold it. -/
theorem intOf?_eq
    (h : IntLiteral s n) :
    intOf? (String.ofList s) = within64? n := by
  cases h with
  | zero => decide
  | @decimal c s n hFirst h =>
      have hNumber := h.naturalOf?_eq (by decide)
      rcases h.exists_cons with ⟨_, _, hCons, d, hLess, hChar⟩
      cases hCons
      have hPlain := ne_of_mem_digitChars (by omega) hChar
      rw [withoutGaps_cons hPlain] at hNumber
      rw [intOf?_of_decimal (s := withoutGaps s) hFirst
          (by rw [String.toList_ofList, withoutGaps_cons hPlain]),
        signedOf?_of_naturalOf? hNumber]
  | @marked mark gap s radix n hMark hGap h =>
      have hNumber := h.naturalOf?_eq (ne_and_le_of_markedBase? hMark).2
      rw [intOf?_of_marked (s := withoutGaps s) hMark ?_,
        signedOf?_of_naturalOf? hNumber]
      rw [String.toList_ofList, withoutGaps_cons (by decide),
        withoutGaps_cons (ne_and_le_of_markedBase? hMark).1,
        withoutGaps_append, hGap.withoutGaps_eq, List.nil_append]
  | @octal gap s n hGap h =>
      have hNumber := h.naturalOf?_eq (by decide)
      rcases h.exists_cons with ⟨c, t, rfl, d, hLess, hChar⟩
      have hPlain := ne_of_mem_digitChars (by omega) hChar
      rw [withoutGaps_cons hPlain] at hNumber
      rw [intOf?_of_octal (s := withoutGaps t)
          (markedBase?_of_mem_digitChars hLess hChar) ?_,
        signedOf?_of_naturalOf? hNumber]
      rw [String.toList_ofList, withoutGaps_cons (by decide),
        withoutGaps_append, hGap.withoutGaps_eq, List.nil_append,
        withoutGaps_cons hPlain]

/-
  A literal is read as its number exactly if the number is
  below 2^63, and as no number otherwise.  So is the length of
  an array, and the constant that a literal stands for.
-/
theorem reads_exactly
    (h : IntLiteral s n) :
    intOf? (String.ofList s) =
        (if n < 2 ^ 63 then some (n : Int) else none)
      ∧ lengthOf? (String.ofList s) =
        (if n < 2 ^ 63 then some n else none)
      ∧ ∀ t : Token,
        Operand.ofLiteral?
            { t with kind := .int, text := String.ofList s } =
          some { expr := if n < 2 ^ 63 then .int n else .unknown } := by
  have hValue := h.intOf?_eq
  rw [within64?_natCast] at hValue
  have hConstant : ∀ t : Token,
      Operand.ofLiteral?
          { t with kind := .int, text := String.ofList s } =
        some
          { expr :=
              ((intOf? (String.ofList s)).map
                ConstExpr.int).getD .unknown } :=
    fun _ => rfl
  unfold lengthOf?
  simp only [hConstant, hValue]
  by_cases hFits : n < 2 ^ 63
  · simp only [if_pos hFits]
    refine ⟨trivial, ?_, fun _ => rfl⟩
    rw [Option.bind_some, if_pos (Int.natCast_nonneg n),
      Int.toNat_natCast]
  · simp only [if_neg hFits]
    exact ⟨trivial, rfl, fun _ => rfl⟩

/- Digits of both cases behind an underscore. -/
theorem reads_exactly_mixed :
    IntLiteral "0X_fF_0".toList 4080
      ∧ intOf? "0X_fF_0" = some 4080
      ∧ lengthOf? "0X_fF_0" = some 4080 := by
  have hFirst : SpelledDigits 16 ['f'] 15 :=
    .one (by decide) (by decide)
  have hTwo : SpelledDigits 16 ['f', 'F'] 255 :=
    hFirst.more (.inl rfl) (d := 15) (by decide) (by decide)
  have hDigits : SpelledDigits 16 ['f', 'F', '_', '0'] 4080 :=
    hTwo.more (.inr rfl) (d := 0) (by decide) (by decide)
  have hLiteral : IntLiteral "0X_fF_0".toList 4080 :=
    .marked rfl (.inr rfl) hDigits
  have hReads := hLiteral.reads_exactly
  exact ⟨hLiteral, hReads.1, hReads.2.1⟩

end IntLiteral

end WireSchema.Source
