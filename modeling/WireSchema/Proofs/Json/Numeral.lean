import WireSchema.Json.Printer
import WireSchema.Json.Numeral
import WireSchema.Proofs.Number.Digits

/-
  Numbers are read back from their numerals.

  What follows a numeral does not change how it is read, as
  long as it cannot belong to it.  An integer that fits a word
  is read back from its digits.

  Key definitions include:
    * `Json.EndsNumeral`
    * `JsonNumber.ReadsBack`
    * `Json.readNumeral?_append`
-/

namespace WireSchema

namespace Json

/- A text that does not go on with a numeral. -/
def EndsNumeral (rest : List Char) : Prop :=
  ∀ c ∈ rest.head?, c.isDigit = false ∧ c ≠ '.' ∧ c ≠ 'e' ∧ c ≠ 'E'

variable {s t rest : List Char}
variable {negative : Bool}
variable {significand : Nat}
variable {exponent : Int}
variable {r : Option JsonNumber}

theorem endsNumeral_cons
    {c : Char}
    (hDigit : c.isDigit = false)
    (hPoint : c ≠ '.')
    (hLower : c ≠ 'e')
    (hUpper : c ≠ 'E') : EndsNumeral (c :: s) := by
  intro d hd
  cases hd
  exact ⟨hDigit, hPoint, hLower, hUpper⟩

------------------------------------------------------------
-- What Follows a Numeral
------------------------------------------------------------

theorem takeWhile_append_of_ends
    (h : EndsNumeral rest)
    (s : List Char) :
    (s ++ rest).takeWhile Char.isDigit =
      s.takeWhile Char.isDigit := by
  induction s with
  | nil =>
      cases rest with
      | nil => rfl
      | cons c rest => simp [(h c rfl).1]
  | cons c s ih =>
      simp only [List.cons_append, List.takeWhile_cons, ih]

theorem dropWhile_append_of_ends
    (h : EndsNumeral rest)
    (s : List Char) :
    (s ++ rest).dropWhile Char.isDigit =
      s.dropWhile Char.isDigit ++ rest := by
  induction s with
  | nil =>
      cases rest with
      | nil => rfl
      | cons c rest => simp [(h c rfl).1]
  | cons c s ih =>
      rw [List.cons_append, List.dropWhile_cons,
        List.dropWhile_cons, ih]
      split
      · rfl
      · rfl

theorem gatherDigits_append
    (h : EndsNumeral rest)
    (significand count : Nat)
    (s : List Char) :
    gatherDigits significand count (s ++ rest) =
      ((gatherDigits significand count s).1,
        (gatherDigits significand count s).2.1,
        (gatherDigits significand count s).2.2 ++ rest) := by
  induction s generalizing significand count with
  | nil =>
      cases rest with
      | nil => rfl
      | cons c rest => simp [gatherDigits, (h c rfl).1]
  | cons c s ih =>
      simp only [List.cons_append, gatherDigits]
      split
      · exact ih _ _
      · rfl

/- The digits of an exponent whose sign has been read. -/
def signedExponent?
    (minus : Bool)
    (ds : List Char) : Option (Int × List Char) :=
  if (ds.takeWhile Char.isDigit).isEmpty then none
  else
    let n : Int :=
      Binary64.digitsValue (ds.takeWhile Char.isDigit)
    some (if minus then -n else n, ds.dropWhile Char.isDigit)

theorem readExponent?_minus :
    readExponent? ('-' :: s) = signedExponent? true s :=
  rfl

theorem readExponent?_plus :
    readExponent? ('+' :: s) = signedExponent? false s :=
  rfl

theorem readExponent?_plain
    {c : Char}
    (hMinus : c ≠ '-')
    (hPlus : c ≠ '+') :
    readExponent? (c :: s) = signedExponent? false (c :: s) := by
  unfold readExponent? signedExponent?
  simp [hMinus, hPlus]

theorem signedExponent?_append
    {n : Int}
    {minus : Bool}
    (hEnds : EndsNumeral rest)
    (h : signedExponent? minus s = some (n, t)) :
    signedExponent? minus (s ++ rest) = some (n, t ++ rest) := by
  unfold signedExponent? at h ⊢
  rw [takeWhile_append_of_ends hEnds,
    dropWhile_append_of_ends hEnds]
  split at h
  · cases h
  · next hSome =>
      cases h
      rw [if_neg hSome]

theorem readExponent?_append
    {n : Int}
    (hEnds : EndsNumeral rest)
    (h : readExponent? s = some (n, t)) :
    readExponent? (s ++ rest) = some (n, t ++ rest) := by
  cases s with
  | nil => cases h
  | cons c s =>
      rw [List.cons_append]
      by_cases hMinus : c = '-'
      · subst hMinus
        rw [readExponent?_minus] at h ⊢
        exact signedExponent?_append hEnds h
      · by_cases hPlus : c = '+'
        · subst hPlus
          rw [readExponent?_plus] at h ⊢
          exact signedExponent?_append hEnds h
        · rw [readExponent?_plain hMinus hPlus] at h ⊢
          exact signedExponent?_append hEnds h

theorem finishNumeral?_append
    (hEnds : EndsNumeral rest)
    (h : finishNumeral? negative significand exponent s =
      some (r, t)) :
    finishNumeral? negative significand exponent (s ++ rest) =
      some (r, t ++ rest) := by
  cases s with
  | nil =>
      cases h
      cases rest with
      | nil => rfl
      | cons c rest =>
          have hc := hEnds c rfl
          simp [finishNumeral?, hc.2.2.1, hc.2.2.2]
  | cons c s =>
      rw [List.cons_append]
      by_cases hMark : c = 'e' ∨ c = 'E'
      · simp only [finishNumeral?, if_pos hMark] at h ⊢
        rcases Option.map_eq_some_iff.mp h with ⟨p, hp, hSame⟩
        rw [readExponent?_append (t := p.2) (n := p.1) hEnds hp]
        cases hSame
        rfl
      · simp only [finishNumeral?, if_neg hMark] at h ⊢
        cases h
        rfl

theorem readFraction?_append
    (hEnds : EndsNumeral rest)
    (h : readFraction? negative significand exponent s =
      some (r, t)) :
    readFraction? negative significand exponent (s ++ rest) =
      some (r, t ++ rest) := by
  unfold readFraction? at h ⊢
  rw [takeWhile_append_of_ends hEnds, gatherDigits_append hEnds]
  split at h
  · cases h
  · next hSome =>
      rw [if_neg hSome]
      dsimp only at h ⊢
      rw [dropWhile_append_of_ends hEnds]
      exact finishNumeral?_append hEnds h

/- The end of a numeral that has no point. -/
def finishWhole?
    (negative : Bool)
    (significand : Nat)
    (dropped : List Char)
    (s : List Char) : Option ReadNumeral :=
  if dropped.isEmpty && s.head? != some 'e'
      && s.head? != some 'E' then
    some (some (wholeNumber negative significand), s)
  else finishNumeral? negative significand dropped.length s

theorem readAfterWhole?_point
    (h : s.dropWhile Char.isDigit = '.' :: t) :
    readAfterWhole? negative significand s =
      readFraction? negative significand
        (s.takeWhile Char.isDigit).length t := by
  simp only [readAfterWhole?, h]

theorem readAfterWhole?_plain
    (h : (s.dropWhile Char.isDigit).head? ≠ some '.') :
    readAfterWhole? negative significand s =
      finishWhole? negative significand
        (s.takeWhile Char.isDigit)
        (s.dropWhile Char.isDigit) := by
  unfold readAfterWhole? finishWhole?
  cases hDrop : s.dropWhile Char.isDigit with
  | nil => simp
  | cons c t =>
      rw [hDrop] at h
      have hPoint : c ≠ '.' := by
        rintro rfl
        exact h rfl
      simp [hPoint, bne, Bool.and_assoc]

theorem finishWhole?_append
    {dropped : List Char}
    (hEnds : EndsNumeral rest)
    (h : finishWhole? negative significand dropped s =
      some (r, t)) :
    finishWhole? negative significand dropped (s ++ rest) =
      some (r, t ++ rest) := by
  have hHead : ∀ c, (c = 'e' ∨ c = 'E') →
      ((s ++ rest).head? != some c) = (s.head? != some c) := by
    intro c hc
    cases s with
    | cons d s => rfl
    | nil =>
        cases rest with
        | nil => rfl
        | cons d rest =>
            have hd := hEnds d rfl
            have hNe : d ≠ c := by
              rcases hc with rfl | rfl
              · exact hd.2.2.1
              · exact hd.2.2.2
            simp [hNe, bne]
  unfold finishWhole? at h ⊢
  rw [hHead 'e' (.inl rfl), hHead 'E' (.inr rfl)]
  split at h
  · next hAlone =>
      cases h
      rw [if_pos hAlone]
  · next hAlone =>
      rw [if_neg hAlone]
      exact finishNumeral?_append hEnds h

theorem readAfterWhole?_append
    (hEnds : EndsNumeral rest)
    (h : readAfterWhole? negative significand s = some (r, t)) :
    readAfterWhole? negative significand (s ++ rest) =
      some (r, t ++ rest) := by
  have hTake := takeWhile_append_of_ends hEnds s
  have hDrop := dropWhile_append_of_ends hEnds s
  by_cases hPoint : (s.dropWhile Char.isDigit).head? = some '.'
  · rcases List.head?_eq_some_iff.mp hPoint with ⟨u, hRest⟩
    rw [readAfterWhole?_point hRest] at h
    rw [hRest] at hDrop
    rw [readAfterWhole?_point hDrop, hTake]
    exact readFraction?_append hEnds h
  · have hLater :
        ((s ++ rest).dropWhile Char.isDigit).head? ≠
          some '.' := by
      rw [hDrop]
      cases hWhole : s.dropWhile Char.isDigit with
      | cons c u =>
          rwa [hWhole] at hPoint
      | nil =>
          intro hHead
          exact (hEnds '.' hHead).2.1 rfl
    rw [readAfterWhole?_plain hPoint] at h
    rw [readAfterWhole?_plain hLater, hTake, hDrop]
    exact finishWhole?_append hEnds h

/- The digits of a numeral whose sign has been read. -/
def unsignedNumeral?
    (negative : Bool) : List Char → Option ReadNumeral
  | [] => none
  | c :: s =>
      if c = '0' then
        if s.head?.any Char.isDigit then none
        else readAfterWhole? negative 0 s
      else if c.isDigit then
        let gathered := gatherDigits 0 0 (c :: s)
        readAfterWhole? negative gathered.1 gathered.2.2
      else none

/- A lone zero is the only numeral that starts with one. -/
theorem unsignedNumeral?_eq (minus : Bool) (s : List Char) :
    (match s with
      | [] => none
      | '0' :: rest =>
          match rest with
          | c :: _ =>
              if c.isDigit then none
              else readAfterWhole? minus 0 rest
          | [] => readAfterWhole? minus 0 rest
      | c :: rest =>
          if c.isDigit then
            let gathered := gatherDigits 0 0 (c :: rest)
            readAfterWhole? minus gathered.1 gathered.2.2
          else none) =
      unsignedNumeral? minus s := by
  cases s with
  | nil => rfl
  | cons c s =>
      unfold unsignedNumeral?
      by_cases hZero : c = '0'
      · subst hZero
        cases s with
        | nil => rfl
        | cons d s =>
            by_cases hDigit : d.isDigit = true
            · simp [hDigit]
            · simp [hDigit]
      · simp [hZero]

theorem readNumeral?_minus :
    readNumeral? ('-' :: s) = unsignedNumeral? true s :=
  unsignedNumeral?_eq true s

theorem readNumeral?_plain
    {c : Char}
    (hMinus : c ≠ '-') :
    readNumeral? (c :: s) = unsignedNumeral? false (c :: s) := by
  rw [← unsignedNumeral?_eq]
  unfold readNumeral?
  split
  · next h => exact absurd (List.cons.inj h).1 hMinus
  · rfl

theorem unsignedNumeral?_append
    (hEnds : EndsNumeral rest)
    (h : unsignedNumeral? negative s = some (r, t)) :
    unsignedNumeral? negative (s ++ rest) =
      some (r, t ++ rest) := by
  cases s with
  | nil => cases h
  | cons c s =>
      rw [List.cons_append]
      by_cases hZero : c = '0'
      · simp only [unsignedNumeral?, if_pos hZero] at h ⊢
        have hHead : (s ++ rest).head?.any Char.isDigit =
            s.head?.any Char.isDigit := by
          cases s with
          | cons d s => rfl
          | nil =>
              cases rest with
              | nil => rfl
              | cons d rest => simp [(hEnds d rfl).1]
        rw [hHead]
        split at h
        · cases h
        · next hSome =>
            rw [if_neg hSome]
            exact readAfterWhole?_append hEnds h
      · simp only [unsignedNumeral?, if_neg hZero] at h ⊢
        split at h
        · next hDigit =>
            rw [if_pos hDigit, ← List.cons_append,
              gatherDigits_append hEnds]
            exact readAfterWhole?_append hEnds h
        · cases h

/- What cannot go on with a numeral does not change it. -/
theorem readNumeral?_append
    (hEnds : EndsNumeral rest)
    (h : readNumeral? s = some (r, t)) :
    readNumeral? (s ++ rest) = some (r, t ++ rest) := by
  cases s with
  | nil => cases h
  | cons c s =>
      rw [List.cons_append]
      by_cases hMinus : c = '-'
      · subst hMinus
        rw [readNumeral?_minus] at h ⊢
        exact unsignedNumeral?_append hEnds h
      · rw [readNumeral?_plain hMinus] at h ⊢
        exact unsignedNumeral?_append hEnds h

/- A numeral starts with a sign or a digit. -/
theorem head_of_readNumeral?
    {c : Char}
    {p : ReadNumeral}
    (h : readNumeral? (c :: s) = some p) :
    c = '-' ∨ c.isDigit = true := by
  by_cases hMinus : c = '-'
  · exact .inl hMinus
  · right
    rw [readNumeral?_plain hMinus] at h
    by_cases hZero : c = '0'
    · rw [hZero]
      rfl
    · simp only [unsignedNumeral?, if_neg hZero] at h
      split at h
      · next hDigit => exact hDigit
      · cases h

------------------------------------------------------------
-- Integers
------------------------------------------------------------

/- Digits do not make a number smaller. -/
theorem le_foldl_digits (ds : List Char) (m : Nat) :
    m ≤ ds.foldl (fun n c => n * 10 + (c.toNat - '0'.toNat)) m := by
  induction ds generalizing m with
  | nil => exact le_refl m
  | cons c ds ih =>
      have hFirst : m ≤ m * 10 + (c.toNat - '0'.toNat) := by omega
      exact hFirst.trans (ih _)

/- Digits that denote a word are all gathered. -/
theorem gatherDigits_word
    {ds : List Char}
    {significand : Nat}
    (hDigits : ∀ c ∈ ds, c.isDigit = true)
    (hWord : ds.foldl
      (fun n c => n * 10 + (c.toNat - '0'.toNat)) significand ≤
        maxWord)
    (count : Nat) :
    gatherDigits significand count ds =
      (ds.foldl (fun n c => n * 10 + (c.toNat - '0'.toNat))
          significand,
        count + ds.length, []) := by
  induction ds generalizing significand count with
  | nil => rfl
  | cons c ds ih =>
      rw [List.forall_mem_cons] at hDigits
      rw [List.foldl_cons] at hWord
      have hLess := le_foldl_digits ds
        (significand * 10 + (c.toNat - '0'.toNat))
      have hFits : fitsWord significand c = true := by
        unfold fitsWord
        simpa using hLess.trans hWord
      unfold gatherDigits
      rw [hDigits.1, hFits, List.foldl_cons, List.length_cons]
      change gatherDigits _ (count + 1) ds = _
      rw [ih hDigits.2 hWord, Nat.add_right_comm, Nat.add_assoc]

/- An unsigned integer that fits a word is read as a whole. -/
theorem unsignedNumeral?_toString
    {n : Nat}
    (negative : Bool)
    (hWord : n ≤ maxWord) :
    unsignedNumeral? negative (toString n).toList =
      some (some (wholeNumber negative n), []) := by
  have hDone : ∀ m, readAfterWhole? negative m [] =
      some (some (wholeNumber negative m), []) := fun _ => rfl
  rcases Nat.eq_zero_or_pos n with rfl | hPos
  · rfl
  · have hAll : ∀ c ∈ (toString n).toList, c.isDigit = true :=
      fun _ h => isDigit_of_mem_toString h
    have hValue := digitsValue_toString n
    unfold Binary64.digitsValue at hValue
    have hGather := gatherDigits_word hAll
      (hValue.trans_le hWord) 0
    rw [hValue] at hGather
    have hHead := head?_toString_ne_zero hPos
    cases hDigits : (toString n).toList with
    | nil => exact absurd hDigits (toList_toString_ne_nil n)
    | cons c ds =>
        rw [hDigits] at hGather hHead
        have hZero : c ≠ '0' := by
          rintro rfl
          exact hHead rfl
        have hDigit : c.isDigit = true := by
          apply isDigit_of_mem_toString (n := n)
          rw [hDigits]
          exact List.mem_cons_self
        simp only [unsignedNumeral?, if_neg hZero, hDigit,
          if_true, hGather, hDone]

theorem readNumeral?_natural
    {n : Nat}
    (hWord : n ≤ maxWord) :
    readNumeral? (numberText (.natural n)).toList =
      some (some (.natural n), []) := by
  have hRead := unsignedNumeral?_toString false hWord
  change readNumeral? (toString n).toList = _
  cases hDigits : (toString n).toList with
  | nil => exact absurd hDigits (toList_toString_ne_nil n)
  | cons c ds =>
      have hDigit : c.isDigit = true := by
        apply isDigit_of_mem_toString (n := n)
        rw [hDigits]
        exact List.mem_cons_self
      have hMinus : c ≠ '-' := by
        rintro rfl
        cases hDigit
      rw [readNumeral?_plain hMinus, ← hDigits, hRead]
      rfl

theorem readNumeral?_negative
    {n : Nat}
    (hPos : 0 < n)
    (hWeight : n ≤ signWeight) :
    readNumeral? (numberText (.negative n)).toList =
      some (some (.negative n), []) := by
  have hWord : n ≤ maxWord :=
    hWeight.trans (by decide)
  have hText : (numberText (.negative n)).toList =
      '-' :: (toString n).toList := by
    unfold numberText
    rw [String.toList_append]
    rfl
  rw [hText, readNumeral?_minus, unsignedNumeral?_toString true hWord]
  unfold wholeNumber
  rw [if_pos rfl, if_neg hPos.ne', if_pos hWeight]

end Json

/- A number whose numeral is read as this number. -/
def JsonNumber.ReadsBack (n : JsonNumber) : Prop :=
  Json.readNumeral? (Json.numberText n).toList =
    some (some n, [])

end WireSchema
