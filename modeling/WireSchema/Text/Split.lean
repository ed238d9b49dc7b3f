import WireSchema.Text.Blank

/-
  Cutting a text at separators.

  Key definitions include:
    * `splitFirst`, `splitLast`: cut in two at a character
    * `splitEvery`: cut at every occurrence of a character
    * `lines`
    * `afterHead?`: what follows a given beginning
    * `joinWith`: put pieces back together
-/

namespace WireSchema.Text

------------------------------------------------------------
-- In Two
------------------------------------------------------------

/- Cut at the first occurrence of a character. -/
def splitFirst
    (sep : Char) :
    List Char → Option (List Char × List Char)
  | [] => none
  | c :: s =>
      if c = sep then some ([], s)
      else
        (splitFirst sep s).map fun p => (c :: p.1, p.2)

/- Cut at the last occurrence of a character. -/
def splitLast
    (sep : Char) :
    List Char → Option (List Char × List Char)
  | [] => none
  | c :: s =>
      match splitLast sep s with
      | some (before, after) => some (c :: before, after)
      | none => if c = sep then some ([], s) else none

/- The two pieces and the separator make up the text. -/
theorem append_of_splitFirst
    {sep : Char}
    {s before after : List Char}
    (h : splitFirst sep s = some (before, after)) :
    s = before ++ sep :: after := by
  induction s generalizing before with
  | nil => simp [splitFirst] at h
  | cons c s ih =>
      by_cases hc : c = sep
      · simp [splitFirst, hc] at h
        simp [← h.1, h.2, hc]
      · simp [splitFirst, hc] at h
        obtain ⟨b, hb, rfl⟩ := h
        simp [ih hb]

/- The first piece does not hold the separator. -/
theorem notMem_of_splitFirst
    {sep : Char}
    {s before after : List Char}
    (h : splitFirst sep s = some (before, after)) :
    sep ∉ before := by
  induction s generalizing before with
  | nil => simp [splitFirst] at h
  | cons c s ih =>
      by_cases hc : c = sep
      · simp [splitFirst, hc] at h
        obtain ⟨rfl, _⟩ := h
        simp
      · simp [splitFirst, hc] at h
        obtain ⟨b, hb, rfl⟩ := h
        simp [ih hb, Ne.symm hc]

theorem splitFirst_append
    {sep : Char}
    {before : List Char}
    (h : sep ∉ before)
    (after : List Char) :
    splitFirst sep (before ++ sep :: after) =
      some (before, after) := by
  induction before with
  | nil => simp [splitFirst]
  | cons c before ih =>
      rw [List.mem_cons, not_or] at h
      simp [splitFirst, Ne.symm h.1, ih h.2]

/- Only a text with the separator in it is cut. -/
theorem splitLast_eq_none_iff
    {sep : Char}
    {s : List Char} : splitLast sep s = none ↔ sep ∉ s := by
  induction s with
  | nil => simp [splitLast]
  | cons c s ih =>
      unfold splitLast
      rw [List.mem_cons, not_or, ← ih]
      cases splitLast sep s with
      | some p => simp
      | none =>
          by_cases hc : c = sep
          · simp [hc]
          · simp [hc, Ne.symm hc]

theorem splitLast_append
    {sep : Char}
    {after : List Char}
    (h : sep ∉ after)
    (before : List Char) :
    splitLast sep (before ++ sep :: after) =
      some (before, after) := by
  induction before with
  | nil => simp [splitLast, splitLast_eq_none_iff.mpr h]
  | cons c before ih => simp [splitLast, ih]

/- The two pieces of a text that is cut at the last place. -/
theorem append_of_splitLast
    {sep : Char}
    {s before after : List Char}
    (h : splitLast sep s = some (before, after)) :
    s = before ++ sep :: after ∧ sep ∉ after := by
  induction s generalizing before with
  | nil => cases h
  | cons c s ih =>
      unfold splitLast at h
      cases hRest : splitLast sep s with
      | some p =>
          rcases p with ⟨b, a⟩
          rw [hRest] at h
          cases h
          have hParts := ih hRest
          exact ⟨by rw [hParts.1]; rfl, hParts.2⟩
      | none =>
          rw [hRest] at h
          dsimp only at h
          split at h
          · next hc =>
              cases h
              exact ⟨by rw [hc]; rfl,
                splitLast_eq_none_iff.mp hRest⟩
          · cases h

------------------------------------------------------------
-- At Every Separator
------------------------------------------------------------

/-
  Cut at every occurrence of a character.  There is one more
  piece than there are separators, so the empty text is one
  empty piece.
-/
def splitEvery (sep : Char) : List Char → List (List Char)
  | [] => [[]]
  | c :: s =>
      if c = sep then [] :: splitEvery sep s
      else
        match splitEvery sep s with
        | [] => [[c]]
        | piece :: pieces => (c :: piece) :: pieces

theorem splitEvery_ne_nil (sep : Char) (s : List Char) :
    splitEvery sep s ≠ [] := by
  cases s with
  | nil => exact List.cons_ne_nil _ _
  | cons c s =>
      rw [splitEvery]
      split
      · exact List.cons_ne_nil _ _
      · split
        · exact List.cons_ne_nil _ _
        · exact List.cons_ne_nil _ _

/- A separator ends a piece, whatever stands on its sides. -/
theorem splitEvery_append
    (sep : Char)
    (s t : List Char) :
    splitEvery sep (s ++ sep :: t) =
      splitEvery sep s ++ splitEvery sep t := by
  induction s with
  | nil => simp [splitEvery]
  | cons c s ih =>
      rw [List.cons_append, splitEvery, splitEvery, ih]
      split
      · rfl
      · cases hPieces : splitEvery sep s with
        | nil => exact absurd hPieces (splitEvery_ne_nil sep s)
        | cons piece pieces => rfl

/- A text without the separator is one piece. -/
theorem splitEvery_of_notMem
    {sep : Char}
    {s : List Char}
    (h : sep ∉ s) : splitEvery sep s = [s] := by
  induction s with
  | nil => rfl
  | cons c s ih =>
      rw [List.mem_cons, not_or] at h
      rw [splitEvery, if_neg (Ne.symm h.1), ih h.2]

/- The pieces do not hold the separator. -/
theorem notMem_of_mem_splitEvery
    {sep : Char}
    {s piece : List Char}
    (h : piece ∈ splitEvery sep s) : sep ∉ piece := by
  induction s generalizing piece with
  | nil =>
      rw [List.mem_singleton.mp h]
      exact List.not_mem_nil
  | cons c s ih =>
      rw [splitEvery] at h
      split at h
      · rcases List.mem_cons.mp h with rfl | hRest
        · exact List.not_mem_nil
        · exact ih hRest
      · next hc =>
          cases hPieces : splitEvery sep s with
          | nil => exact absurd hPieces (splitEvery_ne_nil sep s)
          | cons first rest =>
              rw [hPieces] at h ih
              rcases List.mem_cons.mp h with rfl | hRest
              · rw [List.mem_cons, not_or]
                exact ⟨Ne.symm hc, ih List.mem_cons_self⟩
              · exact ih (List.mem_cons_of_mem _ hRest)

/- What follows a given beginning, if the text has it. -/
def afterHead? : List Char → List Char → Option (List Char)
  | [], s => some s
  | _ :: _, [] => none
  | h :: head, c :: s =>
      if h = c then afterHead? head s else none

/- What precedes a given ending, if the text has it. -/
def beforeTail? (tail s : List Char) : Option (List Char) :=
  (afterHead? tail.reverse s.reverse).map List.reverse

/- Whether a text occurs in another one. -/
def occursIn (part : List Char) : List Char → Bool
  | [] => part.isEmpty
  | c :: s =>
      (afterHead? part (c :: s)).isSome || occursIn part s

theorem afterHead?_eq_some_iff
    {head s rest : List Char} :
    afterHead? head s = some rest ↔ s = head ++ rest := by
  induction head generalizing s with
  | nil => simp [afterHead?]
  | cons h head ih =>
      cases s with
      | nil => simp [afterHead?]
      | cons c s =>
          by_cases hc : h = c
          · simp [afterHead?, hc, ih]
          · simp [afterHead?, hc, Ne.symm hc]

------------------------------------------------------------
-- Lines
------------------------------------------------------------

/- Drop one carriage return at the end of a line. -/
def dropReturn (line : List Char) : List Char :=
  match line.reverse with
  | '\r' :: rest => rest.reverse
  | _ => line

/-
  The lines of a text.  A line ends at a line feed, with or
  without a carriage return before it; a line feed at the end
  of the text opens no further line.
-/
def lines (s : List Char) : List (List Char) :=
  let pieces := splitEvery '\n' s
  let closed := pieces.dropLast.map dropReturn
  match pieces.getLast? with
  | none => closed
  | some [] => closed
  | some piece => closed ++ [piece]

------------------------------------------------------------
-- On Strings
------------------------------------------------------------

/- Join strings with a separator between neighbours. -/
def joinWith (sep : String) : List String → String
  | [] => ""
  | [s] => s
  | s :: t :: rest => s ++ sep ++ joinWith sep (t :: rest)

/- Cut a string in two at the first occurrence. -/
def splitFirstString
    (sep : Char)
    (s : String) : Option (String × String) :=
  (splitFirst sep s.toList).map fun p =>
    (String.ofList p.1, String.ofList p.2)

/- Cut a string at every occurrence. -/
def splitEveryString
    (sep : Char)
    (s : String) : List String :=
  (splitEvery sep s.toList).map String.ofList

/- The lines of a string. -/
def linesString (s : String) : List String :=
  (lines s.toList).map String.ofList

end WireSchema.Text
