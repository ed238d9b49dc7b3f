import Mathlib.Data.List.Infix
import WireSchema.Emit.Comment

/-
  The end of a comment.

  A star in front of a slash ends a comment.  In each line the
  two are held apart, and what stands around a line begins
  with no slash.  So a comment ends behind its last line and
  nowhere before, whatever its documentation holds.

  Key definitions include:
    * `IsUnclosed`, `IsInner`
    * `isUnclosed_closeGuard`
    * `Doc.exists_inner_of_comment`
    * `Doc.comment_closesOnce`
-/

namespace WireSchema

------------------------------------------------------------
-- Texts Without an End
------------------------------------------------------------

/- A text in which no comment ends. -/
def IsUnclosed (s : List Char) : Prop :=
  ¬['*', '/'] <:+: s

variable {s t : List Char}

/- A comment ends at the start of a text or further in. -/
theorem isUnclosed_cons_iff {c : Char} :
    IsUnclosed (c :: s) ↔
      ¬(c = '*' ∧ s.head? = some '/') ∧ IsUnclosed s := by
  have hHead : ['/'] <+: s ↔ s.head? = some '/' := by
    cases s with
    | nil => simp
    | cons d s => simp [eq_comm]
  unfold IsUnclosed
  rw [List.infix_cons_iff, not_or, List.cons_prefix_cons, hHead,
    eq_comm]

theorem isUnclosed_cons_of_ne
    {c : Char}
    (hc : c ≠ '*')
    (h : IsUnclosed s) : IsUnclosed (c :: s) :=
  isUnclosed_cons_iff.mpr ⟨fun hEnd => hc hEnd.1, h⟩

/- A text that ends no comment, whatever it stands behind. -/
structure IsInner (s : List Char) : Prop where
  unclosed : IsUnclosed s
  first : s.head? ≠ some '/'

theorem isInner_nil : IsInner [] :=
  ⟨by simp [IsUnclosed], nofun⟩

theorem isInner_star : IsInner ['*'] :=
  ⟨isUnclosed_cons_iff.mpr ⟨by simp, isInner_nil.unclosed⟩, by simp⟩

theorem IsUnclosed.append
    (hs : IsUnclosed s)
    (ht : IsInner t) : IsUnclosed (s ++ t) := by
  induction s with
  | nil => exact ht.unclosed
  | cons c s ih =>
      rw [isUnclosed_cons_iff] at hs
      rw [List.cons_append, isUnclosed_cons_iff]
      refine ⟨?_, ih hs.2⟩
      cases s with
      | nil => exact fun hEnd => ht.first hEnd.2
      | cons d s => exact hs.1

theorem IsInner.append
    (hs : IsInner s)
    (ht : IsInner t) : IsInner (s ++ t) := by
  refine ⟨hs.unclosed.append ht, ?_⟩
  cases s with
  | nil => exact ht.first
  | cons c s => exact hs.first

/- A blank or a line end keeps a text from what is before. -/
theorem isInner_cons
    {c : Char}
    (hStar : c ≠ '*')
    (hSlash : c ≠ '/')
    (h : IsUnclosed s) : IsInner (c :: s) :=
  ⟨isUnclosed_cons_of_ne hStar h, by simpa using hSlash⟩

theorem isInner_blank (h : IsUnclosed s) : IsInner (' ' :: s) :=
  isInner_cons (by decide) (by decide) h

theorem isInner_lineEnd (h : IsUnclosed s) : IsInner ('\n' :: s) :=
  isInner_cons (by decide) (by decide) h

/- Blanks in front of a text end no comment. -/
theorem isUnclosed_blanks
    (n : Nat)
    (h : IsUnclosed s) :
    IsUnclosed (List.replicate n ' ' ++ s) := by
  induction n with
  | zero => exact h
  | succ n ih =>
      rw [List.replicate_succ, List.cons_append]
      exact isUnclosed_cons_of_ne (by decide) ih

theorem isInner_blanks
    (n : Nat)
    (h : IsInner s) : IsInner (List.replicate n ' ' ++ s) := by
  refine ⟨isUnclosed_blanks n h.unclosed, ?_⟩
  cases n with
  | zero => exact h.first
  | succ n => simp [List.replicate_succ]

/-
  Where a text has one end of a comment at its own end, there
  is no other.
-/
theorem IsUnclosed.eq_of_closed
    {before after : List Char}
    (h : IsUnclosed s)
    (hText : s ++ ['*', '/', '\n'] =
      before ++ '*' :: '/' :: after) : after = ['\n'] := by
  rcases List.append_eq_append_iff.mp hText with
    ⟨more, -, hEnd⟩ | ⟨more, hFront, hEnd⟩
  · -- The end that is given stands behind the text.
    cases more with
    | nil => simpa using hEnd.symm
    | cons c more =>
        cases more with
        | nil => simp at hEnd
        | cons d more =>
            cases more with
            | nil => simp at hEnd
            | cons e more => simp at hEnd
  · -- It begins in the text, so all of it would stand there.
    cases more with
    | nil => simpa using hEnd
    | cons c more =>
        cases more with
        | nil => simp at hEnd
        | cons d more =>
            simp only [List.cons_append, List.cons.injEq] at hEnd
            rcases hEnd with ⟨rfl, rfl, -⟩
            refine absurd ⟨before, more, ?_⟩ h
            simp [hFront]

------------------------------------------------------------
-- Lines
------------------------------------------------------------

theorem head?_closeGuard (s : List Char) :
    (closeGuard s).head? = s.head? := by
  unfold closeGuard
  split
  · rfl
  · rfl
  · rfl

/- A guarded text ends no comment. -/
theorem isUnclosed_closeGuard (s : List Char) :
    IsUnclosed (closeGuard s) := by
  fun_induction closeGuard s with
  | case1 => exact isInner_nil.unclosed
  | case2 s ih =>
      refine isUnclosed_cons_iff.mpr ⟨by simp, ?_⟩
      exact isUnclosed_cons_of_ne (by decide)
        (isUnclosed_cons_of_ne (by decide) ih)
  | case3 c s hOpen ih =>
      refine isUnclosed_cons_iff.mpr ⟨?_, ih⟩
      rw [head?_closeGuard]
      rintro ⟨rfl, hSlash⟩
      rcases List.head?_eq_some_iff.mp hSlash with ⟨rest, rfl⟩
      exact hOpen rest rfl rfl

/- The indentation in front of the lines of a comment. -/
def blanks (n : Nat) : String :=
  String.ofList (List.replicate n ' ')

theorem toList_blanks (n : Nat) :
    (blanks n).toList = List.replicate n ' ' :=
  String.toList_ofList

/- Neither does a line of a comment with the frame around. -/
theorem isInner_commentLine (n : Nat) (line : String) :
    IsInner (commentLine (blanks n) line).toList := by
  have hEnd : IsInner ['\n'] :=
    isInner_lineEnd isInner_nil.unclosed
  have hGuarded : IsInner (' ' :: closeGuard line.toList) :=
    isInner_blank (isUnclosed_closeGuard line.toList)
  have hFrame : IsInner (List.replicate n ' ' ++ [' ', '*']) :=
    isInner_blanks n (isInner_blank isInner_star.unclosed)
  unfold commentLine
  split
  · have hMark : " *\n".toList = [' ', '*'] ++ ['\n'] := rfl
    rw [String.toList_append, toList_blanks, hMark,
      ← List.append_assoc]
    exact hFrame.append hEnd
  · have hMark : " * ".toList = [' ', '*'] ++ [' '] := rfl
    have hLine : "\n".toList = ['\n'] := rfl
    have hText :
        (blanks n ++ " * " ++ guardLine line ++ "\n").toList =
          List.replicate n ' ' ++ [' ', '*']
            ++ ' ' :: closeGuard line.toList ++ ['\n'] := by
      simp [toList_blanks, hMark, hLine, guardLine]
    rw [hText]
    exact (hFrame.append hGuarded).append hEnd

theorem isInner_commentLines (n : Nat) (lines : List String) :
    IsInner
      (String.join (lines.map (commentLine (blanks n)))).toList := by
  induction lines with
  | nil => exact isInner_nil
  | cons line lines ih =>
      rw [List.map_cons, String.join_cons, String.toList_append]
      exact (isInner_commentLine n line).append ih

------------------------------------------------------------
-- Comments
------------------------------------------------------------

namespace Doc

variable {d : Doc}

/- Nothing between the marks of a comment ends it. -/
theorem exists_inner_of_comment
    (h : d.isEmpty = false)
    (n : Nat) :
    ∃ inner, IsInner inner
      ∧ (d.comment (blanks n)).toList =
        List.replicate n ' ' ++ ['/', '*', '*'] ++ inner
          ++ ['*', '/', '\n'] := by
  have hBlank : IsInner [' '] := isInner_blank isInner_nil.unclosed
  unfold comment
  rw [h]
  simp only [Bool.false_eq_true, if_false]
  split
  · next line _ =>
      have hOpen : "/** ".toList = ['/', '*', '*', ' '] := rfl
      have hClose : " */\n".toList = [' ', '*', '/', '\n'] := rfl
      have hGuarded : IsInner (' ' :: closeGuard line.toList) :=
        isInner_blank (isUnclosed_closeGuard line.toList)
      refine ⟨_, hGuarded.append hBlank, ?_⟩
      simp [toList_blanks, hOpen, hClose, guardLine]
  · next lines _ =>
      have hOpen : "/**\n".toList = ['/', '*', '*', '\n'] := rfl
      have hClose : " */\n".toList = [' ', '*', '/', '\n'] := rfl
      have hLines := isInner_lineEnd
        (isInner_commentLines n d.commentLines).unclosed
      refine ⟨_, hLines.append (isInner_blanks n hBlank), ?_⟩
      simp [toList_blanks, hOpen, hClose]

/-
  The comment of documentation that is not empty begins with
  its mark behind the indentation and ends with the closing
  mark and the end of a line.  The closing mark stands nowhere
  else, whatever the documentation holds.
-/
theorem comment_closesOnce
    (h : d.isEmpty = false)
    (n : Nat) :
    let text := (d.comment (blanks n)).toList
    (∃ inner, text =
        (blanks n).toList ++ "/**".toList ++ inner ++ "*/\n".toList)
      ∧ ∀ before after, text = before ++ "*/".toList ++ after →
        after = "\n".toList := by
  have hOpen : "/**".toList = ['/', '*', '*'] := rfl
  have hClose : "*/".toList = ['*', '/'] := rfl
  have hEnd : "*/\n".toList = ['*', '/', '\n'] := rfl
  have hFront :
      IsUnclosed (List.replicate n ' ' ++ ['/', '*', '*']) :=
    isUnclosed_blanks n
      (isUnclosed_cons_of_ne (by decide)
        (isUnclosed_cons_iff.mpr ⟨by simp, isInner_star.unclosed⟩))
  rcases exists_inner_of_comment h n with ⟨inner, hInner, hText⟩
  refine ⟨⟨inner, ?_⟩, ?_⟩
  · rw [hText, toList_blanks, hOpen, hEnd]
  · intro before after hSplit
    rw [hText, hClose, List.append_assoc before] at hSplit
    exact (hFront.append hInner).eq_of_closed hSplit

/- Documentation all of whose parts try to end a comment. -/
def trickyDoc : Doc :=
  { summary := "*/"
    body := "a*\n/**/"
    deprecated := some "" }

theorem comment_closesOnce_tricky :
    trickyDoc.isEmpty = false
      ∧ trickyDoc.comment (blanks 2) =
        "  /**\n   * *\\/\n   *\n   * a*\n   * /**\\/\n   *\n"
          ++ "   * @deprecated\n   */\n"
      ∧ (∃ inner, (trickyDoc.comment (blanks 2)).toList =
        (blanks 2).toList ++ "/**".toList ++ inner ++ "*/\n".toList)
      ∧ ∃ before after, (trickyDoc.comment (blanks 2)).toList =
          before ++ "*/".toList ++ after
        ∧ after = "\n".toList := by
  have hSome : trickyDoc.isEmpty = false := by decide
  rcases comment_closesOnce hSome 2 with ⟨⟨inner, hText⟩, hOnce⟩
  have hEnd : "*/\n".toList = "*/".toList ++ "\n".toList := rfl
  rw [hEnd, ← List.append_assoc] at hText
  refine ⟨hSome, by decide, ⟨inner, ?_⟩,
    _, _, hText, hOnce _ _ hText⟩
  rw [hText, hEnd, ← List.append_assoc]

end Doc

end WireSchema
