import Mathlib.Data.List.Basic
import WireSchema.FileTree.Path

/-
  Paths as steps.

  Segments that are empty or a single dot lead nowhere; the
  others are the steps of a path.  A joined path has the steps
  of both parts, and the parent of a path has all of its steps
  but the last.

  Key definitions include:
    * `Path.isIdle`, `Path.steps`
    * `Path.parentOf`
    * `Path.steps_join`
    * `Path.steps_parentOf`
-/

namespace WireSchema.Path

------------------------------------------------------------
-- Steps
------------------------------------------------------------

/- Whether a segment leads nowhere. -/
def isIdle (s : String) : Bool :=
  s == "" || s == "."

/- The segments that lead somewhere. -/
def stepsAmong (segments : List String) : List String :=
  segments.filter fun s => !isIdle s

def steps (path : String) : List String :=
  stepsAmong (segments path)

/- The steps of a path as characters. -/
def stepsOf (path : List Char) : List String :=
  stepsAmong ((Text.splitEvery '/' path).map String.ofList)

theorem stepsAmong_of_idle
    {s : String}
    (h : isIdle s = true)
    (rest : List String) :
    stepsAmong (s :: rest) = stepsAmong rest :=
  List.filter_cons_of_neg (by simp [h])

theorem stepsAmong_of_not_idle
    {s : String}
    (h : ¬isIdle s = true)
    (rest : List String) :
    stepsAmong (s :: rest) = s :: stepsAmong rest :=
  List.filter_cons_of_pos (by simpa using h)

theorem stepsAmong_append (a b : List String) :
    stepsAmong (a ++ b) = stepsAmong a ++ stepsAmong b :=
  List.filter_append a b

theorem steps_eq (path : String) :
    steps path = stepsOf path.toList :=
  rfl

/- A slash parts the steps on its sides. -/
theorem stepsOf_append (a b : List Char) :
    stepsOf (a ++ '/' :: b) = stepsOf a ++ stepsOf b := by
  unfold stepsOf
  rw [Text.splitEvery_append, List.map_append,
    stepsAmong_append]

theorem stepsOf_nil : stepsOf [] = [] :=
  rfl

theorem stepsOf_dot : stepsOf ['.'] = [] :=
  rfl

/- One segment is one step, unless it leads nowhere. -/
theorem stepsOf_of_notMem
    {w : List Char}
    (h : '/' ∉ w) :
    stepsOf w =
      if isIdle (String.ofList w) then []
      else [String.ofList w] := by
  unfold stepsOf
  rw [Text.splitEvery_of_notMem h, List.map_singleton]
  split
  · next hIdle => exact stepsAmong_of_idle hIdle []
  · next hStep => exact stepsAmong_of_not_idle hStep []

/- What stays below a directory has no step up. -/
theorem staysBelow_iff {path : String} :
    staysBelow path = true ↔
      path ≠ "" ∧ isAbsolute path = false ∧ ".." ∉ segments path := by
  unfold staysBelow
  rw [Bool.and_eq_true, Bool.and_eq_true, Bool.not_eq_true',
    Bool.not_eq_true', and_assoc, List.all_eq_true]
  refine and_congr ?_ (and_congr Iff.rfl ?_)
  · simp
  · constructor
    · intro hAll hUp
      simpa using hAll _ hUp
    · intro hNot s hs
      have hNe : s ≠ ".." := fun hSame => hNot (hSame ▸ hs)
      simpa using hNe

theorem notMem_steps_of_staysBelow
    {path : String}
    (h : staysBelow path = true) : ".." ∉ steps path :=
  fun hStep =>
    (staysBelow_iff.mp h).2.2 (List.mem_filter.mp hStep).1

/- A single name stays below unless it leads up. -/
theorem staysBelow_name_iff
    {name : String}
    (hPlain : '/' ∉ name.toList) :
    staysBelow name = true ↔ name ≠ "" ∧ name ≠ ".." := by
  have hSegments : segments name = [name] := by
    unfold segments Text.splitEveryString
    rw [Text.splitEvery_of_notMem hPlain, List.map_singleton,
      String.ofList_toList]
  have hRelative : isAbsolute name = false := by
    unfold isAbsolute
    rw [beq_eq_false_iff_ne]
    exact fun hHead => hPlain (List.mem_of_head? hHead)
  rw [staysBelow_iff, hSegments, List.mem_singleton,
    and_iff_right hRelative]
  exact and_congr Iff.rfl (not_congr eq_comm)

/- A name in a directory leads up if one of the two does. -/
theorem staysBelow_pair_iff
    {dir name : String}
    (hSome : dir ≠ "")
    (hDir : '/' ∉ dir.toList)
    (hName : '/' ∉ name.toList) :
    staysBelow (dir ++ "/" ++ name) = true ↔
      dir ≠ ".." ∧ name ≠ ".." := by
  have hText : (dir ++ "/" ++ name).toList =
      dir.toList ++ '/' :: name.toList := by
    rw [String.toList_append, String.toList_append,
      List.append_assoc]
    rfl
  have hSegments : segments (dir ++ "/" ++ name) = [dir, name] := by
    unfold segments Text.splitEveryString
    rw [hText, Text.splitEvery_append,
      Text.splitEvery_of_notMem hDir,
      Text.splitEvery_of_notMem hName, List.singleton_append,
      List.map_cons, List.map_singleton, String.ofList_toList,
      String.ofList_toList]
  have hRelative : isAbsolute (dir ++ "/" ++ name) = false := by
    unfold isAbsolute
    rw [hText, List.head?_append_of_ne_nil _ (by simpa using hSome),
      beq_eq_false_iff_ne]
    exact fun hHead => hDir (List.mem_of_head? hHead)
  have hNotEmpty : dir ++ "/" ++ name ≠ "" := by
    intro hEmpty
    rw [hEmpty] at hText
    cases hParts : dir.toList with
    | nil => exact hSome (String.toList_eq_nil_iff.mp hParts)
    | cons c rest =>
        rw [hParts] at hText
        cases hText
  rw [staysBelow_iff, hSegments, and_iff_right hNotEmpty,
    and_iff_right hRelative, List.mem_cons, List.mem_singleton,
    not_or]
  exact and_congr (not_congr eq_comm) (not_congr eq_comm)

------------------------------------------------------------
-- Joined Paths
------------------------------------------------------------

section Joined

variable {base path : String}

/- A relative path stands behind a base and a slash. -/
theorem toList_join
    (base : String)
    (hRelative : isAbsolute path = false) :
    (base = "" ∧ join base path = path)
      ∨ ∃ front : List Char,
        (join base path).toList = front ++ '/' :: path.toList
          ∧ stepsOf front = steps base
          ∧ (front ++ ['/']).head? = base.toList.head? := by
  unfold join
  rw [hRelative, Bool.false_or]
  by_cases hEmpty : base = ""
  · left
    exact ⟨hEmpty, if_pos (String.isEmpty_iff.mpr hEmpty)⟩
  · right
    have hSome : base.toList ≠ [] := by simpa using hEmpty
    rw [if_neg (by simpa using hEmpty)]
    split
    · next hSlash =>
        rcases List.getLast?_eq_some_iff.mp (beq_iff_eq.mp hSlash)
          with ⟨front, hFront⟩
        refine ⟨front, ?_, ?_, by rw [hFront]⟩
        · rw [String.toList_append, hFront, List.append_assoc]
          rfl
        · rw [steps_eq, hFront, stepsOf_append, stepsOf_nil,
            List.append_nil]
    · refine ⟨base.toList, ?_, rfl, ?_⟩
      · rw [String.toList_append, String.toList_append,
          List.append_assoc]
        rfl
      · rw [List.head?_append_of_ne_nil _ hSome]

theorem steps_join
    (hRelative : isAbsolute path = false) :
    steps (join base path) = steps base ++ steps path := by
  rcases toList_join base hRelative with
    ⟨rfl, hJoin⟩ | ⟨front, hJoin, hSteps, -⟩
  · rw [hJoin]
    rfl
  · rw [steps_eq, hJoin, stepsOf_append, hSteps]
    rfl

theorem isAbsolute_join
    (hRelative : isAbsolute path = false) :
    isAbsolute (join base path) = isAbsolute base := by
  rcases toList_join base hRelative with
    ⟨rfl, hJoin⟩ | ⟨front, hJoin, -, hHead⟩
  · rw [hJoin, hRelative]
    rfl
  · unfold isAbsolute
    rw [hJoin, ← hHead]
    cases front with
    | nil => rfl
    | cons c front => rfl

end Joined

------------------------------------------------------------
-- Parents
------------------------------------------------------------

/- The parent of a path; the empty path has itself. -/
def parentOf (path : String) : String :=
  (parent? path).getD ""

/- What is dropped of a path leaves its front, and no step. -/
structure Shortens (back left : List Char) : Prop where
  front : left <:+ back
  kept : back ≠ [] → left ≠ []
  steps : stepsOf left.reverse = stepsOf back.reverse

theorem shortens_dropIdle (back : List Char) :
    Shortens back (dropIdle back) := by
  have hSlash : ∀ rest : List Char,
      stepsOf ('/' :: rest).reverse = stepsOf rest.reverse := by
    intro rest
    rw [List.reverse_cons, stepsOf_append, stepsOf_nil,
      List.append_nil]
  have hDot : ∀ rest : List Char,
      stepsOf ('.' :: '/' :: rest).reverse =
        stepsOf rest.reverse := by
    intro rest
    rw [List.reverse_cons, List.reverse_cons, List.append_assoc,
      List.singleton_append, stepsOf_append, stepsOf_dot,
      List.append_nil]
  fun_induction dropIdle back with
  | case1 rest hEmpty =>
      rw [List.isEmpty_iff.mp hEmpty]
      exact ⟨List.suffix_refl _, fun h => h, rfl⟩
  | case2 rest hSome ih =>
      have hSome : rest ≠ [] := by simpa using hSome
      exact ⟨ih.front.trans (List.suffix_cons '/' rest),
        fun _ => ih.kept hSome, ih.steps.trans (hSlash rest).symm⟩
  | case3 rest hEmpty =>
      rw [List.isEmpty_iff.mp hEmpty]
      exact ⟨List.suffix_cons '.' ['/'], fun _ => by simp, rfl⟩
  | case4 rest hSome ih =>
      have hSome : rest ≠ [] := by simpa using hSome
      refine ⟨?_, fun _ => ih.kept hSome,
        ih.steps.trans (hDot rest).symm⟩
      exact (ih.front.trans (List.suffix_cons '/' rest)).trans
        (List.suffix_cons '.' _)
  | case5 back => exact ⟨List.suffix_refl _, fun h => h, rfl⟩

/- What is left ends with a step, if anything but a slash is. -/
theorem dropIdle_cases (back : List Char) :
    dropIdle back = [] ∨ dropIdle back = ['/']
      ∨ (∀ rest, dropIdle back ≠ '/' :: rest)
        ∧ ∀ rest, dropIdle back ≠ '.' :: '/' :: rest := by
  fun_induction dropIdle back with
  | case1 => exact .inr (.inl rfl)
  | case2 rest hSome ih => exact ih
  | case3 => exact .inr (.inl rfl)
  | case4 rest hSome ih => exact ih
  | case5 back hSlash hDot =>
      exact .inr (.inr ⟨fun rest h => hSlash rest h,
        fun rest h => hDot rest h⟩)

/- A path with no parent has no steps. -/
theorem parentOf_eq (path : String) :
    (steps path = [] ∧ parentOf path = "")
      ∨ parentOf path =
        String.ofList
          (dropIdle
            ((dropIdle path.toList.reverse).dropWhile
              fun c => c != '/')).reverse := by
  have hSteps := (shortens_dropIdle path.toList.reverse).steps
  rw [List.reverse_reverse, ← steps_eq] at hSteps
  unfold parentOf parent?
  split
  · next hNone =>
      left
      rw [hNone] at hSteps
      exact ⟨hSteps.symm, rfl⟩
  · next hRoot =>
      left
      rw [hRoot] at hSteps
      exact ⟨hSteps.symm, rfl⟩
  · exact .inr rfl

/- A path from back to front is cut before its first slash. -/
theorem cut_slash (back : List Char) :
    ∃ last,
      '/' ∉ last
        ∧ ((back.dropWhile (fun c => c != '/') = [] ∧ back = last)
          ∨ ∃ front,
            back.dropWhile (fun c => c != '/') = '/' :: front
              ∧ back = last ++ '/' :: front) := by
  induction back with
  | nil => exact ⟨[], List.not_mem_nil, .inl ⟨rfl, rfl⟩⟩
  | cons c back ih =>
      by_cases hc : c = '/'
      · subst hc
        exact ⟨[], List.not_mem_nil, .inr ⟨back, rfl, rfl⟩⟩
      · have hDrop : (c :: back).dropWhile (fun c => c != '/') =
            back.dropWhile (fun c => c != '/') := by
          simp [hc]
        rw [hDrop]
        rcases ih with ⟨last, hLast, hParts⟩
        refine ⟨c :: last, ?_, ?_⟩
        · rw [List.mem_cons, not_or]
          exact ⟨Ne.symm hc, hLast⟩
        · rcases hParts with ⟨hNone, rfl⟩ | ⟨front, hTail, rfl⟩
          · exact .inl ⟨hNone, rfl⟩
          · exact .inr ⟨front, hTail, rfl⟩

/- The parent of a path has all of its steps but the last. -/
theorem steps_parentOf (path : String) :
    steps (parentOf path) = (steps path).dropLast := by
  rcases parentOf_eq path with ⟨hNone, hParent⟩ | hParent
  · rw [hParent, hNone]
    rfl
  have hForm := dropIdle_cases path.toList.reverse
  have hSteps := (shortens_dropIdle path.toList.reverse).steps
  rw [List.reverse_reverse, ← steps_eq] at hSteps
  generalize dropIdle path.toList.reverse = back at *
  rw [hParent, steps_eq, String.toList_ofList,
    (shortens_dropIdle _).steps, ← hSteps]
  rcases hForm with rfl | rfl | ⟨hSlash, hDot⟩
  · rfl
  · rfl
  rcases cut_slash back with ⟨last, hLast, hParts⟩
  have hOne := stepsOf_of_notMem
    (fun hMem => hLast (List.mem_reverse.mp hMem))
  rcases hParts with ⟨hNone, hBack⟩ | ⟨front, hTail, hBack⟩
  · rw [hNone, hBack, hOne]
    split
    · rfl
    · rfl
  · -- What stands behind the last slash leads somewhere.
    have hStep : isIdle (String.ofList last.reverse) = false := by
      cases last with
      | nil => exact absurd hBack (hSlash front)
      | cons c last =>
          unfold isIdle
          rw [Bool.or_eq_false_iff, beq_eq_false_iff_ne,
            beq_eq_false_iff_ne]
          constructor
          · intro hEmpty
            have hEmpty := congrArg String.toList hEmpty
            simp at hEmpty
          · intro hIdle
            have hIdle := congrArg String.toList hIdle
            rw [String.toList_ofList] at hIdle
            have hIdle := List.reverse_eq_iff.mp hIdle
            rw [hIdle] at hBack
            exact hDot front hBack
    rw [hTail, hBack, List.reverse_cons, List.reverse_append,
      List.reverse_cons, List.append_assoc, List.singleton_append,
      stepsOf_append, stepsOf_append, stepsOf_nil,
      List.append_nil, hOne, hStep]
    simp

/- A path that has a parent starts where the parent starts. -/
theorem isAbsolute_parentOf (path : String) :
    steps (parentOf path) = []
      ∨ isAbsolute (parentOf path) = isAbsolute path := by
  rcases parentOf_eq path with ⟨-, hParent⟩ | hParent
  · left
    rw [hParent]
    rfl
  have hFirst : ∀ p : String,
      isAbsolute p = (p.toList.reverse.getLast? == some '/') := by
    intro p
    rw [List.getLast?_reverse]
    rfl
  rw [hFirst path, hFirst (parentOf path), hParent,
    String.toList_ofList, List.reverse_reverse]
  have hShort := shortens_dropIdle path.toList.reverse
  generalize dropIdle path.toList.reverse = back at *
  rcases cut_slash back with
    ⟨last, -, ⟨hNone, -⟩ | ⟨front, hTail, hBack⟩⟩
  · left
    rw [hNone]
    rfl
  · right
    have hLast : ∀ {left right : List Char},
        left <:+ right → left ≠ [] →
          left.getLast? = right.getLast? := by
      rintro left right ⟨more, rfl⟩ hSome
      rw [List.getLast?_append_of_ne_nil _ hSome]
    have hAgain := shortens_dropIdle ('/' :: front)
    have hSome := hAgain.kept (List.cons_ne_nil _ _)
    have hFront : dropIdle ('/' :: front) <:+ path.toList.reverse := by
      refine (hAgain.front.trans ?_).trans hShort.front
      rw [hBack]
      exact List.suffix_append last _
    rw [hTail, hLast hFront hSome]

end WireSchema.Path
