/-
  Blank characters, and texts that are trimmed of them at
  their ends.

  Key definitions include:
    * `isBlank`
    * `trimStart`, `trimEnd`, `trim`
    * `IsTrimmed`, `isTrimmed_trim`, `IsTrimmed.trim_eq`

  A blank is a character with the Unicode property
  White_Space.  Texts are lists of characters; the functions
  on `String` are the same functions behind `toList` and
  `ofList`.
-/

namespace WireSchema.Text

------------------------------------------------------------
-- The Blank Characters
------------------------------------------------------------

/- The characters with the property White_Space. -/
def isBlank (c : Char) : Bool :=
  let n := c.toNat
  (9 ≤ n && n ≤ 13) || n == 32 || n == 0x85 || n == 0xA0
    || n == 0x1680 || (0x2000 ≤ n && n ≤ 0x200A)
    || n == 0x2028 || n == 0x2029 || n == 0x202F
    || n == 0x205F || n == 0x3000

------------------------------------------------------------
-- Trimming
------------------------------------------------------------

/- Drop the characters of a class at the end of a text. -/
def dropEndWhile
    (p : Char → Bool)
    (s : List Char) : List Char :=
  (s.reverse.dropWhile p).reverse

/- Drop the characters of a class at both ends of a text. -/
def dropEdgesWhile
    (p : Char → Bool)
    (s : List Char) : List Char :=
  dropEndWhile p (s.dropWhile p)

/- Drop the blanks at the start of a text. -/
def trimStart (s : List Char) : List Char :=
  s.dropWhile isBlank

/- Drop the blanks at the end of a text. -/
def trimEnd (s : List Char) : List Char :=
  dropEndWhile isBlank s

/- Drop the blanks at both ends of a text. -/
def trim (s : List Char) : List Char :=
  dropEdgesWhile isBlank s

/- Trimming on strings. -/
def trimString (s : String) : String :=
  String.ofList (trim s.toList)

/- A text never grows when its start is trimmed. -/
theorem length_dropWhile_le
    (p : Char → Bool)
    (s : List Char) :
    (s.dropWhile p).length ≤ s.length := by
  induction s with
  | nil => simp
  | cons c s ih =>
      rw [List.dropWhile_cons]
      split
      · exact Nat.le_succ_of_le ih
      · exact Nat.le_refl _

------------------------------------------------------------
-- Trimmed Texts
------------------------------------------------------------

variable {s : List Char}

theorem dropWhile_of_head
    {p : Char → Bool}
    (h : ∀ c ∈ s.head?, p c = false) : s.dropWhile p = s := by
  cases s with
  | nil => rfl
  | cons c s =>
      have hc := h c rfl
      rw [List.dropWhile_cons_of_neg (by simp [hc])]

theorem head_of_dropWhile
    {p : Char → Bool}
    {c : Char}
    (h : c ∈ (s.dropWhile p).head?) : p c = false := by
  have hFirst := List.head?_dropWhile_not p s
  rw [Option.mem_def.mp h] at hFirst
  exact hFirst

/- What is dropped stands at the end. -/
theorem exists_dropEndWhile_append
    (p : Char → Bool)
    (s : List Char) : ∃ more, dropEndWhile p s ++ more = s := by
  rcases List.dropWhile_suffix p (l := s.reverse) with
    ⟨front, hFront⟩
  have hBack := congrArg List.reverse hFront
  rw [List.reverse_append, List.reverse_reverse] at hBack
  exact ⟨front.reverse, hBack⟩

/- A text without a blank at its ends. -/
structure IsTrimmed (s : List Char) : Prop where
  first : ∀ c ∈ s.head?, isBlank c = false
  last : ∀ c ∈ s.getLast?, isBlank c = false

/- Only the ends of a text count. -/
theorem isTrimmed_between
    {a b : Char}
    (ha : isBlank a = false)
    (hb : isBlank b = false)
    (s : List Char) : IsTrimmed (a :: (s ++ [b])) := by
  constructor
  · intro c hc
    rwa [← Option.some.inj hc]
  · intro c hc
    rw [← List.cons_append, List.getLast?_concat] at hc
    rwa [← Option.some.inj hc]

/- Trimming leaves no blank at the ends of a text. -/
theorem isTrimmed_trim (s : List Char) : IsTrimmed (trim s) := by
  constructor
  · intro c hc
    rcases exists_dropEndWhile_append isBlank
        (s.dropWhile isBlank) with ⟨more, hMore⟩
    apply head_of_dropWhile (s := s)
    rw [← hMore, List.head?_append]
    unfold trim dropEdgesWhile at hc
    rw [Option.mem_def.mp hc]
    rfl
  · intro c hc
    unfold trim dropEdgesWhile dropEndWhile at hc
    rw [List.getLast?_reverse] at hc
    exact head_of_dropWhile hc

/- A trimmed text stays as it is. -/
theorem IsTrimmed.trim_eq (h : IsTrimmed s) : trim s = s := by
  have hBack : ∀ c ∈ s.reverse.head?, isBlank c = false := by
    rw [List.head?_reverse]
    exact h.last
  unfold trim dropEdgesWhile dropEndWhile
  rw [dropWhile_of_head h.first, dropWhile_of_head hBack,
    List.reverse_reverse]

/- Trimming a second time changes nothing. -/
theorem trim_trim (s : List Char) : trim (trim s) = trim s :=
  (isTrimmed_trim s).trim_eq

/- Trimming adds no character. -/
theorem mem_of_mem_trim
    {c : Char}
    (h : c ∈ trim s) : c ∈ s := by
  rcases exists_dropEndWhile_append isBlank
      (s.dropWhile isBlank) with ⟨more, hMore⟩
  have hFront : c ∈ s.dropWhile isBlank := by
    rw [← hMore]
    exact List.mem_append_left more h
  exact (List.dropWhile_sublist isBlank).mem hFront

end WireSchema.Text
