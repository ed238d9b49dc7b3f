import Mathlib.Tactic.SplitIfs
import WireSchema.Emit.Scope
import WireSchema.Source.Literal

/-
  String literals of emitted code, and what they stand for.

  The emitted language has texts of units with 16 bits; a
  character beyond them takes two.  A literal is read one
  character at a time: a backslash begins an escape, and a
  quote that no backslash hides ends the literal.  What is
  read from a quoted text are the units of the text, and no
  other text has the same ones.  So the keys of properties
  tell their names apart.

  Key definitions include:
    * `unitsOf`, `utf16`, `utf16_injective`
    * `LiteralState`, `LiteralState.step`
    * `literalUnits?`, `keyUnits?`
    * `hidesNext`
    * `quote_denotes`
-/

namespace WireSchema

------------------------------------------------------------
-- Units
------------------------------------------------------------

/- The units that stand for the character with a number. -/
def unitsOf (n : Nat) : List Nat :=
  if n < 0x10000 then [n]
  else
    [0xD800 + (n - 0x10000) / 0x400,
      0xDC00 + (n - 0x10000) % 0x400]

def utf16 (s : String) : List Nat :=
  s.toList.flatMap fun c => unitsOf c.toNat

/- No number of a character is one of half a character. -/
theorem toNat_valid (c : Char) :
    c.toNat < 0xD800 ∨ (0xDFFF < c.toNat ∧ c.toNat < 0x110000) :=
  c.valid

/- The first units of a text tell its first character. -/
theorem unitsOf_append_inj
    {c d : Char}
    {s t : List Nat}
    (h : unitsOf c.toNat ++ s = unitsOf d.toNat ++ t) :
    c = d ∧ s = t := by
  have hc := toNat_valid c
  have hd := toNat_valid d
  have hBoth : c.toNat = d.toNat ∧ s = t := by
    unfold unitsOf at h
    split_ifs at h with hShort hOther hOther
    · simpa using h
    · simp only [List.cons_append, List.cons.injEq] at h
      omega
    · simp only [List.cons_append, List.cons.injEq] at h
      omega
    · simp only [List.cons_append, List.nil_append,
        List.cons.injEq] at h
      exact ⟨by omega, h.2.2⟩
  exact ⟨Char.toNat_inj.mp hBoth.1, hBoth.2⟩

theorem unitsOf_ne_nil (n : Nat) : unitsOf n ≠ [] := by
  unfold unitsOf
  split
  · exact List.cons_ne_nil _ _
  · exact List.cons_ne_nil _ _

/- The units of a text tell it from all others. -/
theorem utf16_injective : Function.Injective utf16 := by
  have hChars : ∀ s t : List Char,
      s.flatMap (fun c => unitsOf c.toNat) =
        t.flatMap (fun c => unitsOf c.toNat) → s = t := by
    intro s
    induction s with
    | nil =>
        intro t h
        cases t with
        | nil => rfl
        | cons d t => simp [unitsOf_ne_nil] at h
    | cons c s ih =>
        intro t h
        cases t with
        | nil => simp [unitsOf_ne_nil] at h
        | cons d t =>
            rw [List.flatMap_cons, List.flatMap_cons] at h
            rcases unitsOf_append_inj h with ⟨rfl, hRest⟩
            rw [ih t hRest]
  intro s t h
  exact String.toList_injective (hChars _ _ h)

------------------------------------------------------------
-- Literals
------------------------------------------------------------

/-
  Where a reader of a literal stands: between two parts of it,
  or inside an escape.
-/
inductive LiteralState where
  | plain
  | hidden
  | zero
  | lineEnd
  | digits (left n : Nat)
  | unit
  | point (n? : Option Nat)
  | closed
  deriving DecidableEq, Repr

namespace LiteralState

/- The state behind a character, and the units that are read. -/
abbrev Step := Option (LiteralState × List Nat)

/-
  A character that no backslash hides.  Of the characters that
  end a line only two cannot stand in a literal.
-/
def stepPlain (c : Char) : Step :=
  if c = '"' then some (.closed, [])
  else if c = '\\' then some (.hidden, [])
  else if c = '\n' ∨ c = '\r' then none
  else some (.plain, unitsOf c.toNat)

/-
  A character behind a backslash.  The end of a line stands
  for nothing there.  Of the digits only a zero may stand
  there; most other characters stand for themselves.
-/
def stepHidden (c : Char) : Step :=
  match c with
  | 'b' => some (.plain, [0x08])
  | 't' => some (.plain, [0x09])
  | 'n' => some (.plain, [0x0A])
  | 'v' => some (.plain, [0x0B])
  | 'f' => some (.plain, [0x0C])
  | 'r' => some (.plain, [0x0D])
  | 'x' => some (.digits 2 0, [])
  | 'u' => some (.unit, [])
  | '0' => some (.zero, [0])
  | '\r' => some (.lineEnd, [])
  | '\n' => some (.plain, [])
  | '\u2028' => some (.plain, [])
  | '\u2029' => some (.plain, [])
  | c =>
      if c.isDigit then none
      else some (.plain, unitsOf c.toNat)

/- A digit of an escape with a number of digits left. -/
def stepDigits (left n : Nat) (c : Char) : Step :=
  (Source.digitValue? 16 c).map fun d =>
    if left ≤ 1 then (.plain, [n * 16 + d])
    else (.digits (left - 1) (n * 16 + d), [])

/- A digit of a number in braces, or the closing one. -/
def stepPoint (n? : Option Nat) (c : Char) : Step :=
  match n? with
  | some n =>
      if c = '\x7d' then some (.plain, unitsOf n)
      else
        (Source.digitValue? 16 c).bind fun d =>
          if n * 16 + d ≤ 0x10FFFF then
            some (.point (some (n * 16 + d)), [])
          else none
  | none =>
      (Source.digitValue? 16 c).map fun d => (.point (some d), [])

def step (c : Char) : LiteralState → Step
  | .plain => stepPlain c
  | .hidden => stepHidden c
  | .zero => if c.isDigit then none else stepPlain c
  | .lineEnd =>
      if c = '\n' then some (.plain, []) else stepPlain c
  | .digits left n => stepDigits left n c
  | .unit =>
      if c = '\x7b' then some (.point none, [])
      else stepDigits 4 0 c
  | .point n? => stepPoint n? c
  | .closed => none

/- The units that are read up to the end of a text. -/
def units? : LiteralState → List Char → Option (List Nat)
  | st, [] => if st = .closed then some [] else none
  | st, c :: s =>
      (st.step c).bind fun p =>
        (p.1.units? s).map fun more => p.2 ++ more

end LiteralState

/- What a literal in double quotes stands for. -/
def literalUnits? : List Char → Option (List Nat)
  | '"' :: s => LiteralState.plain.units? s
  | _ => none

/- The name that a key of a property stands for. -/
def keyUnits? (key : String) : Option (List Nat) :=
  if isIdentifier key.toList then some (utf16 key)
  else literalUnits? key.toList

------------------------------------------------------------
-- Quoted Texts
------------------------------------------------------------

open LiteralState

theorem digitValue?_hexCharacter :
    ∀ n < 16, Source.digitValue? 16 (Text.hexCharacter n) = some n := by
  decide

section Steps

variable {st next : LiteralState}
variable {c : Char}

/- A character that nothing is read from yet. -/
theorem units?_silent
    (h : st.step c = some (next, []))
    (s : List Char) : st.units? (c :: s) = next.units? s := by
  rw [units?, h, Option.bind_some]
  cases next.units? s with
  | none => rfl
  | some more => rfl

/- A character that ends a part of a literal. -/
theorem units?_emits
    {units : List Nat}
    (h : st.step c = some (next, units))
    (s : List Char) :
    st.units? (c :: s) =
      (next.units? s).map fun more => units ++ more := by
  rw [units?, h, Option.bind_some]

end Steps

/- A backslash and one character. -/
theorem units?_short
    {mark : Char}
    {units : List Nat}
    (h : stepHidden mark = some (.plain, units))
    (s : List Char) :
    plain.units? ('\\' :: mark :: s) =
      (plain.units? s).map fun more => units ++ more := by
  have hOpen : plain.step '\\' = some (.hidden, []) := rfl
  have hMark : hidden.step mark = some (.plain, units) := h
  rw [units?_silent hOpen, units?_emits hMark]

/- A backslash and the four digits of a byte. -/
theorem units?_byte
    {n : Nat}
    (h : n < 0x100)
    (s : List Char) :
    plain.units?
        ('\\' :: 'u' :: '0' :: '0' :: Text.hexCharacter (n / 16)
          :: Text.hexCharacter (n % 16) :: s) =
      (plain.units? s).map fun more => [n] ++ more := by
  have hOpen : plain.step '\\' = some (.hidden, []) := rfl
  have hMark : hidden.step 'u' = some (.unit, []) := rfl
  have hFirst : LiteralState.unit.step '0' =
      some (.digits 3 0, []) := rfl
  have hSecond : (digits 3 0).step '0' = some (.digits 2 0, []) :=
    rfl
  have hHigh : (digits 2 0).step (Text.hexCharacter (n / 16)) =
      some (.digits 1 (n / 16), []) := by
    have hDigit := digitValue?_hexCharacter (n / 16) (by omega)
    simp [step, stepDigits, hDigit]
  have hLow : (digits 1 (n / 16)).step (Text.hexCharacter (n % 16)) =
      some (.plain, [n]) := by
    have hDigit := digitValue?_hexCharacter (n % 16) (by omega)
    have hSum : n / 16 * 16 + n % 16 = n := by omega
    simp [step, stepDigits, hDigit, hSum]
  rw [units?_silent hOpen, units?_silent hMark,
    units?_silent hFirst, units?_silent hSecond,
    units?_silent hHigh, units?_emits hLow]

/- An escaped character is read as itself. -/
theorem units?_escapeForQuote (c : Char) (s : List Char) :
    plain.units? (Text.escapeForQuote c ++ s) =
      (plain.units? s).map fun more => unitsOf c.toNat ++ more := by
  unfold Text.escapeForQuote
  split_ifs with hQuote hSlash hLine hReturn hTab hControl
  · rw [hQuote]
    exact units?_short rfl s
  · rw [hSlash]
    exact units?_short rfl s
  · rw [hLine]
    exact units?_short rfl s
  · rw [hReturn]
    exact units?_short rfl s
  · rw [hTab]
    exact units?_short rfl s
  · have hUnits : unitsOf c.toNat = [c.toNat] :=
      if_pos (by omega)
    rw [hUnits]
    exact units?_byte (by omega) s
  · apply units?_emits
    simp [step, stepPlain, hQuote, hSlash, hLine, hReturn]

theorem toList_quote (s : String) :
    (Text.quote s).toList =
      '"' :: (s.toList.flatMap Text.escapeForQuote ++ ['"']) :=
  String.toList_ofList

theorem units?_escaped (s : List Char) :
    plain.units? (s.flatMap Text.escapeForQuote ++ ['"']) =
      some (s.flatMap fun c => unitsOf c.toNat) := by
  induction s with
  | nil => rfl
  | cons c s ih =>
      rw [List.flatMap_cons, List.flatMap_cons, List.append_assoc,
        units?_escapeForQuote, ih]
      rfl

/- A quoted text is a literal that stands for it. -/
theorem literalUnits?_quote (s : String) :
    literalUnits? (Text.quote s).toList = some (utf16 s) := by
  rw [toList_quote]
  exact units?_escaped s.toList

------------------------------------------------------------
-- Hidden Characters
------------------------------------------------------------

/-
  Whether a text ends with a backslash that hides what comes
  next.  A backslash that is hidden itself hides nothing.
-/
def hidesNext (s : List Char) : Bool :=
  s.foldl (fun hidden c => !hidden && c == '\\') false

theorem hexCharacter_plain :
    ∀ n < 16, Text.hexCharacter n ≠ '"'
      ∧ Text.hexCharacter n ≠ '\\'
      ∧ 0x20 ≤ (Text.hexCharacter n).toNat := by
  decide

/- An escaped character hides nothing behind it. -/
theorem hidesNext_escapeForQuote (c : Char) (s : List Char) :
    hidesNext (Text.escapeForQuote c ++ s) = hidesNext s := by
  have hAlone : hidesNext (Text.escapeForQuote c) = false := by
    unfold Text.escapeForQuote
    split_ifs with hQuote hSlash hLine hReturn hTab hControl
    · rfl
    · rfl
    · rfl
    · rfl
    · rfl
    · have hHigh := hexCharacter_plain (c.toNat / 16) (by omega)
      have hLow := hexCharacter_plain (c.toNat % 16) (by omega)
      simp [hidesNext, hHigh.2.1, hLow.2.1]
    · simp [hidesNext, hSlash]
  unfold hidesNext at hAlone ⊢
  rw [List.foldl_append, hAlone]

theorem hidesNext_escaped (s : List Char) :
    hidesNext (s.flatMap Text.escapeForQuote) = false := by
  induction s with
  | nil => rfl
  | cons c s ih => rw [List.flatMap_cons, hidesNext_escapeForQuote, ih]

/- Only a quote is escaped with a quote. -/
theorem eq_of_quote_mem_escape
    {c : Char}
    (h : '"' ∈ Text.escapeForQuote c) : c = '"' := by
  unfold Text.escapeForQuote at h
  split_ifs at h with hQuote hSlash hLine hReturn hTab hControl
  · exact hQuote
  · simp at h
  · simp at h
  · simp at h
  · simp at h
  · have hHigh := hexCharacter_plain (c.toNat / 16) (by omega)
    have hLow := hexCharacter_plain (c.toNat % 16) (by omega)
    simp [Ne.symm hHigh.1, Ne.symm hLow.1] at h
  · exact (List.mem_singleton.mp h).symm

theorem hidesNext_of_escape
    {c : Char}
    {before after : List Char}
    (h : Text.escapeForQuote c = before ++ '"' :: after) :
    hidesNext before = true := by
  have hQuote : c = '"' := by
    apply eq_of_quote_mem_escape
    rw [h]
    exact List.mem_append_right _ List.mem_cons_self
  subst hQuote
  have hEscape : ['\\', '"'] = before ++ '"' :: after := h
  cases before with
  | nil => simp at hEscape
  | cons d before =>
      cases before with
      | nil =>
          rw [List.singleton_append, List.cons.injEq] at hEscape
          rw [← hEscape.1]
          rfl
      | cons e before => simp at hEscape

/- Every quote in an escaped text is hidden. -/
theorem hidesNext_of_escaped
    {s before after : List Char}
    (h : s.flatMap Text.escapeForQuote = before ++ '"' :: after) :
    hidesNext before = true := by
  induction s generalizing before with
  | nil => simp at h
  | cons c s ih =>
      rw [List.flatMap_cons] at h
      rcases List.append_eq_append_iff.mp h with
        ⟨more, rfl, hRest⟩ | ⟨more, hEscape, hRest⟩
      · rw [hidesNext_escapeForQuote]
        exact ih hRest
      · cases more with
        | nil =>
            rw [List.append_nil] at hEscape
            rw [← hEscape, ← List.append_nil (Text.escapeForQuote c),
              hidesNext_escapeForQuote]
            exact ih hRest.symm
        | cons d more =>
            rw [List.cons_append, List.cons.injEq] at hRest
            rw [← hRest.1] at hEscape
            exact hidesNext_of_escape hEscape

/- The quotes of a literal that are not hidden are its ends. -/
theorem hidesNext_quote_iff
    {s : String}
    {before after : List Char}
    (h : (Text.quote s).toList = before ++ '"' :: after) :
    hidesNext before = false ↔ before = [] ∨ after = [] := by
  rw [toList_quote] at h
  cases before with
  | nil => exact iff_of_true rfl (.inl rfl)
  | cons d before =>
      rw [List.cons_append, List.cons.injEq] at h
      rcases h with ⟨rfl, h⟩
      have hOpen : hidesNext ('"' :: before) = hidesNext before := rfl
      rw [hOpen]
      rcases List.eq_nil_or_concat after with rfl | ⟨more, d, rfl⟩
      · have hBody := (List.append_inj' h rfl).1
        rw [← hBody, hidesNext_escaped]
        simp
      · rw [List.concat_eq_append, ← List.cons_append,
          ← List.append_assoc] at h
        have hHidden :=
          hidesNext_of_escaped (List.append_inj' h rfl).1
        simp [hHidden]

/- No control character is left. -/
theorem le_toNat_of_mem_escape (c : Char) :
    ∀ d ∈ Text.escapeForQuote c, 0x20 ≤ d.toNat := by
  unfold Text.escapeForQuote
  split_ifs with hQuote hSlash hLine hReturn hTab hControl
  · simp
  · simp
  · simp
  · simp
  · simp
  · have hHigh := hexCharacter_plain (c.toNat / 16) (by omega)
    have hLow := hexCharacter_plain (c.toNat % 16) (by omega)
    simp [hHigh.2.2, hLow.2.2]
  · intro d hd
    rw [List.mem_singleton.mp hd]
    omega

theorem le_toNat_of_mem_quote
    {s : String}
    {c : Char}
    (h : c ∈ (Text.quote s).toList) : 0x20 ≤ c.toNat := by
  have hMark : 0x20 ≤ '"'.toNat := by decide
  rw [toList_quote] at h
  rcases List.mem_cons.mp h with rfl | h
  · exact hMark
  · rcases List.mem_append.mp h with hBody | hLast
    · rcases List.mem_flatMap.mp hBody with ⟨d, -, hEscape⟩
      exact le_toNat_of_mem_escape d c hEscape
    · rw [List.mem_singleton.mp hLast]
      exact hMark

------------------------------------------------------------
-- Keys
------------------------------------------------------------

/- The key of a property stands for the name of it. -/
theorem keyUnits?_propertyKey (name : String) :
    keyUnits? (propertyKey name) = some (utf16 name) := by
  unfold propertyKey
  split
  · next hName => simp [keyUnits?, hName]
  · have hQuote : isIdentifier (Text.quote name).toList = false := by
      rw [toList_quote]
      rfl
    unfold keyUnits?
    rw [hQuote]
    exact literalUnits?_quote name

theorem propertyKey_injective : Function.Injective propertyKey := by
  intro a b h
  have hUnits := keyUnits?_propertyKey a
  rw [h, keyUnits?_propertyKey b] at hUnits
  exact utf16_injective (Option.some.inj hUnits.symm)

------------------------------------------------------------
-- Faithful Literals
------------------------------------------------------------

/-
  A text in quotes begins and ends with a quote, and these are
  the only quotes in it that are not hidden.  It holds no
  control character, and it is a literal that stands for the
  units of this text and of no other.  So each key of a
  property stands for its name, and no two names have one key.
-/
theorem quote_denotes (s : String) :
    let text := (Text.quote s).toList
    (∃ body, text = '"' :: (body ++ ['"']))
      ∧ (∀ before after, text = before ++ '"' :: after →
        (hidesNext before = false ↔ before = [] ∨ after = []))
      ∧ (∀ c ∈ text, 0x20 ≤ c.toNat)
      ∧ (∀ t, literalUnits? text = some (utf16 t) ↔ t = s)
      ∧ (∀ name, keyUnits? (propertyKey name) = some (utf16 name))
      ∧ Function.Injective propertyKey := by
  refine ⟨?ends, ?hidden, ?control, ?value, ?key, ?distinct⟩
  case ends => exact ⟨_, toList_quote s⟩
  case hidden =>
    intro before after hText
    exact hidesNext_quote_iff hText
  case control =>
    intro c hc
    exact le_toNat_of_mem_quote hc
  case value =>
    intro t
    rw [literalUnits?_quote, Option.some.injEq]
    exact ⟨fun h => utf16_injective h.symm, fun h => by rw [h]⟩
  case key => exact keyUnits?_propertyKey
  case distinct => exact propertyKey_injective

/- A quote, and a control character in front of a digit. -/
theorem quote_denotes_control :
    Text.quote "\"\x01f" = "\"\\\"\\u0001f\""
      ∧ (Text.quote "\"\x01f").toList =
        ['"', '\\'] ++ '"' :: "\\u0001f\"".toList
      ∧ (hidesNext ['"', '\\'] = false ↔
        ['"', '\\'] = [] ∨ "\\u0001f\"".toList = [])
      ∧ 'f' ∈ (Text.quote "\"\x01f").toList
      ∧ 0x20 ≤ 'f'.toNat
      ∧ ∀ t, literalUnits? (Text.quote "\"\x01f").toList =
        some (utf16 t) ↔ t = "\"\x01f" := by
  have hSplit : (Text.quote "\"\x01f").toList =
      ['"', '\\'] ++ '"' :: "\\u0001f\"".toList := by
    decide
  have hMem : 'f' ∈ (Text.quote "\"\x01f").toList := by
    decide
  rcases quote_denotes "\"\x01f" with
    ⟨-, hHidden, hControl, hValue, -⟩
  exact ⟨by decide, hSplit, hHidden _ _ hSplit, hMem,
    hControl 'f' hMem, hValue⟩

end WireSchema
