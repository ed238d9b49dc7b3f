import Mathlib.Data.List.Basic
import Mathlib.Tactic.SplitIfs
import WireSchema.Source.Lexer
import WireSchema.Source.Literal

/-
  The parts of literals.

  Between its quotes a literal is made of parts: characters
  that stand for themselves, and escapes.  An escape of one
  letter stands for a character, one of digits for a byte or
  for the number of a character.  A text is read as what its
  parts stand for exactly if all escapes in it are some of
  those with one letter.

  Key definitions include:
    * `LiteralPart`
    * `LiteralPart.bytes`
    * `LiteralPart.IsKept`
    * `LiteralPart.read_eq_iff`
-/

namespace WireSchema.Source

------------------------------------------------------------
-- Parts
------------------------------------------------------------

/-
  A part of a literal: a character as it is, or what follows a
  backslash, which is one mark, octal digits, or a mark and
  hexadecimal digits.
-/
inductive LiteralPart where
  | plain (c : Char)
  | escape (mark : Char)
  | octal (digits : List Char)
  | coded (mark : Char) (digits : List Char)
  deriving DecidableEq, Repr, Inhabited

/- The characters that single marks stand for. -/
def marked? : Char → Option Char
  | 'a' => some '\x07'
  | 'b' => some '\x08'
  | 'f' => some '\x0c'
  | 'n' => some '\n'
  | 'r' => some '\r'
  | 't' => some '\t'
  | 'v' => some '\x0b'
  | '\\' => some '\\'
  | '\'' => some '\''
  | '"' => some '"'
  | _ => none

namespace LiteralPart

/- A part as it is written. -/
def spelled : LiteralPart → List Char
  | .plain c => [c]
  | .escape mark => ['\\', mark]
  | .octal digits => '\\' :: digits
  | .coded mark digits => '\\' :: mark :: digits

/- The character of a part without digits. -/
def single? : LiteralPart → Option Char
  | .plain c => some c
  | .escape mark => marked? mark
  | _ => none

/- The number that a part stands for. -/
def number? : LiteralPart → Option Nat
  | .octal digits => naturalOf? 8 digits
  | .coded _ digits => naturalOf? 16 digits
  | p => p.single?.map Char.toNat

/- Whether the number is a byte, and not a character. -/
def isByte : LiteralPart → Bool
  | .octal _ => true
  | .coded mark _ => mark == 'x'
  | _ => false

/- What a part adds to the bytes of a text. -/
def bytes (p : LiteralPart) : List UInt8 :=
  match p.number? with
  | some n =>
      if p.isByte then [UInt8.ofNat n]
      else String.utf8EncodeChar (Char.ofNat n)
  | none => []

/-
  The parts that may stand between quotes of a kind.  A quote
  is only escaped between quotes of its own kind.
-/
def IsValid (quote : Char) : LiteralPart → Prop
  | .plain c => c ≠ quote ∧ c ≠ '\\' ∧ c ≠ '\n' ∧ c ≠ '\x00'
  | .escape mark =>
      (marked? mark).isSome = true
        ∧ (mark = '"' ∨ mark = '\'' → mark = quote)
  | .octal digits =>
      digits.length = 3 ∧ (∀ d ∈ digits, isOctal d = true)
        ∧ ∃ n, naturalOf? 8 digits = some n ∧ n < 256
  | .coded mark digits =>
      escapeDigits? mark = some digits.length
        ∧ (∀ d ∈ digits, isHex d = true)
        ∧ ∃ n, naturalOf? 16 digits = some n
          ∧ (mark ≠ 'x' → n.isValidChar)

/- The parts that are read as what they stand for. -/
def IsKept : LiteralPart → Prop
  | .plain _ => True
  | .escape mark => mark ∈ ['n', 'r', 't', '\\', '\'', '"']
  | _ => False

/- What a part is read as. -/
def read : LiteralPart → List Char
  | .plain c => [c]
  | .escape mark => [escaped mark]
  | .octal [] => []
  | .octal (d :: digits) => escaped d :: digits
  | .coded mark digits => escaped mark :: digits

end LiteralPart

------------------------------------------------------------
-- Reading Parts
------------------------------------------------------------

namespace LiteralPart

variable {p : LiteralPart}
variable {quote : Char}

theorem ne_backslash_of_isOctal
    {d : Char}
    (h : isOctal d = true) : d ≠ '\\' := by
  rintro rfl
  exact absurd h (by decide)

theorem ne_backslash_of_isHex
    {d : Char}
    (h : isHex d = true) : d ≠ '\\' := by
  rintro rfl
  exact absurd h (by decide)

theorem decodeEscapes_cons
    {c : Char}
    (h : c ≠ '\\')
    (s : List Char) :
    decodeEscapes (c :: s) = c :: decodeEscapes s := by
  rw [decodeEscapes.eq_def]
  split
  · next hNil => cases hNil
  · next hLast => exact absurd (List.cons.inj hLast).1 h
  · next hEscape => exact absurd (List.cons.inj hEscape).1 h
  · next hCons =>
      cases hCons
      rfl

theorem decodeEscapes_plain
    {cs : List Char}
    (h : ∀ c ∈ cs, c ≠ '\\')
    (s : List Char) :
    decodeEscapes (cs ++ s) = cs ++ decodeEscapes s := by
  induction cs with
  | nil => rfl
  | cons c cs ih =>
      rw [List.cons_append, List.cons_append,
        decodeEscapes_cons (h c List.mem_cons_self),
        ih fun d hd => h d (List.mem_cons_of_mem c hd)]

/- Each part is read by itself. -/
theorem decodeEscapes_spelled
    (hValid : p.IsValid quote)
    (s : List Char) :
    decodeEscapes (p.spelled ++ s) =
      p.read ++ decodeEscapes s := by
  cases p with
  | plain c => exact decodeEscapes_cons hValid.2.1 s
  | escape mark => rfl
  | octal digits =>
      cases digits with
      | nil => cases hValid.1
      | cons d digits =>
          have hDigits : ∀ e ∈ digits, e ≠ '\\' := fun e he =>
            ne_backslash_of_isOctal
              (hValid.2.1 e (List.mem_cons_of_mem d he))
          exact congrArg (escaped d :: ·)
            (decodeEscapes_plain hDigits s)
  | coded mark digits =>
      have hDigits : ∀ e ∈ digits, e ≠ '\\' := fun e he =>
        ne_backslash_of_isHex (hValid.2.1 e he)
      exact congrArg (escaped mark :: ·)
        (decodeEscapes_plain hDigits s)

theorem decodeEscapes_flatMap
    {parts : List LiteralPart}
    (hValid : ∀ p ∈ parts, p.IsValid quote) :
    decodeEscapes (parts.flatMap spelled) = parts.flatMap read := by
  induction parts with
  | nil => rfl
  | cons p rest ih =>
      rw [List.flatMap_cons, List.flatMap_cons,
        decodeEscapes_spelled (hValid p List.mem_cons_self),
        ih fun q hq => hValid q (List.mem_cons_of_mem p hq)]

/- Something is read for every part, and for digits more than
   one character. -/
theorem one_le_length_read
    (hValid : p.IsValid quote) : 1 ≤ p.read.length := by
  cases p with
  | plain | escape | coded => simp [read]
  | octal digits =>
      cases digits with
      | nil => cases hValid.1
      | cons => simp [read]

theorem isSome_single?_of_length
    (hValid : p.IsValid quote)
    (h : p.read.length ≤ 1) : p.single?.isSome = true := by
  cases p with
  | plain => rfl
  | escape => exact hValid.1
  | octal digits =>
      obtain ⟨a, b, c, rfl⟩ := List.length_eq_three.mp hValid.1
      simp [read] at h
  | coded mark digits =>
      have hLength := hValid.1
      unfold escapeDigits? at hLength
      simp only [read, List.length_cons] at h
      split at hLength <;> simp_all

/- The parts that are kept are read as their characters. -/
theorem isKept_iff
    {c : Char}
    (h : p.single? = some c) : p.IsKept ↔ p.read = [c] := by
  cases p with
  | plain d =>
      obtain rfl := Option.some.inj h
      simp [IsKept, read]
  | escape mark =>
      simp only [single?] at h
      unfold marked? at h
      unfold IsKept read
      split at h <;> cases h <;> decide
  | octal | coded => cases h

theorem exists_single?_of_isKept
    (h : p.IsKept) : ∃ c, p.single? = some c := by
  cases p with
  | plain c => exact ⟨c, rfl⟩
  | escape mark =>
      simp only [IsKept, List.mem_cons, List.not_mem_nil, or_false]
        at h
      rcases h with rfl | rfl | rfl | rfl | rfl | rfl <;>
        exact ⟨_, rfl⟩
  | octal | coded => cases h

theorem number?_of_single?
    {c : Char}
    (h : p.single? = some c) : p.number? = some c.toNat := by
  cases p with
  | plain | escape => simp [number?, h]
  | octal | coded => cases h

theorem bytes_of_single?
    {c : Char}
    (h : p.single? = some c) :
    p.bytes = String.utf8EncodeChar c := by
  have hByte : p.isByte = false := by
    cases p with
    | plain | escape => rfl
    | octal | coded => cases h
  unfold bytes
  rw [number?_of_single? h, hByte]
  simp [Char.ofNat_toNat]

end LiteralPart

------------------------------------------------------------
-- Bytes
------------------------------------------------------------

/- A byte that no other byte of its character is in front of. -/
def isLead (b : UInt8) : Bool :=
  b.toNat / 64 != 2

theorem isLead_ofNat
    {n : Nat}
    (hByte : n < 256) :
    isLead (UInt8.ofNat n) = true ↔ n < 128 ∨ 192 ≤ n := by
  unfold isLead
  rw [UInt8.toNat_ofNat', Nat.mod_eq_of_lt hByte, bne_iff_ne]
  omega

theorem isLead_tail (n : Nat) :
    isLead (UInt8.ofNat (n % 64 + 128)) = false := by
  rw [← Bool.not_eq_true, isLead_ofNat (by omega)]
  omega

/- Each character has one byte to begin with. -/
theorem countP_isLead_utf8EncodeChar (c : Char) :
    (String.utf8EncodeChar c).countP isLead = 1 := by
  have hHead : ∀ {n : Nat} {rest : List UInt8}, n < 256 →
      n < 128 ∨ 192 ≤ n → (∀ b ∈ rest, isLead b = false) →
      (UInt8.ofNat n :: rest).countP isLead = 1 := by
    intro n rest hByte hLead hRest
    have hNone : rest.countP isLead = 0 :=
      List.countP_eq_zero.mpr fun b hb => by simp [hRest b hb]
    rw [List.countP_cons_of_pos ((isLead_ofNat hByte).mpr hLead),
      hNone]
  unfold String.utf8EncodeChar
  dsimp only
  split_ifs
  · exact hHead (by omega) (by omega) nofun
  · refine hHead (by omega) (by omega) ?_
    exact List.forall_mem_singleton.mpr (isLead_tail _)
  · refine hHead (by omega) (by omega) ?_
    exact List.forall_mem_cons.mpr ⟨isLead_tail _,
      List.forall_mem_singleton.mpr (isLead_tail _)⟩
  · refine hHead (by omega) (by omega) ?_
    exact List.forall_mem_cons.mpr ⟨isLead_tail _,
      List.forall_mem_cons.mpr ⟨isLead_tail _,
        List.forall_mem_singleton.mpr (isLead_tail _)⟩⟩

theorem countP_isLead_flatMap (s : List Char) :
    (s.flatMap String.utf8EncodeChar).countP isLead = s.length := by
  induction s with
  | nil => rfl
  | cons c s ih =>
      rw [List.flatMap_cons, List.countP_append, ih,
        countP_isLead_utf8EncodeChar, List.length_cons,
        Nat.add_comm]

/- Texts are told apart by their bytes. -/
theorem utf8_injective
    {s t : List Char}
    (h : s.flatMap String.utf8EncodeChar =
      t.flatMap String.utf8EncodeChar) : s = t := by
  have hText : String.ofList s = String.ofList t := by
    rw [← String.toByteArray_inj, String.toByteArray_ofList,
      String.toByteArray_ofList]
    exact congrArg List.toByteArray h
  simpa using congrArg String.toList hText

namespace LiteralPart

variable {parts : List LiteralPart}
variable {quote : Char}

theorem countP_isLead_bytes_le (p : LiteralPart) :
    p.bytes.countP isLead ≤ 1 := by
  unfold bytes
  split
  · split
    · exact List.countP_le_length
    · exact Nat.le_of_eq (countP_isLead_utf8EncodeChar _)
  · exact Nat.zero_le 1

/- A text has no more characters than parts. -/
theorem length_le_of_bytes
    {s : List Char}
    (h : parts.flatMap bytes = s.flatMap String.utf8EncodeChar) :
    s.length ≤ parts.length := by
  rw [← countP_isLead_flatMap, ← h]
  clear h
  induction parts with
  | nil => exact Nat.le_refl 0
  | cons p rest ih =>
      have hPart := p.countP_isLead_bytes_le
      rw [List.flatMap_cons, List.countP_append, List.length_cons]
      omega

/- If no more is read than there are parts, each is read as one
   character. -/
theorem length_read_le_one
    (hValid : ∀ p ∈ parts, p.IsValid quote)
    (h : (parts.flatMap read).length ≤ parts.length) :
    ∀ p ∈ parts, p.read.length ≤ 1 := by
  have hLeast : ∀ ps : List LiteralPart,
      (∀ p ∈ ps, p.IsValid quote) →
        ps.length ≤ (ps.flatMap read).length := by
    intro ps
    induction ps with
    | nil => exact fun _ => Nat.le_refl 0
    | cons p rest ih =>
        intro hAll
        have hPart := one_le_length_read (hAll p List.mem_cons_self)
        have hRest := ih fun q hq =>
          hAll q (List.mem_cons_of_mem p hq)
        rw [List.flatMap_cons, List.length_append, List.length_cons]
        omega
  induction parts with
  | nil => nofun
  | cons p rest ih =>
      have hPart := one_le_length_read (hValid p List.mem_cons_self)
      have hOthers : ∀ q ∈ rest, q.IsValid quote := fun q hq =>
        hValid q (List.mem_cons_of_mem p hq)
      have hRest := hLeast rest hOthers
      rw [List.flatMap_cons, List.length_append, List.length_cons]
        at h
      rintro q hq
      rcases List.mem_cons.mp hq with rfl | hq
      · omega
      · exact ih hOthers (by omega) q hq

/- Parts without digits make up the text of their characters. -/
theorem eq_map_of_bytes
    {s : List Char}
    (hSingle : ∀ p ∈ parts, p.single?.isSome = true)
    (h : parts.flatMap bytes = s.flatMap String.utf8EncodeChar) :
    s = parts.filterMap single? := by
  have hBytes : ∀ ps : List LiteralPart,
      (∀ p ∈ ps, p.single?.isSome = true) →
        ps.flatMap bytes =
          (ps.filterMap single?).flatMap String.utf8EncodeChar := by
    intro ps
    induction ps with
    | nil => exact fun _ => rfl
    | cons p rest ih =>
        intro hAll
        rcases Option.isSome_iff_exists.mp
          (hAll p List.mem_cons_self) with ⟨c, hc⟩
        rw [List.flatMap_cons, List.filterMap_cons_some hc,
          List.flatMap_cons, bytes_of_single? hc,
          ih fun q hq => hAll q (List.mem_cons_of_mem p hq)]
  exact utf8_injective (h.symm.trans (hBytes parts hSingle))

/- Parts are read as their characters if they are all kept. -/
theorem read_eq_filterMap_iff
    (hSingle : ∀ p ∈ parts, p.single?.isSome = true) :
    parts.flatMap read = parts.filterMap single?
      ↔ ∀ p ∈ parts, p.IsKept := by
  induction parts with
  | nil => exact iff_of_true rfl nofun
  | cons p rest ih =>
      rcases Option.isSome_iff_exists.mp
        (hSingle p List.mem_cons_self) with ⟨c, hc⟩
      have hRest := ih fun q hq =>
        hSingle q (List.mem_cons_of_mem p hq)
      have hOne : ∃ d, p.read = [d] := by
        cases p with
        | plain d => exact ⟨d, rfl⟩
        | escape mark => exact ⟨escaped mark, rfl⟩
        | octal | coded => cases hc
      obtain ⟨d, hd⟩ := hOne
      rw [List.flatMap_cons, List.filterMap_cons_some hc,
        List.forall_mem_cons, isKept_iff hc, ← hRest, hd,
        List.singleton_append, List.cons.injEq, List.cons.injEq]
      simp

/-
  A text is read as what it stands for exactly if all parts
  are kept.  Otherwise it has more characters than parts, or
  another one in the place of a part.
-/
theorem read_eq_iff
    {s : List Char}
    (hValid : ∀ p ∈ parts, p.IsValid quote)
    (h : parts.flatMap bytes = s.flatMap String.utf8EncodeChar) :
    parts.flatMap read = s ↔ ∀ p ∈ parts, p.IsKept := by
  constructor
  · rintro rfl
    have hLengths :=
      length_read_le_one hValid (length_le_of_bytes h)
    have hSingle : ∀ p ∈ parts, p.single?.isSome = true :=
      fun p hp => isSome_single?_of_length (hValid p hp)
        (hLengths p hp)
    exact (read_eq_filterMap_iff hSingle).mp
      (eq_map_of_bytes hSingle h)
  · intro hKept
    have hSingle : ∀ p ∈ parts, p.single?.isSome = true :=
      fun p hp => Option.isSome_iff_exists.mpr
        (exists_single?_of_isKept (hKept p hp))
    rw [eq_map_of_bytes hSingle h]
    exact (read_eq_filterMap_iff hSingle).mpr hKept

end LiteralPart

end WireSchema.Source
