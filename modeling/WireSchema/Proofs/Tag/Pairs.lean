import Mathlib.Tactic.SplitIfs
import WireSchema.Tag.Basic

/-
  Tags that are spelled and read again.

  A pair is spelled as its key, a colon, and its value in
  double quotes, with a backslash in front of what could end
  the value.  The pairs of a tag stand with blanks between
  them, and the tag stands by itself or as a literal in quotes
  of either kind.  Reading it gives the pairs in order; a key
  without characters ends them.

  Key definitions include:
    * `FieldTag.escape`, `FieldTag.pairText`
    * `FieldTag.Wrapping`, `FieldTag.spelled`
    * `FieldTag.IsKey`
    * `FieldTag.readPairs_spelled`
    * `FieldTag.entries_parse_spelled`
-/

namespace WireSchema

namespace FieldTag

------------------------------------------------------------
-- Spelled Tags
------------------------------------------------------------

/- How a character stands between double quotes. -/
def escapeChar (c : Char) : List Char :=
  if c = '"' then ['\\', '"']
  else if c = '\\' then ['\\', '\\']
  else if c = '\n' then ['\\', 'n']
  else if c = '\t' then ['\\', 't']
  else [c]

def escape (s : List Char) : List Char :=
  s.flatMap escapeChar

/- A key with its value. -/
def pairText (p : String × String) : String :=
  p.1 ++ ":\"" ++ String.ofList (escape p.2.toList) ++ "\""

/- Pairs with blanks between them. -/
def pairsText (pairs : List (String × String)) : String :=
  Text.joinWith " " (pairs.map pairText)

/- The ways to write a tag: as it is, or as a literal. -/
inductive Wrapping where
  | bare
  | raw
  | interpreted
  deriving DecidableEq, Repr

/- A tag in the source; a literal may need escapes again. -/
def Wrapping.wrap (content : List Char) :
    Wrapping → List Char
  | .bare => content
  | .raw => backquote :: (content ++ [backquote])
  | .interpreted => '"' :: (escape content ++ ['"'])

def spelled
    (w : Wrapping)
    (pairs : List (String × String)) : String :=
  String.ofList (w.wrap (pairsText pairs).toList)

/-
  Printable characters of seven bits, without the blank, the
  colon and the double quote.
-/
def isKeyChar (c : Char) : Bool :=
  0x20 < c.toNat && c.toNat < 0x7F && c != ':' && c != '"'

def IsKey (key : String) : Prop :=
  ∀ c ∈ key.toList, isKeyChar c = true

theorem endsKey_of_isKeyChar
    {c : Char}
    (h : isKeyChar c = true) : endsKey c = false := by
  simp only [isKeyChar, Bool.and_eq_true, bne_iff_ne,
    decide_eq_true_eq] at h
  rcases h with ⟨⟨⟨hLow, hHigh⟩, hColon⟩, hQuote⟩
  simp only [endsKey, Bool.or_eq_false_iff, beq_eq_false_iff_ne,
    decide_eq_false_iff_not]
  exact ⟨⟨⟨by omega, hColon⟩, hQuote⟩, by omega⟩

theorem isBlank_of_isKeyChar
    {c : Char}
    (h : isKeyChar c = true) : Text.isBlank c = false := by
  simp only [isKeyChar, Bool.and_eq_true, decide_eq_true_eq] at h
  rcases h with ⟨⟨⟨hLow, hHigh⟩, -⟩, -⟩
  simp only [Text.isBlank, Bool.or_eq_false_iff,
    Bool.and_eq_false_iff, decide_eq_false_iff_not,
    beq_eq_false_iff_ne]
  omega

------------------------------------------------------------
-- Escapes
------------------------------------------------------------

variable {s : List Char}

/- One character is read back, whatever stands behind it. -/
theorem unescape_escapeChar (c : Char) (s : List Char) :
    unescape (escapeChar c ++ s) = c :: unescape s := by
  unfold escapeChar
  split_ifs with hQuote hSlash hLine hTab
  · simp [unescape, hQuote]
  · simp [unescape, hSlash]
  · simp [unescape, hLine]
  · simp [unescape, hTab]
  · simp [unescape, hSlash]

/- What is escaped comes back. -/
theorem unescape_escape (s : List Char) :
    unescape (escape s) = s := by
  induction s with
  | nil => rfl
  | cons c s ih =>
      unfold escape at ih ⊢
      rw [List.flatMap_cons, unescape_escapeChar, ih]

theorem closeQuote?_escapeChar (c : Char) (s : List Char) :
    closeQuote? (escapeChar c ++ s) =
      (closeQuote? s).map fun p => (escapeChar c ++ p.1, p.2) := by
  unfold escapeChar
  split_ifs with hQuote hSlash hLine hTab
  · simp [closeQuote?]
  · simp [closeQuote?]
  · simp [closeQuote?]
  · simp [closeQuote?]
  · simp [closeQuote?, hSlash]

/- No quote of an escaped text closes it. -/
theorem closeQuote?_escape (s rest : List Char) :
    closeQuote? (escape s ++ '"' :: rest) =
      some (escape s, rest) := by
  induction s with
  | nil => rfl
  | cons c s ih =>
      unfold escape at ih ⊢
      rw [List.flatMap_cons, List.append_assoc,
        closeQuote?_escapeChar, ih]
      rfl

------------------------------------------------------------
-- Pairs
------------------------------------------------------------

theorem toList_pairText (p : String × String) :
    (pairText p).toList =
      p.1.toList ++ ':' :: '"' :: (escape p.2.toList ++ ['"']) := by
  have hOpen : ":\"".toList = [':', '"'] := rfl
  have hClose : "\"".toList = ['"'] := rfl
  simp [pairText, hOpen, hClose]

theorem readPairs_blank (fuel : Nat) (s : List Char) :
    readPairs fuel (' ' :: s) = readPairs fuel s := by
  cases fuel with
  | zero => rfl
  | succ fuel =>
      have hBlank : (' ' :: s).dropWhile (fun c => c == ' ') =
          s.dropWhile fun c => c == ' ' := by
        simp
      unfold readPairs
      rw [hBlank]

/- The parts of a text that begins with a key. -/
theorem cut_key
    {key : String}
    (hKey : IsKey key)
    (s : List Char) :
    let text := key.toList ++ ':' :: s
    text.dropWhile (fun c => c == ' ') = text
      ∧ text.takeWhile (fun c => !endsKey c) = key.toList
      ∧ text.dropWhile (fun c => !endsKey c) = ':' :: s := by
  have hInside : ∀ c ∈ key.toList, (!endsKey c) = true := by
    intro c hc
    rw [endsKey_of_isKeyChar (hKey c hc)]
    rfl
  have hColon : endsKey ':' = true := rfl
  refine ⟨?_, ?_, ?_⟩
  · apply Text.dropWhile_of_head
    intro c hc
    cases hChars : key.toList with
    | nil =>
        rw [hChars] at hc
        rw [← Option.some.inj hc]
        rfl
    | cons d more =>
        rw [hChars] at hc
        rw [← Option.some.inj hc, beq_eq_false_iff_ne]
        rintro rfl
        have hBlank := hKey ' ' (by simp [hChars])
        cases hBlank
  · rw [List.takeWhile_append_of_pos hInside]
    simp [hColon]
  · rw [List.dropWhile_append_of_pos hInside]
    simp [hColon]

/- One step reads one pair, whatever stands behind it. -/
theorem readPairs_pair
    {p : String × String}
    (hKey : IsKey p.1)
    (hSome : p.1 ≠ "")
    (fuel : Nat)
    (rest : List Char) :
    readPairs (fuel + 1) ((pairText p).toList ++ rest) =
      p :: readPairs fuel rest := by
  have hText : (pairText p).toList ++ rest =
      p.1.toList ++ ':' ::
        ('"' :: (escape p.2.toList ++ '"' :: rest)) := by
    simp [toList_pairText]
  have hCut := cut_key hKey ('"' :: (escape p.2.toList ++ '"' :: rest))
  have hEmpty : p.1.toList.isEmpty = false := by
    rw [List.isEmpty_eq_false_iff, ne_eq, String.toList_eq_nil_iff]
    exact hSome
  dsimp only at hCut
  rw [hText, readPairs]
  simp only [hCut.1, hCut.2.1, hCut.2.2, hEmpty,
    closeQuote?_escape, unescape_escape, String.ofList_toList,
    Bool.false_eq_true, if_false]

/- A pair without a key ends the tag. -/
theorem readPairs_keyless
    {p : String × String}
    (hNone : p.1 = "")
    (fuel : Nat)
    (rest : List Char) :
    readPairs fuel ((pairText p).toList ++ rest) = [] := by
  cases fuel with
  | zero => rfl
  | succ fuel =>
      simp [toList_pairText, hNone, readPairs, endsKey]

/- Pairs are read up to the first one without a key. -/
theorem readPairs_spelled
    {pairs : List (String × String)}
    (hKeys : ∀ p ∈ pairs, IsKey p.1)
    {fuel : Nat}
    (hFuel : pairs.length ≤ fuel) :
    readPairs fuel (pairsText pairs).toList =
      pairs.takeWhile fun p => p.1 != "" := by
  induction pairs generalizing fuel with
  | nil =>
      cases fuel with
      | zero => rfl
      | succ fuel => rfl
  | cons p pairs ih =>
      rw [List.forall_mem_cons] at hKeys
      rw [List.length_cons] at hFuel
      have hRest : ∃ rest,
          (pairsText (p :: pairs)).toList = (pairText p).toList ++ rest
            ∧ ∀ fuel, readPairs fuel rest =
              readPairs fuel (pairsText pairs).toList := by
        cases pairs with
        | nil =>
            exact ⟨[], by simp [pairsText, Text.joinWith], fun _ => rfl⟩
        | cons q pairs =>
            have hBlank : " ".toList = [' '] := rfl
            refine ⟨' ' :: (pairsText (q :: pairs)).toList, ?_,
              fun fuel => readPairs_blank fuel _⟩
            simp [pairsText, Text.joinWith, hBlank]
      rcases hRest with ⟨rest, hText, hSame⟩
      rw [hText]
      by_cases hNone : p.1 = ""
      · rw [readPairs_keyless hNone, List.takeWhile_cons_of_neg]
        simp [hNone]
      · rcases Nat.exists_eq_succ_of_ne_zero
            (Nat.ne_of_gt (Nat.lt_of_lt_of_le (Nat.succ_pos _) hFuel))
          with ⟨left, rfl⟩
        rw [readPairs_pair hKeys.1 hNone, hSame,
          ih hKeys.2 (Nat.le_of_succ_le_succ hFuel),
          List.takeWhile_cons_of_pos (by simpa using hNone)]

------------------------------------------------------------
-- Literals
------------------------------------------------------------

theorem between?_quoted (quote : Char) (s : List Char) :
    between? quote (quote :: (s ++ [quote])) = some s := by
  simp [between?, Text.afterHead?, Text.beforeTail?]

theorem between?_of_head
    {quote : Char}
    (h : s.head? ≠ some quote) : between? quote s = none := by
  cases s with
  | nil => rfl
  | cons c s =>
      have hc : quote ≠ c := by
        rintro rfl
        exact h rfl
      simp [between?, Text.afterHead?, hc]

theorem between?_of_last
    {quote : Char}
    (h : s.getLast? ≠ some quote) : between? quote s = none := by
  cases s with
  | nil => rfl
  | cons c s =>
      have hBack : Text.beforeTail? [quote] s = none := by
        unfold Text.beforeTail?
        cases hs : s.reverse with
        | nil => rfl
        | cons d more =>
            have hd : quote ≠ d := by
              rintro rfl
              apply h
              rw [List.getLast?_cons, ← List.head?_reverse, hs]
              rfl
            simp [Text.afterHead?, hd]
      unfold between? Text.afterHead?
      split
      · exact hBack
      · rfl

/- The text of pairs in front of others. -/
theorem toList_pairsText_cons_cons
    (p q : String × String)
    (pairs : List (String × String)) :
    (pairsText (p :: q :: pairs)).toList =
      (pairText p).toList ++ ' ' :: (pairsText (q :: pairs)).toList := by
  have hBlank : " ".toList = [' '] := rfl
  simp [pairsText, Text.joinWith, hBlank]

theorem head?_pairsText
    {p : String × String}
    (hKey : IsKey p.1)
    (pairs : List (String × String)) :
    ∃ c, (pairsText (p :: pairs)).toList.head? = some c
      ∧ Text.isBlank c = false ∧ c ≠ '"' := by
  have hFirst : (pairsText (p :: pairs)).toList.head? =
      (pairText p).toList.head? := by
    cases pairs with
    | nil => rfl
    | cons q pairs =>
        rw [toList_pairsText_cons_cons, toList_pairText,
          List.append_assoc, List.cons_append]
        simp only [List.head?_append, List.head?_cons, Option.or_some]
  rw [hFirst, toList_pairText]
  cases hChars : p.1.toList with
  | nil => exact ⟨':', rfl, rfl, by decide⟩
  | cons c more =>
      have hc := hKey c (by simp [hChars])
      refine ⟨c, rfl, isBlank_of_isKeyChar hc, ?_⟩
      rintro rfl
      cases hc

theorem getLast?_pairsText
    (p : String × String)
    (pairs : List (String × String)) :
    (pairsText (p :: pairs)).toList.getLast? = some '"' := by
  induction pairs generalizing p with
  | nil =>
      have hAlone : pairsText [p] = pairText p := rfl
      rw [hAlone, toList_pairText]
      simp [List.getLast?_append, List.getLast?_cons]
  | cons q pairs ih =>
      rw [toList_pairsText_cons_cons, List.getLast?_append,
        List.getLast?_cons, ih]
      rfl

theorem length_le_pairsText (pairs : List (String × String)) :
    pairs.length ≤ (pairsText pairs).toList.length := by
  induction pairs with
  | nil => exact Nat.zero_le _
  | cons p pairs ih =>
      cases pairs with
      | nil =>
          have hAlone : pairsText [p] = pairText p := rfl
          rw [hAlone, toList_pairText]
          simp only [List.length_append, List.length_cons,
            List.length_nil]
          omega
      | cons q pairs =>
          rw [toList_pairsText_cons_cons]
          simp only [List.length_append, List.length_cons] at ih ⊢
          omega

/- A literal is the text it is made from. -/
theorem stripLiteral_wrap
    (w : Wrapping)
    {pairs : List (String × String)}
    (hKeys : ∀ p ∈ pairs, IsKey p.1) :
    stripLiteral (w.wrap (pairsText pairs).toList) =
      (pairsText pairs).toList := by
  cases w with
  | bare =>
      cases pairs with
      | nil => rfl
      | cons p pairs =>
          rcases head?_pairsText (hKeys p List.mem_cons_self) pairs
            with ⟨c, hFirst, hBlank, hQuote⟩
          have hLast := getLast?_pairsText p pairs
          have hTrimmed :
              Text.IsTrimmed (pairsText (p :: pairs)).toList := by
            constructor
            · intro d hd
              rw [hFirst] at hd
              rwa [← Option.some.inj hd]
            · intro d hd
              rw [hLast] at hd
              rw [← Option.some.inj hd]
              rfl
          have hRaw : between? backquote
              (pairsText (p :: pairs)).toList = none := by
            apply between?_of_last
            rw [hLast]
            decide
          have hInterpreted : between? '"'
              (pairsText (p :: pairs)).toList = none := by
            apply between?_of_head
            rw [hFirst, ne_eq, Option.some.injEq]
            exact hQuote
          unfold stripLiteral Wrapping.wrap
          dsimp only
          rw [hTrimmed.trim_eq, hRaw, hInterpreted]
  | raw =>
      have hTrimmed := Text.isTrimmed_between
        (a := backquote) (b := backquote) rfl rfl
        (pairsText pairs).toList
      unfold stripLiteral Wrapping.wrap
      dsimp only
      rw [hTrimmed.trim_eq, between?_quoted]
  | interpreted =>
      have hTrimmed := Text.isTrimmed_between
        (a := '"') (b := '"') rfl rfl
        (escape (pairsText pairs).toList)
      have hRaw : between? backquote
          ('"' :: (escape (pairsText pairs).toList ++ ['"'])) =
            none := by
        apply between?_of_head
        rw [List.head?_cons, ne_eq, Option.some.injEq]
        decide
      unfold stripLiteral Wrapping.wrap
      dsimp only
      rw [hTrimmed.trim_eq, hRaw, between?_quoted]
      exact unescape_escape _

------------------------------------------------------------
-- Tags
------------------------------------------------------------

/-
  However a tag of pairs with printable keys is wrapped, it is
  read as the pairs in front of the first one whose key has no
  characters, with all the values as they were.
-/
theorem entries_parse_spelled
    (w : Wrapping)
    {pairs : List (String × String)}
    (hKeys : ∀ p ∈ pairs, IsKey p.1) :
    (parse (spelled w pairs)).entries =
      pairs.takeWhile fun p => p.1 != "" := by
  unfold parse spelled
  dsimp only
  rw [String.toList_ofList, stripLiteral_wrap w hKeys]
  exact readPairs_spelled hKeys (length_le_pairsText pairs)

/- A key that starts with a backquote, and values with quotes. -/
def trickyPairs : List (String × String) :=
  [("json", "a\"b\\,\n"), ("\x60x\x60", "\x60 y:\"z\"\t"), ("v", "")]

theorem entries_parse_spelled_tricky :
    (∀ p ∈ trickyPairs, IsKey p.1)
      ∧ (parse (spelled .interpreted trickyPairs)).entries =
        trickyPairs := by
  have hKeys : ∀ p ∈ trickyPairs, IsKey p.1 := by
    simp [trickyPairs, IsKey, isKeyChar]
  exact ⟨hKeys, entries_parse_spelled .interpreted hKeys⟩

/- A pair whose key has no characters is not read. -/
theorem emptyKey_not_read :
    (∀ p ∈ [("", "v")], IsKey p.1)
      ∧ spelled .bare [("", "v")] = ":\"v\""
      ∧ (parse (spelled .bare [("", "v")])).entries = []
      ∧ (parse (spelled .bare [("", "v")])).entries ≠ [("", "v")] := by
  have hNone : (parse (spelled .bare [("", "v")])).entries = [] := by
    decide
  refine ⟨?_, by decide, hNone, ?_⟩
  · simp [IsKey]
  · rw [hNone]
    exact nofun

end FieldTag

end WireSchema
