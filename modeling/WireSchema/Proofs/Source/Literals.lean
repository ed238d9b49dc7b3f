import WireSchema.Proofs.Source.LiteralParts
import WireSchema.Source.File

/-
  The texts and characters that literals stand for.

  A literal is cut off where it ends, whatever its parts are.
  It is read as what it stands for exactly if all its parts
  are kept, and no quote stands in single quotes.

  Key definitions include:
    * `QuotedLiteral`
    * `QuotedLiteral.Denotes`
    * `QuotedLiteral.IsKept`
    * `QuotedLiteral.reads_iff`
-/

namespace WireSchema.Source

------------------------------------------------------------
-- Literals
------------------------------------------------------------

/- A literal in double quotes, in backquotes, or in single
   quotes. -/
inductive QuotedLiteral where
  | text (parts : List LiteralPart)
  | raw (content : List Char)
  | rune (part : LiteralPart)
  deriving DecidableEq, Repr, Inhabited

namespace QuotedLiteral

/- A literal as it is written. -/
def spelled : QuotedLiteral → List Char
  | .text parts => '"' :: (parts.flatMap LiteralPart.spelled ++ ['"'])
  | .raw content => '`' :: (content ++ ['`'])
  | .rune p => '\'' :: (p.spelled ++ ['\''])

def kind : QuotedLiteral → TokenKind
  | .text _ => .text
  | .raw _ => .rawText
  | .rune _ => .rune

/- What may stand in a literal.  No carriage returns stand
   between backquotes. -/
def IsValid : QuotedLiteral → Prop
  | .text parts => ∀ p ∈ parts, p.IsValid '"'
  | .raw content => ∀ c ∈ content, c ≠ '`' ∧ c ≠ '\r' ∧ c ≠ '\x00'
  | .rune p => p.IsValid '\''

/-
  The expression that a literal stands for: the text that the
  bytes of its parts encode, or the number of its character.
-/
def Denotes : QuotedLiteral → ConstExpr → Prop
  | .text parts, .text s =>
      parts.flatMap LiteralPart.bytes =
        s.toList.flatMap String.utf8EncodeChar
  | .raw content, .text s => s.toList = content
  | .rune p, .int n => ∃ k : Nat, p.number? = some k ∧ n = k
  | _, _ => False

/-
  The literals that are read as what they stand for.  Single
  quotes around a quote of either kind are taken for more of
  it.
-/
def IsKept : QuotedLiteral → Prop
  | .text parts => ∀ p ∈ parts, p.IsKept
  | .raw _ => True
  | .rune p => p.IsKept ∧ p ≠ .plain '"' ∧ p ≠ .escape '\''

end QuotedLiteral

------------------------------------------------------------
-- Cutting Off
------------------------------------------------------------

theorem takeExactly?_append
    {f : Char → Bool}
    {digits : List Char}
    (h : ∀ d ∈ digits, f d = true)
    (s : List Char) :
    takeExactly? f digits.length (digits ++ s) =
      some (digits, s) := by
  induction digits with
  | nil => cases s <;> rfl
  | cons d digits ih =>
      rw [List.length_cons, List.cons_append, takeExactly?,
        if_pos (h d List.mem_cons_self),
        ih fun e he => h e (List.mem_cons_of_mem d he)]
      rfl

theorem escapeDigits?_of_isOctal
    {d : Char}
    (h : isOctal d = true) : escapeDigits? d = none := by
  unfold escapeDigits?
  split
  · exact absurd h (by decide)
  · exact absurd h (by decide)
  · exact absurd h (by decide)
  · rfl

theorem isContent_of_isOctal
    {d : Char}
    (h : isOctal d = true) : isContent d = true := by
  unfold isContent
  rw [bne_iff_ne]
  rintro rfl
  exact absurd h (by decide)

/- Marks are neither digits nor in front of some. -/
theorem scans_of_marked?
    {mark : Char}
    (h : (marked? mark).isSome = true) :
    escapeDigits? mark = none
      ∧ isContent mark = true
      ∧ isOctal mark = false
      ∧ "abfnrtv\\'\"".toList.contains mark = true := by
  unfold marked? at h
  split at h
  all_goals first | decide | cases h

/- A text that is cut off in front of a quote. -/
def ScansOff (content rest : List Char) : Prop :=
  ∀ fuel, content.length < fuel →
    scanText? fuel (content ++ '"' :: rest) =
      some (content ++ ['"'], rest)

variable {content rest : List Char}

theorem scansOff_nil (rest : List Char) : ScansOff [] rest := by
  intro fuel hFuel
  cases fuel with
  | zero => cases hFuel
  | succ fuel => rfl

theorem ScansOff.plain
    (h : ScansOff content rest)
    {c : Char}
    (hc : c ≠ '"' ∧ c ≠ '\\' ∧ c ≠ '\n' ∧ c ≠ '\x00') :
    ScansOff (c :: content) rest := by
  intro fuel hFuel
  cases fuel with
  | zero => cases hFuel
  | succ fuel =>
      have hRest := h fuel (Nat.lt_of_succ_lt_succ hFuel)
      have hContent : isContent c = true := bne_iff_ne.mpr hc.2.2.2
      simp [scanText?, hc.1, hc.2.1, hc.2.2.1, hContent, hRest]

theorem ScansOff.escape
    (h : ScansOff content rest)
    (body : List Char)
    (hBody : ∀ s, scanTextEscape? (body ++ s) = some (body, s)) :
    ScansOff ('\\' :: (body ++ content)) rest := by
  intro fuel hFuel
  cases fuel with
  | zero => cases hFuel
  | succ fuel =>
      rw [List.length_cons, List.length_append] at hFuel
      have hRest := h fuel (by omega)
      simp [scanText?, isContent, hBody, hRest]

/- The parts of a text are cut off one after the other. -/
theorem ScansOff.part
    (h : ScansOff content rest)
    {p : LiteralPart}
    (hValid : p.IsValid '"') :
    ScansOff (p.spelled ++ content) rest := by
  cases p with
  | plain c => exact h.plain hValid
  | escape mark =>
      refine h.escape [mark] fun s => ?_
      have hMark := scans_of_marked? hValid.1
      simp [scanTextEscape?, hMark.1, hMark.2.1]
  | octal digits =>
      obtain ⟨a, b, c, rfl⟩ := List.length_eq_three.mp hValid.1
      have hDigits := hValid.2.1
      have hPlain : ∀ d, isOctal d = true →
          d ≠ '"' ∧ d ≠ '\\' ∧ d ≠ '\n' ∧ d ≠ '\x00' := by
        intro d hd
        refine ⟨?_, ?_, ?_, ?_⟩ <;> rintro rfl <;>
          exact absurd hd (by decide)
      have hFirst := hDigits a (by simp)
      refine ((h.plain (hPlain c (hDigits c (by simp)))).plain
        (hPlain b (hDigits b (by simp)))).escape [a] fun s => ?_
      simp [scanTextEscape?, escapeDigits?_of_isOctal hFirst,
        isContent_of_isOctal hFirst]
  | coded mark digits =>
      refine h.escape (mark :: digits) fun s => ?_
      have hLength := hValid.1
      simp [scanTextEscape?, hLength,
        takeExactly?_append hValid.2.1]

theorem scansOff_flatMap
    {parts : List LiteralPart}
    (hValid : ∀ p ∈ parts, p.IsValid '"')
    (rest : List Char) :
    ScansOff (parts.flatMap LiteralPart.spelled) rest := by
  induction parts with
  | nil => exact scansOff_nil rest
  | cons p more ih =>
      have hMore := ih fun q hq =>
        hValid q (List.mem_cons_of_mem p hq)
      exact hMore.part (hValid p List.mem_cons_self)

theorem scanRaw?_append
    (h : ∀ c ∈ content, c ≠ '`' ∧ c ≠ '\r' ∧ c ≠ '\x00')
    (rest : List Char) :
    scanRaw? (content ++ '`' :: rest) =
      some (content ++ ['`'], rest) := by
  induction content with
  | nil => rfl
  | cons c content ih =>
      have hc := h c List.mem_cons_self
      have hContent : isContent c = true := bne_iff_ne.mpr hc.2.2
      have hMore := ih fun d hd => h d (List.mem_cons_of_mem c hd)
      simp [scanRaw?, hc.1, hContent, hMore]

theorem scanRune?_spelled
    {p : LiteralPart}
    (hValid : p.IsValid '\'')
    (rest : List Char) :
    scanRune? (p.spelled ++ '\'' :: rest) =
      some (p.spelled ++ ['\''], rest) := by
  have hEscape : ∀ body : List Char,
      scanRuneEscape? (body ++ '\'' :: rest) =
        some (body, '\'' :: rest) →
      scanRune? ('\\' :: (body ++ '\'' :: rest)) =
        some ('\\' :: (body ++ ['\'']), rest) := by
    intro body hBody
    simp [scanRune?, hBody]
  cases p with
  | plain c =>
      have hContent : isContent c = true :=
        bne_iff_ne.mpr hValid.2.2.2
      simp [LiteralPart.spelled, scanRune?, hValid.1, hValid.2.1,
        hContent]
  | escape mark =>
      refine hEscape [mark] ?_
      have hMark := scans_of_marked? hValid.1
      simp only [List.singleton_append, scanRuneEscape?, hMark.1,
        hMark.2.2.1, hMark.2.2.2]
      rfl
  | octal digits =>
      refine hEscape digits ?_
      cases digits with
      | nil => cases hValid.1
      | cons d digits =>
          have hFirst := hValid.2.1 d List.mem_cons_self
          have hTaken :=
            takeExactly?_append hValid.2.1 ('\'' :: rest)
          rw [hValid.1] at hTaken
          simpa [scanRuneEscape?, escapeDigits?_of_isOctal hFirst,
            hFirst] using hTaken
  | coded mark digits =>
      refine hEscape (mark :: digits) ?_
      have hLength := hValid.1
      simp [scanRuneEscape?, hLength,
        takeExactly?_append hValid.2.1]

------------------------------------------------------------
-- Taking Quotes Away
------------------------------------------------------------

variable {quote : Char}

theorem dropWhile_of_not_mem
    (h : quote ∉ content) :
    content.dropWhile (fun c => c == quote) = content := by
  cases content with
  | nil => rfl
  | cons c s =>
      have hc : c ≠ quote := by
        rintro rfl
        exact h List.mem_cons_self
      rw [List.dropWhile_cons_of_neg (by simpa using hc)]

/- All quotes are dropped around what has none. -/
theorem dropEdgesWhile_quoted
    (h : quote ∉ content) :
    Text.dropEdgesWhile (fun c => c == quote)
        (quote :: (content ++ [quote])) = content := by
  have hFront :
      (quote :: (content ++ [quote])).dropWhile (fun c => c == quote) =
        (content ++ [quote]).dropWhile fun c => c == quote := by
    simp
  unfold Text.dropEdgesWhile Text.dropEndWhile
  rw [hFront]
  cases content with
  | nil => simp
  | cons c s =>
      have hc : c ≠ quote := by
        rintro rfl
        exact h List.mem_cons_self
      have hBack : quote ∉ (c :: s).reverse := by
        rwa [List.mem_reverse]
      rw [List.cons_append,
        List.dropWhile_cons_of_neg (by simpa using hc),
        ← List.cons_append, List.reverse_append,
        List.reverse_singleton, List.singleton_append,
        List.dropWhile_cons_of_pos (by simp),
        dropWhile_of_not_mem hBack, List.reverse_reverse]

theorem dropQuotes_quoted (content : List Char) :
    dropQuotes ('"' :: (content ++ ['"'])) = content := by
  simp [dropQuotes]

theorem dropQuotes_of_not_mem
    (h : '"' ∉ content) : dropQuotes content = content := by
  have hBack : '"' ∉ content.reverse := by rwa [List.mem_reverse]
  unfold dropQuotes
  dsimp only
  split
  · next hEnd =>
      split at hEnd
      · exact absurd List.mem_cons_self h
      · rw [hEnd] at hBack
        exact absurd List.mem_cons_self hBack
  · split
    · exact absurd List.mem_cons_self h
    · rfl

/- A part that is no quote has none of either kind in it. -/
theorem LiteralPart.not_mem_spelled
    {p : LiteralPart}
    (hValid : p.IsValid '\'')
    (hPlain : p ≠ .plain '"')
    (hEscape : p ≠ .escape '\'')
    (hQuote : quote = '"' ∨ quote = '\'') : quote ∉ p.spelled := by
  have hSlash : quote ≠ '\\' := by
    rcases hQuote with rfl | rfl <;> decide
  cases p with
  | plain c =>
      have hc : c ≠ quote := by
        rcases hQuote with rfl | rfl
        · exact fun h => hPlain (h ▸ rfl)
        · exact hValid.1
      simpa [spelled] using hc.symm
  | escape mark =>
      have hMark : mark ≠ quote := by
        rintro rfl
        exact hEscape (congrArg _ (hValid.2 hQuote))
      simpa [spelled, hSlash] using hMark.symm
  | octal digits =>
      have hDigits : quote ∉ digits := by
        intro hMem
        have hDigit := hValid.2.1 quote hMem
        rcases hQuote with rfl | rfl <;>
          exact absurd hDigit (by decide)
      simpa [spelled, hSlash] using hDigits
  | coded mark digits =>
      have hDigits : quote ∉ digits := by
        intro hMem
        have hDigit := hValid.2.1 quote hMem
        rcases hQuote with rfl | rfl <;>
          exact absurd hDigit (by decide)
      have hMark : quote ≠ mark := by
        rintro rfl
        have hLength := hValid.1
        rcases hQuote with rfl | rfl <;> cases hLength
      simpa [spelled, hSlash, hMark] using hDigits

/- A part in single quotes is read by itself, if it is none. -/
theorem runeOf?_spelled
    {p : LiteralPart}
    (hValid : p.IsValid '\'')
    (hPlain : p ≠ .plain '"')
    (hEscape : p ≠ .escape '\'')
    (n : Int) :
    runeOf? (String.ofList ('\'' :: (p.spelled ++ ['\'']))) = some n
      ↔ ∃ c : Char, p.read = [c] ∧ n = c.toNat := by
  have hInner := dropEdgesWhile_quoted
    (LiteralPart.not_mem_spelled hValid hPlain hEscape (.inr rfl))
  have hQuotes := dropQuotes_of_not_mem
    (LiteralPart.not_mem_spelled hValid hPlain hEscape (.inl rfl))
  have hRead := LiteralPart.decodeEscapes_spelled hValid []
  simp only [List.append_nil, decodeEscapes] at hRead
  unfold runeOf? unquoteChars
  rw [String.toList_ofList, hInner]
  dsimp only
  rw [hQuotes, hRead]
  split
  · next c hOne => simp [hOne, eq_comm]
  · next hMany => simpa using fun c hOne => absurd hOne (hMany c)

------------------------------------------------------------
-- Reading Literals
------------------------------------------------------------

namespace QuotedLiteral

variable {l : QuotedLiteral}
variable {e : ConstExpr}

theorem scanToken?_spelled
    (hValid : l.IsValid)
    {n : Nat}
    (hLength : l.spelled.length ≤ n)
    (rest : List Char) :
    scanToken? n (l.spelled ++ rest) =
      some (l.kind, String.ofList l.spelled, rest) := by
  have hText : Text.startsIdentifier '"' = false := by decide
  have hRaw : Text.startsIdentifier '`' = false := by decide
  have hRune : Text.startsIdentifier '\'' = false := by decide
  cases l with
  | text parts =>
      have hFuel :
          (parts.flatMap LiteralPart.spelled).length < n := by
        simp only [spelled, List.length_cons, List.length_append]
          at hLength
        omega
      have hScan := scansOff_flatMap hValid rest n hFuel
      simp [scanToken?, spelled, kind, hText, hScan]
  | raw content =>
      have hScan := scanRaw?_append hValid rest
      simp [scanToken?, spelled, kind, hRaw, hScan]
  | rune p =>
      have hScan := scanRune?_spelled hValid rest
      simp [scanToken?, spelled, kind, hRune, hScan]

/- The expression that the text of a literal is taken for. -/
def expression : QuotedLiteral → ConstExpr
  | .text parts => .text (unquote (String.ofList (text parts).spelled))
  | .raw content =>
      .text (rawContent (String.ofList (raw content).spelled))
  | .rune p =>
      ((runeOf? (String.ofList (rune p).spelled)).map
        ConstExpr.int).getD .unknown

/- What the token of a literal is read as. -/
theorem readOperand?_token
    (l : QuotedLiteral)
    (body : Tokens → Option Tokens)
    (fuel : Nat)
    (x : Setting)
    (t : Token)
    (ts : Tokens) :
    readOperand? body (fuel + 1) x
        ({ t with
           kind := l.kind
           text := String.ofList l.spelled } :: ts) =
      some ({ expr := l.expression }, ts) := by
  cases l with
  | text parts => rfl
  | raw content => rfl
  | rune p => rfl

theorem denotes_text_iff
    {parts : List LiteralPart}
    {s : String} :
    (text parts).Denotes (.text s)
      ↔ parts.flatMap LiteralPart.bytes =
        s.toList.flatMap String.utf8EncodeChar :=
  Iff.rfl

theorem expression_text_eq_iff
    {parts : List LiteralPart}
    (hValid : ∀ p ∈ parts, p.IsValid '"')
    (hDenotes : (text parts).Denotes e) :
    (text parts).expression = e ↔ ∀ p ∈ parts, p.IsKept := by
  cases e with
  | text s =>
      have hRead := LiteralPart.decodeEscapes_flatMap hValid
      have hContent :
          (text parts).expression =
            .text (String.ofList (parts.flatMap LiteralPart.read)) := by
        dsimp only [expression, unquote, unquoteChars, spelled]
        rw [String.toList_ofList, dropQuotes_quoted, hRead]
      rw [hContent, ConstExpr.text.injEq, ← String.toList_inj,
        String.toList_ofList]
      exact LiteralPart.read_eq_iff hValid
        (denotes_text_iff.mp hDenotes)
  | _ => cases hDenotes

theorem expression_raw
    {content : List Char}
    (hValid : (raw content).IsValid)
    (hDenotes : (raw content).Denotes e) :
    (raw content).expression = e := by
  cases e with
  | text s =>
      have hQuote : '`' ∉ content := fun h => (hValid _ h).1 rfl
      dsimp only [expression, rawContent, spelled]
      rw [String.toList_ofList, dropEdgesWhile_quoted hQuote,
        ConstExpr.text.injEq, ← String.toList_inj,
        String.toList_ofList]
      exact hDenotes.symm
  | _ => cases hDenotes

/- Quotes in single quotes are taken for more of these. -/
theorem expression_rune_quote :
    (rune (.plain '"')).expression = .unknown
      ∧ (rune (.escape '\'')).expression = .unknown := by
  decide +kernel

theorem expression_rune_eq_int_iff
    {p : LiteralPart}
    (hValid : p.IsValid '\'')
    (hPlain : p ≠ .plain '"')
    (hEscape : p ≠ .escape '\'')
    (n : Int) :
    (rune p).expression = .int n
      ↔ ∃ c : Char, p.read = [c] ∧ n = c.toNat := by
  rw [← runeOf?_spelled hValid hPlain hEscape]
  dsimp only [expression, spelled]
  cases runeOf? (String.ofList ('\'' :: (p.spelled ++ ['\'']))) <;>
    simp

theorem expression_rune_eq_iff
    {p : LiteralPart}
    (hValid : p.IsValid '\'')
    (hDenotes : (rune p).Denotes e) :
    (rune p).expression = e ↔ (rune p).IsKept := by
  obtain ⟨k, hNumber, rfl⟩ : ∃ k : Nat,
      p.number? = some k ∧ e = .int k := by
    cases e with
    | int n =>
        obtain ⟨k, hNumber, rfl⟩ := hDenotes
        exact ⟨k, hNumber, rfl⟩
    | _ => cases hDenotes
  by_cases hPlain : p = .plain '"'
  · subst hPlain
    simp [IsKept, expression_rune_quote.1]
  by_cases hEscape : p = .escape '\''
  · subst hEscape
    simp [IsKept, expression_rune_quote.2]
  have hKept : (rune p).IsKept ↔ p.IsKept :=
    ⟨And.left, fun h => ⟨h, hPlain, hEscape⟩⟩
  rw [expression_rune_eq_int_iff hValid hPlain hEscape, hKept]
  constructor
  · rintro ⟨c, hRead, hk⟩
    obtain ⟨d, hd⟩ := Option.isSome_iff_exists.mp
      (LiteralPart.isSome_single?_of_length hValid (by simp [hRead]))
    rw [LiteralPart.number?_of_single? hd] at hNumber
    obtain rfl := Option.some.inj hNumber
    obtain rfl : d = c := Char.toNat_inj.mp (Int.ofNat.inj hk)
    exact (LiteralPart.isKept_iff hd).mpr hRead
  · intro h
    obtain ⟨c, hc⟩ := LiteralPart.exists_single?_of_isKept h
    rw [LiteralPart.number?_of_single? hc] at hNumber
    obtain rfl := Option.some.inj hNumber
    exact ⟨c, (LiteralPart.isKept_iff hc).mp h, rfl⟩

/- What a literal is taken for is right just if it is kept. -/
theorem expression_eq_iff
    (hValid : l.IsValid)
    (hDenotes : l.Denotes e) : l.expression = e ↔ l.IsKept := by
  cases l with
  | text parts => exact expression_text_eq_iff hValid hDenotes
  | raw content =>
      exact iff_of_true (expression_raw hValid hDenotes) trivial
  | rune p => exact expression_rune_eq_iff hValid hDenotes

/-
  Literals are cut off where they end, whatever follows, and
  read as what they stand for exactly if they are kept.
-/
theorem reads_iff
    (hValid : l.IsValid)
    (hDenotes : l.Denotes e)
    {n : Nat}
    (hLength : l.spelled.length ≤ n)
    (rest : List Char)
    (body : Tokens → Option Tokens)
    (fuel : Nat)
    (x : Setting)
    (t : Token)
    (ts : Tokens) :
    scanToken? n (l.spelled ++ rest) =
        some (l.kind, String.ofList l.spelled, rest)
      ∧ ∃ y : Operand,
        readOperand? body (fuel + 1) x
            ({ t with
               kind := l.kind
               text := String.ofList l.spelled } :: ts) =
          some (y, ts)
        ∧ (y.expr = e ↔ l.IsKept) := by
  exact ⟨scanToken?_spelled hValid hLength rest, _,
    readOperand?_token l body fuel x t ts,
    expression_eq_iff hValid hDenotes⟩

/- A line in which a letter is escaped. -/
def tabbed : QuotedLiteral :=
  .text [.plain 'a', .escape 't', .plain 'é', .escape '"']

/- What stands behind the tab is kept, in several bytes. -/
theorem reads_iff_tabbed :
    tabbed.IsValid
      ∧ tabbed.Denotes (.text "a\té\"")
      ∧ tabbed.spelled.length ≤ 9
      ∧ scanToken? 9 (tabbed.spelled ++ [',', '"']) =
        some (.text, "\"a\\té\\\"\"", [',', '"'])
      ∧ ∃ y : Operand,
        readOperand? some 1 {}
            [{ (default : Token) with
               kind := .text
               text := "\"a\\té\\\"\"" }] =
          some (y, [])
        ∧ y.expr = .text "a\té\"" := by
  have hValid : tabbed.IsValid := by
    simp [IsValid, tabbed, LiteralPart.IsValid, marked?]
  have hDenotes : tabbed.Denotes (.text "a\té\"") :=
    denotes_text_iff.mpr (by decide +kernel)
  have hLength : tabbed.spelled.length ≤ 9 := by decide
  have hKept : tabbed.IsKept := by
    simp [IsKept, tabbed, LiteralPart.IsKept]
  obtain ⟨hScan, y, hRead, hExpr⟩ := reads_iff hValid hDenotes
    hLength [',', '"'] some 0 {} default []
  exact ⟨hValid, hDenotes, hLength, hScan, y, hRead,
    hExpr.mpr hKept⟩

/- The letter `A` by its number. -/
def hexLetter : QuotedLiteral :=
  .text [.coded 'x' ['4', '1']]

/-
  The mark and the digits of an escape are taken for letters,
  and a quote in single quotes for no character.
-/
theorem hexLetter_misread :
    hexLetter.IsValid
      ∧ hexLetter.Denotes (.text "A")
      ∧ (rune (.plain '"')).IsValid
      ∧ (rune (.plain '"')).Denotes (.int 34)
      ∧ (FileSource.parse? "m.go"
          "package m\n\nconst A = \"\\x41\"\nconst B = '\"'\n").map
          (fun f => f.consts.map ConstSource.value) =
        some [some (.text "x41"), some .unknown] := by
  have hDigits : (LiteralPart.coded 'x' ['4', '1']).IsValid '"' :=
    ⟨rfl, List.forall_mem_cons.mpr ⟨rfl,
      List.forall_mem_singleton.mpr rfl⟩, 65, rfl, nofun⟩
  have hQuote : (LiteralPart.plain '"').IsValid '\'' := by
    simp [LiteralPart.IsValid]
  exact ⟨List.forall_mem_singleton.mpr hDigits,
    denotes_text_iff.mpr (by decide +kernel), hQuote,
    ⟨34, rfl, rfl⟩, by decide +kernel⟩

end QuotedLiteral

end WireSchema.Source
