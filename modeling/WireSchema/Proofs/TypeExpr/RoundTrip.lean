import WireSchema.Proofs.Catalog.Extraction
import WireSchema.Proofs.TypeExpr.Reading
import WireSchema.Source.Walk

/-
  Reading the text of an expression.

  What is read need not be the expression that was written: a
  parameter comes back as a name, and a name may come back as
  a predeclared type.  But it is spelled the same way, so an
  instance is named alike from both.

  The text of a proper expression tells what each name in it
  stands for: predeclared names are built-in types, and other
  names are declared ones.  Identifiers are simple names, the
  word that opens maps apart.

  A catalog reports an instance by its text and the name is
  made of what is read back from that; sources and routes
  make it of the expression itself.

  Key definitions include:
    * `TypeExpr.readBack`: what the text is read as
    * `TypeExpr.readsAs_all`
    * `TypeExpr.isProper`
    * `TypeExpr.readBack_of_isProper_all`
    * `TypeExpr.parse_text`
    * `instance_named_alike`
-/

namespace WireSchema

namespace TypeExpr

------------------------------------------------------------
-- Names
------------------------------------------------------------

/- A qualified or simple name as it stands in a text. -/
structure IsWord (word : List Char) : Prop where
  ne_nil : word ≠ []
  ne_map : word ≠ "map".toList
  marks : ∀ c ∈ word, isMark c = false

theorem IsWord.isScannable
    {word : List Char}
    (h : IsWord word) : IsScannable word where
  ne_nil := h.ne_nil
  inner c hc := endsName_of_not_isMark (h.marks c hc)
  first c hc := by
    have hMark := h.marks c (List.mem_of_mem_head? hc)
    refine ⟨isBlank_of_not_isMark hMark, ?_⟩
    rintro rfl
    cases hMark
  braced p hp hFront := by
    have hBrace : ∀ p ∈ bracedTypes, '\x7b' ∈ p.2.toList := by
      decide
    have hMark := h.marks _ (hFront.subset (hBrace p hp))
    cases hMark

/- A simple name has characters of simple names only. -/
theorem isNameChar_of_isSimpleName
    {name : String}
    (h : isSimpleName name = true) :
    ∀ c ∈ name.toList, isNameChar c = true := by
  unfold isSimpleName at h
  rw [Bool.and_eq_true, List.all_eq_true] at h
  exact h.2

/- A simple name is neither qualified nor a path. -/
theorem notMem_of_isSimpleName
    {name : String}
    (h : isSimpleName name = true) :
    '.' ∉ name.toList ∧ '/' ∉ name.toList
      ∧ '[' ∉ name.toList := by
  have hChars := isNameChar_of_isSimpleName h
  refine ⟨?_, ?_, ?_⟩
  · intro hc
    exact absurd (hChars _ hc) (by decide)
  · intro hc
    exact absurd (hChars _ hc) (by decide)
  · intro hc
    exact absurd (hChars _ hc) (by decide)

theorem isWord_of_isSimpleName
    {name : String}
    (h : isSimpleName name = true) : IsWord name.toList := by
  have hChars := isNameChar_of_isSimpleName h
  unfold isSimpleName at h
  simp only [Bool.and_eq_true, Bool.not_eq_true',
    bne_iff_ne, ne_eq] at h
  constructor
  · intro hNil
    rw [String.toList_eq_nil_iff] at hNil
    rw [hNil] at h
    exact absurd h.1.1 (by decide)
  · intro hMap
    exact h.1.2 (String.toList_inj.mp hMap)
  · intro c hc
    exact isMark_of_isNameChar (hChars c hc)

theorem isWord_wordOf
    {space name : String}
    (hSpace : isImportPath space = true)
    (hName : isSimpleName name = true) :
    IsWord (wordOf space name) := by
  have hSimple := isWord_of_isSimpleName hName
  unfold wordOf
  split
  · exact hSimple
  · unfold isImportPath at hSpace
    rw [List.all_eq_true] at hSpace
    constructor
    · simp
    · intro hMap
      have hDot : '.' ∈ "map".toList := by
        rw [← hMap]
        simp
      exact absurd hDot (by decide)
    · intro c hc
      rcases List.mem_append.mp hc with hc | hc
      · simpa using hSpace c hc
      · rcases List.mem_cons.mp hc with rfl | hc
        · rfl
        · exact hSimple.marks c hc

/- The predeclared name is spelled as the plain one. -/
theorem describe_ofName
    {space name : String}
    (hName : isSimpleName name = true)
    (out : Spelling)
    (args : List TypeExpr) :
    describe out (ofName (wordOf space name) args) =
      describe out (.named space name args) := by
  have hParts := notMem_of_isSimpleName hName
  cases hOther : isPredeclared space name args with
  | false => rw [ofName_wordOf hParts.1 hParts.2.1 hOther]
  | true =>
      have hAlone : space = "" ∧ args = [] := by
        simp only [isPredeclared, Bool.and_eq_true,
          String.isEmpty_iff, List.isEmpty_iff] at hOther
        exact hOther.1
      rcases hAlone with ⟨rfl, rfl⟩
      have hWord : wordOf "" name = name.toList := rfl
      rw [hWord, ofName_simple [] hParts.1 hParts.2.1,
        if_pos hOther]
      exact (describe_simple out name).symm

/- With arguments a simple name is read as it is. -/
theorem ofName_of_args
    {name : String}
    (hName : isSimpleName name = true)
    {args : List TypeExpr}
    (hArgs : args ≠ []) :
    ofName name.toList args = .named "" name args := by
  have hParts := notMem_of_isSimpleName hName
  have hOther : isPredeclared "" name args = false := by
    simp [isPredeclared, hArgs]
  rw [ofName_simple args hParts.1 hParts.2.1, hOther]
  rfl

------------------------------------------------------------
-- Expressions
------------------------------------------------------------

mutual

/-
  What the text of an expression is read as.  The text of a
  name does not tell which kind of name it is.
-/
def readBack : TypeExpr → TypeExpr
  | .named space name args =>
      ofName (wordOf space name) (readBackAll args)
  | .pointer elem => .pointer (readBack elem)
  | .slice elem => .slice (readBack elem)
  | .array len elem => .array len (readBack elem)
  | .map key value => .map (readBack key) (readBack value)
  | .builtin name =>
      if isBracedName name then .builtin name
      else ofName name.toList []
  | .param name => ofName name.toList []

def readBackAll : List TypeExpr → List TypeExpr
  | [] => []
  | arg :: rest => readBack arg :: readBackAll rest

end

theorem readBackAll_ne_nil
    {args : List TypeExpr}
    (h : args ≠ []) : readBackAll args ≠ [] := by
  cases args with
  | nil => exact absurd rfl h
  | cons arg rest => simp [readBackAll]

/- An expression that is read from its text, wherever it is. -/
def ReadsAs (e : TypeExpr) : Prop :=
  e.isWellNamed = true → ReadsTo e e.readBack

/- Arguments that are read up to the closing bracket. -/
def ReadAs (args : List TypeExpr) : Prop :=
  areWellNamed args = true → ReadTo args (readBackAll args)

/- A name alone is read alike, whatever it stands for. -/
theorem reads_simple
    {e : TypeExpr}
    {name : String}
    (hText : e.text = name)
    (hName : isSimpleName name = true) :
    ReadsTo e (ofName name.toList []) := by
  intro fuel rest hFollows hFuel
  rw [hText] at hFuel ⊢
  exact reads_word (isWord_of_isSimpleName hName).isScannable
    hFollows hFuel

/- Every well-named expression is read as it was written. -/
theorem readsAs_all :
    (∀ e, ReadsAs e) ∧ ∀ args, ReadAs args := by
  refine isWellNamed.mutual_induct ReadsAs ReadAs
    ?named ?pointer ?slice ?array ?map ?builtin ?param
    ?noArg ?arg
  case named =>
    intro space name args hArgs hNamed
    simp only [isWellNamed, Bool.and_eq_true] at hNamed
    have hWord := isWord_wordOf hNamed.1.1 hNamed.1.2
    rw [readBack]
    refine readsTo_named hWord.isScannable
      (fun _ => hWord.ne_map) ?_ (hArgs hNamed.2)
    rintro rfl
    rfl
  case pointer =>
    exact fun _ hElem hNamed => readsTo_pointer (hElem hNamed)
  case slice =>
    exact fun _ hElem hNamed => readsTo_slice (hElem hNamed)
  case array =>
    intro len elem hElem hNamed
    simp only [isWellNamed, Bool.and_eq_true,
      decide_eq_true_eq] at hNamed
    exact readsTo_array hNamed.1 (hElem hNamed.2)
  case map =>
    intro key value hKey hValue hNamed
    simp only [isWellNamed, Bool.and_eq_true] at hNamed
    exact readsTo_map (hKey hNamed.1) (hValue hNamed.2)
  case builtin =>
    intro name hNamed
    simp only [isWellNamed, Bool.or_eq_true] at hNamed
    rw [readBack]
    by_cases hBraced : isBracedName name = true
    · rw [if_pos hBraced]
      exact readsTo_braced hBraced
    · rw [if_neg hBraced]
      exact reads_simple (by simp [text])
        (hNamed.resolve_right hBraced)
  case param =>
    intro name hNamed
    simp only [isWellNamed] at hNamed
    rw [readBack]
    exact reads_simple (by simp [text]) hNamed
  case noArg => exact fun _ h => absurd rfl h
  case arg =>
    intro arg rest hArg hRest hNamed
    simp only [areWellNamed, Bool.and_eq_true] at hNamed
    refine readTo_cons (hArg hNamed.1) (hRest hNamed.2) ?_
    rintro rfl
    rfl

------------------------------------------------------------
-- Spelling
------------------------------------------------------------

/- A name that is read alone is spelled as a plain one. -/
theorem describe_ofName_simple
    {name : String}
    (hName : isSimpleName name = true)
    (out : Spelling) :
    describe out (ofName name.toList []) =
      out.spell name.toList := by
  have hWord :
      describe out (ofName (wordOf "" name) []) =
        describe out (.named "" name []) :=
    describe_ofName hName out []
  exact hWord.trans (describe_simple out name)

/- What is read is spelled as what was written. -/
theorem describe_readBack_all :
    (∀ e, isWellNamed e = true →
        ∀ out, describe out e.readBack = describe out e)
      ∧ ∀ args, areWellNamed args = true →
        ∀ out, describeArgs out (readBackAll args) =
          describeArgs out args := by
  refine isWellNamed.mutual_induct _ _
    ?named ?pointer ?slice ?array ?map ?builtin ?param
    ?noArg ?arg
  case named =>
    intro space name args hArgs hNamed out
    simp only [isWellNamed, Bool.and_eq_true] at hNamed
    rw [readBack, describe_ofName hNamed.1.2]
    simp only [describe, hArgs hNamed.2]
  case pointer | slice =>
    intro elem hElem hNamed out
    simp only [readBack, describe, hElem hNamed]
  case array =>
    intro len elem hElem hNamed out
    simp only [isWellNamed, Bool.and_eq_true] at hNamed
    simp only [readBack, describe, hElem hNamed.2]
  case map =>
    intro key value hKey hValue hNamed out
    simp only [isWellNamed, Bool.and_eq_true] at hNamed
    simp only [readBack, describe, hKey hNamed.1,
      hValue hNamed.2]
  case builtin =>
    intro name hNamed out
    simp only [isWellNamed, Bool.or_eq_true] at hNamed
    rw [readBack]
    by_cases hBraced : isBracedName name = true
    · rw [if_pos hBraced]
    · rw [if_neg hBraced]
      exact describe_ofName_simple
        (hNamed.resolve_right hBraced) out
  case param =>
    intro name hNamed out
    rw [readBack]
    exact describe_ofName_simple hNamed out
  case noArg => exact fun _ _ => rfl
  case arg =>
    intro arg rest hArg hRest hNamed out
    simp only [areWellNamed, Bool.and_eq_true] at hNamed
    simp only [readBackAll, describeArgs, hArg hNamed.1,
      hRest hNamed.2]

------------------------------------------------------------
-- Reported Names
------------------------------------------------------------

/- The reported name of an instance is read as a named type. -/
theorem parse_reportedName
    {name : String}
    {args : List TypeExpr}
    (hName : isSimpleName name = true)
    (hArgs : areWellNamed args = true)
    (hSome : args ≠ []) :
    ∃ args',
      parse (Catalog.reportedName name args) =
          .ok (.named "" name args')
        ∧ args' ≠ []
        ∧ ∀ out, describeArgs out args' =
          describeArgs out args := by
  have hText :
      (Catalog.reportedName name args).toList =
        name.toList ++ '[' :: ((argsBody args).toList
          ++ [']']) := by
    unfold Catalog.reportedName
    rw [text_named, argsText_eq hSome]
    simp [wordOf]
  have hLength :
      2 * (argsBody args).toList.length + 1 ≤
        2 * (Catalog.reportedName name args).toList.length + 1 := by
    rw [hText]
    simp only [List.length_append, List.length_cons]
    omega
  have hRead := readsAs_all.2 args hArgs hSome _ [] hLength
  have hSome' := readBackAll_ne_nil hSome
  refine ⟨readBackAll args, ?_, hSome',
    describe_readBack_all.2 args hArgs⟩
  have hExpr :
      readExpr
          (2 * (Catalog.reportedName name args).toList.length + 2)
          (Catalog.reportedName name args).toList =
        .ok (.named "" name (readBackAll args), []) := by
    rw [hText] at hRead ⊢
    have hWord := isWord_of_isSimpleName hName
    rw [readExpr_applied hWord.isScannable hWord.ne_map hRead,
      ofName_of_args hName hSome']
  unfold parse
  dsimp only
  rw [hExpr]
  rfl

/-
  An instance that a catalog reports is declared by the name
  that routes refer to it by.
-/
theorem catalogName_reportedName
    {space name : String}
    {args : List TypeExpr}
    (hName : isSimpleName name = true)
    (hArgs : areWellNamed args = true) :
    catalogName space (Catalog.reportedName name args) =
      instanceName space name args := by
  have hText :
      (Catalog.reportedName name args).toList =
        name.toList ++ (argsText args).toList := by
    unfold Catalog.reportedName
    rw [text_named]
    rfl
  cases args with
  | nil =>
      have hSelf : Catalog.reportedName name [] = name := by
        apply String.toList_inj.mp
        simpa [argsText] using hText
      unfold catalogName
      rw [hSelf]
      simp [(notMem_of_isSimpleName hName).2.2, instanceName]
  | cons arg rest =>
      have hSome : arg :: rest ≠ [] := by simp
      rcases parse_reportedName hName hArgs hSome with
        ⟨args', hParse, hSome', hDescribe⟩
      have hBracket :
          (Catalog.reportedName name (arg :: rest)).toList.contains
            '[' = true := by
        rw [hText, argsText_eq hSome]
        simp
      unfold catalogName
      rw [if_pos hBracket, hParse]
      cases args' with
      | nil => exact absurd rfl hSome'
      | cons arg' rest' => simp only [instanceName, hDescribe]

/- What a catalog is asked for is what routes refer to. -/
theorem asked_eq_references
    {known : WellKnown}
    {t : TypeExpr}
    (hNamed : t.isWellNamed = true) :
    Catalog.asked known t = (t.wireType known).references := by
  fun_induction Catalog.asked known t with
  | case1 space name args hKnown =>
      exact (references_wireType_known args hKnown).symm
  | case2 space name args hUnknown =>
      simp only [isWellNamed, Bool.and_eq_true] at hNamed
      rw [references_wireType_named args hUnknown,
        catalogName_reportedName hNamed.1.2 hNamed.2]
  | case3 elem hElem =>
      rw [references_wireType_pointer]
      exact hElem hNamed
  | case4 elem hElem =>
      rw [references_wireType_slice]
      exact hElem hNamed
  | case5 len elem hElem =>
      simp only [isWellNamed, Bool.and_eq_true] at hNamed
      rw [references_wireType_array]
      exact hElem hNamed.2
  | case6 key value hKey hValue =>
      simp only [isWellNamed, Bool.and_eq_true] at hNamed
      rw [references_wireType_map, hKey hNamed.1,
        hValue hNamed.2]
  | case7 name => simp
  | case8 name => simp

------------------------------------------------------------
-- Proper Expressions
------------------------------------------------------------

mutual

/-
  Whether an expression has no parameters, simple names in
  namespaces that are paths, predeclared names for built-in
  types and only for these, and lengths that fit a word.
-/
def isProper : TypeExpr → Bool
  | .named space name args =>
      isImportPath space && isSimpleName name
        && !isPredeclared space name args && areProper args
  | .pointer elem => isProper elem
  | .slice elem => isProper elem
  | .array len elem => decide (len ≤ maxWord) && isProper elem
  | .map key value => isProper key && isProper value
  | .builtin name => (builtinType? name).isSome
  | .param _ => false

def areProper : List TypeExpr → Bool
  | [] => true
  | arg :: rest => isProper arg && areProper rest

end

------------------------------------------------------------
-- Built-in Types
------------------------------------------------------------

/- Built-in types have simple names or are written in braces. -/
theorem isSimpleName_of_builtinType?
    {name : String}
    (h : (builtinType? name).isSome = true) :
    (isSimpleName name || isBracedName name) = true := by
  have hTable : ∀ p ∈ builtinTable,
      (isSimpleName p.1 || isBracedName p.1) = true := by
    decide +kernel
  unfold builtinType? at h
  rw [Option.isSome_map, List.lookup_isSome_iff] at h
  rcases h with ⟨p, hp, hSame⟩
  rw [eq_of_beq hSame]
  exact hTable p hp

/- A predeclared word stands for a built-in type. -/
theorem ofName_builtin
    {name : String}
    (hName : isSimpleName name = true)
    (hBuiltin : (builtinType? name).isSome = true) :
    ofName name.toList [] = .builtin name := by
  have hParts := notMem_of_isSimpleName hName
  have hPredeclared : isPredeclared "" name [] = true := hBuiltin
  rw [ofName_simple [] hParts.1 hParts.2.1, if_pos hPredeclared]

------------------------------------------------------------
-- Reading Proper Expressions
------------------------------------------------------------

theorem isWellNamed_of_isProper_all :
    (∀ e, isProper e = true → isWellNamed e = true)
      ∧ ∀ args, areProper args = true →
        areWellNamed args = true := by
  refine isProper.mutual_induct _ _
    ?named ?pointer ?slice ?array ?map ?builtin ?param
    ?noArg ?arg
  case named =>
    intro space name args hArgs hProper
    simp only [isProper, Bool.and_eq_true] at hProper
    simp only [isWellNamed, Bool.and_eq_true]
    exact ⟨hProper.1.1, hArgs hProper.2⟩
  case pointer | slice => exact fun _ hElem => hElem
  case array =>
    intro len elem hElem hProper
    simp only [isProper, Bool.and_eq_true] at hProper
    simp only [isWellNamed, Bool.and_eq_true]
    exact ⟨hProper.1, hElem hProper.2⟩
  case map =>
    intro key value hKey hValue hProper
    simp only [isProper, Bool.and_eq_true] at hProper
    simp only [isWellNamed, Bool.and_eq_true]
    exact ⟨hKey hProper.1, hValue hProper.2⟩
  case builtin => exact fun _ h => isSimpleName_of_builtinType? h
  case param =>
    intro name hProper
    rw [isProper] at hProper
    cases hProper
  case noArg => exact fun _ => rfl
  case arg =>
    intro arg rest hArg hRest hProper
    simp only [areProper, Bool.and_eq_true] at hProper
    simp only [areWellNamed, Bool.and_eq_true]
    exact ⟨hArg hProper.1, hRest hProper.2⟩

/- A proper expression is what its text is read as. -/
theorem readBack_of_isProper_all :
    (∀ e, isProper e = true → e.readBack = e)
      ∧ ∀ args, areProper args = true →
        readBackAll args = args := by
  refine isProper.mutual_induct _ _
    ?named ?pointer ?slice ?array ?map ?builtin ?param
    ?noArg ?arg
  case named =>
    intro space name args hArgs hProper
    simp only [isProper, Bool.and_eq_true,
      Bool.not_eq_true'] at hProper
    have hParts := notMem_of_isSimpleName hProper.1.1.2
    rw [readBack, hArgs hProper.2,
      ofName_wordOf hParts.1 hParts.2.1 hProper.1.2]
  case pointer | slice =>
    intro elem hElem hProper
    rw [readBack, hElem hProper]
  case array =>
    intro len elem hElem hProper
    simp only [isProper, Bool.and_eq_true] at hProper
    rw [readBack, hElem hProper.2]
  case map =>
    intro key value hKey hValue hProper
    simp only [isProper, Bool.and_eq_true] at hProper
    rw [readBack, hKey hProper.1, hValue hProper.2]
  case builtin =>
    intro name hBuiltin
    have hNamed := isSimpleName_of_builtinType? hBuiltin
    rw [Bool.or_eq_true] at hNamed
    rw [readBack]
    by_cases hBraced : isBracedName name = true
    · rw [if_pos hBraced]
    · rw [if_neg hBraced]
      exact ofName_builtin (hNamed.resolve_right hBraced) hBuiltin
  case param =>
    intro name hProper
    rw [isProper] at hProper
    cases hProper
  case noArg => exact fun _ => rfl
  case arg =>
    intro arg rest hArg hRest hProper
    simp only [areProper, Bool.and_eq_true] at hProper
    rw [readBackAll, hArg hProper.1, hRest hProper.2]

------------------------------------------------------------
-- Whole Texts
------------------------------------------------------------

/-
  The text of a proper expression is read as the expression,
  however pointers, containers and arguments are nested.
-/
theorem parse_text
    {e : TypeExpr}
    (h : e.isProper = true) : parse e.text = .ok e := by
  have hNamed := isWellNamed_of_isProper_all.1 e h
  have hEnd : Follows [] := nofun
  have hRead := readsAs_all.1 e hNamed
    (2 * e.text.toList.length + 2) [] hEnd (by omega)
  rw [List.append_nil, readBack_of_isProper_all.1 e h] at hRead
  unfold parse
  dsimp only
  rw [hRead]
  rfl

/- Pages of users by the users who keep them. -/
def pagesByUser : TypeExpr :=
  .map
    (.pointer (.named "example.com/app/v1.2" "User" []))
    (.slice (.named "gopkg.in/yaml.v3" "Page"
      [.array 16 (.builtin "byte"),
        .named "" "mapped" [.builtin "interface\x7b\x7d"]]))

/- Names with dots and slashes around them, inside brackets. -/
theorem parse_text_pagesByUser :
    pagesByUser.text =
        "map[*example.com/app/v1.2.User]"
          ++ "[]gopkg.in/yaml.v3.Page["
          ++ "[16]byte,mapped[interface\x7b\x7d]]"
      ∧ pagesByUser.isProper = true
      ∧ parse pagesByUser.text = .ok pagesByUser := by
  have hText :
      pagesByUser.text =
        "map[*example.com/app/v1.2.User]"
          ++ "[]gopkg.in/yaml.v3.Page["
          ++ "[16]byte,mapped[interface\x7b\x7d]]" := by
    decide +kernel
  have hProper : pagesByUser.isProper = true := by
    decide +kernel
  exact ⟨hText, hProper, parse_text hProper⟩

end TypeExpr

------------------------------------------------------------
-- Names of Instances
------------------------------------------------------------

/-
  For arguments of any depth, the text of an instance gives
  the name that the expression has.  So a catalog and sources
  declare the instance by the name that routes refer to.
-/
theorem instance_named_alike
    {space name : String}
    {args : List TypeExpr}
    (hName : isSimpleName name = true)
    (hArgs : TypeExpr.areWellNamed args = true) :
    catalogName space (TypeExpr.named "" name args).text =
        TypeExpr.instanceName space name args
      ∧ ReportedName.id
          ⟨space, (TypeExpr.named "" name args).text⟩ =
        Source.Instance.id { space, name, args }
      ∧ ∀ known : WellKnown, known.find? space name = none →
        (TypeExpr.named space name args).wireType known =
          .reference
            (ReportedName.id
              ⟨space, (TypeExpr.named "" name args).text⟩) := by
  have hSame :
      catalogName space (TypeExpr.named "" name args).text =
        TypeExpr.instanceName space name args :=
    TypeExpr.catalogName_reportedName hName hArgs
  refine ⟨hSame, hSame, ?_⟩
  intro known hUnknown
  simp only [TypeExpr.wireType, hUnknown]
  exact congrArg WireType.reference hSame.symm

/- Users by the dates of their orders, behind each name. -/
def pageArgs : List TypeExpr :=
  [.map (.builtin "string")
    (.pointer
      (.slice
        (.named "example.com/app/billing" "User"
          [.array 4 (.named "time" "Time" []),
            .builtin "int"])))]

theorem instance_named_alike_page :
    isSimpleName "Page" = true
      ∧ TypeExpr.areWellNamed pageArgs = true
      ∧ catalogName "example.com/app/models"
          ("Page[map[string]*[]example.com/app/billing.User"
            ++ "[[4]time.Time,int]]") =
        { name :=
            "Page_Map_string_Ptr_Slice_billing_User"
              ++ "_Array4_time_Time_int"
          space := "example.com/app/models" } := by
  have hName : isSimpleName "Page" = true := by decide
  have hArgs : TypeExpr.areWellNamed pageArgs = true := by
    decide +kernel
  have hSame :=
    (@instance_named_alike "example.com/app/models" _ _
      hName hArgs).1
  have hText :
      (TypeExpr.named "" "Page" pageArgs).text =
        "Page[map[string]*[]example.com/app/billing.User"
          ++ "[[4]time.Time,int]]" := by
    decide +kernel
  have hId :
      TypeExpr.instanceName "example.com/app/models" "Page"
          pageArgs =
        { name :=
            "Page_Map_string_Ptr_Slice_billing_User"
              ++ "_Array4_time_Time_int"
          space := "example.com/app/models" } := by
    decide +kernel
  rw [hText, hId] at hSame
  exact ⟨hName, hArgs, hSame⟩

end WireSchema
