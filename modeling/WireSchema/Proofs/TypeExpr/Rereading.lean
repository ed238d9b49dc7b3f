import WireSchema.Proofs.Outcome
import WireSchema.Proofs.TypeExpr.RoundTrip

/-
  Reading once more what was read.

  An expression that is read from any text has a text of its
  own.  A name behind a leading dot has no namespace, and its
  text leaves the dot out, so it may be read as something
  else.  Whatever else the text was, it is read as the same
  expression.

  Key definitions include:
    * `TypeExpr.ReadForm`: what is read first
    * `TypeExpr.IsRead`: the expressions that are read
    * `TypeExpr.StandsAlone`, `TypeExpr.isRereadable`
    * `TypeExpr.parse_text_iff`
-/

namespace WireSchema

namespace TypeExpr

variable {fuel : Nat}
variable {s rest : List Char}
variable {e : TypeExpr}

------------------------------------------------------------
-- Forms
------------------------------------------------------------

/- Arguments in brackets, or none if there is no bracket. -/
inductive ReadsArgs (fuel : Nat) :
    List Char → List TypeExpr → List Char → Prop where
  | none
      {rest : List Char}
      (hHead : rest.head? ≠ some '[') :
      ReadsArgs fuel rest [] rest
  | some
      {s rest : List Char}
      {args : List TypeExpr}
      (hArgs : readArgs fuel s = .ok (args, rest)) :
      ReadsArgs fuel ('[' :: s) args rest

/- How an expression is read from the start of a text. -/
inductive ReadForm (fuel : Nat) (s : List Char) :
    TypeExpr → List Char → Prop where
  | pointer
      {t rest : List Char}
      {elem : TypeExpr}
      (hOpen : afterToken? "*" s = some t)
      (hElem : readExpr fuel t = .ok (elem, rest)) :
      ReadForm fuel s (.pointer elem) rest
  | slice
      {t rest : List Char}
      {elem : TypeExpr}
      (hOpen : afterToken? "[]" s = some t)
      (hElem : readExpr fuel t = .ok (elem, rest)) :
      ReadForm fuel s (.slice elem) rest
  | array
      {t u v rest : List Char}
      {len : Nat}
      {elem : TypeExpr}
      (hOpen : afterToken? "[" s = some t)
      (hLength : readLength? t = some (len, u))
      (hClose : afterToken? "]" u = some v)
      (hElem : readExpr fuel v = .ok (elem, rest)) :
      ReadForm fuel s (.array len elem) rest
  | map
      {t u v rest : List Char}
      {key value : TypeExpr}
      (hOpen : afterToken? "map[" s = some t)
      (hKey : readExpr fuel t = .ok (key, u))
      (hClose : afterToken? "]" u = some v)
      (hValue : readExpr fuel v = .ok (value, rest)) :
      ReadForm fuel s (.map key value) rest
  | braced
      {rest : List Char}
      {name : String}
      (hName : isBracedName name = true) :
      ReadForm fuel s (.builtin name) rest
  | word
      {rest : List Char}
      {e : TypeExpr}
      {args : List TypeExpr}
      (hOpens : Opens s)
      (hSome : openingWord (Text.trimStart s) ≠ [])
      (hArgs :
        ReadsArgs fuel (behindWord (Text.trimStart s)) args rest)
      (hName : ofName (openingWord (Text.trimStart s)) args = e) :
      ReadForm fuel s e rest

/- Only the braced types are read as such. -/
theorem exists_of_readBraced?
    (h : readBraced? s = some (e, rest)) :
    ∃ name, isBracedName name = true ∧ e = .builtin name := by
  have hNames : ∀ p ∈ bracedTypes, isBracedName p.2 = true := by
    decide
  unfold readBraced? at h
  rcases List.exists_of_findSome?_eq_some h with ⟨p, hp, hRead⟩
  rcases Option.map_eq_some_iff.mp hRead with ⟨_, -, hSame⟩
  cases hSame
  exact ⟨p.2, hNames p hp, rfl⟩

/- What is read behind a word are its arguments. -/
theorem exists_of_readBehind
    {word : List Char}
    (h : readBehind fuel word s = .ok (e, rest)) :
    ∃ args, ReadsArgs fuel s args rest
      ∧ ofName word args = e := by
  unfold readBehind at h
  split at h
  · rcases eq_ok_of_bind h with ⟨⟨args, u⟩, hArgs, hSame⟩
    cases hSame
    exact ⟨args, .some hArgs, rfl⟩
  · next hOther =>
      cases h
      refine ⟨[], .none ?_, rfl⟩
      intro hHead
      rcases List.head?_eq_some_iff.mp hHead with ⟨t, ht⟩
      exact hOther t ht

/- An expression behind a closing bracket, put into another. -/
theorem exists_of_closed
    {fault : Fault}
    {wrap : TypeExpr → TypeExpr}
    (h :
      (match afterToken? "]" s with
        | none => .error fault
        | some v => do
            let (elem, rest) ← readExpr fuel v
            .ok (wrap elem, rest)) =
        (.ok (e, rest) : Except Fault _)) :
    ∃ v elem, afterToken? "]" s = some v
      ∧ readExpr fuel v = .ok (elem, rest)
      ∧ wrap elem = e := by
  cases hClose : afterToken? "]" s with
  | none =>
      rw [hClose] at h
      cases h
  | some v =>
      simp only [hClose] at h
      rcases eq_ok_of_bind h with ⟨⟨elem, u⟩, hElem, hSame⟩
      cases hSame
      exact ⟨v, elem, rfl, hElem, rfl⟩

/- Forms are tried one after the other, names at last. -/
theorem readForm_of_readExpr
    (h : readExpr (fuel + 1) s = .ok (e, rest)) :
    ReadForm fuel s e rest := by
  cases hPointer : afterToken? "*" s with
  | some t =>
      simp only [readExpr, hPointer] at h
      rcases eq_ok_of_bind h with ⟨p, hElem, hSame⟩
      cases hSame
      exact .pointer hPointer hElem
  | none =>
  cases hSlice : afterToken? "[]" s with
  | some t =>
      simp only [readExpr, hPointer, hSlice] at h
      rcases eq_ok_of_bind h with ⟨p, hElem, hSame⟩
      cases hSame
      exact .slice hSlice hElem
  | none =>
  cases hArray : afterToken? "[" s with
  | some t =>
      simp only [readExpr, hPointer, hSlice, hArray] at h
      cases hLength : readLength? t with
      | none =>
          rw [hLength] at h
          cases h
      | some p =>
          rcases p with ⟨len, u⟩
          simp only [hLength] at h
          rcases exists_of_closed h with
            ⟨v, elem, hClose, hElem, rfl⟩
          exact .array hArray hLength hClose hElem
  | none =>
  cases hMap : afterToken? "map[" s with
  | some t =>
      simp only [readExpr, hPointer, hSlice, hArray, hMap] at h
      rcases eq_ok_of_bind h with ⟨⟨key, u⟩, hKey, hEnd⟩
      rcases exists_of_closed hEnd with
        ⟨v, value, hClose, hValue, rfl⟩
      exact .map hMap hKey hClose hValue
  | none =>
  cases hBraced : readBraced? s with
  | some found =>
      simp only [readExpr, hPointer, hSlice, hArray, hMap,
        hBraced] at h
      cases h
      rcases exists_of_readBraced? hBraced with
        ⟨name, hName, rfl⟩
      exact .braced hName
  | none =>
  have hOpens : Opens s := ⟨hPointer, hSlice, hArray, hMap, hBraced⟩
  rw [readExpr_of_opens hOpens] at h
  split at h
  · cases h
  · next hSome =>
      rw [List.isEmpty_iff] at hSome
      rcases exists_of_readBehind h with ⟨args, hArgs, hName⟩
      exact .word hOpens hSome hArgs hName

/- Arguments are read one by one. -/
theorem exists_of_readArgs
    {args : List TypeExpr}
    (h : readArgs (fuel + 1) s = .ok (args, rest)) :
    ∃ arg more u, args = arg :: more
      ∧ readExpr fuel s = .ok (arg, u)
      ∧ ((more = [] ∧ afterToken? "," u = none
          ∧ afterToken? "]" u = some rest)
        ∨ ∃ v, afterToken? "," u = some v
          ∧ readArgs fuel v = .ok (more, rest)) := by
  rw [readArgs] at h
  rcases eq_ok_of_bind h with ⟨⟨arg, u⟩, hArg, hEnd⟩
  dsimp only at hEnd
  cases hComma : afterToken? "," u with
  | some v =>
      simp only [hComma] at hEnd
      rcases eq_ok_of_bind hEnd with ⟨⟨more, w⟩, hMore, hSame⟩
      cases hSame
      exact ⟨arg, more, u, rfl, hArg, .inr ⟨v, hComma, hMore⟩⟩
  | none =>
      simp only [hComma] at hEnd
      cases hClose : afterToken? "]" u with
      | none =>
          rw [hClose] at hEnd
          cases hEnd
      | some v =>
          rw [hClose] at hEnd
          cases hEnd
          exact ⟨arg, [], u, rfl, hArg,
            .inl ⟨rfl, hComma, hClose⟩⟩

/- A length that is read fits a word. -/
theorem le_of_readLength?
    {len : Nat}
    (h : readLength? s = some (len, rest)) : len ≤ maxWord := by
  unfold readLength? at h
  dsimp only at h
  split at h
  · cases h
  · split at h
    · next hLen =>
        cases h
        exact hLen
    · cases h

------------------------------------------------------------
-- Words
------------------------------------------------------------

/- No token of another kind stands where a name does. -/
theorem Opens.isScannable
    (hOpens : Opens s)
    (hSome : openingWord (Text.trimStart s) ≠ []) :
    IsScannable (openingWord (Text.trimStart s)) where
  ne_nil := hSome
  inner c hc := by
    have hName := List.all_eq_true.mp
      List.all_takeWhile c hc
    simpa using hName
  first := by
    intro c hc
    have hHead : (Text.trimStart s).head? = some c := by
      unfold openingWord at hc
      rw [List.head?_takeWhile] at hc
      exact Option.mem_filter_iff.mp hc |>.1
    constructor
    · have hBlank := List.head?_dropWhile_not Text.isBlank s
      unfold Text.trimStart at hHead
      rw [hHead] at hBlank
      exact hBlank
    · rintro rfl
      rcases List.head?_eq_some_iff.mp hHead with ⟨t, ht⟩
      have hNone := hOpens.pointer
      unfold afterToken? at hNone
      rw [ht] at hNone
      cases hNone
  braced := by
    intro p hp hFront
    have hTokens : ∀ p ∈ bracedTypes,
        ∃ q ∈ bracedTypes, q.1 = p.2 := by
      decide
    rcases hTokens p hp with ⟨q, hq, hSame⟩
    have hNone := hOpens.braced
    unfold readBraced? at hNone
    rw [List.findSome?_eq_none_iff] at hNone
    rcases hFront with ⟨t, ht⟩
    have hSome : afterToken? q.1 s =
        some (t ++ behindWord (Text.trimStart s)) := by
      unfold afterToken?
      rw [Text.afterHead?_eq_some_iff, hSame,
        ← List.append_assoc, ht]
      exact List.takeWhile_append_dropWhile.symm
    have hAbsurd := hNone q hq
    rw [hSome] at hAbsurd
    cases hAbsurd

theorem Opens.ne_map
    (hOpens : Opens s)
    (hHead :
      (behindWord (Text.trimStart s)).head? = some '[') :
    openingWord (Text.trimStart s) ≠ "map".toList := by
  intro hMap
  rcases List.head?_eq_some_iff.mp hHead with ⟨t, ht⟩
  have hSplit : Text.trimStart s = "map".toList ++ '[' :: t := by
    rw [← hMap, ← ht]
    exact List.takeWhile_append_dropWhile.symm
  have hNone := hOpens.map
  unfold afterToken? at hNone
  rw [hSplit] at hNone
  cases hNone

------------------------------------------------------------
-- What Is Read
------------------------------------------------------------

/- A name that is read as it is, with nothing in front. -/
structure StandsAlone
    (name : String)
    (args : List TypeExpr) : Prop where
  scannable : IsScannable name.toList
  ne_map : args ≠ [] → name ≠ "map"
  other : isPredeclared "" name args = false

instance (name : String) (args : List TypeExpr) :
    Decidable (StandsAlone name args) :=
  decidable_of_iff
    (IsScannable name.toList ∧ (args ≠ [] → name ≠ "map")
      ∧ isPredeclared "" name args = false)
    ⟨fun h => ⟨h.1, h.2.1, h.2.2⟩,
      fun h => ⟨h.scannable, h.ne_map, h.other⟩⟩

/- The expressions that some text is read as. -/
inductive IsRead : TypeExpr → Prop where
  | word
      {space name : String}
      {args : List TypeExpr}
      (hWord : IsScannable (wordOf space name))
      (hMap : args ≠ [] → wordOf space name ≠ "map".toList)
      (hName :
        ofName (wordOf space name) args =
          .named space name args)
      (hAlone : space.isEmpty = true → StandsAlone name args)
      (hArgs : ∀ arg ∈ args, IsRead arg) :
      IsRead (.named space name args)
  | dotted
      {name : String}
      {args : List TypeExpr}
      (hInner : ∀ c ∈ name.toList, endsName c = false)
      (hDot : '.' ∉ name.toList)
      (hSlash : '/' ∉ name.toList)
      (hArgs : ∀ arg ∈ args, IsRead arg) :
      IsRead (.named "" name args)
  | predeclared
      {name : String}
      (hWord : IsScannable name.toList)
      (hName : ofName name.toList [] = .builtin name) :
      IsRead (.builtin name)
  | braced
      {name : String}
      (hName : isBracedName name = true) :
      IsRead (.builtin name)
  | pointer
      {elem : TypeExpr}
      (hElem : IsRead elem) : IsRead (.pointer elem)
  | slice
      {elem : TypeExpr}
      (hElem : IsRead elem) : IsRead (.slice elem)
  | array
      {len : Nat}
      {elem : TypeExpr}
      (hLen : len ≤ maxWord)
      (hElem : IsRead elem) : IsRead (.array len elem)
  | map
      {key value : TypeExpr}
      (hKey : IsRead key)
      (hValue : IsRead value) : IsRead (.map key value)

/- Every text is that of a string. -/
theorem exists_toList (s : List Char) :
    ∃ t : String, t.toList = s :=
  ⟨String.ofList s, String.toList_ofList⟩

/-
  A word is that of the name it stands for, unless nothing
  stands in front of its dot.
-/
theorem isRead_ofName
    {word : List Char}
    {args : List TypeExpr}
    (hWord : IsScannable word)
    (hMap : args ≠ [] → word ≠ "map".toList)
    (hArgs : ∀ arg ∈ args, IsRead arg) :
    IsRead (ofName word args) := by
  cases hSplit : splitQualifiedChars word with
  | none =>
      rcases exists_toList word with ⟨name, rfl⟩
      have hName := ofName_of_split_none hSplit args
      cases hBuiltin : isPredeclared "" name args with
      | true =>
          rw [hBuiltin, if_pos rfl] at hName
          have hNil : args = [] := by
            simp only [isPredeclared, Bool.and_eq_true,
              List.isEmpty_iff] at hBuiltin
            exact hBuiltin.1.2
          subst hNil
          rw [hName]
          exact .predeclared hWord hName
      | false =>
          rw [hBuiltin, if_neg Bool.false_ne_true] at hName
          have hAlone : StandsAlone name args :=
            ⟨hWord, fun hSome hSame => hMap hSome (by rw [hSame]),
              hBuiltin⟩
          rw [hName]
          exact .word hWord hMap hName (fun _ => hAlone) hArgs
  | some p =>
      rcases append_of_splitQualifiedChars hSplit with
        ⟨hSame, hDot, hSlash⟩
      rcases exists_toList p.1 with ⟨space, hSpace⟩
      rcases exists_toList p.2 with ⟨name, hName⟩
      rw [← hSpace, ← hName] at hSame
      rw [← hName] at hDot hSlash
      rw [← Prod.eta p, ← hSpace, ← hName] at hSplit
      rw [ofName_of_split hSplit]
      cases hEmpty : space.isEmpty with
      | true =>
          rw [String.isEmpty_iff] at hEmpty
          subst hEmpty
          refine .dotted (fun c hc => ?_) hDot hSlash hArgs
          apply hWord.inner
          simp [hSame, hc]
      | false =>
          have hWordOf : word = wordOf space name := by
            unfold wordOf
            rw [hEmpty, hSame]
            rfl
          subst hWordOf
          refine .word hWord hMap
            (ofName_qualified args hEmpty hDot hSlash)
            (fun h => ?_) hArgs
          rw [hEmpty] at h
          cases h

/- What is read of a text, however it goes on. -/
theorem isRead_of_read (fuel : Nat) :
    (∀ s e rest, readExpr fuel s = .ok (e, rest) → IsRead e)
      ∧ ∀ s args rest, readArgs fuel s = .ok (args, rest) →
        ∀ arg ∈ args, IsRead arg := by
  induction fuel with
  | zero =>
      constructor
      · intro s e rest h
        cases h
      · intro s args rest h
        cases h
  | succ fuel ih =>
      constructor
      · intro s e rest h
        cases readForm_of_readExpr h with
        | pointer _ hElem => exact .pointer (ih.1 _ _ _ hElem)
        | slice _ hElem => exact .slice (ih.1 _ _ _ hElem)
        | array _ hLength _ hElem =>
            exact .array (le_of_readLength? hLength)
              (ih.1 _ _ _ hElem)
        | map _ hKey _ hValue =>
            exact .map (ih.1 _ _ _ hKey) (ih.1 _ _ _ hValue)
        | braced hName => exact .braced hName
        | word hOpens hSome hArgs hName =>
            subst hName
            have hScannable := hOpens.isScannable hSome
            generalize hBehind :
              behindWord (Text.trimStart s) = u at hArgs
            cases hArgs with
            | none =>
                exact isRead_ofName hScannable (absurd rfl) nofun
            | some hArgs =>
                refine isRead_ofName hScannable (fun _ => ?_)
                  (ih.2 _ _ _ hArgs)
                apply hOpens.ne_map
                rw [hBehind]
                rfl
      · intro s args rest h
        rcases exists_of_readArgs h with
          ⟨arg, more, u, rfl, hArg, hMore⟩
        have hFirst := ih.1 _ _ _ hArg
        rcases hMore with ⟨rfl, -⟩ | ⟨v, -, hMore⟩
        · simpa using hFirst
        · exact List.forall_mem_cons.mpr
            ⟨hFirst, ih.2 _ _ _ hMore⟩

------------------------------------------------------------
-- Names That Stand Alone
------------------------------------------------------------

mutual

/-
  Whether all names without a namespace stand alone.  Texts
  do not show parameters.
-/
def isRereadable : TypeExpr → Bool
  | .named space name args =>
      (!space.isEmpty || decide (StandsAlone name args))
        && areRereadable args
  | .pointer elem => isRereadable elem
  | .slice elem => isRereadable elem
  | .array _ elem => isRereadable elem
  | .map key value => isRereadable key && isRereadable value
  | .builtin _ => true
  | .param _ => false

def areRereadable : List TypeExpr → Bool
  | [] => true
  | arg :: rest => isRereadable arg && areRereadable rest

end

theorem areRereadable_iff {args : List TypeExpr} :
    areRereadable args = true ↔
      ∀ arg ∈ args, isRereadable arg = true := by
  induction args with
  | nil => simp [areRereadable]
  | cons arg rest ih => simp [areRereadable, ih]

/- A word without a dot stands for a name that stands alone. -/
theorem standsAlone_of_ofName
    {name : String}
    {word : List Char}
    {args found : List TypeExpr}
    (hWord : IsScannable word)
    (hMap : args ≠ [] → word ≠ "map".toList)
    (hDot : '.' ∉ word)
    (h : ofName word found = .named "" name args) :
    word = name.toList ∧ StandsAlone name args := by
  rcases exists_toList word with ⟨alone, rfl⟩
  cases hSplit : splitQualifiedChars alone.toList with
  | none =>
      rw [ofName_of_split_none hSplit] at h
      split at h
      · cases h
      · next hOther =>
          cases h
          refine ⟨rfl, hWord, fun hSome hSame => ?_, ?_⟩
          · exact hMap hSome (by rw [hSame])
          · simpa using hOther
  | some p =>
      rcases append_of_splitQualifiedChars hSplit with ⟨hSame, -⟩
      exact absurd (by simp [hSame]) hDot

/- The arguments of what is found are those behind its word. -/
theorem args_of_ofName
    {space name : String}
    {word : List Char}
    {args found : List TypeExpr}
    (h : ofName word found = .named space name args) :
    found = args := by
  unfold ofName at h
  split at h
  · cases h
    rfl
  · dsimp only at h
    split at h
    · cases h
    · cases h
      rfl

------------------------------------------------------------
-- Reading Again
------------------------------------------------------------

theorem readTo_self
    {args : List TypeExpr}
    (h : ∀ arg ∈ args, ReadsTo arg arg) : ReadTo args args := by
  induction args with
  | nil => exact fun hNil => absurd rfl hNil
  | cons arg rest ih =>
      rw [List.forall_mem_cons] at h
      exact readTo_cons h.1 (ih h.2) id

/- A name is read from its word, as its arguments are. -/
theorem readsTo_word
    {space name : String}
    {args : List TypeExpr}
    (hWord : IsScannable (wordOf space name))
    (hMap : args ≠ [] → wordOf space name ≠ "map".toList)
    (hName :
      ofName (wordOf space name) args = .named space name args)
    (hArgs : ∀ arg ∈ args,
      arg.isRereadable = true → ReadsTo arg arg)
    (hAlone : areRereadable args = true) :
    ReadsTo (.named space name args)
      (.named space name args) := by
  rw [areRereadable_iff] at hAlone
  have hReads := readsTo_named hWord hMap id
    (readTo_self fun arg hArg => hArgs arg hArg
      (hAlone arg hArg))
  rwa [hName] at hReads

/- What is read is read again if its names stand alone. -/
theorem IsRead.readsTo
    (h : IsRead e)
    (hAlone : e.isRereadable = true) : ReadsTo e e := by
  induction h with
  | word hScannable hMap hName _ _ ih =>
      rw [isRereadable, Bool.and_eq_true] at hAlone
      exact readsTo_word hScannable hMap hName ih hAlone.2
  | @dotted name args _ hDot hSlash _ ih =>
      simp only [isRereadable, Bool.and_eq_true, Bool.or_eq_true,
        decide_eq_true_eq] at hAlone
      have hName := hAlone.1.resolve_left (by decide)
      refine readsTo_word hName.scannable (fun hSome hMap => ?_)
        (ofName_wordOf hDot hSlash hName.other) ih hAlone.2
      exact hName.ne_map hSome (String.toList_inj.mp hMap)
  | predeclared hScannable hName =>
      intro fuel rest hFollows hFuel
      rw [text] at hFuel ⊢
      rw [reads_word hScannable hFollows hFuel, hName]
  | braced hName => exact readsTo_braced hName
  | pointer _ ih => exact readsTo_pointer (ih hAlone)
  | slice _ ih => exact readsTo_slice (ih hAlone)
  | array hLen _ ih => exact readsTo_array hLen (ih hAlone)
  | map _ _ ihKey ihValue =>
      rw [isRereadable, Bool.and_eq_true] at hAlone
      exact readsTo_map (ihKey hAlone.1) (ihValue hAlone.2)

------------------------------------------------------------
-- Reading Nothing Else
------------------------------------------------------------

/- What is found for a word, and what is read behind it. -/
theorem parts_of_readExpr_named
    {space name : String}
    {word : List Char}
    {args : List TypeExpr}
    (hInner : ∀ c ∈ word, endsName c = false)
    (hEnds : EndsWord s)
    (h : readExpr (fuel + 1) (word ++ s) =
      .ok (.named space name args, rest)) :
    IsScannable (Text.trimStart word)
      ∧ (s.head? = some '[' →
        Text.trimStart word ≠ "map".toList)
      ∧ ofName (Text.trimStart word) args =
        .named space name args
      ∧ ReadsArgs fuel s args rest := by
  have hTrimmed : ∀ c ∈ Text.trimStart word,
      endsName c = false :=
    fun c hc => hInner c ((List.dropWhile_sublist _).mem hc)
  have hOpening := openingWord_append hTrimmed hEnds
  have hBehind := behindWord_append hTrimmed hEnds
  rw [← trimStart_append hEnds] at hOpening hBehind
  cases readForm_of_readExpr h with
  | word hOpens hSome hArgs hName =>
      have hScannable := hOpens.isScannable hSome
      have hMap := hOpens.ne_map
      rw [hOpening] at hScannable hMap hName
      rw [hBehind] at hMap hArgs
      have hFound := args_of_ofName hName
      subst hFound
      exact ⟨hScannable, hMap, hName, hArgs⟩

/-
  Where reading the text of an expression gives it back, its
  names stand alone, and nothing more is read.
-/
def Tells (e : TypeExpr) : Prop :=
  ∀ fuel rest behind, Follows rest →
    readExpr fuel (e.text.toList ++ rest) = .ok (e, behind) →
      e.isRereadable = true ∧ behind = rest

/- Nothing is read without steps. -/
theorem tells_of_succ
    (h : ∀ fuel rest behind, Follows rest →
      readExpr (fuel + 1) (e.text.toList ++ rest) =
          .ok (e, behind) →
        e.isRereadable = true ∧ behind = rest) :
    Tells e := by
  intro fuel rest behind hFollows hRead
  cases fuel with
  | zero => cases hRead
  | succ fuel => exact h fuel rest behind hFollows hRead

/- The mark behind an argument is where its text ends. -/
theorem tells_readArgs
    {args : List TypeExpr}
    (h : ∀ arg ∈ args, Tells arg)
    (hSome : args ≠ []) :
    ∀ fuel rest behind,
      readArgs fuel ((argsBody args).toList ++ ']' :: rest) =
          .ok (args, behind) →
        areRereadable args = true ∧ behind = rest := by
  induction args with
  | nil => exact absurd rfl hSome
  | cons arg more ih =>
      intro fuel rest behind hRead
      rw [List.forall_mem_cons] at h
      cases fuel with
      | zero => cases hRead
      | succ fuel =>
      rcases exists_of_readArgs hRead with
        ⟨_, _, u, hSame, hArg, hEnd⟩
      cases hSame
      by_cases hNil : more = []
      · subst hNil
        have hText : argsBody [arg] = arg.text := by
          simp [argsBody, moreArgsText]
        rw [hText] at hArg
        rcases h.1 fuel _ u (follows_close rest) hArg with
          ⟨hAlone, rfl⟩
        rcases hEnd with ⟨-, -, hClose⟩ | ⟨v, hComma, -⟩
        · cases hClose
          exact ⟨by simp [areRereadable, hAlone], rfl⟩
        · cases hComma
      · rw [argsBody_cons hNil, List.append_assoc] at hArg
        rcases h.1 fuel _ u (follows_comma _) hArg with
          ⟨hAlone, rfl⟩
        rcases hEnd with ⟨hNone, -⟩ | ⟨v, hComma, hMore⟩
        · exact absurd hNone hNil
        · cases hComma
          rcases ih h.2 hNil fuel rest behind hMore with
            ⟨hOthers, hRest⟩
          exact ⟨by simp [areRereadable, hAlone, hOthers], hRest⟩

theorem tells_readsArgs
    {args : List TypeExpr}
    {behind : List Char}
    (h : ∀ arg ∈ args, Tells arg)
    (hFollows : Follows rest)
    (hRead :
      ReadsArgs fuel ((argsText args).toList ++ rest) args
        behind) :
    areRereadable args = true ∧ behind = rest := by
  by_cases hNil : args = []
  · subst hNil
    have hText : (argsText []).toList ++ rest = rest := rfl
    rw [hText] at hRead
    cases hRead with
    | none => exact ⟨rfl, rfl⟩
    | some _ =>
        rcases hFollows '[' rfl with hc | hc
        · cases hc
        · cases hc
  · have hText : (argsText args).toList ++ rest =
        '[' :: ((argsBody args).toList ++ ']' :: rest) := by
      simp [argsText_eq hNil]
    rw [hText] at hRead
    cases hRead with
    | none => exact absurd rfl hNil
    | some hArgs => exact tells_readArgs h hNil _ _ _ hArgs

theorem endsWord_argsText
    (hFollows : Follows rest)
    (args : List TypeExpr) :
    EndsWord ((argsText args).toList ++ rest) := by
  by_cases hNil : args = []
  · subst hNil
    exact hFollows.endsWord
  · intro c hc
    rw [argsText_eq hNil] at hc
    simp at hc
    exact .inl hc.symm

theorem tells_pointer
    {elem : TypeExpr}
    (hElem : Tells elem) : Tells (.pointer elem) := by
  apply tells_of_succ
  intro fuel rest behind hFollows hRead
  have hText : (TypeExpr.pointer elem).text.toList =
      '*' :: elem.text.toList := by
    simp [text]
  rw [hText] at hRead
  cases readForm_of_readExpr hRead with
  | pointer hOpen hRead =>
      cases hOpen
      exact hElem fuel rest behind hFollows hRead
  | word hOpens => cases hOpens.pointer

theorem tells_slice
    {elem : TypeExpr}
    (hElem : Tells elem) : Tells (.slice elem) := by
  apply tells_of_succ
  intro fuel rest behind hFollows hRead
  have hText : (TypeExpr.slice elem).text.toList =
      '[' :: ']' :: elem.text.toList := by
    simp [text]
  rw [hText] at hRead
  cases readForm_of_readExpr hRead with
  | slice hOpen hRead =>
      cases hOpen
      exact hElem fuel rest behind hFollows hRead
  | word hOpens => cases hOpens.slice

theorem tells_array
    {len : Nat}
    {elem : TypeExpr}
    (hLen : len ≤ maxWord)
    (hElem : Tells elem) : Tells (.array len elem) := by
  apply tells_of_succ
  intro fuel rest behind hFollows hRead
  rw [text_array, List.cons_append, List.append_assoc,
    List.cons_append, readExpr_array hLen] at hRead
  rcases eq_ok_of_bind hRead with ⟨p, hReadElem, hSame⟩
  cases hSame
  exact hElem fuel rest _ hFollows hReadElem

theorem tells_map
    {key value : TypeExpr}
    (hKey : Tells key)
    (hValue : Tells value) : Tells (.map key value) := by
  apply tells_of_succ
  intro fuel rest behind hFollows hRead
  rw [text_map] at hRead
  simp only [List.cons_append, List.append_assoc] at hRead
  cases readForm_of_readExpr hRead with
  | map hOpen hReadKey hClose hReadValue =>
      cases hOpen
      rcases hKey fuel _ _ (follows_close _) hReadKey with
        ⟨hKeyAlone, rfl⟩
      cases hClose
      rcases hValue fuel rest behind hFollows hReadValue with
        ⟨hValueAlone, hRest⟩
      refine ⟨?_, hRest⟩
      simp [isRereadable, hKeyAlone, hValueAlone]
  | word hOpens => cases hOpens.map

/-
  A word that is read has no blanks in front.  Without a dot
  it is the name itself, so a name that has lost its dot is
  given back only if it stands alone.
-/
theorem IsRead.tells (h : IsRead e) : Tells e := by
  induction h with
  | @word space name args hWord _ _ hAlone _ ih =>
      apply tells_of_succ
      intro fuel rest behind hFollows hRead
      rw [text_named, List.append_assoc] at hRead
      rcases parts_of_readExpr_named hWord.inner
        (endsWord_argsText hFollows args) hRead with
        ⟨-, -, -, hArgs⟩
      rcases tells_readsArgs ih hFollows hArgs with
        ⟨hOthers, hRest⟩
      refine ⟨?_, hRest⟩
      rw [isRereadable, hOthers, Bool.and_true]
      cases hSpace : space.isEmpty with
      | true => simpa using hAlone hSpace
      | false => rfl
  | @dotted name args hInner hDot _ _ ih =>
      apply tells_of_succ
      intro fuel rest behind hFollows hRead
      have hWord : wordOf "" name = name.toList := rfl
      rw [text_named, hWord, List.append_assoc] at hRead
      rcases parts_of_readExpr_named hInner
        (endsWord_argsText hFollows args) hRead with
        ⟨hScannable, hMap, hName, hArgs⟩
      rcases tells_readsArgs ih hFollows hArgs with
        ⟨hOthers, hRest⟩
      have hNoDot : '.' ∉ Text.trimStart name.toList :=
        fun hMem => hDot ((List.dropWhile_sublist _).mem hMem)
      have hBracket : args ≠ [] →
          ((argsText args).toList ++ rest).head? = some '[' := by
        intro hSome
        simp [argsText_eq hSome]
      have hAlone := standsAlone_of_ofName hScannable
        (fun hSome => hMap (hBracket hSome)) hNoDot hName
      refine ⟨?_, hRest⟩
      simp [isRereadable, hOthers, hAlone.2]
  | @predeclared name hWord hName =>
      apply tells_of_succ
      intro fuel rest behind hFollows hRead
      rw [text, readExpr_plain hWord hFollows, hName] at hRead
      cases hRead
      exact ⟨rfl, rfl⟩
  | braced hName =>
      apply tells_of_succ
      intro fuel rest behind hFollows hRead
      rw [text, readExpr_braced hName] at hRead
      cases hRead
      exact ⟨rfl, rfl⟩
  | pointer _ ih => exact tells_pointer ih
  | slice _ ih => exact tells_slice ih
  | array hLen _ ih => exact tells_array hLen ih
  | map _ _ ihKey ihValue => exact tells_map ihKey ihValue

------------------------------------------------------------
-- Whole Texts
------------------------------------------------------------

/- An accepted text is an expression with blanks behind it. -/
theorem readExpr_of_parse
    {input : String}
    (h : parse input = .ok e) :
    ∃ rest, readExpr (2 * input.toList.length + 2)
      input.toList = .ok (e, rest) := by
  unfold parse at h
  dsimp only at h
  split at h
  · cases h
  · next hRead =>
      split at h
      · cases h
        exact ⟨_, hRead⟩
      · cases h

/-
  An expression that is read from any text is read again from
  its own text, exactly if all names that stood behind a dot
  with no namespace stand alone.
-/
theorem parse_text_iff
    {input : String}
    (h : parse input = .ok e) :
    parse e.text = .ok e ↔ e.isRereadable = true := by
  rcases readExpr_of_parse h with ⟨_, hFirst⟩
  have hIsRead := (isRead_of_read _).1 _ _ _ hFirst
  have hEnd : Follows [] := nofun
  constructor
  · intro hAgain
    rcases readExpr_of_parse hAgain with ⟨behind, hRead⟩
    rw [← List.append_nil e.text.toList] at hRead
    exact (hIsRead.tells _ _ _ hEnd hRead).1
  · intro hAlone
    have hRead := hIsRead.readsTo hAlone
      (2 * e.text.toList.length + 2) [] hEnd (by omega)
    rw [List.append_nil] at hRead
    unfold parse
    dsimp only
    rw [hRead]
    rfl

/- A map is no type that is applied to arguments. -/
example :
    isRereadable (.named "" "map" [.builtin "int"]) = false := by
  decide

/- Pages by their leaves, written with dots and blanks. -/
def looseText : String :=
  " map[ * .Leaf ][16 ]..Page[/a.b/c,\t.int[struct \x7b\x7d ]]"

def looseExpr : TypeExpr :=
  .map (.pointer (.named "" "Leaf" []))
    (.array 16 (.named "." "Page"
      [.named "" "/a.b/c" [],
        .named "" "int" [.builtin "struct\x7b\x7d"]]))

theorem parse_text_looseText :
    parse looseText = .ok looseExpr
      ∧ looseExpr.text =
        "map[*Leaf][16]..Page[/a.b/c,int[struct\x7b\x7d]]"
      ∧ looseExpr.isRereadable = true
      ∧ parse looseExpr.text = .ok looseExpr := by
  have hRead : parse looseText = .ok looseExpr := by rfl
  have hAlone : looseExpr.isRereadable = true := by
    decide +kernel
  exact ⟨hRead, by decide +kernel, hAlone,
    (parse_text_iff hRead).mpr hAlone⟩

/- A dot keeps a name from being predeclared. -/
theorem parse_text_dotted :
    parse ".int" = .ok (.named "" "int" [])
      ∧ text (.named "" "int" []) = "int"
      ∧ parse "int" = .ok (.builtin "int")
      ∧ parse "int" ≠ .ok (.named "" "int" []) := by
  have hRead : parse "int" = .ok (.builtin "int") := by rfl
  refine ⟨by rfl, by rfl, hRead, ?_⟩
  rw [hRead]
  intro hSame
  cases hSame

end TypeExpr

end WireSchema
