import WireSchema.Proofs.TypeExpr.RoundTrip
import WireSchema.Proofs.TypeExpr.Spelling

/-
  When two instances of a generic type have one name.

  An expression is the row of its heads, each of them in front
  of what stands in it.  Where each named type has a number of
  arguments of its own, the row tells the expression.  A name
  keeps the words of the row, but not which head a word is
  from.  So two instances have one name only if a head of one
  might be taken for another head of the other.

  Key definitions include:
    * `TypeExpr.Head`, `TypeExpr.heads`
    * `TypeExpr.Head.words`
    * `TypeExpr.HasArity`
    * `TypeExpr.Head.IsMistakable`
    * `TypeExpr.instanceName_apart`
-/

namespace WireSchema

open Spelling

namespace TypeExpr

------------------------------------------------------------
-- Heads
------------------------------------------------------------

/- An expression without what stands in it. -/
inductive Head where
  | named (space name : String)
  | pointer
  | slice
  | array (len : Nat)
  | map
  | builtin (name : String)
  | param (name : String)
  deriving DecidableEq, Repr

/- The words that a head is spelled by. -/
def Head.words : Head → List (List Char)
  | .named space name =>
      Spelling.wordsOf (lastSegment space)
        ++ Spelling.wordsOf name.toList
  | .pointer => ["Ptr".toList]
  | .slice => ["Slice".toList]
  | .array len => [("Array" ++ toString len).toList]
  | .map => ["Map".toList]
  | .builtin name => Spelling.wordsOf name.toList
  | .param name => Spelling.wordsOf name.toList

mutual

/- The heads of an expression and of all that stands in it. -/
def heads : TypeExpr → List Head
  | .named space name args => .named space name :: argHeads args
  | .pointer elem => .pointer :: heads elem
  | .slice elem => .slice :: heads elem
  | .array len elem => .array len :: heads elem
  | .map key value => .map :: (heads key ++ heads value)
  | .builtin name => [.builtin name]
  | .param name => [.param name]

def argHeads : List TypeExpr → List Head
  | [] => []
  | arg :: rest => heads arg ++ argHeads rest

end

mutual

/- Every named type has the number of arguments it takes. -/
def HasArity
    (arity : String → String → Nat) : TypeExpr → Prop
  | .named space name args =>
      args.length = arity space name ∧ HaveArity arity args
  | .pointer elem => HasArity arity elem
  | .slice elem => HasArity arity elem
  | .array _ elem => HasArity arity elem
  | .map key value => HasArity arity key ∧ HasArity arity value
  | .builtin _ => True
  | .param _ => True

def HaveArity
    (arity : String → String → Nat) : List TypeExpr → Prop
  | [] => True
  | arg :: rest => HasArity arity arg ∧ HaveArity arity rest

end

variable {arity : String → String → Nat}

/-
  Rows of heads are told apart from the left: at a head, how
  many expressions follow is the same for both.
-/
theorem eq_of_heads_append_all :
    (∀ e, HasArity arity e → ∀ e', HasArity arity e' →
        ∀ more more', heads e ++ more = heads e' ++ more' →
          e = e' ∧ more = more')
      ∧ ∀ args, HaveArity arity args →
        ∀ args', HaveArity arity args' →
          args.length = args'.length →
            ∀ more more',
              argHeads args ++ more = argHeads args' ++ more' →
                args = args' ∧ more = more' := by
  refine heads.mutual_induct _ _
    ?named ?pointer ?slice ?array ?map ?builtin ?param
    ?noArg ?arg
  case named =>
    intro space name args hArgs hArity e' hArity' more more' hSame
    cases e' with
    | named space' name' args' =>
        simp only [heads, List.cons_append, List.cons.injEq,
          Head.named.injEq] at hSame
        rcases hSame with ⟨⟨rfl, rfl⟩, hSame⟩
        simp only [HasArity] at hArity hArity'
        have hLength := hArity.1.trans hArity'.1.symm
        rcases hArgs hArity.2 args' hArity'.2 hLength more more'
          hSame with ⟨rfl, rfl⟩
        exact ⟨rfl, rfl⟩
    | _ => simp [heads] at hSame
  case pointer =>
    intro elem hElem hArity e' hArity' more more' hSame
    cases e' with
    | pointer elem' =>
        simp only [heads, List.cons_append, List.cons.injEq,
          true_and] at hSame
        rcases hElem hArity elem' hArity' more more' hSame with
          ⟨rfl, rfl⟩
        exact ⟨rfl, rfl⟩
    | _ => simp [heads] at hSame
  case slice =>
    intro elem hElem hArity e' hArity' more more' hSame
    cases e' with
    | slice elem' =>
        simp only [heads, List.cons_append, List.cons.injEq,
          true_and] at hSame
        rcases hElem hArity elem' hArity' more more' hSame with
          ⟨rfl, rfl⟩
        exact ⟨rfl, rfl⟩
    | _ => simp [heads] at hSame
  case array =>
    intro len elem hElem hArity e' hArity' more more' hSame
    cases e' with
    | array len' elem' =>
        simp only [heads, List.cons_append, List.cons.injEq,
          Head.array.injEq] at hSame
        rcases hSame with ⟨rfl, hSame⟩
        rcases hElem hArity elem' hArity' more more' hSame with
          ⟨rfl, rfl⟩
        exact ⟨rfl, rfl⟩
    | _ => simp [heads] at hSame
  case map =>
    intro key value hKey hValue hArity e' hArity' more more' hSame
    cases e' with
    | map key' value' =>
        simp only [heads, List.cons_append, List.cons.injEq,
          true_and, List.append_assoc] at hSame
        simp only [HasArity] at hArity hArity'
        rcases hKey hArity.1 key' hArity'.1 _ _ hSame with
          ⟨rfl, hBehind⟩
        rcases hValue hArity.2 value' hArity'.2 _ _ hBehind with
          ⟨rfl, rfl⟩
        exact ⟨rfl, rfl⟩
    | _ => simp [heads] at hSame
  case builtin =>
    intro name _ e' _ more more' hSame
    cases e' with
    | builtin name' => simpa [heads] using hSame
    | _ => simp [heads] at hSame
  case param =>
    intro name _ e' _ more more' hSame
    cases e' with
    | param name' => simpa [heads] using hSame
    | _ => simp [heads] at hSame
  case noArg =>
    intro _ args' _ hLength more more' hSame
    cases List.eq_nil_of_length_eq_zero hLength.symm
    exact ⟨rfl, hSame⟩
  case arg =>
    intro arg rest hArg hRest hArity args' hArity' hLength
      more more' hSame
    cases args' with
    | nil => cases hLength
    | cons arg' rest' =>
        simp only [argHeads, List.append_assoc] at hSame
        simp only [HaveArity] at hArity hArity'
        rcases hArg hArity.1 arg' hArity'.1 _ _ hSame with
          ⟨rfl, hBehind⟩
        rcases hRest hArity.2 rest' hArity'.2
          (Nat.succ.inj hLength) _ _ hBehind with ⟨rfl, rfl⟩
        exact ⟨rfl, rfl⟩

/- A row that begins another one is all of it. -/
theorem eq_of_argHeads_append
    {args args' : List TypeExpr}
    (hLength : args.length = args'.length)
    (hArity : HaveArity arity args)
    (hArity' : HaveArity arity args')
    {more : List Head}
    (hSame : argHeads args ++ more = argHeads args') :
    args = args' := by
  have hBoth := eq_of_heads_append_all.2 args hArity args' hArity'
    hLength more [] (by rw [hSame, List.append_nil])
  exact hBoth.1

------------------------------------------------------------
-- Words
------------------------------------------------------------

/- A marker is one word. -/
theorem wordsOf_marker
    {word : String}
    (hWord : Spelling.IsWord word.toList)
    (s : List Char) :
    Spelling.wordsOf (markerOf word ++ s) =
      word.toList :: Spelling.wordsOf s := by
  rw [markerOf, List.append_assoc, List.singleton_append,
    wordsOf_append (by decide), hWord.wordsOf_eq]
  rfl

/- An argument is spelled by the words of its heads. -/
theorem wordsOf_phrase_all :
    (∀ e : TypeExpr,
        Spelling.wordsOf e.phrase = e.heads.flatMap Head.words)
      ∧ ∀ args s,
        Spelling.wordsOf (s ++ argsPhrase args) =
          Spelling.wordsOf s
            ++ (argHeads args).flatMap Head.words := by
  refine phrase.mutual_induct _ _
    ?named ?pointer ?slice ?array ?map ?builtin ?param
    ?noArg ?arg
  case named =>
    intro space name args hArgs
    rw [phrase, heads, List.flatMap_cons, Head.words]
    split
    · next hNone =>
        rw [List.isEmpty_iff] at hNone
        rw [List.nil_append, hArgs, hNone]
        rfl
    · rw [List.append_assoc, List.singleton_append,
        wordsOf_append (by decide), hArgs, List.append_assoc]
  case pointer =>
    intro elem hElem
    have hPtr : Spelling.IsWord "Ptr".toList := by
      decide
    rw [phrase, wordsOf_marker hPtr, hElem]
    rfl
  case slice =>
    intro elem hElem
    have hSlice : Spelling.IsWord "Slice".toList := by
      decide
    rw [phrase, wordsOf_marker hSlice, hElem]
    rfl
  case array =>
    intro len elem hElem
    rw [phrase, wordsOf_marker (isWord_array len), hElem]
    rfl
  case map =>
    intro key value hKey hValue
    have hMap : Spelling.IsWord "Map".toList := by
      decide
    rw [phrase, wordsOf_marker hMap,
      wordsOf_append (by decide), hKey, hValue, heads,
      List.flatMap_cons, List.flatMap_append]
    rfl
  case builtin =>
    intro name
    simp [phrase, heads, Head.words]
  case param =>
    intro name
    simp [phrase, heads, Head.words]
  case noArg =>
    intro s
    simp [argsPhrase, argHeads]
  case arg =>
    intro arg rest hArg hRest s
    rw [argsPhrase, argHeads, wordsOf_append (by decide), hRest,
      hArg, List.flatMap_append]

/- The name of an instance tells the words of its arguments. -/
theorem instanceName_eq_iff
    {args args' : List TypeExpr}
    (hLength : args.length = args'.length)
    (space name : String) :
    instanceName space name args = instanceName space name args' ↔
      (argHeads args).flatMap Head.words =
        (argHeads args').flatMap Head.words := by
  by_cases hNone : args = []
  · subst hNone
    cases List.eq_nil_of_length_eq_zero hLength.symm
    simp
  · have hNone' : args' ≠ [] := by
      rintro rfl
      exact hNone (List.eq_nil_of_length_eq_zero hLength)
    rw [instanceName_eq_nameOf hNone,
      instanceName_eq_nameOf hNone', TypeName.mk.injEq,
      nameOf_eq_iff, wordsOf_phrase_all.2, wordsOf_phrase_all.2,
      List.append_right_inj]
    simp

------------------------------------------------------------
-- Heads in Place of Others
------------------------------------------------------------

/- One of two heads is spelled by the first words of the other. -/
def Head.IsMistakable (h h' : Head) : Prop :=
  h ≠ h' ∧ (h.words <+: h'.words ∨ h'.words <+: h.words)

instance (h h' : Head) : Decidable (h.IsMistakable h') := by
  unfold Head.IsMistakable
  infer_instance

/-
  Where two rows have the same words, one begins the other, or
  the first heads in which they differ are mistakable.
-/
theorem isMistakable_of_words_eq
    {row row' : List Head}
    (hWords : row.flatMap Head.words = row'.flatMap Head.words) :
    row <+: row' ∨ row' <+: row
      ∨ ∃ h ∈ row, ∃ h' ∈ row', h.IsMistakable h' := by
  induction row generalizing row' with
  | nil => exact .inl (List.nil_prefix)
  | cons h row ih =>
      cases row' with
      | nil => exact .inr (.inl List.nil_prefix)
      | cons h' row' =>
          rw [List.flatMap_cons, List.flatMap_cons] at hWords
          by_cases hSame : h = h'
          · subst hSame
            rcases ih (List.append_cancel_left hWords) with
              hMore | hMore | ⟨k, hk, k', hk', hMistake⟩
            · left
              exact List.cons_prefix_cons.mpr ⟨rfl, hMore⟩
            · right
              left
              exact List.cons_prefix_cons.mpr ⟨rfl, hMore⟩
            · right
              right
              exact ⟨k, List.mem_cons_of_mem _ hk, k',
                List.mem_cons_of_mem _ hk', hMistake⟩
          · right
            right
            refine ⟨h, List.mem_cons_self, h', List.mem_cons_self,
              hSame, ?_⟩
            apply List.prefix_or_prefix_of_prefix
              (List.prefix_append _ (row.flatMap Head.words))
            rw [hWords]
            exact List.prefix_append _ _

theorem eq_or_isMistakable
    {args args' : List TypeExpr}
    (hLength : args.length = args'.length)
    (hArity : HaveArity arity args)
    (hArity' : HaveArity arity args')
    (hWords :
      (argHeads args).flatMap Head.words =
        (argHeads args').flatMap Head.words) :
    args = args' ∨ ∃ h ∈ argHeads args, ∃ h' ∈ argHeads args',
      h.IsMistakable h' := by
  rcases isMistakable_of_words_eq hWords with
    ⟨more, hMore⟩ | ⟨more, hMore⟩ | hMistake
  · left
    exact eq_of_argHeads_append hLength hArity hArity' hMore
  · left
    exact (eq_of_argHeads_append hLength.symm hArity' hArity
      hMore).symm
  · exact .inr hMistake

------------------------------------------------------------
-- Packages
------------------------------------------------------------

/- Two packages whose paths end in the same segment. -/
def HasNamesakes (spaces : List String) : Prop :=
  ∃ p ∈ spaces, ∃ q ∈ spaces,
    p ≠ q ∧ lastSegment p = lastSegment q

instance (spaces : List String) :
    Decidable (HasNamesakes spaces) := by
  unfold HasNamesakes
  infer_instance

/- Named types from such packages. -/
def Head.areNamesakes : Head → Head → Bool
  | .named p _, .named q _ =>
      !p.isEmpty && !q.isEmpty && p != q
        && lastSegment p == lastSegment q
  | _, _ => false

/- The packages of named types are mentioned. -/
theorem mem_namespaces_of_mem_heads_all
    {space name : String}
    (hSpace : space.isEmpty = false) :
    (∀ e : TypeExpr, .named space name ∈ e.heads →
        space ∈ e.namespaces)
      ∧ ∀ args, .named space name ∈ argHeads args →
        space ∈ argNamespaces args := by
  refine heads.mutual_induct _ _
    ?named ?pointer ?slice ?array ?map ?builtin ?param
    ?noArg ?arg
  case named =>
    intro space' name' args hArgs hMem
    rw [heads, List.mem_cons] at hMem
    rw [namespaces, List.mem_append]
    rcases hMem with hSame | hMem
    · cases hSame
      left
      simp [hSpace]
    · exact .inr (hArgs hMem)
  case pointer | slice =>
    intro elem hElem hMem
    simp only [heads, List.mem_cons, reduceCtorEq,
      false_or] at hMem
    exact hElem hMem
  case array =>
    intro len elem hElem hMem
    simp only [heads, List.mem_cons, reduceCtorEq,
      false_or] at hMem
    exact hElem hMem
  case map =>
    intro key value hKey hValue hMem
    simp only [heads, List.mem_cons, reduceCtorEq, false_or,
      List.mem_append] at hMem
    rw [namespaces, List.mem_append]
    exact hMem.imp hKey hValue
  case builtin | param =>
    intro name' hMem
    simp [heads] at hMem
  case noArg => exact nofun
  case arg =>
    intro arg rest hArg hRest hMem
    rw [argHeads, List.mem_append] at hMem
    rw [argNamespaces, List.mem_append]
    exact hMem.imp hArg hRest

theorem hasNamesakes_of_mem_argHeads
    {args args' : List TypeExpr}
    {h h' : Head}
    (hh : h ∈ argHeads args)
    (hh' : h' ∈ argHeads args')
    (hBoth : h.areNamesakes h' = true) :
    HasNamesakes (argNamespaces args ++ argNamespaces args') := by
  unfold Head.areNamesakes at hBoth
  split at hBoth
  · next p name q name' =>
      simp only [Bool.and_eq_true, Bool.not_eq_true',
        bne_iff_ne, ne_eq, beq_iff_eq] at hBoth
      rcases hBoth with ⟨⟨⟨hp, hq⟩, hOther⟩, hSegment⟩
      have hpMem := (mem_namespaces_of_mem_heads_all hp).2 _ hh
      have hqMem := (mem_namespaces_of_mem_heads_all hq).2 _ hh'
      exact ⟨p, List.mem_append_left _ hpMem, q,
        List.mem_append_right _ hqMem, hOther, hSegment⟩
  · cases hBoth

------------------------------------------------------------
-- Names of Instances
------------------------------------------------------------

/-
  Two lists of arguments give one name exactly if their heads
  have the same words, one after the other.  Then they are one
  list, or there are heads of which one might be taken for the
  other.  Where only types of packages with one last segment
  are mistakable, no other lists give one name.
-/
theorem instanceName_apart
    {args args' : List TypeExpr}
    (hLength : args.length = args'.length)
    (hArity : HaveArity arity args)
    (hArity' : HaveArity arity args')
    (space name : String) :
    (instanceName space name args =
          instanceName space name args' ↔
        (argHeads args).flatMap Head.words =
          (argHeads args').flatMap Head.words)
      ∧ (instanceName space name args =
          instanceName space name args' →
        args = args'
          ∨ ∃ h ∈ argHeads args, ∃ h' ∈ argHeads args',
            h.IsMistakable h')
      ∧ ((∀ h ∈ argHeads args, ∀ h' ∈ argHeads args',
          h.IsMistakable h' → h.areNamesakes h' = true) →
        instanceName space name args =
          instanceName space name args' →
        args = args'
          ∨ HasNamesakes
            (argNamespaces args ++ argNamespaces args')) := by
  have hWords := instanceName_eq_iff hLength space name
  have hEither := eq_or_isMistakable hLength hArity hArity'
  refine ⟨hWords, fun hSame => hEither (hWords.mp hSame), ?_⟩
  intro hClear hSame
  rcases hEither (hWords.mp hSame) with
    hEq | ⟨h, hh, h', hh', hMistake⟩
  · exact .inl hEq
  · right
    exact hasNamesakes_of_mem_argHeads hh hh'
      (hClear h hh h' hh' hMistake)

/- A box as the first argument, and as the second one. -/
def boxFirst : List TypeExpr :=
  [.named "m" "Box" [.map (.builtin "string") (.builtin "int")],
    .pointer (.slice (.named "time" "Time" []))]

def boxLast : List TypeExpr :=
  [.map (.builtin "string") (.builtin "int"),
    .named "m" "Box" [.pointer (.slice (.named "time" "Time" []))]]

/- Boxes have a content, and times have none. -/
def boxArity (_ name : String) : Nat :=
  if name = "Box" then 1 else 0

theorem instanceName_apart_boxes :
    boxFirst.length = boxLast.length
      ∧ HaveArity boxArity boxFirst
      ∧ HaveArity boxArity boxLast
      ∧ (∀ h ∈ argHeads boxFirst, ∀ h' ∈ argHeads boxLast,
        h.IsMistakable h' → h.areNamesakes h' = true)
      ∧ instanceName "m" "Pair" boxFirst ≠
        instanceName "m" "Pair" boxLast := by
  have hLength : boxFirst.length = boxLast.length := rfl
  have hFirst : HaveArity boxArity boxFirst := by
    simp [boxFirst, boxArity, HaveArity, HasArity]
  have hLast : HaveArity boxArity boxLast := by
    simp [boxLast, boxArity, HaveArity, HasArity]
  have hClear :
      ∀ h ∈ argHeads boxFirst, ∀ h' ∈ argHeads boxLast,
        h.IsMistakable h' → h.areNamesakes h' = true := by
    decide +kernel
  have hApart :=
    instanceName_apart hLength hFirst hLast "m" "Pair"
  refine ⟨hLength, hFirst, hLast, hClear, ?_⟩
  intro hSame
  rcases hApart.2.2 hClear hSame with hEq | hNamesakes
  · simp [boxFirst, boxLast] at hEq
  · exact absurd hNamesakes (by decide +kernel)

/- Two types of a package that differ in other letters only. -/
def sizeArgs : List TypeExpr :=
  [.named "m" "Größe" []]

def greetingArgs : List TypeExpr :=
  [.named "m" "Grüße" []]

/- No package but their own is mentioned, and yet. -/
theorem instanceName_sizeArgs_eq :
    sizeArgs.length = greetingArgs.length
      ∧ areProper sizeArgs = true
      ∧ areProper greetingArgs = true
      ∧ HaveArity (fun _ _ => 0) sizeArgs
      ∧ HaveArity (fun _ _ => 0) greetingArgs
      ∧ instanceName "m" "Box" sizeArgs =
        { name := "Box_m_Gr_e", space := "m" }
      ∧ instanceName "m" "Box" sizeArgs =
        instanceName "m" "Box" greetingArgs
      ∧ sizeArgs ≠ greetingArgs
      ∧ ¬HasNamesakes
        (argNamespaces sizeArgs ++ argNamespaces greetingArgs) := by
  refine ⟨rfl, by decide +kernel, by decide +kernel, ?_, ?_,
    by decide +kernel, by decide +kernel, ?_,
    by decide +kernel⟩
  · simp [sizeArgs, HaveArity, HasArity]
  · simp [greetingArgs, HaveArity, HasArity]
  · simp [sizeArgs, greetingArgs]

end TypeExpr

end WireSchema
