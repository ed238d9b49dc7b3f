import WireSchema.Emit.Scope
import WireSchema.Proofs.Emit.WantedNames

/-
  Emitted names as identifiers.

  A number behind a name leaves it an identifier.  What a
  namespace puts in front of a name are letters and digits, so
  all depends on the first one of them.

  Key definitions include:
    * `isIdentifier_append_iff`
    * `EmittedNames.firstLeft?`
    * `EmittedNames.identifiers_kept_iff`
-/

namespace WireSchema

------------------------------------------------------------
-- Parts of Identifiers
------------------------------------------------------------

/- What stands behind the first character of an identifier. -/
theorem isIdentifier_append
    {w tail : List Char}
    (hSome : w ≠ [])
    (hTail : ∀ c ∈ tail,
      (c.isAlphanum || c == '_' || c == '$') = true) :
    isIdentifier (w ++ tail) = isIdentifier w := by
  cases w with
  | nil => exact absurd rfl hSome
  | cons c w =>
      simp only [isIdentifier, List.cons_append, List.all_append,
        List.all_eq_true.mpr hTail, Bool.and_true]

theorem isIdentifier_numberedName
    {base : String}
    (hSome : base.toList ≠ [])
    (n : Nat) :
    isIdentifier (numberedName base n).toList =
      isIdentifier base.toList := by
  rw [numberedName, String.toList_append, String.toList_append,
    List.append_assoc]
  apply isIdentifier_append hSome
  intro c hc
  rcases List.mem_cons.mp hc with rfl | hc
  · rfl
  · simp [Char.isAlphanum, isDigit_of_mem_toString hc]

------------------------------------------------------------
-- Upper Case
------------------------------------------------------------

theorem isAlpha_iff_toNat (c : Char) :
    c.isAlpha = true ↔
      (65 ≤ c.toNat ∧ c.toNat ≤ 90)
        ∨ (97 ≤ c.toNat ∧ c.toNat ≤ 122) := by
  have hParts : c.isAlpha =
      (decide (65 ≤ c.val ∧ c.val ≤ 90)
        || (decide (97 ≤ c.val) && decide (c.val ≤ 122))) :=
    rfl
  rw [hParts, Bool.or_eq_true, Bool.and_eq_true,
    decide_eq_true_iff, decide_eq_true_iff, decide_eq_true_iff]
  rfl

theorem toNat_toUpper (c : Char) :
    c.toUpper.toNat =
      if 97 ≤ c.toNat ∧ c.toNat ≤ 122 then c.toNat - 32
      else c.toNat := by
  unfold Char.toUpper
  split
  · next h =>
      have hLower : 97 ≤ c.toNat ∧ c.toNat ≤ 122 := h
      have hShift : ('A'.val - 'a'.val).toNat = 2 ^ 32 - 32 := by
        decide
      have hValue : c.toNat = c.val.toNat := rfl
      rw [if_pos hLower]
      unfold Char.toNat
      dsimp only
      rw [UInt32.toNat_add, hShift]
      omega
  · next h => exact (if_neg h).symm

theorem isDigit_toUpper (c : Char) :
    c.toUpper.isDigit = c.isDigit := by
  rw [Bool.eq_iff_iff, Char.isDigit_iff_toNat,
    Char.isDigit_iff_toNat, toNat_toUpper]
  have hZero : '0'.toNat = 48 := rfl
  have hNine : '9'.toNat = 57 := rfl
  split
  · omega
  · rfl

theorem isAlpha_toUpper (c : Char) :
    c.toUpper.isAlpha = c.isAlpha := by
  rw [Bool.eq_iff_iff, isAlpha_iff_toNat, isAlpha_iff_toNat,
    toNat_toUpper]
  split
  · omega
  · rfl

------------------------------------------------------------
-- Namespaces in Front
------------------------------------------------------------

/- A namespace leaves its letters and digits in front. -/
theorem isAlphanum_of_mem_pascalFrom
    {start : Bool}
    {path : List Char}
    {c : Char}
    (h : c ∈ pascalFrom start path) : c.isAlphanum = true := by
  induction path generalizing start with
  | nil => cases h
  | cons d path ih =>
      unfold pascalFrom at h
      split at h
      · next hd =>
          rcases List.mem_cons.mp h with rfl | h
          · split
            · unfold Char.isAlphanum at hd ⊢
              rwa [isDigit_toUpper, isAlpha_toUpper]
            · exact hd
          · exact ih h
      · exact ih h

/- The first of them is in upper case. -/
theorem head?_pascalCase (path : List Char) :
    (pascalCase path).head? =
      (path.find? Char.isAlphanum).map Char.toUpper := by
  unfold pascalCase
  induction path with
  | nil => rfl
  | cons c path ih =>
      unfold pascalFrom
      by_cases hc : c.isAlphanum = true
      · simp [hc]
      · simp [hc, ih]

/- Of letters and digits, the letters start an identifier. -/
theorem startsIdentifier_iff
    {c : Char}
    (h : c.isAlphanum = true) :
    (c.isAlpha || c == '_' || c == '$') = true ↔
      c.isDigit = false := by
  rw [Char.isAlphanum, Bool.or_eq_true] at h
  cases hDigit : c.isDigit with
  | false =>
      have hAlpha := h.resolve_right (by simp [hDigit])
      simp [hAlpha]
  | true =>
      have hNot : c.isAlpha = false ∧ c ≠ '_' ∧ c ≠ '$' := by
        refine ⟨?_, ?_, ?_⟩
        · rw [Char.isDigit_iff_toNat] at hDigit
          have hNine : '9'.toNat = 57 := rfl
          rw [← Bool.not_eq_true, isAlpha_iff_toNat]
          omega
        · rintro rfl
          cases hDigit
        · rintro rfl
          cases hDigit
      simp [hNot]

/- What an identifier is made of. -/
theorem isPart_of_isIdentifier
    {name : List Char}
    (h : isIdentifier name = true) :
    ∀ c ∈ name, (c.isAlphanum || c == '_' || c == '$') = true := by
  cases name with
  | nil => exact List.forall_mem_nil _
  | cons c name =>
      rw [isIdentifier, Bool.and_eq_true, List.all_eq_true] at h
      rw [List.forall_mem_cons]
      refine ⟨?_, h.2⟩
      simp only [Char.isAlphanum, Bool.or_eq_true] at h ⊢
      exact h.1.imp_left (.imp_left .inl)

/- Letters and digits in front of an identifier. -/
theorem isIdentifier_append_iff
    {w name : List Char}
    (hWord : ∀ c ∈ w, c.isAlphanum = true)
    (hName : isIdentifier name = true) :
    isIdentifier (w ++ name) = true ↔
      ∀ c ∈ w.head?, c.isDigit = false := by
  cases w with
  | nil => simp [hName]
  | cons c w =>
      rw [List.forall_mem_cons] at hWord
      have hRest : (w ++ name).all (fun d =>
          d.isAlphanum || d == '_' || d == '$') = true := by
        rw [List.all_eq_true]
        intro d hd
        rcases List.mem_append.mp hd with hd | hd
        · simp [hWord.2 d hd]
        · exact isPart_of_isIdentifier hName d hd
      rw [List.cons_append, isIdentifier, hRest, Bool.and_true,
        startsIdentifier_iff hWord.1]
      simp

------------------------------------------------------------
-- Names of Types
------------------------------------------------------------

namespace EmittedNames

variable {s : Schema}
variable {id : TypeName}

/- The first letter or digit that a namespace leaves. -/
def firstLeft? (stripped : List String) (id : TypeName) : Option Char :=
  (stripNamespace stripped id.space).find? Char.isAlphanum

theorem isIdentifier_wantedName_iff
    (stripped : List String)
    (hName : isIdentifier id.name.toList = true) :
    isIdentifier (s.wantedName stripped id).toList = true ↔
      (s.SharesName id →
        ∀ c ∈ firstLeft? stripped id, c.isDigit = false) := by
  unfold Schema.wantedName
  by_cases hShared : s.SharesName id
  · have hWord : ∀ c ∈ id.qualifier stripped,
        c.isAlphanum = true :=
      fun _ hc => isAlphanum_of_mem_pascalFrom hc
    rw [if_pos hShared, String.toList_append, String.toList_ofList,
      isIdentifier_append_iff hWord hName]
    unfold TypeName.qualifier firstLeft?
    rw [head?_pascalCase]
    simp [hShared, isDigit_toUpper]
  · simp [hShared, hName]

/-
  If simple names are identifiers, the name of a type is one as
  well, unless it is a shared one with a namespace in front
  that leaves a digit first.
-/
theorem identifiers_kept_iff
    (stripped : List String)
    (h : ∀ id ∈ s.names, isIdentifier id.name.toList = true)
    (hId : id ∈ s.names) :
    ∃ name, (ofSchema s stripped).find? id = some name
      ∧ (isIdentifier name.toList = true ↔
        ¬(s.SharesName id
          ∧ ∃ c ∈ firstLeft? stripped id, c.isDigit = true)) := by
  have hWanted := isIdentifier_wantedName_iff (s := s) stripped
    (h id hId)
  have hSome : (s.wantedName stripped id).toList ≠ [] := by
    intro hNone
    unfold Schema.wantedName at hNone
    have hNot := h id hId
    split at hNone
    · rw [String.toList_append, List.append_eq_nil_iff] at hNone
      rw [hNone.2] at hNot
      cases hNot
    · rw [hNone] at hNot
      cases hNot
  rcases find?_cases stripped hId with
    ⟨name, hName, hForm⟩
  refine ⟨name, hName, ?_⟩
  have hSame : isIdentifier name.toList =
      isIdentifier (s.wantedName stripped id).toList := by
    rcases hForm with rfl | ⟨n, rfl⟩
    · rfl
    · exact isIdentifier_numberedName hSome n
  rw [hSame, hWanted]
  simp

/- Messages of two namespaces, one of which starts with a digit. -/
def messagesSchema : Schema :=
  { types :=
      [.record { id := { name := "Message", space := "9fans.net/go" } },
        .record { id := { name := "Message", space := "mail" } }] }

theorem isIdentifier_names_messagesSchema :
    ∀ id ∈ messagesSchema.names,
      isIdentifier id.name.toList = true := by
  decide

/- The host is dropped, so that the rest starts with a letter. -/
theorem identifiers_kept_iff_stripped :
    { name := "Message", space := "9fans.net/go" } ∈
        messagesSchema.names
      ∧ ∃ name, (ofSchema messagesSchema ["9fans.net"]).find?
            { name := "Message", space := "9fans.net/go" } = some name
          ∧ isIdentifier name.toList = true := by
  have hId : { name := "Message", space := "9fans.net/go" } ∈
      messagesSchema.names := by
    decide
  refine ⟨hId, ?_⟩
  rcases identifiers_kept_iff ["9fans.net"]
    isIdentifier_names_messagesSchema hId with ⟨name, hName, hIff⟩
  refine ⟨name, hName, hIff.mpr ?_⟩
  have hLeft : firstLeft? ["9fans.net"]
      { name := "Message", space := "9fans.net/go" } = some 'g' := by
    decide
  rintro ⟨-, c, hc, hDigit⟩
  rw [hLeft, Option.mem_some] at hc
  subst hc
  cases hDigit

/- Nothing is dropped, and the name starts with the digit. -/
theorem digitNamespace_not_identifier :
    (∀ id ∈ messagesSchema.names,
        isIdentifier id.name.toList = true)
      ∧ (ofSchema messagesSchema []).find?
          { name := "Message", space := "9fans.net/go" } =
        some "9fansNetGoMessage"
      ∧ isIdentifier "9fansNetGoMessage".toList = false := by
  refine ⟨isIdentifier_names_messagesSchema, ?_, by decide⟩
  decide +kernel

end EmittedNames

end WireSchema
