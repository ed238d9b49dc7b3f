import Mathlib.Data.List.Nodup
import WireSchema.Emit.Paths
import WireSchema.Proofs.Schema.Sorted

/-
  When two namespaces are filed under one stem.

  The last segments of paths tell most namespaces apart, and
  whole paths take their place where a last segment is shared.
  The word of a whole path may still be the word of another
  path, or the last segment of another one.

  Key definitions include:
    * `FileStems.SharesLast`
    * `FileStems.StemClash`, `FileStems.StemsApart`
    * `FileStems.stem_eq_iff`
-/

namespace WireSchema

------------------------------------------------------------
-- Words
------------------------------------------------------------

/- A word has no underscore at its end. -/
theorem getLast?_flatten (path : List Char) :
    (flatten path).getLast? ≠ some '_' := by
  unfold flatten Text.dropEdgesWhile Text.dropEndWhile
  rw [List.getLast?_reverse]
  intro hLast
  have hHead := List.head?_dropWhile_not (fun c => c == '_')
    ((flattenFrom false path).dropWhile fun c => c == '_').reverse
  rw [hLast] at hHead
  simp at hHead

theorem getLast?_flatSegment (path : List Char) :
    (flatSegment path).getLast? ≠ some '_' := by
  unfold flatSegment
  split
  · exact getLast?_flatten _
  · exact getLast?_flatten _

def builtinWord : List Char := "builtin".toList

def indexWord : List Char := "index".toList

/- What the word `index` is replaced by. -/
def indexStem : List Char := "index_".toList

/- The stem of a word. -/
def standIn (u : List Char) : List Char :=
  if u = [] then builtinWord
  else if u = indexWord then indexStem
  else u

theorem plainStem_eq (u : List Char) :
    plainStem u = String.ofList (standIn u) := by
  have hText : ∀ text : String,
      String.ofList u = text ↔ u = text.toList := by
    intro text
    rw [← String.toList_inj, String.toList_ofList]
  have hEmpty : "".toList = [] := rfl
  unfold plainStem standIn indexWord
  dsimp only
  simp only [hText, hEmpty]
  split
  · rfl
  · split
    · rfl
    · rfl

/-
  Replacing the empty word and the word `index` only makes
  the empty word and `builtin` coincide.
-/
theorem plainStem_eq_iff
    {u w : List Char}
    (hu : u.getLast? ≠ some '_')
    (hw : w.getLast? ≠ some '_') :
    plainStem u = plainStem w ↔
      u = w ∨ (u = [] ∧ w = builtinWord)
        ∨ (w = [] ∧ u = builtinWord) := by
  have hNot : ∀ v : List Char, v.getLast? ≠ some '_' →
      v ≠ indexStem := by
    rintro _ hv rfl
    exact hv rfl
  have hu := hNot u hu
  have hw := hNot w hw
  have hBuiltin : builtinWord ≠ [] := by decide
  have hIndex : indexStem ≠ builtinWord := by decide
  have hApart : indexWord ≠ builtinWord := by decide
  rw [plainStem_eq, plainStem_eq, String.ofList_inj]
  unfold standIn
  split_ifs <;> grind

------------------------------------------------------------
-- Shared Segments
------------------------------------------------------------

/- What occurs again in a list of distinct elements. -/
theorem one_lt_count_map_iff
    {α β : Type}
    [DecidableEq α]
    [BEq β]
    [LawfulBEq β]
    {f : α → β}
    {xs : List α}
    {a : α}
    (hNodup : xs.Nodup)
    (ha : a ∈ xs) :
    1 < (xs.map f).count (f a) ↔ ∃ b ∈ xs, b ≠ a ∧ f b = f a := by
  have hPerm := (List.perm_cons_erase ha).map f
  rw [hPerm.count_eq, List.map_cons, List.count_cons_self,
    Nat.lt_add_left_iff_pos, List.count_pos_iff, List.mem_map]
  constructor
  · rintro ⟨b, hb, hSame⟩
    have hParts := hNodup.mem_erase_iff.mp hb
    exact ⟨b, hParts.2, hParts.1, hSame⟩
  · rintro ⟨b, hb, hNe, hSame⟩
    exact ⟨b, hNodup.mem_erase_iff.mpr ⟨hNe, hb⟩, hSame⟩

theorem lookup_map_self
    {α β : Type}
    [BEq α]
    [LawfulBEq α]
    {f : α → β}
    {xs : List α}
    {a : α}
    (ha : a ∈ xs) :
    (xs.map fun x => (x, f x)).lookup a = some (f a) := by
  induction xs with
  | nil => cases ha
  | cons x rest ih =>
      rw [List.map_cons, List.lookup_cons]
      by_cases hSame : a = x
      · simp [hSame]
      · have hRest := (List.mem_cons.mp ha).resolve_left hSame
        rw [beq_false_of_ne hSame]
        exact ih hRest

namespace FileStems

variable {spaces stripped : List String}
variable {a b : String}

/- Another namespace has the same last segment. -/
def SharesLast
    (spaces stripped : List String)
    (a : String) : Prop :=
  ∃ b ∈ spaces, b ≠ a ∧
    flatSegment (stripNamespace stripped b) =
      flatSegment (stripNamespace stripped a)

instance (spaces stripped : List String) (a : String) :
    Decidable (SharesLast spaces stripped a) := by
  unfold SharesLast
  infer_instance

/- The word that stands for a namespace. -/
def word (spaces stripped : List String) (a : String) :
    List Char :=
  if SharesLast spaces stripped a then
    flatten (stripNamespace stripped a)
  else flatSegment (stripNamespace stripped a)

/- Only which namespaces there are counts. -/
theorem word_congr
    {others : List String}
    (h : ∀ b, b ∈ spaces ↔ b ∈ others) :
    word spaces stripped a = word others stripped a := by
  have hShares : SharesLast spaces stripped a ↔
      SharesLast others stripped a := by
    simp only [SharesLast, h]
  simp only [word, hShares]

theorem getLast?_word :
    (word spaces stripped a).getLast? ≠ some '_' := by
  unfold word
  split
  · exact getLast?_flatten _
  · exact getLast?_flatSegment _

/- A namespace is filed under the stem of its word. -/
theorem find?_ofNamespaces
    (stripped : List String)
    (ha : a ∈ spaces) :
    (ofNamespaces spaces stripped).find? a =
      some (plainStem (word spaces stripped a)) := by
  have hNodup := nodup_sortTexts spaces
  have hMem := (mem_sortTexts a spaces).mpr ha
  have hShares := one_lt_count_map_iff
    (f := fun b => flatSegment (stripNamespace stripped b))
    hNodup hMem
  simp only [mem_sortTexts] at hShares
  unfold ofNamespaces find? word
  dsimp only
  rw [lookup_map_self hMem, List.map_map]
  by_cases hShared : SharesLast spaces stripped a
  · rw [if_pos hShared]
    exact congrArg _ (congrArg _ (if_pos (hShares.mpr hShared)))
  · rw [if_neg hShared]
    exact congrArg _ (congrArg _ (if_neg (hShared ∘ hShares.mp)))

------------------------------------------------------------
-- Clashes
------------------------------------------------------------

/-
  Why two namespaces get one stem: their whole paths give one
  word, or the whole path of one gives the last segment of the
  other, or nothing is left of one and the other one ends in
  `builtin`.
-/
inductive StemClash
    (spaces stripped : List String)
    (a b : String) : Prop where
  | paths
      (hShares : SharesLast spaces stripped a)
      (hShares' : SharesLast spaces stripped b)
      (hSame :
        flatten (stripNamespace stripped a) =
          flatten (stripNamespace stripped b))
  | segment
      (hShares : SharesLast spaces stripped a)
      (hAlone : ¬SharesLast spaces stripped b)
      (hSame :
        flatten (stripNamespace stripped a) =
          flatSegment (stripNamespace stripped b))
  | builtin
      (hEmpty : word spaces stripped a = [])
      (hBuiltin : word spaces stripped b = builtinWord)

/- Two words are the same only where paths were flattened. -/
theorem word_eq_iff
    (ha : a ∈ spaces)
    (hNe : a ≠ b) :
    word spaces stripped a = word spaces stripped b ↔
      (SharesLast spaces stripped a
          ∧ SharesLast spaces stripped b
          ∧ flatten (stripNamespace stripped a) =
            flatten (stripNamespace stripped b))
        ∨ (SharesLast spaces stripped a
          ∧ ¬SharesLast spaces stripped b
          ∧ flatten (stripNamespace stripped a) =
            flatSegment (stripNamespace stripped b))
        ∨ (SharesLast spaces stripped b
          ∧ ¬SharesLast spaces stripped a
          ∧ flatten (stripNamespace stripped b) =
            flatSegment (stripNamespace stripped a)) := by
  unfold word
  by_cases hA : SharesLast spaces stripped a
  · by_cases hB : SharesLast spaces stripped b
    · simp [hA, hB]
    · simp [hA, hB]
  · by_cases hB : SharesLast spaces stripped b
    · simp [hA, hB, eq_comm]
    · -- Alone in their last segments, they do not have one.
      have hApart :
          flatSegment (stripNamespace stripped a) ≠
            flatSegment (stripNamespace stripped b) :=
        fun hSame => hB ⟨a, ha, hNe, hSame⟩
      simp [hA, hB, hApart]

/- Two namespaces get one stem exactly if they clash. -/
theorem stem_eq_iff
    (ha : a ∈ spaces)
    (hNe : a ≠ b) :
    plainStem (word spaces stripped a) =
        plainStem (word spaces stripped b) ↔
      StemClash spaces stripped a b
        ∨ StemClash spaces stripped b a := by
  rw [plainStem_eq_iff getLast?_word getLast?_word,
    word_eq_iff ha hNe]
  constructor
  · rintro ((⟨hA, hB, hSame⟩ | ⟨hA, hB, hSame⟩ | ⟨hB, hA, hSame⟩)
      | ⟨hEmpty, hBuiltin⟩ | ⟨hEmpty, hBuiltin⟩)
    · exact .inl (.paths hA hB hSame)
    · exact .inl (.segment hA hB hSame)
    · exact .inr (.segment hB hA hSame)
    · exact .inl (.builtin hEmpty hBuiltin)
    · exact .inr (.builtin hEmpty hBuiltin)
  · rintro ((⟨hA, hB, hSame⟩ | ⟨hA, hB, hSame⟩
        | ⟨hEmpty, hBuiltin⟩)
      | ⟨hB, hA, hSame⟩ | ⟨hB, hA, hSame⟩ | ⟨hEmpty, hBuiltin⟩)
    · exact .inl (.inl ⟨hA, hB, hSame⟩)
    · exact .inl (.inr (.inl ⟨hA, hB, hSame⟩))
    · exact .inr (.inl ⟨hEmpty, hBuiltin⟩)
    · exact .inl (.inl ⟨hA, hB, hSame.symm⟩)
    · exact .inl (.inr (.inr ⟨hB, hA, hSame⟩))
    · exact .inr (.inr ⟨hEmpty, hBuiltin⟩)

/- No two namespaces clash. -/
def StemsApart (spaces stripped : List String) : Prop :=
  ∀ a ∈ spaces, ∀ b ∈ spaces, a ≠ b →
    ¬StemClash spaces stripped a b

/- Without clashes, and only then, all stems differ. -/
theorem stemsApart_iff :
    StemsApart spaces stripped ↔
      ∀ a ∈ spaces, ∀ b ∈ spaces,
        plainStem (word spaces stripped a) =
          plainStem (word spaces stripped b) → a = b := by
  constructor
  · intro h a ha b hb hSame
    by_contra hNe
    rcases (stem_eq_iff ha hNe).mp hSame with hClash | hClash
    · exact h a ha b hb hNe hClash
    · exact h b hb a ha (Ne.symm hNe) hClash
  · intro h a ha b hb hNe hClash
    exact hNe (h a ha b hb ((stem_eq_iff ha hNe).mpr (.inl hClash)))

instance (spaces stripped : List String) :
    Decidable (StemsApart spaces stripped) :=
  decidable_of_iff _ stemsApart_iff.symm

end FileStems

end WireSchema
