import Mathlib.Data.List.Induction
import WireSchema.Proofs.Emit.Names
import WireSchema.Proofs.Emit.Stems
import WireSchema.Proofs.Number.Digits

/-
  The names that types want, and the names that they get.

  A type wants its simple name, with its namespace in front if
  another type shares it.  Types that want their simple name
  choose first.  Several of them may want the same one, when
  nothing is left of their namespaces, so that they take the
  numbered names behind it.  A type that has such a numbered
  name for its own then comes too late.

  Key definitions include:
    * `Schema.SharesName`, `Schema.wantedName`
    * `Schema.simpleCount`
    * `IsTaken`
    * `EmittedNames.isNext_of_choices`
    * `EmittedNames.unshared_kept_iff`
-/

namespace WireSchema

------------------------------------------------------------
-- Wanted Names
------------------------------------------------------------

/- What the namespace of a type puts in front of its name. -/
def TypeName.qualifier
    (stripped : List String)
    (id : TypeName) : List Char :=
  pascalCase (stripNamespace stripped id.space)

namespace Schema

variable (s : Schema)
variable (stripped : List String)
variable (id : TypeName)

/- Another type has the same simple name. -/
def SharesName : Prop :=
  ∃ other ∈ s.names, other ≠ id ∧ other.name = id.name

instance : Decidable (s.SharesName id) := by
  unfold SharesName
  infer_instance

/- The name that a type is given if it is free. -/
def wantedName : String :=
  if s.SharesName id then
    String.ofList (id.qualifier stripped) ++ id.name
  else id.name

/- How many types of a simple name want to have just this. -/
def simpleCount (name : String) : Nat :=
  (sortNames s.names).countP fun id =>
    decide (id.name = name) && decide (s.wantedName stripped id = name)

variable {s}
variable {stripped}
variable {id}

theorem one_lt_length_sharing (hId : id ∈ s.names) :
    1 < ((sortNames s.names).filter
        fun other => other.name == id.name).length ↔
      s.SharesName id := by
  have hNodup : (sortNames s.names).Nodup :=
    nodup_sortDistinct chains_before isStrict_before _
  have hCount := one_lt_count_map_iff (f := TypeName.name) hNodup
    ((mem_sortNames id s.names).mpr hId)
  rw [List.count_eq_countP, List.countP_map,
    List.countP_eq_length_filter] at hCount
  simp only [mem_sortNames] at hCount
  exact hCount

theorem wanted_propose
    (stripped : List String)
    (hId : id ∈ s.names) :
    (propose stripped (sortNames s.names) id).wanted =
      s.wantedName stripped id := by
  have hSharing := one_lt_length_sharing hId
  unfold propose wantedName
  dsimp only
  by_cases hShared : s.SharesName id
  · rw [if_neg (Nat.not_le.mpr (hSharing.mpr hShared)),
      if_pos hShared]
    rfl
  · rw [if_pos (Nat.not_lt.mp (hSharing.not.mpr hShared)),
      if_neg hShared]

end Schema

------------------------------------------------------------
-- Order of Choice
------------------------------------------------------------

theorem TypeName.upTo_trans
    {a b c : TypeName}
    (hab : a.upTo b = true)
    (hbc : b.upTo c = true) : a.upTo c = true := by
  unfold TypeName.upTo at *
  rw [Bool.not_eq_true'] at *
  by_contra hca
  rw [Bool.not_eq_false] at hca
  cases hBefore : b.before c with
  | true =>
      rw [chains_before b c a hBefore hca] at hab
      cases hab
  | false =>
      rw [tellsApart_before b c hBefore hbc, hca] at hab
      cases hab

theorem TypeName.upTo_total (a b : TypeName) :
    (a.upTo b || b.upTo a) = true := by
  unfold TypeName.upTo
  cases hba : b.before a with
  | false => rfl
  | true =>
      cases hab : a.before b with
      | false => rfl
      | true =>
          have hSelf := chains_before a b a hab hba
          rw [isStrict_before a] at hSelf
          cases hSelf

namespace NameProposal

variable {p q r : NameProposal}

theorem upTo_trans
    (hpq : p.upTo q = true)
    (hqr : q.upTo r = true) : p.upTo r = true := by
  unfold upTo at *
  have hId := @TypeName.upTo_trans p.id q.id r.id
  have hWanted := @lt_trans String _ p.wanted q.wanted r.wanted
  grind

theorem upTo_total (p q : NameProposal) :
    (p.upTo q || q.upTo p) = true := by
  unfold upTo
  have hId := TypeName.upTo_total p.id q.id
  have hWanted := lt_trichotomy p.wanted q.wanted
  grind

/- What is chosen in front of a simple name is a simple name. -/
theorem of_upTo_simple
    (h : p.upTo q = true)
    (hSimple : q.isQualified = false) :
    p.isQualified = false ∧ p.wanted ≤ q.wanted := by
  unfold upTo at h
  rw [hSimple] at h
  have hLe := @le_of_lt String _ p.wanted q.wanted
  grind

end NameProposal

------------------------------------------------------------
-- Numbered Names
------------------------------------------------------------

/- A numbered name shows the name and the number. -/
theorem numberedName_inj
    {base other : String}
    {n m : Nat} :
    numberedName base n = numberedName other m ↔
      base = other ∧ n = m := by
  constructor
  · intro h
    have hCut : ∀ (b : String) (k : Nat),
        Text.splitLast '_' (numberedName b k).toList =
          some (b.toList, (toString k).toList) := by
      intro b k
      have hDigits : '_' ∉ (toString k).toList := by
        intro hMem
        exact absurd (isDigit_of_mem_toString hMem) (by decide)
      rw [numberedName, String.toList_append, String.toList_append,
        List.append_assoc]
      exact Text.splitLast_append hDigits b.toList
    have hParts := hCut base n
    rw [h, hCut other m] at hParts
    simp only [Option.some.injEq, Prod.mk.injEq,
      String.toList_inj] at hParts
    refine ⟨hParts.1.symm, ?_⟩
    rw [← digitsValue_toString n, ← hParts.2, digitsValue_toString m]
  · rintro ⟨rfl, rfl⟩
    rfl

/- A numbered name stands behind the name in the order. -/
theorem lt_numberedName (base : String) (n : Nat) :
    base < numberedName base n := by
  have hLonger : ∀ (s t : List Char) (c : Char),
      s < s ++ c :: t := by
    intro s t c
    induction s with
    | nil => exact List.nil_lt_cons c t
    | cons d s ih => exact List.cons_lt_cons_iff.mpr (.inr ⟨rfl, ih⟩)
  rw [String.lt_iff_toList_lt, numberedName, String.toList_append,
    String.toList_append, List.append_assoc]
  exact hLonger base.toList _ '_'

/- The names of one simple name: itself, then numbered ones. -/
def nthName (base : String) (n : Nat) : String :=
  if n ≤ 1 then base else numberedName base n

theorem nthName_of_le_one
    {base : String}
    {n : Nat}
    (h : n ≤ 1) : nthName base n = base :=
  if_pos h

theorem nthName_of_two_le
    {base : String}
    {n : Nat}
    (h : 2 ≤ n) : nthName base n = numberedName base n :=
  if_neg (by omega)

/- The first number behind those whose names are in use. -/
theorem freshName_eq_numberedName
    {used : List String}
    {base : String}
    {next : Nat}
    (hUsed : base ∈ used)
    (hNext : 2 ≤ next)
    (h : ∀ n, 2 ≤ n → (numberedName base n ∈ used ↔ n < next)) :
    freshName used base = numberedName base next := by
  rcases freshName_cases used base with
    ⟨hFree, -⟩ | ⟨-, k, hName, hFree, hPassed⟩
  · exact absurd hUsed hFree
  · rw [hName]
    have hFrom : ¬2 + k < next := by
      rwa [← h (2 + k) (by omega)]
    have hTo : ¬next < 2 + k := by
      intro hLess
      have hMem := hPassed (next - 2) (by omega)
      rw [h _ (by omega)] at hMem
      omega
    rw [Nat.le_antisymm (Nat.not_lt.mp hTo) (Nat.not_lt.mp hFrom)]

------------------------------------------------------------
-- Taken Names
------------------------------------------------------------

/-
  A numbered name that is given to a type with the simple name
  in front of the number.  There are as many of these types as
  counted; the first one has the simple name itself, unless
  this is taken in turn.
-/
inductive IsTaken (count : String → Nat) : String → Prop
  | surplus
      {base : String}
      {n : Nat}
      (hFrom : 2 ≤ n)
      (hTo : n ≤ count base) :
      IsTaken count (numberedName base n)
  | passedOn
      {base : String}
      (hTaken : IsTaken count base)
      (hSome : 0 < count base) :
      IsTaken count (numberedName base (count base + 1))

variable {count : String → Nat}
variable {base name : String}

/- Without two types of one simple name nothing is taken. -/
theorem not_isTaken_of_le_one
    (h : ∀ name, count name ≤ 1)
    (name : String) : ¬IsTaken count name := by
  intro hTaken
  induction hTaken with
  | @surplus base n hFrom hTo =>
      have hOne := h base
      omega
  | passedOn _ _ ih => exact ih

open Classical in
/- The number of the first name that types get. -/
noncomputable def firstNumber
    (count : String → Nat)
    (base : String) : Nat :=
  if IsTaken count base then 2 else 1

theorem firstNumber_of_isTaken
    (h : IsTaken count base) : firstNumber count base = 2 :=
  if_pos h

theorem firstNumber_of_not_isTaken
    (h : ¬IsTaken count base) : firstNumber count base = 1 :=
  if_neg h

theorem firstNumber_bounds
    (count : String → Nat)
    (base : String) :
    0 < firstNumber count base ∧ firstNumber count base ≤ 2 := by
  unfold firstNumber
  split
  · decide
  · decide

theorem isTaken_iff :
    IsTaken count name ↔
      ∃ base n, name = numberedName base n ∧ 2 ≤ n
        ∧ n < firstNumber count base + count base := by
  constructor
  · intro h
    cases h with
    | @surplus base n hFrom hTo =>
        have hFirst := firstNumber_bounds count base
        exact ⟨base, n, rfl, hFrom, by omega⟩
    | @passedOn base hTaken hSome =>
        refine ⟨base, _, rfl, by omega, ?_⟩
        rw [firstNumber_of_isTaken hTaken]
        omega
  · rintro ⟨base, n, rfl, hFrom, hTo⟩
    by_cases hTaken : IsTaken count base
    · rw [firstNumber_of_isTaken hTaken] at hTo
      by_cases hLast : n = count base + 1
      · rw [hLast]
        exact hTaken.passedOn (by omega)
      · exact .surplus hFrom (by omega)
    · rw [firstNumber_of_not_isTaken hTaken] at hTo
      exact .surplus hFrom (by omega)

/-
  The names that types of one simple name have when some of
  them had their turn.
-/
def Fills
    (count : String → Nat)
    (base : String)
    (done : Nat)
    (name : String) : Prop :=
  ∃ n, firstNumber count base ≤ n
    ∧ n < firstNumber count base + done ∧ name = nthName base n

theorem not_fills_zero : ¬Fills count base 0 name := by
  rintro ⟨n, hFrom, hTo, -⟩
  omega

theorem fills_succ_iff {done : Nat} :
    Fills count base (done + 1) name ↔
      Fills count base done name
        ∨ name = nthName base (firstNumber count base + done) := by
  constructor
  · rintro ⟨n, hFrom, hTo, hName⟩
    by_cases hLast : n = firstNumber count base + done
    · right
      rw [hName, hLast]
    · exact .inl ⟨n, hFrom, by omega, hName⟩
  · rintro (⟨n, hFrom, hTo, hName⟩ | hName)
    · exact ⟨n, hFrom, Nat.lt_succ_of_lt hTo, hName⟩
    · exact ⟨_, Nat.le_add_right _ _, Nat.lt_succ_self _, hName⟩

namespace EmittedNames

------------------------------------------------------------
-- Given Names
------------------------------------------------------------

/- The names that proposals are given one after the other. -/
def given (proposals : List NameProposal) : List String :=
  (assign [] proposals).map Prod.snd

theorem assign_append
    (entries : List (TypeName × String))
    (before after : List NameProposal) :
    assign entries (before ++ after) =
      assign (assign entries before) after := by
  induction before generalizing entries with
  | nil => rfl
  | cons p rest ih => rw [List.cons_append, assign, assign, ih]

theorem given_concat (before : List NameProposal) (p : NameProposal) :
    given (before ++ [p]) =
      given before ++ [freshName (given before) p.wanted] := by
  unfold given
  rw [assign_append, assign, assign, List.map_append]
  rfl

/- How many proposals are for a name. -/
def demand (proposals : List NameProposal) (name : String) : Nat :=
  proposals.countP fun p => decide (p.wanted = name)

theorem demand_concat
    (before : List NameProposal)
    (p : NameProposal)
    (name : String) :
    demand (before ++ [p]) name =
      demand before name + if p.wanted = name then 1 else 0 := by
  unfold demand
  rw [List.countP_append, List.countP_singleton]
  simp only [decide_eq_true_eq]

/- A name that is asked for is that of one of the proposals. -/
theorem exists_of_demand_pos
    {before : List NameProposal}
    (h : 0 < demand before name) : ∃ q ∈ before, q.wanted = name := by
  rcases List.countP_pos_iff.mp h with ⟨q, hq, hWanted⟩
  exact ⟨q, hq, of_decide_eq_true hWanted⟩

/- Proposals fill the names of their simple names in order. -/
def FillsInOrder
    (count : String → Nat)
    (before : List NameProposal) : Prop :=
  ∀ name, name ∈ given before ↔
    ∃ base, Fills count base (demand before base) name

/-
  A proposal for a simple name, behind all those for names in
  front of it and some of those for the same one.
-/
structure IsNext
    (count : String → Nat)
    (before : List NameProposal)
    (wanted : String) : Prop where
  filled : FillsInOrder count before
  ordered : ∀ q ∈ before, q.wanted ≤ wanted
  done : ∀ name < wanted, demand before name = count name

namespace IsNext

variable {before : List NameProposal}
variable {wanted : String}

/-
  The wanted name is in use if it is taken, or if it has been
  wanted before.
-/
theorem mem_given_iff (h : IsNext count before wanted) :
    wanted ∈ given before ↔
      IsTaken count wanted ∨ 0 < demand before wanted := by
  rw [h.filled wanted]
  constructor
  · rintro ⟨base, n, hFrom, hTo, hSame⟩
    by_cases hFirst : n ≤ 1
    · right
      rw [nthName_of_le_one hFirst] at hSame
      subst hSame
      omega
    · left
      have hNumber : 2 ≤ n := by omega
      rw [nthName_of_two_le hNumber] at hSame
      have hLess : base < wanted := by
        rw [hSame]
        exact lt_numberedName base n
      rw [h.done base hLess] at hTo
      exact isTaken_iff.mpr ⟨base, n, hSame, hNumber, hTo⟩
  · intro hUsed
    by_cases hTaken : IsTaken count wanted
    · rcases isTaken_iff.mp hTaken with ⟨base, n, hSame, hFrom, hTo⟩
      have hLess : base < wanted := by
        rw [hSame]
        exact lt_numberedName base n
      have hFirst := firstNumber_bounds count base
      rw [← h.done base hLess] at hTo
      refine ⟨base, n, by omega, hTo, ?_⟩
      rw [hSame, nthName_of_two_le hFrom]
    · have hSome := hUsed.resolve_left hTaken
      refine ⟨wanted, 1, ?_, ?_, (nthName_of_le_one le_rfl).symm⟩
      · rw [firstNumber_of_not_isTaken hTaken]
      · rw [firstNumber_of_not_isTaken hTaken]
        omega

/- Its numbered names are in use only for this name. -/
theorem numbered_mem_given_iff
    (h : IsNext count before wanted)
    {n : Nat}
    (hNumber : 2 ≤ n) :
    numberedName wanted n ∈ given before ↔
      n < firstNumber count wanted + demand before wanted := by
  rw [h.filled]
  constructor
  · rintro ⟨base, m, hFrom, hTo, hSame⟩
    by_cases hFirst : m ≤ 1
    · rw [nthName_of_le_one hFirst] at hSame
      have hDemand : 0 < demand before base := by omega
      rcases exists_of_demand_pos hDemand with ⟨q, hq, hWanted⟩
      have hLe := h.ordered q hq
      have hLess := lt_numberedName wanted n
      rw [hSame, ← hWanted] at hLess
      exact absurd hLe (not_le_of_gt hLess)
    · rw [nthName_of_two_le (by omega)] at hSame
      rcases numberedName_inj.mp hSame with ⟨rfl, rfl⟩
      exact hTo
  · intro hTo
    have hFirst := firstNumber_bounds count wanted
    refine ⟨wanted, n, by omega, hTo, ?_⟩
    rw [nthName_of_two_le hNumber]

/- The name that the proposal is given. -/
theorem freshName_eq (h : IsNext count before wanted) :
    freshName (given before) wanted =
      nthName wanted
        (firstNumber count wanted + demand before wanted) := by
  by_cases hUsed : wanted ∈ given before
  · have hNext : 2 ≤ firstNumber count wanted
        + demand before wanted := by
      rcases h.mem_given_iff.mp hUsed with hTaken | hSome
      · rw [firstNumber_of_isTaken hTaken]
        omega
      · have hFirst := firstNumber_bounds count wanted
        omega
    rw [nthName_of_two_le hNext]
    apply freshName_eq_numberedName hUsed hNext
    intro n hNumber
    exact h.numbered_mem_given_iff hNumber
  · have hFree := h.mem_given_iff.not.mp hUsed
    rw [not_or, Nat.not_lt, Nat.le_zero] at hFree
    rw [firstNumber_of_not_isTaken hFree.1, hFree.2,
      nthName_of_le_one le_rfl]
    unfold freshName
    rw [if_neg (by simpa using hUsed)]

/- The step: the names are filled up to this proposal. -/
theorem fillsInOrder_concat
    {p : NameProposal}
    (h : IsNext count before p.wanted) :
    FillsInOrder count (before ++ [p]) := by
  intro name
  rw [given_concat, List.mem_append, List.mem_singleton,
    h.freshName_eq, h.filled name]
  constructor
  · rintro (⟨base, hFills⟩ | hName)
    · refine ⟨base, ?_⟩
      rw [demand_concat]
      split
      · next hSame =>
          subst hSame
          exact fills_succ_iff.mpr (.inl hFills)
      · exact hFills
    · refine ⟨p.wanted, ?_⟩
      rw [demand_concat, if_pos rfl]
      exact fills_succ_iff.mpr (.inr hName)
  · rintro ⟨base, hFills⟩
    rw [demand_concat] at hFills
    split at hFills
    · next hSame =>
        subst hSame
        exact (fills_succ_iff.mp hFills).imp_left fun h => ⟨_, h⟩
    · exact .inl ⟨base, hFills⟩

end IsNext

------------------------------------------------------------
-- Choices
------------------------------------------------------------

variable {s : Schema}
variable {stripped : List String}
variable {id : TypeName}

/- What the types of a schema propose, in order of choice. -/
def choices
    (s : Schema)
    (stripped : List String) : List NameProposal :=
  sortUpTo NameProposal.upTo
    ((sortNames s.names).map
      (propose stripped (sortNames s.names)))

theorem perm_choices :
    (choices s stripped).Perm
      ((sortNames s.names).map
        (propose stripped (sortNames s.names))) :=
  perm_sortUpTo _ _

theorem pairwise_choices (s : Schema) (stripped : List String) :
    (choices s stripped).Pairwise fun p q => p.upTo q = true := by
  apply pairwise_sortUpTo
  · exact fun _ _ _ => NameProposal.upTo_trans
  · exact NameProposal.upTo_total

/- Each type makes one proposal, for the name that it wants. -/
theorem mem_choices_iff {p : NameProposal} :
    p ∈ choices s stripped ↔
      p.id ∈ s.names ∧ p.wanted = s.wantedName stripped p.id := by
  rw [perm_choices.mem_iff, List.mem_map]
  constructor
  · rintro ⟨id, hId, rfl⟩
    rw [mem_sortNames] at hId
    rw [id_propose, Schema.wanted_propose stripped hId]
    exact ⟨hId, rfl⟩
  · rintro ⟨hId, hWanted⟩
    refine ⟨p.id, (mem_sortNames _ _).mpr hId, ?_⟩
    rcases p with ⟨id, wanted⟩
    have hSame := Schema.wanted_propose stripped hId
    rw [← hWanted] at hSame
    have hOwn := id_propose stripped (sortNames s.names) id
    cases hProposal : propose stripped (sortNames s.names) id with
    | mk own name =>
        rw [hProposal] at hSame hOwn
        cases hSame
        cases hOwn
        rfl

theorem nodup_map_id_choices
    (s : Schema)
    (stripped : List String) :
    ((choices s stripped).map NameProposal.id).Nodup := by
  have hNodup : (sortNames s.names).Nodup :=
    nodup_sortDistinct chains_before isStrict_before _
  rw [(perm_choices.map NameProposal.id).nodup_iff, List.map_map]
  have hSame : NameProposal.id
      ∘ propose stripped (sortNames s.names) = fun id => id := by
    funext id
    exact id_propose stripped _ id
  rwa [hSame, List.map_id_fun']

/- As many types want a simple name as propose just it. -/
theorem countP_choices (name : String) :
    (choices s stripped).countP
        (fun p => !p.isQualified && decide (p.wanted = name)) =
      s.simpleCount stripped name := by
  rw [perm_choices.countP_eq, List.countP_map]
  unfold Schema.simpleCount
  apply List.countP_congr
  intro id hId
  rw [mem_sortNames] at hId
  simp only [Function.comp_apply, NameProposal.isQualified,
    id_propose, Schema.wanted_propose stripped hId]
  grind

variable {before after : List NameProposal}
variable {p : NameProposal}

/- Names that are given stay. -/
theorem subset_assign
    (entries : List (TypeName × String))
    (proposals : List NameProposal) :
    entries ⊆ assign entries proposals := by
  induction proposals generalizing entries with
  | nil => exact List.Subset.refl entries
  | cons p rest ih =>
      intro e he
      rw [assign]
      exact ih _ (List.mem_append_left _ he)

/- A proposal is answered with the first free name. -/
theorem find?_of_choices
    (h : choices s stripped = before ++ p :: after) :
    (ofSchema s stripped).find? p.id =
      some (freshName (given before) p.wanted) := by
  have hEntries : (ofSchema s stripped).entries =
      assign [] (before ++ p :: after) := by
    rw [← h]
    rfl
  have hGiven : (p.id, freshName (given before) p.wanted) ∈
      (ofSchema s stripped).entries := by
    rw [hEntries, assign_append, assign]
    apply subset_assign
    exact List.mem_append_right _ List.mem_cons_self
  have hKeys : ((ofSchema s stripped).entries.map Prod.fst).Nodup := by
    rw [(perm_map_fst_entries s stripped).nodup_iff]
    exact nodup_sortDistinct chains_before isStrict_before _
  have hDeclared : p.id ∈ s.names := by
    have hMem : p ∈ choices s stripped := by
      rw [h]
      exact List.mem_append_right _ List.mem_cons_self
    exact (mem_choices_iff.mp hMem).1
  rcases Option.isSome_iff_exists.mp
    (isSome_find?_iff.mpr hDeclared) with ⟨name, hName⟩
  have hSame := List.inj_on_of_nodup_map hKeys
    (mem_entries_of_find? hName) hGiven rfl
  cases hSame
  exact hName

/- In front of a simple name only simple names are chosen. -/
theorem simple_of_choices
    (h : choices s stripped = before ++ p :: after)
    (hSimple : p.isQualified = false)
    {q : NameProposal}
    (hq : q ∈ before) :
    q.isQualified = false ∧ q.wanted ≤ p.wanted := by
  have hSorted := pairwise_choices s stripped
  rw [h, List.pairwise_append] at hSorted
  have hUpTo := hSorted.2.2 q hq p List.mem_cons_self
  exact NameProposal.of_upTo_simple hUpTo hSimple

/- What is less than a simple name has been chosen before. -/
theorem demand_of_choices
    (h : choices s stripped = before ++ p :: after)
    (hSimple : p.isQualified = false)
    {name : String}
    (hLess : name < p.wanted) :
    demand before name = s.simpleCount stripped name := by
  have hSorted := pairwise_choices s stripped
  rw [h, List.pairwise_append, List.pairwise_cons] at hSorted
  have hBehind : ∀ q ∈ p :: after,
      ¬(!q.isQualified && decide (q.wanted = name)) = true := by
    intro q hq hBoth
    simp only [Bool.and_eq_true, Bool.not_eq_true',
      decide_eq_true_eq] at hBoth
    rcases List.mem_cons.mp hq with rfl | hq
    · rw [hBoth.2] at hLess
      exact lt_irrefl _ hLess
    · have hUpTo := hSorted.2.1.1 q hq
      have hLe := (NameProposal.of_upTo_simple hUpTo hBoth.1).2
      rw [hBoth.2] at hLe
      exact absurd hLess (not_lt_of_ge hLe)
  rw [← countP_choices, h, List.countP_append,
    List.countP_eq_zero.mpr hBehind, Nat.add_zero]
  unfold demand
  apply List.countP_congr
  intro q hq
  rw [(simple_of_choices h hSimple hq).1]
  rfl

/- The run: the names in front of a simple name are filled. -/
theorem isNext_of_choices
    (h : choices s stripped = before ++ p :: after)
    (hSimple : p.isQualified = false) :
    IsNext (s.simpleCount stripped) before p.wanted := by
  refine ⟨?filled, ?ordered, ?done⟩
  case ordered =>
    intro q hq
    exact (simple_of_choices h hSimple hq).2
  case done =>
    intro name hLess
    exact demand_of_choices h hSimple hLess
  case filled =>
    induction before using List.reverseRecOn generalizing p after with
    | nil =>
        intro name
        constructor
        · intro hMem
          cases hMem
        · rintro ⟨base, hFills⟩
          exact absurd hFills not_fills_zero
    | append_singleton before q ih =>
        have hq := simple_of_choices h hSimple
          (List.mem_append_right before List.mem_cons_self)
        rw [List.append_assoc] at h
        have hNext : IsNext (s.simpleCount stripped) before q.wanted :=
          ⟨ih h hq.1,
            fun r hr => (simple_of_choices h hq.1 hr).2,
            fun name hLess => demand_of_choices h hq.1 hLess⟩
        exact hNext.fillsInOrder_concat

/- A type has the name that it wants, or a number behind it. -/
theorem find?_cases
    (stripped : List String)
    (hId : id ∈ s.names) :
    ∃ name, (ofSchema s stripped).find? id = some name
      ∧ (name = s.wantedName stripped id
        ∨ ∃ n, name = numberedName (s.wantedName stripped id) n) := by
  have hMem : (⟨id, s.wantedName stripped id⟩ : NameProposal) ∈
      choices s stripped :=
    mem_choices_iff.mpr ⟨hId, rfl⟩
  rcases List.append_of_mem hMem with ⟨before, after, hSplit⟩
  refine ⟨_, find?_of_choices hSplit, ?_⟩
  rcases freshName_cases (given before) (s.wantedName stripped id) with
    ⟨-, hName⟩ | ⟨-, k, hName, -⟩
  · exact .inl hName
  · exact .inr ⟨_, hName⟩

------------------------------------------------------------
-- Unshared Names
------------------------------------------------------------

/- A type that shares its simple name with no other one. -/
theorem find?_of_not_sharesName
    (stripped : List String)
    (hId : id ∈ s.names)
    (hAlone : ¬s.SharesName id) :
    (ofSchema s stripped).find? id =
      some (nthName id.name
        (firstNumber (s.simpleCount stripped) id.name)) := by
  have hWanted : s.wantedName stripped id = id.name :=
    if_neg hAlone
  have hMem : (⟨id, id.name⟩ : NameProposal) ∈
      choices s stripped :=
    mem_choices_iff.mpr ⟨hId, hWanted.symm⟩
  rcases List.append_of_mem hMem with ⟨before, after, hSplit⟩
  have hSimple :
      (⟨id, id.name⟩ : NameProposal).isQualified = false := by
    simp [NameProposal.isQualified]
  have hNone : demand before id.name = 0 := by
    apply Nat.eq_zero_of_not_pos
    intro hSome
    rcases exists_of_demand_pos hSome with ⟨q, hq, hSame⟩
    have hDeclared := mem_choices_iff.mp
      (hSplit ▸ List.mem_append_left _ hq)
    have hOwn := (simple_of_choices hSplit hSimple hq).1
    simp only [NameProposal.isQualified, bne_eq_false_iff_eq] at hOwn
    have hOne : q.id = id := by
      by_contra hOther
      exact hAlone ⟨q.id, hDeclared.1, hOther, hOwn.symm.trans hSame⟩
    have hApart := nodup_map_id_choices s stripped
    rw [hSplit, List.map_append, List.map_cons,
      List.nodup_append] at hApart
    exact hApart.2.2 q.id (List.mem_map_of_mem hq) id
      List.mem_cons_self hOne
  have hNext := isNext_of_choices hSplit hSimple
  rw [find?_of_choices hSplit, hNext.freshName_eq]
  dsimp only
  rw [hNone, Nat.add_zero]

/-
  A type that shares its simple name with no other one has it
  exactly unless the name is taken.  Then the type has number
  two of it.  No name is taken if of all types of one simple
  name at most one wants just this.
-/
theorem unshared_kept_iff
    (stripped : List String)
    (hId : id ∈ s.names)
    (hAlone : ¬s.SharesName id) :
    ((ofSchema s stripped).find? id = some id.name ↔
        ¬IsTaken (s.simpleCount stripped) id.name)
      ∧ (IsTaken (s.simpleCount stripped) id.name →
        (ofSchema s stripped).find? id =
          some (numberedName id.name 2))
      ∧ ((∀ name, s.simpleCount stripped name ≤ 1) →
        (ofSchema s stripped).find? id = some id.name) := by
  have hName := find?_of_not_sharesName stripped hId hAlone
  have hTaken : IsTaken (s.simpleCount stripped) id.name →
      (ofSchema s stripped).find? id =
        some (numberedName id.name 2) := by
    intro h
    rw [hName, firstNumber_of_isTaken h, nthName_of_two_le le_rfl]
  have hKept : ¬IsTaken (s.simpleCount stripped) id.name →
      (ofSchema s stripped).find? id = some id.name := by
    intro h
    rw [hName, firstNumber_of_not_isTaken h,
      nthName_of_le_one le_rfl]
  refine ⟨⟨?_, hKept⟩, hTaken, ?_⟩
  · intro hSame h
    rw [hTaken h, Option.some.injEq] at hSame
    exact (lt_numberedName id.name 2).ne' hSame
  · intro hOne
    exact hKept (not_isTaken_of_le_one hOne id.name)

/- A numbered name that nobody in front of it asks for. -/
theorem unshared_kept_iff_crowded :
    { name := "AXNode_2", space := "b" } ∈ crowdedNames.names
      ∧ ¬crowdedNames.SharesName { name := "AXNode_2", space := "b" }
      ∧ (ofSchema crowdedNames []).find?
          { name := "AXNode_2", space := "b" } = some "AXNode_2" := by
  have hId : { name := "AXNode_2", space := "b" } ∈
      crowdedNames.names := by
    decide
  have hAlone : ¬crowdedNames.SharesName
      { name := "AXNode_2", space := "b" } := by
    decide
  refine ⟨hId, hAlone, ?_⟩
  apply (unshared_kept_iff [] hId hAlone).1.mpr
  intro hTaken
  rcases isTaken_iff.mp hTaken with ⟨base, n, hName, hFrom, hTo⟩
  have hNumbered : "AXNode_2" = numberedName "AXNode" 2 := by decide
  rcases numberedName_inj.mp (hNumbered.symm.trans hName) with
    ⟨rfl, rfl⟩
  have hNobody : crowdedNames.simpleCount [] "AXNode" = 0 := by
    decide +kernel
  have hFirst := firstNumber_bounds (crowdedNames.simpleCount [])
    "AXNode"
  omega

/- Two namespaces of which nothing is left, and a third one. -/
def ordersSchema : Schema :=
  { types :=
      [.record { id := { name := "Order", space := "app/v1" } },
        .record { id := { name := "Order", space := "app/v2" } },
        .record { id := { name := "Order_2", space := "app/v3" } }] }

/- The second order takes the name of another type. -/
theorem strippedOrders_not_kept :
    { name := "Order_2", space := "app/v3" } ∈ ordersSchema.names
      ∧ ¬ordersSchema.SharesName
          { name := "Order_2", space := "app/v3" }
      ∧ (ofSchema ordersSchema ["app/v1", "app/v2"]).find?
          { name := "Order_2", space := "app/v3" } =
        some "Order_2_2" := by
  have hId : { name := "Order_2", space := "app/v3" } ∈
      ordersSchema.names := by
    decide
  have hAlone : ¬ordersSchema.SharesName
      { name := "Order_2", space := "app/v3" } := by
    decide
  refine ⟨hId, hAlone, ?_⟩
  have hTaken : IsTaken
      (ordersSchema.simpleCount ["app/v1", "app/v2"])
      (numberedName "Order" 2) := by
    apply IsTaken.surplus le_rfl
    decide +kernel
  have hNumbered : numberedName "Order" 2 = "Order_2" := by decide
  rw [hNumbered] at hTaken
  rw [find?_of_not_sharesName _ hId hAlone,
    firstNumber_of_isTaken hTaken]
  decide

end EmittedNames

end WireSchema
