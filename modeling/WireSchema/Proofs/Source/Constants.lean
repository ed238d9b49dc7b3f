import Mathlib.Data.List.Nodup
import WireSchema.Source.Package

/-
  The values of the constants of a package.

  A constant has a value if its expression has one over the
  values of other constants.  This says nothing about order.
  Each look at the constants finds the values behind one more
  use of a constant that is declared later, so that two looks
  miss what lies behind two of them.

  Key definitions include:
    * `Denotes`
    * `LooksAhead`
    * `lookup_passes_iff`
    * `PackageSource.lookup_values_ofFiles`
-/

namespace WireSchema.Source

variable {table other : ConstTable}
variable {consts : List ConstSource}
variable {name : String}
variable {v : ConstValue}

------------------------------------------------------------
-- Names in Expressions
------------------------------------------------------------

namespace ConstExpr

/- The names that an expression mentions. -/
def mentions : ConstExpr → List String
  | .name s => [s]
  | .neg e => mentions e
  | .binary _ left right => mentions left ++ mentions right
  | .conversion _ e => mentions e
  | _ => []

variable {position : Int}
variable {e : ConstExpr}

/- Only the values of the names in it matter. -/
theorem eval_congr
    (h : ∀ s ∈ e.mentions, table.lookup s = other.lookup s) :
    e.eval position table = e.eval position other := by
  induction e with
  | name s => exact h s List.mem_cons_self
  | neg e ih => simp only [eval, ih h]
  | binary op left right ihLeft ihRight =>
      have hLeft := ihLeft fun s hs =>
        h s (List.mem_append_left _ hs)
      have hRight := ihRight fun s hs =>
        h s (List.mem_append_right _ hs)
      simp only [eval, hLeft, hRight]
  | conversion type e ih => exact ih h
  | int | float | text | position | unknown => rfl

/- There is no value without those of all names in it. -/
theorem exists_lookup_of_eval
    (h : e.eval position table = some v)
    {s : String}
    (hs : s ∈ e.mentions) : ∃ w, table.lookup s = some w := by
  induction e generalizing v with
  | name t =>
      obtain rfl := List.mem_singleton.mp hs
      exact ⟨v, h⟩
  | neg e ih =>
      obtain ⟨w, hw, -⟩ := Option.bind_eq_some_iff.mp h
      exact ih hw hs
  | binary op left right ihLeft ihRight =>
      obtain ⟨a, ha, hRest⟩ := Option.bind_eq_some_iff.mp h
      obtain ⟨b, hb, -⟩ := Option.bind_eq_some_iff.mp hRest
      rcases List.mem_append.mp hs with hs | hs
      · exact ihLeft ha hs
      · exact ihRight hb hs
  | conversion type e ih => exact ih h hs
  | int | float | text | position | unknown => cases hs

end ConstExpr

------------------------------------------------------------
-- Meanings
------------------------------------------------------------

/-
  The value of a constant: that of its expression over values
  of other constants.
-/
inductive Denotes (consts : List ConstSource) :
    String → ConstValue → Prop where
  | of_eval {c : ConstSource} {e : ConstExpr} {v : ConstValue}
      {table : ConstTable}
      (hMem : c ∈ consts)
      (hName : c.name ≠ "_")
      (hExpr : c.value = some e)
      (hTable : ∀ s w, table.lookup s = some w → Denotes consts s w)
      (hValue : e.eval c.position table = some v) :
      Denotes consts c.name v

/- No two constants share a name, other than the blank one. -/
def HasDistinctNames (consts : List ConstSource) : Prop :=
  ((consts.filter fun c => c.name != "_").map
    ConstSource.name).Nodup

instance (consts : List ConstSource) :
    Decidable (HasDistinctNames consts) := by
  unfold HasDistinctNames
  infer_instance

/- One name stands in front of another. -/
def Precedes (consts : List ConstSource) (s name : String) : Prop :=
  (consts.map ConstSource.name).idxOf s
    < (consts.map ConstSource.name).idxOf name

/-
  From constant to constant that is used there is a way with
  a number of uses, at least, of what is not declared before.
-/
inductive LooksAhead (consts : List ConstSource) :
    Nat → String → Prop where
  | here (name : String) : LooksAhead consts 0 name
  | use {k : Nat} {c : ConstSource} {e : ConstExpr} {s : String}
      (hMem : c ∈ consts)
      (hExpr : c.value = some e)
      (hUse : s ∈ e.mentions)
      (hRest : LooksAhead consts k s) : LooksAhead consts k c.name
  | ahead {k : Nat} {c : ConstSource} {e : ConstExpr} {s : String}
      (hMem : c ∈ consts)
      (hExpr : c.value = some e)
      (hUse : s ∈ e.mentions)
      (hAhead : ¬Precedes consts s c.name)
      (hRest : LooksAhead consts k s) :
      LooksAhead consts (k + 1) c.name

theorem LooksAhead.of_le
    {j k : Nat}
    (h : LooksAhead consts k name)
    (hLess : j ≤ k) : LooksAhead consts j name := by
  induction h generalizing j with
  | here name =>
      obtain rfl := Nat.le_zero.mp hLess
      exact .here name
  | use hMem hExpr hUse _ ih =>
      exact .use hMem hExpr hUse (ih hLess)
  | ahead hMem hExpr hUse hAhead _ ih =>
      cases j with
      | zero => exact .here _
      | succ j =>
          exact .ahead hMem hExpr hUse hAhead
            (ih (Nat.le_of_succ_le_succ hLess))

/- What is used looks ahead as often, or once less. -/
theorem LooksAhead.of_succ
    {k : Nat}
    (h : LooksAhead consts (k + 1) name) :
    ∃ c e s, c ∈ consts ∧ c.name = name ∧ c.value = some e
      ∧ s ∈ e.mentions
      ∧ (LooksAhead consts (k + 1) s
        ∨ ¬Precedes consts s name ∧ LooksAhead consts k s) := by
  cases h with
  | use hMem hExpr hUse hRest =>
      exact ⟨_, _, _, hMem, rfl, hExpr, hUse, .inl hRest⟩
  | ahead hMem hExpr hUse hAhead hRest =>
      exact ⟨_, _, _, hMem, rfl, hExpr, hUse,
        .inr ⟨hAhead, hRest⟩⟩

theorem Denotes.name_ne
    (h : Denotes consts name v) : name ≠ "_" := by
  cases h with
  | of_eval _ hName => exact hName

/- What a constant denotes does not depend on the order. -/
theorem Denotes.perm
    {more : List ConstSource}
    (hPerm : consts.Perm more)
    (h : Denotes consts name v) : Denotes more name v := by
  induction h with
  | of_eval hMem hName hExpr _ hValue ih =>
      exact .of_eval (hPerm.mem_iff.mp hMem) hName hExpr ih hValue

theorem HasDistinctNames.perm
    {more : List ConstSource}
    (hPerm : consts.Perm more)
    (h : HasDistinctNames consts) : HasDistinctNames more :=
  ((hPerm.filter _).map ConstSource.name).nodup_iff.mp h

section

variable (hDistinct : HasDistinctNames consts)

include hDistinct

theorem eq_of_name_eq
    {c d : ConstSource}
    (hc : c ∈ consts)
    (hd : d ∈ consts)
    (hBlank : c.name ≠ "_")
    (hName : c.name = d.name) : c = d := by
  have hOwn : ∀ {b : ConstSource}, b ∈ consts → b.name ≠ "_" →
      b ∈ consts.filter fun c => c.name != "_" := fun hb hNamed =>
    List.mem_filter.mpr ⟨hb, by simpa using hNamed⟩
  exact List.inj_on_of_nodup_map hDistinct (hOwn hc hBlank)
    (hOwn hd (hName ▸ hBlank)) hName

/- A constant has one value at most. -/
theorem Denotes.unique
    (h : Denotes consts name v)
    {w : ConstValue}
    (hOther : Denotes consts name w) : v = w := by
  induction h generalizing w with
  | @of_eval c e v table hMem hName hExpr _ hValue ih =>
      generalize hSame : c.name = name at hOther
      cases hOther with
      | @of_eval d f w other hMem' hName' hExpr' hTable' hValue' =>
          obtain rfl :=
            eq_of_name_eq hDistinct hMem hMem' hName hSame
          obtain rfl := Option.some.inj (hExpr.symm.trans hExpr')
          have hAgree : ∀ s ∈ e.mentions,
              table.lookup s = other.lookup s := by
            intro s hs
            obtain ⟨a, ha⟩ :=
              ConstExpr.exists_lookup_of_eval hValue hs
            obtain ⟨b, hb⟩ :=
              ConstExpr.exists_lookup_of_eval hValue' hs
            rw [ha, hb, ih s a ha (hTable' s b hb)]
          rw [ConstExpr.eval_congr hAgree] at hValue
          exact Option.some.inj (hValue.symm.trans hValue')

theorem not_mem_of_mem_rest
    {done rest : List ConstSource}
    (hSplit : consts = done ++ rest)
    (hName : name ≠ "_")
    (h : name ∈ rest.map ConstSource.name) :
    name ∉ done.map ConstSource.name := by
  have hOwn : ∀ {cs : List ConstSource},
      name ∈ cs.map ConstSource.name →
      name ∈ (cs.filter fun c => c.name != "_").map
        ConstSource.name := by
    intro cs hMem
    rcases List.mem_map.mp hMem with ⟨c, hc, rfl⟩
    exact List.mem_map_of_mem
      (List.mem_filter.mpr ⟨hc, by simpa using hName⟩)
  rw [HasDistinctNames, hSplit, List.filter_append,
    List.map_append, List.nodup_append] at hDistinct
  exact fun hDone => hDistinct.2.2 _ (hOwn hDone) _ (hOwn h) rfl

/- Where a constant stands tells what stands in front of it. -/
theorem precedes_iff
    {done rest : List ConstSource}
    {c : ConstSource}
    (hSplit : consts = done ++ c :: rest)
    (hName : c.name ≠ "_")
    (s : String) :
    Precedes consts s c.name
      ↔ s ∈ done.map ConstSource.name := by
  have hFresh : c.name ∉ done.map ConstSource.name :=
    not_mem_of_mem_rest hDistinct hSplit hName
      (List.mem_map_of_mem List.mem_cons_self)
  have hPlace : (consts.map ConstSource.name).idxOf c.name =
      (done.map ConstSource.name).length := by
    rw [hSplit, List.map_append, List.idxOf_append,
      if_neg hFresh, List.map_cons, List.idxOf_cons_self,
      Nat.zero_add]
  unfold Precedes
  rw [hPlace, hSplit, List.map_append, List.idxOf_append]
  split
  · next hs =>
      exact iff_of_true (List.idxOf_lt_length_iff.mpr hs) hs
  · next hs => simp [hs]

end

------------------------------------------------------------
-- Looks
------------------------------------------------------------

/- The values that are known after a number of looks. -/
def passes (consts : List ConstSource) : Nat → ConstTable
  | 0 => []
  | k + 1 => consts.foldl ConstTable.learn (passes consts k)

theorem valuesOf_eq_passes (consts : List ConstSource) :
    valuesOf consts = passes consts 2 :=
  rfl

/- What is known of a constant before is known from then on,
   and nothing is learned of other ones. -/
theorem lookup_learn_iff {c : ConstSource} :
    (table.learn c).lookup name = some v
      ↔ table.lookup name = some v
        ∨ (table.lookup name = none ∧ name = c.name
          ∧ c.name ≠ "_"
          ∧ ∃ e, c.value = some e
            ∧ e.eval c.position table = some v) := by
  unfold ConstTable.learn
  split
  · next hKept =>
      rw [Bool.or_eq_true, beq_iff_eq, Option.isSome_iff_exists]
        at hKept
      constructor
      · exact .inl
      · rintro (h | ⟨hNone, rfl, hName, -⟩)
        · exact h
        · rcases hKept with hBlank | ⟨w, hw⟩
          · exact absurd hBlank hName
          · rw [hNone] at hw
            cases hw
  · next hNew =>
      rw [Bool.or_eq_true, beq_iff_eq, not_or, Bool.not_eq_true,
        Option.isSome_eq_false_iff, Option.isNone_iff_eq_none]
        at hNew
      cases hExpr : c.value.bind fun e => e.eval c.position table with
      | none =>
          dsimp only
          constructor
          · exact .inl
          · rintro (h | ⟨-, -, -, e, he, hValue⟩)
            · exact h
            · rw [he, Option.bind_some, hValue] at hExpr
              cases hExpr
      | some w =>
          obtain ⟨e, he, hw⟩ := Option.bind_eq_some_iff.mp hExpr
          dsimp only
          by_cases hSame : name = c.name
          · subst hSame
            rw [List.lookup_cons_self, hNew.2]
            simp [hNew.1, he, hw]
          · rw [List.lookup_cons, beq_false_of_ne hSame]
            simp [hSame]

theorem lookup_learn_of_ne
    {c : ConstSource}
    (h : name ≠ c.name) :
    (table.learn c).lookup name = table.lookup name := by
  apply Option.ext
  intro v
  rw [lookup_learn_iff]
  exact or_iff_left fun hNew => h hNew.2.1

theorem lookup_foldl_learn
    (h : table.lookup name = some v)
    (cs : List ConstSource) :
    (cs.foldl ConstTable.learn table).lookup name = some v := by
  induction cs generalizing table with
  | nil => exact h
  | cons c cs ih => exact ih (ConstTable.lookup_learn h c)

theorem lookup_foldl_learn_of_not_mem
    {cs : List ConstSource}
    (h : name ∉ cs.map ConstSource.name) :
    (cs.foldl ConstTable.learn table).lookup name =
      table.lookup name := by
  induction cs generalizing table with
  | nil => rfl
  | cons c cs ih =>
      rw [List.map_cons, List.mem_cons, not_or] at h
      rw [List.foldl_cons, ih h.2, lookup_learn_of_ne h.1]

/-
  What holds of all that is known holds at the end of a look,
  if each constant keeps it, whatever stands in front of it.
-/
theorem foldl_learn_induction
    {motive : List ConstSource → ConstTable → Prop}
    (hStep : ∀ done c rest table, consts = done ++ c :: rest →
      motive done table → motive (done ++ [c]) (table.learn c))
    (hStart : motive [] table) :
    motive consts (consts.foldl ConstTable.learn table) := by
  have hRun : ∀ rest done table, consts = done ++ rest →
      motive done table →
      motive consts (rest.foldl ConstTable.learn table) := by
    intro rest
    induction rest with
    | nil =>
        rintro done table hSplit h
        rw [hSplit, List.append_nil]
        exact h
    | cons c rest ih =>
        rintro done table hSplit h
        exact ih (done ++ [c]) _ (by simpa using hSplit)
          (hStep done c rest table hSplit h)
  exact hRun consts [] table rfl hStart

/- All that is known is so. -/
theorem denotes_of_lookup_passes
    {k : Nat}
    (h : (passes consts k).lookup name = some v) :
    Denotes consts name v := by
  induction k generalizing name v with
  | zero => cases h
  | succ k ih =>
      have hAll : ∀ name v,
          (passes consts (k + 1)).lookup name = some v →
            Denotes consts name v := by
        refine foldl_learn_induction
          (motive := fun _ table => ∀ name v,
            table.lookup name = some v → Denotes consts name v)
          ?_ fun name v => ih
        intro done c rest table hSplit hKnown name v hFound
        rcases lookup_learn_iff.mp hFound with
          hOld | ⟨-, rfl, hName, e, hExpr, hValue⟩
        · exact hKnown name v hOld
        · have hMem : c ∈ consts := by simp [hSplit]
          exact .of_eval hMem hName hExpr hKnown hValue
      exact hAll name v h

section

variable (hDistinct : HasDistinctNames consts)

include hDistinct

/-
  After some looks nothing is known that looks ahead so many
  times.  During a look, what is still to come was known
  before, and looks ahead less often.
-/
theorem not_looksAhead_of_lookup_passes
    {k : Nat}
    (h : (passes consts k).lookup name = some v) :
    ¬LooksAhead consts k name := by
  induction k generalizing name v with
  | zero => cases h
  | succ k ih =>
      have hAll : ∀ name v,
          (passes consts (k + 1)).lookup name = some v →
            ¬LooksAhead consts (k + 1) name := by
        have hRun : ∀ name v,
            (passes consts (k + 1)).lookup name = some v →
              ¬LooksAhead consts (k + 1) name
              ∧ (name ∉ consts.map ConstSource.name →
                ¬LooksAhead consts k name) :=
          foldl_learn_induction
            (motive := fun done table => ∀ name v,
              table.lookup name = some v →
                ¬LooksAhead consts (k + 1) name
                ∧ (name ∉ done.map ConstSource.name →
                  ¬LooksAhead consts k name)) ?step ?start
        case start =>
          intro name v hFound
          have hOld := ih hFound
          exact ⟨fun h => hOld (h.of_le (Nat.le_succ k)),
            fun _ => hOld⟩
        case step =>
          intro done c rest table hSplit hKnown name v hFound
          rcases lookup_learn_iff.mp hFound with
            hOld | ⟨-, rfl, hName, e, hExpr, hValue⟩
          · refine ⟨(hKnown name v hOld).1, fun hNew => ?_⟩
            refine (hKnown name v hOld).2 fun hMem => hNew ?_
            rw [List.map_append]
            exact List.mem_append_left _ hMem
          · refine ⟨fun hLooks => ?_, fun hNew => absurd ?_ hNew⟩
            · have hMem : c ∈ consts := by simp [hSplit]
              rcases hLooks.of_succ with
                ⟨d, f, s, hd, hSame, hExpr', hUse, hOn⟩
              obtain rfl :=
                eq_of_name_eq hDistinct hMem hd hName hSame.symm
              obtain rfl := Option.some.inj (hExpr.symm.trans hExpr')
              obtain ⟨w, hw⟩ :=
                ConstExpr.exists_lookup_of_eval hValue hUse
              rcases hOn with hOn | ⟨hAhead, hOn⟩
              · exact (hKnown s w hw).1 hOn
              · refine (hKnown s w hw).2 (fun hDone => ?_) hOn
                exact hAhead
                  ((precedes_iff hDistinct hSplit hName s).mpr hDone)
            · simp
        exact fun name v hFound => (hRun name v hFound).1
      exact hAll name v h

/-
  A value is known after more looks than uses that look ahead
  on any way to it.  When its constant comes up in the last
  look, what it uses has come up before, or was known before.
-/
theorem lookup_passes_of_denotes
    {k : Nat}
    (h : Denotes consts name v)
    (hLooks : ¬LooksAhead consts k name) :
    (passes consts k).lookup name = some v := by
  induction h generalizing k with
  | @of_eval c e v table hMem hName hExpr hTable hValue ih =>
      cases k with
      | zero => exact absurd (.here _) hLooks
      | succ k =>
          rcases List.append_of_mem hMem with ⟨done, rest, hSplit⟩
          have hOwn := Denotes.of_eval hMem hName hExpr hTable hValue
          generalize hNow :
            done.foldl ConstTable.learn (passes consts k) = now
          have hPass : passes consts (k + 1) =
              (c :: rest).foldl ConstTable.learn now := by
            rw [← hNow, ← List.foldl_append, ← hSplit, passes]
          have hUses : ∀ s ∈ e.mentions,
              table.lookup s = now.lookup s := by
            intro s hs
            obtain ⟨w, hw⟩ :=
              ConstExpr.exists_lookup_of_eval hValue hs
            rw [hw]
            symm
            by_cases hBefore : Precedes consts s c.name
            · have hDone :=
                (precedes_iff hDistinct hSplit hName s).mp hBefore
              have hRest : s ∉ (c :: rest).map ConstSource.name :=
                fun h => not_mem_of_mem_rest hDistinct hSplit
                  (hTable s w hw).name_ne h hDone
              have hKnown := ih s w hw (k := k + 1)
                fun hOn => hLooks (.use hMem hExpr hs hOn)
              rwa [hPass, lookup_foldl_learn_of_not_mem hRest]
                at hKnown
            · have hKnown := ih s w hw (k := k)
                fun hOn => hLooks (.ahead hMem hExpr hs hBefore hOn)
              exact hNow ▸ lookup_foldl_learn hKnown done
          rw [ConstExpr.eval_congr hUses] at hValue
          have hFound : ∃ w, (now.learn c).lookup c.name = some w := by
            cases hOld : now.lookup c.name with
            | none =>
                exact ⟨v, lookup_learn_iff.mpr
                  (.inr ⟨hOld, rfl, hName, e, hExpr, hValue⟩)⟩
            | some w => exact ⟨w, ConstTable.lookup_learn hOld c⟩
          obtain ⟨w, hw⟩ := hFound
          have hAfter : (passes consts (k + 1)).lookup c.name =
              some w := by
            rw [hPass]
            exact lookup_foldl_learn hw rest
          rw [hAfter, hOwn.unique hDistinct
            (denotes_of_lookup_passes hAfter)]

/-
  After some looks the values are known of just the constants
  that have one and do not look ahead so many times.
-/
theorem lookup_passes_iff {k : Nat} :
    (passes consts k).lookup name = some v
      ↔ Denotes consts name v ∧ ¬LooksAhead consts k name := by
  constructor
  · intro h
    exact ⟨denotes_of_lookup_passes h,
      not_looksAhead_of_lookup_passes hDistinct h⟩
  · rintro ⟨h, hLooks⟩
    exact lookup_passes_of_denotes hDistinct h hLooks

end

------------------------------------------------------------
-- Packages
------------------------------------------------------------

/- No way to a value looks ahead more than once. -/
def IsSettled (consts : List ConstSource) : Prop :=
  ∀ name v, Denotes consts name v → ¬LooksAhead consts 2 name

theorem isSettled_of_isSome
    (hDistinct : HasDistinctNames consts)
    (h : ∀ c ∈ consts,
      ((valuesOf consts).lookup c.name).isSome = true) :
    IsSettled consts := by
  intro name v hOwn
  cases hOwn with
  | of_eval hMem =>
      rcases Option.isSome_iff_exists.mp (h _ hMem) with ⟨w, hw⟩
      rw [valuesOf_eq_passes] at hw
      exact not_looksAhead_of_lookup_passes hDistinct hw

namespace PackageSource

/-
  The values of a package are right: where a value is given,
  it is what the constant denotes.  They hold a constant with
  a value exactly if no way through the constants that it uses
  looks ahead twice.  In another order of the same constants
  no value is another one, and if both orders are settled, the
  values are the same, and those of all constants that have
  one.
-/
theorem lookup_values_ofFiles
    {files : List FileSource}
    (hDistinct :
      HasDistinctNames (files.flatMap FileSource.consts))
    (path : String) :
    (∀ name v, (ofFiles path files).values.lookup name = some v
        ↔ Denotes (files.flatMap FileSource.consts) name v
          ∧ ¬LooksAhead (files.flatMap FileSource.consts) 2 name)
      ∧ ∀ others : List FileSource,
        (files.flatMap FileSource.consts).Perm
            (others.flatMap FileSource.consts) →
          (∀ name v w,
            (ofFiles path files).values.lookup name = some v →
              (ofFiles path others).values.lookup name = some w →
              v = w)
          ∧ (IsSettled (files.flatMap FileSource.consts) →
            IsSettled (others.flatMap FileSource.consts) →
            ∀ name v,
              ((ofFiles path files).values.lookup name = some v
                ↔ Denotes (files.flatMap FileSource.consts) name v)
              ∧ (ofFiles path files).values.lookup name =
                (ofFiles path others).values.lookup name) := by
  have hKnown : ∀ {fs : List FileSource},
      HasDistinctNames (fs.flatMap FileSource.consts) → ∀ name v,
      (ofFiles path fs).values.lookup name = some v
        ↔ Denotes (fs.flatMap FileSource.consts) name v
          ∧ ¬LooksAhead (fs.flatMap FileSource.consts) 2 name := by
    intro fs h name v
    rw [ofFiles, valuesOf_eq_passes]
    exact lookup_passes_iff h
  refine ⟨hKnown hDistinct, fun others hPerm => ⟨?same, ?settled⟩⟩
  case same =>
    intro name v w hv hw
    have hOne := ((hKnown hDistinct name v).mp hv).1
    have hOther :=
      ((hKnown (hDistinct.perm hPerm) name w).mp hw).1
    exact hOne.unique hDistinct (hOther.perm hPerm.symm)
  case settled =>
    intro hSettled hOthers name v
    have hOne : ∀ v,
        (ofFiles path files).values.lookup name = some v
          ↔ Denotes (files.flatMap FileSource.consts) name v := by
      intro v
      rw [hKnown hDistinct]
      exact and_iff_left_of_imp (hSettled name v)
    refine ⟨hOne v, Option.ext fun w => ?_⟩
    rw [hOne, hKnown (hDistinct.perm hPerm)]
    constructor
    · intro h
      have hOther := h.perm hPerm
      exact ⟨hOther, hOthers name w hOther⟩
    · rintro ⟨h, -⟩
      exact h.perm hPerm.symm

/- A file with one constant. -/
def constFile (path name : String) (e : ConstExpr) : FileSource :=
  { path
    consts :=
      [{ name, value := some e
         place := { file := path, line := 1, column := 7 } }] }

/- Two files, of which the first looks ahead to the second. -/
def tallyFiles : List FileSource :=
  [constFile "a.go" "Total" (.binary .add (.name "Base") (.int 1)),
    constFile "b.go" "Base" (.int 4)]

/- In either order of the files the total is five. -/
theorem lookup_values_ofFiles_tally :
    HasDistinctNames (tallyFiles.flatMap FileSource.consts)
      ∧ IsSettled (tallyFiles.flatMap FileSource.consts)
      ∧ IsSettled (tallyFiles.reverse.flatMap FileSource.consts)
      ∧ (ofFiles "m" tallyFiles).values.lookup "Total" =
        some (.int 5)
      ∧ (ofFiles "m" tallyFiles).values.lookup "Total" =
        (ofFiles "m" tallyFiles.reverse).values.lookup "Total" := by
  have hDistinct :
      HasDistinctNames (tallyFiles.flatMap FileSource.consts) := by
    decide
  have hPerm : (tallyFiles.flatMap FileSource.consts).Perm
      (tallyFiles.reverse.flatMap FileSource.consts) :=
    .swap _ _ []
  have hSettled := isSettled_of_isSome hDistinct (by decide)
  have hOthers :=
    isSettled_of_isSome (hDistinct.perm hPerm) (by decide)
  have hValues := (lookup_values_ofFiles hDistinct "m").2
    tallyFiles.reverse hPerm
  exact ⟨hDistinct, hSettled, hOthers, by decide,
    (hValues.2 hSettled hOthers "Total" (.int 5)).2⟩

/- Three constants, each of which is the one behind it. -/
def ladderText : String :=
  "package m\n\ntype E int\n\nconst (\n\tC E = B\n\tB E = A\n\tA E = 1\n)\n"

def ladderFile : FileSource :=
  (FileSource.parse? "m.go" ladderText).getD { path := "" }

/-
  Two looks do not reach the first one.  In the other order
  one look is enough.
-/
theorem ladder_not_found :
    (FileSource.parse? "m.go" ladderText).isSome = true
      ∧ HasDistinctNames ladderFile.consts
      ∧ Denotes ladderFile.consts "C" (.int 1)
      ∧ (ofFiles "m" [ladderFile]).values.lookup "C" = none
      ∧ (ofFiles "m"
          [{ ladderFile with
             consts := ladderFile.consts.reverse }]).values.lookup
        "C" = some (.int 1) := by
  have hDistinct : HasDistinctNames ladderFile.consts := by
    decide +kernel
  have hBack : (passes ladderFile.consts.reverse 2).lookup "C" =
      some (.int 1) := by
    decide +kernel
  refine ⟨by decide +kernel, hDistinct, ?_, by decide +kernel,
    by decide +kernel⟩
  exact (denotes_of_lookup_passes hBack).perm
    ladderFile.consts.reverse_perm

end PackageSource

end WireSchema.Source
