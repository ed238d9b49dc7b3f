import WireSchema.Proofs.Extraction.Step
import WireSchema.Source.Lower

/-
  The two ways to the wire type of a source type.

  A source type is lowered as it stands, or made into an
  expression, which is lowered then.  Both ways take most
  forms apart alike.  They part where one of them looks at a
  name or at a struct itself, and there only.

  Key definitions include:
    * `SourceScope.AgreesOn`
    * `ModuleView.Differ`, `ModuleView.TwoWays`
    * `ModuleView.lower_twoWays`
-/

namespace WireSchema

/- Whether an expression is that of a byte. -/
def TypeExpr.isByte : TypeExpr → Bool
  | .builtin name => isByteName name
  | _ => false

/- The names of a byte are predeclared. -/
theorem isSome_builtinType?
    {name : String}
    (h : isByteName name = true) :
    (builtinType? name).isSome = true := by
  simp only [isByteName, Bool.or_eq_true, beq_iff_eq] at h
  rcases h with rfl | rfl <;> decide

namespace Source

open Walk

variable {v : ModuleView}
variable {x : SourceScope}

------------------------------------------------------------
-- Agreement
------------------------------------------------------------

namespace SourceScope

/-
  Both ways take all parts of a type alike.  The element of a
  list is a byte for both of them or for none.  A struct, be
  it empty, has a name one way only.
-/
def AgreesOn (x : SourceScope) : SourceType → Prop
  | .slice elem =>
      x.isByte elem = (x.resolve? elem).any TypeExpr.isByte
        ∧ AgreesOn x elem
  | .pointer elem => AgreesOn x elem
  | .array _ elem => AgreesOn x elem
  | .map key value => AgreesOn x key ∧ AgreesOn x value
  | .struct _ => False
  | _ => True

/- What is a byte as it stands is a name. -/
theorem eq_ident_of_isByte
    {t : SourceType}
    (h : x.isByte t = true) :
    ∃ name, t = .ident name ∧ isByteName name
      ∧ x.binds name = false := by
  unfold isByte at h
  split at h
  · next name =>
      simp only [Bool.and_eq_true, Bool.not_eq_true'] at h
      exact ⟨name, rfl, h⟩
  · cases h

/-
  On a list of a single name both ways agree, unless the name
  is a parameter that stands for a byte, or the package has
  its own declaration of a byte.
-/
theorem agreesOn_slice_ident (name : String) :
    x.AgreesOn (.slice (.ident name)) ↔
      match x.bindings.lookup name with
      | some (.argument e) => e.isByte = false
      | some .itself => True
      | none => isByteName name → x.declares name = false := by
  have hAgrees : x.AgreesOn (.slice (.ident name)) ↔
      x.isByte (.ident name) =
        (x.resolveName? name).any TypeExpr.isByte := by
    simp [AgreesOn, resolve?]
  rw [hAgrees]
  simp only [isByte, binds, resolveName?]
  cases x.bindings.lookup name with
  | some b =>
      cases b with
      | itself => simp [TypeExpr.isByte]
      | argument e =>
          simp only [Option.isSome_some, Bool.not_true,
            Bool.and_false, Option.any_some]
          exact eq_comm
  | none =>
      cases x.declares name with
      | true => simp [TypeExpr.isByte]
      | false =>
          cases hByte : isByteName name with
          | true =>
              simp [isSome_builtinType? hByte, TypeExpr.isByte,
                hByte]
          | false =>
              cases (builtinType? name).isSome <;>
                simp [TypeExpr.isByte, hByte]

end SourceScope

------------------------------------------------------------
-- Expressions
------------------------------------------------------------

namespace ModuleView

/- A list of bytes has a form of its own. -/
theorem lowerExpr_slice
    (v : ModuleView)
    (place : SourcePlace)
    (e : TypeExpr) :
    v.lowerExpr place (.slice e) =
      (if e.isByte then pure (.base .bytes 0)
      else do
        let t ← v.lowerExpr place e
        pure (.array t 0)) := by
  cases e with
  | builtin name => simp [lowerExpr, TypeExpr.isByte]
  | _ => simp [lowerExpr, TypeExpr.isByte]

/- A list as it stands, by the same question. -/
theorem lower_slice
    (v : ModuleView)
    (x : SourceScope)
    (hint : String)
    (t : SourceType) :
    v.lower x hint (.slice t) =
      (if x.isByte t then pure (.base .bytes 0)
      else do
        let t ← v.lower x hint t
        pure (.array t 0)) := by
  rw [lower]

------------------------------------------------------------
-- Difference
------------------------------------------------------------

/- Whenever both steps come to a result, these differ. -/
def Differ (m n : ModuleStep WireType) : Prop :=
  ∀ y z y' z' a b, m.run y = .ok (a, z) →
    n.run y' = .ok (b, z') → a ≠ b

/- What is made of different results is different. -/
theorem Differ.map
    {m n : ModuleStep WireType}
    {f : WireType → WireType}
    (hInj : ∀ a b, f a = f b → a = b)
    (h : Differ m n) :
    Differ (do let a ← m; pure (f a))
      (do let a ← n; pure (f a)) := by
  intro y z y' z' a b hm hn hSame
  rcases run_bind_eq_ok hm with ⟨c, _, hm, hEnd⟩
  cases hEnd
  rcases run_bind_eq_ok hn with ⟨d, _, hn, hEnd⟩
  cases hEnd
  exact h _ _ _ _ _ _ hm hn (hInj c d hSame)

/- So are the maps of different keys or different values. -/
theorem Differ.map₂
    {m n k l : ModuleStep WireType}
    (h : Differ m n ∨ Differ k l) :
    Differ (do let a ← m; let b ← k; pure (.map a b))
      (do let a ← n; let b ← l; pure (.map a b)) := by
  intro y z y' z' a b hFirst hSecond hSame
  rcases run_bind_eq_ok hFirst with ⟨c, w, hm, hFirst⟩
  rcases run_bind_eq_ok hFirst with ⟨d, _, hk, hEnd⟩
  cases hEnd
  rcases run_bind_eq_ok hSecond with ⟨c', w', hn, hSecond⟩
  rcases run_bind_eq_ok hSecond with ⟨d', _, hl, hEnd⟩
  cases hEnd
  rcases WireType.map.inj hSame with ⟨hKey, hValue⟩
  rcases h with h | h
  · exact h _ _ _ _ _ _ hm hn hKey
  · exact h _ _ _ _ _ _ hk hl hValue

/- Bytes are no list. -/
theorem differ_bytes (m : ModuleStep WireType) :
    Differ (pure (.base .bytes 0))
      (do let t ← m; pure (.array t 0)) := by
  intro y z y' z' a b hm hn hSame
  cases hm
  rcases run_bind_eq_ok hn with ⟨c, _, hn, hEnd⟩
  cases hEnd
  cases hSame

theorem Differ.symm
    {m n : ModuleStep WireType}
    (h : Differ m n) : Differ n m :=
  fun _ _ _ _ _ _ hn hm hSame =>
    h _ _ _ _ _ _ hm hn hSame.symm

/- A struct is referred to by a name, if it is not refused. -/
theorem differ_struct
    (hint : String)
    (fields : List (SourceField SourceType))
    (k : BaseKind) :
    Differ (v.lower x hint (.struct fields))
      (pure (.base k 0)) := by
  intro y z y' z' a b hm hn hSame
  cases hn
  rw [lower] at hm
  rcases run_bind_eq_ok hm with ⟨free, w, -, hm⟩
  cases free with
  | false =>
      cases hm
      cases hSame
  | true =>
      rcases run_bind_eq_ok hm with ⟨m, w', -, hm⟩
      rcases run_bind_eq_ok hm with ⟨_, _, -, hEnd⟩
      cases hEnd
      cases hSame

------------------------------------------------------------
-- Both Ways
------------------------------------------------------------

/-
  Both ways are one for a type on which they agree, and come
  to different results for any other one.
-/
structure TwoWays
    (v : ModuleView)
    (x : SourceScope)
    (hint : String)
    (t : SourceType)
    (e : TypeExpr) : Prop where
  same : x.AgreesOn t →
    v.lower x hint t = v.lowerExpr x.place e
  differ : ¬x.AgreesOn t →
    Differ (v.lower x hint t) (v.lowerExpr x.place e)

section

variable {hint : String}
variable {t : SourceType}
variable {e : TypeExpr}

theorem TwoWays.pointer (h : v.TwoWays x hint t e) :
    v.TwoWays x hint (.pointer t) (.pointer e) where
  same := by
    intro hElem
    rw [lower, lowerExpr, h.same hElem]
  differ := by
    intro hElem
    rw [lower, lowerExpr]
    exact (h.differ hElem).map fun _ _ => WireType.pointer.inj

theorem TwoWays.array
    (h : v.TwoWays x hint t e)
    (len : Nat) :
    v.TwoWays x hint (.array (some len) t) (.array len e) where
  same := by
    intro hElem
    rw [lower, lowerExpr, Option.getD_some, h.same hElem]
  differ := by
    intro hElem
    rw [lower, lowerExpr, Option.getD_some]
    apply (h.differ hElem).map
    intro a b hArray
    exact (WireType.array.inj hArray).1

theorem TwoWays.map
    {key : SourceType}
    {k : TypeExpr}
    (hKey : v.TwoWays x hint key k)
    (hValue : v.TwoWays x hint t e) :
    v.TwoWays x hint (.map key t) (.map k e) where
  same := by
    rintro ⟨hSameKey, hSameValue⟩
    rw [lower, lowerExpr, hKey.same hSameKey,
      hValue.same hSameValue]
  differ := by
    intro h
    rw [lower, lowerExpr]
    apply Differ.map₂
    rcases not_and_or.mp h with h | h
    · exact .inl (hKey.differ h)
    · exact .inr (hValue.differ h)

/-
  A list is one of bytes for both ways or for none, or else
  they have come apart already.
-/
theorem TwoWays.slice
    (h : v.TwoWays x hint t e)
    (hResolve : x.resolve? t = some e) :
    v.TwoWays x hint (.slice t) (.slice e) where
  same := by
    rintro ⟨hBytes, hElem⟩
    rw [hResolve, Option.any_some] at hBytes
    rw [lower_slice, lowerExpr_slice, hBytes, h.same hElem]
  differ := by
    intro hNot
    have hApart : ¬(x.isByte t = e.isByte ∧ x.AgreesOn t) := by
      rintro ⟨hBytes, hElem⟩
      refine hNot ⟨?_, hElem⟩
      rw [hResolve, Option.any_some, hBytes]
    rw [lower_slice, lowerExpr_slice]
    cases hLeft : x.isByte t with
    | true =>
        rcases x.eq_ident_of_isByte hLeft with ⟨name, rfl, -⟩
        cases hRight : e.isByte with
        | true =>
            exact absurd ⟨hLeft.trans hRight.symm, trivial⟩
              hApart
        | false => exact differ_bytes _
    | false =>
        cases hRight : e.isByte with
        | true => exact (differ_bytes _).symm
        | false =>
            have hElem : ¬x.AgreesOn t := fun hElem =>
              hApart ⟨hLeft.trans hRight.symm, hElem⟩
            apply (h.differ hElem).map
            intro a b hArray
            exact (WireType.array.inj hArray).1

/- Names and the empty interface are for both the same. -/
theorem twoWays_of_names
    (v : ModuleView)
    (hint : String)
    (hSlice : ∀ elem, t ≠ .slice elem)
    (hPointer : ∀ elem, t ≠ .pointer elem)
    (hArray : ∀ len elem, t ≠ .array len elem)
    (hMap : ∀ key value, t ≠ .map key value)
    (hStruct : ∀ fields, t ≠ .struct fields)
    (hResolve : x.resolve? t = some e) :
    v.TwoWays x hint t e := by
  have hWays (hAgrees : x.AgreesOn t)
      (hSame : v.lower x hint t = v.lowerExpr x.place e) :
      v.TwoWays x hint t e :=
    ⟨fun _ => hSame, fun h => absurd hAgrees h⟩
  cases t with
  | ident name =>
      apply hWays trivial
      rw [SourceScope.resolve?] at hResolve
      rw [lower, lowerIdent, hResolve]
  | qualified package name =>
      apply hWays trivial
      rw [lower, lowerNames, hResolve]
  | generic base args =>
      apply hWays trivial
      rw [lower, lowerNames, hResolve]
  | interface elems hasMethods =>
      apply hWays trivial
      cases elems with
      | cons => simp [SourceScope.resolve?] at hResolve
      | nil =>
          cases hasMethods with
          | true => simp [SourceScope.resolve?] at hResolve
          | false =>
              cases hResolve
              rw [lower, lowerExpr]
              rfl
  | union | tilde | unsupported =>
      simp [SourceScope.resolve?] at hResolve
  | slice elem => exact absurd rfl (hSlice elem)
  | pointer elem => exact absurd rfl (hPointer elem)
  | array len elem => exact absurd rfl (hArray len elem)
  | map key value => exact absurd rfl (hMap key value)
  | struct fields => exact absurd rfl (hStruct fields)

/- A type and the expression that it is, by all their parts. -/
theorem lower_twoWays
    (v : ModuleView)
    (hint : String)
    (hResolve : x.resolve? t = some e) :
    v.TwoWays x hint t e := by
  fun_induction SourceScope.AgreesOn x t generalizing e with
  | case1 elem ih =>
      simp only [SourceScope.resolve?,
        Option.map_eq_some_iff] at hResolve
      rcases hResolve with ⟨e, hElem, rfl⟩
      exact (ih hElem).slice hElem
  | case2 elem ih =>
      simp only [SourceScope.resolve?,
        Option.map_eq_some_iff] at hResolve
      rcases hResolve with ⟨e, hElem, rfl⟩
      exact (ih hElem).pointer
  | case3 len elem ih =>
      cases len with
      | none => simp [SourceScope.resolve?] at hResolve
      | some len =>
          simp only [SourceScope.resolve?,
            Option.map_eq_some_iff] at hResolve
          rcases hResolve with ⟨e, hElem, rfl⟩
          exact (ih hElem).array len
  | case4 key value hKey hValue =>
      simp only [SourceScope.resolve?, Option.bind_eq_bind,
        Option.bind_eq_some_iff, Option.some.injEq] at hResolve
      rcases hResolve with ⟨k, hk, e, he, rfl⟩
      exact (hKey hk).map (hValue he)
  | case5 fields =>
      cases fields with
      | cons => simp [SourceScope.resolve?] at hResolve
      | nil =>
          cases hResolve
          refine ⟨False.elim, fun _ => ?_⟩
          rw [lowerExpr]
          exact differ_struct hint [] _
  | case6 t hSlice hPointer hArray hMap hStruct =>
      exact twoWays_of_names v hint hSlice hPointer hArray hMap
        hStruct hResolve

end

end ModuleView

end Source

end WireSchema
