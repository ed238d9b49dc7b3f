import Mathlib.Data.List.Forall2

/-
  When steps succeed, and when exactly they fail.

  A chain of steps succeeds when all of its steps do.  If each
  step fails exactly when something holds, then so does the
  chain: it fails when one of these things holds.

  Key definitions include:
    * `Succeeds`
    * `FailsWhen`
-/

namespace WireSchema

variable {ε ε' α β : Type}

------------------------------------------------------------
-- Success
------------------------------------------------------------

def Succeeds (r : Except ε α) : Prop :=
  ∃ a, r = .ok a

theorem succeeds_ok (a : α) :
    Succeeds (.ok a : Except ε α) :=
  ⟨a, rfl⟩

theorem Succeeds.bind
    {r : Except ε α}
    {f : α → Except ε β}
    (h : Succeeds r)
    (hNext : ∀ a, r = .ok a → Succeeds (f a)) :
    Succeeds (r >>= f) := by
  rcases h with ⟨a, rfl⟩
  exact hNext a rfl

theorem Succeeds.map
    {r : Except ε α}
    (f : α → β)
    (h : Succeeds r) : Succeeds (r.map f) := by
  rcases h with ⟨a, rfl⟩
  exact succeeds_ok (f a)

theorem Succeeds.mapError
    {r : Except ε α}
    (f : ε → ε')
    (h : Succeeds r) : Succeeds (r.mapError f) := by
  rcases h with ⟨a, rfl⟩
  exact succeeds_ok a

/- What two steps give is what the second one makes. -/
theorem eq_ok_of_bind
    {r : Except ε α}
    {f : α → Except ε β}
    {b : β}
    (h : r >>= f = .ok b) :
    ∃ a, r = .ok a ∧ f a = .ok b := by
  cases r with
  | ok a => exact ⟨a, rfl, h⟩
  | error e => cases h

/- A fault of two steps is that of one of them. -/
theorem eq_error_of_bind
    {r : Except ε α}
    {f : α → Except ε β}
    {e : ε}
    (h : r >>= f = .error e) :
    r = .error e ∨ ∃ a, r = .ok a ∧ f a = .error e := by
  cases r with
  | ok a => exact .inr ⟨a, rfl, h⟩
  | error e' => cases h; exact .inl rfl

/- Another fault makes no other result. -/
theorem eq_ok_of_mapError
    {r : Except ε α}
    {f : ε → ε'}
    {a : α}
    (h : r.mapError f = .ok a) : r = .ok a := by
  cases r with
  | ok b => cases h; rfl
  | error e => cases h

/- Another fault stands for the fault of the same step. -/
theorem eq_error_of_mapError
    {r : Except ε α}
    {f : ε → ε'}
    {e : ε'}
    (h : r.mapError f = .error e) :
    ∃ e', r = .error e' ∧ f e' = e := by
  cases r with
  | ok a => cases h
  | error e' => exact ⟨e', rfl, Except.error.inj h⟩

/- A change of the result does not change the outcome. -/
theorem eq_ok_of_map
    {r : Except ε α}
    {f : α → β}
    {b : β}
    (h : r.map f = .ok b) : ∃ a, r = .ok a ∧ f a = b := by
  cases r with
  | ok a => exact ⟨a, rfl, Except.ok.inj h⟩
  | error e => cases h

/- A change of a result may be left to the next step. -/
theorem bind_of_map
    {γ : Type}
    (r : Except ε α)
    (f : α → β)
    (g : β → Except ε γ) :
    (r.map f >>= g) = r >>= fun a => g (f a) := by
  cases r with
  | ok a => rfl
  | error e => rfl

/- A change of what two steps give is one of the second. -/
theorem map_of_bind
    {γ : Type}
    (r : Except ε α)
    (f : α → Except ε β)
    (g : β → γ) :
    (r >>= f).map g = r >>= fun a => (f a).map g := by
  cases r with
  | ok a => rfl
  | error e => rfl

/- A step that only passes on what it is given has no fault. -/
theorem eq_error_of_bind_ok
    {r : Except ε α}
    {f : α → β}
    {e : ε}
    (h : (do let a ← r; .ok (f a)) = .error e) :
    r = .error e := by
  cases r with
  | ok a => cases h
  | error e' => cases h; rfl

theorem eq_error_of_map
    {r : Except ε α}
    {f : α → β}
    {e : ε}
    (h : r.map f = .error e) : r = .error e := by
  cases r with
  | ok a => cases h
  | error e' => cases h; rfl

/- A step for each element, all of which succeed. -/
theorem succeeds_mapM
    {f : α → Except ε β}
    {xs : List α}
    (h : ∀ x ∈ xs, Succeeds (f x)) :
    Succeeds (xs.mapM f) := by
  induction xs with
  | nil => exact succeeds_ok []
  | cons x rest ih =>
      rw [List.forall_mem_cons] at h
      rw [List.mapM_cons]
      apply h.1.bind
      intro y _
      apply (ih h.2).bind
      intro ys _
      exact succeeds_ok (y :: ys)

/- Steps on each element that succeed, one by one. -/
theorem forall₂_of_mapM_eq_ok
    {f : α → Except ε β}
    {xs : List α}
    {ys : List β}
    (h : xs.mapM f = .ok ys) :
    List.Forall₂ (fun x y => f x = .ok y) xs ys := by
  induction xs generalizing ys with
  | nil =>
      cases h
      exact .nil
  | cons x rest ih =>
      rw [List.mapM_cons] at h
      rcases eq_ok_of_bind h with ⟨y, hFirst, h⟩
      rcases eq_ok_of_bind h with ⟨more, hRest, h⟩
      cases h
      exact .cons hFirst (ih hRest)

/- Each result is that of some element. -/
theorem exists_of_mem_mapM
    {f : α → Except ε β}
    {xs : List α}
    {ys : List β}
    {y : β}
    (h : xs.mapM f = .ok ys)
    (hy : y ∈ ys) : ∃ x ∈ xs, f x = .ok y := by
  have hEach := forall₂_of_mapM_eq_ok h
  clear h
  induction hEach with
  | nil => cases hy
  | cons hFirst _ ih =>
      rcases List.mem_cons.mp hy with rfl | hy
      · exact ⟨_, List.mem_cons_self, hFirst⟩
      · rcases ih hy with ⟨x, hx, hOk⟩
        exact ⟨x, List.mem_cons_of_mem _ hx, hOk⟩

/- Each element has its result among them. -/
theorem exists_mem_of_mapM
    {f : α → Except ε β}
    {xs : List α}
    {ys : List β}
    {x : α}
    (h : xs.mapM f = .ok ys)
    (hx : x ∈ xs) : ∃ y ∈ ys, f x = .ok y := by
  have hEach := forall₂_of_mapM_eq_ok h
  clear h
  induction hEach with
  | nil => cases hx
  | cons hFirst _ ih =>
      rcases List.mem_cons.mp hx with rfl | hx
      · exact ⟨_, List.mem_cons_self, hFirst⟩
      · rcases ih hx with ⟨y, hy, hOk⟩
        exact ⟨y, List.mem_cons_of_mem _ hy, hOk⟩

/- What each result shows of its element, all results show. -/
theorem map_eq_of_mapM
    {γ : Type}
    {f : α → Except ε β}
    {g : β → γ}
    {k : α → γ}
    {xs : List α}
    {ys : List β}
    (h : xs.mapM f = .ok ys)
    (hEach : ∀ x ∈ xs, ∀ y, f x = .ok y → g y = k x) :
    ys.map g = xs.map k := by
  have hPairs := forall₂_of_mapM_eq_ok h
  clear h
  induction hPairs with
  | nil => rfl
  | cons hFirst _ ih =>
      rw [List.forall_mem_cons] at hEach
      rw [List.map_cons, List.map_cons, hEach.1 _ hFirst,
        ih hEach.2]

/- A fault among steps for all elements is that of one. -/
theorem exists_of_mapM_eq_error
    {f : α → Except ε β}
    {xs : List α}
    {e : ε}
    (h : xs.mapM f = .error e) : ∃ x ∈ xs, f x = .error e := by
  induction xs with
  | nil => cases h
  | cons x rest ih =>
      rw [List.mapM_cons] at h
      cases hFirst : f x with
      | error e' =>
          rw [hFirst] at h
          cases h
          exact ⟨x, List.mem_cons_self, hFirst⟩
      | ok y =>
          rw [hFirst] at h
          cases hRest : rest.mapM f with
          | error e' =>
              rw [hRest] at h
              cases h
              rcases ih hRest with ⟨x', hx', hError⟩
              exact ⟨x', List.mem_cons_of_mem x hx', hError⟩
          | ok ys =>
              rw [hRest] at h
              cases h

/- A change of each outcome is a change of the outcomes. -/
theorem mapM_map
    {γ : Type}
    {f : α → Except ε γ}
    {g : α → Except ε β}
    {change : β → γ}
    (h : ∀ a, f a = (g a).map change)
    (xs : List α) :
    xs.mapM f = (xs.mapM g).map (List.map change) := by
  induction xs with
  | nil => rfl
  | cons a rest ih =>
      rw [List.mapM_cons, List.mapM_cons, ih, h]
      cases g a with
      | error e => rfl
      | ok b =>
          cases rest.mapM g with
          | error e => rfl
          | ok bs => rfl

------------------------------------------------------------
-- Exact Failure
------------------------------------------------------------

/-
  A step that fails exactly when something holds, and then
  for a fault of a kind.
-/
def FailsWhen (Fault : ε → Prop) (P : Prop) :
    Except ε α → Prop
  | .ok _ => ¬P
  | .error e => Fault e ∧ P

namespace FailsWhen

variable {Fault : ε → Prop}
variable {Fault' : ε' → Prop}
variable {P Q : Prop}
variable {r : Except ε α}

theorem succeeds_iff (h : FailsWhen Fault P r) :
    Succeeds r ↔ ¬P := by
  cases r with
  | ok a => exact iff_of_true (succeeds_ok a) h
  | error e =>
      apply iff_of_false
      · rintro ⟨a, hOk⟩
        cases hOk
      · exact not_not_intro h.2

theorem fault
    {e : ε}
    (h : FailsWhen Fault P r)
    (hError : r = .error e) : Fault e := by
  subst hError
  exact h.1

/- What holds of the same steps may be said in other words. -/
theorem congr
    (h : FailsWhen Fault P r)
    (hSame : P ↔ Q) : FailsWhen Fault Q r := by
  rwa [← propext hSame]

theorem of_succeeds
    (h : Succeeds r)
    (hNot : ¬P) : FailsWhen Fault P r := by
  rcases h with ⟨a, rfl⟩
  exact hNot

theorem bind
    {f : α → Except ε β}
    (h : FailsWhen Fault P r)
    (hNext : ∀ a, r = .ok a → FailsWhen Fault Q (f a)) :
    FailsWhen Fault (P ∨ Q) (r >>= f) := by
  cases r with
  | error e => exact ⟨h.1, .inl h.2⟩
  | ok a =>
      have hStep := hNext a rfl
      apply hStep.congr
      constructor
      · exact .inr
      · rintro (hP | hQ)
        · exact absurd hP h
        · exact hQ

theorem map
    (f : α → β)
    (h : FailsWhen Fault P r) :
    FailsWhen Fault P (r.map f) := by
  cases r with
  | ok a => exact h
  | error e => exact h

theorem mapError
    {f : ε → ε'}
    (hFault : ∀ e, Fault e → Fault' (f e))
    (h : FailsWhen Fault P r) :
    FailsWhen Fault' P (r.mapError f) := by
  cases r with
  | ok a => exact h
  | error e => exact ⟨hFault e h.1, h.2⟩

end FailsWhen

end WireSchema
