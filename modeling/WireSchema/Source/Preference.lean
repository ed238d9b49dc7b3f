import WireSchema.Source.Syntax

/-
  Texts that can be read both as a type and as an expression.

  The names in `G[T]` may be those of a generic type and its
  argument, or of a list and an index into it.  Readings are
  compared by points: a generic type gains two, a plain name
  that stands for a type loses one, and an expression has
  none of its own.  The reading with more points counts.
  Some words are values wherever a value may stand.

  Key definitions include:
    * `isValueWord`, `SourceType.namesValue`
    * `SourceType.points`: a type read as a type
    * `SourceType.pointsAsValue?`: the same text as a value
    * `isRatherType`: which of the two counts
    * `Race`, `bindsParams`: bounds against array lengths
-/

namespace WireSchema.Source

------------------------------------------------------------
-- Words for Values
------------------------------------------------------------

/- The words that no type has where a value may stand. -/
def isValueWord (s : String) : Bool :=
  ["iota", "nil", "true", "false", "new", "make"].contains s

mutual

/-
  Whether a type has one of these words for a name.  Behind
  a comma, and in types that are no names, values may not
  stand.
-/
def SourceType.namesValue : SourceType → Bool
  | .ident s => isValueWord s
  | .qualified s _ => isValueWord s
  | .pointer elem => namesValue elem
  | .generic base args =>
      base.namesValue || SourceType.firstNamesValue args
  | .union terms => SourceType.someNamesValue terms
  | _ => false

/- The first of some types; comments do not count. -/
def SourceType.firstNamesValue : List SourceType → Bool
  | .unsupported _ :: rest => firstNamesValue rest
  | t :: _ => namesValue t
  | [] => false

def SourceType.someNamesValue : List SourceType → Bool
  | [] => false
  | t :: rest => namesValue t || someNamesValue rest

end

------------------------------------------------------------
-- Points
------------------------------------------------------------

mutual

/- The points of a type. -/
def SourceType.points : SourceType → Int
  | .ident _ => -1
  | .qualified .. => 0
  | .generic _ args => 2 + pointsOf args
  | .pointer elem => points elem
  | .slice elem => points elem
  | .array _ elem => points elem
  | .map key value => points key + points value
  | .struct _ => 0
  | .interface elems _ => pointsOf elems
  | .union terms => pointsOf terms
  | .tilde elem => points elem
  | .unsupported _ => 0

def SourceType.pointsOf : List SourceType → Int
  | [] => 0
  | t :: rest => points t + pointsOf rest

end

mutual

/-
  The points of the text of a type when it is read as a
  value, if it can be.  One argument is an index; several are
  types also there.
-/
def SourceType.pointsAsValue? : SourceType → Option Int
  | .ident _ => some 0
  | .qualified .. => some 0
  | .pointer elem => pointsAsValue? elem
  | .generic base [arg] =>
      some
        ((pointsAsValue? arg).getD
          (base.points + arg.points))
  | .generic base args =>
      some (base.points + SourceType.pointsOf args)
  | .union terms => pointsAsValues? terms
  | _ => none

def SourceType.pointsAsValues? : List SourceType → Option Int
  | [] => some 0
  | t :: rest => do
      some ((← pointsAsValue? t) + (← pointsAsValues? rest))

end

/- Whether a text is read as a type rather than a value. -/
def isRatherType (t : SourceType) : Bool :=
  match t.pointsAsValue? with
  | some n => !t.namesValue && n < t.points
  | none => false

------------------------------------------------------------
-- Type Parameters and Arrays
------------------------------------------------------------

/-
  The text `X[T *E]` may start a declaration with a type
  parameter or one of an array.  Points are gained and lost
  on the way through the text.  The lead is how many more
  the parameter has; whoever led last is ahead.
-/
structure Race where
  lead : Int := 0
  isAhead : Bool := true
  deriving DecidableEq, Repr, Inhabited

/- The race after points have been gained or lost. -/
def Race.add (n : Int) (r : Race) : Race :=
  let lead := r.lead + n
  { lead
    isAhead :=
      if lead = 0 then r.isAhead else decide (0 < lead) }

mutual

/- The race through the text of a bound. -/
def Race.through : SourceType → Race → Race
  | .ident _, r => r.add (-1)
  | .pointer elem, r => through elem r
  | .generic base [arg], r =>
      if arg.pointsAsValue?.isSome then
        (through arg r).add 2
      else (r.add (-base.points)).add 2
  | .generic base _, r => (r.add (-base.points)).add 2
  | .union terms, r => throughAll terms r
  | _, r => r

def Race.throughAll : List SourceType → Race → Race
  | [], r => r
  | t :: rest, r => throughAll rest (through t r)

end

/-
  Whether a bound that could also be the length of an array
  is a bound.  On a tie it is one only outside of groups, and
  only when it was ahead last.
-/
def bindsParams (inGroup : Bool) (bound : SourceType) : Bool :=
  let r := Race.through bound {}
  if bound.namesValue then false
  else if r.lead = 0 then !inGroup && r.isAhead
  else decide (0 < r.lead)

end WireSchema.Source
