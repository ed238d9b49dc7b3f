import WireSchema.Proofs.Rules.Fold

/-
  Rules as a tag spells them.

  An entry of a tag is what stands between two commas without
  the blanks around it.  The text of a rule is such an entry
  again, and it is read as this rule.  So the texts of rules
  stand for the rules, one by one and together.

  Key definitions include:
    * `Rule.IsEntry`
    * `Rule.parseAll_text`
    * `Rule.parseAll_texts`
-/

namespace WireSchema

namespace Rule

------------------------------------------------------------
-- Entries
------------------------------------------------------------

/- What is left of a text between two commas. -/
structure IsEntry (e : List Char) : Prop where
  trimmed : Text.IsTrimmed e
  ne_nil : e ≠ []
  single : ',' ∉ e

variable {e : List Char}

/- The rules of a tag are read from entries. -/
theorem exists_entry_of_mem
    {tag : String}
    {r : Rule}
    (h : r ∈ parseAll tag) : ∃ e, IsEntry e ∧ ofEntry e = r := by
  rcases List.mem_map.mp h with ⟨e, he, hRule⟩
  rcases List.mem_filter.mp he with ⟨hPiece, hSome⟩
  rcases List.mem_map.mp hPiece with ⟨piece, hCut, rfl⟩
  refine ⟨Text.trim piece, ?_, hRule⟩
  constructor
  case trimmed => exact Text.isTrimmed_trim piece
  case ne_nil => simpa using hSome
  case single =>
    intro hComma
    exact Text.notMem_of_mem_splitEvery hCut
      (Text.mem_of_mem_trim hComma)

/- An entry by itself is a tag of one rule. -/
theorem parseAll_of_isEntry (h : IsEntry e) :
    parseAll (String.ofList e) = [ofEntry e] := by
  have hSome : e.isEmpty = false := by
    simpa using h.ne_nil
  unfold parseAll
  rw [String.toList_ofList, Text.splitEvery_of_notMem h.single,
    List.map_singleton, h.trimmed.trim_eq]
  simp [hSome]

------------------------------------------------------------
-- Texts of Rules
------------------------------------------------------------

theorem toList_text_of_splitFirst
    {name param : List Char}
    (h : Text.splitFirst '=' e = some (name, param)) :
    (ofEntry e).text.toList = Text.trim name ++ '=' :: param := by
  have hMark : "=".toList = ['='] := rfl
  unfold ofEntry
  rw [h]
  simp [text, hMark]

theorem toList_text_of_splitFirst_eq_none
    (h : Text.splitFirst '=' e = none) :
    (ofEntry e).text.toList = e := by
  unfold ofEntry
  rw [h]
  simp [text]

/-
  Only the blanks between the name and the equals sign are
  missing in the text of a rule, so it is an entry, too.
-/
theorem isEntry_text (h : IsEntry e) :
    IsEntry (ofEntry e).text.toList := by
  cases hSplit : Text.splitFirst '=' e with
  | none => rwa [toList_text_of_splitFirst_eq_none hSplit]
  | some p =>
      rcases p with ⟨name, param⟩
      have hParts := Text.append_of_splitFirst hSplit
      have hLast : (Text.trim name ++ '=' :: param).getLast? =
          e.getLast? := by
        rw [hParts, List.getLast?_append, List.getLast?_append,
          List.getLast?_cons, Option.some_or, Option.some_or]
      have hNone : ',' ∉ name ∧ ',' ∉ '=' :: param := by
        rw [← not_or, ← List.mem_append, ← hParts]
        exact h.single
      rw [toList_text_of_splitFirst hSplit]
      constructor
      case trimmed =>
        constructor
        · intro c hc
          cases hName : Text.trim name with
          | nil =>
              rw [hName] at hc
              rw [← Option.some.inj hc]
              rfl
          | cons d rest =>
              apply (Text.isTrimmed_trim name).first
              rw [hName] at hc ⊢
              exact hc
        · rw [hLast]
          exact h.trimmed.last
      case ne_nil => simp
      case single =>
        rw [List.mem_append, not_or]
        exact ⟨fun hName => hNone.1 (Text.mem_of_mem_trim hName),
          hNone.2⟩

/- The text of a rule is read as the rule. -/
theorem ofEntry_text (e : List Char) :
    ofEntry (ofEntry e).text.toList = ofEntry e := by
  cases hSplit : Text.splitFirst '=' e with
  | none => rw [toList_text_of_splitFirst_eq_none hSplit]
  | some p =>
      rcases p with ⟨name, param⟩
      have hName : '=' ∉ Text.trim name := by
        intro hMark
        exact Text.notMem_of_splitFirst hSplit
          (Text.mem_of_mem_trim hMark)
      rw [toList_text_of_splitFirst hSplit]
      unfold ofEntry
      rw [Text.splitFirst_append hName, hSplit]
      dsimp only
      rw [Text.trim_trim]

theorem parseAll_text
    {tag : String}
    {r : Rule}
    (h : r ∈ parseAll tag) : parseAll r.text = [r] := by
  rcases exists_entry_of_mem h with ⟨e, hEntry, rfl⟩
  have hAlone := parseAll_of_isEntry (isEntry_text hEntry)
  rwa [String.ofList_toList, ofEntry_text] at hAlone

/- Texts that stand for one rule each do so side by side. -/
theorem parseAll_joinWith
    {rules : List Rule}
    (h : ∀ r ∈ rules, parseAll r.text = [r]) :
    parseAll (Text.joinWith "," (rules.map text)) = rules := by
  induction rules with
  | nil => decide
  | cons r rest ih =>
      rw [List.forall_mem_cons] at h
      cases rest with
      | nil => exact h.1
      | cons q rest =>
          have hRest := ih h.2
          rw [List.map_cons] at hRest
          rw [List.map_cons, List.map_cons, Text.joinWith,
            parseAll_append, h.1, hRest]
          rfl

end Rule

------------------------------------------------------------
-- Quoted Rules
------------------------------------------------------------

/- What a field is warned of is a rule in its tag. -/
theorem Schema.exists_rule_of_warning
    {s : Schema}
    {f : Field WireType}
    {owner flavor : String}
    {effects : FieldEffects}
    {w : Warning}
    (h : s.fieldEffects? owner f flavor = some effects)
    (hw : w ∈ effects.warnings) :
    ∃ r ∈ Rule.parseAll f.rules, ∃ reason,
      s.effectOf f r = .unsupported reason
        ∧ w = unsupportedRule owner f.name flavor r reason := by
  rw [(fieldEffects?_eq_some_iff.mp h).2] at hw
  rcases List.mem_map.mp hw with ⟨x, hx, rfl⟩
  rcases List.mem_filterMap.mp hx with ⟨r, hr, hReason⟩
  rcases Option.map_eq_some_iff.mp hReason with ⟨reason, hr', rfl⟩
  refine ⟨r, (List.takeWhile_sublist _).mem hr, reason, ?_, rfl⟩
  cases hEffect : s.effectOf f r with
  | unsupported other =>
      rw [hEffect] at hr'
      rw [Option.some.inj hr']
  | _ =>
      rw [hEffect] at hr'
      cases hr'

/-
  The texts of the rules of a tag, with commas between them,
  are a tag with the same rules, and each text by itself is
  one with this rule.  So what a warning about a field puts in
  quotes is read as the rule that has no effect.
-/
theorem Rule.parseAll_texts (tag : String) :
    Rule.parseAll
        (Text.joinWith "," ((Rule.parseAll tag).map Rule.text)) =
      Rule.parseAll tag
      ∧ (∀ r ∈ Rule.parseAll tag, Rule.parseAll r.text = [r])
      ∧ ∀ (s : Schema) (f : Field WireType) (owner flavor : String)
          (effects : FieldEffects),
        f.rules = tag →
        s.fieldEffects? owner f flavor = some effects →
        ∀ w ∈ effects.warnings, ∃ r ∈ Rule.parseAll tag, ∃ reason,
          w.message =
              owner ++ "." ++ f.name ++ ": validation rule \""
                ++ r.text ++ "\" is not supported by " ++ flavor
                ++ " (" ++ reason ++ ")"
            ∧ r.effect (s.shapeOf f.type) = .unsupported reason
            ∧ Rule.parseAll r.text = [r] := by
  refine ⟨?texts, ?each, ?quoted⟩
  case texts =>
    apply parseAll_joinWith
    intro r hr
    exact parseAll_text hr
  case each =>
    intro r hr
    exact parseAll_text hr
  case quoted =>
    rintro s f owner flavor effects rfl hEffects w hw
    rcases Schema.exists_rule_of_warning hEffects hw with
      ⟨r, hr, reason, hNone, rfl⟩
    exact ⟨r, hr, reason, rfl, hNone, parseAll_text hr⟩

/- A text whose rules have blanks around their parts. -/
def looseField : Field WireType :=
  { name := "Code"
    type := .base .string 0
    wireName := "code"
    rules := " len = 3 ,, frob = a=b " }

/- Both of its rules are unknown or have no number. -/
theorem Rule.parseAll_texts_loose :
    Rule.parseAll looseField.rules =
        [{ name := "len", param := some " 3" },
          { name := "frob", param := some " a=b" }]
      ∧ Rule.parseAll "len= 3,frob= a=b" =
        Rule.parseAll looseField.rules
      ∧ Rule.parseAll "len= 3" =
        [{ name := "len", param := some " 3" }]
      ∧ ∃ effects,
        ({} : Schema).fieldEffects? "Order" looseField "zod" =
            some effects
          ∧ ∃ w ∈ effects.warnings,
            ∃ r ∈ Rule.parseAll looseField.rules, ∃ reason,
              w.message =
                  "Order" ++ "." ++ looseField.name
                    ++ ": validation rule \"" ++ r.text
                    ++ "\" is not supported by " ++ "zod"
                    ++ " (" ++ reason ++ ")"
                ∧ Rule.parseAll r.text = [r] := by
  have hRules : Rule.parseAll looseField.rules =
      [{ name := "len", param := some " 3" },
        { name := "frob", param := some " a=b" }] := by
    decide +kernel
  have hFound : (({} : Schema).fieldEffects? "Order" looseField
      "zod").map (fun e => e.warnings.length) = some 2 := by
    decide +kernel
  rcases Rule.parseAll_texts looseField.rules with
    ⟨hTexts, hEach, hQuoted⟩
  rcases Option.map_eq_some_iff.mp hFound with
    ⟨effects, hEffects, hLength⟩
  have hFirst : effects.warnings[0] ∈ effects.warnings :=
    List.getElem_mem (by omega)
  rcases hQuoted {} looseField "Order" "zod" effects rfl hEffects
      _ hFirst with ⟨r, hr, reason, hMessage, -, hText⟩
  rw [hRules] at hTexts hEach
  refine ⟨hRules, ?_, ?_, effects, hEffects, _, hFirst,
    r, hr, reason, hMessage, hText⟩
  · rw [hRules]
    exact hTexts
  · exact hEach _ List.mem_cons_self

end WireSchema
