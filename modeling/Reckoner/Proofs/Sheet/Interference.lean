import Mathlib.Data.List.Induction
import Reckoner.Proofs.Sheet.Locality
import Reckoner.Proofs.Vocabulary.Congruence
import Reckoner.Vocabulary.Standard

/-!
# What a line depends on

A scope enters the outcome of a line through the words that the line computes with, and through
nothing else. So a line comes to the same in any two documents, on any two lines of them, if each of
its words has the same value there or none.

What the words have for values depends in turn on the lines that declare them, and so on. A set of
names is closed above a line if it has, with a name, the words of all lines above that declare the
name. A document may be changed at will outside of the lines that declare names of a closed set, and
these keep their values.
-/

namespace Reckoner

/-! ## The words of a line -/

/-- The word that a token is. -/
def Token.word? (token : Token) : Option String :=
  match token.kind with
  | .word name => some name
  | _ => none

namespace Line

/-- The declaration on a line, if the line is one and can be taken apart. -/
def declaration? (voc : Vocabulary) (line : Line) : Option Declaration :=
  match LineKind.of line with
  | .declaration => (Declaration.parse voc.isReserved line).toOption
  | _ => none

/-- The text on a line that is computed: the whole of an expression, and of a declaration what
stands behind the colon. -/
def expression? (voc : Vocabulary) (line : Line) : Option Line :=
  match LineKind.of line with
  | .expression => some line
  | _ => (declaration? voc line).map Declaration.expression

/-- The words of the text on a line that is computed. -/
def words (voc : Vocabulary) (line : Line) : List String :=
  (expression? voc line).toList.flatMap fun text ↦
    (Token.ofLine voc text.trimEnd).filterMap Token.word?

/-- Whether a line declares one of some names, provided that its expression has a value. -/
def declaresAny (voc : Vocabulary) (names : List String) (line : Line) : Bool :=
  (declaration? voc line).any fun declaration ↦ names.contains declaration.name

end Line

/-! ## Scopes that agree -/

/-- Two scopes give each of some names the same value or none. -/
def Scope.AgreeOn (names : List String) (scope scope' : Scope) : Prop :=
  ∀ name ∈ names, scope.lookup? name = scope'.lookup? name

namespace Scope.AgreeOn

variable {names names' : List String} {scope scope' scope'' : Scope}

theorem refl (names : List String) (scope : Scope) : scope.AgreeOn names scope := fun _ _ ↦ rfl

theorem symm (h : scope.AgreeOn names scope') : scope'.AgreeOn names scope :=
  fun name hname ↦ (h name hname).symm

theorem trans (h : scope.AgreeOn names scope') (h' : scope'.AgreeOn names scope'') :
    scope.AgreeOn names scope'' :=
  fun name hname ↦ (h name hname).trans (h' name hname)

theorem mono (h : scope.AgreeOn names scope') (hsub : ∀ name ∈ names', name ∈ names) :
    scope.AgreeOn names' scope' :=
  fun name hname ↦ h name (hsub name hname)

end Scope.AgreeOn

section

variable {voc : Vocabulary} {scope scope' : Scope}

/-- Only a word asks the scope for its meaning. -/
theorem Token.item_congr {token : Token}
    (h : ∀ name, token.word? = some name → scope.lookup? name = scope'.lookup? name) :
    token.item voc scope = token.item voc scope' := by
  obtain ⟨kind, span⟩ := token
  cases kind with
  | word name =>
    have hvalue : scope.value? name = scope'.value? name := by
      rw [Scope.value?, Scope.value?, h name rfl]
    simp only [item, hvalue]
  | _ => rfl

/-- The value of a text, or its fault, depends on the scope by the words of the text only. -/
theorem Vocabulary.calculate_congr {text : Line}
    (h : scope.AgreeOn ((Token.ofLine voc text).filterMap Token.word?) scope') :
    voc.calculate scope text = voc.calculate scope' text := by
  have hitems : ∀ token ∈ Token.ofLine voc text,
      token.item voc scope = token.item voc scope' := fun token htoken ↦
    Token.item_congr fun name hname ↦ h name (List.mem_filterMap.mpr ⟨token, htoken, hname⟩)
  rw [calculate, calculate, parse, parse, parseWithin, parseWithin,
    Stacks.read_congr (fun _ _ _ ↦ rfl) hitems]

/-- The outcome of a line depends on the scope by the words of the line only. -/
theorem Outcome.ofLine_congr {line : Line} (h : scope.AgreeOn (line.words voc) scope') :
    ofLine voc scope line = ofLine voc scope' line := by
  have hcalculate {text : Line} (htext : line.expression? voc = some text) :
      voc.calculate scope text.trimEnd = voc.calculate scope' text.trimEnd := by
    rw [Line.words, htext, Option.toList_some, List.flatMap_singleton] at h
    exact Vocabulary.calculate_congr h
  cases hkind : LineKind.of line with
  | blank => simp only [ofLine, hkind]
  | comment => simp only [ofLine, hkind]
  | expression =>
    have htext : line.expression? voc = some line := by simp only [Line.expression?, hkind]
    simp only [ofLine, hkind, hcalculate htext]
  | declaration =>
    simp only [ofLine, hkind, ofDeclaration]
    cases hparse : Declaration.parse voc.isReserved line with
    | error fault => rfl
    | ok declaration =>
      have htext : line.expression? voc = some declaration.expression := by
        simp only [Line.expression?, Line.declaration?, hkind, hparse, Except.toOption,
          Option.map_some]
      simp only [hcalculate htext]

/-- A line binds no other name than the one that it declares. -/
theorem Outcome.declaresAny_of_binding? {line : Line} {binding : Binding} {names : List String}
    (h : (ofLine voc scope line).binding? = some binding) (hname : binding.name ∈ names) :
    line.declaresAny voc names = true := by
  cases hout : ofLine voc scope line with
  | declared name value =>
    rw [hout] at h
    cases h
    obtain ⟨hkind, declaration, hparse, rfl, -⟩ := ofLine_eq_declared_iff.mp hout
    simp only [Line.declaresAny, Line.declaration?, hkind, hparse, Except.toOption, Option.any_some]
    exact List.contains_iff_mem.mpr hname
  | _ =>
    rw [hout] at h
    cases h

end

/-! ## Documents -/

namespace Sheet

variable {voc : Vocabulary} {names : List String} {lines lines' : List Line} {line : Line}

/-- A line that declares none of some names does not change their values. -/
theorem agreeOn_scopeBelow_of_not_declaresAny (h : line.declaresAny voc names = false) :
    (scopeBelow voc (lines ++ [line])).AgreeOn names (scopeBelow voc lines) := by
  intro name hname
  have hother : (Outcome.ofLine voc (scopeBelow voc lines) line).binding?.filter
      (fun binding ↦ binding.name = name) = none := by
    refine Option.filter_eq_none_iff.mpr fun binding hbinding heq ↦ ?_
    rw [decide_eq_true_eq] at heq
    have hdeclares := Outcome.declaresAny_of_binding? hbinding (heq ▸ hname)
    rw [h] at hdeclares
    cases hdeclares
  rw [lookup?_scopeBelow_concat, hother, Option.map_none, Option.none_or]

/-- A line that computes with some names only keeps them at values that agree. -/
theorem agreeOn_scopeBelow_concat (hwords : ∀ name ∈ line.words voc, name ∈ names)
    (h : (scopeBelow voc lines).AgreeOn names (scopeBelow voc lines')) :
    (scopeBelow voc (lines ++ [line])).AgreeOn names (scopeBelow voc (lines' ++ [line])) := by
  intro name hname
  rw [lookup?_scopeBelow_concat, lookup?_scopeBelow_concat, h name hname,
    Outcome.ofLine_congr (h.mono hwords)]

/-- A set of names is closed under what the lines that declare them compute with. -/
def IsClosed (voc : Vocabulary) (lines : List Line) (names : List String) : Prop :=
  ∀ line ∈ lines, line.declaresAny voc names = true → ∀ name ∈ line.words voc, name ∈ names

instance (voc : Vocabulary) (lines : List Line) (names : List String) :
    Decidable (IsClosed voc lines names) :=
  inferInstanceAs (Decidable (∀ line ∈ lines, line.declaresAny voc names = true →
    ∀ name ∈ line.words voc, name ∈ names))

/-- The names of a closed set have the values that they have in the document of those lines alone
which declare them. -/
theorem agreeOn_scopeBelow_filter (hclosed : IsClosed voc lines names) :
    (scopeBelow voc lines).AgreeOn names
      (scopeBelow voc (lines.filter (Line.declaresAny voc names))) := by
  induction lines using List.reverseRecOn with
  | nil => exact .refl names _
  | append_singleton lines line ih =>
    have ih := ih fun other hother ↦ hclosed other (List.mem_append_left _ hother)
    rw [List.filter_append]
    cases hdeclares : line.declaresAny voc names with
    | false =>
      rw [List.filter_cons_of_neg (by simp [hdeclares]), List.filter_nil, List.append_nil]
      exact (agreeOn_scopeBelow_of_not_declaresAny hdeclares).trans ih
    | true =>
      rw [List.filter_cons_of_pos hdeclares, List.filter_nil]
      exact agreeOn_scopeBelow_concat
        (hclosed line (List.mem_append_right _ (List.mem_singleton_self line)) hdeclares) ih

/-- The names of a closed set have the same values below any two documents that have the same lines
which declare them, in the same order. -/
theorem agreeOn_scopeBelow (hclosed : IsClosed voc lines names)
    (hfilter : lines.filter (Line.declaresAny voc names) =
      lines'.filter (Line.declaresAny voc names)) :
    (scopeBelow voc lines).AgreeOn names (scopeBelow voc lines') := by
  have hclosed' : IsClosed voc lines' names := by
    intro other hother hdeclares
    have hmem : other ∈ lines.filter (Line.declaresAny voc names) :=
      hfilter ▸ List.mem_filter.mpr ⟨hother, hdeclares⟩
    exact hclosed other (List.mem_filter.mp hmem).1 hdeclares
  have h := agreeOn_scopeBelow_filter hclosed
  rw [hfilter] at h
  exact h.trans (agreeOn_scopeBelow_filter hclosed').symm

/-- A line has one outcome in two documents in which its words have the same values, and so in two
documents that have, above the line, the same lines which declare names of a closed set with its
words. -/
theorem getElem?_outcomes_congr (calls calls' : List Call) {i i' : Nat}
    (hline : lines[i]? = some line) (hline' : lines'[i']? = some line) :
    ((∀ name ∈ line.words voc, ∀ value,
        IsDeclaredAbove ((after voc calls).evaluate lines).outcomes i name value ↔
          IsDeclaredAbove ((after voc calls').evaluate lines').outcomes i' name value) →
      ((after voc calls).evaluate lines).outcomes[i]? =
        ((after voc calls').evaluate lines').outcomes[i']?) ∧
    ∀ names, (∀ name ∈ line.words voc, name ∈ names) → IsClosed voc (lines.take i) names →
      (lines.take i).filter (Line.declaresAny voc names) =
        (lines'.take i').filter (Line.declaresAny voc names) →
      ((after voc calls).evaluate lines).outcomes[i]? =
        ((after voc calls').evaluate lines').outcomes[i']? := by
  obtain ⟨hcurrent, hlines⟩ := (Current.after voc calls).evaluate lines
  obtain ⟨hcurrent', hlines'⟩ := (Current.after voc calls').evaluate lines'
  constructor
  · intro hdeclared
    have hagree : (((after voc calls).evaluate lines).bindings.scope i).AgreeOn (line.words voc)
        (((after voc calls').evaluate lines').bindings.scope i') :=
      fun name hname ↦ (hcurrent.lookup?_scope_eq_iff hcurrent').mpr (hdeclared name hname)
    rw [hcurrent.getElem?_outcomes hlines hline, hcurrent'.getElem?_outcomes hlines' hline',
      Outcome.ofLine_congr hagree]
  · intro names hwords hclosed hfilter
    have hagree := (agreeOn_scopeBelow hclosed hfilter).mono hwords
    rw [hcurrent.getElem?_outcomes_eq hlines hline, hcurrent'.getElem?_outcomes_eq hlines' hline',
      Outcome.ofLine_congr hagree]

/-- A total in a document and in a longer one, which declares other names, also between the lines
that the total depends on. -/
theorem getElem?_outcomes_congr_total :
    let lines := ["dim rate: 2".toList, "dim sum: rate*3".toList, "sum + 1".toList]
    let lines' := ["// rates".toList, "dim tax: 9".toList, "dim rate: 2".toList,
      "dim tax: rate".toList, "dim sum: rate*3".toList, "sum + 1".toList]
    let sheet := (after .standard []).evaluate lines
    let sheet' := (after .standard [.evaluate lines, .reset]).evaluate lines'
    lines[2]? = some "sum + 1".toList ∧ lines'[5]? = some "sum + 1".toList ∧
      (∀ name ∈ Line.words .standard "sum + 1".toList, ∀ value,
        IsDeclaredAbove sheet.outcomes 2 name value ↔
          IsDeclaredAbove sheet'.outcomes 5 name value) ∧
      (∀ name ∈ Line.words .standard "sum + 1".toList, name ∈ ["sum", "rate"]) ∧
      IsClosed .standard (lines.take 2) ["sum", "rate"] ∧
      (lines.take 2).filter (Line.declaresAny .standard ["sum", "rate"]) =
        (lines'.take 5).filter (Line.declaresAny .standard ["sum", "rate"]) ∧
      sheet.outcomes[2]? = sheet'.outcomes[5]? ∧ sheet.outcomes[2]? = some (.value 7) := by
  intro lines lines' sheet sheet'
  have hline : lines[2]? = some "sum + 1".toList := rfl
  have hline' : lines'[5]? = some "sum + 1".toList := rfl
  have hcurrent : Current .standard sheet := ((Current.after .standard _).evaluate lines).1
  have hcurrent' : Current .standard sheet' := ((Current.after .standard _).evaluate lines').1
  have hlookup : ∀ name ∈ Line.words .standard "sum + 1".toList,
      (sheet.bindings.scope 2).lookup? name = (sheet'.bindings.scope 5).lookup? name := by
    decide +kernel
  have hdeclared (name : String) (hname : name ∈ Line.words .standard "sum + 1".toList) :=
    (hcurrent.lookup?_scope_eq_iff hcurrent').mp (hlookup name hname)
  have hwords : ∀ name ∈ Line.words .standard "sum + 1".toList, name ∈ ["sum", "rate"] := by
    decide +kernel
  have hclosed : IsClosed .standard (lines.take 2) ["sum", "rate"] := by decide +kernel
  have hfilter : (lines.take 2).filter (Line.declaresAny .standard ["sum", "rate"]) =
      (lines'.take 5).filter (Line.declaresAny .standard ["sum", "rate"]) := by decide +kernel
  have hvalue : sheet.outcomes[2]? = some (.value 7) := by decide +kernel
  obtain ⟨hsame, -⟩ := getElem?_outcomes_congr [] [.evaluate lines, .reset] hline hline'
  exact ⟨hline, hline', hdeclared, hwords, hclosed, hfilter, hsame hdeclared, hvalue⟩

/-- The names that a line itself computes with are no closed set: an edit of a line that declares
none of them changes the outcome, through a line between the two. -/
theorem getElem?_outcomes_ne_through_declaration :
    let lines := ["dim a: 1".toList, "dim b: a".toList, "b".toList]
    let lines' := ["dim a: 2".toList, "dim b: a".toList, "b".toList]
    let outcomes := ((new .standard).evaluate lines).outcomes
    let outcomes' := ((new .standard).evaluate lines').outcomes
    lines.drop 1 = lines'.drop 1 ∧ Line.words .standard "b".toList = ["b"] ∧
      outcomes[0]? = some (.declared "a" 1) ∧ outcomes'[0]? = some (.declared "a" 2) ∧
      outcomes[2]? = some (.value 1) ∧ outcomes'[2]? = some (.value 2) ∧
      outcomes[2]? ≠ outcomes'[2]? := by
  decide +kernel

end Sheet

end Reckoner
