import Reckoner.Proofs.Sheet.Locality
import Reckoner.Proofs.Token.Runs
import Reckoner.Proofs.Vocabulary.Extension
import Reckoner.Vocabulary.Standard

/-!
# Referring to a variable

A line that consists of a name reads as one word, unless some character of the name is an operator.
Neither an operator nor a constant has a name that could be declared, so the word means the
variable.

A name that is declared is checked against the operators that are words, and not against those that
are one character. A vocabulary may have a letter or an underscore as an operator; then names with
that character can be declared, and the line that is to refer to them falls into several tokens. The
standard vocabulary has no such operator.
-/

namespace Reckoner

/-! ## A name as a line -/

/-- The characters of names are not reserved. -/
theorem isReservedChar_eq_false_of_isName {name : String} (hname : Declaration.IsName name)
    {c : Char} (hc : c ∈ name.toList) : isReservedChar c = false := by
  rcases hname.2 c hc with h | rfl
  · change (decide ('A'.val ≤ c.val ∧ c.val ≤ 'Z'.val) ||
      decide ('a'.val ≤ c.val) && decide (c.val ≤ 'z'.val)) = true at h
    simp only [Bool.or_eq_true, Bool.and_eq_true, decide_eq_true_eq,
      UInt32.le_iff_toNat_le] at h
    have hcode : (65 ≤ c.toNat ∧ c.toNat ≤ 90) ∨ (97 ≤ c.toNat ∧ c.toNat ≤ 122) := h
    have hne {d : Char} (hd : d.toNat < 65) : c ≠ d := by
      rintro rfl
      omega
    refine isReservedChar_eq_false_iff.mpr
      ⟨?_, ?_, hne (by decide), hne (by decide), hne (by decide), hne (by decide)⟩
    · simp only [isBlank, blankRanges, List.any_cons, List.any_nil, Bool.or_false,
        Bool.or_eq_false_iff, Bool.and_eq_false_iff, decide_eq_false_iff_not]
      omega
    · refine Bool.eq_false_iff.mpr fun hdigit ↦ ?_
      simp only [Char.isDigit, Bool.and_eq_true, decide_eq_true_eq,
        UInt32.le_iff_toNat_le] at hdigit
      have hdigits : c.toNat ≤ 57 := hdigit.2
      omega
  · decide

namespace Line

variable {line : Line}

/-- Nothing is trimmed from a line without blanks. -/
theorem trimStart_eq_self (h : ∀ c ∈ line, isBlank c = false) : line.trimStart = line := by
  cases line with
  | nil => rfl
  | cons c rest =>
    rw [trimStart, List.dropWhile_cons_of_neg (by simp [h c List.mem_cons_self])]

theorem trimEnd_eq_self (h : ∀ c ∈ line, isBlank c = false) : line.trimEnd = line := by
  have hreverse : trimStart line.reverse = line.reverse :=
    trimStart_eq_self fun c hc ↦ h c (List.mem_reverse.mp hc)
  rw [trimStart] at hreverse
  rw [trimEnd, hreverse, List.reverse_reverse]

end Line

/-- A line that is a name is an expression. -/
theorem LineKind.of_isName {name : String} (hname : Declaration.IsName name) :
    LineKind.of name.toList = .expression := by
  have hreserved (c : Char) (hc : c ∈ name.toList) := isReservedChar_eq_false_of_isName hname hc
  have hblank : ∀ c ∈ name.toList, isBlank c = false :=
    fun c hc ↦ (isReservedChar_eq_false_iff.mp (hreserved c hc)).1
  have habsent {c : Char} {l : List Char} (hc : c ∈ l) (h : l <+: name.toList) : c ∈ name.toList :=
    h.subset hc
  rw [of, Line.trim, Line.trimStart_eq_self hblank, Line.trimEnd_eq_self hblank, if_neg, if_neg,
    if_neg]
  · -- A space stands in both of the ways in which a declaration begins.
    intro hhead
    simp only [Declaration.isHeadOf, Declaration.heads, List.any_cons, List.any_nil, Bool.or_false,
      Bool.or_eq_true, List.isPrefixOf_iff_prefix] at hhead
    have hspace : ' ' ∈ name.toList := by
      rcases hhead with h | h <;> exact habsent (by decide) h
    exact absurd (hblank ' ' hspace) (by decide)
  · rw [List.isPrefixOf_iff_prefix]
    intro hslashes
    rcases hname.2 '/' (habsent (by decide) hslashes) with h | h <;> exact absurd h (by decide)
  · rw [List.isEmpty_iff, String.toList_eq_nil_iff]
    exact hname.1

/-! ## A name as a token -/

namespace Token

variable {voc : Vocabulary} {name : String}

/-- A character that is an operator is a token, wherever it stands on a line. -/
theorem exists_sign_of_mem {op : Operator} {c : Char} (hsign : voc.sign? c = some op)
    {line : List Char} (hc : c ∈ line) (index : Nat) (current : OpenToken) :
    ∃ token ∈ scan voc index current line, token.kind = .sign op := by
  induction line generalizing index current with
  | nil => cases hc
  | cons d rest ih =>
    rw [scan]
    rcases List.mem_cons.mp hc with rfl | hc
    · have huse : CharUse.of voc c = .sign op := (CharUse.Is.sign hsign).of_eq
      refine ⟨⟨.sign op, .single index⟩, List.mem_append_left _ ?_, rfl⟩
      simp [OpenToken.step.eq_def, huse]
    · obtain ⟨token, htoken, hkind⟩ := ih hc (index + 1) (current.step voc index d).2
      exact ⟨token, List.mem_append_right _ htoken, hkind⟩

/-- A name without a character that is an operator is one word. -/
theorem ofLine_name (hname : Declaration.IsName name)
    (hsigns : ∀ c ∈ name.toList, voc.sign? c = none) :
    ofLine voc name.toList = [⟨.word name, ⟨0, name.toList.length⟩⟩] := by
  have hchars : ∀ c ∈ name.toList, voc.isWordChar c = true := fun c hc ↦
    Vocabulary.isWordChar_iff.mpr (.inl (CharUse.Is.letter
      (isReservedChar_eq_false_of_isName hname hc) (hsigns c hc)).of_eq)
  cases hlist : name.toList with
  | nil => exact absurd (String.toList_eq_nil_iff.mp hlist) hname.1
  | cons c run =>
    rw [hlist] at hchars
    have hrun : ∀ d ∈ run, voc.isWordChar d = true :=
      fun d hd ↦ hchars d (List.mem_cons_of_mem c hd)
    have hstops : Stops voc.isWordChar [] := fun _ h ↦ nomatch h
    have hscan : scan voc 0 .none (c :: (run ++ [])) = _ :=
      scan_name (hchars c List.mem_cons_self) hrun hstops
    rw [List.append_nil, ← hlist, String.ofList_toList] at hscan
    rw [ofLine, ← hlist, hscan, hlist]
    simp [scan, OpenToken.tokens, Nat.add_comm]

/-- A name is one word exactly if no character of it is an operator. -/
theorem ofLine_name_iff (hname : Declaration.IsName name) :
    ofLine voc name.toList = [⟨.word name, ⟨0, name.toList.length⟩⟩] ↔
      ∀ c ∈ name.toList, voc.sign? c = none := by
  refine ⟨fun h c hc ↦ Option.eq_none_iff_forall_ne_some.mpr fun op hsign ↦ ?_,
    ofLine_name hname⟩
  obtain ⟨token, htoken, hkind⟩ := exists_sign_of_mem hsign hc 0 .none
  rw [← ofLine.eq_def, h, List.mem_singleton] at htoken
  rw [htoken] at hkind
  cases hkind

end Token

/-! ## A word as an expression -/

namespace Vocabulary

variable {voc : Vocabulary} {scope : Scope} {name : String} {value : Float}

/-- No operator of the standard vocabulary is a character of a name. -/
theorem sign?_standard_eq_none {c : Char} (hc : c.isAlpha = true ∨ c = '_') :
    standard.sign? c = none := by
  have hsymbols : (standard.instantChars.all fun d ↦ !d.isAlpha && d != '_') = true := by
    decide +kernel
  refine Option.eq_none_iff_forall_ne_some.mpr fun op hsign ↦ ?_
  have hmem : c ∈ standard.instantChars := List.mem_filterMap.mpr (exists_symbol_of_sign? hsign)
  have hsymbol := List.all_eq_true.mp hsymbols c hmem
  rw [Bool.and_eq_true, Bool.not_eq_true', bne_iff_ne] at hsymbol
  obtain ⟨halpha, hne⟩ := hsymbol
  rcases hc with hc | hc
  · rw [halpha] at hc
    cases hc
  · exact hne hc

/-- No operator that is a word has a free name. -/
theorem named?_eq_none_of_isReserved (h : voc.isReserved name = false) :
    voc.named? name = none := by
  simp only [isReserved, Bool.or_eq_false_iff, Option.isSome_eq_false_iff,
    Option.isNone_iff_eq_none] at h
  simp [named?, h.1.1.1, h.1.1.2]

/-- No constant has a free name. -/
theorem constant?_eq_none_of_isReserved (h : voc.isReserved name = false) :
    constant? name = none := by
  simp only [isReserved, Bool.or_eq_false_iff, Option.isSome_eq_false_iff,
    Option.isNone_iff_eq_none] at h
  exact h.2

/-- The value of a name that is free is that of the variable. -/
theorem calculate_name (hname : Declaration.IsName name) (hfree : voc.isReserved name = false)
    (hsigns : ∀ c ∈ name.toList, voc.sign? c = none) (hlookup : scope.lookup? name = some value)
    (hfinite : value.isFinite = true) : voc.calculate scope name.toList = .ok value := by
  have hvalue : scope.value? name = some value := by
    rw [Scope.value?, constant?_eq_none_of_isReserved hfree, hlookup]
    rfl
  have hitem (span : Span) : Token.item voc scope ⟨.word name, span⟩ = .ok (.value value) := by
    simp only [Token.item, named?_eq_none_of_isReserved hfree, hvalue]
  have hparse : voc.parse scope name.toList =
      .ok (.literal value ⟨0, name.toList.length⟩) := by
    rw [parse, parseWithin, Token.ofLine_name hname hsigns]
    simp only [Stacks.read, bracketFault?, hitem, ok_bind]
    rfl
  rw [calculate, hparse]
  change (settle (.ok value) _).mapError _ = _
  rw [settle, if_pos hfinite]
  rfl

end Vocabulary

/-- What a line that consists of a variable's name comes to. -/
theorem Outcome.ofLine_name {voc : Vocabulary} {scope : Scope} {name : String} {value : Float}
    (hname : Declaration.IsName name) (hfree : voc.isReserved name = false)
    (hsigns : ∀ c ∈ name.toList, voc.sign? c = none) (hlookup : scope.lookup? name = some value)
    (hfinite : value.isFinite = true) : ofLine voc scope name.toList = .value value := by
  have hblank : ∀ c ∈ name.toList, isBlank c = false := fun c hc ↦
    (isReservedChar_eq_false_iff.mp (isReservedChar_eq_false_of_isName hname hc)).1
  rw [ofLine, LineKind.of_isName hname]
  dsimp only
  rw [Line.trimEnd_eq_self hblank, Vocabulary.calculate_name hname hfree hsigns hlookup hfinite]
  rfl

/-! ## Declaring and referring -/

namespace Sheet

variable {voc : Vocabulary} {sheet : Sheet} {lines : List Line} {name : String} {value : Float}

/-- A variable that the last line declares has its value on the line below. -/
theorem lookup?_scopeBelow_of_declared
    (h : ((new voc).evaluate lines).outcomes.getLast? = some (.declared name value)) :
    (scopeBelow voc lines).lookup? name = some value := by
  obtain ⟨hcurrent, hlines⟩ := (Current.new voc).evaluate lines
  have hlength : ((new voc).evaluate lines).outcomes.length = lines.length :=
    (hcurrent.computes voc lines hlines).length_eq
  rw [List.getLast?_eq_getElem?, hlength] at h
  have hpos : lines.length - 1 < lines.length := by
    have hlt := (List.getElem?_eq_some_iff.mp h).1
    omega
  exact hcurrent.lookup?_scope_eq_some_iff.mpr
    ⟨lines.length - 1, hpos, h, fun k hk hk' ↦ by omega⟩

/-- A line with the name of the variable that the last line declared has its value. -/
theorem Current.getLast?_outcomes_name (h : Current voc sheet)
    (hlines : sheet.rows.map Row.line = lines)
    (hlast : sheet.outcomes.getLast? = some (.declared name value))
    (hsigns : ∀ c ∈ name.toList, voc.sign? c = none) :
    (sheet.evaluate (lines ++ [name.toList])).outcomes.getLast? = some (.value value) := by
  obtain ⟨hnew, hnewLines⟩ := (Current.new voc).evaluate lines
  rw [(h.unique hnew (hlines.trans hnewLines.symm)).1] at hlast
  obtain ⟨hafter, hafterLines⟩ := h.evaluate (lines ++ [name.toList])
  obtain ⟨hconcat, hconcatLines⟩ := (Current.new voc).evaluate (lines ++ [name.toList])
  obtain ⟨i, hi⟩ := List.mem_iff_getElem?.mp (List.mem_of_getLast? hlast)
  obtain ⟨hfinite, hname, hfree⟩ := (hnew.computes voc lines hnewLines).of_declared i name value hi
  rw [(hafter.unique hconcat (hafterLines.trans hconcatLines.symm)).1, outcomes_concat,
    List.getLast?_concat, Outcome.ofLine_name hname hfree hsigns
      (lookup?_scopeBelow_of_declared hlast) hfinite]

/-- In the standard vocabulary every variable that the last line declares can be referred to. -/
theorem Current.getLast?_outcomes_name_standard (h : Current .standard sheet)
    (hlines : sheet.rows.map Row.line = lines)
    (hlast : sheet.outcomes.getLast? = some (.declared name value)) :
    (sheet.evaluate (lines ++ [name.toList])).outcomes.getLast? = some (.value value) := by
  obtain ⟨i, hi⟩ := List.mem_iff_getElem?.mp (List.mem_of_getLast? hlast)
  obtain ⟨-, hname, -⟩ := (h.computes .standard lines hlines).of_declared i name value hi
  exact h.getLast?_outcomes_name hlines hlast fun c hc ↦
    Vocabulary.sign?_standard_eq_none (hname.2 c hc)

/-- A variable that the last line of a document declares can be referred to on the line below, in
any vocabulary that has no character of its name as an operator. -/
theorem getLast?_outcomes_concat_name (calls : List Call)
    (hlast : ((after voc calls).evaluate lines).outcomes.getLast? = some (.declared name value))
    (hsigns : ∀ c ∈ name.toList, voc.sign? c = none) :
    (((after voc calls).evaluate lines).evaluate (lines ++ [name.toList])).outcomes.getLast? =
      some (.value value) := by
  obtain ⟨hcurrent, hlines⟩ := (Current.after voc calls).evaluate lines
  exact hcurrent.getLast?_outcomes_name hlines hlast hsigns

/-- Another history, and a name of several words. -/
theorem getLast?_outcomes_concat_name_loan :
    let sheet := (after .standard [.evaluate ["loan_sum".toList]]).evaluate
      ["dim rate: 5%".toList, "dim loan_sum: 200*rate".toList]
    sheet.outcomes.getLast? = some (.declared "loan_sum" 10) ∧
      (∀ c ∈ "loan_sum".toList, Vocabulary.standard.sign? c = none) ∧
      (sheet.evaluate (["dim rate: 5%".toList, "dim loan_sum: 200*rate".toList] ++
        ["loan_sum".toList])).outcomes.getLast? = some (.value 10) := by
  intro sheet
  have hlast : sheet.outcomes.getLast? = some (.declared "loan_sum" 10) := by decide +kernel
  have hnone : ("loan_sum".toList.all fun c ↦ (Vocabulary.standard.sign? c).isNone) = true := by
    decide +kernel
  have hsigns (c : Char) (hc : c ∈ "loan_sum".toList) : Vocabulary.standard.sign? c = none :=
    Option.isNone_iff_eq_none.mp (List.all_eq_true.mp hnone c hc)
  exact ⟨hlast, hsigns, getLast?_outcomes_concat_name _ hlast hsigns⟩

/-- With the letter `x` as an operator a variable `x` can be declared, but the line `x` is an
operator without its operand. -/
theorem getLast?_outcomes_concat_name_sign :
    let square : UnaryOperator := ⟨"x", 4, .after, false, Rule.total fun a ↦ a * a⟩
    ∃ voc, (Definitions.standard.addUnary square).build = .ok voc ∧
      ((new voc).evaluate ["dim x: 2".toList]).outcomes.getLast? = some (.declared "x" 2) ∧
      (((new voc).evaluate ["dim x: 2".toList]).evaluate
        (["dim x: 2".toList] ++ ["x".toList])).outcomes.getLast? =
          some (.fault "Invalid Operation" ⟨0, 1⟩) := by
  intro square
  refine ⟨⟨Definitions.standard.addUnary square, by decide +kernel⟩,
    Definitions.build_eq_ok_iff.mpr rfl, ?_, ?_⟩
  · decide +kernel
  · decide +kernel

end Sheet

end Reckoner
