import Mathlib.Data.List.DropRight
import Reckoner.Proofs.Outcome

/-!
# The form of a declaration

A line is written as a declaration if it is four characters, spaces, a name, spaces, a colon and an
expression. A declaration is taken apart from its left, up to the first colon, and then from its
right, where the spaces behind the name are taken off. Both ways lead to the same parts: a line that
is written in the form is taken apart into what it is made of, as long as its name is not reserved,
and a line that is taken apart is written in the form.

Every other line is at fault. The fault is a missing colon exactly if none follows the spaces that
lead, and otherwise the name.
-/

namespace Reckoner.Declaration

/-- What follows the spaces that lead to the name. -/
def body (line : Line) : Line := (line.drop (keywordLength + 1)).dropWhile (· = ' ')

/-- The position at which the name begins, or would begin. -/
def nameStart (line : Line) : Nat :=
  keywordLength + 1 + ((line.drop (keywordLength + 1)).takeWhile (· = ' ')).length

/-- What a line is made of that is written as a declaration. -/
structure Parts where
  /-- The keyword and the space after it, which are not looked at. -/
  head : Line
  /-- The number of spaces in front of the name. -/
  before : Nat
  name : String
  /-- The number of spaces between the name and the colon. -/
  between : Nat
  expression : Line
  length_head : head.length = 4
  isName : IsName name

namespace Parts

/-- The line that is made of the parts. -/
def text (parts : Parts) : Line :=
  parts.head ++ List.replicate parts.before ' ' ++ parts.name.toList ++
    List.replicate parts.between ' ' ++ ':' :: parts.expression

/-- The declaration that has the parts. -/
def declaration (parts : Parts) : Declaration where
  name := parts.name
  nameSpan := ⟨4 + parts.before, 4 + parts.before + parts.name.length⟩
  expression := parts.expression
  offset := 4 + parts.before + parts.name.length + parts.between + 1

end Parts

variable {isReserved : String → Bool} {line : Line}

/-! ## How a declaration begins -/

/-- A line that is a declaration begins like one. -/
theorem take_mem_heads (h : LineKind.of line = .declaration) :
    line.take (keywordLength + 1) ∈ heads := by
  have hhead : isHeadOf line = true := by
    rw [LineKind.of] at h
    split at h
    · cases h
    split at h
    · cases h
    split at h
    · assumption
    · cases h
  obtain ⟨head, hmem, hprefix⟩ := List.any_eq_true.mp hhead
  have hlength : ∀ head ∈ heads, head.length = keywordLength + 1 := by decide
  rw [← hlength head hmem, ← List.prefix_iff_eq_take.mp (List.isPrefixOf_iff_prefix.mp hprefix)]
  exact hmem

/-- A line that is a declaration has the characters that its beginning takes. -/
theorem le_length_of_declaration (h : LineKind.of line = .declaration) :
    keywordLength + 1 ≤ line.length := by
  have hlength : ∀ head ∈ heads, head.length = keywordLength + 1 := by decide
  rw [← hlength _ (take_mem_heads h)]
  exact (List.take_prefix _ _).length_le

/-! ## From the left -/

/-- The spaces in front of the name and what follows them. -/
theorem drop_eq_replicate_append (line : Line) :
    ∃ before, nameStart line = 4 + before ∧
      line.drop 4 = List.replicate before ' ' ++ body line := by
  refine ⟨((line.drop 4).takeWhile (· = ' ')).length, rfl, ?_⟩
  have hspaces : (line.drop 4).takeWhile (· = ' ') =
      List.replicate ((line.drop 4).takeWhile (· = ' ')).length ' ' :=
    List.eq_replicate_of_mem fun c hc ↦ by simpa using List.mem_takeWhile_imp hc
  conv_lhs => rw [← (line.drop 4).takeWhile_append_dropWhile (p := (· = ' ')), hspaces]
  rfl

/-- The spaces that lead end where the name begins. -/
theorem drop_nameStart (line : Line) : line.drop (nameStart line) = body line := by
  obtain ⟨before, hstart, hdrop⟩ := drop_eq_replicate_append line
  rw [hstart, ← List.drop_drop, hdrop, List.drop_left' List.length_replicate]

/-- The name begins behind the characters that are not looked at and the spaces that lead. -/
theorem nameStart_add_length_body (line : Line) :
    nameStart line + (body line).length = max 4 line.length := by
  obtain ⟨before, hstart, hdrop⟩ := drop_eq_replicate_append line
  have hlength := congrArg List.length hdrop
  rw [List.length_drop, List.length_append, List.length_replicate] at hlength
  omega

/-- Without a colon behind the spaces that lead, the colon is missing. -/
theorem parse_of_notMem (h : ':' ∉ body line) :
    parse isReserved line =
      .error ⟨.missingColon, min (nameStart line) line.length, line.length⟩ := by
  have hnil : (body line).dropWhile (· ≠ ':') = [] := by
    rw [List.dropWhile_eq_nil_iff]
    exact fun c hc ↦ decide_eq_true fun heq ↦ h (heq ▸ hc)
  rw [body] at hnil
  rw [parse]
  dsimp only
  rw [hnil]
  rfl

/-- With a colon, what stands in front of the first one decides. -/
theorem parse_of_body {front expression : Line} (hbody : body line = front ++ ':' :: expression)
    (hfront : ':' ∉ front) :
    parse isReserved line =
      if (trimSpaces front).isEmpty || !(trimSpaces front).all isNameChar then
        .error ⟨.invalidIdentifier, nameStart line, nameStart line + front.length + 1⟩
      else if isReserved (String.ofList (trimSpaces front)) then
        .error ⟨.reserved, nameStart line, nameStart line + front.length + 1⟩
      else
        .ok ⟨String.ofList (trimSpaces front),
          ⟨nameStart line, nameStart line + (trimSpaces front).length⟩, expression,
          nameStart line + front.length + 1⟩ := by
  have hbelongs : ∀ c ∈ front, decide (c ≠ ':') = true :=
    fun c hc ↦ decide_eq_true fun heq ↦ hfront (heq ▸ hc)
  have htake : (body line).takeWhile (· ≠ ':') = front := by
    rw [hbody, List.takeWhile_append_of_pos hbelongs, List.takeWhile_cons_of_neg (by simp),
      List.append_nil]
  have hdrop : (body line).dropWhile (· ≠ ':') = ':' :: expression := by
    rw [hbody, List.dropWhile_append_of_pos hbelongs, List.dropWhile_cons_of_neg (by simp)]
  rw [body] at htake hdrop
  rw [parse]
  dsimp only
  rw [htake, hdrop]
  rfl

/-! ## From the right -/

/-- No character of a name is a space or a colon. -/
theorem IsName.ne_of_mem {name : String} (h : IsName name) {c : Char} (hc : c ∈ name.toList) :
    c ≠ ' ' ∧ c ≠ ':' := by
  constructor
  all_goals
    rintro rfl
    rcases h.2 _ hc with h | h <;> exact absurd h (by decide)

/-- A text is itself without the spaces at its end, and these. -/
theorem eq_trimSpaces_append (front : Line) :
    ∃ between, front = trimSpaces front ++ List.replicate between ' ' := by
  refine ⟨(front.rtakeWhile (· = ' ')).length, ?_⟩
  have hspaces : front.rtakeWhile (· = ' ') =
      List.replicate (front.rtakeWhile (· = ' ')).length ' ' :=
    List.eq_replicate_of_mem fun c hc ↦ by simpa using List.mem_rtakeWhile_imp hc
  rw [← hspaces]
  exact List.rdropWhile_append_rtakeWhile.symm

/-- Of a name and spaces behind it the name is left. -/
theorem trimSpaces_append_replicate {name : Line} (hname : ∀ c ∈ name, c ≠ ' ')
    (between : Nat) : trimSpaces (name ++ List.replicate between ' ') = name := by
  rw [trimSpaces, List.reverse_append, List.reverse_replicate,
    List.dropWhile_append_of_pos fun c hc ↦ decide_eq_true (List.eq_of_mem_replicate hc)]
  have hkept : name.reverse.dropWhile (· = ' ') = name.reverse := by
    rw [List.dropWhile_eq_self_iff]
    intro hpos hspace
    exact hname _ (List.mem_reverse.mp (List.getElem_mem hpos)) (of_decide_eq_true hspace)
  rw [hkept, List.reverse_reverse]

/-! ## Lines in the form -/

namespace Parts

variable (parts : Parts)

/-- The line up to its colon. -/
def front : Line :=
  parts.head ++ List.replicate parts.before ' ' ++ parts.name.toList ++
    List.replicate parts.between ' '

theorem text_eq : parts.text = parts.front ++ ':' :: parts.expression := rfl

/-- The expression begins directly behind the colon. -/
theorem length_front : parts.front.length + 1 = parts.declaration.offset := by
  simp only [front, declaration, List.length_append, List.length_replicate,
    String.length_toList, parts.length_head]

theorem length_text :
    parts.text.length = parts.declaration.offset + parts.expression.length := by
  rw [text_eq, List.length_append, List.length_cons, ← length_front]
  omega

/-- No colon is between the beginning of the name and the colon that ends it. -/
theorem notMem_name : ':' ∉ parts.name.toList ++ List.replicate parts.between ' ' := by
  rw [List.mem_append, List.mem_replicate]
  rintro (hname | ⟨-, hspace⟩)
  · exact (parts.isName.ne_of_mem hname).2 rfl
  · exact absurd hspace (by decide)

/-- The colon of a declaration is its first one. -/
theorem notMem_front (h : LineKind.of parts.text = .declaration) : ':' ∉ parts.front := by
  have hhead : ':' ∉ parts.head := by
    have hnone : ∀ head ∈ heads, ':' ∉ head := by decide
    have htake : parts.text.take (keywordLength + 1) = parts.head := by
      simp only [text, List.append_assoc]
      exact List.take_left' parts.length_head
    exact hnone _ (htake ▸ take_mem_heads h)
  have hspaces : ':' ∉ List.replicate parts.before ' ' :=
    fun hmem ↦ absurd (List.eq_of_mem_replicate hmem) (by decide)
  rw [front, List.append_assoc, List.mem_append, List.mem_append]
  exact not_or.mpr ⟨not_or.mpr ⟨hhead, hspaces⟩, parts.notMem_name⟩

/-- The name, the spaces behind it, the colon and the expression. -/
theorem body_text :
    body parts.text = (parts.name.toList ++ List.replicate parts.between ' ') ++
      ':' :: parts.expression := by
  have hdrop : parts.text.drop (keywordLength + 1) = List.replicate parts.before ' ' ++
      (parts.name.toList ++ List.replicate parts.between ' ' ++ ':' :: parts.expression) := by
    simp only [text, List.append_assoc]
    exact List.drop_left' parts.length_head
  rw [body, hdrop,
    List.dropWhile_append_of_pos fun c hc ↦ decide_eq_true (List.eq_of_mem_replicate hc)]
  cases hname : parts.name.toList with
  | nil => exact absurd (String.toList_eq_nil_iff.mp hname) parts.isName.1
  | cons c rest =>
    have hne : c ≠ ' ' := (parts.isName.ne_of_mem (hname ▸ List.mem_cons_self)).1
    simp only [List.cons_append]
    rw [List.dropWhile_cons_of_neg (by simpa using hne)]

theorem nameStart_text : nameStart parts.text = 4 + parts.before := by
  have hlength := nameStart_add_length_body parts.text
  rw [body_text, length_text, declaration] at hlength
  simp only [List.length_append, List.length_replicate, List.length_cons,
    String.length_toList] at hlength
  omega

/-- A line that is written in the form is taken apart into what it is made of, unless its name is
reserved. -/
theorem parse_text :
    parse isReserved parts.text =
      if isReserved parts.name then
        .error ⟨.reserved, parts.declaration.nameSpan.start, parts.declaration.offset⟩
      else .ok parts.declaration := by
  have htrim : trimSpaces (parts.name.toList ++ List.replicate parts.between ' ') =
      parts.name.toList :=
    trimSpaces_append_replicate (fun c hc ↦ (parts.isName.ne_of_mem hc).1) parts.between
  have hvalid : ¬(parts.name.toList.isEmpty || !parts.name.toList.all isNameChar) = true :=
    isName_ofList_iff.mp (String.ofList_toList.symm ▸ parts.isName)
  rw [parse_of_body parts.body_text parts.notMem_name, htrim, if_neg hvalid, nameStart_text,
    String.ofList_toList]
  simp only [declaration, List.length_append, List.length_replicate, String.length_toList,
    Nat.add_assoc]

end Parts

/-- A line with a name in front of its first colon is written in the form. -/
theorem exists_parts {front expression : Line} (hbody : body line = front ++ ':' :: expression)
    (hname : IsName (String.ofList (trimSpaces front))) : ∃ parts : Parts, parts.text = line := by
  obtain ⟨before, -, hdrop⟩ := drop_eq_replicate_append line
  obtain ⟨between, hfront⟩ := eq_trimSpaces_append front
  have hlength : (line.take 4).length = 4 := by
    have hlt := congrArg List.length hdrop
    rw [hbody, List.length_drop, List.length_append, List.length_append, List.length_cons] at hlt
    exact List.length_take_of_le (by omega)
  refine ⟨⟨line.take 4, before, String.ofList (trimSpaces front), between, expression, hlength,
    hname⟩, ?_⟩
  calc line.take 4 ++ List.replicate before ' ' ++ (String.ofList (trimSpaces front)).toList ++
        List.replicate between ' ' ++ ':' :: expression
      = line.take 4 ++ (List.replicate before ' ' ++
          ((trimSpaces front ++ List.replicate between ' ') ++ ':' :: expression)) := by
        simp only [String.toList_ofList, List.append_assoc]
    _ = line.take 4 ++ line.drop 4 := by rw [← hfront, ← hbody, ← hdrop]
    _ = line := List.take_append_drop 4 line

/-- A line with a colon that is not written in the form has a bad name. -/
theorem parse_of_not_parts (hcolon : ':' ∈ body line) (h : ¬∃ parts : Parts, parts.text = line) :
    ∃ stop, parse isReserved line = .error ⟨.invalidIdentifier, nameStart line, stop⟩ ∧
      nameStart line < stop ∧ stop ≤ line.length := by
  obtain ⟨front, expression, hbody, hfront⟩ := List.eq_append_cons_of_mem hcolon
  refine ⟨nameStart line + front.length + 1, ?_, by omega, ?_⟩
  · rw [parse_of_body hbody hfront, if_pos]
    by_contra hvalid
    exact h (exists_parts hbody (isName_ofList_iff.mpr hvalid))
  · have hlength := nameStart_add_length_body line
    rw [hbody, List.length_append, List.length_cons] at hlength
    have hstart : 4 ≤ nameStart line := Nat.le_add_right _ _
    omega

/-! ## All lines -/

/-- A line is written in the form, or has no colon behind the spaces that lead, or has a bad name in
front of its first colon. -/
theorem exists_parts_or (isReserved : String → Bool) (line : Line) :
    (∃ parts : Parts, parts.text = line) ∨
      (':' ∉ body line ∧ parse isReserved line =
        .error ⟨.missingColon, min (nameStart line) line.length, line.length⟩) ∨
      (':' ∈ body line ∧ (¬∃ parts : Parts, parts.text = line) ∧
        ∃ stop, parse isReserved line = .error ⟨.invalidIdentifier, nameStart line, stop⟩ ∧
          nameStart line < stop ∧ stop ≤ line.length) := by
  by_cases hparts : ∃ parts : Parts, parts.text = line
  · exact .inl hparts
  · by_cases hcolon : ':' ∈ body line
    · exact .inr (.inr ⟨hcolon, hparts, parse_of_not_parts hcolon hparts⟩)
    · exact .inr (.inl ⟨hcolon, parse_of_notMem hcolon⟩)

/-- A line is taken apart exactly if it is written in the form with a name that is free, and into
what it is made of. -/
theorem parse_eq_ok_iff {declaration : Declaration} :
    parse isReserved line = .ok declaration ↔ ∃ parts : Parts, parts.text = line ∧
      isReserved parts.name = false ∧ parts.declaration = declaration := by
  constructor
  · intro h
    rcases exists_parts_or isReserved line with
      ⟨parts, rfl⟩ | ⟨-, hparse⟩ | ⟨-, -, stop, hparse, -⟩
    · rw [parts.parse_text] at h
      split at h
      · cases h
      · rename_i hfree
        exact ⟨parts, rfl, Bool.eq_false_iff.mpr hfree, Except.ok.inj h⟩
    · rw [hparse] at h
      cases h
    · rw [hparse] at h
      cases h
  · rintro ⟨parts, rfl, hfree, rfl⟩
    rw [parts.parse_text, if_neg (Bool.eq_false_iff.mp hfree)]

/-- The colon is missing exactly if none follows the spaces that lead. -/
theorem exists_parse_eq_missingColon_iff :
    (∃ span, parse isReserved line = .error ⟨.missingColon, span⟩) ↔ ':' ∉ body line := by
  constructor
  · rintro ⟨span, h⟩
    rcases exists_parts_or isReserved line with
      ⟨parts, rfl⟩ | ⟨hcolon, -⟩ | ⟨-, -, stop, hparse, -⟩
    · rw [parts.parse_text] at h
      split at h <;> cases h
    · exact hcolon
    · rw [hparse] at h
      cases h
  · exact fun hcolon ↦ ⟨_, parse_of_notMem hcolon⟩

/-- The name is reserved exactly if the line is written in the form with such a name. -/
theorem exists_parse_eq_reserved_iff :
    (∃ span, parse isReserved line = .error ⟨.reserved, span⟩) ↔
      ∃ parts : Parts, parts.text = line ∧ isReserved parts.name = true := by
  constructor
  · rintro ⟨span, h⟩
    rcases exists_parts_or isReserved line with
      ⟨parts, rfl⟩ | ⟨-, hparse⟩ | ⟨-, -, stop, hparse, -⟩
    · rw [parts.parse_text] at h
      split at h
      · rename_i hreserved
        exact ⟨parts, rfl, hreserved⟩
      · cases h
    · rw [hparse] at h
      cases h
    · rw [hparse] at h
      cases h
  · rintro ⟨parts, rfl, hreserved⟩
    exact ⟨_, parts.parse_text.trans (if_pos hreserved)⟩

/-- The name is bad exactly if there is a colon but the line is not written in the form. -/
theorem exists_parse_eq_invalidIdentifier_iff :
    (∃ span, parse isReserved line = .error ⟨.invalidIdentifier, span⟩) ↔
      ':' ∈ body line ∧ ¬∃ parts : Parts, parts.text = line := by
  constructor
  · rintro ⟨span, h⟩
    rcases exists_parts_or isReserved line with
      ⟨parts, rfl⟩ | ⟨-, hparse⟩ | ⟨hcolon, hparts, -⟩
    · rw [parts.parse_text] at h
      split at h <;> cases h
    · rw [hparse] at h
      cases h
    · exact ⟨hcolon, hparts⟩
  · rintro ⟨hcolon, hparts⟩
    obtain ⟨stop, hparse, -⟩ := @parse_of_not_parts isReserved line hcolon hparts
    exact ⟨_, hparse⟩

/-- A fault lies on the line, and is about no character only if nothing follows the spaces that
lead. -/
theorem span_of_parse_eq_error {fault : Located DeclarationFault}
    (h : parse isReserved line = .error fault) :
    fault.span.start ≤ fault.span.stop ∧ fault.span.stop ≤ line.length ∧
      (fault.span.start = fault.span.stop → body line = []) := by
  rcases exists_parts_or isReserved line with
    ⟨parts, rfl⟩ | ⟨-, hparse⟩ | ⟨-, -, stop, hparse, hlt, hle⟩
  · rw [parts.parse_text] at h
    split at h
    · cases h
      have hlength := parts.length_text
      simp only [Parts.declaration] at hlength ⊢
      omega
    · cases h
  · rw [hparse] at h
    cases h
    refine ⟨Nat.min_le_right _ _, Nat.le_refl _, fun heq ↦ List.length_eq_zero_iff.mp ?_⟩
    have hlength := nameStart_add_length_body line
    have hstart : 4 ≤ nameStart line := Nat.le_add_right _ _
    have hmin : min (nameStart line) line.length = line.length := heq
    omega
  · rw [hparse] at h
    cases h
    exact ⟨Nat.le_of_lt hlt, hle, fun heq ↦ absurd heq (Nat.ne_of_lt hlt)⟩

end Reckoner.Declaration
