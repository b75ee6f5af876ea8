import Reckoner.Proofs.Declaration.Form
import Reckoner.Text.Bytes

/-!
# Taking a declaration apart by bytes

A text is stored as bytes, of which a character takes one to four, and is cut at positions of bytes.
That is possible only between characters. A declaration is looked for by positions of characters,
for each of which the number of bytes before it is known, and its name and its expression are cut
out of the text at these. No cut fails, whatever the line, and what is cut out are the characters
that were looked for.
-/

namespace Reckoner

namespace Declaration

/-- Take a declaration apart by cutting the bytes of its line. There is no result if a cut fails. -/
def parseBytes (isReserved : String → Bool) (text : String) :
    Option (Except (Located DeclarationFault) Declaration) :=
  let chars := indexed 0 text.toList
  let start := keywordLength + 1 +
    ((chars.drop (keywordLength + 1)).takeWhile (·.2 = ' ')).length
  match (chars.drop start).findIdx? (·.2 = ':') with
  | none => some (.error ⟨.missingColon, min start chars.length, chars.length⟩)
  | some distance => do
    let colon := start + distance
    let front ← slice? text (byteAt text start) (byteAt text colon)
    let name := trimSpaces front.toList
    if name.isEmpty || !name.all isNameChar then
      some (.error ⟨.invalidIdentifier, start, colon + 1⟩)
    else if isReserved (String.ofList name) then
      some (.error ⟨.reserved, start, colon + 1⟩)
    else do
      let expression ← slice? text (byteAt text (colon + 1)) text.utf8ByteSize
      some (.ok ⟨String.ofList name, ⟨start, start + name.length⟩, expression.toList, colon + 1⟩)

/-- What stands in front of the first colon, and what stands behind it, is cut out. -/
theorem slice?_of_body {line front expression : Line}
    (hbody : body line = front ++ ':' :: expression) :
    let text := String.ofList line
    let colon := nameStart line + front.length
    slice? text (byteAt text (nameStart line)) (byteAt text colon) =
        some (String.ofList front) ∧
      slice? text (byteAt text (colon + 1)) text.utf8ByteSize =
        some (String.ofList expression) := by
  intro text colon
  have hend : colon + 1 ≤ line.length := by
    have hsum := nameStart_add_length_body line
    rw [hbody, List.length_append, List.length_cons] at hsum
    have hfour : 4 ≤ nameStart line := Nat.le_add_right _ _
    omega
  have hfront : (line.take colon).drop (nameStart line) = front := by
    rw [List.drop_take, drop_nameStart, Nat.add_sub_cancel_left, hbody, List.take_left]
  have hexpression : line.drop (colon + 1) = expression := by
    rw [Nat.add_assoc, ← List.drop_drop, drop_nameStart, hbody, ← List.drop_drop, List.drop_left]
    rfl
  constructor
  · rw [slice?_byteAt line (Nat.le_add_right _ _), hfront]
  · rw [slice?_byteAt_end line hend, hexpression]

/-- Every line can be taken apart by its bytes, and that comes to the same as by its characters. -/
theorem parseBytes_ofList (isReserved : String → Bool) (line : Line) :
    parseBytes isReserved (String.ofList line) = some (parse isReserved line) := by
  have hlength : (indexed 0 line).length = line.length := by
    rw [← List.length_map Prod.snd, map_snd_indexed]
  have hdrop (n : Nat) : line.drop n = ((indexed 0 line).drop n).map Prod.snd := by
    rw [List.map_drop, map_snd_indexed]
  have hstart : keywordLength + 1 +
      (((indexed 0 line).drop (keywordLength + 1)).takeWhile (·.2 = ' ')).length =
        nameStart line := by
    rw [nameStart, hdrop, List.takeWhile_map, List.length_map]
    rfl
  have hcolon : ((indexed 0 line).drop (nameStart line)).findIdx? (·.2 = ':') =
      (body line).findIdx? (· = ':') := by
    rw [← drop_nameStart, hdrop, List.findIdx?_map]
    rfl
  have hnone {rest : Line} (h : ':' ∉ rest) : rest.findIdx? (· = ':') = none :=
    List.findIdx?_eq_none_iff.mpr fun c hc ↦ decide_eq_false fun heq ↦ h (heq ▸ hc)
  rw [parseBytes]
  dsimp only
  rw [String.toList_ofList, hstart, hcolon, hlength]
  by_cases hmem : ':' ∈ body line
  · obtain ⟨front, expression, hbody, hfront⟩ := List.eq_append_cons_of_mem hmem
    have hfound : (body line).findIdx? (· = ':') = some front.length := by
      rw [hbody, List.findIdx?_append, hnone hfront]
      simp [List.findIdx?_cons]
    obtain ⟨hname, hexpression⟩ := slice?_of_body hbody
    rw [hfound, parse_of_body hbody hfront]
    simp only [hname, hexpression, Option.bind_eq_bind, Option.bind_some, String.toList_ofList]
    split
    · rfl
    · split <;> rfl
  · rw [hnone hmem, parse_of_notMem hmem]

/-! ## What taking a line apart comes to -/

/-- Taking a line apart tells lines in the form from all others, gives what they are made of, says
what is wrong with the others and where, and can be done by bytes. -/
structure TakesApart (isReserved : String → Bool) (line : Line) : Prop where
  /-- A line is taken apart exactly if it is made of parts with a free name, and into these. -/
  eq_ok_iff : ∀ declaration, parse isReserved line = .ok declaration ↔
    ∃ parts : Parts, parts.text = line ∧ isReserved parts.name = false ∧
      parts.declaration = declaration
  missingColon_iff : (∃ span, parse isReserved line = .error ⟨.missingColon, span⟩) ↔
    ':' ∉ body line
  reserved_iff : (∃ span, parse isReserved line = .error ⟨.reserved, span⟩) ↔
    ∃ parts : Parts, parts.text = line ∧ isReserved parts.name = true
  invalidIdentifier_iff : (∃ span, parse isReserved line = .error ⟨.invalidIdentifier, span⟩) ↔
    ':' ∈ body line ∧ ¬∃ parts : Parts, parts.text = line
  span_le : ∀ fault, parse isReserved line = .error fault →
    fault.span.start ≤ fault.span.stop ∧ fault.span.stop ≤ line.length
  /-- No cut between bytes fails. -/
  bytes_eq : parseBytes isReserved (String.ofList line) = some (parse isReserved line)

/-- Every line is taken apart in this way, whatever it begins with and whatever names are
reserved. -/
theorem takesApart (isReserved : String → Bool) (line : Line) : TakesApart isReserved line where
  eq_ok_iff _ := parse_eq_ok_iff
  missingColon_iff := exists_parse_eq_missingColon_iff
  reserved_iff := exists_parse_eq_reserved_iff
  invalidIdentifier_iff := exists_parse_eq_invalidIdentifier_iff
  span_le _ h := ⟨(span_of_parse_eq_error h).1, (span_of_parse_eq_error h).2.1⟩
  bytes_eq := parseBytes_ofList isReserved line

end Declaration

end Reckoner
