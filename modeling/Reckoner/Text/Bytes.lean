import Reckoner.Text.Line

/-!
# Positions of bytes

A text is stored as bytes, of which a character takes one to four. What is cut out of it, put into
it or taken from it is given by positions of bytes, and that fails inside a character. The places
that are counted in characters have to be turned into positions of bytes first.
-/

namespace Reckoner

/-- The text between two positions of bytes. There is none if they are in the wrong order, or if one
of them is inside a character or behind the last. -/
def slice? (text : String) (start stop : Nat) : Option String :=
  if h : start ≤ stop ∧ String.Pos.Raw.IsValid text ⟨start⟩ ∧
      String.Pos.Raw.IsValid text ⟨stop⟩ then
    some (text.extract (text.pos ⟨start⟩ h.2.1) (text.pos ⟨stop⟩ h.2.2))
  else none

/-- Characters, each with the number of bytes before it, of which some are before the first. -/
def indexed (before : Nat) : List Char → List (Nat × Char)
  | [] => []
  | c :: rest => (before, c) :: indexed (before + c.utf8Size) rest

/-- The number of bytes before a character of a text, or of all if there is no such character. -/
def byteAt (text : String) (index : Nat) : Nat :=
  (indexed 0 text.toList)[index]?.elim text.utf8ByteSize Prod.fst

/-- A text cut in two. -/
def cut? (text : String) (position : Nat) : Option (String × String) := do
  let front ← slice? text 0 position
  let back ← slice? text position text.utf8ByteSize
  return (front, back)

/-- A text with one character more. -/
def insertAt? (text : String) (position : Nat) (c : Char) : Option String := do
  let (front, back) ← cut? text position
  return front ++ String.singleton c ++ back

/-- A text without the character that begins at a position. At its end there is none. -/
def removeAt? (text : String) (position : Nat) : Option String := do
  let (front, back) ← cut? text position
  match back.toList with
  | [] => none
  | _ :: rest => return front ++ String.ofList rest

/-! ## Cutting between characters -/

/-- The middle of a text is cut out where the parts around it end and begin. -/
theorem slice?_append (front middle back : String) :
    slice? (front ++ middle ++ back) front.utf8ByteSize (front ++ middle).utf8ByteSize =
      some middle := by
  have hstart : String.Pos.Raw.IsValid (front ++ middle ++ back) ⟨front.utf8ByteSize⟩ :=
    String.Pos.Raw.isValid_iff_exists_append.mpr ⟨front, middle ++ back, String.append_assoc, rfl⟩
  have hstop : String.Pos.Raw.IsValid (front ++ middle ++ back) ⟨(front ++ middle).utf8ByteSize⟩ :=
    String.Pos.Raw.isValid_iff_exists_append.mpr ⟨front ++ middle, back, rfl, rfl⟩
  have hle : front.utf8ByteSize ≤ (front ++ middle).utf8ByteSize := by
    rw [String.utf8ByteSize_append]
    exact Nat.le_add_right _ _
  have hbytes : (front ++ middle ++ back).toByteArray =
      front.toByteArray ++ (middle.toByteArray ++ back.toByteArray) := by
    rw [String.append_assoc, String.toByteArray_append, String.toByteArray_append]
  rw [slice?, dif_pos ⟨hle, hstart, hstop⟩, Option.some.injEq, ← String.toByteArray_inj]
  calc ((front ++ middle ++ back).extract _ _).toByteArray
      = (front.toByteArray ++ (middle.toByteArray ++ back.toByteArray)).extract
          (front.toByteArray.size + 0) (front.toByteArray.size + middle.toByteArray.size) := by
        rw [String.toByteArray_extract, hbytes]
        simp only [String.offset_pos, String.utf8ByteSize_append, String.size_toByteArray,
          Nat.add_zero]
    _ = middle.toByteArray := by
        rw [ByteArray.extract_append_size_add, ByteArray.extract_append_eq_left rfl]

theorem map_snd_indexed (before : Nat) (line : Line) :
    (indexed before line).map Prod.snd = line := by
  induction line generalizing before with
  | nil => rfl
  | cons c rest ih => rw [indexed, List.map_cons, ih]

/-- Before a character are the bytes of the characters before it. -/
theorem getElem?_indexed (before : Nat) (chars : Line) (index : Nat) :
    (indexed before chars)[index]? =
      chars[index]?.map fun c ↦ (before + (String.ofList (chars.take index)).utf8ByteSize, c) := by
  induction chars generalizing before index with
  | nil => rfl
  | cons c rest ih =>
    cases index with
    | zero => simp [indexed]
    | succ index =>
      have hsize : (String.ofList (c :: rest.take index)).utf8ByteSize =
          c.utf8Size + (String.ofList (rest.take index)).utf8ByteSize := by
        rw [String.ofList_cons, String.utf8ByteSize_append, String.utf8ByteSize_singleton]
      simp only [indexed, List.getElem?_cons_succ, ih, List.take_succ_cons, hsize, Nat.add_assoc]

theorem byteAt_ofList (chars : Line) (index : Nat) :
    byteAt (String.ofList chars) index = (String.ofList (chars.take index)).utf8ByteSize := by
  rw [byteAt, String.toList_ofList, getElem?_indexed]
  cases hc : chars[index]? with
  | none =>
    rw [List.take_of_length_le (List.getElem?_eq_none_iff.mp hc)]
    rfl
  | some c => simp

/-- At the bytes before two characters the characters between them are cut out. -/
theorem slice?_byteAt (line : Line) {start stop : Nat} (h : start ≤ stop) :
    slice? (String.ofList line) (byteAt (String.ofList line) start)
      (byteAt (String.ofList line) stop) = some (String.ofList ((line.take stop).drop start)) := by
  have htake : line.take start ++ (line.take stop).drop start = line.take stop := by
    rw [← Nat.min_eq_left h, ← List.take_take, Nat.min_eq_left h, List.take_append_drop]
  have hline : String.ofList line = String.ofList (line.take start) ++
      String.ofList ((line.take stop).drop start) ++ String.ofList (line.drop stop) := by
    rw [← String.ofList_append, ← String.ofList_append, htake, List.take_append_drop]
  rw [byteAt_ofList, byteAt_ofList, ← htake, String.ofList_append, hline, htake]
  exact slice?_append _ _ _

/-- From the bytes before a character on, that character and all behind it are cut out. -/
theorem slice?_byteAt_end (line : Line) {start : Nat} (h : start ≤ line.length) :
    slice? (String.ofList line) (byteAt (String.ofList line) start)
      (String.ofList line).utf8ByteSize = some (String.ofList (line.drop start)) := by
  have hslice := slice?_byteAt line h
  rwa [byteAt_ofList line line.length, List.take_length] at hslice

/-- A text is cut behind its first characters. -/
theorem cut?_byteAt (front back : Line) :
    cut? (String.ofList (front ++ back)) (byteAt (String.ofList (front ++ back)) front.length) =
      some (String.ofList front, String.ofList back) := by
  have hle : front.length ≤ (front ++ back).length := by simp
  have hstart : byteAt (String.ofList (front ++ back)) 0 = 0 := byteAt_ofList _ 0
  have hfront := slice?_byteAt (front ++ back) (Nat.zero_le front.length)
  have hback := slice?_byteAt_end (front ++ back) hle
  rw [hstart, List.take_left, List.drop_zero] at hfront
  rw [List.drop_left] at hback
  rw [cut?, hfront, hback]
  rfl

/-- A character is put in behind the first ones. -/
theorem insertAt?_byteAt (front back : Line) (c : Char) :
    insertAt? (String.ofList (front ++ back)) (byteAt (String.ofList (front ++ back)) front.length)
      c = some (String.ofList (front ++ c :: back)) := by
  have hparts : String.ofList (front ++ c :: back) =
      String.ofList front ++ String.singleton c ++ String.ofList back := by
    rw [String.ofList_append, String.ofList_cons, String.append_assoc]
  rw [insertAt?, cut?_byteAt, hparts]
  rfl

/-- The character behind the first ones is taken out. -/
theorem removeAt?_byteAt (front back : Line) (c : Char) :
    removeAt? (String.ofList (front ++ c :: back))
      (byteAt (String.ofList (front ++ c :: back)) front.length) =
        some (String.ofList (front ++ back)) := by
  have hback : (String.ofList (c :: back)).toList = c :: back := String.toList_ofList
  rw [removeAt?, cut?_byteAt, String.ofList_append]
  simp only [Option.bind_eq_bind, Option.bind_some, hback]
  rfl

end Reckoner
