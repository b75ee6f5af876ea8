import Reckoner.Proofs.Expr.Agreement
import Reckoner.Proofs.Expr.Joined
import Reckoner.Vocabulary.Standard

/-!
# An expression is its line, read in order

Read from left to right, an operator before its operand in front of it, one after its operand behind
it and one between two operands between them, an expression gives the operands and operators of its
line, each once and in their order, and between them the operators that are not written. The span of
each part goes from the first to the last of what it was read from.

While a line is read, what the frames hold is the part of the line that was read: the invariant
`Place.Reads`, which each frame keeps when it closes.
-/

namespace Reckoner

/-! ## Lexemes one after the other -/

/-- Whether the item is a bracket. -/
def Item.isBracket : Item → Bool
  | .opening | .closing => true
  | .number _ | .value _ | .operator _ => false

namespace Lexeme

/-- The operands and operators among some lexemes. -/
def unbracketed (lexemes : List Lexeme) : List Lexeme :=
  lexemes.filter fun lexeme ↦ !lexeme.item.isBracket

/-- Lexemes stand one after the other between two positions. Each has a character, except for the
operators that are put in. -/
inductive Ordered : Nat → List Lexeme → Nat → Prop
  | nil {start stop : Nat} (h : start ≤ stop) : Ordered start [] stop
  | written {start stop : Nat} {lexeme : Lexeme} {rest : List Lexeme}
    (hstart : start ≤ lexeme.span.start) (hspan : lexeme.span.start < lexeme.span.stop)
    (h : Ordered lexeme.span.stop rest stop) : Ordered start (lexeme :: rest) stop
  | joint {start stop index : Nat} {op : BinaryOperator} {rest : List Lexeme}
    (hstart : start ≤ index) (h : Ordered index rest stop) :
    Ordered start (⟨.operator (.between op), .before index⟩ :: rest) stop

namespace Ordered

variable {start start' stop : Nat} {lexeme : Lexeme} {lexemes others : List Lexeme}

theorem le (h : Ordered start lexemes stop) : start ≤ stop := by
  induction h with
  | nil h => exact h
  | written hstart hspan _ ih => exact Nat.le_trans hstart (Nat.le_trans (Nat.le_of_lt hspan) ih)
  | joint hstart _ ih => exact Nat.le_trans hstart ih

/-- Lexemes that stand behind a position stand behind every position in front of it. -/
theorem mono (h : Ordered start' lexemes stop) (hle : start ≤ start') :
    Ordered start lexemes stop := by
  cases h with
  | nil h => exact .nil (Nat.le_trans hle h)
  | written hstart hspan h => exact .written (Nat.le_trans hle hstart) hspan h
  | joint hstart h => exact .joint (Nat.le_trans hle hstart) h

/-- Behind the first lexeme. -/
theorem tail (h : Ordered start (lexeme :: lexemes) stop) :
    Ordered lexeme.span.stop lexemes stop := by
  cases h with
  | written _ _ h => exact h
  | joint _ h => exact h

theorem start_le (h : Ordered start (lexeme :: lexemes) stop) : start ≤ lexeme.span.start := by
  cases h with
  | written hstart _ _ => exact hstart
  | joint hstart _ => exact hstart

theorem span_le (h : Ordered start (lexeme :: lexemes) stop) :
    lexeme.span.start ≤ lexeme.span.stop := by
  cases h with
  | written _ hspan _ => exact Nat.le_of_lt hspan
  | joint _ _ => exact Nat.le_refl _

/-- What is no operator between two operands is written. -/
theorem span_lt (h : Ordered start (lexeme :: lexemes) stop)
    (hitem : ∀ op, lexeme.item ≠ .operator (.between op)) :
    lexeme.span.start < lexeme.span.stop := by
  cases h with
  | written _ hspan _ => exact hspan
  | joint _ _ => exact absurd rfl (hitem _)

/-- Lexemes stand one after the other if they do so up to a position and from it on. -/
theorem append_iff : Ordered start (lexemes ++ others) stop ↔
    ∃ middle, Ordered start lexemes middle ∧ Ordered middle others stop := by
  constructor
  · intro h
    induction lexemes generalizing start with
    | nil => exact ⟨start, .nil (Nat.le_refl start), h⟩
    | cons lexeme lexemes ih =>
      cases h with
      | written hstart hspan h =>
        obtain ⟨middle, hlexemes, hothers⟩ := ih h
        exact ⟨middle, .written hstart hspan hlexemes, hothers⟩
      | joint hstart h =>
        obtain ⟨middle, hlexemes, hothers⟩ := ih h
        exact ⟨middle, .joint hstart hlexemes, hothers⟩
  · rintro ⟨middle, hlexemes, hothers⟩
    induction hlexemes with
    | nil h => exact hothers.mono h
    | written hstart hspan _ ih => exact .written hstart hspan (ih hothers)
    | joint hstart _ ih => exact .joint hstart (ih hothers)

/-- The operands and operators stand one after the other. -/
theorem unbracketed (h : Ordered start lexemes stop) :
    Ordered start (Lexeme.unbracketed lexemes) stop := by
  induction h with
  | nil h => exact .nil h
  | written hstart hspan _ ih =>
    rw [Lexeme.unbracketed, List.filter_cons]
    split
    · exact .written hstart hspan ih
    · exact ih.mono (Nat.le_trans hstart (Nat.le_of_lt hspan))
  | joint hstart _ ih => exact .joint hstart ih

/-- The operators that are put in stand directly in front of lexemes. -/
theorem joined (voc : Vocabulary) (h : Ordered start lexemes stop) (complete : Bool) :
    Ordered start (Lexeme.joined voc complete lexemes) stop := by
  induction h generalizing complete with
  | nil h => exact .nil h
  | @written start stop lexeme rest hstart hspan _ ih =>
    rw [Lexeme.joined, append_iff]
    refine ⟨lexeme.span.start, ?_, .written (Nat.le_refl _) hspan (ih _)⟩
    rw [Lexeme.joint]
    split
    · cases lexeme.item.connector? voc with
      | none => exact .nil hstart
      | some op => exact .joint hstart (.nil (Nat.le_refl _))
    · exact .nil hstart
  | joint hstart _ ih =>
    rw [Lexeme.joined, Lexeme.joint_of_none rfl]
    exact .joint hstart (ih false)

end Ordered

/-- The operands and operators that are said by some lexemes, with those that are not written. -/
def spoken (voc : Vocabulary) (complete : Bool) (lexemes : List Lexeme) : List Lexeme :=
  unbracketed (joined voc complete lexemes)

variable {voc : Vocabulary}

theorem spoken_cons (complete : Bool) (lexeme : Lexeme) (rest : List Lexeme) :
    spoken voc complete (lexeme :: rest) = joint voc complete lexeme ++ unbracketed [lexeme] ++
      spoken voc lexeme.item.completes rest := by
  have hjoint : unbracketed (joint voc complete lexeme) = joint voc complete lexeme := by
    refine List.filter_eq_self.mpr fun other hother ↦ ?_
    rw [joint] at hother
    split at hother
    · obtain ⟨op, -, rfl⟩ := List.mem_map.mp hother
      rfl
    · cases hother
  calc
    _ = unbracketed (joint voc complete lexeme ++ [lexeme] ++
        joined voc lexeme.item.completes rest) := by simp [spoken, joined]
    _ = unbracketed (joint voc complete lexeme) ++ unbracketed [lexeme] ++
        spoken voc lexeme.item.completes rest := by
      rw [unbracketed, List.filter_append, List.filter_append]
      rfl
    _ = _ := by rw [hjoint]

end Lexeme

namespace Vocabulary.Lexes

variable {voc : Vocabulary} {scope : Scope} {index : Nat} {line : List Char}
  {lexemes : List Lexeme}

/-- Each lexeme has a character of its own. -/
theorem length_le (h : voc.Lexes scope index line lexemes) : lexemes.length ≤ line.length := by
  induction h with
  | nil => exact Nat.le_refl 0
  | blank _ _ ih => exact Nat.le_succ_of_le ih
  | token htext _ _ ih =>
    have hpos := List.length_pos_iff.mpr htext.ne_nil
    rw [List.length_append, List.length_cons]
    omega

/-- The lexemes of characters stand where the characters do. -/
theorem ordered (h : voc.Lexes scope index line lexemes) :
    Lexeme.Ordered index lexemes (index + line.length) := by
  induction h with
  | nil => exact .nil (Nat.le_refl _)
  | blank _ _ ih =>
    rw [Nat.add_assoc, Nat.add_comm 1] at ih
    exact ih.mono (Nat.le_succ _)
  | token htext _ _ ih =>
    rw [List.length_append, ← Nat.add_assoc]
    exact .written (Nat.le_refl _)
      (Nat.lt_add_of_pos_right (List.length_pos_iff.mpr htext.ne_nil)) ih

end Vocabulary.Lexes

/-! ## Expressions in order -/

namespace Expr

/-- Read in order, an expression is some lexemes, and each part of it spans those that it is. -/
inductive InOrder : Expr → List Lexeme → Prop
  | number (value : Float) {span : Span} (hspan : span.start < span.stop) :
    InOrder (.literal value span) [⟨.number value, span⟩]
  | value (value : Float) {span : Span} (hspan : span.start < span.stop) :
    InOrder (.literal value span) [⟨.value value, span⟩]
  | before {op : UnaryOperator} {operand : Expr} {span : Span} {lexemes : List Lexeme}
    (hside : op.side = .before) (hspan : span.start < span.stop)
    (hstop : span.stop ≤ operand.span.start) (h : InOrder operand lexemes) :
    InOrder (.unary op operand ⟨span.start, operand.span.stop⟩)
      (⟨.operator (.beside op), span⟩ :: lexemes)
  | after {op : UnaryOperator} {operand : Expr} {span : Span} {lexemes : List Lexeme}
    (hside : op.side = .after) (hspan : span.start < span.stop)
    (hstart : operand.span.stop ≤ span.start) (h : InOrder operand lexemes) :
    InOrder (.unary op operand ⟨operand.span.start, span.stop⟩)
      (lexemes ++ [⟨.operator (.beside op), span⟩])
  | between {op : BinaryOperator} {left right : Expr} {span : Span} {lexemes others : List Lexeme}
    (hstart : left.span.stop ≤ span.start) (hspan : span.start ≤ span.stop)
    (hstop : span.stop ≤ right.span.start) (hleft : InOrder left lexemes)
    (hright : InOrder right others) :
    InOrder (.binary op left right ⟨left.span.start, right.span.stop⟩)
      (lexemes ++ ⟨.operator (.between op), span⟩ :: others)

/-- Each part of an expression lies in the parts that it is part of, and the two operands of an
operator lie one after the other. -/
def Nested : Expr → Prop
  | literal _ _ => True
  | unary _ operand span =>
    span.start ≤ operand.span.start ∧ operand.span.stop ≤ span.stop ∧ operand.Nested
  | binary _ left right span =>
    span.start ≤ left.span.start ∧ left.span.stop ≤ right.span.start ∧
      right.span.stop ≤ span.stop ∧ left.Nested ∧ right.Nested

namespace InOrder

variable {expr : Expr} {lexemes : List Lexeme} {start stop : Nat}

/-- Each node of an expression is one operand or operator. -/
theorem nodeCount_eq (h : expr.InOrder lexemes) : expr.nodeCount = lexemes.length := by
  induction h with
  | number | value => rfl
  | before _ _ _ _ ih => rw [nodeCount, ih, List.length_cons, Nat.add_comm]
  | after _ _ _ _ ih => rw [nodeCount, ih, List.length_append, List.length_singleton, Nat.add_comm]
  | between _ _ _ _ _ ihleft ihright =>
    rw [nodeCount, ihleft, ihright, List.length_append, List.length_cons]
    omega

/-- An expression in order has a character. -/
theorem span_lt (h : expr.InOrder lexemes) : expr.span.start < expr.span.stop := by
  induction h with
  | number _ hspan | value _ hspan => exact hspan
  | before _ hspan hstop _ ih =>
    exact Nat.lt_trans (Nat.lt_of_lt_of_le hspan hstop) ih
  | after _ hspan hstart _ ih =>
    exact Nat.lt_trans (Nat.lt_of_lt_of_le ih hstart) hspan
  | between hstart hspan hstop _ _ ihleft ihright =>
    exact Nat.lt_trans ihleft
      (Nat.lt_of_le_of_lt (Nat.le_trans hstart (Nat.le_trans hspan hstop)) ihright)

/-- The span of an expression lies where its lexemes do. -/
theorem span_within (h : expr.InOrder lexemes) (hordered : Lexeme.Ordered start lexemes stop) :
    start ≤ expr.span.start ∧ expr.span.stop ≤ stop := by
  induction h generalizing start stop with
  | number | value => exact ⟨hordered.start_le, hordered.tail.le⟩
  | before _ _ _ _ ih => exact ⟨hordered.start_le, (ih hordered.tail).2⟩
  | after _ _ _ _ ih =>
    obtain ⟨middle, hlexemes, hop⟩ := Lexeme.Ordered.append_iff.mp hordered
    exact ⟨(ih hlexemes).1, hop.tail.le⟩
  | between _ _ _ _ _ ihleft ihright =>
    obtain ⟨middle, hlexemes, hop⟩ := Lexeme.Ordered.append_iff.mp hordered
    exact ⟨(ihleft hlexemes).1, (ihright hop.tail).2⟩

/-- A part of an expression in order is in order, and lies in it. -/
theorem of_isPart {part : Expr} (hpart : part.IsPart expr) (h : expr.InOrder lexemes) :
    (∃ others, part.InOrder others) ∧ expr.span.start ≤ part.span.start ∧
      part.span.stop ≤ expr.span.stop := by
  induction hpart generalizing lexemes with
  | refl => exact ⟨⟨lexemes, h⟩, Nat.le_refl _, Nat.le_refl _⟩
  | unary _ ih =>
    cases h with
    | before _ hspan hstop h =>
      obtain ⟨hothers, hstart, hend⟩ := ih h
      exact ⟨hothers, Nat.le_trans (Nat.le_trans (Nat.le_of_lt hspan) hstop) hstart, hend⟩
    | after _ hspan hstart h =>
      obtain ⟨hothers, hbegin, hend⟩ := ih h
      exact ⟨hothers, hbegin, Nat.le_trans hend (Nat.le_trans hstart (Nat.le_of_lt hspan))⟩
  | left _ ih =>
    cases h with
    | between hstart hspan hstop hleft hright =>
      obtain ⟨hothers, hbegin, hend⟩ := ih hleft
      have hnext := Nat.le_trans hstart (Nat.le_trans hspan hstop)
      exact ⟨hothers, hbegin,
        Nat.le_trans hend (Nat.le_trans hnext (Nat.le_of_lt hright.span_lt))⟩
  | right _ ih =>
    cases h with
    | between hstart hspan hstop hleft hright =>
      obtain ⟨hothers, hbegin, hend⟩ := ih hright
      have hnext := Nat.le_trans hstart (Nat.le_trans hspan hstop)
      exact ⟨hothers, Nat.le_trans (Nat.le_of_lt hleft.span_lt) (Nat.le_trans hnext hbegin), hend⟩

/-- An operator in front of its operand is found by the place where it starts. -/
theorem before_unique {op op' : UnaryOperator} {operand operand' : Expr} {stop stop' : Nat}
    (h : expr.InOrder lexemes) (hside : op.side = .before) (hside' : op'.side = .before)
    (hpart : (unary op operand ⟨start, stop⟩).IsPart expr)
    (hpart' : (unary op' operand' ⟨start, stop'⟩).IsPart expr) :
    operand = operand' ∧ stop = stop' := by
  induction h with
  | number | value => cases hpart
  | @before op₁ operand₁ span lexemes hside₁ hspan hstop h ih =>
    -- What is in the operand starts behind the operator.
    have hbehind {part : Expr} (hpart : part.IsPart operand₁)
        (hstart : part.span.start = span.start) : False := by
      obtain ⟨-, hle, -⟩ := of_isPart hpart h
      omega
    cases hpart with
    | refl =>
      cases hpart' with
      | refl => exact ⟨rfl, rfl⟩
      | unary hpart' => exact (hbehind hpart' rfl).elim
    | unary hpart =>
      cases hpart' with
      | refl => exact (hbehind hpart rfl).elim
      | unary hpart' => exact ih hpart hpart'
  | after hside₁ _ _ _ ih =>
    cases hpart with
    | refl => cases hside.symm.trans hside₁
    | unary hpart =>
      cases hpart' with
      | refl => cases hside'.symm.trans hside₁
      | unary hpart' => exact ih hpart hpart'
  | @between op₁ left right span lexemes others hstart hspan hstop hleft hright ihleft ihright =>
    -- What is in the left operand stops where what is in the right one has not yet started.
    have hapart {part part' : Expr} (hpart : part.IsPart left) (hpart' : part'.IsPart right)
        (hsame : part.span.start = part'.span.start) : False := by
      obtain ⟨⟨_, hothers⟩, -, hend⟩ := of_isPart hpart hleft
      obtain ⟨-, hbegin, -⟩ := of_isPart hpart' hright
      have hlt := hothers.span_lt
      omega
    cases hpart with
    | left hpart =>
      cases hpart' with
      | left hpart' => exact ihleft hpart hpart'
      | right hpart' => exact (hapart hpart hpart' rfl).elim
    | right hpart =>
      cases hpart' with
      | left hpart' => exact (hapart hpart' hpart rfl).elim
      | right hpart' => exact ihright hpart hpart'

/-- An expression that is in order is nested. -/
theorem nested (h : expr.InOrder lexemes) : expr.Nested := by
  induction h with
  | number | value => trivial
  | before _ hspan hstop _ ih =>
    exact ⟨Nat.le_trans (Nat.le_of_lt hspan) hstop, Nat.le_refl _, ih⟩
  | after _ hspan hstart _ ih =>
    exact ⟨Nat.le_refl _, Nat.le_trans hstart (Nat.le_of_lt hspan), ih⟩
  | between hstart hspan hstop _ _ ihleft ihright =>
    exact ⟨Nat.le_refl _, Nat.le_trans hstart (Nat.le_trans hspan hstop), Nat.le_refl _, ihleft,
      ihright⟩

end InOrder

end Expr

/-! ## What was read of a line -/

namespace Descent

/-- What some frames hold was read from some lexemes. -/
inductive FramesRead : List Frame → List Lexeme → Prop
  | nil : FramesRead [] []
  | bracket {frames : List Frame} {done : List Lexeme} (h : FramesRead frames done) :
    FramesRead (.bracket :: frames) done
  | before {frames : List Frame} {done : List Lexeme} {op : UnaryOperator} {order : Nat}
    {span : Span} (hside : op.side = .before) (h : FramesRead frames done) :
    FramesRead (.before op order span.start :: frames)
      (done ++ [⟨.operator (.beside op), span⟩])
  | between {frames : List Frame} {done lexemes : List Lexeme} {op : BinaryOperator} {left : Expr}
    {span : Span} (hleft : left.InOrder lexemes) (h : FramesRead frames done) :
    FramesRead (.between op left :: frames)
      (done ++ (lexemes ++ [⟨.operator (.between op), span⟩]))

namespace Place

/-- What is held at a place was read from some lexemes. -/
inductive Reads : Place → List Lexeme → Prop
  | awaiting {frames : List Frame} {done : List Lexeme} (h : FramesRead frames done) :
    Reads (.awaiting frames) done
  | holding {frames : List Frame} {expr : Expr} {done lexemes : List Lexeme}
    (h : FramesRead frames done) (hexpr : expr.InOrder lexemes) :
    Reads (.holding frames expr) (done ++ lexemes)

namespace Reads

variable {voc : Vocabulary} {frames : List Frame} {frame : Frame} {expr : Expr} {p p' : Place}
  {lexeme : Lexeme} {done rest : List Lexeme} {start stop : Nat}

/-- When a frame closes, what is held was read from the same lexemes. -/
theorem close (h : Reads (.holding (frame :: frames) expr) done)
    (hordered : Lexeme.Ordered start done stop) :
    Reads (.holding frames (frame.close expr)) done := by
  cases h with
  | holding h hexpr =>
    cases h with
    | bracket h => exact .holding h hexpr
    | before hside h =>
      obtain ⟨_, hdone, hlexemes⟩ := Lexeme.Ordered.append_iff.mp hordered
      obtain ⟨_, -, hop⟩ := Lexeme.Ordered.append_iff.mp hdone
      obtain ⟨hstop, -⟩ := hexpr.span_within hlexemes
      rw [List.append_assoc]
      exact .holding h (.before hside (hop.span_lt fun _ ↦ nofun)
        (Nat.le_trans hop.tail.le hstop) hexpr)
    | @between _ done lexemes op left span hleft h =>
      obtain ⟨_, hdone, hlexemes⟩ := Lexeme.Ordered.append_iff.mp hordered
      obtain ⟨_, -, htaken⟩ := Lexeme.Ordered.append_iff.mp hdone
      obtain ⟨_, htaken, hop⟩ := Lexeme.Ordered.append_iff.mp htaken
      obtain ⟨-, hstart⟩ := hleft.span_within htaken
      obtain ⟨hstop, -⟩ := hexpr.span_within hlexemes
      have hbefore := Nat.le_trans hstart hop.start_le
      have hafter := Nat.le_trans hop.tail.le hstop
      have hbetween : (Expr.binary op left expr ⟨left.span.start, expr.span.stop⟩).InOrder _ :=
        .between hbefore hop.span_le hafter hleft hexpr
      have hnext := Nat.le_trans hbefore (Nat.le_trans hop.span_le hafter)
      have hhull : left.span.hull expr.span = ⟨left.span.start, expr.span.stop⟩ := by
        rw [Span.hull, Nat.min_eq_left (Nat.le_trans (Nat.le_of_lt hleft.span_lt) hnext),
          Nat.max_eq_right (Nat.le_trans hnext (Nat.le_of_lt hexpr.span_lt))]
      rw [List.append_assoc, List.append_assoc, List.singleton_append, Frame.close, hhull]
      exact .holding h hbetween

/-- An operator that arrives closes frames. -/
theorem settle (yields : Nat → Bool) (h : Reads (.holding frames expr) done)
    (hordered : Lexeme.Ordered start done stop) :
    Reads (.holding (settle yields frames expr).1 (Descent.settle yields frames expr).2) done := by
  induction frames generalizing expr with
  | nil => exact h
  | cons frame frames ih =>
    rw [Descent.settle]
    split
    · exact ih (h.close hordered)
    · exact h

/-- At the end of a line all frames close. -/
theorem closeAll (h : Reads (.holding frames expr) done)
    (hordered : Lexeme.Ordered start done stop) : (closeAll frames expr).InOrder done := by
  induction frames generalizing expr with
  | nil =>
    cases h with
    | holding h hexpr =>
      cases h
      exact hexpr
  | cons frame frames ih => exact ih (h.close hordered)

/-- A closing bracket closes the frames inside it. -/
theorem leaveBracket? {left : List Frame × Expr} (h : Reads (.holding frames expr) done)
    (hordered : Lexeme.Ordered start done stop) (hleave : leaveBracket? frames expr = some left) :
    Reads (.holding left.1 left.2) done := by
  induction frames generalizing expr with
  | nil => cases hleave
  | cons frame frames ih =>
    have hclose := h.close hordered
    cases frame with
    | bracket =>
      cases hleave
      exact hclose
    | _ => exact ih hclose hleave

/-- An operator between two operands is read behind its left one. -/
theorem join (h : Reads (.holding frames expr) done)
    (hordered : Lexeme.Ordered start done stop) (op : BinaryOperator) (span : Span) :
    Reads (join op frames expr) (done ++ [⟨.operator (.between op), span⟩]) := by
  have hsettled := h.settle op.yieldsTo hordered
  cases hsettled with
  | holding hframes hexpr =>
    rw [List.append_assoc]
    exact .awaiting (.between hexpr hframes)

/-- An operator after its operand is read behind it. -/
theorem attach (h : Reads (.holding frames expr) done) {op : UnaryOperator}
    (hside : op.side = .after) {span : Span}
    (hordered : Lexeme.Ordered start (done ++ [⟨.operator (.beside op), span⟩]) stop) :
    Reads (attach op span.stop frames expr) (done ++ [⟨.operator (.beside op), span⟩]) := by
  obtain ⟨_, hdone, hop⟩ := Lexeme.Ordered.append_iff.mp hordered
  have hsettled := h.settle op.yieldsTo hdone
  cases hsettled with
  | holding hframes hexpr =>
    obtain ⟨_, -, hlexemes⟩ := Lexeme.Ordered.append_iff.mp hdone
    obtain ⟨-, hstop⟩ := hexpr.span_within hlexemes
    rw [List.append_assoc]
    exact .holding hframes
      (.after hside (hop.span_lt fun _ ↦ nofun) (Nat.le_trans hstop hop.start_le) hexpr)

/-- The operator that is put in is read behind what was read. -/
theorem connect (h : Reads p done) (lexeme : Lexeme)
    (hordered : Lexeme.Ordered start done stop) :
    Reads (p.connect voc lexeme.item) (done ++ Lexeme.joint voc p.complete lexeme) := by
  cases p with
  | awaiting frames =>
    rw [complete, Lexeme.joint_false, List.append_nil]
    exact h
  | holding frames expr =>
    rw [complete, Place.connect]
    cases hconnector : lexeme.item.connector? voc with
    | none =>
      rw [Lexeme.joint_of_none hconnector, List.append_nil]
      exact h
    | some op =>
      rw [Lexeme.joint_of_some hconnector]
      exact h.join hordered op _

/-- A lexeme is read behind what was read. -/
theorem read? (h : Reads p done) (hread : p.read? lexeme rest = some p')
    (hordered : Lexeme.Ordered start (done ++ [lexeme]) stop) :
    Reads p' (done ++ Lexeme.unbracketed [lexeme]) := by
  obtain ⟨item, span⟩ := lexeme
  obtain ⟨_, hdone, hlexeme⟩ := Lexeme.Ordered.append_iff.mp hordered
  cases h with
  | awaiting h =>
    cases item with
    | number value =>
      cases hread
      exact .holding h (.number value (hlexeme.span_lt fun _ ↦ nofun))
    | value value =>
      cases hread
      exact .holding h (.value value (hlexeme.span_lt fun _ ↦ nofun))
    | opening =>
      cases hread
      exact .awaiting (by simpa [Lexeme.unbracketed, Item.isBracket] using FramesRead.bracket h)
    | operator op =>
      cases op with
      | beside op =>
        cases hside : op.side with
        | before =>
          simp only [Place.read?, hside] at hread
          cases hread
          exact .awaiting (.before hside h)
        | after =>
          simp only [Place.read?, hside] at hread
          cases hread
      | between op => cases hread
    | closing => cases hread
  | @holding frames expr done lexemes h hexpr =>
    have hholding : Reads (.holding frames expr) (done ++ lexemes) := .holding h hexpr
    cases item with
    | operator op =>
      cases op with
      | between op =>
        cases hread
        exact hholding.join hdone op span
      | beside op =>
        cases hside : op.side with
        | before =>
          simp only [Place.read?, hside] at hread
          cases hread
        | after =>
          simp only [Place.read?, hside] at hread
          cases hread
          exact hholding.attach hside hordered
    | closing =>
      obtain ⟨left, hleave, rfl⟩ := Option.map_eq_some_iff.mp hread
      simpa [Lexeme.unbracketed, Item.isBracket] using hholding.leaveBracket? hdone hleave
    | number | value | opening => cases hread

/-- What a line comes to is what was read of it and what is left of it, in order. -/
theorem inOrder {lexemes : List Lexeme} (h : Reads p done)
    (hresult : p.result voc lexemes = some expr)
    (hordered : Lexeme.Ordered start (done ++ Lexeme.joined voc p.complete lexemes) stop) :
    expr.InOrder (done ++ Lexeme.spoken voc p.complete lexemes) := by
  induction lexemes generalizing p done with
  | nil =>
    cases p with
    | awaiting frames =>
      rw [result_awaiting_nil] at hresult
      cases hresult
    | holding frames expr' =>
      rw [result_holding_nil] at hresult
      cases hresult
      have hnothing : done ++ Lexeme.spoken voc true [] = done := List.append_nil done
      obtain ⟨_, hdone, -⟩ := Lexeme.Ordered.append_iff.mp hordered
      rw [complete, hnothing]
      exact h.closeAll hdone
  | cons lexeme rest ih =>
    obtain ⟨p', hstep, hresult⟩ := result_cons_eq_some_iff.mp hresult
    rw [Lexeme.joined, ← List.append_assoc, ← List.singleton_append, ← List.append_assoc,
      Lexeme.Ordered.append_iff] at hordered
    obtain ⟨middle, hbegin, hrest⟩ := hordered
    obtain ⟨middle', hdone, hlexeme⟩ := Lexeme.Ordered.append_iff.mp hbegin
    obtain ⟨_, hdone', -⟩ := Lexeme.Ordered.append_iff.mp hdone
    have hnext := (h.connect lexeme hdone').read? hstep hbegin
    rw [← complete_of_step? hstep] at hrest
    have hordered := Lexeme.Ordered.append_iff.mpr ⟨middle,
      Lexeme.Ordered.append_iff.mpr ⟨middle', hdone, hlexeme.unbracketed⟩, hrest⟩
    rw [Lexeme.spoken_cons, ← complete_of_step? hstep, ← List.append_assoc, ← List.append_assoc]
    exact ih hnext hresult hordered

end Reads

end Place

end Descent

/-! ## Lines -/

namespace Vocabulary

open Descent

variable {voc : Vocabulary} {scope : Scope} {line : Line} {expr : Expr} {lexemes : List Lexeme}

/-- What the lexemes of a line come to is what they say, in order. -/
theorem Lexes.inOrder (h : voc.Lexes scope 0 line lexemes)
    (hresult : awaiting voc [] lexemes = some expr) :
    expr.InOrder (Lexeme.spoken voc false lexemes) :=
  (Place.Reads.awaiting .nil).inOrder hresult (h.ordered.joined voc false)

/-- The expression on a line is what its tokens say, in order. Its parts are nested, and they are
fewer than twice the characters of the line. -/
theorem inOrder_of_parse (hparse : voc.parse scope line = .ok expr) :
    ∃ lexemes, (Token.ofLine voc line).mapM (Token.lexeme voc scope) = .ok lexemes ∧
      expr.InOrder (Lexeme.spoken voc false lexemes) ∧ expr.Nested ∧
      expr.nodeCount < 2 * line.length := by
  obtain ⟨⟨lexemes, hlexes, hresult⟩, -⟩ := parse_eq_ok_iff_lexes.mp hparse
  have hinOrder := hlexes.inOrder hresult
  have hne : lexemes ≠ [] := by
    rintro rfl
    have hnone : awaiting voc [] [] = none := Place.result_awaiting_nil []
    cases hnone.symm.trans hresult
  refine ⟨lexemes, hlexes.mapM_scan, hinOrder, hinOrder.nested, ?_⟩
  calc
    expr.nodeCount = (Lexeme.spoken voc false lexemes).length := hinOrder.nodeCount_eq
    _ ≤ (Lexeme.joined voc false lexemes).length := List.length_filter_le _ _
    _ < 2 * lexemes.length := Lexeme.length_joined_lt hne
    _ ≤ 2 * line.length := Nat.mul_le_mul_left 2 hlexes.length_le

/-- A line with operators of all forms, two of which are not written. -/
theorem inOrder_of_parse_standard :
    ∃ expr, standard.parse .bare "2pi(3! - 1) mod -5%".toList = .ok expr ∧
      ∃ lexemes, (Token.ofLine standard "2pi(3! - 1) mod -5%".toList).mapM
          (Token.lexeme standard .bare) = .ok lexemes ∧
        expr.InOrder (Lexeme.spoken standard false lexemes) ∧ expr.Nested ∧
        expr.nodeCount < 2 * "2pi(3! - 1) mod -5%".toList.length := by
  have hchecked : (standard.parse .bare "2pi(3! - 1) mod -5%".toList).toOption.isSome = true := by
    decide +kernel
  obtain ⟨expr, hparse⟩ := exists_of_isSome_toOption hchecked
  exact ⟨expr, hparse, inOrder_of_parse hparse⟩

end Vocabulary

end Reckoner
