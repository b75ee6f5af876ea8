import Reckoner.Proofs.Expr.Agreement
import Reckoner.Proofs.Expr.Relocation
import Reckoner.Proofs.Token.Writing
import Reckoner.Vocabulary.Standard

/-!
# Brackets isolate

No operator closes the frame of a bracket. So what stands in a bracket is read as it would be read
on a line of its own, whatever waits outside: each step in the bracket is a step on that line, with
the outer frames below. A closing bracket that ends it closes all frames inside, as the end of a
line does.
-/

namespace Reckoner

namespace Descent

/-! ## Frames below a bracket -/

section

variable {frames outer : List Frame}

theorem settle_append_bracket (yields : Nat → Bool) (frames outer : List Frame) (expr : Expr) :
    settle yields (frames ++ .bracket :: outer) expr =
      ((settle yields frames expr).1 ++ .bracket :: outer, (settle yields frames expr).2) := by
  induction frames generalizing expr with
  | nil => rfl
  | cons frame frames ih =>
    simp only [List.cons_append, settle]
    split
    · exact ih _
    · rfl

/-- A closing bracket that closes one of the inner brackets leaves the outer frames alone. -/
theorem leaveBracket?_append_bracket (h : brackets frames ≠ 0) (outer : List Frame)
    (expr : Expr) :
    leaveBracket? (frames ++ .bracket :: outer) expr =
      (leaveBracket? frames expr).map fun left ↦ (left.1 ++ .bracket :: outer, left.2) := by
  induction frames generalizing expr with
  | nil => exact absurd rfl h
  | cons frame frames ih =>
    cases frame with
    | bracket => rfl
    | _ => exact ih h _

/-- A closing bracket that closes no inner bracket closes all inner frames. -/
theorem leaveBracket?_append_bracket_of_eq (h : brackets frames = 0) (outer : List Frame)
    (expr : Expr) :
    leaveBracket? (frames ++ .bracket :: outer) expr = some (outer, closeAll frames expr) := by
  induction frames generalizing expr with
  | nil => rfl
  | cons frame frames ih =>
    cases frame with
    | bracket => cases h
    | _ => exact ih h _

/-- At the end of a line a closing bracket makes no difference. -/
theorem closeAll_of_leaveBracket? {expr : Expr} {left : List Frame × Expr}
    (h : leaveBracket? frames expr = some left) :
    closeAll left.1 left.2 = closeAll frames expr := by
  induction frames generalizing expr with
  | nil => cases h
  | cons frame frames ih =>
    cases frame with
    | bracket =>
      cases h
      rfl
    | _ => exact ih h

/-- Nor do several, if so many brackets are open. -/
theorem holding_closings (voc : Vocabulary) (closings : List Lexeme)
    (hclosings : ∀ lexeme ∈ closings, lexeme.item = .closing) (expr : Expr)
    (h : closings.length ≤ brackets frames) :
    holding voc frames expr closings = some (closeAll frames expr) := by
  induction closings generalizing frames expr with
  | nil => exact holding_nil frames expr
  | cons lexeme closings ih =>
    obtain ⟨item, span⟩ := lexeme
    cases hclosings _ List.mem_cons_self
    rw [List.length_cons] at h
    rw [holding_closing]
    rcases leaveBracket?_eq_none_or frames expr with ⟨-, hnone⟩ | ⟨left, hleave, hbrackets⟩
    · rw [hnone] at h
      cases h
    · rw [hleave, Option.bind_some, ← closeAll_of_leaveBracket? hleave]
      exact ih (fun lexeme hmem ↦ hclosings lexeme (List.mem_cons_of_mem _ hmem)) _
        (by omega)

end

namespace Place

variable {voc : Vocabulary} {lexeme : Lexeme} {items rest : List Lexeme} {p : Place}

/-- The place in a bracket that some outer frames wait for. -/
def within (outer : List Frame) : Place → Place
  | awaiting frames => awaiting (frames ++ .bracket :: outer)
  | holding frames expr => holding (frames ++ .bracket :: outer) expr

theorem join_within (op : BinaryOperator) (frames outer : List Frame) (expr : Expr) :
    join op (frames ++ .bracket :: outer) expr = (join op frames expr).within outer := by
  rw [join, settle_append_bracket]
  rfl

theorem attach_within (op : UnaryOperator) (stop : Nat) (frames outer : List Frame)
    (expr : Expr) :
    attach op stop (frames ++ .bracket :: outer) expr =
      (attach op stop frames expr).within outer := by
  rw [attach, settle_append_bracket]
  rfl

theorem connect_within (voc : Vocabulary) (item : Item) (outer : List Frame) (p : Place) :
    (p.within outer).connect voc item = (p.connect voc item).within outer := by
  cases p with
  | awaiting frames => rfl
  | holding frames expr =>
    simp only [within, connect]
    cases item.connector? voc with
    | some op => exact join_within op frames outer expr
    | none => rfl

/-- A lexeme that does not close the bracket is read in it as it is on a line of its own. -/
theorem read?_within (hdepth : (lexeme.item.depth? p.depth).isSome) (rest : List Lexeme)
    (outer : List Frame) :
    (p.within outer).read? lexeme rest = (p.read? lexeme rest).map (within outer) := by
  obtain ⟨item, span⟩ := lexeme
  cases p with
  | awaiting frames =>
    cases item with
    | number | value | opening | closing => rfl
    | operator op =>
      cases op with
      | between op => rfl
      | beside op =>
        simp only [within, read?]
        split <;> rfl
  | holding frames expr =>
    cases item with
    | number | value | opening => rfl
    | closing =>
      have hne : brackets frames ≠ 0 := by
        intro hzero
        simp [Item.depth?, depth, hzero] at hdepth
      simp only [within, read?, leaveBracket?_append_bracket hne, Option.map_map]
      rfl
    | operator op =>
      cases op with
      | between op => exact congrArg some (join_within op frames outer expr)
      | beside op =>
        simp only [within, read?]
        split
        · rfl
        · exact congrArg some (attach_within op span.stop frames outer expr)

theorem step?_within (hdepth : (lexeme.item.depth? p.depth).isSome) (rest : List Lexeme)
    (outer : List Frame) :
    (p.within outer).step? voc lexeme rest = (p.step? voc lexeme rest).map (within outer) := by
  rw [step?, connect_within, step?, read?_within]
  rwa [depth_connect]

/-- Lexemes that do not close the bracket are read in it as they are on a line of their own. -/
theorem run?_within (hdepth : (Lexeme.depth? p.depth items).isSome) (rest : List Lexeme)
    (outer : List Frame) :
    (p.within outer).run? voc rest items = (p.run? voc rest items).map (within outer) := by
  induction items generalizing p with
  | nil => rfl
  | cons lexeme items ih =>
    obtain ⟨depth, hsome⟩ := Option.isSome_iff_exists.mp hdepth
    obtain ⟨depth', hitem, hitems⟩ := Option.bind_eq_some_iff.mp hsome
    rw [run?, step?_within (by rw [hitem]; rfl), run?]
    cases hstep : p.step? voc lexeme (items ++ rest) with
    | none => rfl
    | some p' =>
      have hdepth' : depth' = p'.depth := by
        rw [depth_of_step? hstep] at hitem
        exact (Option.some.inj hitem).symm
      rw [hdepth'] at hitems
      exact ih (by rw [hitems]; rfl)

/-- A closing bracket ends what stands in the bracket as the end of a line does. -/
theorem result_within_closing {span : Span} (hdepth : p.depth = 0) (outer : List Frame) :
    (p.within outer).result voc (⟨.closing, span⟩ :: rest) =
      (p.result voc []).bind fun expr ↦ Descent.holding voc outer expr rest := by
  cases p with
  | awaiting frames =>
    rw [result_awaiting_nil]
    exact awaiting_eq_none_of_readPrimary readPrimary_closing
  | holding frames expr =>
    have hclosing : Descent.holding voc (frames ++ .bracket :: outer) expr
        (⟨.closing, span⟩ :: rest) = _ := holding_closing _ expr
    rw [leaveBracket?_append_bracket_of_eq hdepth] at hclosing
    rw [result_holding_nil]
    exact hclosing

/-- At the end of the line the bracket closes. -/
theorem result_within_nil (outer : List Frame) (p : Place) :
    (p.within outer).result voc [] =
      (p.result voc []).bind fun expr ↦ Descent.holding voc outer expr [] := by
  cases p with
  | awaiting frames =>
    rw [within, result_awaiting_nil, result_awaiting_nil]
    rfl
  | holding frames expr =>
    rw [within, result_holding_nil, result_holding_nil, Option.bind_some, holding_nil, closeAll,
      List.foldl_append]
    rfl

/-- Closing brackets at the end of a line, no more than are open, change nothing. -/
theorem result_append_closings (closings : List Lexeme)
    (hclosings : ∀ lexeme ∈ closings, lexeme.item = .closing) {depth : Nat}
    (hdepth : Lexeme.depth? p.depth items = some depth) (h : closings.length ≤ depth) :
    p.result voc (items ++ closings) = p.result voc items := by
  have horder (op : UnaryOperator) : orderBefore op closings = orderBefore op [] := by
    cases closings with
    | nil => rfl
    | cons lexeme closings =>
      obtain ⟨item, span⟩ := lexeme
      cases hclosings _ List.mem_cons_self
      rfl
  rw [result_append, run?_congr horder, result_eq_bind_run?]
  cases hrun : p.run? voc [] items with
  | none => rfl
  | some p' =>
    rw [depth_of_run? hrun] at hdepth
    obtain rfl := Option.some.inj hdepth
    rw [Option.bind_some, Option.bind_some]
    cases p' with
    | awaiting frames =>
      rw [result_awaiting_nil]
      cases closings with
      | nil => exact result_awaiting_nil frames
      | cons lexeme closings =>
        obtain ⟨item, span⟩ := lexeme
        cases hclosings _ List.mem_cons_self
        exact awaiting_eq_none_of_readPrimary readPrimary_closing
    | holding frames expr =>
      rw [result_holding_nil]
      exact holding_closings voc closings hclosings expr h

end Place

section

variable {voc : Vocabulary} {items rest : List Lexeme}

/-- What stands in a bracket up to the closing one is read as on a line of its own. -/
theorem awaiting_bracket_closing {span : Span} (hdepth : Lexeme.depth? 0 items = some 0)
    (outer : List Frame) :
    awaiting voc (.bracket :: outer) (items ++ ⟨.closing, span⟩ :: rest) =
      (awaiting voc [] items).bind fun expr ↦ holding voc outer expr rest := by
  have hisSome : (Lexeme.depth? (Place.awaiting []).depth items).isSome :=
    Option.isSome_iff_exists.mpr ⟨0, hdepth⟩
  have horder (op : UnaryOperator) :
      orderBefore op (⟨.closing, span⟩ :: rest) = orderBefore op [] := rfl
  have hahead : (Place.awaiting []).run? voc (⟨.closing, span⟩ :: rest) items =
      (Place.awaiting []).run? voc [] items := Place.run?_congr horder items _
  change ((Place.awaiting []).within outer).result voc _ =
    ((Place.awaiting []).result voc items).bind _
  rw [Place.result_append, Place.run?_within hisSome, hahead, Place.result_eq_bind_run?]
  cases hrun : (Place.awaiting []).run? voc [] items with
  | none => rfl
  | some p =>
    have hend : some 0 = some p.depth := hdepth.symm.trans (Place.depth_of_run? hrun)
    exact Place.result_within_closing (Option.some.inj hend).symm outer

/-- What stands in a bracket up to the end of the line is read as on a line of its own. -/
theorem awaiting_bracket (hdepth : (Lexeme.depth? 0 items).isSome) (outer : List Frame) :
    awaiting voc (.bracket :: outer) items =
      (awaiting voc [] items).bind fun expr ↦ holding voc outer expr [] := by
  have hisSome : (Lexeme.depth? (Place.awaiting []).depth items).isSome := hdepth
  change ((Place.awaiting []).within outer).result voc _ =
    ((Place.awaiting []).result voc items).bind _
  rw [Place.result_eq_bind_run?, Place.run?_within hisSome, Place.result_eq_bind_run?]
  cases (Place.awaiting []).run? voc [] items with
  | none => rfl
  | some p => exact p.result_within_nil outer

end

end Descent

/-! ## Brackets on a line -/

/-- The number of brackets that are open behind a character, unless it closes one where none is. -/
def charDepth? (depth : Nat) (c : Char) : Option Nat :=
  if c = '(' then some (depth + 1)
  else if c = ')' then if depth = 0 then none else some (depth - 1)
  else some depth

namespace Line

/-- The number of brackets that are open behind some characters, unless one is closed where none is
open. -/
def depth? (depth : Nat) : Line → Option Nat
  | [] => some depth
  | c :: rest => (charDepth? depth c).bind fun depth ↦ depth? depth rest

theorem depth?_append (depth : Nat) (line rest : Line) :
    depth? depth (line ++ rest) = (depth? depth line).bind fun depth ↦ depth? depth rest := by
  induction line generalizing depth with
  | nil => rfl
  | cons c line ih =>
    rw [List.cons_append, depth?, depth?, Option.bind_assoc]
    exact congrArg _ (funext ih)

/-- Characters that are no brackets open and close none. -/
theorem depth?_of_forall {line : Line} (h : ∀ c ∈ line, c ≠ '(' ∧ c ≠ ')') (depth : Nat) :
    depth? depth line = some depth := by
  induction line with
  | nil => rfl
  | cons c line ih =>
    obtain ⟨⟨hopening, hclosing⟩, hline⟩ := List.forall_mem_cons.mp h
    rw [depth?, charDepth?, if_neg hopening, if_neg hclosing]
    exact ih hline

/-- What is open behind a line is what is opened on it and not closed. -/
theorem count_of_depth? {line : Line} {depth depth' : Nat} (h : depth? depth line = some depth') :
    depth' + line.count ')' = depth + line.count '(' := by
  induction line generalizing depth with
  | nil =>
    cases h
    rfl
  | cons c line ih =>
    obtain ⟨middle, hc, hline⟩ := Option.bind_eq_some_iff.mp h
    have hcount := ih hline
    rw [charDepth?] at hc
    split at hc
    · subst c
      cases hc
      rw [List.count_cons_self, List.count_cons_of_ne (by decide)]
      omega
    · split at hc
      · subst c
        split at hc
        · cases hc
        · cases hc
          rw [List.count_cons_self, List.count_cons_of_ne (by decide)]
          omega
      · rename_i hopening hclosing
        cases hc
        rw [List.count_cons_of_ne hopening, List.count_cons_of_ne hclosing]
        exact hcount

end Line

/-- A character of a kind that neither bracket has is no bracket. -/
theorem ne_bracket_of {p : Char → Bool} {c : Char} (hopening : p '(' = false)
    (hclosing : p ')' = false) (h : p c = true) : c ≠ '(' ∧ c ≠ ')' := by
  constructor
  · rintro rfl
    cases hopening.symm.trans h
  · rintro rfl
    cases hclosing.symm.trans h

namespace Vocabulary

open Descent

variable {voc : Vocabulary} {scope : Scope} {index : Nat} {text rest : List Char} {line : Line}
  {item : Item} {belongs : Char → Bool} {lexemes others : List Lexeme} {tree : Expr}

/-- A lexeme opens and closes the brackets that its characters are. -/
theorem Denotes.depth?_eq (h : voc.Denotes scope text item belongs) (depth : Nat) :
    item.depth? depth = Line.depth? depth text := by
  cases h with
  | opening => rfl
  | closing =>
    have hne : ')' ≠ '(' := by decide
    rw [Item.depth?, Line.depth?, charDepth?, if_neg hne, if_pos rfl]
    split <;> rfl
  | sign hc =>
    refine (Line.depth?_of_forall (fun c hmem ↦ ?_) depth).symm
    rw [List.mem_singleton.mp hmem]
    exact ne_bracket_of (p := fun c ↦ !isReservedChar c) rfl rfl
      (by rw [not_isReservedChar_of_sign? hc]; rfl)
  | number htext =>
    exact (Line.depth?_of_forall (fun c hmem ↦ ne_bracket_of rfl rfl (htext.all c hmem))
      depth).symm
  | operator _ htext _ | value _ htext _ _ =>
    exact (Line.depth?_of_forall (fun c hmem ↦ ne_bracket_of
      (by simp [isWordChar]) (by simp [isWordChar]) (htext c hmem)) depth).symm

/-- Lexemes open and close the brackets that are among their characters. -/
theorem Lexes.depth?_eq (h : voc.Lexes scope index line lexemes) (depth : Nat) :
    Lexeme.depth? depth lexemes = Line.depth? depth line := by
  induction h generalizing depth with
  | nil => rfl
  | blank hc _ ih =>
    obtain ⟨hopening, hclosing⟩ := ne_bracket_of (p := isBlank) (by decide) (by decide) hc
    rw [Line.depth?, charDepth?, if_neg hopening, if_neg hclosing]
    exact ih depth
  | token htext _ _ ih =>
    rw [Lexeme.depth?, htext.depth?_eq, Line.depth?_append]
    exact congrArg _ (funext ih)

/-- A line that is accepted leaves open the brackets that are not closed. -/
theorem Lexes.depth?_of_awaiting (h : voc.Lexes scope index line lexemes)
    (hresult : awaiting voc [] lexemes = some tree) :
    line.count ')' ≤ line.count '(' ∧
      Lexeme.depth? 0 lexemes = some (line.count '(' - line.count ')') := by
  obtain ⟨depth, hdepth⟩ : ∃ depth, Lexeme.depth? 0 lexemes = some depth :=
    Option.isSome_iff_exists.mp (Place.isSome_depth?_of_result (p := .awaiting []) hresult)
  have hcount := Line.count_of_depth? ((h.depth?_eq 0).symm.trans hdepth)
  have heq : depth = line.count '(' - line.count ')' := by omega
  exact ⟨by omega, heq ▸ hdepth⟩

/-- Somewhere on a line, in brackets, an accepted line whose brackets are closed is read as what it
is on its own, whatever waits for it and whatever follows. -/
theorem Lexes.exists_bracketed (hparse : voc.parse scope line = .ok tree)
    (hclosed : line.count '(' = line.count ')') (index : Nat)
    (hrest : voc.Lexes scope (index + 1 + line.length + 1) rest others) :
    ∃ lexemes, voc.Lexes scope index ('(' :: (line ++ ')' :: rest)) lexemes ∧
      ∀ frames, awaiting voc frames lexemes =
        holding voc frames (tree.shift (index + 1)) others := by
  obtain ⟨⟨items, hitems, hresult⟩, -⟩ := parse_eq_ok_iff_lexes.mp hparse
  obtain ⟨-, hdepth⟩ := hitems.depth?_of_awaiting hresult
  rw [hclosed, Nat.sub_self] at hdepth
  have hinside := hitems.shift (index + 1)
  rw [Nat.zero_add] at hinside
  have hclosing : voc.Lexes scope (index + 1 + line.length) (')' :: rest) _ :=
    .token .closing (fun _ _ ↦ rfl) hrest
  have hgroup := (lexes_append_iff Parts.closing).mpr ⟨_, _, hinside, hclosing, rfl⟩
  refine ⟨_, .token .opening (fun _ _ ↦ rfl) hgroup, fun frames ↦ ?_⟩
  rw [awaiting_opening, awaiting_bracket_closing (by rwa [Lexeme.depth?_relocate]),
    awaiting_relocate, hresult]
  rfl

/-! ## Lines in brackets -/

variable {symbol : String}

/-- A line in brackets is the line, one character further to the right. -/
theorem parse_bracketed (hparse : voc.parse scope line = .ok tree)
    (hclosed : line.count '(' = line.count ')') :
    voc.parse scope ('(' :: (line ++ [')'])) = .ok (tree.shift 1) := by
  obtain ⟨lexemes, hlexes, hreads⟩ := Lexes.exists_bracketed hparse hclosed 0 .nil
  refine (hlexes.parse_eq_ok_iff ((hreads []).trans (holding_nil [] _))).mpr ?_
  rw [Nat.zero_add, closeAll, List.foldl_nil, Expr.shift, Expr.height_relocate]
  exact (parse_eq_ok_iff_lexes.mp hparse).2

/-- An operator in front of a line in brackets has the line as its operand. -/
theorem parse_before_bracketed {op : UnaryOperator} (hop : voc.resolve? symbol = some (.beside op))
    (hside : op.side = .before) (hparse : voc.parse scope line = .ok tree)
    (hclosed : line.count '(' = line.count ')') :
    voc.parse scope (symbol.toList ++ ' ' :: '(' :: (line ++ [')'])) =
        .ok (.unary op (tree.shift (symbol.toList.length + 2))
          ⟨0, (tree.shift (symbol.toList.length + 2)).span.stop⟩) ↔
      tree.height < heightLimit := by
  obtain ⟨belongs, hdenotes, -, hstops⟩ := exists_denotes_of_resolve? scope hop
  have hblank : isBlank ' ' = true := by decide
  obtain ⟨lexemes, hlexes, hreads⟩ :=
    Lexes.exists_bracketed hparse hclosed (0 + symbol.toList.length + 1) .nil
  have hopens : awaiting voc []
      (⟨.operator (.beside op), ⟨0, 0 + symbol.toList.length⟩⟩ :: lexemes) =
        awaiting voc [.before op (orderBefore op lexemes) 0] lexemes := awaiting_before hside
  have hresult := hopens.trans ((hreads _).trans (holding_nil _ _))
  have hparsed := (Lexes.token hdenotes (hstops _) (.blank hblank hlexes)).parse_eq_ok_iff hresult
  rw [Nat.zero_add] at hparsed
  refine hparsed.trans ?_
  rw [closeAll, List.foldl_cons, List.foldl_nil, Frame.close, Expr.height, Expr.shift,
    Expr.height_relocate, Nat.succ_le_iff]

/-- An operator behind a line in brackets has the line as its operand. -/
theorem parse_bracketed_after {op : UnaryOperator} (hop : voc.resolve? symbol = some (.beside op))
    (hside : op.side = .after) (hparse : voc.parse scope line = .ok tree)
    (hclosed : line.count '(' = line.count ')') :
    voc.parse scope ('(' :: (line ++ ')' :: ' ' :: symbol.toList)) =
        .ok (.unary op (tree.shift 1)
          ⟨(tree.shift 1).span.start, line.length + 3 + symbol.toList.length⟩) ↔
      tree.height < heightLimit := by
  obtain ⟨belongs, hdenotes, hstops, -⟩ := exists_denotes_of_resolve? scope hop
  have hblank : isBlank ' ' = true := by decide
  have hop : voc.Lexes scope (0 + 1 + line.length + 1 + 1) (symbol.toList ++ []) _ :=
    .token hdenotes hstops .nil
  rw [List.append_nil] at hop
  obtain ⟨lexemes, hlexes, hreads⟩ :=
    Lexes.exists_bracketed hparse hclosed 0 (.blank hblank hop)
  have hresult := (hreads []).trans ((holding_eq_holding (arrival_after hside _ _)).trans
    (holding_nil _ _))
  have hparsed := hlexes.parse_eq_ok_iff hresult
  have hstop : 0 + 1 + line.length + 1 + 1 = line.length + 3 := by omega
  rw [hstop, Nat.zero_add] at hparsed
  refine hparsed.trans ?_
  rw [Descent.settle, closeAll, List.foldl_nil, Expr.height, Expr.shift, Expr.height_relocate,
    Nat.succ_le_iff]

/-- An operator between two lines in brackets has these as its operands. -/
theorem parse_bracketed_between {op : BinaryOperator} {line' : Line} {tree' : Expr}
    (hop : voc.resolve? symbol = some (.between op)) (hparse : voc.parse scope line = .ok tree)
    (hclosed : line.count '(' = line.count ')') (hparse' : voc.parse scope line' = .ok tree')
    (hclosed' : line'.count '(' = line'.count ')') :
    voc.parse scope
        ('(' :: (line ++ ')' :: ' ' :: (symbol.toList ++ ' ' :: '(' :: (line' ++ [')'])))) =
        .ok (.binary op (tree.shift 1) (tree'.shift (line.length + symbol.toList.length + 5))
          ((tree.shift 1).span.hull
            (tree'.shift (line.length + symbol.toList.length + 5)).span)) ↔
      max tree.height tree'.height < heightLimit := by
  obtain ⟨belongs, hdenotes, -, hstops⟩ := exists_denotes_of_resolve? scope hop
  have hblank : isBlank ' ' = true := by decide
  obtain ⟨others, hothers, hreads'⟩ := Lexes.exists_bracketed hparse' hclosed'
    (0 + 1 + line.length + 1 + 1 + symbol.toList.length + 1) .nil
  obtain ⟨lexemes, hlexes, hreads⟩ := Lexes.exists_bracketed hparse hclosed 0
    (.blank hblank (.token hdenotes (hstops _) (.blank hblank hothers)))
  have hresult := (hreads []).trans ((holding_eq_awaiting rfl).trans
    ((hreads' _).trans (holding_nil _ _)))
  have hparsed := hlexes.parse_eq_ok_iff hresult
  have hoffset : 0 + 1 + line.length + 1 + 1 + symbol.toList.length + 1 + 1 =
      line.length + symbol.toList.length + 5 := by omega
  rw [hoffset, Nat.zero_add] at hparsed
  refine hparsed.trans ?_
  rw [Descent.settle, closeAll, List.foldl_cons, List.foldl_nil, Frame.close, Expr.height,
    Expr.shift, Expr.height_relocate, Expr.shift, Expr.height_relocate, Nat.succ_le_iff]

/-- Closing brackets at the end of a line, no more than are open, are lexemes that close. -/
theorem Lexes.exists_closings (voc : Vocabulary) (scope : Scope) (count index : Nat) :
    ∃ closings, voc.Lexes scope index (List.replicate count ')') closings ∧
      closings.length = count ∧ ∀ lexeme ∈ closings, lexeme.item = .closing := by
  induction count generalizing index with
  | zero => exact ⟨[], .nil, rfl, fun _ ↦ nofun⟩
  | succ count ih =>
    obtain ⟨closings, hlexes, hlength, hclosings⟩ := ih (index + 1)
    refine ⟨_, .token .closing (fun _ _ ↦ rfl) hlexes, congrArg Nat.succ hlength, ?_⟩
    exact List.forall_mem_cons.mpr ⟨rfl, hclosings⟩

/-- Closing brackets at the end of a line that leaves so many open change nothing. -/
theorem parse_append_closings (hparse : voc.parse scope line = .ok tree) {count : Nat}
    (hcount : count ≤ line.count '(' - line.count ')') :
    voc.parse scope (line ++ List.replicate count ')') = .ok tree := by
  obtain ⟨⟨lexemes, hlexes, hresult⟩, hheight⟩ := parse_eq_ok_iff_lexes.mp hparse
  obtain ⟨closings, hclosed, hlength, hclosings⟩ :=
    Lexes.exists_closings voc scope count (0 + line.length)
  obtain ⟨-, hdepth⟩ := hlexes.depth?_of_awaiting hresult
  have hparts : voc.Parts (List.replicate count ')') := by
    cases count with
    | zero => exact .nil
    | succ count => exact .closing
  have happend := (lexes_append_iff hparts).mpr ⟨_, _, hlexes, hclosed, rfl⟩
  refine (happend.parse_eq_ok_iff ?_).mpr hheight
  rw [← hresult]
  exact Place.result_append_closings (p := .awaiting []) closings hclosings hdepth
    (hlength ▸ hcount)

/-- Brackets isolate: an accepted line whose brackets are all closed is read as the same expression
in brackets, and as an operand of whatever operator stands beside them. On an accepted line that
leaves brackets open, closing some of them changes nothing. -/
theorem brackets_isolate (hparse : voc.parse scope line = .ok tree) :
    (line.count '(' = line.count ')' →
      voc.parse scope ('(' :: (line ++ [')'])) = .ok (tree.shift 1) ∧
      (∀ symbol op, voc.resolve? symbol = some (.beside op) → op.side = .before →
        (voc.parse scope (symbol.toList ++ ' ' :: '(' :: (line ++ [')'])) =
            .ok (.unary op (tree.shift (symbol.toList.length + 2))
              ⟨0, (tree.shift (symbol.toList.length + 2)).span.stop⟩) ↔
          tree.height < heightLimit)) ∧
      (∀ symbol op, voc.resolve? symbol = some (.beside op) → op.side = .after →
        (voc.parse scope ('(' :: (line ++ ')' :: ' ' :: symbol.toList)) =
            .ok (.unary op (tree.shift 1)
              ⟨(tree.shift 1).span.start, line.length + 3 + symbol.toList.length⟩) ↔
          tree.height < heightLimit)) ∧
      ∀ symbol op line' tree', voc.resolve? symbol = some (.between op) →
        voc.parse scope line' = .ok tree' → line'.count '(' = line'.count ')' →
        (voc.parse scope
            ('(' :: (line ++ ')' :: ' ' :: (symbol.toList ++ ' ' :: '(' :: (line' ++ [')'])))) =
            .ok (.binary op (tree.shift 1) (tree'.shift (line.length + symbol.toList.length + 5))
              ((tree.shift 1).span.hull
                (tree'.shift (line.length + symbol.toList.length + 5)).span)) ↔
          max tree.height tree'.height < heightLimit)) ∧
    ∀ count, count ≤ line.count '(' - line.count ')' →
      voc.parse scope (line ++ List.replicate count ')') = .ok tree := by
  refine ⟨fun hclosed ↦ ⟨parse_bracketed hparse hclosed, ?_, ?_, ?_⟩, ?_⟩
  · intro symbol op hop hside
    exact parse_before_bracketed hop hside hparse hclosed
  · intro symbol op hop hside
    exact parse_bracketed_after hop hside hparse hclosed
  · intro symbol op line' tree' hop hparse' hclosed'
    exact parse_bracketed_between hop hparse hclosed hparse' hclosed'
  · intro count hcount
    exact parse_append_closings hparse hcount

/-- A line in brackets beside operators of each form, and a line that leaves a bracket open. -/
theorem brackets_isolate_standard :
    (∃ tree, standard.parse .bare "1 + 2^(3".toList = .ok tree ∧
      standard.parse .bare "1 + 2^(3)".toList = .ok tree) ∧
    ∃ tree, standard.parse .bare "1 + 2^(3)".toList = .ok tree ∧
      standard.parse .bare "(1 + 2^(3))".toList = .ok (tree.shift 1) ∧
      standard.parse .bare "- (1 + 2^(3))".toList =
        .ok (.unary Standard.negation (tree.shift 3) ⟨0, (tree.shift 3).span.stop⟩) ∧
      standard.parse .bare "(1 + 2^(3)) degree".toList =
        .ok (.unary Standard.degree (tree.shift 1) ⟨(tree.shift 1).span.start, 18⟩) ∧
      standard.parse .bare "(1 + 2^(3)) mod (1 + 2^(3))".toList =
        .ok (.binary Standard.modulo (tree.shift 1) (tree.shift 17)
          ((tree.shift 1).span.hull (tree.shift 17).span)) := by
  have hchecked : (standard.parse .bare "1 + 2^(3".toList).toOption.any
      (fun tree ↦ tree.height < heightLimit) = true := by
    decide +kernel
  obtain ⟨tree, hparse, hheight⟩ := exists_of_any_toOption hchecked
  replace hheight := of_decide_eq_true hheight
  have hclose : standard.parse .bare "1 + 2^(3)".toList = .ok tree :=
    (brackets_isolate hparse).2 1 (by decide)
  obtain ⟨hbracketed, hbefore, hafter, hbetween⟩ := (brackets_isolate hclose).1 (by decide)
  refine ⟨⟨tree, hparse, hclose⟩, tree, hclose, hbracketed, ?_, ?_, ?_⟩
  · exact (hbefore "-" Standard.negation rfl rfl).mpr hheight
  · exact (hafter "degree" Standard.degree rfl rfl).mpr hheight
  · exact (hbetween "mod" Standard.modulo _ tree rfl hclose (by decide)).mpr
      (Nat.max_lt.mpr ⟨hheight, hheight⟩)

end Vocabulary

end Reckoner
