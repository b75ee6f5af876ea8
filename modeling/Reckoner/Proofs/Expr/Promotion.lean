import Reckoner.Proofs.Expr.Brackets
import Reckoner.Proofs.Expr.InOrder

/-!
# Named operators in front of a bracket

A named operator in front of a bracket takes on the order `bracketOrder`, so that it binds what is
in the bracket before the operators behind the bracket are read. Its operand is the bracket alone if
what follows the bracket yields to that order. An operator of a higher order behind the bracket does
not yield to it, and is drawn into the operand.
-/

namespace Reckoner

/-- A part has no more nodes than the whole. -/
theorem Expr.IsPart.nodeCount_le {part whole : Expr} (h : part.IsPart whole) :
    part.nodeCount ≤ whole.nodeCount := by
  induction h with
  | refl => exact Nat.le_refl _
  | unary _ ih =>
    rw [nodeCount]
    omega
  | left _ ih =>
    rw [nodeCount]
    omega
  | right _ ih =>
    rw [nodeCount]
    omega

namespace Descent

section

variable {voc : Vocabulary} {context : Option Nat} {frames : List Frame} {items rest : List Lexeme}
  {left expr operand : Expr}

/-! ## What is read stays part of what it is read into -/

/-- An operand takes up a lexeme. -/
theorem length_lt_of_readOperand (h : readOperand voc context items = some (expr, rest)) :
    rest.length < items.length := by
  obtain ⟨reading, -, hpair⟩ := Option.map_eq_some_iff.mp h
  cases hpair
  exact reading.length_lt

/-- A value is part of all that goes on with it. -/
theorem isPart_of_readOn (h : readOn voc context left items = some (expr, rest)) :
    left.IsPart expr := by
  induction hlength : items.length using Nat.strongRecOn generalizing left items with
  | ind length ih =>
    subst hlength
    cases harrival : arrival voc items with
    | nothing =>
      cases (readOn_of_nothing harrival).symm.trans h
      exact .refl
    | number => cases (readOn_of_number harrival).symm.trans h
    | between op start =>
      cases hyields : context.any op.yieldsTo with
      | true =>
        cases (readOn_between_of_yieldsTo harrival hyields).symm.trans h
        exact .refl
      | false =>
        obtain ⟨right, hright, hrest⟩ :=
          Option.bind_eq_some_iff.mp ((readOn_between harrival hyields).symm.trans h)
        have hlt : right.2.length < items.length :=
          Nat.lt_of_lt_of_le (length_lt_of_readOperand hright)
            (length_le_of_arrival_eq_between harrival)
        exact (Expr.IsPart.left .refl).trans (ih _ hlt hrest rfl)
    | after op stop others =>
      cases hyields : context.any op.yieldsTo with
      | true =>
        cases (readOn_after_of_yieldsTo harrival hyields).symm.trans h
        exact .refl
      | false =>
        have hlt := length_lt_of_arrival_eq_after harrival
        have hrest := (readOn_after harrival hyields).symm.trans h
        exact (Expr.IsPart.unary .refl).trans (ih _ hlt hrest rfl)

/-- A frame that closes has read an operand, and what it makes of it is held. -/
theorem exists_readOn_of_holding (frame : Frame)
    (h : holding voc (frame :: frames) left items = some expr) :
    ∃ operand rest others, readOn voc frame.order? left items = some (operand, rest) ∧
      holding voc frames (frame.close operand) others = some expr := by
  obtain ⟨⟨operand, rest⟩, hread, hresume⟩ := Option.bind_eq_some_iff.mp h
  obtain ⟨others, -, hholding⟩ := Option.bind_eq_some_iff.mp hresume
  exact ⟨operand, rest, others, hread, hholding⟩

/-- What a frame is closed with is part of what it makes of it. -/
theorem isPart_close (frame : Frame) (expr : Expr) : expr.IsPart (frame.close expr) := by
  cases frame with
  | between => exact .right .refl
  | before => exact .unary .refl
  | bracket => exact .refl

/-- A value is part of what the line comes to. -/
theorem isPart_of_holding (h : holding voc frames left items = some expr) : left.IsPart expr := by
  induction frames generalizing left items with
  | nil =>
    obtain ⟨⟨operand, rest⟩, hread, hend⟩ := Option.bind_eq_some_iff.mp h
    obtain ⟨-, heq⟩ := Option.ite_none_right_eq_some.mp hend
    cases heq
    exact isPart_of_readOn hread
  | cons frame frames ih =>
    obtain ⟨operand, _, _, hread, hholding⟩ := exists_readOn_of_holding frame h
    exact (isPart_of_readOn hread).trans ((isPart_close frame operand).trans (ih hholding))

/-! ## What follows an operand -/

/-- Whether what follows a value, if anything does, yields to an operator of an order that waits for
the value. -/
def Arrival.yieldsTo (order : Nat) : Arrival → Bool
  | .nothing => true
  | .between op _ => op.yieldsTo order
  | .after op _ _ => op.yieldsTo order
  | .number => false

/-- Where what follows a value stands does not matter. -/
theorem yieldsTo_relocate (move : Relocation) (items : List Lexeme) (order : Nat) :
    (arrival voc (items.map (Lexeme.relocate move))).yieldsTo order =
      (arrival voc items).yieldsTo order := by
  match items with
  | [] => rfl
  | ⟨.operator (.beside op), span⟩ :: rest =>
    cases hside : op.side with
    | before =>
      rw [arrival_before hside, List.map_cons, Lexeme.relocate, arrival_before hside]
      rfl
    | after =>
      rw [arrival_after hside, List.map_cons, Lexeme.relocate, arrival_after hside]
      rfl
  | ⟨.number _, _⟩ :: _ | ⟨.value _, _⟩ :: _ | ⟨.operator (.between _), _⟩ :: _
  | ⟨.opening, _⟩ :: _ | ⟨.closing, _⟩ :: _ => rfl

/-- An operand is the value that it begins with if and only if what follows the value yields. -/
theorem eq_iff_of_readOn {order : Nat}
    (h : readOn voc (some order) left items = some (operand, rest)) :
    operand = left ↔ (arrival voc items).yieldsTo order = true := by
  cases harrival : arrival voc items with
  | nothing =>
    cases (readOn_of_nothing harrival).symm.trans h
    exact iff_of_true rfl rfl
  | number => cases (readOn_of_number harrival).symm.trans h
  | between op start =>
    cases hyields : (some order).any op.yieldsTo with
    | true =>
      cases (readOn_between_of_yieldsTo harrival hyields).symm.trans h
      exact iff_of_true rfl hyields
    | false =>
      obtain ⟨right, -, hrest⟩ :=
        Option.bind_eq_some_iff.mp ((readOn_between harrival hyields).symm.trans h)
      have hle := (isPart_of_readOn hrest).nodeCount_le
      refine iff_of_false ?_ (Bool.eq_false_iff.mp hyields)
      rintro rfl
      rw [Expr.nodeCount] at hle
      omega
  | after op stop others =>
    cases hyields : (some order).any op.yieldsTo with
    | true =>
      cases (readOn_after_of_yieldsTo harrival hyields).symm.trans h
      exact iff_of_true rfl hyields
    | false =>
      have hrest := (readOn_after harrival hyields).symm.trans h
      have hle := (isPart_of_readOn hrest).nodeCount_le
      refine iff_of_false ?_ (Bool.eq_false_iff.mp hyields)
      rintro rfl
      rw [Expr.nodeCount] at hle
      omega

/-- Behind an operator before its operand, the operand is what is read with the order of the
operator. -/
theorem exists_operand_of_holding {op : UnaryOperator} {order start : Nat}
    (h : holding voc (.before op order start :: frames) left items = some expr) :
    ∃ operand, (Expr.unary op operand ⟨start, operand.span.stop⟩).IsPart expr ∧
      (operand = left ↔ (arrival voc items).yieldsTo order = true) := by
  obtain ⟨operand, _, _, hread, hholding⟩ := exists_readOn_of_holding _ h
  exact ⟨operand, isPart_of_holding hholding, eq_iff_of_readOn hread⟩

end

end Descent

/-! ## The characters in a bracket -/

namespace Line

/-- The characters up to the bracket that closes one which was open in front of them, or all. -/
def bracketed (depth : Nat) : Line → Line
  | [] => []
  | c :: rest =>
    match charDepth? depth c with
    | some depth => c :: bracketed depth rest
    | none => []

/-- The characters in a bracket close no other bracket. Behind them the bracket is closed, unless
the line ends. -/
theorem bracketed_eq_or (depth : Nat) (line : Line) :
    (bracketed depth line = line ∧ (depth? depth line).isSome) ∨
      ∃ behind, line = bracketed depth line ++ ')' :: behind ∧
        depth? depth (bracketed depth line) = some 0 := by
  induction line generalizing depth with
  | nil => exact .inl ⟨rfl, rfl⟩
  | cons c rest ih =>
    rw [bracketed]
    cases hc : charDepth? depth c with
    | some depth' =>
      simp only [depth?, hc, Option.bind_some]
      rcases ih depth' with ⟨heq, hsome⟩ | ⟨behind, heq, hdepth⟩
      · exact .inl ⟨by rw [heq], hsome⟩
      · exact .inr ⟨behind, by rw [List.cons_append, ← heq], hdepth⟩
    | none =>
      rw [charDepth?] at hc
      split at hc
      · cases hc
      · split at hc
        · split at hc
          · rename_i hclosing hzero
            subst hclosing hzero
            exact .inr ⟨rest, rfl, rfl⟩
          · cases hc
        · cases hc

end Line

namespace Vocabulary

open Descent

variable {voc : Vocabulary} {scope : Scope} {index : Nat} {line post : Line}
  {lexemes : List Lexeme} {expr : Expr}

/-- The lexemes of characters behind an opening bracket. -/
theorem Lexes.exists_of_opening (h : voc.Lexes scope index ('(' :: line) lexemes) :
    ∃ others, voc.Lexes scope (index + 1) line others ∧
      lexemes = ⟨.opening, ⟨index, index + 1⟩⟩ :: others := by
  rw [lexes_iff, Token.scan_single OpenToken.step_none_opening] at h
  obtain ⟨item, others, hitem, hothers, rfl⟩ := Token.mapM_lexeme_cons_eq_ok_iff.mp h
  cases hitem
  exact ⟨others, .of_mapM_scan line hothers, rfl⟩

/-- The lexemes of characters behind a closing bracket. -/
theorem Lexes.exists_of_closing (h : voc.Lexes scope index (')' :: line) lexemes) :
    ∃ others, voc.Lexes scope (index + 1) line others ∧
      lexemes = ⟨.closing, ⟨index, index + 1⟩⟩ :: others := by
  rw [lexes_iff, Token.scan_single OpenToken.step_none_closing] at h
  obtain ⟨item, others, hitem, hothers, rfl⟩ := Token.mapM_lexeme_cons_eq_ok_iff.mp h
  cases hitem
  exact ⟨others, .of_mapM_scan line hothers, rfl⟩

/-- What stands in a bracket on an accepted line is accepted on its own, and is held behind the
bracket, in front of what follows it. -/
theorem Lexes.exists_group {frames : List Frame} (h : voc.Lexes scope index post lexemes)
    (hresult : awaiting voc (.bracket :: frames) lexemes = some expr) :
    ∃ inside group others, voc.Lexes scope 0 (Line.bracketed 0 post) inside ∧
      awaiting voc [] inside = some group ∧
      voc.Lexes scope (index + (Line.bracketed 0 post).length + 1)
        (post.drop ((Line.bracketed 0 post).length + 1)) others ∧
      holding voc frames (group.shift index) others = some expr := by
  rcases Line.bracketed_eq_or 0 post with ⟨heq, hsome⟩ | ⟨behind, heq, hdepth⟩
  · rw [awaiting_bracket (by rwa [h.depth?_eq])] at hresult
    obtain ⟨group, hgroup, hrest⟩ := Option.bind_eq_some_iff.mp hresult
    obtain ⟨inside, tree, hinside, htree, rfl⟩ := h.exists_awaiting hgroup
    have hdrop : post.drop (post.length + 1) = [] := List.drop_eq_nil_of_le (Nat.le_succ _)
    rw [heq, hdrop]
    exact ⟨inside, tree, [], hinside, htree, .nil, hrest⟩
  · generalize Line.bracketed 0 post = line at heq hdepth
    subst heq
    obtain ⟨before, after, hbefore, hafter, rfl⟩ := (lexes_append_iff Parts.closing).mp h
    obtain ⟨others, hothers, rfl⟩ := hafter.exists_of_closing
    rw [awaiting_bracket_closing (by rwa [hbefore.depth?_eq])] at hresult
    obtain ⟨group, hgroup, hrest⟩ := Option.bind_eq_some_iff.mp hresult
    obtain ⟨inside, tree, hinside, htree, rfl⟩ := hbefore.exists_awaiting hgroup
    have hdrop : (line ++ ')' :: behind).drop (line.length + 1) = behind := by
      rw [List.drop_append, Nat.add_sub_cancel_left, List.drop_succ_cons, List.drop_zero,
        List.drop_eq_nil_of_le (Nat.le_succ _), List.nil_append]
    rw [hdrop]
    exact ⟨inside, tree, others, hinside, htree, hothers, hrest⟩

/-- The last lexeme of some characters is that of their last token. -/
theorem Lexes.exists_of_getLast? {token : Token} (h : voc.Lexes scope 0 line lexemes)
    (hlast : (Token.ofLine voc line).getLast? = some token) :
    ∃ first item, token.item voc scope = .ok item ∧ lexemes = first ++ [⟨item, token.span⟩] := by
  obtain ⟨tokens, htokens⟩ := List.getLast?_eq_some_iff.mp hlast
  have hlexemes : (tokens ++ [token]).mapM (Token.lexeme voc scope) = .ok lexemes :=
    htokens ▸ h.mapM_scan
  rw [List.mapM_append] at hlexemes
  obtain ⟨first, -, hlexemes⟩ := bind_eq_ok_iff.mp hlexemes
  obtain ⟨last, hlast, hlexemes⟩ := bind_eq_ok_iff.mp hlexemes
  obtain ⟨item, others, hitem, hothers, rfl⟩ := Token.mapM_lexeme_cons_eq_ok_iff.mp hlast
  cases hothers
  cases hlexemes
  exact ⟨first, item, hitem, rfl⟩

/-- A named operator in front of a bracket waits, with the order of a bracket, for what stands in
it. -/
theorem Lexes.exists_promoted {pre : Line} {name : String} {op : UnaryOperator} {span : Span}
    (h : voc.Lexes scope 0 (pre ++ '(' :: post) lexemes)
    (hresult : awaiting voc [] lexemes = some expr)
    (hlast : (Token.ofLine voc pre).getLast? = some ⟨.word name, span⟩)
    (hnamed : voc.named? name = some (.beside op)) (hside : op.side = .before) :
    ∃ frames items, voc.Lexes scope (pre.length + 1) post items ∧
      awaiting voc (.bracket :: .before op bracketOrder span.start :: frames) items =
        some expr := by
  obtain ⟨before, after, hbefore, hafter, rfl⟩ := (lexes_append_iff Parts.opening).mp h
  obtain ⟨items, hitems, rfl⟩ := hafter.exists_of_opening
  obtain ⟨first, item, hitem, rfl⟩ := hbefore.exists_of_getLast? hlast
  simp only [Token.item, hnamed] at hitem
  cases hitem
  -- What is in front of the operator leads to some place, and there the operator begins an operand.
  rw [List.append_assoc, List.singleton_append] at hresult
  obtain ⟨p, -, hresult⟩ := Option.bind_eq_some_iff.mp
    ((Place.result_append first _ (.awaiting [])).symm.trans hresult)
  obtain ⟨frames, hframes⟩ := Place.exists_connect_before voc hside p
  have hawaiting := (Place.result_connect p).trans hresult
  rw [hframes] at hawaiting
  have hbegun := (awaiting_before hside).symm.trans hawaiting
  rw [orderBefore, if_neg (Bool.eq_false_iff.mp (isInstant_of_named? hnamed)),
    awaiting_opening] at hbegun
  rw [Nat.zero_add] at hitems
  exact ⟨frames, items, hitems, hbegun⟩

/-- A named operator before its operand, in front of a bracket on an accepted line, has one operand.
It is what stands in the bracket, up to the closing bracket or the end of the line, if and only if
what follows the bracket yields to the order of a bracket. -/
theorem exists_operand_of_parse {pre : Line} {name : String} {op : UnaryOperator} {span : Span}
    (hparse : voc.parse scope (pre ++ '(' :: post) = .ok expr)
    (hlast : (Token.ofLine voc pre).getLast? = some ⟨.word name, span⟩)
    (hnamed : voc.named? name = some (.beside op)) (hside : op.side = .before) :
    ∃ group operand behind,
      voc.parse scope (Line.bracketed 0 post) = .ok group ∧
      (∀ x stop, (Expr.unary op x ⟨span.start, stop⟩).IsPart expr ↔
        x = operand ∧ stop = operand.span.stop) ∧
      (Token.ofLine voc (post.drop ((Line.bracketed 0 post).length + 1))).mapM
        (Token.lexeme voc scope) = .ok behind ∧
      (operand = group.shift (pre.length + 1) ↔
        (arrival voc behind).yieldsTo bracketOrder = true) := by
  obtain ⟨⟨lexemes, hlexes, hresult⟩, hheight⟩ := parse_eq_ok_iff_lexes.mp hparse
  obtain ⟨frames, items, hitems, hawaiting⟩ := hlexes.exists_promoted hresult hlast hnamed hside
  obtain ⟨inside, group, behind, hinside, hgroup, hbehind, hholding⟩ :=
    hitems.exists_group hawaiting
  obtain ⟨operand, hpart, hiff⟩ := exists_operand_of_holding hholding
  have hgroupheight : group.height ≤ heightLimit := by
    have hle := (isPart_of_holding hholding).height_le
    rw [Expr.shift, Expr.height_relocate] at hle
    exact Nat.le_trans hle hheight
  obtain ⟨others, hothers, rfl⟩ := hbehind.exists_eq_map_shift
  rw [yieldsTo_relocate] at hiff
  refine ⟨group, operand, others, parse_eq_ok_iff_lexes.mpr ⟨⟨inside, hinside, hgroup⟩,
    hgroupheight⟩, fun x stop ↦ ⟨fun h ↦ ?_, ?_⟩, hothers.mapM_scan, hiff⟩
  · exact (hlexes.inOrder hresult).before_unique hside hside h hpart
  · rintro ⟨rfl, rfl⟩
    exact hpart

/-- The square root of a bracket, which is then raised to a power. -/
theorem exists_operand_of_parse_standard :
    let sqrt := Standard.before "sqrt" 2 (Rule.total Float.sqrt)
    ∃ expr group operand,
      standard.parse .bare ("2 sqrt ".toList ++ '(' :: "9)^2".toList) = .ok expr ∧
      (Token.ofLine standard "2 sqrt ".toList).getLast? = some ⟨.word "sqrt", ⟨2, 6⟩⟩ ∧
      standard.named? "sqrt" = some (.beside sqrt) ∧ sqrt.side = .before ∧
      standard.parse .bare "9".toList = .ok group ∧
      (∀ x stop, (Expr.unary sqrt x ⟨2, stop⟩).IsPart expr ↔
        x = operand ∧ stop = operand.span.stop) ∧
      operand = group.shift 8 := by
  intro sqrt
  have hchecked : (standard.parse .bare ("2 sqrt ".toList ++ '(' :: "9)^2".toList)).toOption.isSome
      = true := by
    decide +kernel
  obtain ⟨expr, hparse⟩ := exists_of_isSome_toOption hchecked
  have hlast : (Token.ofLine standard "2 sqrt ".toList).getLast? =
      some ⟨.word "sqrt", ⟨2, 6⟩⟩ := by rfl
  have hnamed : standard.named? "sqrt" = some (.beside sqrt) := by rfl
  obtain ⟨group, operand, behind, hgroup, hoperand, hbehind, hiff⟩ :=
    exists_operand_of_parse hparse hlast hnamed rfl
  have hyields : ((Token.ofLine standard "^2".toList).mapM
      (Token.lexeme standard .bare)).toOption.any
        (fun behind ↦ (arrival standard behind).yieldsTo bracketOrder) = true := by
    decide +kernel
  have hbehind : (Token.ofLine standard "^2".toList).mapM (Token.lexeme standard .bare) =
      .ok behind := hbehind
  rw [hbehind] at hyields
  exact ⟨expr, group, operand, hparse, hlast, hnamed, rfl, hgroup, hoperand, hiff.mpr hyields⟩

/-- An operator of a higher order behind the bracket is drawn into the operand: with such a power
`sin(2)^2` is the sine of `2^2`, and no operator has the bracket alone. -/
theorem exists_not_isPart_of_parse_tighter :
    let tighter : BinaryOperator := { Standard.power with order := 6 }
    let sin := Standard.before "sin" 2 (Rule.total Float.sin)
    ∃ voc expr group,
      Definitions.build ⟨[Standard.addition, Standard.multiplication, tighter], [sin], []⟩ =
        .ok voc ∧
      voc.parse .bare "sin(2)^2".toList = .ok expr ∧ voc.parse .bare "2".toList = .ok group ∧
      ∀ op stop, ¬ (Expr.unary op (group.shift 4) ⟨0, stop⟩).IsPart expr := by
  intro tighter sin
  have hchecked : ((Definitions.build ⟨[Standard.addition, Standard.multiplication, tighter],
      [sin], []⟩).toOption.any fun voc ↦
      ((voc.parse .bare "sin(2)^2".toList).toOption.any fun
        | .unary _ (.binary _ (.literal _ _) (.literal _ _) _) _ => true
        | _ => false) &&
      ((voc.parse .bare "2".toList).toOption.any fun
        | .literal _ _ => true
        | _ => false)) = true := by
    decide +kernel
  obtain ⟨voc, hbuild, hvoc⟩ := exists_of_any_toOption hchecked
  obtain ⟨hexpr, hgroup⟩ := Bool.and_eq_true_iff.mp hvoc
  obtain ⟨expr, hparse, hexpr⟩ := exists_of_any_toOption hexpr
  obtain ⟨group, hparse', hgroup⟩ := exists_of_any_toOption hgroup
  refine ⟨voc, expr, group, hbuild, hparse, hparse', ?_⟩
  intro op stop hpart
  cases group with
  | literal value span =>
    split at hexpr
    · -- The operand is the whole operation behind the bracket, and no part of it has an operand.
      cases hpart with
      | unary hpart =>
        cases hpart with
        | left hpart => cases hpart
        | right hpart => cases hpart
    · cases hexpr
  | unary => cases hgroup
  | binary => cases hgroup

end Vocabulary

end Reckoner
