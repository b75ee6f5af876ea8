import Reckoner.Proofs.Expr.Built
import Reckoner.Proofs.Expr.Viable
import Reckoner.Vocabulary.Standard

/-!
# Where faults begin

Where a line is refused because something is missing or cannot be read, the characters in front of
the fault can be completed. So the fault never begins behind the first character that is wrong.

The span of a fault begins where a token begins, the one that is read or one that was read before
and is on the stacks, and the line can be completed up to each of these. Only a line that ends too
early is at fault at its last character, which may be an opening bracket or a blank. A character too
many is at fault where it stands, and there the characters in front of it may already be wrong: a
second point is met in a number that is not yet read, and so is a closing bracket that closes
nothing.
-/

namespace Reckoner

/-! ## What the stacks hold -/

/-- A step ends in a result of the kind given, or in a fault that begins where a property of
positions says, unless it is a fault of one character too many. -/
def Blames {α : Type} (P : Nat → Prop) (kind : α → Prop) : Building α → Prop
  | .ok a => kind a
  | .error fault =>
    fault.cause = .extraClosingBracket ∨ fault.cause = .extraDecimalPoint ∨ P fault.span.start

/-- The operators that wait and the finished expressions begin where a property says. -/
structure Held (P : Nat → Prop) (waiting : List Waiting) (done : List Completed) : Prop where
  waiting : ∀ first ∈ waiting, P first.span.start
  done : ∀ tree ∈ done, P tree.expr.span.start

/-- An operator that was read last and needs an operand begins where a property says. -/
def Last.BeginsIn (P : Nat → Prop) : Last → Prop
  | .between span | .before span => P span.start
  | .nothing | .opening | .value => True

/-- All that the stacks hold begins where a property says. -/
structure Stacks.BeginsIn (P : Nat → Prop) (s : Stacks) : Prop where
  held : Held P s.waiting s.done
  last : s.last.BeginsIn P

section

variable {α β : Type} {P : Nat → Prop} {limit : Option Nat} {waiting : List Waiting}
  {done : List Completed} {expr : Expr} {below : Nat}

theorem Blames.bind {kind : α → Prop} {kind' : β → Prop} {x : Building α} {f : α → Building β}
    (hx : Blames P kind x) (hf : ∀ a, kind a → Blames P kind' (f a)) :
    Blames P kind' (x >>= f) := by
  cases x with
  | error fault => exact hx
  | ok a => exact hf a hx

/-- An operator is misplaced where a property says. -/
theorem blames_misplaced {kind : α → Prop} {span : Span} (hspan : P span.start) :
    Blames P kind (misplaced span) := .inr (.inr hspan)

theorem blames_addExpr (hexpr : P expr.span.start)
    (hdone : ∀ tree ∈ done, P tree.expr.span.start) :
    Blames P (∀ tree ∈ ·, P tree.expr.span.start) (addExpr limit expr below done) := by
  rw [addExpr]
  split
  · exact List.forall_mem_cons.mpr ⟨hexpr, hdone⟩
  · exact blames_misplaced hexpr

/-- A hull begins where one of the two does. -/
theorem start_hull {a b : Span} (ha : P a.start) (hb : P b.start) : P (a.hull b).start := by
  rcases Nat.le_total a.start b.start with hle | hle
  · rwa [Span.hull, Nat.min_eq_left hle]
  · rwa [Span.hull, Nat.min_eq_right hle]

theorem blames_apply {first : Waiting} (hfirst : P first.span.start)
    (hdone : ∀ tree ∈ done, P tree.expr.span.start) :
    Blames P (∀ tree ∈ ·, P tree.expr.span.start) (first.apply limit done) := by
  obtain ⟨op, layer, order, span⟩ := first
  cases op with
  | between op =>
    match done with
    | [] | [_] => exact blames_misplaced hfirst
    | ⟨right, _⟩ :: ⟨left, _⟩ :: rest =>
      obtain ⟨hright, hleft, hrest⟩ : P right.span.start ∧ P left.span.start ∧
          ∀ tree ∈ rest, P tree.expr.span.start := by
        simpa only [List.forall_mem_cons] using hdone
      simp only [Waiting.apply]
      split
      · exact blames_addExpr (start_hull hleft hright) hrest
      · exact blames_misplaced hright
  | beside op =>
    cases done with
    | nil => exact blames_misplaced hfirst
    | cons operand rest =>
      obtain ⟨hoperand, hrest⟩ := List.forall_mem_cons.mp hdone
      simp only [Waiting.apply]
      split
      · exact blames_addExpr hfirst hrest
      · exact blames_misplaced hoperand

theorem Held.blames_applyDue (isDue : Waiting → Bool) (h : Held P waiting done) :
    Blames P (fun result ↦ Held P result.1 result.2) (applyDue limit isDue waiting done) := by
  induction waiting generalizing done with
  | nil => exact h
  | cons first waiting ih =>
    obtain ⟨hfirst, hwaiting⟩ := List.forall_mem_cons.mp h.waiting
    rw [applyDue]
    split
    · exact (blames_apply hfirst h.done).bind fun _ hdone ↦ ih ⟨hwaiting, hdone⟩
    · exact h

namespace Stacks

variable {voc : Vocabulary} {s : Stacks} {item : Item} {span : Span} {index : Nat}

theorem BeginsIn.blames_yield (h : s.BeginsIn P) (yields : Nat → Bool) :
    Blames P (BeginsIn P) (s.yield limit yields) :=
  (h.held.blames_applyDue _).bind fun _ hheld ↦ ⟨hheld, h.last⟩

theorem BeginsIn.blames_between (h : s.BeginsIn P) (op : BinaryOperator) (hspan : P span.start) :
    Blames P (BeginsIn P) (s.between limit op span) := by
  rw [between]
  split
  · exact (h.blames_yield op.yieldsTo).bind fun s' hs' ↦
      ⟨⟨List.forall_mem_cons.mpr ⟨hspan, hs'.held.waiting⟩, hs'.held.done⟩, hspan⟩
  all_goals exact .inr (.inr hspan)

/-- An operator that is put in begins where it is put in. -/
theorem BeginsIn.blames_join (h : s.BeginsIn P) (op : BinaryOperator) (hindex : P index) :
    Blames P (BeginsIn P) (s.join limit op index) := by
  rw [join]
  split
  · exact h.blames_between op hindex
  · exact h

theorem BeginsIn.blames_after (h : s.BeginsIn P) (op : UnaryOperator) (hspan : P span.start) :
    Blames P (BeginsIn P) (s.after limit op span) := by
  rw [after]
  split
  · refine (h.blames_yield op.yieldsTo).bind fun s' hs' ↦ ?_
    split
    · rename_i operand depth rest hdone
      have hall := hs'.held.done
      rw [hdone] at hall
      obtain ⟨hoperand, hrest⟩ := List.forall_mem_cons.mp hall
      split
      · have hexpr : P (Expr.unary op operand ⟨operand.span.start, span.stop⟩).span.start :=
          hoperand
        refine (blames_addExpr hexpr hrest).bind fun done hdone ↦ ?_
        have hheld : Held P s'.waiting done := ⟨hs'.held.waiting, hdone⟩
        exact (⟨hheld, hs'.last⟩ : BeginsIn P { s' with done })
      · exact blames_misplaced hspan
    · exact blames_misplaced hspan
  · exact blames_misplaced hspan

/-- A bracket that opens changes no place. -/
theorem forall_mem_promote (h : ∀ first ∈ waiting, P first.span.start) :
    ∀ first ∈ promote waiting, P first.span.start := by
  cases waiting with
  | nil => exact h
  | cons first others =>
    obtain ⟨op, layer, order, span⟩ := first
    cases op with
    | between op => exact h
    | beside op =>
      obtain ⟨hfirst, hothers⟩ := List.forall_mem_cons.mp h
      simp only [promote]
      split
      · exact List.forall_mem_cons.mpr ⟨hfirst, hothers⟩
      · exact List.forall_mem_cons.mpr ⟨hfirst, hothers⟩

theorem BeginsIn.blames_opening (h : s.BeginsIn P) (connector : BinaryOperator)
    (hindex : P index) : Blames P (BeginsIn P) (s.opening limit connector index) := by
  refine (h.blames_join connector hindex).bind fun s' hs' ↦ ⟨⟨?_, hs'.held.done⟩, trivial⟩
  dsimp only
  split
  · exact forall_mem_promote hs'.held.waiting
  · exact hs'.held.waiting

theorem BeginsIn.blames_closing (h : s.BeginsIn P) (hspan : P span.start) :
    Blames P (BeginsIn P) (s.closing span) := by
  rw [closing]
  split
  · exact .inl rfl
  · split
    · exact ⟨h.held, h.last⟩
    all_goals exact .inr (.inr hspan)

/-- A new value begins where it stands. -/
theorem BeginsIn.pushValue (h : s.BeginsIn P) (value : Float) (hspan : P span.start) :
    (s.pushValue value span).BeginsIn P :=
  ⟨⟨h.held.waiting, List.forall_mem_cons.mpr ⟨hspan, h.held.done⟩⟩, trivial⟩

/-- Reading an item blames the item or what was read before it. -/
theorem BeginsIn.blames_step (h : s.BeginsIn P) (voc : Vocabulary) (item : Item)
    (hspan : P span.start) : Blames P (BeginsIn P) (s.step voc limit item span) := by
  match item with
  | .number value =>
    rw [step]
    split
    · exact .inr (.inr hspan)
    · exact h.pushValue value hspan
  | .value value => exact (h.blames_join _ hspan).bind fun _ hs' ↦ hs'.pushValue value hspan
  | .operator (.between op) => exact h.blames_between op hspan
  | .operator (.beside op) =>
    rw [step]
    cases op.side with
    | before =>
      exact (h.blames_join _ hspan).bind fun _ hs' ↦
        ⟨⟨List.forall_mem_cons.mpr ⟨hspan, hs'.held.waiting⟩, hs'.held.done⟩, hspan⟩
    | after => exact h.blames_after op hspan
  | .opening => exact h.blames_opening _ hspan
  | .closing => exact h.blames_closing hspan

end Stacks

/-- When all that waits is applied nothing waits any more. -/
theorem waiting_of_applyDue_all {result : List Waiting × List Completed}
    (h : applyDue limit (fun _ ↦ true) waiting done = .ok result) : result.1 = [] := by
  induction waiting generalizing done with
  | nil =>
    cases h
    rfl
  | cons first waiting ih =>
    obtain ⟨done', -, h⟩ := bind_eq_ok_iff.mp h
    exact ih h

end

/-! ## Reading a line -/

/-- What was read last is what the tokens end in, if it is nothing or an opening bracket. -/
structure Last.IsLastOf (tokens : List Token) (last : Last) : Prop where
  nil : last = .nothing → tokens = []
  opening : last = .opening → ∃ before token, tokens = before ++ [token] ∧ token.kind = .opening

namespace Vocabulary

variable {voc : Vocabulary} {scope : Scope} {limit : Option Nat} {line : Line} {s s' : Stacks}
  {before tokens : List Token} {token : Token} {item : Item}

/-- The positions of a line up to which it can be completed. -/
def ViableAt (voc : Vocabulary) (scope : Scope) (line : Line) (place : Nat) : Prop :=
  voc.Viable scope (line.take place)

/-- What is known when some tokens of a line have been read. -/
structure ReadUpTo (voc : Vocabulary) (scope : Scope) (line : Line) (tokens : List Token)
    (s : Stacks) : Prop where
  leadTo : Token.LeadTo voc scope tokens s.phase
  beginsIn : s.BeginsIn (voc.ViableAt scope line)
  isLastOf : s.last.IsLastOf tokens

/-- A token that means an opening bracket is one. -/
theorem kind_of_item_opening (h : token.item voc scope = .ok .opening) :
    token.kind = .opening := by
  rw [Token.item.eq_def] at h
  split at h
  · split at h <;> cases h
  · split at h <;> cases h
  · cases h
  · assumption
  all_goals cases h

/-- One more token that is read. -/
theorem ReadUpTo.concat (h : voc.ReadUpTo scope line before s)
    (hitem : token.item voc scope = .ok item) (hadvances : s.Advances item s')
    (hbegins : s'.BeginsIn (voc.ViableAt scope line)) :
    voc.ReadUpTo scope line (before ++ [token]) s' where
  leadTo := h.leadTo.concat hitem hadvances.next?_phase
  beginsIn := hbegins
  isLastOf :=
    ⟨fun hlast ↦ absurd hlast hadvances.last_ne, fun hlast ↦ by
      obtain rfl := hadvances.eq_opening hlast
      exact ⟨before, token, rfl, kind_of_item_opening hitem⟩⟩

/-- A closing bracket that is found early is one too many. -/
theorem cause_of_bracketFault? {layer : Nat} {fault : Located ReadingFault}
    (h : bracketFault? layer token tokens = some fault) :
    fault.cause = .extraClosingBracket := by
  rw [bracketFault?.eq_def] at h
  split at h
  · obtain ⟨-, h⟩ := Option.ite_none_right_eq_some.mp h
    cases h
    rfl
  · cases h

/-- Reading a line blames places up to which it can be completed. -/
theorem ReadUpTo.blames_read (h : voc.ReadUpTo scope line before s)
    (htokens : Token.ofLine voc line = before ++ tokens) :
    Blames (voc.ViableAt scope line) (voc.ReadUpTo scope line (Token.ofLine voc line))
      (s.read voc scope limit tokens) := by
  induction tokens generalizing before s with
  | nil =>
    rw [htokens, List.append_nil]
    exact h
  | cons token tokens ih =>
    have hviable (hpoint : token.kind ≠ .extraPoint) : voc.ViableAt scope line token.span.start :=
      viable_take_start htokens hpoint h.leadTo
    rw [Stacks.read]
    split
    · rename_i fault hfault
      exact .inl (cause_of_bracketFault? hfault)
    by_cases hpoint : token.kind = .extraPoint
    · rw [Token.item.eq_def, hpoint]
      exact .inr (.inl rfl)
    cases hitem : token.item voc scope with
    | error fault =>
      refine .inr (.inr ?_)
      rw [Token.span_eq_of_item hitem]
      exact hviable hpoint
    | ok item =>
      have hstep : Blames _ _ (s.step voc limit item token.span) :=
        h.beginsIn.blames_step voc item (hviable hpoint)
      rw [ok_bind]
      cases hread : s.step voc limit item token.span with
      | error fault =>
        rw [hread] at hstep
        exact hstep
      | ok s' =>
        rw [hread] at hstep
        exact ih (h.concat hitem (Stacks.advances_of_step hread) hstep)
          (htokens.trans (List.append_assoc before [token] tokens).symm)

/-- A line that has no tokens or ends in an opening bracket can be completed up to its last
character, which is the bracket or no part of a token. -/
theorem ReadUpTo.viableAt_last (h : voc.ReadUpTo scope line (Token.ofLine voc line) s)
    (hlast : s.last = .nothing ∨ s.last = .opening) :
    voc.ViableAt scope line (line.length - 1) := by
  have hplace : line.length - 1 ≤ line.length := Nat.sub_le _ _
  rcases hlast with hlast | hlast
  · have htokens : Token.ofLine voc line = [] ++ [] := h.isLastOf.nil hlast
    exact viable_take htokens hplace (fun _ ↦ nofun) (fun _ ↦ nofun) (fun _ ↦ nofun) .nil
  obtain ⟨before, token, htokens, hkind⟩ := h.isLastOf.opening hlast
  have hmem : token ∈ Token.ofLine voc line :=
    htokens ▸ List.mem_append_right _ List.mem_cons_self
  have hstop := (Token.liesOn_of_mem_ofLine hmem).stop_le
  obtain ⟨place, -, hspan⟩ : ∃ place, 0 ≤ place ∧ token.span = .single place := by
    refine (Token.isText_or_single line hmem).resolve_left fun htext ↦ ?_
    rw [Token.isText, hkind] at htext
    cases htext
  rw [hspan, Span.single] at hstop
  rcases Nat.eq_or_lt_of_le hstop with hend | hlt
  · obtain ⟨phase, hleadTo⟩ := (htokens ▸ h.leadTo).exists_of_append
    have hviable := viable_take_start htokens (by rw [hkind]; exact TokenKind.noConfusion) hleadTo
    rwa [hspan, Span.single, Nat.eq_sub_of_add_eq hend] at hviable
  · have hpairwise := (Token.ordered_ofLine voc line).pairwise.1
    rw [htokens, List.pairwise_append] at hpairwise
    refine viable_take (List.append_nil _).symm hplace (fun other hother ↦ ?_) (fun _ ↦ nofun)
      (fun _ ↦ nofun) h.leadTo
    rw [htokens] at hother
    rcases List.mem_append.mp hother with hother | hother
    · have hle := hpairwise.2.2 other hother token List.mem_cons_self
      rw [hspan] at hle
      exact Nat.le_trans hle (Nat.le_sub_one_of_lt (Nat.lt_of_succ_lt hlt))
    · rw [List.mem_singleton.mp hother, hspan]
      exact Nat.le_sub_one_of_lt hlt

/-- At its end a line blames a place up to which it can be completed. -/
theorem ReadUpTo.blames_finish (h : voc.ReadUpTo scope line (Token.ofLine voc line) s)
    (hsound : s.Sound voc line.length) :
    Blames (voc.ViableAt scope line) (fun _ ↦ True) (s.finish limit line.length) := by
  have hbegins := h.beginsIn.last
  rw [Stacks.finish]
  split
  · rename_i span hlast
    rw [hlast] at hbegins
    exact blames_misplaced hbegins
  · rename_i span hlast
    rw [hlast] at hbegins
    exact blames_misplaced hbegins
  · rename_i hlast
    exact blames_misplaced (h.viableAt_last (.inl hlast))
  · rename_i hlast
    exact blames_misplaced (h.viableAt_last (.inr hlast))
  · rename_i hlast
    have hheld : Blames _ _ (applyDue limit (fun _ ↦ true) s.waiting s.done) :=
      h.beginsIn.held.blames_applyDue _
    have hvalued : Ends line.length _ (applyDue limit (fun _ ↦ true) s.waiting s.done) :=
      (hsound.valued hlast).applyDue
    cases happly : applyDue limit (fun _ ↦ true) s.waiting s.done with
    | error fault =>
      rw [happly] at hheld
      exact hheld
    | ok result =>
      obtain ⟨waiting, done⟩ := result
      obtain rfl : waiting = [] := waiting_of_applyDue_all happly
      rw [happly] at hvalued
      -- Nothing waits for an operand on its left any more, so there is one expression.
      cases hvalued with
      | intro _ hlefts =>
        cases hlefts
        trivial

/-- A line blames a place up to which it can be completed. -/
theorem blames_parseWithin (voc : Vocabulary) (scope : Scope) (limit : Option Nat) (line : Line) :
    Blames (voc.ViableAt scope line) (fun _ ↦ True) (voc.parseWithin limit scope line) := by
  have hstart : voc.ReadUpTo scope line [] .start :=
    ⟨.nil, ⟨⟨fun _ ↦ nofun, fun _ ↦ nofun⟩, trivial⟩, ⟨fun _ ↦ rfl, nofun⟩⟩
  have hread : Blames _ _ (Stacks.start.read voc scope limit (Token.ofLine voc line)) :=
    hstart.blames_read rfl
  have hsound : Ends line.length (Stacks.Sound voc line.length)
      (Stacks.start.read voc scope limit (Token.ofLine voc line)) :=
    Stacks.ends_read _ (fun _ ↦ Token.liesOn_of_mem_ofLine) (fun _ htoken _ ↦
      Token.isOf_of_item htoken) (.awaiting .nil Last.noConfusion trivial)
  rw [parseWithin]
  cases hstacks : Stacks.start.read voc scope limit (Token.ofLine voc line) with
  | error fault =>
    rw [hstacks] at hread
    exact hread
  | ok s =>
    rw [hstacks] at hread hsound
    exact hread.blames_finish hsound

/-- Where a line is refused for another reason than one character too many, the characters in front
of the fault begin a line that has an expression, or has one that is only too high. -/
theorem exists_completion_of_parse_eq_error {fault : Located ReadingFault}
    (h : voc.parse scope line = .error fault)
    (hcause : fault.cause ∈ [.invalidNumber, .unknownWord, .emptyOperation,
      .missingBinaryOperator, .invalidOperation]) :
    ∃ rest expr,
      voc.parseWithin none scope (line.take fault.span.start ++ rest) = .ok expr ∧
      (voc.parse scope (line.take fault.span.start ++ rest) = .ok expr ∨
        heightLimit < expr.height) := by
  have hblames : Blames _ _ (voc.parse scope line) := blames_parseWithin voc scope _ line
  rw [h] at hblames
  rcases hblames with hcause' | hcause' | ⟨rest, expr, hparse⟩
  · rw [hcause'] at hcause
    exact absurd hcause (by decide)
  · rw [hcause'] at hcause
    exact absurd hcause (by decide)
  · refine ⟨rest, expr, hparse, ?_⟩
    have hlimit : 0 < heightLimit := by decide
    rcases Nat.lt_or_ge heightLimit expr.height with hhigh | hkept
    · exact .inr hhigh
    · exact .inl ((voc.parseWithin_eq_ok_iff scope _ hlimit).mpr ⟨hparse, hkept⟩)

/-- The function lacks its operand, and the line makes sense up to the function. -/
theorem exists_completion_of_parse_dangling :
    standard.parse .bare "2*(3- sqrt  ".toList = .error ⟨.invalidOperation, ⟨6, 10⟩⟩ ∧
      ∃ rest expr, standard.parseWithin none .bare ("2*(3- ".toList ++ rest) = .ok expr ∧
        (standard.parse .bare ("2*(3- ".toList ++ rest) = .ok expr ∨
          heightLimit < expr.height) := by
  have h : standard.parse .bare "2*(3- sqrt  ".toList = .error ⟨.invalidOperation, ⟨6, 10⟩⟩ := by
    rfl
  exact ⟨h, exists_completion_of_parse_eq_error h (by decide)⟩

end Vocabulary

end Reckoner
