import Reckoner.Proofs.Expr.Acceptance
import Reckoner.Proofs.Token.Cut

/-!
# Lines that can be completed

Some characters can be completed if there is a line that begins with them and has an expression,
which may be too high. That is so where their tokens have meanings that may come one after the
other, for whatever phase these lead to, nothing more or a number is accepted in it. So a line can
be completed up to each of its tokens if those in front of it may come one after the other, since
these are then the tokens of the characters in front.

The stacks are in the phase that the items which were read lead to.
-/

namespace Reckoner

/-! ## Lines that can be completed -/

namespace Phase

variable {phase : Phase}

/-- The phase after some terminals, if they may come next. -/
def run? : Phase → List Terminal → Option Phase
  | phase, [] => some phase
  | phase, terminal :: rest => (phase.next? terminal).bind fun next ↦ next.run? rest

theorem run?_append (phase : Phase) (terminals rest : List Terminal) :
    phase.run? (terminals ++ rest) = (phase.run? terminals).bind fun next ↦ next.run? rest := by
  induction terminals generalizing phase with
  | nil => rfl
  | cons terminal terminals ih =>
    rw [List.cons_append, run?, run?, Option.bind_assoc]
    exact congrArg _ (funext ih)

/-- Terminals are accepted if a value is complete behind them. -/
theorem accepts_eq_any_run? (phase : Phase) (terminals : List Terminal) :
    phase.accepts terminals = (phase.run? terminals).any complete := by
  induction terminals generalizing phase with
  | nil => rfl
  | cons terminal terminals ih =>
    rw [accepts, run?]
    cases phase.next? terminal with
    | none => rfl
    | some next => exact ih next

/-- In each phase a line can end, or it can end with one number more. -/
theorem complete_or_run?_number (phase : Phase) :
    phase.complete = true ∨ (phase.run? [.number]).any complete = true := by
  obtain ⟨layer, complete⟩ := phase
  cases complete with
  | true => exact .inl rfl
  | false => exact .inr rfl

/-- What begins an operand other than a number may come in each phase. -/
theorem next?_value (phase : Phase) : phase.next? .value = some ⟨phase.layer, true⟩ := by
  obtain ⟨layer, complete⟩ := phase
  cases complete <;> rfl

theorem next?_before (phase : Phase) : phase.next? .before = some ⟨phase.layer, false⟩ := by
  obtain ⟨layer, complete⟩ := phase
  cases complete <;> rfl

theorem next?_opening (phase : Phase) : phase.next? .opening = some ⟨phase.layer + 1, false⟩ := by
  obtain ⟨layer, complete⟩ := phase
  cases complete <;> rfl

end Phase

namespace Token

variable {voc : Vocabulary} {scope : Scope} {tokens rest : List Token} {token : Token}
  {terminals : List Terminal} {phase phase' : Phase} {item : Item}

/-- Tokens have the forms of two parts of them. -/
theorem mean_append_iff : Mean voc scope (tokens ++ rest) terminals ↔
    ∃ before after, Mean voc scope tokens before ∧ Mean voc scope rest after ∧
      terminals = before ++ after := by
  simp only [Mean, Vocabulary.mapM_lexeme_append_eq_ok_iff]
  constructor
  · rintro ⟨_, ⟨before, after, hbefore, hafter, rfl⟩, rfl⟩
    exact ⟨_, _, ⟨before, hbefore, rfl⟩, ⟨after, hafter, rfl⟩, List.map_append⟩
  · rintro ⟨_, _, ⟨before, hbefore, rfl⟩, ⟨after, hafter, rfl⟩, rfl⟩
    exact ⟨_, ⟨before, after, hbefore, hafter, rfl⟩, List.map_append⟩

theorem mean_singleton (h : token.item voc scope = .ok item) :
    Mean voc scope [token] [item.terminal] :=
  ⟨[⟨item, token.span⟩], mapM_lexeme_cons_eq_ok_iff.mpr ⟨item, [], h, rfl, rfl⟩, rfl⟩

/-- Tokens have meanings that may come one after the other, and lead to a phase. -/
def LeadTo (voc : Vocabulary) (scope : Scope) (tokens : List Token) (phase : Phase) : Prop :=
  ∃ terminals, Mean voc scope tokens terminals ∧ Phase.start.run? terminals = some phase

theorem LeadTo.nil : LeadTo voc scope [] .start := ⟨[], ⟨[], rfl, rfl⟩, rfl⟩

/-- One more token leads to the next phase. -/
theorem LeadTo.concat (h : LeadTo voc scope tokens phase)
    (hitem : token.item voc scope = .ok item) (hnext : phase.next? item.terminal = some phase') :
    LeadTo voc scope (tokens ++ [token]) phase' := by
  obtain ⟨terminals, hmean, hrun⟩ := h
  refine ⟨terminals ++ [item.terminal],
    mean_append_iff.mpr ⟨_, _, hmean, mean_singleton hitem, rfl⟩, ?_⟩
  rw [Phase.run?_append, hrun, Option.bind_some, Phase.run?, hnext]
  rfl

/-- The first of some tokens lead to a phase if all of them do. -/
theorem LeadTo.exists_of_append (h : LeadTo voc scope (tokens ++ rest) phase) :
    ∃ phase', LeadTo voc scope tokens phase' := by
  obtain ⟨terminals, hmean, hrun⟩ := h
  obtain ⟨before, after, hbefore, -, rfl⟩ := mean_append_iff.mp hmean
  rw [Phase.run?_append] at hrun
  obtain ⟨next, hnext, -⟩ := Option.bind_eq_some_iff.mp hrun
  exact ⟨next, before, hbefore, hnext⟩

end Token

namespace Vocabulary

variable {voc : Vocabulary} {scope : Scope} {line front rest : Line} {token : Token}
  {before after : List Token} {terminals : List Terminal} {phase : Phase}

/-- Some characters are the beginning of a line that has an expression, if heights are not
limited. -/
def Viable (voc : Vocabulary) (scope : Scope) (front : Line) : Prop :=
  ∃ rest expr, voc.parseWithin none scope (front ++ rest) = .ok expr

/-- A line whose tokens have forms that are accepted has an expression. -/
theorem exists_parseWithin_of_accepts
    (hmean : Token.Mean voc scope (Token.ofLine voc line) terminals)
    (haccepts : Phase.start.accepts terminals = true) :
    ∃ expr, voc.parseWithin none scope line = .ok expr := by
  obtain ⟨count, hderives⟩ := Phase.accepts_start_iff.mp haccepts
  exact exists_parseWithin_none_iff.mpr ⟨terminals, count, spells_iff_mean.mpr hmean, hderives⟩

/-- Characters whose tokens lead to a phase can be completed, by nothing or by a number. -/
theorem viable_of_leadTo (h : Token.LeadTo voc scope (Token.ofLine voc front) phase) :
    voc.Viable scope front := by
  obtain ⟨terminals, hmean, hrun⟩ := h
  rcases phase.complete_or_run?_number with hcomplete | hnumber
  · refine ⟨[], ?_⟩
    rw [List.append_nil]
    refine exists_parseWithin_of_accepts hmean ?_
    rw [Phase.accepts_eq_any_run?, hrun]
    exact hcomplete
  · have htokens : Token.ofLine voc (front ++ " 0".toList) = Token.ofLine voc front ++
        [⟨.number ['0'], ⟨front.length + 1, front.length + 2⟩⟩] := by
      have hparts : voc.Parts " 0".toList := .space
      rw [Token.ofLine, Token.scan_append_of_endsAt (hparts.endsAt _), Nat.zero_add]
      rfl
    refine ⟨" 0".toList, exists_parseWithin_of_accepts
      (htokens ▸ Token.mean_append_iff.mpr ⟨_, _, hmean, Token.mean_singleton rfl, rfl⟩) ?_⟩
    rw [Phase.accepts_eq_any_run?, Phase.run?_append, hrun]
    exact hnumber

/-- The characters in front of a place between tokens can be completed if the tokens in front of it
lead to a phase. -/
theorem viable_take {place : Nat} (htokens : Token.ofLine voc line = before ++ after)
    (hplace : place ≤ line.length) (hbefore : ∀ token ∈ before, token.span.stop ≤ place)
    (hafter : ∀ token ∈ after, place ≤ token.span.start)
    (hpoint : ∀ token ∈ after.head?, token.kind ≠ .extraPoint)
    (h : Token.LeadTo voc scope before phase) : voc.Viable scope (line.take place) := by
  have hlength : (line.take place).length = place := List.length_take_of_le hplace
  rw [← List.take_append_drop place line] at htokens
  have hfront : Token.ofLine voc (line.take place) = before :=
    Token.ofLine_eq_of_append htokens (by rwa [hlength]) (by rwa [hlength]) hpoint
  exact viable_of_leadTo (hfront.symm ▸ h)

/-- The characters in front of a token can be completed if the tokens in front of it lead to a
phase. -/
theorem viable_take_start (htokens : Token.ofLine voc line = before ++ token :: after)
    (hpoint : token.kind ≠ .extraPoint) (h : Token.LeadTo voc scope before phase) :
    voc.Viable scope (line.take token.span.start) := by
  have hpairwise := (Token.ordered_ofLine voc line).pairwise.1
  have hmem : token ∈ Token.ofLine voc line :=
    htokens ▸ List.mem_append_right _ List.mem_cons_self
  have hlies := Token.liesOn_of_mem_ofLine hmem
  rw [htokens] at hpairwise
  obtain ⟨-, hafter, hbefore⟩ := List.pairwise_append.mp hpairwise
  refine viable_take htokens (Nat.le_of_lt (Nat.lt_of_lt_of_le hlies.start_lt hlies.stop_le))
    (fun other hother ↦ hbefore other hother token List.mem_cons_self) ?_ ?_ h
  · refine List.forall_mem_cons.mpr ⟨Nat.le_refl _, fun other hother ↦ ?_⟩
    exact Nat.le_trans (Nat.le_of_lt hlies.start_lt)
      ((List.pairwise_cons.mp hafter).1 other hother)
  · rintro other ⟨⟩
    exact hpoint

end Vocabulary

/-! ## What an item does to the stacks -/

namespace Stacks

variable {voc : Vocabulary} {limit : Option Nat} {s s' : Stacks} {item : Item} {span : Span}

theorem of_yield_eq_ok {yields : Nat → Bool} (h : s.yield limit yields = .ok s') :
    s'.layer = s.layer ∧ s'.last = s.last := by
  obtain ⟨left, -, h⟩ := bind_eq_ok_iff.mp h
  cases h
  exact ⟨rfl, rfl⟩

/-- An operator between two operands has a value in front of it. -/
theorem of_between_eq_ok {op : BinaryOperator} (h : s.between limit op span = .ok s') :
    s.last = .value ∧ s'.layer = s.layer ∧ s'.last = .between span := by
  rw [between] at h
  split at h
  · rename_i hlast
    obtain ⟨s₁, hyield, h⟩ := bind_eq_ok_iff.mp h
    cases h
    exact ⟨hlast, (of_yield_eq_ok hyield).1, rfl⟩
  all_goals cases h

theorem layer_of_join_eq_ok {op : BinaryOperator} {index : Nat}
    (h : s.join limit op index = .ok s') : s'.layer = s.layer := by
  rw [join] at h
  split at h
  · exact (of_between_eq_ok h).2.1
  · cases h
    rfl

/-- An operator after its operand has a value in front of it, and is one itself. -/
theorem of_after_eq_ok {op : UnaryOperator} (h : s.after limit op span = .ok s') :
    s.last = .value ∧ s'.layer = s.layer ∧ s'.last = .value := by
  rw [after] at h
  split at h
  · rename_i hlast
    obtain ⟨s₁, hyield, h⟩ := bind_eq_ok_iff.mp h
    obtain ⟨hlayer, hlast'⟩ := of_yield_eq_ok hyield
    split at h
    · split at h
      · obtain ⟨done, -, h⟩ := bind_eq_ok_iff.mp h
        cases h
        exact ⟨hlast, hlayer, hlast'.trans hlast⟩
      · cases h
    · cases h
  · cases h

theorem phase_of_eq (h : s.last = .value) : s.phase = ⟨s.layer, true⟩ := by
  rw [phase, decide_eq_true h]

theorem phase_of_ne (h : s.last ≠ .value) : s.phase = ⟨s.layer, false⟩ := by
  rw [phase, decide_eq_false h]

/-- What an item that is read leaves: the phase behind it, and itself as what was read last. -/
structure Advances (s : Stacks) (item : Item) (s' : Stacks) : Prop where
  next?_phase : s.phase.next? item.terminal = some s'.phase
  last_ne : s'.last ≠ .nothing
  eq_opening : s'.last = .opening → item = .opening

theorem advances_of_step (h : s.step voc limit item span = .ok s') : s.Advances item s' := by
  match item with
  | .number value =>
    rw [step] at h
    split at h
    · cases h
    · rename_i hlast
      cases h
      refine ⟨?_, Last.noConfusion, fun h ↦ Last.noConfusion h⟩
      rw [phase_of_ne hlast]
      rfl
  | .value value =>
    obtain ⟨s₁, hjoin, h⟩ := bind_eq_ok_iff.mp h
    cases h
    refine ⟨(Phase.next?_value s.phase).trans ?_, Last.noConfusion, fun h ↦ Last.noConfusion h⟩
    change some (Phase.mk s.layer true) = some (Phase.mk s₁.layer true)
    rw [layer_of_join_eq_ok hjoin]
  | .operator (.between op) =>
    obtain ⟨hlast, hlayer, hlast'⟩ := of_between_eq_ok h
    refine ⟨?_, hlast' ▸ Last.noConfusion, fun h ↦ Last.noConfusion (hlast'.symm.trans h)⟩
    rw [phase_of_eq hlast, phase_of_ne (hlast' ▸ Last.noConfusion), hlayer]
    rfl
  | .operator (.beside op) =>
    rw [step] at h
    cases hside : op.side with
    | before =>
      rw [hside] at h
      obtain ⟨s₁, hjoin, h⟩ := bind_eq_ok_iff.mp h
      cases h
      refine ⟨?_, Last.noConfusion, fun h ↦ Last.noConfusion h⟩
      rw [Item.terminal_of_before hside, Phase.next?_before]
      change some (Phase.mk s.layer false) = some (Phase.mk s₁.layer false)
      rw [layer_of_join_eq_ok hjoin]
    | after =>
      rw [hside] at h
      obtain ⟨hlast, hlayer, hlast'⟩ := of_after_eq_ok h
      refine ⟨?_, hlast' ▸ Last.noConfusion, fun h ↦ Last.noConfusion (hlast'.symm.trans h)⟩
      rw [Item.terminal_of_after hside, phase_of_eq hlast, phase_of_eq hlast', hlayer]
      rfl
  | .opening =>
    obtain ⟨s₁, hjoin, h⟩ := bind_eq_ok_iff.mp h
    cases h
    refine ⟨(Phase.next?_opening s.phase).trans ?_, Last.noConfusion, fun _ ↦ rfl⟩
    change some (Phase.mk (s.layer + 1) false) = some (Phase.mk (s₁.layer + 1) false)
    rw [layer_of_join_eq_ok hjoin]
  | .closing =>
    rw [step, closing] at h
    split at h
    · cases h
    · rename_i hlayer
      split at h
      · rename_i hlast
        cases h
        obtain ⟨layer, hsucc⟩ := Nat.exists_eq_succ_of_ne_zero hlayer
        have hphase : ({ s with layer := s.layer - 1 } : Stacks).phase = ⟨s.layer - 1, true⟩ :=
          phase_of_eq hlast
        refine ⟨?_, hlast ▸ Last.noConfusion, fun h ↦ Last.noConfusion (hlast.symm.trans h)⟩
        rw [phase_of_eq hlast, hphase, hsucc]
        rfl
      all_goals cases h

end Stacks

end Reckoner
