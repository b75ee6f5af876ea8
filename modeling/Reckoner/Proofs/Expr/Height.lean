import Reckoner.Proofs.Expr.Depth

/-!
# The limit on the height

Building an expression under a limit follows building it without one, step by step, up to the first
expression that is one deeper than the limit; there it fails, at the span of that expression. Since
a finished expression only ever becomes part of another, that expression is part of what building
without a limit comes to. So a limit that the result keeps changes nothing, and a limit that it does
not keep shows at a part of it.
-/

namespace Reckoner

/-! ## Parts -/

/-- One expression is part of another if it is that expression or stands somewhere below it. -/
inductive Expr.IsPart (part : Expr) : Expr → Prop
  | refl : IsPart part part
  | unary {op : UnaryOperator} {operand : Expr} {span : Span} (h : IsPart part operand) :
    IsPart part (.unary op operand span)
  | left {op : BinaryOperator} {left right : Expr} {span : Span} (h : IsPart part left) :
    IsPart part (.binary op left right span)
  | right {op : BinaryOperator} {left right : Expr} {span : Span} (h : IsPart part right) :
    IsPart part (.binary op left right span)

namespace Expr.IsPart

variable {a b c : Expr}

/-- A part of a part is a part. -/
theorem trans (hab : IsPart a b) (hbc : IsPart b c) : IsPart a c := by
  induction hbc with
  | refl => exact hab
  | unary _ ih => exact .unary ih
  | left _ ih => exact .left ih
  | right _ ih => exact .right ih

/-- A part is no higher than the whole. -/
theorem height_le (h : IsPart a b) : a.height ≤ b.height := by
  induction h with
  | refl => exact Nat.le_refl _
  | unary _ ih => exact Nat.le_succ_of_le ih
  | left _ ih => exact Nat.le_succ_of_le (Nat.le_trans ih (Nat.le_max_left _ _))
  | right _ ih => exact Nat.le_succ_of_le (Nat.le_trans ih (Nat.le_max_right _ _))

end Expr.IsPart

/-- The finished expressions are no deeper than a limit, and their depths are their heights. -/
structure KeptBy (limit : Nat) (done : List Completed) : Prop where
  measured : Measured done
  le : ∀ tree ∈ done, tree.depth ≤ limit

/-- An expression is part of some finished expression. -/
def IsPartOfSome (e : Expr) (done : List Completed) : Prop := ∃ whole ∈ done, e.IsPart whole.expr

/-- Each finished expression is part of some that is finished later. -/
def Persists (start done : List Completed) : Prop := ∀ tree ∈ start, IsPartOfSome tree.expr done

namespace KeptBy

variable {limit : Nat} {tree : Completed} {done : List Completed}

theorem nil (limit : Nat) : KeptBy limit [] := ⟨measured_nil, fun _ ↦ nofun⟩

theorem cons (hmeasured : tree.IsMeasured) (hle : tree.depth ≤ limit) (h : KeptBy limit done) :
    KeptBy limit (tree :: done) :=
  ⟨measured_cons.mpr ⟨hmeasured, h.measured⟩, List.forall_mem_cons.mpr ⟨hle, h.le⟩⟩

theorem head (h : KeptBy limit (tree :: done)) : tree.IsMeasured ∧ tree.depth ≤ limit :=
  ⟨h.measured tree List.mem_cons_self, h.le tree List.mem_cons_self⟩

theorem tail (h : KeptBy limit (tree :: done)) : KeptBy limit done :=
  ⟨(measured_cons.mp h.measured).2, (List.forall_mem_cons.mp h.le).2⟩

end KeptBy

namespace Persists

variable {start middle done : List Completed}

theorem refl (start : List Completed) : Persists start start :=
  fun tree htree ↦ ⟨tree, htree, .refl⟩

theorem isPartOfSome (h : Persists start done) {e : Expr} (he : IsPartOfSome e start) :
    IsPartOfSome e done := by
  obtain ⟨whole, hmem, hpart⟩ := he
  obtain ⟨whole', hmem', hpart'⟩ := h whole hmem
  exact ⟨whole', hmem', hpart.trans hpart'⟩

theorem trans (h : Persists start middle) (h' : Persists middle done) : Persists start done :=
  fun tree htree ↦ h'.isPartOfSome (h tree htree)

theorem of_subset (h : start ⊆ done) : Persists start done :=
  fun tree htree ↦ ⟨tree, h htree, .refl⟩

end Persists

/-! ## Following without a limit -/

variable {α β : Type}

/-- A step under a limit, from some finished expressions, follows the same step without one. -/
structure Follows (limit : Nat) (start : List Completed) (done : α → List Completed)
    (bounded free : Building α) : Prop where
  /-- What was finished before is part of what is finished afterwards. -/
  persists : ∀ a, free = .ok a → Persists start (done a)
  /-- Where the step succeeds without a limit, it has the same result under the limit, or it fails
  at an expression that is one too high. -/
  of_ok : KeptBy limit start → ∀ a, free = .ok a →
    (bounded = .ok a ∧ KeptBy limit (done a)) ∨
      ∃ e, e.height = limit + 1 ∧ IsPartOfSome e (done a) ∧ bounded = misplaced e.span
  /-- Where the step fails without a limit, it fails under it. -/
  of_error : KeptBy limit start → ∀ fault, free = .error fault → ∃ fault', bounded = .error fault'

namespace Follows

variable {limit : Nat} {start : List Completed} {done : α → List Completed}
  {done' : β → List Completed}

/-- A result that takes over what was finished, and adds nothing that is too high. -/
theorem ok {a : α} (hpersists : Persists start (done a))
    (hkept : KeptBy limit start → KeptBy limit (done a)) :
    Follows limit start done (.ok a) (.ok a) where
  persists _ h := Except.ok.inj h ▸ hpersists
  of_ok hstart _ h := .inl ⟨h, Except.ok.inj h ▸ hkept hstart⟩
  of_error _ _ h := by cases h

/-- A fault that the limit does not matter for. -/
theorem error (fault : Located ReadingFault) :
    Follows limit start done (.error fault : Building α) (.error fault) where
  persists _ h := by cases h
  of_ok _ _ h := by cases h
  of_error _ _ _ := ⟨fault, rfl⟩

/-- Steps that follow one after the other follow as a whole. -/
theorem bind {x y : Building α} {f g : α → Building β} (hx : Follows limit start done x y)
    (hf : ∀ a, Follows limit (done a) done' (f a) (g a)) :
    Follows limit start done' (x >>= f) (y >>= g) where
  persists b h := by
    obtain ⟨a, ha, hb⟩ := bind_eq_ok_iff.mp h
    exact (hx.persists a ha).trans ((hf a).persists b hb)
  of_ok hstart b h := by
    obtain ⟨a, ha, hb⟩ := bind_eq_ok_iff.mp h
    rcases hx.of_ok hstart a ha with ⟨hxa, hkept⟩ | ⟨e, he, hpart, hxe⟩
    · rw [hxa]
      exact (hf a).of_ok hkept b hb
    · exact .inr ⟨e, he, ((hf a).persists b hb).isPartOfSome hpart, by rw [hxe]; rfl⟩
  of_error hstart fault h := by
    cases y with
    | error fault' =>
      obtain ⟨fault'', hxe⟩ := hx.of_error hstart fault' rfl
      exact ⟨fault'', by rw [hxe]; rfl⟩
    | ok a =>
      rcases hx.of_ok hstart a rfl with ⟨hxa, hkept⟩ | ⟨e, -, -, hxe⟩
      · rw [hxa]
        exact (hf a).of_error hkept fault h
      · exact ⟨_, by rw [hxe]; rfl⟩

end Follows

/-! ## The steps of building -/

section Steps

variable {limit : Nat}

/-- A new expression is one deeper than the deepest of its operands, so it is the first that is too
deep if it is too deep. -/
theorem follows_addExpr (operands rest : List Completed) {expr : Expr} {below : Nat}
    (hparts : ∀ tree ∈ operands, tree.expr.IsPart expr)
    (hdepth : KeptBy limit (operands ++ rest) →
      below + 1 = expr.height ∧ below ≤ limit ∧ KeptBy limit rest) :
    Follows limit (operands ++ rest) id (addExpr (some limit) expr below rest)
      (addExpr none expr below rest) := by
  have hpersists : Persists (operands ++ rest) (⟨expr, below + 1⟩ :: rest) := by
    intro tree htree
    rcases List.mem_append.mp htree with htree | htree
    · exact ⟨_, List.mem_cons_self, hparts tree htree⟩
    · exact ⟨tree, List.mem_cons_of_mem _ htree, .refl⟩
  constructor
  · rintro _ ⟨⟩
    exact hpersists
  · rintro hstart _ ⟨⟩
    obtain ⟨hheight, hbelow, hrest⟩ := hdepth hstart
    by_cases hle : below + 1 ≤ limit
    · exact .inl ⟨if_pos (decide_eq_true hle), hrest.cons hheight hle⟩
    · have hbounded : addExpr (some limit) expr below rest = misplaced expr.span :=
        if_neg fun h ↦ hle (of_decide_eq_true h)
      exact .inr ⟨expr, by omega, ⟨_, List.mem_cons_self, .refl⟩, hbounded⟩
  · intro _ fault h
    cases h

/-- A new unary expression over the last one that is finished. -/
theorem follows_addUnary (op : UnaryOperator) (operand : Expr) (depth : Nat) (span : Span)
    (rest : List Completed) :
    Follows limit (⟨operand, depth⟩ :: rest) id
      (addExpr (some limit) (.unary op operand span) depth rest)
      (addExpr none (.unary op operand span) depth rest) := by
  refine follows_addExpr [⟨operand, depth⟩] rest ?_ fun h ↦ ?_
  · rintro tree htree
    rw [List.mem_singleton.mp htree]
    exact .unary .refl
  · obtain ⟨hoperand, hle⟩ := h.head
    exact ⟨hoperand.unary op span, hle, h.tail⟩

/-- A new binary expression over the last two that are finished. -/
theorem follows_addBinary (op : BinaryOperator) (left right : Expr) (leftDepth rightDepth : Nat)
    (span : Span) (rest : List Completed) :
    Follows limit (⟨right, rightDepth⟩ :: ⟨left, leftDepth⟩ :: rest) id
      (addExpr (some limit) (.binary op left right span) (max leftDepth rightDepth) rest)
      (addExpr none (.binary op left right span) (max leftDepth rightDepth) rest) := by
  refine follows_addExpr [⟨right, rightDepth⟩, ⟨left, leftDepth⟩] rest ?_ fun h ↦ ?_
  · intro tree htree
    rcases List.mem_cons.mp htree with rfl | htree
    · exact .right .refl
    · rw [List.mem_singleton.mp htree]
      exact .left .refl
  · obtain ⟨hright, hrightLe⟩ := h.head
    obtain ⟨hleft, hleftLe⟩ := h.tail.head
    exact ⟨hleft.binary hright op span, Nat.max_le.mpr ⟨hleftLe, hrightLe⟩, h.tail.tail⟩

theorem follows_apply (waiting : Waiting) (done : List Completed) :
    Follows limit done id (waiting.apply (some limit) done) (waiting.apply none done) := by
  obtain ⟨op, layer, order, span⟩ := waiting
  cases op with
  | between op =>
    rcases done with _ | ⟨⟨right, rightDepth⟩, _ | ⟨⟨left, leftDepth⟩, rest⟩⟩
    · exact .error _
    · exact .error _
    · simp only [Waiting.apply]
      split
      · exact follows_addBinary op left right leftDepth rightDepth _ rest
      · exact .error _
  | beside op =>
    rcases done with _ | ⟨⟨operand, depth⟩, rest⟩
    · exact .error _
    · simp only [Waiting.apply]
      split
      · exact follows_addUnary op operand depth _ rest
      · exact .error _

theorem follows_applyDue (isDue : Waiting → Bool) (waiting : List Waiting)
    (done : List Completed) :
    Follows limit done Prod.snd (applyDue (some limit) isDue waiting done)
      (applyDue none isDue waiting done) := by
  induction waiting generalizing done with
  | nil => exact .ok (.refl done) id
  | cons first others ih =>
    simp only [applyDue]
    split
    · exact (follows_apply first done).bind ih
    · exact .ok (.refl done) id

namespace Stacks

theorem follows_yield (yields : Nat → Bool) (s : Stacks) :
    Follows limit s.done Stacks.done (s.yield (some limit) yields) (s.yield none yields) :=
  (follows_applyDue _ s.waiting s.done).bind fun p ↦ .ok (.refl p.2) id

theorem follows_between (op : BinaryOperator) (span : Span) (s : Stacks) :
    Follows limit s.done Stacks.done (s.between (some limit) op span) (s.between none op span) := by
  simp only [between]
  split
  · exact (follows_yield _ s).bind fun s ↦ .ok (.refl s.done) id
  all_goals exact .error _

theorem follows_join (op : BinaryOperator) (index : Nat) (s : Stacks) :
    Follows limit s.done Stacks.done (s.join (some limit) op index) (s.join none op index) := by
  simp only [join]
  split
  · exact follows_between op _ s
  · exact .ok (.refl s.done) id

theorem follows_after (op : UnaryOperator) (span : Span) (s : Stacks) :
    Follows limit s.done Stacks.done (s.after (some limit) op span) (s.after none op span) := by
  simp only [after]
  split
  · refine (follows_yield _ s).bind fun s ↦ ?_
    cases s.done with
    | nil => exact .error _
    | cons operand rest =>
      simp only
      split
      · exact (follows_addUnary op _ _ _ rest).bind fun done ↦ .ok (.refl done) id
      · exact .error _
  · exact .error _

/-- A value adds an expression of depth one. -/
theorem follows_pushValue (hlimit : 0 < limit) (value : Float) (span : Span) (s : Stacks) :
    Follows limit s.done Stacks.done (.ok (s.pushValue value span))
      (.ok (s.pushValue value span)) := by
  have hliteral : Completed.IsMeasured ⟨.literal value span, 1⟩ := rfl
  exact .ok (.of_subset (List.subset_cons_self _ _)) fun h ↦ .cons hliteral hlimit h

theorem follows_step (hlimit : 0 < limit) (voc : Vocabulary) (item : Item) (span : Span)
    (s : Stacks) :
    Follows limit s.done Stacks.done (s.step voc (some limit) item span)
      (s.step voc none item span) := by
  cases item with
  | number value =>
    simp only [step]
    split
    · exact .error _
    · exact follows_pushValue hlimit value span s
  | value value => exact (follows_join _ _ s).bind fun s ↦ follows_pushValue hlimit value span s
  | operator op =>
    cases op with
    | between op => exact follows_between op span s
    | beside op =>
      simp only [step]
      cases op.side with
      | before => exact (follows_join _ _ s).bind fun s ↦ .ok (.refl s.done) id
      | after => exact follows_after op span s
  | opening => exact (follows_join _ _ s).bind fun s ↦ .ok (.refl s.done) id
  | closing =>
    simp only [step, closing]
    split
    · exact .error _
    · cases s.last with
      | value => exact .ok (.refl s.done) id
      | _ => exact .error _

theorem follows_read (hlimit : 0 < limit) (voc : Vocabulary) (scope : Scope) (tokens : List Token)
    (s : Stacks) :
    Follows limit s.done Stacks.done (s.read voc scope (some limit) tokens)
      (s.read voc scope none tokens) := by
  induction tokens generalizing s with
  | nil => exact .ok (.refl s.done) id
  | cons token rest ih =>
    simp only [read]
    cases bracketFault? s.layer token rest with
    | some fault => exact .error fault
    | none =>
      cases token.item voc scope with
      | error fault => exact .error fault
      | ok item => exact (follows_step hlimit voc item token.span s).bind ih

theorem follows_finish (length : Nat) (s : Stacks) :
    Follows limit s.done (fun expr ↦ [expr.measured]) (s.finish (some limit) length)
      (s.finish none length) := by
  simp only [finish]
  cases s.last with
  | value =>
    refine (follows_applyDue _ s.waiting s.done).bind fun p ↦ ?_
    match p with
    | (_, []) => exact .error _
    | (_, [⟨expr, depth⟩]) =>
      refine .ok ?_ fun h ↦ ?_
      · intro tree htree
        rw [List.mem_singleton.mp htree]
        exact ⟨expr.measured, List.mem_cons_self, .refl⟩
      · obtain ⟨hexpr, -⟩ := h.head
        rwa [hexpr.eq] at h
    | (_, _ :: _ :: _) => exact .error _
  | _ => exact .error _

end Stacks

end Steps

/-! ## Lines -/

namespace Vocabulary

variable {limit : Nat} (voc : Vocabulary) (scope : Scope) (line : Line)

/-- Reading a line under a limit follows reading it without one. -/
theorem follows_parseWithin (hlimit : 0 < limit) :
    Follows limit [] (fun expr ↦ [expr.measured]) (voc.parseWithin (some limit) scope line)
      (voc.parseWithin none scope line) :=
  (Stacks.follows_read hlimit voc scope (Token.ofLine voc line) Stacks.start).bind
    fun s ↦ s.follows_finish line.length

/-- A line is an expression under a limit exactly if it is that expression without a limit and the
expression keeps it. -/
theorem parseWithin_eq_ok_iff (hlimit : 0 < limit) {expr : Expr} :
    voc.parseWithin (some limit) scope line = .ok expr ↔
      voc.parseWithin none scope line = .ok expr ∧ expr.height ≤ limit := by
  have hfollows := voc.follows_parseWithin scope line hlimit
  constructor
  · intro h
    cases hfree : voc.parseWithin none scope line with
    | error fault =>
      obtain ⟨fault', h'⟩ := hfollows.of_error (.nil limit) fault hfree
      rw [h] at h'
      cases h'
    | ok expr' =>
      rcases hfollows.of_ok (.nil limit) expr' hfree with ⟨h', hkept⟩ | ⟨e, -, -, h'⟩
      · rw [h] at h'
        cases h'
        exact ⟨rfl, hkept.le _ List.mem_cons_self⟩
      · rw [h] at h'
        cases h'
  · rintro ⟨hfree, hle⟩
    rcases hfollows.of_ok (.nil limit) expr hfree with ⟨h, -⟩ | ⟨e, he, ⟨whole, hwhole, hpart⟩, -⟩
    · exact h
    · rw [List.mem_singleton.mp hwhole] at hpart
      have hpartLe : e.height ≤ expr.height := hpart.height_le
      omega

end Vocabulary

end Reckoner
