import Reckoner.Proofs.Token.Order
import Reckoner.Proofs.Token.Runs

/-!
# Cutting a line

What the scanner has come to behind some characters, the tokens that have ended and the one that is
open, does not depend on what follows. So where a line is cut its tokens are cut with it, unless the
number or word that is open there goes on. If it does, then it is one token on both sides of the
cut; or else it is a number that gets a second point behind the cut, and then it is no token at all.
-/

namespace Reckoner

namespace OpenToken

/-- The position at which the open token began. -/
def start? : OpenToken → Option Nat
  | none => .none
  | number start _ | word start _ => some start

/-- A number that is open has at most one point. -/
def AtMostOnePoint : OpenToken → Prop
  | number _ text => text.count '.' ≤ 1
  | none | word _ _ => True

/-- The open token ends where the line goes on like this. -/
def EndsAt (voc : Vocabulary) (rest : List Char) : OpenToken → Prop
  | none => True
  | number _ _ => Stops isNumberChar rest
  | word _ _ => Stops voc.isWordChar rest

variable {voc : Vocabulary} {index : Nat} {c : Char} {current : OpenToken}

/-- A number that has just begun has one character. -/
theorem Steps.atMostOnePoint {next : List Token × OpenToken} (h : Steps index c current next)
    (hnumber : ∀ start text, current ≠ .number start text) : next.2.AtMostOnePoint := by
  cases h with
  | beginsNumber => exact List.count_le_length
  | number => exact absurd rfl (hnumber _ _)
  | _ => trivial

theorem AtMostOnePoint.step (h : current.AtMostOnePoint) (voc : Vocabulary) (index : Nat)
    (c : Char) : (current.step voc index c).2.AtMostOnePoint := by
  cases current with
  | none => exact (steps_step voc index c none).atMostOnePoint fun _ _ ↦ OpenToken.noConfusion
  | word start text =>
    exact (steps_step voc index c (word start text)).atMostOnePoint fun _ _ ↦
      OpenToken.noConfusion
  | number start text =>
    cases hbelongs : isNumberChar c with
    | false =>
      rw [step_number_of_stops hbelongs]
      exact (steps_step voc index c none).atMostOnePoint fun _ _ ↦ OpenToken.noConfusion
    | true =>
      by_cases hpoint : c = '.' ∧ '.' ∈ text
      · obtain ⟨rfl, hmem⟩ := hpoint
        rw [step_extraPoint hmem]
        trivial
      · rw [step_number hbelongs (not_and.mp hpoint)]
        exact Token.count_point_cons_le hpoint h

/-- The token that is open is a number or a word, and ends where it is ended. -/
theorem isText_of_mem_tokens {token : Token} (htoken : token ∈ current.tokens index) :
    token.isText = true ∧ token.span.stop = index := by
  cases current with
  | none => cases htoken
  | _ =>
    rw [List.mem_singleton.mp htoken]
    exact ⟨rfl, rfl⟩

/-- A character gives the token that it ends and one that it is itself. -/
theorem Steps.isText_or_eq_single {next : List Token × OpenToken} {token : Token}
    (h : Steps index c current next) (htoken : token ∈ next.1) :
    (token.isText = true ∧ token.span.stop = index) ∨
      (token.isText = false ∧ token.span = .single index) := by
  cases h with
  | ends | beginsNumber | beginsWord => exact .inl (isText_of_mem_tokens htoken)
  | number | word => cases htoken
  | stands _ _ hkind =>
    rcases List.mem_append.mp htoken with htoken | htoken
    · exact .inl (isText_of_mem_tokens htoken)
    · rw [List.mem_singleton.mp htoken]
      exact .inr ⟨hkind, rfl⟩
  | extraPoint =>
    rw [List.mem_singleton.mp htoken]
    exact .inr ⟨rfl, rfl⟩

end OpenToken

namespace Token

/-- The tokens that have ended behind some characters, and the one that is open there. -/
def scanned (voc : Vocabulary) (index : Nat) (current : OpenToken) :
    List Char → List Token × OpenToken
  | [] => ([], current)
  | c :: rest =>
    let next := current.step voc index c
    let later := scanned voc (index + 1) next.2 rest
    (next.1 ++ later.1, later.2)

variable {voc : Vocabulary} {index : Nat} {current : OpenToken} {token : Token}

/-- The scanner goes on from where it has come to. -/
theorem scan_append (line rest : List Char) (index : Nat) (current : OpenToken) :
    scan voc index current (line ++ rest) =
      (scanned voc index current line).1 ++
        scan voc (index + line.length) (scanned voc index current line).2 rest := by
  induction line generalizing index current with
  | nil => rfl
  | cons c line ih =>
    rw [List.cons_append, scan, ih, scanned, List.length_cons, Nat.add_comm line.length,
      Nat.add_assoc]
    exact (List.append_assoc _ _ _).symm

theorem ofLine_append (front rest : List Char) :
    ofLine voc (front ++ rest) = (scanned voc 0 .none front).1 ++
      scan voc front.length (scanned voc 0 .none front).2 rest := by
  rw [ofLine, scan_append, Nat.zero_add]

/-- At the end of the line the open token ends. -/
theorem scan_eq_scanned (line : List Char) (index : Nat) (current : OpenToken) :
    scan voc index current line = (scanned voc index current line).1 ++
      (scanned voc index current line).2.tokens (index + line.length) := by
  have happend : scan voc index current (line ++ []) = _ := scan_append line [] index current
  rwa [List.append_nil] at happend

theorem atMostOnePoint_scanned (line : List Char) (h : current.AtMostOnePoint) :
    (scanned voc index current line).2.AtMostOnePoint := by
  induction line generalizing index current with
  | nil => exact h
  | cons c line ih => exact ih (h.step voc index c)

/-! ## Cutting where the open token ends -/

theorem scan_of_endsAt {rest : List Char} (h : current.EndsAt voc rest) :
    scan voc index current rest = current.tokens index ++ scan voc index .none rest := by
  cases current with
  | none => rfl
  | number => exact scan_number_of_stops h
  | word => exact scan_word_of_stops h

/-- Where the open token ends, the tokens of the line are those of the two parts. -/
theorem scan_append_of_endsAt {line rest : List Char}
    (h : (scanned voc index current line).2.EndsAt voc rest) :
    scan voc index current (line ++ rest) =
      scan voc index current line ++ scan voc (index + line.length) .none rest := by
  rw [scan_append, scan_of_endsAt h, scan_eq_scanned line, List.append_assoc]

/-! ## Cutting where the open token goes on -/

/-- What the scanner finds where the open token goes on. -/
inductive GoesOn (voc : Vocabulary) (index : Nat) :
    OpenToken → List Char → List Token → Prop
  | number {start : Nat} {text run rest : List Char} (hne : run ≠ [])
    (hrun : ∀ c ∈ run, isNumberChar c = true) (hpoints : (text.reverse ++ run).count '.' ≤ 1)
    (hstops : Stops isNumberChar rest) :
    GoesOn voc index (.number start text) (run ++ rest)
      (⟨.number (text.reverse ++ run), ⟨start, index + run.length⟩⟩ ::
        scan voc (index + run.length) .none rest)
  | extraPoint {start place : Nat} {text run rest behind : List Char}
    (hrun : ∀ c ∈ run, isNumberChar c = true) (hpoints : 1 < (text.reverse ++ run).count '.')
    (hle : index ≤ place) :
    GoesOn voc index (.number start text) (run ++ rest)
      (⟨.extraPoint, .single place⟩ :: scan voc (place + 1) .none behind)
  | word {start : Nat} {text run rest : List Char} (hne : run ≠ [])
    (hrun : ∀ c ∈ run, voc.isWordChar c = true) (hstops : Stops voc.isWordChar rest) :
    GoesOn voc index (.word start text) (run ++ rest)
      (⟨.word (String.ofList (text.reverse ++ run)), ⟨start, index + run.length⟩⟩ ::
        scan voc (index + run.length) .none rest)

/-- A run of characters is not empty where the line does not stop it. -/
theorem ne_nil_of_not_stops {belongs : Char → Bool} {run rest : List Char}
    (hstops : Stops belongs rest) (h : ¬ Stops belongs (run ++ rest)) : run ≠ [] := by
  rintro rfl
  exact h hstops

theorem goesOn_of_not_endsAt {line : List Char} (hpoint : current.AtMostOnePoint)
    (h : ¬ current.EndsAt voc line) :
    GoesOn voc index current line (scan voc index current line) := by
  cases current with
  | none => exact absurd trivial h
  | number start text =>
    obtain ⟨run, rest, rfl, hrun, hstops⟩ := exists_run isNumberChar line
    by_cases hpoints : (text.reverse ++ run).count '.' ≤ 1
    · rw [scan_number hrun hpoints, scan_number_of_stops hstops, List.reverse_append,
        List.reverse_reverse]
      exact .number (ne_nil_of_not_stops hstops h) hrun hpoints hstops
    · have hextra := Nat.lt_of_not_le hpoints
      obtain ⟨place, behind, hle, hscan⟩ := scan_extraPoint hrun hpoint hextra rest
      rw [hscan]
      exact .extraPoint hrun hextra hle
  | word start text =>
    obtain ⟨run, rest, rfl, hrun, hstops⟩ := exists_run voc.isWordChar line
    rw [scan_word hrun, scan_word_of_stops hstops, List.reverse_append, List.reverse_reverse]
    exact .word (ne_nil_of_not_stops hstops h) hrun hstops

/-! ## Where the tokens stand -/

/-- Tokens that stand one after the other do not overlap. -/
theorem Ordered.pairwise {start : Nat} {tokens : List Token} (h : Ordered start tokens) :
    tokens.Pairwise (fun a b ↦ a.span.stop ≤ b.span.start) ∧
      ∀ token ∈ tokens, start ≤ token.span.start := by
  induction h with
  | nil => exact ⟨.nil, fun _ ↦ nofun⟩
  | @cons start token rest hstart hspan _ ih =>
    refine ⟨.cons ih.2 ih.1, List.forall_mem_cons.mpr ⟨hstart, fun later hlater ↦ ?_⟩⟩
    exact Nat.le_trans hstart (Nat.le_trans hspan (ih.2 later hlater))

/-- Without an open token the scanner finds tokens from its position on. -/
theorem le_start_of_mem_scan {line : List Char} (h : token ∈ scan voc index .none line) :
    index ≤ token.span.start := by
  have hbegan : OpenToken.none.BeganIn index index := Nat.le_refl index
  exact (ordered_scan voc line hbegan).pairwise.2 token h

/-- A token that is no number and no word is one of the characters that are scanned. -/
theorem isText_or_single (line : List Char) :
    ∀ {index : Nat} {current : OpenToken}, token ∈ scan voc index current line →
      token.isText = true ∨ ∃ place, index ≤ place ∧ token.span = .single place := by
  induction line with
  | nil => exact fun htoken ↦ .inl (OpenToken.isText_of_mem_tokens htoken).1
  | cons c line ih =>
    intro index current htoken
    rcases List.mem_append.mp htoken with htoken | htoken
    · rcases (OpenToken.steps_step voc index c current).isText_or_eq_single htoken with
        ⟨htext, -⟩ | ⟨-, heq⟩
      · exact .inl htext
      · exact .inr ⟨index, Nat.le_refl _, heq⟩
    · exact (ih htoken).imp_right fun ⟨place, hle, heq⟩ ↦ ⟨place, Nat.le_of_succ_le hle, heq⟩

/-- The tokens of some characters stand among these. -/
theorem liesOn_of_mem_scanned {line : List Char} (h : token ∈ (scanned voc 0 .none line).1) :
    token.span.LiesOn line.length := by
  have hmem : token ∈ ofLine voc line := by
    rw [ofLine, scan_eq_scanned]
    exact List.mem_append_left _ h
  exact liesOn_of_mem_ofLine hmem

/-- The token that is open behind some characters began among them, behind all others. -/
theorem lt_of_start?_scanned {line : List Char} {start : Nat}
    (h : (scanned voc 0 .none line).2.start? = some start) :
    start < line.length ∧ ∀ token ∈ (scanned voc 0 .none line).1, token.span.stop ≤ start := by
  have hopen : ∃ last, (scanned voc 0 .none line).2.tokens (0 + line.length) = [last] ∧
      last.span = ⟨start, line.length⟩ := by
    rw [Nat.zero_add]
    cases hcurrent : (scanned voc 0 .none line).2 with
    | none => rw [hcurrent] at h; cases h
    | number | word =>
      rw [hcurrent] at h
      cases h
      exact ⟨_, rfl, rfl⟩
  obtain ⟨last, hlast, hspan⟩ := hopen
  have hline : ofLine voc line = (scanned voc 0 .none line).1 ++ [last] := by
    rw [ofLine, scan_eq_scanned, hlast]
  have hpairwise := (ordered_ofLine voc line).pairwise.1
  rw [hline] at hpairwise
  refine ⟨?_, fun token htoken ↦ ?_⟩
  · have hmem : last ∈ ofLine voc line := hline ▸ List.mem_append_right _ List.mem_cons_self
    have hlt := (liesOn_of_mem_ofLine hmem).start_lt
    rwa [hspan] at hlt
  · have hstop := (List.pairwise_append.mp hpairwise).2.2 token htoken last List.mem_cons_self
    rwa [hspan] at hstop

/-- A token that goes on behind a position stands on both sides of it, or the scanner finds a second
point there. -/
theorem GoesOn.exists_token {line : List Char} {tokens : List Token}
    (h : GoesOn voc index current line tokens) :
    (∃ token ∈ tokens, token.isText = true ∧ current.start? = some token.span.start ∧
        index < token.span.stop) ∨
      ∃ token rest, tokens = token :: rest ∧ token.kind = .extraPoint ∧
        ∀ other ∈ tokens, index ≤ other.span.start := by
  cases h with
  | number hne | word hne =>
    have hlength := List.length_pos_iff.mpr hne
    exact .inl ⟨_, List.mem_cons_self, rfl, rfl, Nat.lt_add_of_pos_right hlength⟩
  | extraPoint _ _ hle =>
    refine .inr ⟨_, _, rfl, rfl, List.forall_mem_cons.mpr ⟨hle, fun other hother ↦ ?_⟩⟩
    have hstart := le_start_of_mem_scan hother
    omega

/-- Two lists that are cut between what has a property and what has not are cut at one place. -/
theorem append_inj_of_forall {α : Type} {p : α → Prop} {xs ys xs' ys' : List α}
    (h : xs ++ ys = xs' ++ ys') (hxs : ∀ a ∈ xs, p a) (hys : ∀ a ∈ ys, ¬ p a)
    (hxs' : ∀ a ∈ xs', p a) (hys' : ∀ a ∈ ys', ¬ p a) : xs = xs' ∧ ys = ys' := by
  rcases List.append_eq_append_iff.mp h with ⟨between, rfl, rfl⟩ | ⟨between, rfl, rfl⟩
  · have hnil : between = [] := List.eq_nil_iff_forall_not_mem.mpr fun a ha ↦
      hys a (List.mem_append_left _ ha) (hxs' a (List.mem_append_right _ ha))
    simp [hnil]
  · have hnil : between = [] := List.eq_nil_iff_forall_not_mem.mpr fun a ha ↦
      hys' a (List.mem_append_left _ ha) (hxs a (List.mem_append_right _ ha))
    simp [hnil]

/-- Where a line is cut between its tokens, and no second point is the next of them, the first part
has the tokens in front of the cut. -/
theorem ofLine_eq_of_append {front rest : List Char} {before after : List Token}
    (h : ofLine voc (front ++ rest) = before ++ after)
    (hbefore : ∀ token ∈ before, token.span.stop ≤ front.length)
    (hafter : ∀ token ∈ after, front.length ≤ token.span.start)
    (hpoint : ∀ token ∈ after.head?, token.kind ≠ .extraPoint) : ofLine voc front = before := by
  have hstartBefore : ∀ token ∈ before, token.span.start < front.length := by
    intro token htoken
    have hmem : token ∈ ofLine voc (front ++ rest) := h ▸ List.mem_append_left _ htoken
    exact Nat.lt_of_lt_of_le (liesOn_of_mem_ofLine hmem).start_lt (hbefore token htoken)
  have hstartAfter : ∀ token ∈ after, ¬ token.span.start < front.length :=
    fun token htoken ↦ Nat.not_lt.mpr (hafter token htoken)
  by_cases hends : (scanned voc 0 .none front).2.EndsAt voc rest
  · rw [ofLine, scan_append_of_endsAt hends, Nat.zero_add] at h
    refine (append_inj_of_forall h (fun token htoken ↦ ?_) (fun token htoken ↦ ?_) hstartBefore
      hstartAfter).1
    · have hlies : token.span.LiesOn front.length := liesOn_of_mem_ofLine htoken
      exact Nat.lt_of_lt_of_le hlies.start_lt hlies.stop_le
    · exact Nat.not_lt.mpr (le_start_of_mem_scan htoken)
  · have hpoints : (scanned voc 0 .none front).2.AtMostOnePoint :=
      atMostOnePoint_scanned front trivial
    have hgoesOn : GoesOn voc front.length _ rest _ := goesOn_of_not_endsAt hpoints hends
    rw [ofLine_append] at h
    rcases hgoesOn.exists_token with ⟨token, htoken, -, hstart, hstop⟩ |
      ⟨token, others, hscan, hkind, hplaces⟩
    · have hlt := (lt_of_start?_scanned hstart).1
      have hmem := List.mem_append_right (scanned voc 0 .none front).1 htoken
      rw [h] at hmem
      rcases List.mem_append.mp hmem with hmem | hmem
      · have hle := hbefore token hmem
        omega
      · exact absurd hlt (hstartAfter token hmem)
    · have hcut := (append_inj_of_forall h (fun other hother ↦ ?_)
        (fun other hother ↦ Nat.not_lt.mpr (hplaces other hother)) hstartBefore hstartAfter).2
      · rw [hscan] at hcut
        rw [← hcut] at hpoint
        exact absurd hkind (hpoint token rfl)
      · have hlies := liesOn_of_mem_scanned hother
        exact Nat.lt_of_lt_of_le hlies.start_lt hlies.stop_le

end Token

end Reckoner
