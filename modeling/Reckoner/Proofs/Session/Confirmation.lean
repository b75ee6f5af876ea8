import Reckoner.Proofs.Session.Run

/-!
# Confirmed losses

A new document, another document and the end of the session take the text away. If it has unsaved
changes, each of these has to be asked for twice, by two keys with no other key between them. The
session itself only remembers which action the last key gave a warning about. Here this is set
against the events of a run: what is armed was asked for by the last key, on the document as it
still is, and a file name that is being typed for another document was asked for on that document
as well. So no action that goes ahead loses what it was not twice asked to lose.
-/

namespace Reckoner.Session

/-- The document as it stands: its text with the cursor, its file, and whether there are unsaved
changes. -/
def document (s : Session) : Editor × Option String × Bool := (s.editor, s.path, s.dirty)

theorem dirty_eq_of_document_eq {s s' : Session} (h : s'.document = s.document) :
    s'.dirty = s.dirty := congrArg (·.2.2) h

/-- An event asks for a guarded action that goes ahead. -/
structure Grants (s : Session) (e : Event) (action : Guarded) : Prop where
  prompt_eq : s.prompt = none
  asks : e.guarded? = some action
  safe : s.dirty = false ∨ s.armed = some action

/-! ## Prompts, warnings and the end -/

/-- What an event may do to the file name that is typed, to what is armed and to the session as a
whole. -/
inductive Turn (s : Session) (e : Event) (s' : Session) : Prop
  /-- No key is pressed. -/
  | idle (hkey : e.isKey = false) (hdocument : s'.document = s.document)
      (hprompt : s'.prompt = s.prompt) (harmed : s'.armed = s.armed) (hquit : s'.quit = s.quit)
  /-- The key belongs to the file name. -/
  | typed {prompt : Prompt} (hopen : s.prompt = some prompt) (input : List Char)
      (hdocument : s'.document = s.document) (hprompt : s'.prompt = some { prompt with input })
      (harmed : s'.armed = s.armed) (hquit : s'.quit = s.quit)
  /-- The file name is complete, or there is to be none. -/
  | ended {prompt : Prompt} (hopen : s.prompt = some prompt) (hprompt : s'.prompt = none)
      (harmed : s'.armed = s.armed) (hquit : s'.quit = s.quit)
  /-- The key has to do with none of this, or a name to save under is asked for. -/
  | disarmed (hclosed : s.prompt = none) (hkey : e.guarded? = none)
      (hprompt : s'.prompt = none ∨ s'.prompt = some ⟨.saving, []⟩)
      (harmed : s'.armed = none) (hquit : s'.quit = s.quit)
  /-- A guarded action gives a warning. -/
  | warned {action : Guarded} (hclosed : s.prompt = none) (hkey : e.guarded? = some action)
      (hdirty : s.dirty = true) (hdocument : s'.document = s.document) (hprompt : s'.prompt = none)
      (harmed : s'.armed = some action) (hquit : s'.quit = s.quit)
  /-- A guarded action goes ahead. -/
  | granted {action : Guarded} (hgrants : s.Grants e action)
      (hstep : s' = { s with armed := none }.goAhead action)

variable {s : Session}

/-- A request for a file leaves the file name, what is armed and the session as a whole alone. -/
theorem fulfil_eq (replies : FileReplies) (s : Session) (request : Option FileRequest) :
    (s.fulfil replies request).prompt = s.prompt ∧ (s.fulfil replies request).armed = s.armed ∧
      (s.fulfil replies request).quit = s.quit := by
  cases request with
  | none => exact ⟨rfl, rfl, rfl⟩
  | some request =>
    cases request with
    | read path =>
      rw [fulfil]
      cases replies.read path <;> exact ⟨rfl, rfl, rfl⟩
    | write path text =>
      rw [fulfil]
      cases replies.write path text <;> exact ⟨rfl, rfl, rfl⟩

/-- Every event is one of these turns. -/
theorem turn_step (s : Session) (e : Event) : Turn s e (s.step e) := by
  cases e with
  | pass => exact .idle rfl rfl rfl rfl rfl
  | drawing width height => exact .idle rfl rfl rfl rfl rfl
  | key key replies =>
    have hresponse := s.response_press key
    generalize hpress : s.press key = result at hresponse
    obtain ⟨hprompt, harmed, hquit⟩ := fulfil_eq replies result.1 result.2
    rw [step, pressed_eq replies hpress]
    cases hresponse with
    | typed hopen input => exact .typed hopen input rfl rfl rfl rfl
    | cancelled hopen => exact .ended hopen rfl rfl rfl
    | named hopen => exact .ended hopen hprompt harmed hquit
    | chosen hopen => exact .ended hopen hprompt harmed hquit
    | saved hclosed hkey =>
      exact .disarmed hclosed hkey (.inl (hprompt.trans hclosed)) harmed hquit
    | asked hclosed hkey => exact .disarmed hclosed hkey (.inr rfl) rfl rfl
    | warned hclosed hkey hdirty =>
      exact .warned hclosed hkey hdirty rfl hclosed rfl rfl
    | granted hclosed hkey hgo => exact .granted ⟨hclosed, hkey, hgo⟩ rfl
    | edited hclosed hcontrol =>
      exact .disarmed hclosed (Key.guarded?_eq_none hcontrol) (.inl hclosed) rfl rfl
    | moved hclosed hcontrol =>
      exact .disarmed hclosed (Key.guarded?_eq_none hcontrol) (.inl hclosed) rfl rfl
    | ignored hclosed hkey => exact .disarmed hclosed hkey (.inl hclosed) rfl rfl

/-- An event that ends a session asked for its end. -/
theorem grants_of_quit {e : Event} (hbefore : s.quit = false) (hafter : (s.step e).quit = true) :
    s.Grants e .quit := by
  have hsame (hquit : (s.step e).quit = s.quit) : s.Grants e .quit := by
    rw [hquit, hbefore] at hafter
    cases hafter
  cases s.turn_step e with
  | idle _ _ _ _ hquit => exact hsame hquit
  | typed _ _ _ _ _ hquit => exact hsame hquit
  | ended _ _ _ hquit => exact hsame hquit
  | disarmed _ _ _ _ hquit => exact hsame hquit
  | warned _ _ _ _ _ _ hquit => exact hsame hquit
  | @granted action hgrants hstep =>
    cases action with
    | quit => exact hgrants
    | new => exact hsame (by rw [hstep]; rfl)
    | opening => exact hsame (by rw [hstep]; rfl)

/-- An event that begins a document anew asked for one. -/
theorem grants_of_clears {e : Event} (h : s.Clears e) : s.Grants e .new := by
  obtain ⟨hclosed, hkey, -, -, hclean⟩ := h
  cases s.turn_step e with
  | idle hidle =>
    cases e with
    | key => cases hidle
    | pass => cases hkey
    | drawing => cases hkey
  | typed hopen => cases hclosed.symm.trans hopen
  | ended hopen => cases hclosed.symm.trans hopen
  | disarmed _ hfree => cases hkey.symm.trans hfree
  | warned _ _ hdirty hdocument =>
    rw [dirty_eq_of_document_eq hdocument, hdirty] at hclean
    cases hclean
  | granted hgrants =>
    cases hkey.symm.trans hgrants.asks
    exact hgrants

/-- A text is loaded where the name of a document to open was being typed. -/
theorem prompt_of_loads {e : Event} {text : List Char} (h : s.loads? e = some text) :
    ∃ prompt, s.prompt = some prompt ∧ prompt.purpose = .opening := by
  cases e with
  | pass => cases h
  | drawing => cases h
  | key key replies =>
    have hresponse := s.response_press key
    generalize hpress : s.press key = result at hresponse
    have hrequest (hnone : ∀ path, result.2 ≠ some (.read path)) :
        s.loads? (.key key replies) = none := loads?_eq_none replies hpress hnone
    cases hresponse with
    | chosen hopen _ hpurpose => exact ⟨_, hopen, hpurpose⟩
    | _ => cases h.symm.trans (hrequest fun path ↦ by simp [saving])

/-- If the name of a document to open is being typed after an event, it was so before or the event
asked for it, and the document is what it was. -/
theorem prompt_opening {e : Event} {prompt : Prompt} (hprompt : (s.step e).prompt = some prompt)
    (hpurpose : prompt.purpose = .opening) :
    (s.step e).document = s.document ∧
      (s.Grants e .opening ∨ ∃ before, s.prompt = some before ∧ before.purpose = .opening) := by
  cases s.turn_step e with
  | idle _ hdocument hsame =>
    exact ⟨hdocument, .inr ⟨prompt, hsame.symm.trans hprompt, hpurpose⟩⟩
  | typed hopen input hdocument hsame =>
    cases hsame.symm.trans hprompt
    exact ⟨hdocument, .inr ⟨_, hopen, hpurpose⟩⟩
  | ended _ hended => cases hended.symm.trans hprompt
  | disarmed _ _ hsaving =>
    rcases hsaving with hclosed | hsaving
    · cases hclosed.symm.trans hprompt
    · cases hsaving.symm.trans hprompt
      cases hpurpose
  | warned _ _ _ _ hclosed => cases hclosed.symm.trans hprompt
  | @granted action hgrants hstep =>
    cases action with
    | opening => exact ⟨by rw [hstep]; rfl, .inl hgrants⟩
    | quit =>
      rw [hstep] at hprompt
      cases hgrants.prompt_eq.symm.trans hprompt
    | new =>
      rw [hstep] at hprompt
      cases hgrants.prompt_eq.symm.trans hprompt

/-! ## Along a run -/

section Run

variable (text : List Char) (path : Option String)

/-- The last key of some events asked for an action too, where no file name was typed, and on the
same document, which had unsaved changes then and has them now. -/
def Confirmed (past : List Event) (action : Guarded) : Prop :=
  ∃ before e rest, past = before ++ e :: rest ∧ e.guarded? = some action ∧
    (∀ later ∈ rest, later.isKey = false) ∧ (after text path before).prompt = none ∧
    (after text path before).dirty = true ∧
    (after text path past).document = (after text path before).document

/-- An event asks for a guarded action where no file name is typed, and either nothing is lost by it
or the last key asked for it too. -/
structure Entitled (past : List Event) (e : Event) (action : Guarded) : Prop where
  asks : e.guarded? = some action
  prompt_eq : (after text path past).prompt = none
  safe : (after text path past).dirty = false ∨ Confirmed text path past action

/-- The name of a document to open is being typed since an event that was entitled to ask for it,
and the document is what it was then. -/
def EntitledOpening (past : List Event) : Prop :=
  ∃ before e rest, past = before ++ e :: rest ∧ Entitled text path before e .opening ∧
    ∀ middle, middle <+: rest →
      (∃ input, (after text path (before ++ e :: middle)).prompt = some ⟨.opening, input⟩) ∧
      (after text path (before ++ e :: middle)).document = (after text path before).document

/-- What the session remembers of keys is true of the events of the run. -/
structure Accounted (past : List Event) : Prop where
  /-- What is armed was asked for by the last key. -/
  armed : ∀ action, (after text path past).armed = some action →
    (after text path past).prompt = none ∧ Confirmed text path past action
  /-- The name of a document to open is asked for by an event that was entitled to. -/
  opening : ∀ prompt, (after text path past).prompt = some prompt → prompt.purpose = .opening →
    EntitledOpening text path past

variable {text : List Char} {path : Option String} {past : List Event} {e : Event}

/-- A document that an action was confirmed for has unsaved changes. -/
theorem Confirmed.dirty_eq {action : Guarded} (h : Confirmed text path past action) :
    (after text path past).dirty = true := by
  obtain ⟨before, _, _, _, _, _, _, hdirty, hdocument⟩ := h
  rw [dirty_eq_of_document_eq hdocument, hdirty]

/-- A warning confirms the action, should the next key ask for it. -/
theorem Confirmed.of_warned {action : Guarded} (hclosed : (after text path past).prompt = none)
    (hkey : e.guarded? = some action) (hdirty : (after text path past).dirty = true)
    (hdocument : ((after text path past).step e).document = (after text path past).document) :
    Confirmed text path (past ++ [e]) action :=
  ⟨past, e, [], rfl, hkey, by simp, hclosed, hdirty, by rw [after_concat, hdocument]⟩

/-- An action stays confirmed as long as no key is pressed. -/
theorem Confirmed.idle {action : Guarded} (h : Confirmed text path past action)
    (hidle : e.isKey = false)
    (hdocument : ((after text path past).step e).document = (after text path past).document) :
    Confirmed text path (past ++ [e]) action := by
  obtain ⟨before, asking, rest, rfl, hkey, hrest, hclosed, hdirty, hsame⟩ := h
  refine ⟨before, asking, rest ++ [e], by simp, hkey, ?_, hclosed, hdirty, ?_⟩
  · intro later hlater
    rcases List.mem_append.mp hlater with hmem | hmem
    · exact hrest later hmem
    · rw [List.mem_singleton.mp hmem]
      exact hidle
  · rw [after_concat, hdocument, hsame]

/-- What a session grants is asked for by an event that is entitled to. -/
theorem Accounted.entitled (h : Accounted text path past) {action : Guarded}
    (hgrants : (after text path past).Grants e action) : Entitled text path past e action :=
  ⟨hgrants.asks, hgrants.prompt_eq,
    hgrants.safe.imp_right fun harmed ↦ (h.armed action harmed).2⟩

/-- The name of a document to open is asked for. -/
theorem EntitledOpening.of_entitled {input : List Char}
    (h : Entitled text path past e .opening)
    (hprompt : ((after text path past).step e).prompt = some ⟨.opening, input⟩)
    (hdocument : ((after text path past).step e).document = (after text path past).document) :
    EntitledOpening text path (past ++ [e]) := by
  refine ⟨past, e, [], rfl, h, ?_⟩
  intro middle hmiddle
  rw [List.prefix_nil.mp hmiddle, after_concat]
  exact ⟨⟨input, hprompt⟩, hdocument⟩

/-- The name of a document to open is still being typed. -/
theorem EntitledOpening.concat {input : List Char} (h : EntitledOpening text path past)
    (hprompt : ((after text path past).step e).prompt = some ⟨.opening, input⟩)
    (hdocument : ((after text path past).step e).document = (after text path past).document) :
    EntitledOpening text path (past ++ [e]) := by
  obtain ⟨before, asking, rest, rfl, hentitled, hrest⟩ := h
  refine ⟨before, asking, rest ++ [e], by simp, hentitled, ?_⟩
  intro middle hmiddle
  rcases List.prefix_concat_iff.mp hmiddle with rfl | hmiddle
  · have hstep : after text path (before ++ asking :: (rest ++ [e])) =
        (after text path (before ++ asking :: rest)).step e := by
      rw [← after_concat, List.append_assoc, List.cons_append]
    rw [hstep]
    exact ⟨⟨input, hprompt⟩, hdocument.trans (hrest rest (List.prefix_refl rest)).2⟩
  · exact hrest middle hmiddle

/-- Every event keeps the account. -/
theorem Accounted.step (h : Accounted text path past) (e : Event) :
    Accounted text path (past ++ [e]) := by
  constructor
  · intro action harmed
    rw [after_concat] at harmed ⊢
    cases (after text path past).turn_step e with
    | idle hidle hdocument hprompt hsame =>
      obtain ⟨hclosed, hconfirmed⟩ := h.armed action (hsame.symm.trans harmed)
      exact ⟨hprompt.trans hclosed, hconfirmed.idle hidle hdocument⟩
    | typed hopen _ _ _ hsame =>
      cases hopen.symm.trans (h.armed action (hsame.symm.trans harmed)).1
    | ended hopen _ hsame =>
      cases hopen.symm.trans (h.armed action (hsame.symm.trans harmed)).1
    | disarmed _ _ _ hnone => cases hnone.symm.trans harmed
    | warned hclosed hkey hdirty hdocument hprompt hwarned =>
      cases hwarned.symm.trans harmed
      exact ⟨hprompt, .of_warned hclosed hkey hdirty hdocument⟩
    | @granted other _ hstep =>
      have hnone : ((after text path past).step e).armed = none := by
        rw [hstep]
        cases other <;> rfl
      cases hnone.symm.trans harmed
  · rintro ⟨purpose, input⟩ hprompt rfl
    rw [after_concat] at hprompt
    obtain ⟨hdocument, hgrants | ⟨before, hbefore, hopening⟩⟩ := prompt_opening hprompt rfl
    · exact .of_entitled (h.entitled hgrants) hprompt hdocument
    · exact (h.opening before hbefore hopening).concat hprompt hdocument

theorem Accounted.after (text : List Char) (path : Option String) (past : List Event) :
    Accounted text path past := by
  refine after_induction text path (P := fun past _ ↦ Accounted text path past) ⟨?_, ?_⟩
    (fun _ e h ↦ h.step e) past
  · intro action harmed
    cases harmed
  · intro prompt hprompt
    cases hprompt

end Run

/-- What stands between unsaved changes and the events that would lose them, for an event that comes
after others. -/
structure Protects (text : List Char) (path : Option String) (past : List Event) (e : Event) :
    Prop where
  /-- A session that ends with the event was asked to end. -/
  quit : (after text path past).quit = false → (after text path (past ++ [e])).quit = true →
    Entitled text path past e .quit
  /-- A document that is begun anew with the event was asked for. -/
  new : (after text path past).Clears e → Entitled text path past e .new
  /-- A document that is opened with the event was asked for when its name began to be typed, and
  nothing was edited or saved since. -/
  opening : ((after text path past).loads? e).isSome → EntitledOpening text path past
  /-- In no other way than by an edit another text comes about. -/
  text_eq : (after text path past).Edits e ∨ (after text path past).Clears e ∨
    ((after text path past).loads? e).isSome ∨
    (after text path (past ++ [e])).editor.text = (after text path past).editor.text
  /-- In no other way than by saving them unsaved changes go away. -/
  dirty_eq : (after text path past).dirty = true → (after text path (past ++ [e])).dirty = false →
    (after text path past).writes? e = some (after text path past).editor.text ∨
    (after text path past).Clears e ∨ ((after text path past).loads? e).isSome
  /-- An action is armed only while no file name is typed and there are unsaved changes. -/
  armed : ∀ action, (after text path past).armed = some action →
    (after text path past).prompt = none ∧ (after text path past).dirty = true

/-- Whatever happened to a session, no event ends it or takes its document away that was not
entitled to. -/
theorem protects_after (text : List Char) (path : Option String) (past : List Event) (e : Event) :
    Protects text path past e := by
  have haccounted := Accounted.after text path past
  have hchange := (after text path past).change_step e
  constructor
  · intro hbefore hafter
    rw [after_concat] at hafter
    exact haccounted.entitled (grants_of_quit hbefore hafter)
  · intro hclears
    exact haccounted.entitled (grants_of_clears hclears)
  · intro hloads
    obtain ⟨loaded, hloads⟩ := Option.isSome_iff_exists.mp hloads
    obtain ⟨prompt, hprompt, hpurpose⟩ := prompt_of_loads hloads
    exact haccounted.opening prompt hprompt hpurpose
  · rw [after_concat]
    cases hchange with
    | kept _ _ hlines => exact .inr (.inr (.inr (congrArg joinLines hlines)))
    | computed _ _ heditor => exact .inr (.inr (.inr (congrArg Editor.text heditor)))
    | edited hedits => exact .inl hedits
    | written _ heditor => exact .inr (.inr (.inr (congrArg Editor.text heditor)))
    | loaded _ hloads => exact .inr (.inr (.inl (by rw [hloads]; rfl)))
    | cleared hclears => exact .inr (.inl hclears)
  · intro hdirty hclean
    rw [after_concat] at hclean
    have hsame (hkept : ((after text path past).step e).dirty = (after text path past).dirty) :
        False := by
      rw [hkept, hdirty] at hclean
      cases hclean
    cases hchange with
    | kept _ _ _ hkept => exact (hsame hkept).elim
    | computed _ _ _ hkept => exact (hsame hkept).elim
    | edited _ hedited => cases hedited.symm.trans hclean
    | written hwrites => exact .inl hwrites
    | loaded _ hloads => exact .inr (.inr (by rw [hloads]; rfl))
    | cleared hclears => exact .inr (.inl hclears)
  · intro action harmed
    obtain ⟨hclosed, hconfirmed⟩ := haccounted.armed action harmed
    exact ⟨hclosed, hconfirmed.dirty_eq⟩

/-- A warning about one action does not confirm another. -/
example (replies : FileReplies) :
    let edit := Event.key ⟨.char '1', false⟩ replies
    let command (c : Char) := Event.key ⟨.char c, true⟩ replies
    (after [] none [edit, command 'n', command 'q']).quit = false ∧
      (after [] none [edit, command 'n', command 'q', command 'Q']).quit = true :=
  ⟨rfl, rfl⟩

end Reckoner.Session
