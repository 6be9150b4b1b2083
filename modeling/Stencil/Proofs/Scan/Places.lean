import Mathlib
import Stencil.Proofs.Scan.Appending
import Stencil.Proofs.Scan.Slice

namespace Stencil

structure ParseError.Alike (error error' : ParseError) : Prop where
  fault : error'.fault = error.fault
  template : error'.location.template = error.location.template

theorem Token.Alike.refl (token : Token) : token.Alike token :=
  ⟨rfl, rfl, rfl, rfl, rfl⟩

namespace Scan

variable {s s' next next' : Scan} {tokens tokens' : List Token} {ending ending' : Ending}

inductive Ending.Alike : Ending → Ending → Prop
  | same {ending : Ending} : Alike ending ending
  | failed {error error' : ParseError} : error.Alike error' → Alike (.failed error) (.failed error')

/-- The tokens that a scan delivers in as many steps as it takes, and its end. -/
inductive Gives : Scan → List Token → Ending → Prop
  | finished {s : Scan} : s.step = .finished → Gives s [] .finished
  | failed {s : Scan} {error : ParseError} : s.step = .failed error → Gives s [] (.failed error)
  | on {s next : Scan} {tokens : List Token} {ending : Ending} : s.step = .on next →
      Gives next tokens ending → Gives s tokens ending
  | token {s next : Scan} {token : Token} {tokens : List Token} {ending : Ending} :
      s.step = .token token next → Gives next tokens ending → Gives s (token :: tokens) ending

theorem gives_trace {steps : Nat} (ends : (trace steps s).2 ≠ .exhausted) :
    s.Gives (trace steps s).1 (trace steps s).2 := by
  induction steps generalizing s with
  | zero => exact absurd rfl ends
  | succ steps ih =>
      cases action : s.step with
      | finished => simpa [trace, action] using Gives.finished action
      | failed error => simpa [trace, action] using Gives.failed action
      | on next =>
          simp only [trace, action] at ends ⊢
          exact .on action (ih ends)
      | token token next =>
          simp only [trace, action] at ends ⊢
          exact .token action (ih ends)

theorem Gives.exists_trace (gives : s.Gives tokens ending) :
    ∃ steps, trace steps s = (tokens, ending) ∧ ending ≠ .exhausted := by
  induction gives with
  | finished action => exact ⟨1, by simp [trace, action], by simp⟩
  | failed action => exact ⟨1, by simp [trace, action], by simp⟩
  | on action _ ih =>
      obtain ⟨steps, same, ends⟩ := ih
      exact ⟨steps + 1, by simp [trace, action, same], ends⟩
  | token action _ ih =>
      obtain ⟨steps, same, ends⟩ := ih
      exact ⟨steps + 1, by simp [trace, action, same], ends⟩

theorem Gives.trace_eq {steps : Nat} (gives : s.Gives tokens ending)
    (ends : (trace steps s).2 ≠ .exhausted) : trace steps s = (tokens, ending) := by
  obtain ⟨steps', same, ended⟩ := gives.exists_trace
  rw [← same]
  exact trace_agree ends (by rwa [same])

theorem exists_gives (marked : s.delimiters.Marked) : ∃ tokens ending, s.Gives tokens ending :=
  ⟨_, _, gives_trace (trace_ne_exhausted marked le_rfl)⟩

theorem Gives.unique (gives : s.Gives tokens ending) (gives' : s.Gives tokens' ending') :
    tokens' = tokens ∧ ending' = ending := by
  obtain ⟨steps, same, ends⟩ := gives.exists_trace
  have same' : trace steps s = (tokens', ending') := gives'.trace_eq (by rwa [same])
  rw [same] at same'
  cases same'
  exact ⟨rfl, rfl⟩

theorem Passes.gives {token : Token} (passes : s.Passes token next)
    (gives : next.Gives tokens ending) : s.Gives (token :: tokens) ending := by
  obtain ⟨steps, same, ends⟩ := gives.exists_trace
  obtain ⟨steps', whole⟩ := passes.trace steps (by rwa [same])
  rw [same] at whole
  have given := @gives_trace s steps' (by rwa [whole])
  rwa [whole] at given

structure Shifted (s s' : Scan) : Prop where
  template : s'.template = s.template
  delimiters : s'.delimiters = s.delimiters
  mode : s'.mode = s.mode
  seen : s'.seen = s.seen
  rest : s'.rest = s.rest

inductive Step.Shifted : Step → Step → Prop
  | finished : Shifted .finished .finished
  | failed {error error' : ParseError} : error.Alike error' → Shifted (.failed error) (.failed error')
  | on {next next' : Scan} : next.Shifted next' → Shifted (.on next) (.on next')
  | token {token token' : Token} {next next' : Scan} : token.Alike token' → next.Shifted next' →
      Shifted (.token token next) (.token token' next')

theorem Shifted.step {action : Step} (shifted : s.Shifted s') (taken : s.step = action) :
    ∃ action', s'.step = action' ∧ action.Shifted action' := by
  have same : s' = { s with start := s'.start, startLine := s'.startLine, line := s'.line } := by
    obtain ⟨template, delimiters, mode, seen, rest⟩ := shifted
    cases s'
    simp_all
  rw [same]
  generalize s'.start = start, s'.startLine = startLine, s'.line = line
  let moved : Scan := { s with start, startLine, line }
  have taken : s.Taken action := taken ▸ s.step_taken
  have takes {action' : Step} (taken : moved.Taken action') (related : action.Shifted action') :
      ∃ action', moved.step = action' ∧ action.Shifted action' := ⟨action', step_eq taken, related⟩
  cases taken with
  | finished mode rest => exact takes (.finished mode rest) .finished
  | trailing mode rest =>
      exact takes (.trailing mode rest) (.token ⟨rfl, rfl, rfl, rfl, rfl⟩ ⟨rfl, rfl, rfl, rfl, rfl⟩)
  | unclosed mode rest => exact takes (.unclosed mode rest) (.failed ⟨rfl, rfl⟩)
  | invalid mode closes words => exact takes (.invalid mode closes words) (.failed ⟨rfl, rfl⟩)
  | closed mode closes means =>
      exact takes (.closed mode closes means)
        (.token ⟨rfl, rfl, rfl, rfl, rfl⟩ ⟨rfl, rfl, rfl, rfl, rfl⟩)
  | within mode rest unclosed =>
      exact takes (.within mode rest unclosed) (.on ⟨rfl, rfl, rfl, rfl, rfl⟩)
  | opened mode opens => exact takes (.opened mode opens) (.on ⟨rfl, rfl, rfl, rfl, rfl⟩)
  | interrupted mode opens =>
      exact takes (.interrupted mode opens)
        (.token ⟨rfl, rfl, rfl, rfl, rfl⟩ ⟨rfl, rfl, rfl, rfl, rfl⟩)
  | begun mode rest clear => exact takes (.begun mode rest clear) (.on ⟨rfl, rfl, rfl, rfl, rfl⟩)
  | continued mode rest clear =>
      exact takes (.continued mode rest clear) (.on ⟨rfl, rfl, rfl, rfl, rfl⟩)

theorem Gives.shifted (gives : s.Gives tokens ending) (shifted : s.Shifted s') :
    ∃ tokens' ending', s'.Gives tokens' ending' ∧ List.Forall₂ Token.Alike tokens tokens' ∧
      ending.Alike ending' := by
  induction gives generalizing s' with
  | finished action =>
      obtain ⟨_, action', step⟩ := shifted.step action
      cases step
      exact ⟨_, _, .finished action', .nil, .same⟩
  | failed action =>
      obtain ⟨_, action', step⟩ := shifted.step action
      cases step with
      | failed alike => exact ⟨_, _, .failed action', .nil, .failed alike⟩
  | on action _ ih =>
      obtain ⟨_, action', step⟩ := shifted.step action
      cases step with
      | on shifted =>
          obtain ⟨tokens', ending', gives, alikes, ends⟩ := ih shifted
          exact ⟨tokens', ending', .on action' gives, alikes, ends⟩
  | token action _ ih =>
      obtain ⟨_, action', step⟩ := shifted.step action
      cases step with
      | token alike shifted =>
          obtain ⟨tokens', ending', gives, alikes, ends⟩ := ih shifted
          exact ⟨_, ending', .token action' gives, .cons alike alikes, ends⟩

theorem Gives.of_on (gives : s.Gives tokens ending) (action : s.step = .on next) :
    next.Gives tokens ending := by
  cases gives with
  | on action' gives =>
      cases action.symm.trans action'
      exact gives
  | finished action' => cases action.symm.trans action'
  | failed action' => cases action.symm.trans action'
  | token action' => cases action.symm.trans action'

theorem Gives.of_token {token : Token} (gives : s.Gives tokens ending)
    (action : s.step = .token token next) :
    ∃ rest, tokens = token :: rest ∧ next.Gives rest ending := by
  cases gives with
  | token action' gives =>
      cases action.symm.trans action'
      exact ⟨_, rfl, gives⟩
  | finished action' => cases action.symm.trans action'
  | failed action' => cases action.symm.trans action'
  | on action' => cases action.symm.trans action'

structure Later (earlier : List Char) (s s' : Scan) : Prop where
  template : s'.template = s.template
  delimiters : s'.delimiters = s.delimiters
  mode : s.mode = .text
  mode' : s'.mode = .text
  seen : s.seen = s'.seen ++ earlier
  rest : s'.rest = s.rest

/-- The tokens from a text on that is under way, and from where it has begun later. -/
inductive CutBehind (earlier : List Char) : List Token → List Token → Prop
  | text {whole second : Token} {tokens tokens' : List Token} : whole.kind = .text →
      second.kind = .text → whole.content = String.ofList earlier.reverse ++ second.content →
      List.Forall₂ Token.Alike tokens tokens' → CutBehind earlier (whole :: tokens) (second :: tokens')

theorem Later.content_eq {earlier : List Char} (later : Later earlier s s') :
    s.textToken.content = String.ofList earlier.reverse ++ s'.textToken.content := by
  simp [textToken, later.seen]

theorem Later.ends {earlier : List Char} (later : Later earlier s s')
    (action : s'.step = .token s'.textToken next') (behind : next.Shifted next')
    (gives : next.Gives tokens ending) :
    ∃ tokens' ending', s'.Gives tokens' ending' ∧ CutBehind earlier (s.textToken :: tokens) tokens' ∧
      ending.Alike ending' := by
  obtain ⟨tokens', ending', gives', alikes, ends⟩ := gives.shifted behind
  exact ⟨_, ending', .token action gives', .text rfl rfl later.content_eq alikes, ends⟩

theorem Gives.later {earlier : List Char} (gives : s.Gives tokens ending)
    (later : Later earlier s s') :
    ∃ tokens' ending', s'.Gives tokens' ending' ∧ CutBehind earlier tokens tokens' ∧
      ending.Alike ending' := by
  induction gives generalizing s' with
  | @finished s action =>
      have taken := s.step_taken
      rw [action] at taken
      cases taken with
      | finished mode => cases mode.symm.trans later.mode
  | @failed s error action =>
      have taken := s.step_taken
      rw [action] at taken
      cases taken with
      | unclosed mode => cases mode.symm.trans later.mode
      | invalid mode => cases mode.symm.trans later.mode
  | @on s next tokens ending action _ ih =>
      have taken := s.step_taken
      rw [action] at taken
      cases taken with
      | within mode => cases mode.symm.trans later.mode
      | opened mode => cases mode.symm.trans later.mode
      | begun mode => cases mode.symm.trans later.mode
      | @continued c rest mode hrest clear =>
          have action' : s'.step = .on (s'.pass c rest) := by
            refine step_eq (.continued later.mode' (later.rest.trans hrest) ?_)
            rw [later.delimiters, later.rest]
            exact clear
          have further : Later earlier (s.pass c rest) (s'.pass c rest) :=
            ⟨later.template, later.delimiters, later.mode, later.mode', by simp [pass, later.seen], rfl⟩
          obtain ⟨tokens', ending', gives, cut, ends⟩ := ih further
          exact ⟨tokens', ending', .on action' gives, cut, ends⟩
  | @token s next token tokens ending action gives _ =>
      have taken := s.step_taken
      rw [action] at taken
      cases taken with
      | closed mode => cases mode.symm.trans later.mode
      | trailing mode hrest =>
          have action' := step_eq (.trailing later.mode' (later.rest.trans hrest))
          have behind : Shifted s.gap s'.gap :=
            ⟨later.template, later.delimiters, rfl, rfl, later.rest⟩
          exact later.ends action' behind gives
      | @interrupted form mode opens =>
          have opens' : s'.delimiters.opensAt? s'.rest = some form := by
            rw [later.delimiters, later.rest]
            exact opens
          have action' := step_eq (.interrupted later.mode' opens')
          have behind : Shifted (s.openTag form) (s'.openTag form) :=
            ⟨later.template, later.delimiters, rfl, by simp [openTag, later.delimiters],
              by simp [openTag, later.delimiters, later.rest]⟩
          exact later.ends action' behind gives

end Scan

end Stencil
