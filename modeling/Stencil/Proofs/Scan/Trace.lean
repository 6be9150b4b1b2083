import Stencil.Proofs.Scan.Step

/-!
# Traces

What a scan delivers does not depend on who receives it. `trace` lists the tokens of a scan without
a receiver, `deliver` hands a list of tokens over, and feeding a receiver is delivering the trace
(`feed_eq_deliver`). A trace that ends by itself is the same for every number of steps that lets it
end (`trace_agree`), and `2 * n + 2` steps let every scan of `n` characters end, unless both
delimiters are empty (`trace_ne_exhausted`), which takes a variable without a name to show
(`trace_exhausted`).
-/

namespace Stencil.Scan

def trace : Nat → Scan → List Token × Ending
  | 0, _ => ([], .exhausted)
  | steps + 1, s =>
    match s.step with
    | .finished => ([], .finished)
    | .failed error => ([], .failed error)
    | .on next => trace steps next
    | .token token next => (token :: (trace steps next).1, (trace steps next).2)

def deliver {m : Type → Type} [Monad m] (receive : Token → m Bool) (ending : Ending) :
    List Token → m Ending
  | [] => pure ending
  | token :: tokens => do
    if ← receive token then deliver receive ending tokens else pure .stopped

theorem feed_eq_deliver {m : Type → Type} [Monad m] (receive : Token → m Bool) (steps : Nat)
    (s : Scan) : s.feed receive steps = deliver receive (trace steps s).2 (trace steps s).1 := by
  induction steps generalizing s with
  | zero => rfl
  | succ steps ih =>
      cases action : s.step with
      | finished => simp [feed, trace, action, deliver]
      | failed error => simp [feed, trace, action, deliver]
      | on next => simp only [feed, trace, action, ih]
      | token token next => simp only [feed, trace, action, deliver, ih]

def Ending.failure? : Ending → Option ParseError
  | .failed error => some error
  | _ => none

theorem deliver_cons {ending : Ending} {tokens earlier : List Token} :
    (deliver (fun token => modifyGet fun tokens => (true, token :: tokens)) ending tokens :
      StateM (List Token) Ending).run earlier = (ending, tokens.reverse ++ earlier) := by
  induction tokens generalizing earlier with
  | nil => rfl
  | cons token tokens ih =>
      have rest := @ih (token :: earlier)
      rw [List.reverse_cons, List.append_assoc]
      exact rest

theorem ofTemplate_eq (source : String) (d : Delimiters) (template : Option String) :
    Token.ofTemplate source d template none =
      ((trace (steps source.toList 0) (.ofTemplate source.toList d template)).1,
        (trace (steps source.toList 0) (.ofTemplate source.toList d template)).2.failure?) := by
  have kept := @deliver_cons
    (trace (steps source.toList 0) (.ofTemplate source.toList d template)).2
    (trace (steps source.toList 0) (.ofTemplate source.toList d template)).1 []
  simp only [Token.ofTemplate, Option.getD_none, feed_eq_deliver]
  rw [kept]
  simp only [List.append_nil, List.reverse_reverse]
  rfl

theorem trace_ne_stopped (steps : Nat) (s : Scan) : (trace steps s).2 ≠ .stopped := by
  induction steps generalizing s with
  | zero => nofun
  | succ steps ih => cases action : s.step <;> simp [trace, action, ih]

/-! ## Enough steps -/

theorem trace_agree {n m : Nat} {s : Scan} (ends : (trace n s).2 ≠ .exhausted)
    (ends' : (trace m s).2 ≠ .exhausted) : trace n s = trace m s := by
  induction n generalizing m s with
  | zero => exact absurd rfl ends
  | succ n ih =>
      cases m with
      | zero => exact absurd rfl ends'
      | succ m =>
          cases action : s.step with
          | finished => simp [trace, action]
          | failed error => simp [trace, action]
          | on next =>
              simp only [trace, action] at ends ends' ⊢
              exact ih ends ends'
          | token token next =>
              simp only [trace, action] at ends ends' ⊢
              rw [ih ends ends']

theorem trace_of_le {n m : Nat} (le : n ≤ m) (s : Scan) :
    trace m s = trace n s ∨ (trace n s).2 = .exhausted ∧ (trace n s).1 <+: (trace m s).1 := by
  induction n generalizing m s with
  | zero => exact .inr ⟨rfl, List.nil_prefix⟩
  | succ n ih =>
      obtain ⟨m, rfl⟩ : ∃ k, m = k + 1 := ⟨m - 1, by omega⟩
      cases action : s.step with
      | finished => simp [trace, action]
      | failed error => simp [trace, action]
      | on next =>
          simp only [trace, action]
          exact ih (by omega) next
      | token token next =>
          simp only [trace, action]
          rcases ih (by omega : n ≤ m) next with same | ⟨exhausted, shorter⟩
          · exact .inl (by rw [same])
          · exact .inr ⟨exhausted, List.cons_prefix_cons.mpr ⟨rfl, shorter⟩⟩

/-- How many steps a scan can still take. A tag that an empty marker has opened is one step nearer to
the end than the gap before it, and one that an empty marker closes is one step further away. -/
def need (s : Scan) : Nat :=
  match s.mode with
  | .gap => 2 * s.rest.length + 1
  | .text => 2 * s.rest.length + 2
  | .tag _ => if s.delimiters.start = "" then max (2 * s.rest.length) 1 else 2 * s.rest.length + 2

theorem need_pos (s : Scan) : 0 < s.need := by
  unfold need
  split
  · omega
  · omega
  · split <;> omega

theorem need_pass {s : Scan} {c : Char} {rest : List Char} (hrest : s.rest = c :: rest)
    (inside : s.mode ≠ .gap) : (s.pass c rest).need < s.need := by
  cases mode : s.mode with
  | gap => exact absurd mode inside
  | text =>
      simp only [need, pass, mode, hrest, List.length_cons]
      omega
  | tag form =>
      simp only [need, pass, mode, hrest, List.length_cons]
      split <;> omega

theorem need_openTag {s : Scan} {form : TagForm}
    (opens : s.delimiters.opensAt? s.rest = some form) :
    (s.openTag form).need < 2 * s.rest.length + 1 := by
  have fits := (Delimiters.opening_isPrefix opens).length_le
  have positive := List.length_pos_of_ne_nil (Delimiters.opensAt?_ne_nil opens)
  simp only [need, openTag, List.length_drop]
  split
  · omega
  · rename_i filled
    have marked := Delimiters.opening_pos form filled
    omega

theorem need_closeTag {s : Scan} {form : TagForm} (d : Delimiters)
    (marked : s.delimiters.Marked ∨ form ≠ .plain) (mode : s.mode = .tag form)
    (closes : s.delimiters.closesAt form s.rest) : (s.closeTag form d).need < s.need := by
  have fits := (Delimiters.closing_isPrefix closes).length_le
  simp only [need, closeTag, mode, List.length_drop]
  split
  · rename_i empty
    have filled : 0 < (s.delimiters.closing form).length := by
      rcases marked with marked | tag
      · exact Delimiters.closing_pos form (marked.resolve_left (not_not_intro empty))
      · cases form <;> simp [Delimiters.closing] at tag ⊢
    omega
  · omega

theorem need_step {s next : Scan} (marked : s.delimiters.Marked ∨ s.mode ≠ .tag .plain)
    (goes : s.step = .on next ∨ ∃ token, s.step = .token token next) : next.need < s.need := by
  -- An empty marker moves nothing. The need falls all the same, as the other marker is not empty.
  have taken := s.step_taken
  rcases goes with action | ⟨token, action⟩
  · rw [action] at taken
    cases taken with
    | within mode hrest => exact need_pass hrest (by simp [mode])
    | opened mode opens =>
        have := need_openTag opens
        simpa only [need, mode] using this
    | begun mode hrest =>
        simp only [need, pass, mode, hrest, List.length_cons]
        omega
    | continued mode hrest => exact need_pass hrest (by simp [mode])
  · rw [action] at taken
    cases taken with
    | trailing mode =>
        simp only [need, mode]
        omega
    | @closed form kind content d mode closes =>
        refine need_closeTag d (marked.imp_right fun other plain => other ?_) mode closes
        rw [mode, plain]
    | interrupted mode opens =>
        have := need_openTag opens
        have same : s.need = 2 * s.rest.length + 2 := by simp only [need, mode]
        omega

theorem marked_step {s next : Scan} (marked : s.delimiters.Marked)
    (goes : s.step = .on next ∨ ∃ token, s.step = .token token next) : next.delimiters.Marked := by
  have taken := s.step_taken
  rcases goes with action | ⟨token, action⟩
  · rw [action] at taken
    cases taken <;> exact marked
  · rw [action] at taken
    cases taken with
    | trailing => exact marked
    | closed mode closes means => exact means.marked marked
    | interrupted => exact marked

theorem trace_ne_exhausted {steps : Nat} {s : Scan} (marked : s.delimiters.Marked)
    (enough : s.need ≤ steps) : (trace steps s).2 ≠ .exhausted := by
  induction steps generalizing s with
  | zero =>
      have := s.need_pos
      omega
  | succ steps ih =>
      cases action : s.step with
      | finished => simp [trace, action]
      | failed error => simp [trace, action]
      | on next =>
          simp only [trace, action]
          have := need_step (.inl marked) (.inl action)
          exact ih (marked_step marked (.inl action)) (by omega)
      | token token next =>
          simp only [trace, action]
          have := need_step (.inl marked) (.inr ⟨token, action⟩)
          exact ih (marked_step marked (.inr ⟨token, action⟩)) (by omega)

theorem trace_ofTemplate_ne_exhausted (source : List Char) {d : Delimiters} (marked : d.Marked)
    (template : Option String) :
    (trace (steps source 0) (.ofTemplate source d template)).2 ≠ .exhausted := by
  refine trace_ne_exhausted marked ?_
  simp only [need, ofTemplate, steps]
  omega

/-! ## Empty markers -/

theorem not_marked {d : Delimiters} (unmarked : ¬ d.Marked) : d = ⟨"", ""⟩ := by
  obtain ⟨start, stop⟩ := d
  simp only [Delimiters.Marked, not_or, not_not] at unmarked
  rw [unmarked.1, unmarked.2]

/-- A plain tag that an empty marker opened is closed at once, by an empty marker. -/
def Hollow (s : Scan) : Prop :=
  s.mode = .tag .plain → ¬ s.delimiters.Marked →
    s.interior .plain = [] ∧ s.delimiters.closesAt .plain s.rest

theorem hollow_openTag {s : Scan} {form : TagForm}
    (opens : s.delimiters.opensAt? s.rest = some form) : (s.openTag form).Hollow := by
  intro mode unmarked
  cases mode
  have empty : s.delimiters = ⟨"", ""⟩ := not_marked unmarked
  refine ⟨by simp [interior, openTag], ?_⟩
  cases hrest : s.rest with
  | nil => simp [hrest, Delimiters.opensAt?] at opens
  | cons c rest =>
      have visible : c ≠ '\n' := by
        rintro rfl
        simp [hrest, Delimiters.opensAt?] at opens
      simp [openTag, empty, hrest, Delimiters.opening, Delimiters.closing, Delimiters.closesAt, visible]

theorem hollow_step {s next : Scan} (hollow : s.Hollow)
    (goes : s.step = .on next ∨ ∃ token, s.step = .token token next) : next.Hollow := by
  have taken := s.step_taken
  rcases goes with action | ⟨token, action⟩
  · rw [action] at taken
    cases taken with
    | within mode hrest open_ =>
        intro plain unmarked
        have plain : s.mode = .tag .plain := plain
        rw [mode] at plain
        cases plain
        exact absurd (hollow mode unmarked).2 open_
    | opened mode opens => exact hollow_openTag opens
    | begun => nofun
    | continued mode =>
        intro plain
        have plain : s.mode = .tag .plain := plain
        rw [mode] at plain
        cases plain
  · rw [action] at taken
    cases taken with
    | trailing => nofun
    | closed => nofun
    | interrupted mode opens => exact hollow_openTag opens

theorem trace_exhausted {steps : Nat} {s : Scan} (hollow : s.Hollow) (enough : s.need ≤ steps)
    (exhausted : (trace steps s).2 = .exhausted) :
    ∃ token ∈ (trace steps s).1, token.kind = .variableTag ∧ token.content = "" := by
  induction steps generalizing s with
  | zero =>
      have := s.need_pos
      omega
  | succ steps ih =>
      by_cases marked : s.delimiters.Marked ∨ s.mode ≠ .tag .plain
      · cases action : s.step with
        | finished => simp [trace, action] at exhausted
        | failed error => simp [trace, action] at exhausted
        | on next =>
            simp only [trace, action] at exhausted ⊢
            have := need_step marked (.inl action)
            exact ih (hollow_step hollow (.inl action)) (by omega) exhausted
        | token token next =>
            simp only [trace, action] at exhausted ⊢
            have := need_step marked (.inr ⟨token, action⟩)
            obtain ⟨other, member, empty⟩ :=
              ih (hollow_step hollow (.inr ⟨token, action⟩)) (by omega) exhausted
            exact ⟨other, List.mem_cons_of_mem _ member, empty⟩
      · obtain ⟨unmarked, mode⟩ := not_or.mp marked
        have mode : s.mode = .tag .plain := not_not.mp mode
        obtain ⟨interior, closes⟩ := hollow mode unmarked
        have action := step_eq (.closed mode closes (.plain rfl))
        rw [interior] at action
        simp only [trace, action]
        exact ⟨_, List.mem_cons_self, rfl, rfl⟩

theorem trace_ofTemplate_exhausted {source : List Char} {d : Delimiters} {template : Option String}
    (exhausted : (trace (steps source 0) (.ofTemplate source d template)).2 = .exhausted) :
    ∃ token ∈ (trace (steps source 0) (.ofTemplate source d template)).1,
      token.kind = .variableTag ∧ token.content = "" := by
  refine trace_exhausted nofun ?_ exhausted
  simp only [need, ofTemplate, steps]
  omega

end Stencil.Scan
