import Mathlib
import Stencil.Proofs.Scan.Trace

namespace Stencil

namespace Delimiters

variable {d : Delimiters} {form : TagForm} {text tail : List Char}

theorem prefix_append_iff {marker : List Char} (fits : marker.length ≤ text.length) :
    marker <+: text ++ tail ↔ marker <+: text :=
  ⟨fun longer => List.prefix_of_prefix_length_le longer (List.prefix_append _ _) fits,
    fun short => short.trans (List.prefix_append _ _)⟩

theorem closesAt_append_iff (filled : text ≠ []) (fits : (d.closing form).length ≤ text.length) :
    d.closesAt form (text ++ tail) ↔ d.closesAt form text := by
  cases text with
  | nil => exact absurd rfl filled
  | cons c text =>
      have same : d.closing form <+: c :: text ++ tail ↔ d.closing form <+: c :: text :=
        prefix_append_iff fits
      rw [List.cons_append] at same
      simp only [List.cons_append, closesAt, same]

theorem opensAt?_append (fits : d.start.toList.length < text.length) :
    d.opensAt? (text ++ tail) = d.opensAt? text := by
  have plain : d.opening .plain <+: text ++ tail ↔ d.opening .plain <+: text :=
    prefix_append_iff (by simpa [opening] using fits.le)
  have redefining : d.opening .redefining <+: text ++ tail ↔ d.opening .redefining <+: text :=
    prefix_append_iff (by simpa [opening] using fits)
  have raw : d = braces ∧ d.opening .raw <+: text ++ tail ↔ d = braces ∧ d.opening .raw <+: text := by
    refine and_congr_right ?_
    rintro rfl
    exact prefix_append_iff fits
  cases text with
  | nil => simp at fits
  | cons c text =>
      rw [List.cons_append] at plain redefining raw ⊢
      simp only [opensAt?, opens?, List.isPrefixOf_iff_prefix, plain, redefining, raw]

theorem start_le_opening (opens : d.opensAt? text = some form) :
    d.start.toList.length ≤ (d.opening form).length := by
  cases form with
  | plain => exact le_rfl
  | redefining => simp [opening]
  | raw =>
      rw [eq_braces_of_opensAt? opens]
      decide

end Delimiters

namespace Scan

variable {s next : Scan} {tail : List Char}

def extend (s : Scan) (tail : List Char) : Scan :=
  { s with rest := s.rest ++ tail }

def Step.extend (tail : List Char) : Step → Step
  | .finished => .finished
  | .failed error => .failed error
  | .on next => .on (next.extend tail)
  | .token delivered next => .token delivered (next.extend tail)

/-- What is left of the template holds all that the next step looks at. -/
def Room (s : Scan) : Prop :=
  match s.mode with
  | .tag form => s.rest ≠ [] ∧ (s.delimiters.closing form).length ≤ s.rest.length
  | _ => s.delimiters.start.toList.length < s.rest.length

theorem Room.unread (room : s.Room) : s.rest ≠ [] := by
  unfold Room at room
  rintro empty
  split at room
  · exact room.1 empty
  · simp [empty] at room

theorem Room.tag {form : TagForm} (room : s.Room) (mode : s.mode = .tag form) :
    (s.delimiters.closing form).length ≤ s.rest.length := by
  simp only [Room, mode] at room
  exact room.2

theorem room_iff (mode : ∀ form, s.mode ≠ .tag form) :
    s.Room ↔ s.delimiters.start.toList.length < s.rest.length := by
  unfold Room
  split
  · rename_i form tag
    exact absurd tag (mode form)
  · exact Iff.rfl

theorem openTag_extend {form : TagForm} (opens : s.delimiters.opensAt? s.rest = some form)
    (tail : List Char) : (s.extend tail).openTag form = (s.openTag form).extend tail := by
  have fits := (Delimiters.opening_isPrefix opens).length_le
  simp only [openTag, extend, List.drop_append_of_le_length fits]
  rfl

theorem closeTag_extend {form : TagForm} (d : Delimiters)
    (closes : s.delimiters.closesAt form s.rest) (tail : List Char) :
    (s.extend tail).closeTag form d = (s.closeTag form d).extend tail := by
  have fits := (Delimiters.closing_isPrefix closes).length_le
  simp only [closeTag, extend, List.drop_append_of_le_length fits]
  rfl

theorem step_extend (room : s.Room) (tail : List Char) :
    (s.extend tail).step = s.step.extend tail := by
  have opens_eq (mode : ∀ form, s.mode ≠ .tag form) :
      s.delimiters.opensAt? (s.rest ++ tail) = s.delimiters.opensAt? s.rest :=
    Delimiters.opensAt?_append ((room_iff mode).mp room)
  have closes_iff {form : TagForm} (mode : s.mode = .tag form) :
      s.delimiters.closesAt form (s.rest ++ tail) ↔ s.delimiters.closesAt form s.rest :=
    Delimiters.closesAt_append_iff room.unread (room.tag mode)
  have longer {c : Char} {rest : List Char} (hrest : s.rest = c :: rest) :
      (s.extend tail).rest = c :: (rest ++ tail) := by
    simp [extend, hrest]
  have taken := s.step_taken
  generalize s.step = action at taken
  apply step_eq
  cases taken with
  | finished _ empty => exact absurd empty room.unread
  | trailing _ empty => exact absurd empty room.unread
  | unclosed _ empty => exact absurd empty room.unread
  | invalid mode closes words =>
      exact .invalid (s := s.extend tail) mode ((closes_iff mode).mpr closes) words
  | closed mode closes means =>
      have taken := Taken.closed (s := s.extend tail) mode ((closes_iff mode).mpr closes) means
      rw [closeTag_extend _ closes] at taken
      exact taken
  | @within form c rest mode hrest unclosed =>
      exact .within (s := s.extend tail) mode (longer hrest) (mt (closes_iff mode).mp unclosed)
  | opened mode opens =>
      have same := opens_eq (by simp [mode])
      have taken := Taken.opened (s := s.extend tail) mode (same.trans opens)
      rw [openTag_extend opens] at taken
      exact taken
  | interrupted mode opens =>
      have same := opens_eq (by simp [mode])
      have taken := Taken.interrupted (s := s.extend tail) mode (same.trans opens)
      rw [openTag_extend opens] at taken
      exact taken
  | begun mode hrest clear =>
      have same := opens_eq (by simp [mode])
      exact .begun (s := s.extend tail) mode (longer hrest) (same.trans clear)
  | continued mode hrest clear =>
      have same := opens_eq (by simp [mode])
      exact .continued (s := s.extend tail) mode (longer hrest) (same.trans clear)

/-! ## Room -/

/-- Some tag is closed in what is left of the template. -/
def Decided (steps : Nat) (s : Scan) : Prop :=
  (∃ token ∈ (trace steps s).1, token.kind ≠ .text) ∨
    ∃ location, (trace steps s).2 = .failed ⟨.invalidDelimiters, location⟩

theorem Decided.behind {steps : Nat} (decided : Decided (steps + 1) s)
    (goes : s.step = .on next ∨ ∃ token, s.step = .token token next ∧ token.kind = .text) :
    Decided steps next := by
  unfold Decided at decided ⊢
  rcases goes with action | ⟨text, action, kind⟩
  · simpa only [trace, action] using decided
  · simpa only [trace, action, List.exists_mem_cons_iff, kind, ne_eq, not_true, false_or] using decided

theorem room_closes {form : TagForm} (mode : s.mode = .tag form)
    (closes : s.delimiters.closesAt form s.rest) : s.Room := by
  simp only [Room, mode]
  refine ⟨?_, (Delimiters.closing_isPrefix closes).length_le⟩
  intro empty
  simp [empty, Delimiters.closesAt] at closes

theorem room_opens {form : TagForm} (mode : ∀ form, s.mode ≠ .tag form)
    (opens : s.delimiters.opensAt? s.rest = some form) (room : (s.openTag form).Room) : s.Room := by
  have shorter := Delimiters.start_le_opening opens
  have unread := List.length_pos_of_ne_nil room.unread
  simp only [openTag, List.length_drop] at unread
  rw [room_iff mode]
  omega

theorem Decided.room {steps : Nat} (decided : Decided steps s) : s.Room := by
  -- A closing marker is all that its step looks at, and every step before it leaves it ahead.
  induction steps generalizing s with
  | zero => simp [Decided, trace] at decided
  | succ steps ih =>
      have taken := s.step_taken
      cases action : s.step with
      | finished => simp [Decided, trace, action] at decided
      | failed error =>
          rw [action] at taken
          cases taken with
          | unclosed => simp [Decided, trace, action] at decided
          | invalid mode closes => exact room_closes mode closes
      | on next =>
          have room := ih (decided.behind (.inl action))
          rw [action] at taken
          cases taken with
          | within mode hrest =>
              have fits := room.tag mode
              simp only [pass] at fits
              simp only [Room, mode, hrest, List.length_cons]
              exact ⟨List.cons_ne_nil _ _, by omega⟩
          | opened mode opens => exact room_opens (by simp [mode]) opens room
          | begun mode hrest =>
              have fits := (room_iff (by simp)).mp room
              rw [room_iff (by simp [mode]), hrest]
              exact Nat.lt_succ_of_lt fits
          | continued mode hrest =>
              have fits := (room_iff (by simp [pass, mode])).mp room
              rw [room_iff (by simp [mode]), hrest]
              exact Nat.lt_succ_of_lt fits
      | token token next =>
          rw [action] at taken
          cases taken with
          | trailing mode hrest =>
              have room := ih (decided.behind (.inr ⟨_, action, rfl⟩))
              exact absurd hrest room.unread
          | closed mode closes => exact room_closes mode closes
          | interrupted mode opens =>
              exact room_opens (by simp [mode]) opens (ih (decided.behind (.inr ⟨_, action, rfl⟩)))

/-! ## Tokens -/

theorem trace_extend {steps : Nat} {earlier later : List Token} {token : Token}
    (split : (trace steps s).1 = earlier ++ token :: later) (tag : token.kind ≠ .text)
    (tail : List Char) :
    ∃ later', (trace steps (s.extend tail)).1 = earlier ++ token :: later' := by
  induction steps generalizing s earlier with
  | zero => simp [trace] at split
  | succ steps ih =>
      have decided : Decided (steps + 1) s := .inl ⟨token, by simp [split], tag⟩
      have same := step_extend decided.room tail
      cases action : s.step with
      | finished => simp [trace, action] at split
      | failed error => simp [trace, action] at split
      | on next =>
          simp only [trace, action, same, Step.extend] at split ⊢
          exact ih split
      | token first next =>
          simp only [trace, action, same, Step.extend] at split ⊢
          cases earlier with
          | nil =>
              obtain ⟨rfl, -⟩ := List.cons.inj split
              exact ⟨_, rfl⟩
          | cons first' earlier =>
              obtain ⟨rfl, rest⟩ := List.cons.inj split
              obtain ⟨later', longer⟩ := ih rest
              exact ⟨later', by rw [longer, List.cons_append]⟩

theorem trace_extend_invalid {steps : Nat} {location : Location}
    (invalid : (trace steps s).2 = .failed ⟨.invalidDelimiters, location⟩) (tail : List Char) :
    trace steps (s.extend tail) = trace steps s := by
  induction steps generalizing s with
  | zero => rfl
  | succ steps ih =>
      have decided : Decided (steps + 1) s := .inr ⟨location, invalid⟩
      have same := step_extend decided.room tail
      cases action : s.step with
      | finished => simp [trace, action] at invalid
      | failed error => simp only [trace, action, same, Step.extend]
      | on next =>
          simp only [trace, action, same, Step.extend] at invalid ⊢
          exact ih invalid
      | token first next =>
          simp only [trace, action, same, Step.extend] at invalid ⊢
          rw [ih invalid]

/-! ## Templates -/

variable {text : List Char} {d : Delimiters} {template : Option String}

theorem steps_le (text tail : List Char) : steps text 0 ≤ steps (text ++ tail) 0 := by
  simp only [steps, List.length_append]
  omega

theorem trace_append {earlier later : List Token} {token : Token}
    (split : (trace (steps text 0) (ofTemplate text d template)).1 = earlier ++ token :: later)
    (tag : token.kind ≠ .text) (tail : List Char) :
    ∃ later', (trace (steps (text ++ tail) 0) (ofTemplate (text ++ tail) d template)).1 =
      earlier ++ token :: later' := by
  obtain ⟨later', longer⟩ := trace_extend split tag tail
  change (trace (steps text 0) (ofTemplate (text ++ tail) d template)).1 = _ at longer
  rcases trace_of_le (steps_le text tail) (ofTemplate (text ++ tail) d template) with
    same | ⟨-, further⟩
  · exact ⟨later', by rw [same, longer]⟩
  · obtain ⟨more, further⟩ := further
    exact ⟨later' ++ more, by rw [← further, longer, List.append_assoc, List.cons_append]⟩

theorem trace_append_invalid {location : Location}
    (invalid : (trace (steps text 0) (ofTemplate text d template)).2 =
      .failed ⟨.invalidDelimiters, location⟩) (tail : List Char) :
    trace (steps (text ++ tail) 0) (ofTemplate (text ++ tail) d template) =
      trace (steps text 0) (ofTemplate text d template) := by
  have same := trace_extend_invalid invalid tail
  change trace (steps text 0) (ofTemplate (text ++ tail) d template) = _ at same
  rcases trace_of_le (steps_le text tail) (ofTemplate (text ++ tail) d template) with
    longer | ⟨exhausted, -⟩
  · rw [longer, same]
  · rw [same, invalid] at exhausted
    cases exhausted

end Scan

end Stencil
