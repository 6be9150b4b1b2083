import Mathlib
import Stencil.Proofs.Scan.Reading

/-!
# Progress of a scan

A scan feeds a consumer that has a state of its own and answers every token as it likes. `visits`
lists where the scan comes by on the way. It always stands between two characters of the template,
and it takes at most two steps for each of them before it stands at the end (`visits_bounded`): an
empty marker is passed without moving on, but then not both delimiters are empty, so the next step
moves, or the one before it did.
-/

namespace Stencil.Scan

variable {σ : Type} {receive : Token → StateM σ Bool} {s next : Scan}

/-- The scans that steps are taken from, how the scan ends, and what becomes of the consumer. -/
def visits (receive : Token → StateM σ Bool) : Nat → Scan → σ → List Scan × Ending × σ
  | 0, _, consumer => ([], .exhausted, consumer)
  | steps + 1, s, consumer =>
    match s.step with
    | .finished => ([s], .finished, consumer)
    | .failed error => ([s], .failed error, consumer)
    | .on next =>
      let (later, outcome) := visits receive steps next consumer
      (s :: later, outcome)
    | .token token next =>
      match (receive token).run consumer with
      | (false, consumer) => ([s], .stopped, consumer)
      | (true, consumer) =>
        let (later, outcome) := visits receive steps next consumer
        (s :: later, outcome)

theorem visits_snd (receive : Token → StateM σ Bool) (steps : Nat) (s : Scan) (consumer : σ) :
    (visits receive steps s consumer).2 = (s.feed receive steps).run consumer := by
  induction steps generalizing s consumer with
  | zero => rfl
  | succ steps ih =>
      rw [visits, feed]
      cases action : s.step with
      | finished => rfl
      | failed error => rfl
      | on next => exact ih next consumer
      | token token next =>
          dsimp only
          rw [StateT.run_bind]
          rcases (receive token).run consumer with ⟨more | more, after⟩
          · rfl
          · exact ih next after

theorem visits_succ (receive : Token → StateM σ Bool) (steps : Nat) (s : Scan) (consumer : σ) :
    (visits receive (steps + 1) s consumer).1 = [s] ∨
      ∃ next after, (s.step = .on next ∨ ∃ token, s.step = .token token next) ∧
        (visits receive (steps + 1) s consumer).1 = s :: (visits receive steps next after).1 := by
  rw [visits]
  cases action : s.step with
  | finished => exact .inl rfl
  | failed error => exact .inl rfl
  | on next => exact .inr ⟨next, consumer, .inl rfl, rfl⟩
  | token token next =>
      dsimp only
      rcases (receive token).run consumer with ⟨more | more, after⟩
      · exact .inl rfl
      · exact .inr ⟨next, after, .inr ⟨token, rfl⟩, rfl⟩

theorem one_lt_need (unread : s.rest ≠ []) : 1 < s.need := by
  have := List.length_pos_iff.mpr unread
  unfold need
  split
  · omega
  · omega
  · split <;> omega

theorem countP_visits_lt {steps : Nat} {consumer : σ} (marked : s.delimiters.Marked) :
    (visits receive steps s consumer).1.countP (fun s => s.rest ≠ []) < s.need := by
  induction steps generalizing s consumer with
  | zero => exact s.need_pos
  | succ steps ih =>
      rcases visits_succ receive steps s consumer with last | ⟨next, after, goes, split⟩
      · rw [last]
        by_cases unread : s.rest = []
        · simpa [unread] using s.need_pos
        · simpa [unread] using one_lt_need unread
      · have fewer := need_step (.inl marked) goes
        have later := @ih next after (marked_step marked goes)
        rw [split, List.countP_cons]
        split <;> omega

theorem visits_ne_exhausted {steps : Nat} {consumer : σ} (marked : s.delimiters.Marked)
    (enough : s.need ≤ steps) : (visits receive steps s consumer).2.1 ≠ .exhausted := by
  induction steps generalizing s consumer with
  | zero =>
      have := s.need_pos
      omega
  | succ steps ih =>
      rw [visits]
      cases action : s.step with
      | finished => nofun
      | failed error => nofun
      | on next =>
          have fewer := need_step (.inl marked) (.inl action)
          exact ih (marked_step marked (.inl action)) (by omega)
      | token token next =>
          have fewer := need_step (.inl marked) (.inr ⟨token, action⟩)
          dsimp only
          rcases (receive token).run consumer with ⟨more | more, after⟩
          · nofun
          · exact ih (marked_step marked (.inr ⟨token, action⟩)) (by omega)

def Within (s : Scan) (text : List Char) : Prop :=
  ∃ before, text = before ++ s.rest ∧ s.position = size before

theorem Within.goes {text : List Char} (within : s.Within text)
    (goes : s.step = .on next ∨ ∃ token, s.step = .token token next) : next.Within text := by
  obtain ⟨before, whole, position⟩ := within
  have passes {c : Char} {rest : List Char} (hrest : s.rest = c :: rest) :
      (s.pass c rest).Within text := by
    refine ⟨before ++ [c], by simp [whole, hrest, pass], ?_⟩
    rw [size_append, ← position]
    simp [Scan.position, pass, size]
    omega
  have opens {form : TagForm} (opens : s.delimiters.opensAt? s.rest = some form) :
      (s.openTag form).Within text := by
    obtain ⟨rest, split⟩ := Delimiters.opening_isPrefix opens
    refine ⟨before ++ s.delimiters.opening form, by simp [whole, ← split, openTag], ?_⟩
    rw [size_append, ← position]
    simp [Scan.position, openTag, size_reverse]
  have taken := s.step_taken
  rcases goes with action | ⟨token, action⟩
  · rw [action] at taken
    cases taken with
    | within mode hrest => exact passes hrest
    | opened mode here => exact opens here
    | begun mode hrest => exact passes hrest
    | continued mode hrest => exact passes hrest
  · rw [action] at taken
    cases taken with
    | trailing mode hrest => exact ⟨before, whole, by simpa [Scan.position, size] using position⟩
    | @closed form _ _ d mode closes =>
        obtain ⟨rest, split⟩ := Delimiters.closing_isPrefix closes
        refine ⟨before ++ s.delimiters.closing form, by simp [whole, ← split, closeTag], ?_⟩
        rw [size_append, ← position]
        simp [Scan.position, closeTag, size]
    | interrupted mode here => exact opens here

theorem within_visits {text : List Char} {steps : Nat} {consumer : σ} (within : s.Within text) :
    ∀ visited ∈ (visits receive steps s consumer).1, visited.Within text := by
  induction steps generalizing s consumer with
  | zero => simp [visits]
  | succ steps ih =>
      rcases visits_succ receive steps s consumer with last | ⟨next, after, goes, split⟩
      · simpa [last] using within
      · rw [split, List.forall_mem_cons]
        exact ⟨within, ih (within.goes goes)⟩

theorem Within.isValid {source : String} (within : s.Within source.toList) :
    String.Pos.Raw.IsValid source ⟨s.position⟩ := by
  obtain ⟨before, whole, position⟩ := within
  rw [String.Pos.Raw.isValid_iff_exists_append]
  refine ⟨String.ofList before, String.ofList s.rest, ?_, ?_⟩
  · apply String.toList_injective
    simpa using whole
  · rw [position, size_eq]
    rfl

theorem Within.position_eq {source : String} (within : s.Within source.toList) :
    s.position + size s.rest = source.utf8ByteSize := by
  obtain ⟨before, whole, position⟩ := within
  rw [position, ← size_append, ← whole, size_eq, String.ofList_toList]

theorem Within.unread {source : String} (within : s.Within source.toList)
    (before : s.position < source.utf8ByteSize) : s.rest ≠ [] := by
  intro read
  have := within.position_eq
  simp only [read, size] at this
  omega

theorem length_le_size (cs : List Char) : cs.length ≤ size cs := by
  induction cs with
  | nil => exact le_rfl
  | cons c cs ih =>
      have := c.utf8Size_pos
      simp only [size, List.length_cons]
      omega

theorem visits_bounded (source : String) (d : Delimiters) (template : Option String)
    (marked : d.start ≠ "" ∨ d.stop ≠ "") (receive : Token → StateM σ Bool) (consumer : σ)
    (steps : Nat) :
    let scan := ofTemplate source.toList d template
    let visited := visits receive steps scan consumer
    visited.2 = (scan.feed receive steps).run consumer ∧
      (visited.1.countP fun s => s.position < source.utf8ByteSize) ≤ 2 * source.utf8ByteSize ∧
      (Scan.steps source.toList 0 ≤ steps → visited.2.1 ≠ .exhausted) ∧
      ∀ s ∈ visited.1, s.position ≤ source.utf8ByteSize ∧
        String.Pos.Raw.IsValid source ⟨s.position⟩ := by
  intro scan visited
  have bytes : source.toList.length ≤ source.utf8ByteSize := by
    simpa [size_eq] using length_le_size source.toList
  have need : scan.need = 2 * source.toList.length + 1 := rfl
  have within : ∀ s ∈ visited.1, s.Within source.toList :=
    within_visits ⟨[], rfl, rfl⟩
  refine ⟨visits_snd receive steps scan consumer, ?_, ?_, fun s member => ?_⟩
  · have fewer : visited.1.countP (fun s => s.rest ≠ []) < scan.need := countP_visits_lt marked
    have unread : visited.1.countP (fun s => s.position < source.utf8ByteSize) ≤
        visited.1.countP (fun s => s.rest ≠ []) := by
      apply List.countP_mono_left
      intro s member before
      simpa using (within s member).unread (by simpa using before)
    omega
  · intro enough
    refine visits_ne_exhausted marked ?_
    simp only [Scan.steps] at enough
    omega
  · have := (within s member).position_eq
    exact ⟨by omega, (within s member).isValid⟩

theorem visits_bounded_redefined :
    let d : Delimiters := ⟨"", "|"⟩
    let source := "é|=< >=|<x>y"
    let receive : Token → StateM Nat Bool := fun _ => modifyGet fun n => (n < 2, n + 1)
    let visited := visits receive 40 (.ofTemplate source.toList d none) 0
    (d.start ≠ "" ∨ d.stop ≠ "") ∧ visited.2 = (.stopped, 3) ∧
      (visited.1.countP fun s => s.position < source.utf8ByteSize) ≤ 2 * source.utf8ByteSize ∧
      ∀ s ∈ visited.1, s.position ≤ source.utf8ByteSize ∧
        String.Pos.Raw.IsValid source ⟨s.position⟩ := by
  intro d source receive visited
  have bounded := visits_bounded source d none (.inr (by decide)) receive 0 40
  have stopped : visited.2 = (.stopped, 3) := by
    subst visited receive source d
    cbv
  exact ⟨.inr (by decide), stopped, bounded.2.1, bounded.2.2.2⟩

example : ((visits (fun _ => pure true) 9 (.ofTemplate ['|', '|', '|'] ⟨"", "|"⟩ none) ()).1.countP
    fun s => s.position < 3) = 2 * 3 := by
  rfl

end Stencil.Scan
