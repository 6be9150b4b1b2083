import Mathlib
import Stencil.Proofs.Scan.Trace

namespace Stencil.Scan

structure Consumer (σ : Type) where
  receive : Token → StateM σ Bool
  fail : ParseError → StateM σ Unit

inductive Event where
  | token (token : Token) (more : Bool)
  | fault (error : ParseError)
deriving DecidableEq

def Event.token? : Event → Option Token
  | .token delivered _ => some delivered
  | .fault _ => none

variable {σ : Type}

namespace Consumer

def finish (c : Consumer σ) : Ending → StateM σ Unit
  | .failed error => c.fail error
  | _ => return ()

def scan (c : Consumer σ) (source : String) (d : Delimiters) (template : Option String) :
    StateM σ Ending := do
  let ending ← (ofTemplate source.toList d template).feed c.receive (steps source.toList 0)
  c.finish ending
  return ending

def watched (c : Consumer σ) : Consumer (σ × List Event) where
  receive token := fun (state, told) =>
    let (more, state) := (c.receive token).run state
    (more, state, .token token more :: told)
  fail error := fun (state, told) => ((), ((c.fail error).run state).2, .fault error :: told)

def events (c : Consumer σ) (source : String) (d : Delimiters) (template : Option String)
    (state : σ) : List Event :=
  ((c.watched.scan source d template).run (state, [])).2.2.reverse

def eager : Consumer Unit :=
  ⟨fun _ => return true, fun _ => return ()⟩

end Consumer

/-- Some events are others cut off behind the first token after which no more is wanted. -/
structure Truncates (told whole : List Event) : Prop where
  tokens : told.filterMap Event.token? <+: whole.filterMap Event.token?
  stopped : ∀ before token after, told = before ++ .token token false :: after →
    after = [] ∧ ∀ event ∈ before, ∃ token, event = .token token true
  unstopped : (∀ token, .token token false ∉ told) → told = whole
  fault : ∀ before error after, told = before ++ .fault error :: after →
    after = [] ∧ ∀ event ∈ before, ∃ token, event = .token token true

/-- What is told of some tokens, and how a delivery of them ends that would end otherwise if all of
them were wanted. -/
inductive Tells (ending : Ending) (tokens : List Token) : Ending → List Event → Prop
  | all : Tells ending tokens ending (tokens.map (.token · true))
  | stopped {before after : List Token} {last : Token} : tokens = before ++ last :: after →
      Tells ending tokens .stopped (before.map (.token · true) ++ [.token last false])

theorem Tells.cons {ending ending' : Ending} {tokens : List Token} {told : List Event}
    (tells : Tells ending tokens ending' told) (token : Token) :
    Tells ending (token :: tokens) ending' (.token token true :: told) := by
  cases tells with
  | all => exact .all
  | @stopped before after last split =>
      have longer : token :: tokens = (token :: before) ++ last :: after := by
        rw [split, List.cons_append]
      exact .stopped longer

theorem Tells.eq_all {ending ending' : Ending} {tokens : List Token} {told : List Event}
    (tells : Tells ending tokens ending' told) (goes : ending' ≠ .stopped) :
    ending' = ending ∧ told = tokens.map (.token · true) := by
  cases tells with
  | all => exact ⟨rfl, rfl⟩
  | stopped => exact absurd rfl goes

theorem deliver_watched (c : Consumer σ) (ending : Ending) (tokens : List Token) (state : σ)
    (earlier : List Event) :
    ∃ told, Tells ending tokens ((deliver c.receive ending tokens).run state).1 told ∧
      (deliver c.watched.receive ending tokens).run (state, earlier) =
        (((deliver c.receive ending tokens).run state).1,
          ((deliver c.receive ending tokens).run state).2, told.reverse ++ earlier) := by
  induction tokens generalizing state earlier with
  | nil => exact ⟨[], .all, rfl⟩
  | cons token tokens ih =>
      have watch : (c.watched.receive token).run (state, earlier) =
          (((c.receive token).run state).1, ((c.receive token).run state).2,
            .token token ((c.receive token).run state).1 :: earlier) := rfl
      simp only [deliver, StateT.run_bind, watch]
      rcases (c.receive token).run state with ⟨more | more, after⟩
      · have first : token :: tokens = [] ++ token :: tokens := rfl
        exact ⟨[.token token false], .stopped first, rfl⟩
      · obtain ⟨told, tells, same⟩ := ih after (.token token true :: earlier)
        refine ⟨.token token true :: told, tells.cons token, ?_⟩
        rw [List.reverse_cons, List.append_assoc]
        exact same

@[simp] theorem filterMap_token?_map_token (tokens : List Token) (more : Bool) :
    (tokens.map (Event.token · more)).filterMap Event.token? = tokens := by
  simp [List.filterMap_map, Function.comp_def, Event.token?]

@[simp] theorem filterMap_token?_map_fault (errors : List ParseError) :
    (errors.map Event.fault).filterMap Event.token? = [] := by
  simp [List.filterMap_map, Function.comp_def, Event.token?]

theorem unwanted_last {tokens : List Token} {last before after : List Event} {event : Event}
    (single : last.length ≤ 1) (unwanted : ∀ token, event ≠ .token token true)
    (split : tokens.map (.token · true) ++ last = before ++ event :: after) :
    after = [] ∧ ∀ event ∈ before, ∃ token, event = .token token true := by
  induction tokens generalizing before with
  | nil =>
      rw [List.map_nil, List.nil_append] at split
      have short : before.length + (after.length + 1) ≤ 1 := by
        simpa [split] using single
      have empty : before = [] := List.eq_nil_of_length_eq_zero (by omega)
      exact ⟨List.eq_nil_of_length_eq_zero (by omega), by simp [empty]⟩
  | cons token tokens ih =>
      rw [List.map_cons, List.cons_append] at split
      cases before with
      | nil => exact absurd (List.cons.inj split).1.symm (unwanted token)
      | cons first before =>
          obtain ⟨rfl, rest⟩ := List.cons.inj split
          obtain ⟨last, wanted⟩ := ih rest
          exact ⟨last, List.forall_mem_cons.mpr ⟨⟨token, rfl⟩, wanted⟩⟩

theorem Tells.truncates {ending ending' : Ending} {tokens : List Token} {told : List Event}
    (tells : Tells ending tokens ending' told) :
    Truncates (told ++ ending'.failure?.toList.map .fault)
      (tokens.map (.token · true) ++ ending.failure?.toList.map .fault) := by
  cases tells with
  | all =>
      have single : (ending.failure?.toList.map Event.fault).length ≤ 1 := by
        cases ending.failure? <;> simp
      exact
        { tokens := List.prefix_refl _
          stopped := fun _ _ _ split => unwanted_last single (by simp) split
          unstopped := fun _ => rfl
          fault := fun _ _ _ split => unwanted_last single (by simp) split }
  | @stopped before after last split =>
      have silent : Ending.stopped.failure?.toList.map Event.fault = [] := rfl
      rw [silent, List.append_nil]
      exact
        { tokens := by
            simp only [List.filterMap_append, filterMap_token?_map_token,
              filterMap_token?_map_fault, List.append_nil, split]
            exact ⟨after, by simp [Event.token?]⟩
          stopped := fun _ _ _ split => unwanted_last (by simp) (by simp) split
          unstopped := fun wanted => absurd (by simp) (wanted last)
          fault := fun _ _ _ split => unwanted_last (by simp) (by simp) split }

def traceOf (source : String) (d : Delimiters) (template : Option String) : List Token × Ending :=
  trace (steps source.toList 0) (ofTemplate source.toList d template)

theorem scan_run (c : Consumer σ) {source : String} {d : Delimiters} {template : Option String}
    {state after : σ} {ending : Ending}
    (delivered : (deliver c.receive (traceOf source d template).2 (traceOf source d template).1).run
      state = (ending, after)) :
    (c.scan source d template).run state = (ending, ((c.finish ending).run after).2) := by
  rw [Consumer.scan, feed_eq_deliver, StateT.run_bind]
  rw [traceOf] at delivered
  rw [delivered]
  rfl

theorem finish_watched (c : Consumer σ) (ending : Ending) (state : σ) (told : List Event) :
    (c.watched.finish ending).run (state, told) =
      ((), ((c.finish ending).run state).2,
        (ending.failure?.toList.map Event.fault).reverse ++ told) := by
  cases ending <;> rfl

theorem scan_watched (c : Consumer σ) (source : String) (d : Delimiters)
    (template : Option String) (state : σ) :
    let outcome := (c.scan source d template).run state
    ∃ told, Tells (traceOf source d template).2 (traceOf source d template).1 outcome.1 told ∧
      (c.watched.scan source d template).run (state, []) =
        (outcome.1, outcome.2, (told ++ outcome.1.failure?.toList.map Event.fault).reverse) := by
  obtain ⟨told, tells, same⟩ :=
    deliver_watched c (traceOf source d template).2 (traceOf source d template).1 state []
  rcases delivered : (deliver c.receive (traceOf source d template).2
    (traceOf source d template).1).run state with ⟨ending, after⟩
  rw [delivered] at tells same
  rw [scan_run c delivered, scan_run c.watched same, finish_watched]
  exact ⟨told, tells, by rw [List.append_nil, List.reverse_append]⟩

theorem deliver_eager (ending : Ending) (tokens : List Token) :
    (deliver Consumer.eager.receive ending tokens).run () = (ending, ()) := by
  induction tokens with
  | nil => rfl
  | cons token tokens ih => exact ih

theorem events_eager (source : String) (d : Delimiters) (template : Option String) :
    Consumer.eager.events source d template () =
      (Token.ofTemplate source d template none).1.map (.token · true) ++
        (Token.ofTemplate source d template none).2.toList.map .fault := by
  obtain ⟨told, tells, watched⟩ := scan_watched Consumer.eager source d template ()
  rw [scan_run Consumer.eager (deliver_eager _ _)] at tells watched
  obtain ⟨-, rfl⟩ := tells.eq_all (trace_ne_stopped _ _)
  rw [Consumer.events, watched, ofTemplate_eq, List.reverse_reverse]
  rfl

theorem events_truncated (source : String) (d : Delimiters) (template : Option String)
    (marked : d.start ≠ "" ∨ d.stop ≠ "") (c : Consumer σ) (state : σ) :
    let (tokens, fault) := Token.ofTemplate source d template none
    let whole := Consumer.eager.events source d template ()
    let outcome := (c.scan source d template).run state
    let watched := (c.watched.scan source d template).run (state, [])
    whole = tokens.map (.token · true) ++ fault.toList.map .fault ∧
      outcome.1 ≠ .exhausted ∧ (watched.1, watched.2.1) = outcome ∧
      Truncates (c.events source d template state) whole := by
  have whole := events_eager source d template
  obtain ⟨told, tells, watched⟩ := scan_watched c source d template state
  refine ⟨whole, ?_, ?_, ?_⟩
  · intro exhausted
    obtain ⟨same, -⟩ := tells.eq_all (by simp [exhausted])
    exact trace_ofTemplate_ne_exhausted source.toList marked template (same.symm.trans exhausted)
  · rw [watched]
    rfl
  · rw [whole, Consumer.events, watched, List.reverse_reverse, ofTemplate_eq]
    exact tells.truncates

theorem events_truncated_unclosed :
    let d : Delimiters := ⟨"", "|"⟩
    let source := "b|=\x7b\x7b \x7d\x7d=|c\x7b\x7bd"
    let c : Consumer Nat := ⟨fun _ => modifyGet fun n => (n < 1, n + 1), fun _ => set 100⟩
    (d.start ≠ "" ∨ d.stop ≠ "") ∧
      Truncates (c.events source d none 0) (Consumer.eager.events source d none ()) ∧
      (c.events source d none 0).length = 2 ∧
      (Consumer.eager.events source d none ()).length = 4 ∧
      (Consumer.eager.events source d none ()).getLast? =
        some (.fault ⟨.unclosedTag, 1, none⟩) := by
  intro d source c
  have marked : d.start ≠ "" ∨ d.stop ≠ "" := .inr (by decide)
  have truncated := events_truncated source d none marked c 0
  refine ⟨marked, truncated.2.2.2, ?_⟩
  rw [events_eager]
  subst d source c
  exact ⟨by cbv, by cbv, by cbv⟩

end Stencil.Scan
