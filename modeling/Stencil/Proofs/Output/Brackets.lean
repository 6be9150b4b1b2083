import Mathlib
import Stencil.Proofs.Output.Realm
import Stencil.Stock

/-!
# Brackets of hooks

The calls that a rendering makes, whether it succeeds or fails, are a sequence of brackets: the calls
that open a tag, the brackets of what renders within it, and the calls that close it
(`Store.run_logged`). So hooks come in pairs: what has both hooks is called as often after a tag
as before one (`Bracketed.balanced`). Only a run that is too deep to end leaves tags open.
-/

namespace Stencil

variable {κ : Type}

/-- A call of a hook, with the value of the stack whose hook it is. -/
abbrev Note (κ : Type) := Value κ × Call κ

def Call.isWill : Call κ → Bool
  | .will .. => true
  | .did .. => false

def countWills (p : Value κ → Bool) (notes : List (Note κ)) : Nat :=
  notes.countP fun note => p note.1 && note.2.isWill

def countDids (p : Value κ → Bool) (notes : List (Note κ)) : Nat :=
  notes.countP fun note => p note.1 && !note.2.isWill

@[simp] theorem countWills_append (p : Value κ → Bool) (first second : List (Note κ)) :
    countWills p (first ++ second) = countWills p first + countWills p second :=
  List.countP_append

@[simp] theorem countDids_append (p : Value κ → Bool) (first second : List (Note κ)) :
    countDids p (first ++ second) = countDids p first + countDids p second :=
  List.countP_append

/-! ## The notes of one tag -/

def didNotes (tag : Element) (value : Value κ) (output : Option String) (scopes : List (Value κ)) :
    List (Note κ) :=
  scopes.filterMap fun scope => scope.did?.map fun hook => (scope, .did hook tag value output)

theorem map_didNotes (tag : Element) (value : Value κ) (output : Option String)
    (scopes : List (Value κ)) :
    (didNotes tag value output scopes).map Prod.snd =
      didCalls tag value output (scopes.filterMap Value.did?) := by
  induction scopes with
  | nil => rfl
  | cons scope scopes ih =>
      unfold didNotes at ih ⊢
      rw [List.filterMap_cons, List.filterMap_cons]
      cases scope.did? with
      | none => exact ih
      | some hook => exact congrArg (_ :: ·) ih

theorem countDids_didNotes {p : Value κ → Bool} (hooked : ∀ scope, p scope → scope.did?.isSome)
    (tag : Element) (value : Value κ) (output : Option String) (scopes : List (Value κ)) :
    countDids p (didNotes tag value output scopes) = scopes.countP p := by
  induction scopes with
  | nil => rfl
  | cons scope scopes ih =>
      unfold didNotes at ih ⊢
      rw [List.filterMap_cons, List.countP_cons]
      cases found : scope.did? with
      | none =>
          have other : ¬ p scope := fun member => by simpa [found] using hooked scope member
          simpa [other] using ih
      | some hook => simpa [countDids, List.countP_cons, Call.isWill] using ih

theorem countWills_didNotes (p : Value κ → Bool) (tag : Element) (value : Value κ)
    (output : Option String) (scopes : List (Value κ)) :
    countWills p (didNotes tag value output scopes) = 0 := by
  induction scopes with
  | nil => rfl
  | cons scope scopes ih =>
      unfold didNotes at ih ⊢
      rw [List.filterMap_cons]
      cases scope.did? with
      | none => exact ih
      | some hook => simpa [countWills, List.countP_cons, Call.isWill] using ih

variable [Host κ]

def willNotes (tag : Element) : List (Value κ) → Value κ → List (Note κ)
  | [], _ => []
  | scope :: scopes, value =>
    match scope.will? with
    | none => willNotes tag scopes value
    | some hook => (scope, .will hook tag value) :: willNotes tag scopes (Host.will hook tag value)

theorem map_willNotes (tag : Element) (scopes : List (Value κ)) (value : Value κ) :
    (willNotes tag scopes value).map Prod.snd =
      willCalls tag (scopes.filterMap Value.will?) value := by
  induction scopes generalizing value with
  | nil => rfl
  | cons scope scopes ih =>
      rw [willNotes, List.filterMap_cons]
      cases scope.will? with
      | none => exact ih value
      | some hook => exact congrArg (_ :: ·) (ih _)

theorem countWills_willNotes {p : Value κ → Bool} (hooked : ∀ scope, p scope → scope.will?.isSome)
    (tag : Element) (scopes : List (Value κ)) (value : Value κ) :
    countWills p (willNotes tag scopes value) = scopes.countP p := by
  induction scopes generalizing value with
  | nil => rfl
  | cons scope scopes ih =>
      rw [willNotes, List.countP_cons]
      cases found : scope.will? with
      | none =>
          have other : ¬ p scope := fun member => by simpa [found] using hooked scope member
          simpa [other] using ih value
      | some hook => simpa [countWills, List.countP_cons, Call.isWill] using ih _

theorem countDids_willNotes (p : Value κ → Bool) (tag : Element) (scopes : List (Value κ))
    (value : Value κ) : countDids p (willNotes tag scopes value) = 0 := by
  induction scopes generalizing value with
  | nil => rfl
  | cons scope scopes ih =>
      rw [willNotes]
      cases scope.will? with
      | none => exact ih value
      | some hook => simpa [countDids, List.countP_cons, Call.isWill] using ih _

namespace TagJob

def notesBefore (job : TagJob κ) (value : Value κ) : List (Note κ) :=
  willNotes job.info.element job.info.context.values value

def notesAfter (job : TagJob κ) (value : Value κ) (output : Option String) : List (Note κ) :=
  didNotes job.info.element (job.final value) output job.info.context.values.reverse

theorem map_notesBefore (job : TagJob κ) (value : Value κ) :
    (job.notesBefore value).map Prod.snd = job.opening value :=
  map_willNotes _ _ _

theorem map_notesAfter (job : TagJob κ) (value : Value κ) (output : Option String) :
    (job.notesAfter value output).map Prod.snd = job.closing value output := by
  rw [notesAfter, map_didNotes, List.filterMap_reverse]
  rfl

end TagJob

/-! ## Brackets -/

/-- The notes of renderings: the brackets of tags, one after the other. -/
inductive Bracketed (store : Store) : List (Note κ) → Prop
  | nil : Bracketed store []
  | tag {earlier within : List (Note κ)} {depth : Nat} {job : TagJob κ} {host : ContentType}
      {value : Value κ} : Bracketed store earlier →
      job.expression.evaluate job.info.context = .ok value →
      (job.run (store.run depth) host).result ≠ .error .exhausted →
      Bracketed store within →
      within.map Prod.snd = (job.inner (store.run depth) value).calls →
      Bracketed store (earlier ++ (job.notesBefore value ++ within ++
        job.notesAfter value (job.run (store.run depth) host).result.toOption))

namespace Bracketed

variable {store : Store} {first second notes : List (Note κ)}

theorem append (one : Bracketed store first) (two : Bracketed store second) :
    Bracketed store (first ++ second) := by
  -- Each bracket stands behind those before it, so the second sequence is taken apart from its end.
  induction two with
  | nil => simpa using one
  | tag _ evaluates finishes within calls ih =>
      rw [← List.append_assoc]
      exact .tag ih evaluates finishes within calls

theorem balanced (bracketed : Bracketed store notes) {p : Value κ → Bool}
    (hooked : ∀ scope, p scope → scope.will?.isSome ∧ scope.did?.isSome) :
    countDids p notes = countWills p notes := by
  induction bracketed with
  | nil => rfl
  | @tag _ _ _ job _ value _ _ _ _ _ ih within_ih =>
      -- Both ends of a bracket are of one context, in which each such value stands as often.
      have opens : countWills p (job.notesBefore value) = job.info.context.values.countP p :=
        countWills_willNotes (fun scope member => (hooked scope member).1) _ _ _
      have opens' : countDids p (job.notesBefore value) = 0 := countDids_willNotes p _ _ _
      have closes (output : Option String) :
          countDids p (job.notesAfter value output) = job.info.context.values.countP p := by
        rw [TagJob.notesAfter, countDids_didNotes fun scope member => (hooked scope member).2,
          List.countP_reverse]
      have closes' (output : Option String) : countWills p (job.notesAfter value output) = 0 :=
        countWills_didNotes p _ _ _ _
      simp only [countDids_append, countWills_append, opens, opens', closes, closes']
      omega

end Bracketed

/-! ## Runs that keep a log of brackets -/

namespace Run

def Logged (store : Store) {α : Type} (run : Run κ α) : Prop :=
  run.result ≠ .error .exhausted →
    ∃ notes, Bracketed store notes ∧ notes.map Prod.snd = run.calls

variable {store : Store} {α β : Type} {run : Run κ α} {next : α → Run κ β}

theorem logged_of_calls (silent : run.calls = []) : run.Logged store :=
  fun _ => ⟨[], .nil, silent.symm⟩

theorem logged_ofExcept (result : Except RenderError α) : (ofExcept result : Run κ α).Logged store :=
  logged_of_calls (by cases result <;> rfl)

theorem Logged.bind (first : run.Logged store)
    (rest : ∀ a, run.result = .ok a → (next a).Logged store) : (run >>= next).Logged store := by
  obtain ⟨result, calls⟩ := run
  rcases result with (error | _) | a
  · exact fun _ => first nofun
  · exact fun finishes => absurd rfl finishes
  · intro finishes
    obtain ⟨before, one, same⟩ := first nofun
    obtain ⟨after, two, same'⟩ := rest a rfl finishes
    refine ⟨before ++ after, one.append two, ?_⟩
    rw [List.map_append, same, same']
    rfl

theorem Logged.attempt (logged : run.Logged store) : run.attempt.Logged store := by
  obtain ⟨result, calls⟩ := run
  rcases result with (error | _) | a
  · exact fun _ => logged nofun
  · exact fun finishes => absurd rfl finishes
  · exact fun _ => logged nofun

end Run

theorem TagJob.run_logged {store : Store} {depth : Nat} {job : TagJob κ} {value : Value κ}
    (evaluates : job.expression.evaluate job.info.context = .ok value)
    (inner : (job.inner (store.run depth) value).Logged store) (host : ContentType) :
    (job.run (store.run depth) host).Logged store := by
  intro finishes
  obtain ⟨ends, calls⟩ := run_calls evaluates finishes
  obtain ⟨notes, within, same⟩ := inner ends
  refine ⟨_, .tag .nil evaluates finishes within same, ?_⟩
  rw [calls, List.nil_append, List.map_append, List.map_append, map_notesBefore,
    map_notesAfter, same]

/-! ## Rendering -/

def Judgment.logged (store : Store) : Judgment κ Unit where
  Holds runs := (runs ()).Logged store
  done _ := Run.logged_of_calls rfl
  andThen first rest := first.bind fun a ok => rest a ⟨(), ok⟩

namespace Realm

variable {store : Store}

def all (κ : Type) [Host κ] (store : Store) : Realm κ Unit :=
  have hereditary : store.Hereditary fun _ => True := fun _ _ _ _ => trivial
  have closed : Value.Closed (fun _ : Value κ => True) fun _ => True :=
    { plain := fun _ => trivial
      whole := fun _ => trivial
      list := fun _ => trivial
      item := fun _ _ => trivial
      escaped := fun _ => trivial
      items := fun _ _ _ _ => trivial
      entries := fun _ _ _ _ => trivial
      lookup := fun _ _ => trivial
      filter := fun _ _ _ _ => trivial }
  .single hereditary closed fun _ _ _ _ => trivial

omit [Host κ] in
theorem all_among (context : Context κ) :
    context.Among store (fun _ => True) (fun _ => True) :=
  ⟨⟨fun _ _ => trivial, fun _ _ => trivial⟩, fun _ _ => ⟨trivial, trivial⟩⟩

theorem all_permits (action : Action κ) :
    ((all κ store).discipline (.logged store) (fun _ => False) fun _ => True).Permits action := by
  induction action with
  | finish result => exact .finish (Run.logged_ofExcept result)
  | value value info next ih =>
      exact .value ⟨value, rfl, trivial⟩ ⟨info, rfl, all_among _, fun _ _ => trivial⟩ ih
  | document document context next ih =>
      exact .document ⟨document, context, rfl, rfl, all_among _, trivial⟩ ih

theorem all_spans :
    ((all κ store).discipline (.logged store) (fun _ => False) fun _ => True).Spans
      fun _ => True where
  renders _ := ⟨_, rfl, trivial⟩
  pushed := id
  items _ _ _ := trivial
  inner _ _ _ := trivial
  parts _ _ _ _ := trivial
  template := by
    rintro _ _ _ root - - _ ⟨info, rfl, among, -⟩
    exact ⟨store.get root, info.context, rfl, rfl, among, trivial⟩
  host {_ _ _ name} _ _ := by
    refine ⟨fun _ => trivial, Run.Logged.attempt, ?_⟩
    rintro _ ⟨info, rfl, -⟩
    exact ⟨Host.render name store info, fun _ => rfl, all_permits _⟩
  odd _ := id
  mismatch := Run.logged_of_calls rfl

theorem all_allows :
    (all κ store).Allows (.logged store) (fun _ => False) fun _ => True where
  toGood := .of_forall fun _ => trivial
  texts _ _ _ := trivial
  raws _ _ _ _ _ _ := trivial
  fails _ _ _ _ := Run.logged_of_calls rfl
  opens := all_spans.opens
  exhausted := Run.logged_of_calls rfl

theorem all_tags (depth : Nat) :
    ((all κ store).discipline (.logged store) (fun _ => False) fun _ => True).Tags
      fun _ => store.run depth :=
  fun host _ evaluates inner => TagJob.run_logged (evaluates ()) inner host

end Realm

namespace Store

theorem run_logged (store : Store) (depth : Nat) (job : Job κ) :
    (store.run depth job).Logged store := by
  have walks := (Realm.all_allows : (Realm.all κ store).Allows _ _ _).walks
  have keeps := Discipline.keeps_run walks Realm.all_tags depth
  cases job with
  | append host output document context =>
      exact (keeps.append ⟨document, context, rfl, rfl, Realm.all_among _, trivial⟩ trivial).holds
  | value value info =>
      exact (keeps.value ⟨value, rfl, trivial⟩
        ⟨info, rfl, Realm.all_among _, fun _ _ => trivial⟩).holds

/-- Every tag whose expression has a value calls the hooks of its context, those due before it
renders and those due afterwards, around the calls of what renders within it, also if that fails; the
latter are given what the tag adds to the output. Any other tag fails without calls. So every job
that ends calls hooks in brackets, and a value of the stack with both hooks is called as often
afterwards as before. -/
theorem hooks_bracket (store : Store) (depth : Nat) :
    (∀ (host : ContentType) (context : Context κ) (output : String) (node : Node) (job : TagJob κ),
      node.tagJob? context = some job →
      let run : Runner κ := store.run depth
      let whole := run.node store host context output node
      (∀ error, job.expression.evaluate context = .error error →
        whole.calls = [] ∧ ∃ reason, whole.result = .error (.error reason)) ∧
      ∀ value, job.expression.evaluate context = .ok value → whole.result ≠ .error .exhausted →
        let tag := job.info.element
        let final := replaced tag context.wills value
        ∃ written : Option String,
          whole.calls = willCalls tag context.wills value ++
            (run.tagged final job.inverted job.info).calls ++
              didCalls tag final written context.dids ∧
          match written with
          | some string => whole.result = .ok (output ++ string)
          | none => ∃ error, whole.result = .error (.error error)) ∧
    ∀ job : Job κ, (store.run depth job).result ≠ .error .exhausted →
      ∃ notes, Bracketed store notes ∧ notes.map Prod.snd = (store.run depth job).calls ∧
        ∀ p : Value κ → Bool, (∀ scope, p scope → scope.will?.isSome ∧ scope.did?.isSome) →
          countDids p notes = countWills p notes := by
  refine ⟨?_, ?_⟩
  · intro host context output node job tag run whole
    have whole_eq : whole = (output ++ ·) <$> job.run run host := TagJob.node_eq tag
    obtain rfl := Node.context_of_tagJob? tag
    refine ⟨fun error fails => ?_, fun value evaluates finishes => ?_⟩
    · rw [whole_eq, TagJob.run_of_error fails]
      exact ⟨rfl, _, rfl⟩
    · rw [whole_eq] at finishes ⊢
      have ends : (job.run run host).result ≠ .error .exhausted := by
        intro exhausted
        simp [exhausted, Except.map] at finishes
      refine ⟨(job.run run host).result.toOption, ?_, ?_⟩
      · rw [Run.calls_map]
        exact (TagJob.run_calls evaluates ends).2
      · rw [Run.result_map]
        rcases result : (job.run run host).result with (error | _) | string
        · exact ⟨error, rfl⟩
        · exact absurd result ends
        · rfl
  · intro job finishes
    obtain ⟨notes, bracketed, calls⟩ := run_logged store depth job finishes
    exact ⟨notes, bracketed, calls, fun p hooked => bracketed.balanced hooked⟩

theorem hooks_bracket_failing :
    let failing : Value Stock := .rendering (.host (.error "no"))
    let context : Context Stock := Context.empty.push (.custom 1 (some (.ofPairs [("x", failing)]))
      { will := some (.will "w" true none), did := some (.did "d") })
    let tag : Tag := ⟨"", ⟨1, none⟩, .braces⟩
    let call : Expression := .call (.name "x") []
    let whole (expression : Expression) : Run Stock String :=
      Runner.node (Store.empty.run 1) Store.empty .html context "" (.variableTag tag expression true)
    let document : Document := ⟨.html, [.variableTag tag (.name "x") true]⟩
    let calls : List (Call Stock) :=
      [.will (.will "w" true none) tag failing, .did (.did "d") tag failing none]
    let both (value : Value Stock) : Bool := value.will?.isSome && value.did?.isSome
    call.evaluate context = .error (.notAFilter "x") ∧ (whole call).calls = [] ∧
      (Expression.name "x").evaluate context = .ok failing ∧
      (whole (.name "x")).result = .error (.error (.custom "no")) ∧
      (∃ written, calls =
        willCalls tag context.wills failing ++ didCalls tag failing written context.dids) ∧
      (Store.empty.run 2 (.append .html "" document context)).result =
        .error (.error (.custom "no")) ∧
      ∃ notes, Bracketed Store.empty notes ∧ notes.map Prod.snd = calls ∧
        countDids both notes = countWills both notes := by
  intro failing context tag call whole document calls both
  have refused : call.evaluate context = .error (.notAFilter "x") := by cbv
  have known : (Expression.name "x").evaluate context = .ok failing := rfl
  have failed : (whole (.name "x")).result = .error (.error (.custom "no")) := rfl
  have failed' : (Store.empty.run 2 (.append .html "" document context)).result =
      .error (.error (.custom "no")) := rfl
  have tags (expression : Expression) := (hooks_bracket Store.empty 1).1 .html context ""
    (.variableTag tag expression true) _ rfl
  obtain ⟨written, made, -⟩ := (tags (.name "x")).2 failing known (by
    intro exhausted
    cases failed.symm.trans exhausted)
  obtain ⟨notes, bracketed, made', balanced⟩ := (hooks_bracket Store.empty 2).2
    (.append .html "" document context) (by simp [failed'])
  exact ⟨refused, ((tags call).1 _ refused).1, known, failed, ⟨written, made⟩, failed', notes,
    bracketed, made', balanced both (by simp [both])⟩

end Store

end Stencil
