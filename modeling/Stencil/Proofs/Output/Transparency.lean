import Stencil.Proofs.Output.Discipline
import Stencil.Proofs.Output.Wrapping
import Stencil.Stock

namespace Stencil

variable {κ : Type}

namespace Run

variable {α β : Type} {run other : Run κ α}

/-- The other run results in the same as the one, or fails alike, unless the one is exhausted. -/
structure Agrees (run other : Run κ α) : Prop where
  value : ∀ a, run.result = .ok a → other.result = .ok a
  error : ∀ error, run.result = .error (.error error) →
    ∃ error', error.Alike error' ∧ other.result = .error (.error error')

namespace Agrees

theorem refl (run : Run κ α) : run.Agrees run where
  value _ ok := ok
  error error failed := ⟨error, .same, failed⟩

theorem exhausted (other : Run κ α) : (exhausted : Run κ α).Agrees other where
  value _ ok := by cases ok
  error _ failed := by cases failed

theorem fail {error error' : RenderError} (alike : error.Alike error') :
    (fail error : Run κ α).Agrees (fail error') where
  value _ ok := by cases ok
  error _ failed := by
    cases failed
    exact ⟨error', alike, rfl⟩

theorem bind {next next' : α → Run κ β} (first : run.Agrees other)
    (rest : ∀ a, run.result = .ok a → (next a).Agrees (next' a)) :
    (run >>= next).Agrees (other >>= next') := by
  cases result : run.result with
  | ok a =>
      have same : (run >>= next).result = (next a).result := result_bind_of_ok result
      have same' : (other >>= next').result = (next' a).result :=
        result_bind_of_ok (first.value a result)
      obtain ⟨value, error⟩ := rest a result
      exact ⟨by rwa [same, same'], by rwa [same, same']⟩
  | error halt =>
      have same : (run >>= next).result = .error halt := result_bind_of_error result
      refine ⟨fun b ok => ?_, fun error failed => ?_⟩
      · rw [same] at ok
        cases ok
      · rw [same] at failed
        cases failed
        obtain ⟨error', alike, failed'⟩ := first.error error result
        exact ⟨error', alike, result_bind_of_error failed'⟩

end Agrees

end Run

def Judgment.agrees (κ : Type) : Judgment κ Bool where
  Holds runs := (runs false).Agrees (runs true)
  done _ := .refl _
  andThen first rest := first.bind fun a ok => rest a ⟨false, ok⟩

structure Info.Alike (info other : Info κ) : Prop where
  tag : other.tag = info.tag
  content? : other.content? = info.content?
  context : info.context.Alike other.context
  isItem : other.isItem = info.isItem

theorem Info.Alike.push {info other : Info κ} (alike : info.Alike other) {value value' : Value κ}
    (pushed : value.Alike value') :
    Info.Alike { info with context := info.context.push value }
      { other with context := other.context.push value' } :=
  ⟨alike.tag, alike.content?, alike.context.push pushed, alike.isItem⟩

def Info.Enters (info : Info κ) (value : Value κ) : Prop :=
  info.content?.isSome ∧ ∀ items, value = .list items → info.isItem

theorem Info.Alike.enters_iff {info other : Info κ} (alike : info.Alike other) {value : Value κ} :
    other.Enters value ↔ info.Enters value := by
  rw [Info.Enters, Info.Enters, alike.content?, alike.isItem]

namespace Runner

variable [Host κ] {run : Runner κ} {store : Store} {info : Info κ} {value : Value κ}

theorem value_of_bare (enters : info.Enters value) (bare : value.Bare) :
    run.value store value info = run.content info (info.context.push value) := by
  obtain ⟨isSection, isItem⟩ := enters
  obtain ⟨content, content?⟩ := Option.isSome_iff_exists.mp isSection
  cases value with
  | list items => simp [Runner.value, isItem items rfl]
  | custom identity inner traits =>
      obtain ⟨none, list⟩ := bare
      simp [Runner.value, none, wrapper, content?]
  | _ => simp [Runner.value, content?]

theorem wrapped_of_enters (enters : info.Enters value) (identity : Nat) :
    run.value store (value.wrapped identity) info =
      run.content info (info.context.push (value.wrapped identity)) := by
  obtain ⟨isSection, isItem⟩ := enters
  obtain ⟨content, content?⟩ := Option.isSome_iff_exists.mp isSection
  cases value with
  | list items => simp [Runner.value, Value.wrapped, wrapper, content?, isItem items rfl]
  | _ => simp [Runner.value, Value.wrapped, wrapper, content?]

theorem wrapped_of_not_enters (through : ¬ info.Enters value) (identity : Nat) :
    run.value store (value.wrapped identity) info = run (.value value info) := by
  cases content? : info.content? with
  | none => simp [Runner.value, Value.wrapped, wrapper, content?]
  | some content =>
      simp only [Info.Enters, content?, Option.isSome_some, true_and, not_forall] at through
      obtain ⟨items, rfl, isItem⟩ := through
      simp [Runner.value, Value.wrapped, wrapper, content?, isItem]

end Runner

namespace Store

variable [Host κ] {store : Store}

/-! ## Rendering in contexts that differ by wrapping -/

omit [Host κ] in
def wrapping (store : Store) : Discipline κ Bool where
  toJudgment := .agrees κ
  stores _ := store
  places documents contexts :=
    documents true = documents false ∧ (contexts false).Alike (contexts true)
  infos infos := (infos false).Alike (infos true)
  values values := (values false).Alike (values true)
  pushed := Value.Hostless
  even _ := False
  good _ := True

omit [Host κ] in
theorem wrapping_sound : (store.wrapping : Discipline κ Bool).Sound where
  toGood := .of_forall fun _ => trivial
  contentType {documents _} places :=
    ⟨(documents false).contentType, Bool.rec rfl (congrArg Content.contentType places.1)⟩
  content {infos} alike := by
    have content? (i : Bool) : (infos i).content? = (infos false).content? :=
      Bool.rec rfl alike.content? i
    cases found : (infos false).content? with
    | none => exact .inl fun i => (content? i).trans found
    | some content =>
        exact .inr ⟨fun _ => content, fun i => (content? i).trans found, rfl, alike.context⟩
  isItem {infos} alike := ⟨(infos false).isItem, Bool.rec rfl alike.isItem⟩
  asItem alike := ⟨alike.tag, alike.content?, alike.context, rfl⟩
  push alike pushed := alike.push (.same pushed)

theorem wrapping_spans :
    (store.wrapping : Discipline κ Bool).Spans Value.Hostless where
  renders hostless := .same hostless
  pushed := id
  items := Value.Every.of_list
  inner := Value.Every.of_inner
  parts hostless found := Value.Every.of_renderer hostless found
  template _ _ _ alike := ⟨rfl, alike.context⟩
  host {_ _ _ name} hostless found := absurd found ((Value.Every.of_custom hostless).renderer name)
  odd _ := id
  mismatch := .fail .same

theorem wrapping_tags (run : Bool → Runner κ) : store.wrapping.Tags run := by
  apply Discipline.tags_of_hookless
  intro infos alike
  obtain ⟨each, each'⟩ := alike.context.each
  exact Bool.rec each.hookless each'.hookless

theorem wrapping_evaluates (expression : Expression) {infos : Bool → Info κ}
    (alike : (infos false).Alike (infos true)) :
    store.wrapping.Evaluates expression infos := by
  have evaluated := expression.evaluate_alike alike.context
  generalize here : expression.evaluate (infos false).context = result,
    there : expression.evaluate (infos true).context = result' at evaluated
  cases evaluated with
  | @error error error' related =>
      have fails (i : Bool) :
          expression.evaluate (infos i).context = .error (side error error' i) := by
        cases i
        · exact here
        · exact there
      refine .error fails ?_
      have failed : RenderError.Alike (.evaluation (infos false).tag.describe error.message)
          (.evaluation (infos true).tag.describe error'.message) := by
        rw [alike.tag]
        exact .evaluation related
      exact .fail failed
  | @ok value value' related =>
      have found (i : Bool) : expression.evaluate (infos i).context = .ok (side value value' i) := by
        cases i
        · exact here
        · exact there
      obtain ⟨each, each'⟩ := alike.context.each
      have kept (i : Bool) : replaced (infos i).element (infos i).context.wills
          (side value value' i) = side value value' i := by
        have none : (infos i).context.wills = [] := Bool.rec each.hookless.1 each'.hookless.1 i
        rw [none]
        rfl
      have truth (i : Bool) : (side value value' i).truth = value.truth :=
        Bool.rec rfl related.truth_eq i
      refine .ok found ?_ fun i => (congrArg Value.truth (kept i)).trans (truth i)
      simp only [kept]
      exact related

theorem wrapping_nodes {contexts : Bool → Context κ}
    (alike : (contexts false).Alike (contexts true)) (contentType : ContentType) (node : Node) :
    store.wrapping.Nodes contentType contexts fun _ => node := by
  cases node with
  | text string => exact .text fun _ _ => trivial
  | variableTag tag expression escapes =>
      let infos (i : Bool) : Info κ := ⟨tag, none, contexts i, false⟩
      have alike : (infos false).Alike (infos true) := ⟨rfl, rfl, alike, rfl⟩
      exact .tag (fun _ => rfl) alike (wrapping_evaluates expression alike) fun _ _ _ _ _ => trivial
  | sectionTag tag expression inverted body source =>
      let infos (i : Bool) : Info κ := ⟨tag, some ⟨body, source⟩, contexts i, false⟩
      have alike : (infos false).Alike (infos true) := ⟨rfl, rfl, alike, rfl⟩
      exact .tag (fun _ => rfl) alike (wrapping_evaluates expression alike) fun _ _ _ _ _ => trivial
  | blockTag name body =>
      exact .blockTag ⟨congrArg (store.resolve · name body) alike.frames, alike⟩
  | partialTag name target => exact .partialTag ⟨rfl, alike⟩
  | inheritTag name parent overriding => exact .inheritTag ⟨rfl, alike.pushFrame _⟩

theorem wrapping_append {run : Bool → Runner κ} (keeps : store.wrapping.Keeps run)
    {documents : Bool → Document} {contexts : Bool → Context κ}
    (places : store.wrapping.places documents contexts) (host : ContentType) (output : String) :
    ((run false).append store host output (documents false) (contexts false)).Agrees
      ((run true).append store host output (documents true) (contexts true)) := by
  obtain ⟨same, alike⟩ := places
  have type : ∀ i, (documents i).contentType = (documents false).contentType :=
    Bool.rec rfl (congrArg Content.contentType same)
  have nodes : (fun i => (documents i).nodes) = fun _ => (documents false).nodes :=
    funext (Bool.rec rfl (congrArg Content.nodes same))
  have lists : store.wrapping.Lists (documents false).contentType contexts
      fun i => (documents i).nodes :=
    nodes ▸ .of_forall fun node _ => wrapping_nodes alike _ node
  exact (Discipline.append_yields wrapping_sound keeps (wrapping_tags run) type lists trivial).holds

theorem wrapping_value {run : Bool → Runner κ} (keeps : store.wrapping.Keeps run)
    {infos : Bool → Info κ} (around : (infos false).Alike (infos true)) {value : Value κ}
    (hostless : value.Hostless) :
    ((run false).value store value (infos false)).Agrees
      ((run true).value store value (infos true)) :=
  (Discipline.value_yields wrapping_sound keeps (wrapping_spans.opens hostless) around).holds

omit [Host κ] in
theorem wrapping_enters {run : Bool → Runner κ} (keeps : store.wrapping.Keeps run)
    {infos : Bool → Info κ} (around : (infos false).Alike (infos true)) {value value' : Value κ}
    (alike : value.Alike value') :
    ((run false).content (infos false) ((infos false).context.push value)).Agrees
      ((run true).content (infos true) ((infos true).context.push value')) := by
  have inside : store.wrapping.infos fun i =>
      { infos i with context := (infos i).context.push (side value value' i) } := around.push alike
  exact (Discipline.content_yields wrapping_sound keeps inside).holds

theorem wrapping_keeps (store : Store) {depth deeper : Nat} (le : 2 * depth ≤ deeper) :
    (store.wrapping : Discipline κ Bool).Keeps (side (store.run depth) (store.run deeper)) := by
  -- A wrapper takes a level of its own, so the other side has to be twice as deep.
  induction depth generalizing deeper with
  | zero =>
      refine ⟨fun {documents contexts host output} _ _ => ⟨.exhausted _, ?_⟩,
        fun _ _ => ⟨.exhausted _, fun _ _ _ => ⟨trivial, nofun⟩⟩⟩
      exact Bool.rec nofun fun rendering ok => ⟨contentType_of_append ok, trivial⟩
  | succ depth ih =>
      obtain ⟨deeper, rfl⟩ := Nat.exists_eq_add_of_le' (show 2 ≤ deeper by omega)
      have below : store.wrapping.Keeps (side (store.run depth) (store.run (deeper + 1))) :=
        ih (by omega)
      refine ⟨fun {documents contexts host output} places _ =>
        ⟨wrapping_append below places host output, ?_⟩,
        fun {values infos} alike around => ⟨?_, fun _ _ _ => ⟨trivial, nofun⟩⟩⟩
      · exact Bool.rec (fun rendering ok => ⟨contentType_of_append ok, trivial⟩)
          fun rendering ok => ⟨contentType_of_append ok, trivial⟩
      · show (Runner.value (store.run depth) store (values false) (infos false)).Agrees
          (Runner.value (store.run (deeper + 1)) store (values true) (infos true))
        replace alike : (values false).Alike (values true) := alike
        replace around : (infos false).Alike (infos true) := around
        generalize values false = value, values true = value' at alike
        cases alike with
        | same hostless => exact wrapping_value below around hostless
        | @escaped value value' alike =>
            have parts : store.wrapping.values (side value value') := alike
            exact (below.value parts around).holds.bind fun _ _ => .refl _
        -- A value that is not entered stands one level below the value that wraps it.
        | wrapped hostless bare =>
            by_cases enters : (infos false).Enters value
            · rw [Runner.value_of_bare enters bare,
                Runner.wrapped_of_enters (around.enters_iff.mpr enters)]
              exact wrapping_enters below around (.wrapped hostless bare)
            · rw [Runner.wrapped_of_not_enters (mt around.enters_iff.mp enters)]
              have above : store.wrapping.Keeps (side (store.run depth) (store.run deeper)) :=
                ih (by omega)
              exact wrapping_value above around hostless
        | unwrapped hostless bare =>
            by_cases enters : (infos false).Enters value'
            · rw [Runner.wrapped_of_enters enters,
                Runner.value_of_bare (around.enters_iff.mpr enters) bare]
              exact wrapping_enters below around (.unwrapped hostless bare)
            · rw [Runner.wrapped_of_not_enters enters]
              have whole : store.wrapping.Keeps (side (store.run depth) (store.run (deeper + 2))) :=
                ih (by omega)
              have same : store.wrapping.values fun _ => value' := .same hostless
              exact (whole.value same around).holds

theorem run_agrees (store : Store) {depth deeper : Nat} (le : 2 * depth ≤ deeper)
    {value value' : Value κ} (alike : value.Alike value') {info : Info κ}
    (each : info.context.Each Value.Hostless) :
    (store.run depth (.value value info)).Agrees (store.run deeper (.value value' info)) := by
  have values : store.wrapping.values (side value value') := alike
  have around : store.wrapping.infos fun _ => info := ⟨rfl, rfl, each.alike, rfl⟩
  exact ((wrapping_keeps store le).value values around).holds

theorem wrapped_delegates (store : Store) (value : Value κ) (identity : Nat) :
    ((value.wrapped identity).isEmpty = value.isEmpty ∧
      (value.wrapped identity).truth = value.truth ∧
      (value.wrapped identity).entries? = value.entries? ∧
      (value.wrapped identity).items? = value.items? ∧
      (value.wrapped identity).filter? = value.filter? ∧
      (∀ key, (value.wrapped identity).lookup key = value.lookup key) ∧
      (value.wrapped identity).will? = none ∧ (value.wrapped identity).did? = none) ∧
    ∀ info : Info κ,
      (¬ info.Enters value → ∀ depth,
        store.run (depth + 1) (.value (value.wrapped identity) info) =
          store.run depth (.value value info)) ∧
      (info.Enters value → ∀ depth,
        store.run (depth + 1) (.value (value.wrapped identity) info) =
          (store.run depth).content info (info.context.push (value.wrapped identity))) ∧
      (value.Hostless → value.Bare → info.context.Each Value.Hostless →
        ∀ depth deeper, 2 * depth ≤ deeper →
          (store.run depth (.value value info)).Agrees
            (store.run deeper (.value (value.wrapped identity) info)) ∧
          (store.run depth (.value (value.wrapped identity) info)).Agrees
            (store.run deeper (.value value info))) := by
  refine ⟨⟨rfl, rfl, rfl, rfl, rfl, fun key => rfl, rfl, rfl⟩, fun info => ⟨?_, ?_, ?_⟩⟩
  · exact fun through depth => Runner.wrapped_of_not_enters through identity
  · exact fun enters depth => Runner.wrapped_of_enters enters identity
  · intro hostless bare each depth deeper le
    exact ⟨store.run_agrees le (.wrapped hostless bare) each,
      store.run_agrees le (.unwrapped hostless bare) each⟩

theorem wrapped_delegates_map :
    let value : Value Stock := .ofPairs [("a", .text "b")]
    let tag : Tag := ⟨"\x7b\x7b#x\x7d\x7d", ⟨1, none⟩, .braces⟩
    let body : Document := ⟨.html, [.variableTag tag (.name "a") true]⟩
    let info : Info Stock := ⟨tag, some ⟨body, "\x7b\x7ba\x7d\x7d"⟩, .empty, false⟩
    info.Enters value ∧ value.Hostless ∧ value.Bare ∧ info.context.Each Value.Hostless ∧
      (empty.run 3 (.value value info)).result = .ok ⟨"b", .html⟩ ∧
      (empty.run 3 (.value value info)).Agrees (empty.run 6 (.value (value.wrapped 1) info)) := by
  intro value tag body info
  have hostless : value.Hostless :=
    Value.Plain.every Value.Hostless.standard (.ofPairs (by simp [Value.Plain.text]))
  have each : info.context.Each Value.Hostless := ⟨nofun, nofun⟩
  obtain ⟨-, renders⟩ := wrapped_delegates empty value 1
  obtain ⟨-, -, agrees⟩ := renders info
  exact ⟨⟨rfl, nofun⟩, hostless, trivial, each, by cbv,
    (agrees hostless trivial each 3 6 (by decide)).1⟩

theorem wrapped_conceals :
    let rendered : Value Stock :=
      .custom 1 none { renderer := some (.host (.const ⟨"r", .html⟩)) }
    let list : Value Stock := Value.wrapped 1 (.list [.null, .null])
    let hooked : Value Stock := .custom 1 none { will := some (.will "w" true none) }
    let tag : Tag := ⟨"\x7b\x7b#x\x7d\x7d", ⟨1, none⟩, .braces⟩
    let info : Info Stock := ⟨tag, some ⟨⟨.html, [.text "y"]⟩, "y"⟩, .empty, false⟩
    (∀ depth, (empty.run (depth + 3) (.value rendered info)).result = .ok ⟨"r", .html⟩ ∧
        (empty.run (depth + 3) (.value (rendered.wrapped 2) info)).result = .ok ⟨"y", .html⟩) ∧
      (∀ depth, (empty.run (depth + 4) (.value list info)).result = .ok ⟨"yy", .html⟩ ∧
        (empty.run (depth + 4) (.value (list.wrapped 2) info)).result = .ok ⟨"y", .html⟩) ∧
      hooked.will?.isSome ∧ (hooked.wrapped 2).will? = none := by
  intro rendered list hooked tag info
  exact ⟨fun depth => ⟨rfl, rfl⟩, fun depth => ⟨rfl, rfl⟩, rfl, rfl⟩

end Store

end Stencil
