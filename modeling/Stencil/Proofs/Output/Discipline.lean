import Mathlib
import Stencil.Proofs.Output.Customs
import Stencil.Proofs.Output.Hooks
import Stencil.Proofs.Output.Judgment
import Stencil.Proofs.Output.Tame

/-!
# The walk of a rendering

Rendering walks from documents to their nodes, from tags to the values of their expressions, and from
values to their parts and the content of the tag. A `Discipline` says what may come up on that walk,
in several renderings side by side, and what is judged of their runs. What one step makes of the jobs
it gives rise to is said once (`Discipline.append_yields`, `Discipline.value_yields`), and so is what
all jobs come to (`Discipline.keeps_run`).
-/

namespace Stencil

def Info.itemType {κ : Type} (info : Info κ) : ContentType :=
  (info.content?.map fun content => content.document.contentType).getD .text

theorem Store.contentType_of_append {κ : Type} [Host κ] {store : Store} {depth : Nat}
    {host : ContentType} {output : String} {document : Document} {context : Context κ}
    {rendering : Rendering}
    (ok : (store.run depth (.append host output document context)).result = .ok rendering) :
    rendering.contentType = host := by
  cases depth with
  | zero => cases ok
  | succ depth =>
      rw [Store.run, Runner.append] at ok
      split at ok
      · obtain ⟨string, -, last⟩ := Run.result_bind ok
        rw [Run.result_pure last]
      · obtain ⟨string, -, last⟩ := Run.result_bind ok
        rw [Run.result_pure last]

def Value.isScalar {κ : Type} : Value κ → Bool
  | .list _ | .custom .. => false
  | _ => true

/-- A judgment of jobs that are run side by side, each in a store of its own. -/
structure Discipline (κ ι : Type) extends Judgment κ ι where
  stores : ι → Store
  places : (ι → Document) → (ι → Context κ) → Prop
  infos : (ι → Info κ) → Prop
  values : (ι → Value κ) → Prop
  pushed : Value κ → Prop
  /-- A value that renders, as an item, with the content type of the tag's content. -/
  even : Value κ → Prop
  good : Rendering → Prop

namespace Discipline

variable {κ ι : Type}

def Fits (D : Discipline κ ι) (values : ι → Value κ) (infos : ι → Info κ) (rendering : Rendering) :
    Prop :=
  D.good rendering ∧ ∀ i, D.even (values i) → (infos i).isItem = true →
    rendering.contentType = (infos i).itemType

structure Keeps (D : Discipline κ ι) (run : ι → Runner κ) : Prop where
  append : ∀ {documents contexts host output}, D.places documents contexts →
    D.good ⟨output, host⟩ →
    D.Yields (fun rendering => rendering.contentType = host ∧ D.good rendering)
      fun i => run i (.append host output (documents i) (contexts i))
  value : ∀ {values infos}, D.values values → D.infos infos →
    D.Yields (D.Fits values infos) fun i => run i (.value (values i) (infos i))

structure Good (D : Discipline κ ι) : Prop where
  empty : ∀ contentType, D.good ⟨"", contentType⟩
  plain : ∀ string, D.good (.plain string)
  escaped : ∀ string, D.good ⟨Text.escape string, .html⟩
  joined : ∀ {first second : Rendering}, D.good first → D.good second →
    first.contentType = second.contentType →
    D.good { first with string := first.string ++ second.string }
  within : ∀ {output host rendering}, D.good ⟨output, host⟩ → D.good rendering →
    D.good ⟨output ++ rendering.within host, host⟩

theorem Good.of_forall {D : Discipline κ ι} (all : ∀ rendering, D.good rendering) : D.Good where
  empty _ := all _
  plain _ := all _
  escaped _ := all _
  joined _ _ _ := all _
  within _ _ := all _

structure Sound (D : Discipline κ ι) : Prop extends D.Good where
  contentType : ∀ {documents contexts}, D.places documents contexts →
    ∃ contentType, ∀ i, (documents i).contentType = contentType
  content : ∀ {infos}, D.infos infos → (∀ i, (infos i).content? = none) ∨
    ∃ contents : ι → SectionContent, (∀ i, (infos i).content? = some (contents i)) ∧
      D.places (fun i => (contents i).document) fun i => (infos i).context
  isItem : ∀ {infos}, D.infos infos → ∃ isItem, ∀ i, (infos i).isItem = isItem
  asItem : ∀ {infos}, D.infos infos → D.infos fun i => { infos i with isItem := true }
  push : ∀ {infos value}, D.infos infos → D.pushed value →
    D.infos fun i => { infos i with context := (infos i).context.push value }

/-! ## Values -/

/-- A program of a host that asks for what may render. -/
inductive Permits (D : Discipline κ ι) : Action κ → Prop
  | finish {result : Except RenderError Rendering} :
      D.Holds (fun _ => .ofExcept result) → Permits D (.finish result)
  | value {value : Value κ} {info : Info κ} {next : Except RenderError Rendering → Action κ} :
      D.values (fun _ => value) → D.infos (fun _ => info) →
      (∀ outcome, Permits D (next outcome)) → Permits D (.value value info next)
  | document {document : Document} {context : Context κ}
      {next : Except RenderError Rendering → Action κ} :
      D.places (fun _ => document) (fun _ => context) →
      (∀ outcome, Permits D (next outcome)) → Permits D (.document document context next)

variable [Host κ]

structure Hosts (D : Discipline κ ι) (name : κ) : Prop where
  good : ∀ rendering, D.good rendering
  attempt : ∀ {runs : ι → Run κ Rendering}, D.Holds runs → D.Holds fun i => (runs i).attempt
  permits : ∀ {infos}, D.infos infos →
    ∃ action, (∀ i, Host.render name (D.stores i) (infos i) = action) ∧ D.Permits action

/-- What a value renders by way of may render. -/
inductive Opens (D : Discipline κ ι) : Value κ → Prop
  | scalar {value : Value κ} : value.isScalar = true → D.pushed value → Opens D value
  | list {items : List (Value κ)} : (∀ item ∈ items, D.values fun _ => item) →
      ((∀ item ∈ items, D.even item) ∨
        D.Holds fun _ => (.fail .contentTypeMismatch : Run κ (Option Rendering))) →
      D.pushed (.list items) → Opens D (.list items)
  | item {identity : Nat} {inner : Option (Value κ)} {traits : Traits κ (Value κ)}
      {position item : Value κ} : traits.renderer = some (.item position item) →
      D.pushed position → D.values (fun _ => item) →
      (D.even (.custom identity inner traits) → D.even item) → Opens D (.custom identity inner traits)
  | escaped {identity : Nat} {inner : Option (Value κ)} {traits : Traits κ (Value κ)}
      {value : Value κ} : traits.renderer = some (.escaped value) → D.values (fun _ => value) →
      ¬ D.even (.custom identity inner traits) → Opens D (.custom identity inner traits)
  | template {identity : Nat} {inner : Option (Value κ)} {traits : Traits κ (Value κ)} {root : Ref} :
      traits.renderer = some (.template root) →
      (∀ {infos}, D.infos infos →
        D.places (fun i => (D.stores i).get root) fun i => (infos i).context) →
      ¬ D.even (.custom identity inner traits) → Opens D (.custom identity inner traits)
  | host {identity : Nat} {inner : Option (Value κ)} {traits : Traits κ (Value κ)} {name : κ} :
      traits.renderer = some (.host name) → D.Hosts name →
      ¬ D.even (.custom identity inner traits) → Opens D (.custom identity inner traits)
  | wrapper {identity : Nat} {inner : Option (Value κ)} {traits : Traits κ (Value κ)} :
      traits.renderer = none → (∀ value ∈ inner, D.values fun _ => value) →
      (D.even (.custom identity inner traits) → ∀ value ∈ inner, D.even value) →
      D.pushed (.custom identity inner traits) → Opens D (.custom identity inner traits)

/-- Values of a kind render by way of values of that kind, and of whatever content type. -/
structure Spans (D : Discipline κ ι) (P : Value κ → Prop) : Prop where
  renders : ∀ {value}, P value → D.values fun _ => value
  pushed : ∀ {value}, P value → D.pushed value
  items : ∀ {items}, P (.list items) → ∀ item ∈ items, P item
  inner : ∀ {identity inner traits}, P (.custom identity inner traits) → ∀ value ∈ inner, P value
  parts : ∀ {identity inner traits renderer}, P (.custom identity inner traits) →
    traits.renderer = some renderer → ∀ part ∈ renderer.parts, P part
  template : ∀ {identity inner traits root}, P (.custom identity inner traits) →
    traits.renderer = some (.template root) → ∀ {infos}, D.infos infos →
    D.places (fun i => (D.stores i).get root) fun i => (infos i).context
  host : ∀ {identity inner traits name}, P (.custom identity inner traits) →
    traits.renderer = some (.host name) → D.Hosts name
  odd : ∀ value, ¬ D.even value
  mismatch : D.Holds fun _ => (.fail .contentTypeMismatch : Run κ (Option Rendering))

variable {D : Discipline κ ι}

theorem Spans.opens {P : Value κ → Prop} (spans : D.Spans P) {value : Value κ} (here : P value) :
    D.Opens value := by
  have pushed := spans.pushed here
  cases value with
  | list items =>
      exact .list (fun item member => spans.renders (spans.items here item member))
        (.inr spans.mismatch) pushed
  | custom identity inner traits =>
      have odd : ¬ D.even (.custom identity inner traits) := spans.odd _
      cases found : traits.renderer with
      | none =>
          exact .wrapper found (fun value member => spans.renders (spans.inner here value member))
            (fun even => absurd even odd) pushed
      | some renderer =>
          have parts := spans.parts here found
          cases renderer with
          | item position item =>
              exact .item found (spans.pushed (parts position (by simp [Renderer.parts])))
                (spans.renders (parts item (by simp [Renderer.parts]))) fun even => absurd even odd
          | escaped value =>
              exact .escaped found (spans.renders (parts value (by simp [Renderer.parts]))) odd
          | template root => exact .template found (spans.template here found) odd
          | host name => exact .host found (spans.host here found) odd
  | _ => exact .scalar rfl pushed

theorem spans_tame (renders : ∀ {value}, Value.Tame value → D.values fun _ => value)
    (pushed : ∀ {value}, Value.Tame value → D.pushed value) (odd : ∀ value, ¬ D.even value)
    (mismatch : D.Holds fun _ => (.fail .contentTypeMismatch : Run κ (Option Rendering))) :
    D.Spans Value.Tame where
  renders := renders
  pushed := pushed
  items tame := by
    cases tame
    assumption
  inner tame := by cases tame <;> nofun
  parts tame found := by
    cases tame with
    | item position item =>
        cases found
        simpa [Renderer.parts] using ⟨position, item⟩
    | escaped value =>
        cases found
        simpa [Renderer.parts] using value
    | _ => cases found
  template tame found := by cases tame <;> cases found
  host tame found := by cases tame <;> cases found
  odd := odd
  mismatch := mismatch

variable {run : ι → Runner κ} {documents : ι → Document}
  {contexts : ι → Context κ} {infos : ι → Info κ} {values : ι → Value κ} {value : Value κ}
  {host contentType : ContentType} {output : String}

omit [Host κ] in
theorem document_yields (sound : D.Sound) (keeps : D.Keeps run)
    (places : D.places documents contexts) (type : ∀ i, (documents i).contentType = contentType) :
    D.Yields (fun rendering => rendering.contentType = contentType ∧ D.good rendering)
      fun i => (run i).document (documents i) (contexts i) := by
  simp only [Runner.document, type]
  exact keeps.append places (sound.empty contentType)

omit [Host κ] in
theorem content_yields (sound : D.Sound) (keeps : D.Keeps run) (around : D.infos infos) :
    D.Yields (fun rendering => D.good rendering ∧ ∀ i, rendering.contentType = (infos i).itemType)
      fun i => (run i).content (infos i) (infos i).context := by
  unfold Runner.content Info.itemType
  rcases sound.content around with none | ⟨contents, found, places⟩
  · simp only [none]
    exact .pure ⟨sound.plain "", fun i => rfl⟩
  · simp only [found]
    obtain ⟨contentType, type⟩ := sound.contentType places
    apply (document_yields sound keeps places type).mono
    exact fun rendering ⟨same, good⟩ => ⟨good, fun i => same.trans (type i).symm⟩

omit [Host κ] in
theorem pushed_yields (sound : D.Sound) (keeps : D.Keeps run) (around : D.infos infos)
    (pushed : D.pushed value) :
    D.Yields (fun rendering => D.good rendering ∧ ∀ i, rendering.contentType = (infos i).itemType)
      fun i => (run i).content (infos i) ((infos i).context.push value) :=
  content_yields sound keeps (sound.push around pushed)

omit [Host κ] in
theorem scalar_yields (sound : D.Sound) (keeps : D.Keeps run) (around : D.infos infos)
    (pushed : D.pushed value) (string : String) :
    D.Yields (fun rendering => D.good rendering ∧ ∀ i, rendering.contentType = (infos i).itemType)
      fun i => match (infos i).content? with
        | none => pure (.plain string)
        | some _ => (run i).content (infos i) ((infos i).context.push value) := by
  have content := pushed_yields sound keeps around pushed
  rcases sound.content around with none | ⟨contents, found, -⟩
  · simp only [none]
    exact .pure ⟨sound.plain string, fun i => by simp [Info.itemType, none, Rendering.plain]⟩
  · simpa only [found] using content

omit [Host κ] in
theorem items_yields [Nonempty ι] (sound : D.Sound) (keeps : D.Keeps run) (around : D.infos infos)
    {items : List (Value κ)} (parts : ∀ item ∈ items, D.values fun _ => item)
    (matched : (∀ item ∈ items, D.even item) ∨
      D.Holds fun _ => (.fail .contentTypeMismatch : Run κ (Option Rendering))) :
    D.Yields D.good fun i => (run i).items items (infos i) := by
  let Joined (joined : Option Rendering) : Prop := ∀ rendering ∈ joined, D.good rendering ∧
    ((∀ item ∈ items, D.even item) → ∀ i, rendering.contentType = (infos i).itemType)
  have folded : D.Yields Joined fun i => items.foldlM ((run i).item (infos i)) none := by
    refine .foldlM nofun fun before item member joined => ?_
    apply (keeps.value (parts item member) (sound.asItem around)).bind
    intro rendering ⟨good, fits⟩
    cases before with
    | none =>
        apply Judgment.Yields.pure
        rintro _ ⟨⟩
        exact ⟨good, fun even i => fits i (even item member) rfl⟩
    | some before =>
        obtain ⟨good', type⟩ := joined before rfl
        dsimp only
        split
        · rename_i same
          apply Judgment.Yields.pure
          rintro _ ⟨⟩
          exact ⟨sound.joined good' good same, type⟩
        · rename_i apart
          rcases matched with even | fails
          · obtain ⟨i⟩ := ‹Nonempty ι›
            exact absurd ((type even i).trans (fits i (even item member) rfl).symm) apart
          · exact .fail fails
  apply folded.bind
  intro joined inside
  apply Judgment.Yields.pure
  cases joined with
  | none => exact sound.plain ""
  | some rendering => exact (inside rendering rfl).1

omit [Host κ] in
theorem wrapper_yields (sound : D.Sound) (keeps : D.Keeps run) (around : D.infos infos)
    {inner : Option (Value κ)} {traits : Traits κ (Value κ)}
    (parts : ∀ value ∈ inner, D.values fun _ => value)
    (even : D.even value → ∀ value ∈ inner, D.even value) (pushed : D.pushed value) :
    D.Yields (D.Fits (fun _ => value) infos)
      fun i => (run i).wrapper value inner traits (infos i) := by
  have content := pushed_yields sound keeps around pushed
  replace content := content.mono (R := D.Fits (fun _ => value) infos)
    fun rendering ⟨good, type⟩ => ⟨good, fun i _ _ => type i⟩
  rcases sound.content around with none | ⟨contents, found, -⟩
  · simp only [Runner.wrapper, none]
    cases inner with
    | none => exact .pure ⟨sound.plain _, fun i _ _ => by simp [Info.itemType, none, Rendering.plain]⟩
    | some inner =>
        apply (keeps.value (parts inner rfl) around).mono
        exact fun rendering ⟨good, fits⟩ => ⟨good, fun i here => fits i (even here inner rfl)⟩
  · by_cases listed : ∃ items, inner = some (.list items)
    · obtain ⟨items, rfl⟩ := listed
      obtain ⟨isItem, alike⟩ := sound.isItem around
      simp only [Runner.wrapper, found, alike]
      cases isItem with
      | true => exact content
      | false =>
          apply (keeps.value (parts _ rfl) around).mono
          exact fun rendering ⟨good, _⟩ => ⟨good, fun i _ asItem => by simp [alike] at asItem⟩
    · have entered (i : ι) : (run i).wrapper value inner traits (infos i) =
          (run i).content (infos i) ((infos i).context.push value) := by
        unfold Runner.wrapper
        rw [found i]
        split <;> simp_all
      simpa only [entered] using content

omit [Host κ] in
theorem action_yields (sound : D.Sound) (keeps : D.Keeps run)
    (attempt : ∀ {runs : ι → Run κ Rendering}, D.Holds runs → D.Holds fun i => (runs i).attempt)
    {action : Action κ} (permits : D.Permits action) : D.Holds fun i => (run i).action action := by
  induction permits with
  | finish holds => exact holds
  | value value info _ ih =>
      exact D.andThen (attempt (keeps.value value info).holds) fun outcome _ => ih outcome
  | document places _ ih =>
      have rendered := document_yields sound keeps places fun _ => rfl
      exact D.andThen (attempt rendered.holds) fun outcome _ => ih outcome

theorem value_yields [Nonempty ι] (sound : D.Sound) (keeps : D.Keeps run) (opens : D.Opens value)
    (around : D.infos infos) :
    D.Yields (D.Fits (fun _ => value) infos)
      fun i => (run i).value (D.stores i) value (infos i) := by
  have uneven {value : Value κ} (uneven : ¬ D.even value) (rendering : Rendering)
      (good : D.good rendering) : D.Fits (fun _ => value) infos rendering :=
    ⟨good, fun i even => absurd even uneven⟩
  cases opens with
  | scalar isScalar pushed =>
      have scalar := (scalar_yields sound keeps around pushed value.plainText).mono
        (R := D.Fits (fun _ => value) infos) fun rendering ⟨good, type⟩ => ⟨good, fun i _ _ => type i⟩
      cases value with
      | list | custom => cases isScalar
      | _ => exact scalar
  | @list items parts matched pushed =>
      obtain ⟨isItem, alike⟩ := sound.isItem around
      simp only [Runner.value, alike]
      cases isItem with
      | true =>
          exact (pushed_yields sound keeps around pushed).mono
            fun rendering ⟨good, type⟩ => ⟨good, fun i _ _ => type i⟩
      | false =>
          exact (items_yields sound keeps around parts matched).mono
            fun rendering good => ⟨good, fun i _ asItem => by simp [alike] at asItem⟩
  | item found pushed part even =>
      simp only [Runner.value, found, Runner.renderer]
      exact (keeps.value part (sound.push around pushed)).mono
        fun rendering ⟨good, fits⟩ => ⟨good, fun i here => fits i (even here)⟩
  | escaped found part odd =>
      simp only [Runner.value, found, Runner.renderer]
      exact (keeps.value part around).bind fun rendering _ =>
        .pure (uneven odd _ (sound.escaped rendering.string))
  | template found place odd =>
      obtain ⟨contentType, type⟩ := sound.contentType (place around)
      simp only [Runner.value, found, Runner.renderer]
      exact (document_yields sound keeps (place around) type).mono
        fun rendering ⟨_, good⟩ => uneven odd rendering good
  | host found hosts odd =>
      obtain ⟨action, same, permits⟩ := hosts.permits around
      simp only [Runner.value, found, Runner.renderer, same]
      exact ⟨action_yields sound keeps hosts.attempt permits,
        fun i rendering _ => uneven odd rendering (hosts.good rendering)⟩
  | wrapper found parts even pushed =>
      simp only [Runner.value, found]
      exact wrapper_yields sound keeps around parts even pushed

/-! ## Tags -/

inductive Evaluates (D : Discipline κ ι) (expression : Expression) (infos : ι → Info κ) : Prop
  | ok {values : ι → Value κ} {truth : Bool} :
      (∀ i, expression.evaluate (infos i).context = .ok (values i)) →
      D.values (fun i => replaced (infos i).element (infos i).context.wills (values i)) →
      (∀ i, (replaced (infos i).element (infos i).context.wills (values i)).truth = truth) →
      Evaluates D expression infos
  | error {errors : ι → RenderError} :
      (∀ i, expression.evaluate (infos i).context = .error (errors i)) →
      D.Holds (fun i => (.fail (.evaluation (infos i).tag.describe (errors i).message) :
        Run κ String)) → Evaluates D expression infos

def Tags (D : Discipline κ ι) (run : ι → Runner κ) : Prop :=
  ∀ {expression : Expression} {inverted escapes : Bool} {infos : ι → Info κ} {values : ι → Value κ}
    (host : ContentType), D.infos infos →
    (∀ i, expression.evaluate (infos i).context = .ok (values i)) →
    D.Holds (fun i => (TagJob.mk expression inverted escapes (infos i)).inner (run i) (values i)) →
    D.Holds fun i => (TagJob.mk expression inverted escapes (infos i)).run (run i) host

theorem tags_of_hookless
    (hookless : ∀ {infos}, D.infos infos → ∀ i,
      (infos i).context.wills = [] ∧ (infos i).context.dids = []) : D.Tags run := by
  intro expression inverted escapes infos values host around evaluates holds
  let job (i : ι) : TagJob κ := ⟨expression, inverted, escapes, infos i⟩
  have silent (i : ι) : (job i).run (run i) host = do
      let rendering ← (job i).inner (run i) (values i)
      return if escapes then rendering.within host else rendering.string := by
    obtain ⟨wills, dids⟩ := hookless around i
    rw [TagJob.run_of_hookless (evaluates i) wills dids, TagJob.inner, TagJob.final_of_wills wills,
      map_eq_pure_bind]
    rfl
  simp only [job] at silent
  simp only [silent]
  exact D.andThen holds fun rendering _ => D.done _

omit [Host κ] in
theorem tagged_yields (sound : D.Sound) (keeps : D.Keeps run) (around : D.infos infos)
    (renders : D.values values) {truth : Bool} (alike : ∀ i, (values i).truth = truth)
    (inverted : Bool) :
    D.Yields D.good fun i => (run i).tagged (values i) inverted (infos i) := by
  have rendered := (keeps.value renders around).mono fun rendering fits => fits.1
  have content := (content_yields sound keeps around).mono fun rendering inside => inside.1
  unfold Runner.tagged
  simp only [alike]
  rcases sound.content around with none | ⟨contents, found, -⟩
  · simpa only [none] using rendered
  · simp only [found]
    cases inverted <;> cases truth
    · exact .pure (sound.plain "")
    · exact rendered
    · exact content
    · exact .pure (sound.plain "")

theorem tag_yields (sound : D.Sound) (keeps : D.Keeps run) (tags : D.Tags run)
    (around : D.infos infos) {expression : Expression} (evaluates : D.Evaluates expression infos)
    (inverted escapes : Bool) :
    D.Yields (fun string => ∃ rendering, D.good rendering ∧
        string = if escapes then rendering.within host else rendering.string)
      fun i => (run i).tag host expression inverted escapes (infos i) := by
  let job (i : ι) : TagJob κ := ⟨expression, inverted, escapes, infos i⟩
  show D.Yields _ fun i => (job i).run (run i) host
  cases evaluates with
  | error fails holds =>
      have failed (i : ι) : (job i).run (run i) host = _ := (job i).run_of_error (fails i)
      simp only [failed]
      exact .fail holds
  | ok evaluates renders alike =>
      have inner := tagged_yields sound keeps around renders alike inverted
      refine ⟨tags host around evaluates inner.holds, fun i string ok => ?_⟩
      rw [TagJob.run_eq (evaluates i)] at ok
      split at ok
      · rename_i rendering rendered
        cases ok
        exact ⟨rendering, inner.value i rendering rendered, rfl⟩
      · cases ok
      · cases ok

/-! ## Documents -/

inductive Nodes (D : Discipline κ ι) (contentType : ContentType) (contexts : ι → Context κ) :
    (ι → Node) → Prop
  | text {string : String} :
      (∀ output, D.good ⟨output, contentType⟩ → D.good ⟨output ++ string, contentType⟩) →
      Nodes D contentType contexts fun _ => .text string
  | tag {nodes : ι → Node} {expression : Expression} {inverted escapes : Bool} {infos : ι → Info κ} :
      (∀ i, (nodes i).tagJob? (contexts i) = some ⟨expression, inverted, escapes, infos i⟩) →
      D.infos infos → D.Evaluates expression infos →
      (escapes = false → ∀ output rendering, D.good ⟨output, contentType⟩ → D.good rendering →
        D.good ⟨output ++ rendering.string, contentType⟩) → Nodes D contentType contexts nodes
  | blockTag {name : String} {bodies : ι → Document} :
      D.places (fun i => (D.stores i).resolve (contexts i).frames name (bodies i)) contexts →
      Nodes D contentType contexts fun i => .blockTag name (bodies i)
  | partialTag {name : String} {target : Ref} :
      D.places (fun i => (D.stores i).get target) contexts →
      Nodes D contentType contexts fun _ => .partialTag name target
  | inheritTag {name : String} {parent overriding : Ref} :
      D.places (fun i => (D.stores i).get parent)
        (fun i => (contexts i).pushFrame ⟨parent, overriding⟩) →
      Nodes D contentType contexts fun _ => .inheritTag name parent overriding

/-- Lists of nodes, of which those of texts may be cut in different places. -/
inductive Lists (D : Discipline κ ι) (contentType : ContentType) (contexts : ι → Context κ) :
    (ι → List Node) → Prop
  | nil : Lists D contentType contexts fun _ => []
  | cons {nodes : ι → Node} {lists : ι → List Node} : D.Nodes contentType contexts nodes →
      Lists D contentType contexts lists → Lists D contentType contexts fun i => nodes i :: lists i
  | texts {strings : ι → List String} {string : String} {lists : ι → List Node} :
      (∀ i, String.join (strings i) = string) →
      (∀ output, D.good ⟨output, contentType⟩ → D.good ⟨output ++ string, contentType⟩) →
      Lists D contentType contexts lists →
      Lists D contentType contexts fun i => (strings i).map .text ++ lists i

theorem Lists.of_forall {nodes : List Node}
    (each : ∀ node ∈ nodes, D.Nodes contentType contexts fun _ => node) :
    D.Lists contentType contexts fun _ => nodes := by
  induction nodes with
  | nil => exact .nil
  | cons node nodes ih =>
      obtain ⟨here, rest⟩ := List.forall_mem_cons.mp each
      exact .cons here (ih rest)

theorem node_yields (sound : D.Sound) (keeps : D.Keeps run) (tags : D.Tags run) {nodes : ι → Node}
    (related : D.Nodes contentType contexts nodes) (good : D.good ⟨output, contentType⟩) :
    D.Yields (fun output => D.good ⟨output, contentType⟩)
      fun i => (run i).node (D.stores i) contentType (contexts i) output (nodes i) := by
  have appended {documents : ι → Document} {contexts : ι → Context κ}
      (places : D.places documents contexts) :
      D.Yields (fun output => D.good ⟨output, contentType⟩) fun i =>
        (do return (← run i (.append contentType output (documents i) (contexts i))).string :
          Run κ String) := by
    apply (keeps.append places good).bind
    rintro ⟨string, _⟩ ⟨rfl, fine⟩
    exact .pure fine
  cases related with
  | text written => exact .pure (written output good)
  | @tag nodes expression inverted escapes infos isTag around evaluates raw =>
      have run_eq (i : ι) : (run i).node (D.stores i) contentType (contexts i) output (nodes i) = _ :=
        TagJob.node_eq (isTag i)
      simp only [run_eq]
      apply (tag_yields sound keeps tags around evaluates inverted escapes).map
      rintro _ ⟨rendering, fine, rfl⟩
      cases escapes with
      | true => exact sound.within good fine
      | false => exact raw rfl output rendering good fine
  | blockTag place => exact appended place
  | partialTag place => exact appended place
  | inheritTag place => exact appended place

theorem nodes_yields (sound : D.Sound) (keeps : D.Keeps run) (tags : D.Tags run)
    {lists : ι → List Node} (related : D.Lists contentType contexts lists)
    (good : D.good ⟨output, contentType⟩) :
    D.Yields (fun output => D.good ⟨output, contentType⟩)
      fun i => (run i).nodes (D.stores i) contentType (contexts i) (lists i) output := by
  induction related generalizing output with
  | nil => exact .pure good
  | cons here _ ih =>
      simp only [Runner.nodes, List.foldlM_cons]
      exact (node_yields sound keeps tags here good).bind fun output good => ih good
  | @texts strings string lists joined written _ ih =>
      have read (run : Runner κ) (store : Store) (context : Context κ) (strings : List String)
          (nodes : List Node) (output : String) :
          run.nodes store contentType context (strings.map .text ++ nodes) output =
            run.nodes store contentType context nodes (output ++ String.join strings) := by
        induction strings generalizing output with
        | nil => simp
        | cons string strings ih =>
            have later := ih (output ++ string)
            simp [Runner.nodes, Runner.node] at later ⊢
            rw [later, String.append_assoc]
      simp only [read, joined]
      exact ih (written output good)

theorem append_yields (sound : D.Sound) (keeps : D.Keeps run) (tags : D.Tags run)
    (type : ∀ i, (documents i).contentType = contentType)
    (related : D.Lists contentType contexts fun i => (documents i).nodes)
    (good : D.good ⟨output, host⟩) :
    D.Yields (fun rendering => rendering.contentType = host ∧ D.good rendering)
      fun i => (run i).append (D.stores i) host output (documents i) (contexts i) := by
  simp only [Runner.append, type]
  split
  · rename_i same
    subst same
    exact (nodes_yields sound keeps tags related good).bind fun string good => .pure ⟨rfl, good⟩
  · apply (nodes_yields sound keeps tags related (sound.empty contentType)).bind
    exact fun string inside => .pure ⟨rfl, sound.within good inside⟩

/-! ## Rendering -/

structure Walks (D : Discipline κ ι) : Prop extends D.Sound where
  lists : ∀ {documents contexts contentType}, D.places documents contexts →
    (∀ i, (documents i).contentType = contentType) →
    D.Lists contentType contexts fun i => (documents i).nodes
  opens : ∀ {values}, D.values values → ∃ value, values = (fun _ => value) ∧ D.Opens value
  exhausted : D.Holds fun _ => (.exhausted : Run κ Rendering)

theorem keeps_run [Nonempty ι] (walks : D.Walks)
    (tags : ∀ depth, D.Tags fun i => (D.stores i).run depth) (depth : Nat) :
    D.Keeps fun i => (D.stores i).run depth := by
  induction depth with
  | zero =>
      exact ⟨fun _ _ => ⟨walks.exhausted, fun _ _ ok => by cases ok⟩,
        fun _ _ => ⟨walks.exhausted, fun _ _ ok => by cases ok⟩⟩
  | succ depth ih =>
      refine ⟨fun places good => ?_, fun renders around => ?_⟩
      · obtain ⟨contentType, type⟩ := walks.contentType places
        exact append_yields walks.toSound ih (tags depth) type (walks.lists places type) good
      · obtain ⟨value, rfl, opens⟩ := walks.opens renders
        exact value_yields walks.toSound ih opens around

end Discipline

end Stencil
