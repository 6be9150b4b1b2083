import Mathlib
import Stencil.Proofs.Inheritance.Blocks
import Stencil.Proofs.Output.Discipline
import Stencil.Proofs.Output.Tame

namespace Stencil

variable {κ : Type}

namespace Run

/-- Two runs result in the same, or fail with related errors, or are both exhausted. -/
inductive Matches {α : Type} (E : RenderError → RenderError → Prop) (run run' : Run κ α) : Prop
  | ok {a : α} : run.result = .ok a → run'.result = .ok a → Matches E run run'
  | error {error error' : RenderError} : E error error' → run.result = .error (.error error) →
      run'.result = .error (.error error') → Matches E run run'
  | exhausted : run.result = .error .exhausted → run'.result = .error .exhausted → Matches E run run'

namespace Matches

variable {α β : Type} {E : RenderError → RenderError → Prop} {run run' : Run κ α}

theorem pure (a : α) : Matches E (pure a : Run κ α) (pure a) :=
  .ok rfl rfl

theorem fail {error error' : RenderError} (related : E error error') :
    Matches E (fail error : Run κ α) (fail error') :=
  .error related rfl rfl

theorem bind {next next' : α → Run κ β} (first : Matches E run run')
    (rest : ∀ a, run.result = .ok a → Matches E (next a) (next' a)) :
    Matches E (run >>= next) (run' >>= next') := by
  cases first with
  | ok here there =>
      have here' : (run >>= next).result = (next _).result := result_bind_of_ok here
      have there' : (run' >>= next').result = (next' _).result := result_bind_of_ok there
      cases rest _ here with
      | ok ok ok' => exact .ok (here'.trans ok) (there'.trans ok')
      | error related failed failed' =>
          exact .error related (here'.trans failed) (there'.trans failed')
      | exhausted ended ended' => exact .exhausted (here'.trans ended) (there'.trans ended')
  | error related failed failed' =>
      exact .error related (result_bind_of_error failed) (result_bind_of_error failed')
  | exhausted ended ended' =>
      exact .exhausted (result_bind_of_error ended) (result_bind_of_error ended')

theorem map (first : Matches E run run') (f : α → β) : Matches E (f <$> run) (f <$> run') := by
  simp only [map_eq_pure_bind]
  exact first.bind fun a _ => pure _

theorem mapM {γ : Type} {S : γ → γ → Prop} {f f' : γ → Run κ β} {items items' : List γ}
    (related : List.Forall₂ S items items')
    (step : ∀ c c', S c c' → Matches E (f c) (f' c')) :
    Matches E (items.mapM f) (items'.mapM f') := by
  induction related with
  | nil => exact pure []
  | cons here _ ih =>
      simp only [List.mapM_cons]
      exact (step _ _ here).bind fun b _ => ih.bind fun bs _ => pure (b :: bs)

theorem result_eq (first : Matches E run run') (same : ∀ {error error'}, E error error' →
    error' = error) : run'.result = run.result := by
  cases first with
  | ok here there => rw [here, there]
  | error related here there => rw [here, there, same related]
  | exhausted here there => rw [here, there]

end Matches

end Run

def Judgment.matches (κ : Type) (E : RenderError → RenderError → Prop) : Judgment κ Bool where
  Holds runs := Run.Matches E (runs false) (runs true)
  done := .pure
  andThen first rest := first.bind fun a ok => rest a ⟨false, ok⟩

/-- What corresponds in two stores: contexts, documents and tags. Only expressions of a kind are
evaluated. -/
structure Correspondence (κ : Type) where
  store : Store
  store' : Store
  contexts : Context κ → Context κ → Prop
  documents : Document → Document → Prop
  tags : Tag → Tag → Prop
  expressions : Expression → Prop

namespace Correspondence

variable (R : Correspondence κ)

def Links (ref : Ref) : Prop :=
  R.documents (R.store.get ref) (R.store'.get ref)

inductive Nodes : Node → Node → Prop
  | text {string : String} : Nodes (.text string) (.text string)
  | variableTag {tag tag' : Tag} {expression : Expression} {escapes : Bool} : R.tags tag tag' →
      R.expressions expression →
      Nodes (.variableTag tag expression escapes) (.variableTag tag' expression escapes)
  | sectionTag {tag tag' : Tag} {expression : Expression} {inverted : Bool} {body body' : Document}
      {source source' : String} : R.tags tag tag' → R.expressions expression →
      R.documents body body' →
      Nodes (.sectionTag tag expression inverted body source)
        (.sectionTag tag' expression inverted body' source')
  | blockTag {name : String} {body body' : Document} : R.documents body body' →
      Nodes (.blockTag name body) (.blockTag name body')
  | partialTag {name : String} {target : Ref} : R.Links target →
      Nodes (.partialTag name target) (.partialTag name target)
  | inheritTag {name : String} {parent overriding : Ref} : R.Links parent → R.Links overriding →
      Nodes (.inheritTag name parent overriding) (.inheritTag name parent overriding)

inductive NodeLists : List Node → List Node → Prop
  | nil : NodeLists [] []
  | cons {node node' : Node} {nodes nodes' : List Node} : R.Nodes node node' →
      NodeLists nodes nodes' → NodeLists (node :: nodes) (node' :: nodes')
  | cut {first second : String} {nodes nodes' : List Node} : NodeLists nodes nodes' →
      NodeLists (.text (first ++ second) :: nodes) (.text first :: .text second :: nodes')

inductive Errors : RenderError → RenderError → Prop
  | evaluation {tag tag' : Tag} {reason : String} : R.tags tag tag' →
      Errors (.evaluation tag.describe reason) (.evaluation tag'.describe reason)
  | contentTypeMismatch : Errors .contentTypeMismatch .contentTypeMismatch

structure Infos (info info' : Info κ) : Prop where
  content : Option.Rel (fun content content' : SectionContent =>
    R.documents content.document content'.document) info.content? info'.content?
  context : R.contexts info.context info'.context
  isItem : info'.isItem = info.isItem

structure Sound [Functions κ] : Prop where
  contentType : ∀ {document document'}, R.documents document document' →
    document'.contentType = document.contentType
  nodes : ∀ {document document'}, R.documents document document' →
    R.NodeLists document.nodes document'.nodes
  tame : ∀ {context context'}, R.contexts context context' → context.Tame ∧ context'.Tame
  evaluate : ∀ {context context' expression}, R.contexts context context' →
    R.expressions expression → expression.evaluate context' = expression.evaluate context
  push : ∀ {context context' value}, R.contexts context context' → Value.Tame value →
    R.contexts (context.push value) (context'.push value)
  pushFrame : ∀ {context context' frame}, R.contexts context context' →
    R.Links frame.parent → R.Links frame.overriding →
    R.contexts (context.pushFrame frame) (context'.pushFrame frame)
  frames : ∀ {context context'}, R.contexts context context' → context'.frames = context.frames
  inherited : ∀ {context context'}, R.contexts context context' → ∀ frame ∈ context.frames,
    R.Links frame.parent ∧ R.Links frame.overriding

variable {R}

theorem NodeLists.of_forall {nodes : List Node} (each : ∀ node ∈ nodes, R.Nodes node node) :
    R.NodeLists nodes nodes := by
  induction nodes with
  | nil => exact .nil
  | cons node nodes ih =>
      obtain ⟨here, rest⟩ := List.forall_mem_cons.mp each
      exact .cons here (ih rest)

/-! ## Blocks -/

structure Blocks (R : Correspondence κ) (block block' : Block) : Prop where
  name : block'.name = block.name
  body : R.documents block.body block'.body

theorem blocks_node {name : String} {included included' : Ref → List Block} {node node' : Node}
    (nodes : R.Nodes node node')
    (inside : ∀ ref, R.Links ref → List.Forall₂ R.Blocks (included ref) (included' ref)) :
    List.Forall₂ R.Blocks (node.blocks name included) (node'.blocks name included') := by
  cases nodes with
  | blockTag body =>
      simp only [Node.blocks]
      split
      · exact .cons ⟨rfl, body⟩ .nil
      · exact .nil
  | partialTag links => exact inside _ links
  | inheritTag parent overriding => exact List.rel_append (inside _ parent) (inside _ overriding)
  | _ => exact .nil

theorem blocks_nodes {name : String} {included included' : Ref → List Block}
    {nodes nodes' : List Node} (lists : R.NodeLists nodes nodes')
    (inside : ∀ ref, R.Links ref → List.Forall₂ R.Blocks (included ref) (included' ref)) :
    List.Forall₂ R.Blocks (nodes.flatMap (Node.blocks name included))
      (nodes'.flatMap (Node.blocks name included')) := by
  induction lists with
  | nil => exact .nil
  | cons here _ ih => exact List.rel_append (blocks_node here inside) ih
  | cut _ ih => simpa [Node.blocks] using ih

variable [Host κ]

theorem blocks_matches (sound : R.Sound) (name : String) (path : List Ref) {ref : Ref}
    (links : R.Links ref) :
    List.Forall₂ R.Blocks (R.store.blocks name path ref) (R.store'.blocks name path ref) := by
  fun_induction Store.blocks R.store name path ref with
  | case1 path ref entered ih =>
      rw [Store.blocks_eq R.store', if_neg entered.1]
      exact blocks_nodes (sound.nodes links) fun target => ih target
  | case2 path ref outside =>
      rw [Store.blocks_eq]
      split
      · exact .nil
      · rename_i fresh
        have beyond : R.store.size ≤ ref.index := by
          by_contra inside
          exact outside ⟨fresh, not_le.mp inside⟩
        have nodes := sound.nodes links
        rw [Store.get_nodes_of_le beyond] at nodes
        cases h : (R.store'.get ref).nodes with
        | nil => exact .nil
        | cons node rest =>
            rw [h] at nodes
            cases nodes

theorem offer_matches (sound : R.Sound) {block block' : Block} (alike : R.Blocks block block')
    {frame : Frame} (parent : R.Links frame.parent) (overriding : R.Links frame.overriding) :
    Option.Rel R.Blocks (R.store.offer? block frame) (R.store'.offer? block' frame) := by
  rw [Store.offer?_eq, Store.offer?_eq, alike.name, List.getLast?_eq_head?_reverse,
    List.getLast?_eq_head?_reverse]
  have offers := List.rel_reverse (List.rel_append (blocks_matches sound block.name [] parent)
    (blocks_matches sound block.name [] overriding))
  unfold Store.offers
  revert offers
  generalize (R.store.blocks block.name [] frame.parent ++
    R.store.blocks block.name [] frame.overriding).reverse = blocks
  generalize (R.store'.blocks block.name [] frame.parent ++
    R.store'.blocks block.name [] frame.overriding).reverse = blocks'
  intro offers
  cases offers with
  | nil => exact .none
  | cons first _ => exact .some first

theorem resolve_matches (sound : R.Sound) (name : String) {frames : List Frame}
    (inherited : ∀ frame ∈ frames, R.Links frame.parent ∧ R.Links frame.overriding)
    {body body' : Document} (bodies : R.documents body body') :
    R.documents (R.store.resolve frames name body) (R.store'.resolve frames name body') := by
  have asked (used : List Ref) {block block' : Block} (alike : R.Blocks block block') :
      R.Blocks (R.store.resolveIn frames used block) (R.store'.resolveIn frames used block') := by
    induction frames generalizing used block block' with
    | nil => exact alike
    | cons frame frames ih =>
        obtain ⟨⟨parent, overriding⟩, rest⟩ := List.forall_mem_cons.mp inherited
        have offered := offer_matches sound alike parent overriding
        simp only [Store.resolveIn]
        split
        · exact ih rest used alike
        · generalize R.store.offer? block frame = offer,
            R.store'.offer? block' frame = offer' at offered
          cases offered with
          | some related => exact ih rest _ related
          | none => exact ih rest _ alike
  have alike : R.Blocks ⟨name, body⟩ ⟨name, body'⟩ := ⟨rfl, bodies⟩
  exact (asked [] alike).body

/-! ## Rendering -/

def sides (R : Correspondence κ) : Discipline κ Bool where
  toJudgment := .matches κ R.Errors
  stores := side R.store R.store'
  places documents contexts :=
    R.documents (documents false) (documents true) ∧ R.contexts (contexts false) (contexts true)
  infos infos := R.Infos (infos false) (infos true)
  values values := ∃ value, values = (fun _ => value) ∧ value.Tame
  pushed := Value.Tame
  even _ := False
  good _ := True

theorem sides_sound (sound : R.Sound) : R.sides.Sound where
  toGood := .of_forall fun _ => trivial
  contentType {documents _} places :=
    ⟨(documents false).contentType, Bool.rec rfl (sound.contentType places.1)⟩
  content {infos} related := by
    have content := related.content
    cases found : (infos false).content? with
    | none =>
        cases found' : (infos true).content? with
        | none => exact .inl (Bool.rec found found')
        | some content' => simp [found, found'] at content
    | some content_ =>
        cases found' : (infos true).content? with
        | none => simp [found, found'] at content
        | some content' =>
            refine .inr ⟨Bool.rec content_ content', Bool.rec found found', ?_, related.context⟩
            simpa [found, found'] using content
  isItem {infos} related := ⟨(infos false).isItem, Bool.rec rfl related.isItem⟩
  asItem related := ⟨related.content, related.context, rfl⟩
  push related tame := ⟨related.content, sound.push related.context tame, related.isItem⟩

theorem sides_tags (sound : R.Sound) (run : Bool → Runner κ) : R.sides.Tags run := by
  apply Discipline.tags_of_hookless
  intro infos related
  obtain ⟨tame, tame'⟩ := sound.tame related.context
  exact Bool.rec ⟨tame.wills_eq, tame.dids_eq⟩ ⟨tame'.wills_eq, tame'.dids_eq⟩

theorem sides_evaluates (sound : R.Sound) {infos : Bool → Info κ}
    (related : R.Infos (infos false) (infos true))
    (tags : R.tags (infos false).tag (infos true).tag) {expression : Expression}
    (allowed : R.expressions expression) : R.sides.Evaluates expression infos := by
  have same := sound.evaluate related.context allowed
  obtain ⟨tame, tame'⟩ := sound.tame related.context
  cases evaluated : expression.evaluate (infos false).context with
  | error error =>
      have fails (i : Bool) : expression.evaluate (infos i).context = .error error :=
        Bool.rec evaluated (same.trans evaluated) i
      exact .error fails (.fail (.evaluation tags))
  | ok value =>
      have kept (i : Bool) : replaced (infos i).element (infos i).context.wills value = value := by
        have none : (infos i).context.wills = [] := Bool.rec tame.wills_eq tame'.wills_eq i
        rw [none]
        rfl
      refine .ok (Bool.rec evaluated (same.trans evaluated)) ?_ fun i => congrArg Value.truth (kept i)
      exact ⟨value, funext kept, expression.evaluate_tame tame evaluated⟩

theorem sides_nodes (sound : R.Sound) {context context' : Context κ}
    (alike : R.contexts context context') {node node' : Node} (related : R.Nodes node node')
    (contentType : ContentType) :
    R.sides.Nodes contentType (side context context') (side node node') := by
  cases related with
  | text => exact side_self _ ▸ .text fun _ _ => trivial
  | @variableTag tag tag' expression escapes tags allowed =>
      let infos := side (⟨tag, none, context, false⟩ : Info κ) ⟨tag', none, context', false⟩
      have related : R.Infos (infos false) (infos true) := ⟨.none, alike, rfl⟩
      have isTag (i : Bool) : (side (Node.variableTag tag expression escapes)
          (.variableTag tag' expression escapes) i).tagJob? (side context context' i) =
            some ⟨expression, false, escapes, infos i⟩ := by
        cases i <;> rfl
      exact .tag isTag related (sides_evaluates sound related tags allowed) fun _ _ _ _ _ => trivial
  | @sectionTag tag tag' expression inverted body body' source source' tags allowed bodies =>
      let infos := side (⟨tag, some ⟨body, source⟩, context, false⟩ : Info κ)
        ⟨tag', some ⟨body', source'⟩, context', false⟩
      have related : R.Infos (infos false) (infos true) := ⟨.some bodies, alike, rfl⟩
      have isTag (i : Bool) : (side (Node.sectionTag tag expression inverted body source)
          (.sectionTag tag' expression inverted body' source') i).tagJob? (side context context' i) =
            some ⟨expression, inverted, true, infos i⟩ := by
        cases i <;> rfl
      exact .tag isTag related (sides_evaluates sound related tags allowed) fun _ _ _ _ _ => trivial
  | @blockTag name body body' bodies =>
      have resolved : R.documents (R.store.resolve context.frames name body)
          (R.store'.resolve context'.frames name body') := by
        rw [sound.frames alike]
        exact resolve_matches sound name (sound.inherited alike) bodies
      rw [side_map (Node.blockTag name)]
      exact .blockTag ⟨resolved, alike⟩
  | partialTag links => exact side_self _ ▸ .partialTag ⟨links, alike⟩
  | inheritTag parent overriding =>
      exact side_self _ ▸ .inheritTag ⟨parent, sound.pushFrame alike parent overriding⟩

theorem sides_lists (sound : R.Sound) {context context' : Context κ}
    (alike : R.contexts context context') {nodes nodes' : List Node}
    (related : R.NodeLists nodes nodes') (contentType : ContentType) :
    R.sides.Lists contentType (side context context') (side nodes nodes') := by
  induction related with
  | nil => exact side_self _ ▸ .nil
  | @cons node node' nodes nodes' here _ ih =>
      have lists : side (node :: nodes) (node' :: nodes') =
          fun i => side node node' i :: side nodes nodes' i := funext (Bool.rec rfl rfl)
      rw [lists]
      exact .cons (sides_nodes sound alike here contentType) ih
  | @cut first second nodes nodes' _ ih =>
      let strings := side [first ++ second] [first, second]
      have lists : side (.text (first ++ second) :: nodes) (.text first :: .text second :: nodes') =
          fun i => (strings i).map .text ++ side nodes nodes' i := funext (Bool.rec rfl rfl)
      have joined (i : Bool) : String.join (strings i) = first ++ second := by
        cases i <;> simp [strings, side]
      rw [lists]
      exact .texts joined (fun _ _ => trivial) ih

theorem sides_walks (sound : R.Sound) : R.sides.Walks where
  toSound := sides_sound sound
  lists {documents contexts contentType} places _ := by
    obtain ⟨alike, around⟩ := places
    rw [eq_side contexts, eq_side fun i => (documents i).nodes]
    exact sides_lists sound around (sound.nodes alike) contentType
  opens := by
    rintro _ ⟨value, rfl, tame⟩
    refine ⟨value, rfl, Discipline.Spans.opens ?_ tame⟩
    exact Discipline.spans_tame (fun tame => ⟨_, rfl, tame⟩) id (fun _ => id)
      (.fail .contentTypeMismatch)
  exhausted := .exhausted rfl rfl

theorem render_matches (sound : R.Sound) {document document' : Document}
    (documents : R.documents document document') {context context' : Context κ}
    (contexts : R.contexts context context') (depth : Nat) :
    Run.Matches R.Errors (R.store.render depth document context)
      (R.store'.render depth document' context') := by
  have keeps := Discipline.keeps_run (sides_walks sound) (fun depth => sides_tags sound _) depth
  have places : R.sides.places (side document document') (side context context') :=
    ⟨documents, contexts⟩
  have type : ∀ i, (side document document' i).contentType = document.contentType :=
    Bool.rec rfl (sound.contentType documents)
  exact (Discipline.document_yields (sides_sound sound) keeps places type).holds

end Correspondence

end Stencil
