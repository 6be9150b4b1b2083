import Stencil.Proofs.Inheritance.Resolution
import Stencil.Proofs.Output.Discipline
import Stencil.Proofs.Output.Tame

namespace Stencil

variable {κ ι : Type}

def Discipline.uniform (J : Judgment κ ι) (stores : ι → Store) (contexts : Context κ → Prop)
    (documents : Context κ → Document → Prop) (values pushed even : Value κ → Prop)
    (good : Rendering → Prop) : Discipline κ ι where
  toJudgment := J
  stores := stores
  places documents' contexts' := ∃ document context, documents' = (fun _ => document) ∧
    contexts' = (fun _ => context) ∧ contexts context ∧ documents context document
  infos infos := ∃ info, infos = (fun _ => info) ∧ contexts info.context ∧
    ∀ content ∈ info.content?, documents info.context content.document
  values values' := ∃ value, values' = (fun _ => value) ∧ values value
  pushed := pushed
  even := even
  good := good

theorem Discipline.uniform_sound {J : Judgment κ ι} {stores : ι → Store}
    {contexts : Context κ → Prop} {documents : Context κ → Document → Prop}
    {values pushed even : Value κ → Prop} {good : Rendering → Prop}
    (fine : (uniform J stores contexts documents values pushed even good).Good)
    (push : ∀ {context value}, contexts context → pushed value → contexts (context.push value))
    (kept : ∀ {context value document}, documents context document →
      documents (context.push value) document) :
    (uniform J stores contexts documents values pushed even good).Sound where
  toGood := fine
  contentType := by
    rintro _ _ ⟨document, context, rfl, -⟩
    exact ⟨document.contentType, fun _ => rfl⟩
  content := by
    rintro _ ⟨info, rfl, here, inside⟩
    cases found : info.content? with
    | none => exact .inl fun _ => found
    | some content =>
        exact .inr ⟨fun _ => content, fun _ => found, content.document, info.context, rfl, rfl, here,
          inside content found⟩
  isItem := by
    rintro _ ⟨info, rfl, -⟩
    exact ⟨info.isItem, fun _ => rfl⟩
  asItem := by
    rintro _ ⟨info, rfl, here⟩
    exact ⟨{ info with isItem := true }, rfl, here⟩
  push := by
    rintro _ value ⟨info, rfl, here, inside⟩ part
    exact ⟨{ info with context := info.context.push value }, rfl, push here part,
      fun content found => kept (inside content found)⟩

structure Context.Among (store : Store) (documents : Document → Prop) (parts : Value κ → Prop)
    (context : Context κ) : Prop extends context.Each parts where
  frames : ∀ frame ∈ context.frames,
    documents (store.get frame.parent) ∧ documents (store.get frame.overriding)

section Among

variable {store : Store} {documents : Document → Prop} {parts : Value κ → Prop}
  {context : Context κ}

theorem Context.Among.push (among : context.Among store documents parts) {value : Value κ}
    (part : parts value) : (context.push value).Among store documents parts where
  toEach := among.toEach.push part
  frames := among.frames

theorem Context.Among.pushFrame (among : context.Among store documents parts) {frame : Frame}
    (parent : documents (store.get frame.parent))
    (overriding : documents (store.get frame.overriding)) :
    (context.pushFrame frame).Among store documents parts where
  toEach := among.toEach.pushFrame frame
  frames := List.forall_mem_cons.mpr ⟨⟨parent, overriding⟩, among.frames⟩

end Among

inductive Content.Evaluates (document : Document) : Tag → Expression → Prop
  | variableTag {tag : Tag} {expression : Expression} {escapes : Bool} :
      .variableTag tag expression escapes ∈ document.nodes → Evaluates document tag expression
  | sectionTag {tag : Tag} {expression : Expression} {inverted : Bool} {body : Document}
      {source : String} : .sectionTag tag expression inverted body source ∈ document.nodes →
      Evaluates document tag expression

/-- The stores are as one where documents of the realm render. -/
structure Realm (κ ι : Type) [Host κ] where
  store : Store
  stores : ι → Store
  documents : Document → Prop
  parts : Value κ → Prop
  values : Value κ → Prop
  hereditary : store.Hereditary documents
  closed : Value.Closed parts values
  replaced : ∀ {context : Context κ}, context.Each parts → ∀ {value}, values value →
    ∀ tag, values (replaced tag context.wills value)
  get : ∀ {document node name target}, documents document → node ∈ document.nodes →
    node.Refers name target → ∀ i, (stores i).get target = store.get target
  resolve : ∀ frames name body i,
    (stores i).resolve frames name body = store.resolve frames name body

namespace Realm

variable [Host κ]

def single {store : Store} {documents : Document → Prop} {parts values : Value κ → Prop}
    (hereditary : store.Hereditary documents) (closed : Value.Closed parts values)
    (replaced : ∀ {context : Context κ}, context.Each parts → ∀ {value}, values value →
      ∀ tag, values (Stencil.replaced tag context.wills value)) : Realm κ Unit where
  store := store
  stores _ := store
  documents := documents
  parts := parts
  values := values
  hereditary := hereditary
  closed := closed
  replaced := replaced
  get _ _ _ _ := rfl
  resolve _ _ _ _ := rfl

def ofTame {store : Store} {documents : Document → Prop} {parts values : Value κ → Prop}
    (hereditary : store.Hereditary documents) (closed : Value.Closed parts values)
    (tame : ∀ {value}, parts value → value.Tame) : Realm κ Unit :=
  .single hereditary closed fun {context} each value here tag => by
    have none : context.wills = [] := Context.Tame.wills_eq (each.mono tame)
    rw [none]
    exact here

def discipline (realm : Realm κ ι) (J : Judgment κ ι) (even : Value κ → Prop)
    (good : Rendering → Prop) : Discipline κ ι :=
  .uniform J realm.stores (Context.Among realm.store realm.documents realm.parts)
    (fun _ => realm.documents) realm.values realm.parts even good

/-- What the documents and values of a realm have to allow for. -/
structure Allows (realm : Realm κ ι) (J : Judgment κ ι) (even : Value κ → Prop)
    (good : Rendering → Prop) : Prop extends (realm.discipline J even good).Good where
  texts : ∀ {document string output}, realm.documents document → .text string ∈ document.nodes →
    good ⟨output, document.contentType⟩ → good ⟨output ++ string, document.contentType⟩
  raws : ∀ {document tag expression}, realm.documents document →
    .variableTag tag expression false ∈ document.nodes → ∀ output rendering,
    good ⟨output, document.contentType⟩ → good rendering →
    good ⟨output ++ rendering.string, document.contentType⟩
  fails : ∀ {document tag expression error} {context : Context κ}, realm.documents document →
    document.Evaluates tag expression → context.Each realm.parts →
    expression.evaluate context = .error error →
    J.Holds fun _ => (.fail (.evaluation tag.describe error.message) : Run κ String)
  opens : ∀ {value}, realm.values value → (realm.discipline J even good).Opens value
  exhausted : J.Holds fun _ => (.exhausted : Run κ Rendering)

variable {realm : Realm κ ι} {J : Judgment κ ι} {even : Value κ → Prop} {good : Rendering → Prop}
  {document : Document} {context : Context κ}

theorem sound (fine : (realm.discipline J even good).Good) :
    (realm.discipline J even good).Sound :=
  Discipline.uniform_sound fine (fun among part => among.push part) id

theorem tags_of_tame (tame : ∀ {value}, realm.parts value → value.Tame) {run : ι → Runner κ} :
    (realm.discipline J even good).Tags run := by
  apply Discipline.tags_of_hookless
  rintro _ ⟨info, rfl, among, -⟩ _
  have tame : info.context.Tame := among.toEach.mono tame
  exact ⟨tame.wills_eq, tame.dids_eq⟩

namespace Allows

theorem evaluates (allows : realm.Allows J even good) (here : realm.documents document)
    {expression : Expression} {info : Info κ} (evaluates : document.Evaluates info.tag expression)
    (among : info.context.Each realm.parts) :
    (realm.discipline J even good).Evaluates expression fun _ => info := by
  cases evaluated : expression.evaluate info.context with
  | error error =>
      exact .error (fun _ => evaluated) (allows.fails here evaluates among evaluated)
  | ok value =>
      have kept := expression.evaluate_closed realm.closed among evaluated
      exact .ok (fun _ => evaluated) ⟨_, rfl, realm.replaced among kept _⟩ fun _ => rfl

theorem nodes (allows : realm.Allows J even good) (here : realm.documents document)
    (among : context.Among realm.store realm.documents realm.parts) {node : Node}
    (member : node ∈ document.nodes) :
    (realm.discipline J even good).Nodes document.contentType (fun _ => context)
      fun _ => node := by
  cases node with
  | text string => exact .text fun output => allows.texts here member
  | variableTag tag expression escapes =>
      refine .tag (fun _ => rfl) ⟨_, rfl, among, nofun⟩
        (allows.evaluates here (.variableTag member) among.toEach) ?_
      rintro rfl
      exact allows.raws here member
  | sectionTag tag expression inverted body source =>
      have body_ : realm.documents body := realm.hereditary _ _ here (.sectionTag member)
      exact .tag (fun _ => rfl) ⟨_, rfl, among, by simpa using body_⟩
        (allows.evaluates here (.sectionTag member) among.toEach) nofun
  | blockTag name body =>
      have own : realm.documents body := realm.hereditary _ _ here (.blockTag member)
      exact .blockTag ⟨_, context, funext (realm.resolve context.frames name body), rfl, among,
        Store.resolve_of_hereditary realm.hereditary among.frames own⟩
  | partialTag name target =>
      exact .partialTag ⟨_, context, funext (realm.get here member .partialTag), rfl, among,
        realm.hereditary _ _ here (.partialTag member)⟩
  | inheritTag name parent overriding =>
      have parent_ := realm.hereditary _ _ here (.parent member)
      have overriding_ := realm.hereditary _ _ here (.overriding member)
      exact .inheritTag ⟨_, _, funext (realm.get here member .inheritTag), rfl,
        among.pushFrame parent_ overriding_, parent_⟩

theorem walks [Nonempty ι] (allows : realm.Allows J even good) :
    (realm.discipline J even good).Walks where
  toSound := sound allows.toGood
  lists {documents contexts contentType} places type := by
    obtain ⟨document, context, rfl, rfl, among, here⟩ := places
    obtain ⟨i⟩ := ‹Nonempty ι›
    obtain rfl := type i
    exact .of_forall fun node => allows.nodes here among
  opens := by
    rintro _ ⟨value, rfl, here⟩
    exact ⟨value, rfl, allows.opens here⟩
  exhausted := allows.exhausted

theorem render_yields [Nonempty ι] (allows : realm.Allows J even good)
    (tags : ∀ depth, (realm.discipline J even good).Tags fun i => (realm.stores i).run depth)
    (here : realm.documents document)
    (among : context.Among realm.store realm.documents realm.parts) (depth : Nat) :
    J.Yields (fun rendering => rendering.contentType = document.contentType ∧ good rendering)
      fun i => (realm.stores i).render depth document context :=
  Discipline.document_yields (sound allows.toGood) (Discipline.keeps_run allows.walks tags depth)
    ⟨document, context, rfl, rfl, among, here⟩ fun _ => rfl

end Allows

end Realm

end Stencil
