import Mathlib
import Stencil.Proofs.Expression.Names
import Stencil.Proofs.Output.Faults
import Stencil.Proofs.Output.Iteration
import Stencil.Proofs.Output.Simulation

/-!
# Positions

The position of an item stands below it in the context, so it shows only where one of its keys is
looked up by name. Where none is, a section renders what `each` makes of a list as the list itself
(`Store.each_transparent`).
-/

namespace Stencil

variable {κ : Type}

def Filter.positionKeys : List String :=
  ["@index", "@indexPlusOne", "@indexIsEven", "@first", "@last", "@key"]

theorem Filter.lookup_position_eq_null [Functions κ] (i n : Nat) (key : Option String)
    {name : String} (other : name ∉ positionKeys) :
    (position i n key : Value κ).lookup name = .null := by
  simp only [positionKeys, List.mem_cons, List.not_mem_nil, or_false, not_or] at other
  cases key <;> simp [position, Value.ofPairs, Value.lookup, Dictionary.ofPairs,
    Entries.lookup_insert, Entries.toList, other]

/-- The same values, with positions below some of them. -/
inductive Value.Padded : List (Value κ) → List (Value κ) → Prop
  | nil : Padded [] []
  | cons {value : Value κ} {values values' : List (Value κ)} : Padded values values' →
      Padded (value :: values) (value :: values')
  | position {value : Value κ} {values values' : List (Value κ)} {i n : Nat}
      {key : Option String} : Padded values values' →
      Padded (value :: values) (value :: Filter.position i n key :: values')

theorem Value.Padded.refl (values : List (Value κ)) : Padded values values := by
  induction values with
  | nil => exact .nil
  | cons value values ih => exact .cons ih

structure Context.Padded (context other : Context κ) : Prop where
  values : Value.Padded context.values other.values
  frames : other.frames = context.frames
  overlay : other.overlay = context.overlay

namespace Context.Padded

variable {context other : Context κ}

theorem push (padded : context.Padded other) (value : Value κ) :
    (context.push value).Padded (other.push value) where
  values := .cons padded.values
  frames := padded.frames
  overlay := by simpa using padded.overlay

theorem pushFrame (padded : context.Padded other) (frame : Frame) :
    (context.pushFrame frame).Padded (other.pushFrame frame) where
  values := padded.values
  frames := congrArg (frame :: ·) padded.frames
  overlay := by simpa using padded.overlay

theorem push_position (context : Context κ) (i n : Nat) (key : Option String) (value : Value κ) :
    (context.push value).Padded ((context.push (Filter.position i n key)).push value) where
  values := .position (.refl context.values)
  frames := rfl
  overlay := by simp

theorem top (padded : context.Padded other) : other.top = context.top := by
  have values := padded.values
  unfold Context.top
  generalize context.values = values_, other.values = values_' at values
  cases values <;> rfl

theorem lookup [Functions κ] (padded : context.Padded other) {name : String}
    (unasked : name ∉ Filter.positionKeys) : other.lookup name = context.lookup name := by
  have found : Value.firstFilled (other.values.map (Value.lookup name)) =
      .firstFilled (context.values.map (Value.lookup name)) := by
    have values := padded.values
    unfold Value.firstFilled
    congr 1
    generalize context.values = values_, other.values = values_' at values
    induction values with
    | nil => rfl
    | cons _ ih => simp only [List.map_cons, List.find?_cons, ih]
    | position _ ih =>
        simp only [List.map_cons, List.find?_cons, ih, Filter.lookup_position_eq_null _ _ _ unasked,
          Value.isEmpty, Bool.not_true]
  rw [Context.lookup_eq, Context.lookup_eq, List.map_append, List.map_append,
    Value.firstFilled_append, Value.firstFilled_append, found, padded.overlay]

theorem evaluate [Functions κ] (padded : context.Padded other) {expression : Expression}
    (unasked : ∀ name ∈ expression.names, name ∉ Filter.positionKeys) :
    expression.evaluate other = expression.evaluate context :=
  expression.evaluate_congr padded.top fun name member => padded.lookup (unasked name member)

end Context.Padded

/-- What a document shows asks for no position. -/
def Store.Unpositioned (store : Store) (document : Document) (frames : List Frame) : Prop :=
  ∀ other tag expression, store.Shows document frames other → other.Evaluates tag expression →
    ∀ name ∈ expression.names, name ∉ Filter.positionKeys

def Correspondence.positions (store : Store) (document : Document) (frames : List Frame) :
    Correspondence κ where
  store := store
  store' := store
  contexts context other := context.Padded other ∧ context.Tame ∧ other.Tame ∧
    ∀ frame ∈ context.frames, store.Shows document frames (store.get frame.parent) ∧
      store.Shows document frames (store.get frame.overriding)
  documents shown shown' := shown' = shown ∧ store.Shows document frames shown
  tags := Eq
  expressions expression := ∀ name ∈ expression.names, name ∉ Filter.positionKeys

namespace Correspondence

variable [Host κ] {store : Store} {document : Document} {frames : List Frame}

omit [Host κ] in
theorem positions_nodes (unpositioned : store.Unpositioned document frames) {shown : Document}
    (shows : store.Shows document frames shown) {node : Node} (member : node ∈ shown.nodes) :
    (positions store document frames : Correspondence κ).Nodes node node := by
  cases node with
  | text => exact .text
  | variableTag tag expression escapes =>
      exact .variableTag rfl (unpositioned _ _ _ shows (.variableTag member))
  | sectionTag tag expression inverted body source =>
      exact .sectionTag rfl (unpositioned _ _ _ shows (.sectionTag member))
        ⟨rfl, .uses shows (.sectionTag member)⟩
  | blockTag name body => exact .blockTag ⟨rfl, .uses shows (.blockTag member)⟩
  | partialTag name target => exact .partialTag ⟨rfl, .uses shows (.partialTag member)⟩
  | inheritTag name parent overriding =>
      exact .inheritTag ⟨rfl, .uses shows (.parent member)⟩ ⟨rfl, .uses shows (.overriding member)⟩

theorem positions_sound (unpositioned : store.Unpositioned document frames) :
    (positions store document frames : Correspondence κ).Sound where
  contentType := by
    rintro _ _ ⟨rfl, -⟩
    rfl
  nodes := by
    rintro shown _ ⟨rfl, shows⟩
    exact .of_forall fun node member => positions_nodes unpositioned shows member
  tame := fun ⟨_, tame, tame', _⟩ => ⟨tame, tame'⟩
  evaluate := fun ⟨padded, _⟩ unasked => padded.evaluate unasked
  push := fun ⟨padded, tame, tame', inherited⟩ pushed =>
    ⟨padded.push _, tame.push pushed, tame'.push pushed, inherited⟩
  pushFrame := fun ⟨padded, tame, tame', inherited⟩ parent overriding =>
    ⟨padded.pushFrame _, tame.pushFrame _, tame'.pushFrame _,
      List.forall_mem_cons.mpr ⟨⟨parent.2, overriding.2⟩, inherited⟩⟩
  frames := fun ⟨padded, _⟩ => padded.frames
  inherited := fun ⟨_, _, _, inherited⟩ frame member =>
    ⟨⟨rfl, (inherited frame member).1⟩, ⟨rfl, (inherited frame member).2⟩⟩

omit [Host κ] in
theorem positions_errors {error error' : RenderError}
    (related : (positions store document frames : Correspondence κ).Errors error error') :
    error' = error := by
  cases related with
  | evaluation same => rw [show _ = _ from same]
  | contentTypeMismatch => rfl

theorem renderEach_matches {R : Correspondence κ} (sound : R.Sound) {document document' : Document}
    (documents : R.documents document document') {contexts contexts' : List (Context κ)}
    (related : List.Forall₂ R.contexts contexts contexts') (depth : Nat) :
    Run.Matches R.Errors (R.store.renderEach depth document contexts)
      (R.store'.renderEach depth document' contexts') := by
  have strings := Run.Matches.mapM related fun context context' here =>
    (render_matches sound documents here depth).map Rendering.string
  have empty : contexts'.isEmpty = contexts.isEmpty := by cases related <;> rfl
  simp only [Store.renderEach, empty, sound.contentType documents]
  exact strings.bind fun _ _ => .pure _

end Correspondence

namespace Store

variable [Host κ] {store : Store} {context : Context κ} {document : Document}

theorem renderEach_positions (unpositioned : store.Unpositioned document context.frames)
    (tame : context.Tame) {items : List (Value κ)} (plain : ∀ item ∈ items, item.Plain)
    (depth : Nat) :
    (store.renderEach depth document
      (context.atItems (items.map fun item => (none, item)))).result =
      (store.renderEach depth document (items.map context.push)).result := by
  let R : Correspondence κ := .positions store document context.frames
  have sound : R.Sound := Correspondence.positions_sound unpositioned
  have inherited : ∀ frame ∈ context.frames,
      store.Shows document context.frames (store.get frame.parent) ∧
        store.Shows document context.frames (store.get frame.overriding) :=
    fun frame member => ⟨.parent member, .overriding member⟩
  have contexts : List.Forall₂ R.contexts (items.map context.push)
      (context.atItems (items.map fun item => (none, item))) := by
    rw [List.forall₂_iff_get]
    refine ⟨by simp [Context.atItems], fun index h _ => ?_⟩
    have short : index < items.length := by simpa using h
    have item : items[index].Tame := (plain _ (List.getElem_mem short)).tame
    have position (i n : Nat) (key : Option String) : (Filter.position i n key : Value κ).Tame :=
      (Filter.position_plain i n key).tame
    simp only [Context.atItems, List.get_eq_getElem, List.getElem_map, List.getElem_mapIdx]
    exact ⟨.push_position _ _ _ _ _, tame.push item, (tame.push (position _ _ _)).push item, inherited⟩
  exact (Correspondence.renderEach_matches sound ⟨rfl, .whole⟩ contexts depth).result_eq
    Correspondence.positions_errors

theorem each_transparent (store : Store) {items : List (Value κ)}
    (plain : ∀ item ∈ items, item.Plain) {info : Info κ} {content : SectionContent}
    (found : info.content? = some content) (outer : info.isItem = false)
    (tame : info.context.Tame)
    (unpositioned : store.Unpositioned content.document info.context.frames) :
    ∃ value, Filter.each.apply [.list items] = .ok value ∧
      (∀ depth, ((store.run (depth + 3)).tagged value false info).result =
        ((store.run (depth + 2)).tagged (.list items) false info).result) ∧
      ∀ run : Runner κ, run.tagged value true info = run.tagged (.list items) true info := by
  have truth : (Filter.positioned (items.map fun item => (none, item))).truth =
      (Value.list items).truth := by
    cases items <;> simp [Filter.positioned, Value.truth]
  have entries : ∀ entry ∈ items.map fun item => ((none : Option String), item), entry.2.Plain :=
    List.forall_mem_map.mpr plain
  refine ⟨_, rfl, fun depth => ?_, fun run => ?_⟩
  · have rendered : (store.run (depth + 3)
          (.value (Filter.positioned (items.map fun item => (none, item))) info)).result =
        (store.run (depth + 2) (.value (.list items) info)).result := by
      rw [positioned_iterates entries found outer, list_iterates plain found outer]
      exact renderEach_positions unpositioned tame plain depth
    simp only [Runner.tagged, found, truth]
    cases (Value.list items).truth
    · rfl
    · exact rendered
  · simp only [Runner.tagged, found, truth]
    cases (Value.list items).truth <;> rfl

theorem each_transparent_nested :
    let items : List (Value Stock) := [.null, .bool false, .list [.int 1], .text "a"]
    let store : Store := ⟨#[some ⟨.html, [.text ";"]⟩]⟩
    let tag : Tag := ⟨"\x7b\x7b#x\x7d\x7d", ⟨1, none⟩, .braces⟩
    let body : Document :=
      ⟨.html, [.variableTag tag (.name "count") true, .partialTag "p" ⟨0⟩]⟩
    let context : Context Stock := Context.empty.push (.standardFilters 0)
    let info : Info Stock := ⟨tag, some ⟨body, ""⟩, context, false⟩
    (∀ item ∈ items, item.Plain) ∧ context.Each Value.Plain ∧ context.Tame ∧
      store.Unpositioned body context.frames ∧
      ((store.run 4).tagged (.list items) false info).result = .ok ⟨";;1;;", .html⟩ ∧
      ∃ value, Filter.each.apply [.list items] = .ok value ∧
        ((store.run 5).tagged value false info).result = .ok ⟨";;1;;", .html⟩ := by
  intro items store tag body context info
  have plain : ∀ item ∈ items, item.Plain := by
    simp [items, Value.Plain.null, Value.Plain.bool, Value.Plain.list, Value.Plain.int,
      Value.Plain.text]
  have each : context.Each Value.Plain := Context.Each.empty.push (Value.standardFilters_plain 0)
  have unpositioned : store.Unpositioned body context.frames := by
    intro other tag expression shows evaluates
    have known : other = body ∨ other = ⟨.html, [.text ";"]⟩ := by
      clear evaluates
      induction shows with
      | whole => exact .inl rfl
      | uses _ uses ih =>
          rcases ih with rfl | rfl
          · cases uses <;> simp_all [body, store, Store.get, Store.get?]
          · cases uses <;> simp_all
      | _ member => cases member
    rcases known with rfl | rfl
    · cases evaluates <;> simp_all [body, Expression.names, Filter.positionKeys]
    · cases evaluates <;> simp_all
  have listed : ((store.run 4).tagged (.list items) false info).result = .ok ⟨";;1;;", .html⟩ := by
    cbv
  have tame : context.Tame := each.tame
  have content : info.content? = some ⟨body, ""⟩ := rfl
  obtain ⟨value, ok, same, -⟩ := each_transparent store plain content rfl tame unpositioned
  exact ⟨plain, each, tame, unpositioned, listed, value, ok, (same 2).trans listed⟩

end Store

end Stencil
