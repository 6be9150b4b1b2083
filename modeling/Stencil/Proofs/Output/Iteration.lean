import Mathlib
import Stencil.Proofs.Output.Isolation
import Stencil.Proofs.Output.Plain
import Stencil.Stock

namespace Stencil

variable {κ : Type}

def Context.atItems (context : Context κ) (entries : List (Option String × Value κ)) :
    List (Context κ) :=
  entries.mapIdx fun index (key, item) =>
    (context.push (Filter.position index entries.length key)).push item

/-- What the position of the item at `i` among `n` answers, key by key. -/
structure Filter.Answers [Functions κ] (position : Value κ) (i n : Nat) (name : Option String) :
    Prop where
  index : position.lookup "@index" = .int i
  indexPlusOne : position.lookup "@indexPlusOne" = .int (i + 1)
  indexIsEven : position.lookup "@indexIsEven" = .bool (decide (Even i))
  first : position.lookup "@first" = .bool (decide (i = 0))
  last : position.lookup "@last" = .bool (decide (i + 1 = n))
  key : position.lookup "@key" = (name.map Value.text).getD .null

theorem Filter.position_answers [Functions κ] (i n : Nat) (name : Option String) :
    Answers (position i n name : Value κ) i n name := by
  have even : (i % 2 == 0) = decide (Even i) := by
    rw [Bool.eq_iff_iff]
    simp [Nat.even_iff]
  cases name with
  | none => exact ⟨rfl, rfl, congrArg Value.bool even, rfl, rfl, rfl⟩
  | some name => exact ⟨rfl, rfl, congrArg Value.bool even, rfl, rfl, rfl⟩

namespace Run

variable {α β : Type}

theorem result_mapM_of_error {f : α → Run κ β} {items : List α} {index : Nat} {item : α} {halt : Halt}
    (at_ : items[index]? = some item) (halts : (f item).result = .error halt)
    (before : ∀ earlier < index, ∀ other, items[earlier]? = some other →
      ∃ b, (f other).result = .ok b) :
    (items.mapM f).result = .error halt := by
  induction items generalizing index with
  | nil => simp at at_
  | cons first items ih =>
      rw [List.mapM_cons]
      cases index with
      | zero =>
          cases at_
          exact result_bind_of_error halts
      | succ index =>
          obtain ⟨b, ok⟩ := before 0 (Nat.succ_pos index) first rfl
          rw [result_bind_of_ok ok]
          apply result_bind_of_error
          refine ih (by simpa using at_) fun earlier lt other here => ?_
          exact before (earlier + 1) (Nat.succ_lt_succ lt) other (by simpa using here)

end Run

variable [Host κ] {store : Store} {info : Info κ} {content : SectionContent} {depth : Nat}

def Store.renderEach (store : Store) (depth : Nat) (document : Document)
    (contexts : List (Context κ)) : Run κ Rendering := do
  let strings ← contexts.mapM fun context => Rendering.string <$> store.render depth document context
  return ⟨String.join strings, if contexts.isEmpty then .text else document.contentType⟩

namespace Runner

variable {run : Runner κ} {document : Document}

omit [Host κ] in
theorem items_joined {ι : Type} {items : List (Value κ)} {places : List ι} {text : ι → Run κ String}
    {contentType : ContentType}
    (renders : List.Forall₂ (fun item place =>
      run (.value item { info with isItem := true }) =
        (fun string => ⟨string, contentType⟩) <$> text place) items places) :
    run.items items info =
      (fun strings => ⟨String.join strings, if places.isEmpty then .text else contentType⟩) <$>
        places.mapM text := by
  have later {items : List (Value κ)} {places : List ι}
      (renders : List.Forall₂ (fun item place =>
        run (.value item { info with isItem := true }) =
          (fun string => ⟨string, contentType⟩) <$> text place) items places) (before : String) :
      items.foldlM (run.item info) (some ⟨before, contentType⟩) =
        (fun strings => some ⟨before ++ String.join strings, contentType⟩) <$>
          places.mapM text := by
    induction renders generalizing before with
    | nil => simp
    | cons first _ ih =>
        rw [List.foldlM_cons, List.mapM_cons, Runner.item, first]
        simp [ih, String.append_assoc]
  unfold Runner.items
  cases renders with
  | nil => simp [Rendering.plain]
  | cons first rest =>
      rw [List.foldlM_cons, List.mapM_cons, Runner.item, first]
      simp [later rest]

theorem items_eq {items : List (Value κ)} {contexts : List (Context κ)}
    (renders : List.Forall₂ (fun item context =>
      run (.value item { info with isItem := true }) = store.render depth document context)
      items contexts) :
    run.items items info = store.renderEach depth document contexts := by
  have typed (context : Context κ) : store.render depth document context =
      (fun string => ⟨string, document.contentType⟩) <$>
        Rendering.string <$> store.render depth document context := by
    rw [Functor.map_map, map_eq_pure_bind]
    calc store.render depth document context
      _ = store.render depth document context >>= pure := (bind_pure _).symm
      _ = _ := Run.bind_congr fun rendering ok => by rw [← Store.contentType_of_render ok]
  rw [items_joined (renders.imp fun _ context same => same.trans (typed context)),
    Store.renderEach, map_eq_pure_bind]

theorem value_item {value : Value κ} (plain : value.Plain) (found : info.content? = some content)
    (isItem : info.isItem = true) :
    run.value store value info = run.document content.document (info.context.push value) := by
  cases plain <;> simp [Runner.value, Runner.wrapper, Runner.content, found, isItem]

end Runner

namespace Store

theorem list_iterates {items : List (Value κ)} (plain : ∀ item ∈ items, item.Plain)
    (found : info.content? = some content) (outer : info.isItem = false) (depth : Nat) :
    store.run (depth + 2) (.value (.list items) info) =
      store.renderEach depth content.document (items.map info.context.push) := by
  have iterates : store.run (depth + 2) (.value (.list items) info) =
      (store.run (depth + 1)).items items info := by
    show Runner.value _ _ _ _ = _
    simp [Runner.value, outer]
  rw [iterates]
  apply Runner.items_eq
  rw [List.forall₂_map_right_iff, List.forall₂_same]
  intro item member
  exact Runner.value_item (plain item member) found rfl

theorem positioned_iterates {entries : List (Option String × Value κ)}
    (plain : ∀ entry ∈ entries, entry.2.Plain) (found : info.content? = some content)
    (outer : info.isItem = false) (depth : Nat) :
    store.run (depth + 3) (.value (Filter.positioned entries) info) =
      store.renderEach depth content.document (info.context.atItems entries) := by
  have iterates : store.run (depth + 3) (.value (Filter.positioned entries) info) =
      (store.run (depth + 2)).items (entries.mapIdx fun index (key, item) =>
        .rendering (.item (Filter.position index entries.length key) item)) info := by
    show Runner.value _ _ _ _ = _
    simp [Runner.value, Filter.positioned, outer]
  rw [iterates]
  apply Runner.items_eq
  rw [List.forall₂_iff_get]
  refine ⟨by simp [Context.atItems], fun index h _ => ?_⟩
  have short : index < entries.length := by simpa using h
  simp only [Context.atItems, List.get_eq_getElem, List.getElem_mapIdx]
  let inside : Info κ := { info with
    context := info.context.push (Filter.position index entries.length entries[index].1)
    isItem := true }
  have pushed : (store.run depth).value store entries[index].2 inside =
      (store.run depth).document content.document (inside.context.push entries[index].2) :=
    Runner.value_item (plain _ (List.getElem_mem short)) found rfl
  exact pushed

/-- In a section, a value renders the content for some items, each in its context. The first
item that does not succeed decides. -/
structure Iterates (store : Store) (value : Value κ) (entries : List (Option String × Value κ)) :
    Prop where
  renders : ∀ (info : Info κ) (content : SectionContent), info.content? = some content →
    info.isItem = false → ∀ depth, store.run (depth + 3) (.value value info) =
      store.renderEach depth content.document (info.context.atItems entries)
  fails : ∀ (info : Info κ) (content : SectionContent), info.content? = some content →
    info.isItem = false → ∀ (depth index : Nat) (context : Context κ) (halt : Halt),
      (info.context.atItems entries)[index]? = some context →
      (store.render depth content.document context).result = .error halt →
      (∀ earlier < index, ∀ other, (info.context.atItems entries)[earlier]? = some other →
        ∃ rendering, (store.render depth content.document other).result = .ok rendering) →
      (store.run (depth + 3) (.value value info)).result = .error halt

theorem iterates_positioned (store : Store) {entries : List (Option String × Value κ)}
    (plain : ∀ entry ∈ entries, entry.2.Plain) :
    store.Iterates (Filter.positioned entries) entries where
  renders _ _ := positioned_iterates plain
  fails info content found outer depth index context halt at_ halts before := by
    rw [positioned_iterates plain found outer, renderEach]
    apply Run.result_bind_of_error
    refine Run.result_mapM_of_error at_ (by simp [halts, Except.map]) fun earlier lt other here => ?_
    obtain ⟨rendering, ok⟩ := before earlier lt other here
    exact ⟨rendering.string, by simp [ok, Except.map]⟩

theorem each_iterates (store : Store) :
    (∀ items : List (Value κ), (∀ item ∈ items, item.Plain) →
      ∃ value, Filter.each.apply [.list items] = .ok value ∧
        store.Iterates value (items.map fun item => (none, item))) ∧
    (∀ entries : Dictionary (Value κ), (∀ entry ∈ entries.toList, entry.2.Plain) →
      ∃ value, Filter.each.apply [.map entries] = .ok value ∧
        store.Iterates value (entries.toList.map fun (key, item) => (some key, item))) ∧
    ∀ (index count : Nat) (key : Option String),
      Filter.Answers (Filter.position index count key : Value κ) index count key := by
  refine ⟨fun items plain => ⟨_, rfl, store.iterates_positioned ?_⟩,
    fun entries plain => ⟨_, rfl, store.iterates_positioned ?_⟩, Filter.position_answers⟩
  · exact List.forall_mem_map.mpr plain
  · exact List.forall_mem_map.mpr plain

theorem each_iterates_nested :
    let items : List (Value Stock) :=
      [.ofPairs [("f", .custom 1 none { filter := some .each })], .list [.int 1, .int 2]]
    let tag : Tag := ⟨"\x7b\x7b#x\x7d\x7d", ⟨1, none⟩, .braces⟩
    let info (body : Document) : Info Stock := ⟨tag, some ⟨body, ""⟩, .empty, false⟩
    let counts : Document := ⟨.html, [.variableTag tag (.name "@index") true, .text ":",
      .variableTag tag (.name "count") true, .text ";"]⟩
    let calls : Document := ⟨.html, [.variableTag tag (.call (.name "f") [.top]) true]⟩
    (∀ item ∈ items, item.Plain) ∧ ∃ value, Filter.each.apply [.list items] = .ok value ∧
      (empty.run 9 (.value value (info counts))).result = .ok ⟨"0:;1:2;", .html⟩ ∧
      (empty.run 9 (.value value (info calls))).result =
        .error (.error (.evaluation tag.describe (RenderError.missingFilter "f").message)) := by
  intro items tag info counts calls
  have filter : (Value.ofPairs [("f", .custom 1 none { filter := some .each })] :
      Value Stock).Plain := .ofPairs (by simp [Value.Plain.each])
  have plain : ∀ item ∈ items, item.Plain := by
    simp [items, filter, Value.Plain.list, Value.Plain.int]
  obtain ⟨value, ok, iterates⟩ := (each_iterates empty).1 items plain
  refine ⟨plain, value, ok, ?_, ?_⟩
  · rw [iterates.renders (info counts) ⟨counts, ""⟩ rfl rfl 6]
    cbv
  · let context : Context Stock :=
      (Context.empty.push (Filter.position 1 2 none)).push (.list [.int 1, .int 2])
    have second : ((info calls).context.atItems (items.map fun item => (none, item)))[1]? =
        some context := by
      simp [Context.atItems, items, info, context]
    have fails : (Expression.call (.name "f") [.top]).evaluate context =
        .error (.missingFilter "f") := by
      cbv
    have failed : (empty.render 6 calls context).result = .error (.error
        (.evaluation tag.describe (RenderError.missingFilter "f").message)) := by
      simp only [render, Runner.document, run, Runner.append, Runner.nodes, List.foldlM,
        Runner.node, Runner.tag, calls, fails]
      rfl
    apply iterates.fails (info calls) ⟨calls, ""⟩ rfl rfl 6 1 _ _ second failed
    intro earlier before other found
    obtain rfl := Nat.lt_one_iff.mp before
    cases found
    exact ⟨⟨"", .html⟩, by cbv⟩

end Store

end Stencil
