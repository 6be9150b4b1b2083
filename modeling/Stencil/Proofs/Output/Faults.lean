import Stencil.Proofs.Output.Realm
import Stencil.Stock

namespace Stencil

variable {κ : Type}

/-- What can be an item of a list, or stand in a context. -/
inductive Value.Steady : Value κ → Prop
  | null : Steady .null
  | bool {b : Bool} : Steady (.bool b)
  | int {i : Int} : Steady (.int i)
  | float {x : Double} : Steady (.float x)
  | text {string : String} : Steady (.text string)
  | list {items : List (Value κ)} : (∀ item ∈ items, Steady item) → Steady (.list items)
  | map {entries : Dictionary (Value κ)} : (∀ entry ∈ entries.toList, Steady entry.2) →
      Steady (.map entries)
  | each {identity : Nat} : Steady (.custom identity none { filter := some .each })
  | escape {identity : Nat} : Steady (.custom identity none { filter := some .escape })
  | item {position item : Value κ} : Steady position → Steady item →
      Steady (.rendering (.item position item))

inductive Value.Result : Value κ → Prop
  | steady {value : Value κ} : value.Steady → Result value
  | escaped {value : Value κ} : Result value → Result (.rendering (.escaped value))

namespace Value

variable {value : Value κ}

theorem Plain.steady (plain : value.Plain) : value.Steady := by
  induction plain with
  | list _ ih => exact .list ih
  | map _ ih => exact .map ih
  | _ => constructor

theorem Steady.tame (steady : value.Steady) : value.Tame := by
  induction steady with
  | list _ ih => exact .list ih
  | map _ ih => exact .map ih
  | item _ _ position item => exact .item position item
  | _ => constructor

theorem Result.bounded : Value.Bounded (Steady : Value κ → Prop) Result where
  plain := Plain.steady
  whole := .steady
  items result := by
    cases result with
    | steady steady =>
        cases steady
        assumption
  entries result := by
    cases result with
    | steady steady =>
        cases steady
        assumption
  custom result := by
    cases result with
    | steady steady => cases steady <;> simp
    | escaped => simp

theorem Result.closed [Functions κ] : Value.Closed (Steady : Value κ → Prop) Result :=
  bounded.closed .list .item .escaped

end Value

def Expression.calls : Expression → Bool
  | .top | .name _ => false
  | .key base _ => base.calls
  | .call _ _ => true

theorem Expression.evaluate_of_not_calls [Functions κ] (context : Context κ) :
    (expression : Expression) → expression.calls = false →
    ∃ value, expression.evaluate context = .ok value
  | .top, _ => ⟨context.top, by rw [evaluate]⟩
  | .name identifier, _ => ⟨context.lookup identifier, by rw [evaluate]⟩
  | .key base identifier, free => by
    obtain ⟨value, found⟩ := evaluate_of_not_calls context base (by simpa [calls] using free)
    refine ⟨value.lookup identifier, ?_⟩
    rw [evaluate, found]
    rfl

/-- The error of a tag whose expression calls a filter, and has no value in some context. -/
inductive Content.Blames (κ : Type) [Functions κ] (document : Document) : RenderError → Prop
  | evaluation {tag : Tag} {expression : Expression} {context : Context κ} {reason : RenderError} :
      document.Evaluates tag expression → expression.calls = true →
      expression.evaluate context = .error reason →
      Blames κ document (.evaluation tag.describe reason.message)

def RaisedIn (κ : Type) [Functions κ] (documents : Document → Prop) (error : RenderError) : Prop :=
  ∃ document, documents document ∧ document.Blames κ error

def Judgment.fails {κ : Type} (E : RenderError → Prop) : Judgment κ Unit where
  Holds runs := ∀ error, (runs ()).result = .error (.error error) → E error
  done _ := nofun
  andThen {α β runs next} first rest error failed := by
    cases result : (runs ()).result with
    | ok a =>
        apply rest a ⟨(), result⟩ error
        rwa [Run.result_bind_of_ok result] at failed
    | error halt =>
        rw [Run.result_bind_of_error result] at failed
        cases failed
        exact first error result

variable [Host κ] {store : Store} {documents : Document → Prop} {document : Document}
  {context : Context κ}

def Realm.steady (κ : Type) [Host κ] (hereditary : store.Hereditary documents) : Realm κ Unit :=
  .ofTame hereditary Value.Result.closed Value.Steady.tame

theorem Realm.steady_allows (hereditary : store.Hereditary documents) :
    (Realm.steady κ hereditary).Allows (.fails (RaisedIn κ documents)) Value.Steady
      (fun _ => True) where
  toGood := .of_forall fun _ => trivial
  texts _ _ _ := trivial
  raws _ _ _ _ _ _ := trivial
  fails {document tag expression error context} here evaluates _ failed := by
    rintro _ ⟨⟩
    refine ⟨document, here, .evaluation evaluates ?_ failed⟩
    by_contra none
    obtain ⟨value, found⟩ := expression.evaluate_of_not_calls context
      (Bool.eq_false_of_not_eq_true none)
    rw [found] at failed
    cases failed
  opens result := by
    cases result with
    -- What HTMLEscape makes has a content type of its own, but it is never an item.
    | escaped result => exact .escaped rfl ⟨_, rfl, result⟩ nofun
    | steady steady =>
        have whole := steady
        cases steady with
        | list items =>
            exact .list (fun item member => ⟨item, rfl, .steady (items item member)⟩) (.inl items) whole
        | item position item => exact .item rfl position ⟨_, rfl, .steady item⟩ fun _ => item
        | each | escape => exact .wrapper rfl nofun nofun whole
        | _ => exact .scalar rfl whole
  exhausted := nofun

theorem Realm.steady_tags (hereditary : store.Hereditary documents) (depth : Nat) :
    ((Realm.steady κ hereditary).discipline (.fails (RaisedIn κ documents)) Value.Steady
      fun _ => True).Tags fun _ => store.run depth :=
  Realm.tags_of_tame Value.Steady.tame

theorem Store.render_faults (plain : context.Each Value.Plain) {depth : Nat} {error : RenderError}
    (failed : (store.render depth document context).result = .error (.error error)) :
    ∃ other tag expression inner reason, store.Shows document context.frames other ∧
      other.Evaluates tag expression ∧ expression.calls = true ∧
      expression.evaluate (inner : Context κ) = .error reason ∧
      error = .evaluation tag.describe reason.message := by
  have hereditary : store.Hereditary (store.Shows document context.frames) :=
    fun _ _ shows => shows.uses
  have steady : context.Among store (store.Shows document context.frames) Value.Steady :=
    ⟨plain.mono Value.Plain.steady, fun frame member => ⟨.parent member, .overriding member⟩⟩
  have allows := Realm.steady_allows (κ := κ) hereditary
  have yields := allows.render_yields (Realm.steady_tags hereditary) .whole steady depth
  obtain ⟨other, shows, @⟨tag, expression, inner, reason, evaluates, calls, found⟩⟩ :=
    yields.holds error failed
  exact ⟨other, tag, expression, inner, reason, shows, evaluates, calls, found, rfl⟩

theorem Store.render_faults_number :
    let tag : Tag := ⟨"\x7b\x7beach(x)\x7d\x7d", ⟨1, none⟩, .braces⟩
    let document : Document := ⟨.html, [.variableTag tag (.call (.name "each") [.name "x"]) true]⟩
    let context : Context Stock :=
      (Context.empty.push (.standardFilters 0)).push (.ofPairs [("x", .int 3)])
    let error : RenderError :=
      .evaluation tag.describe "Non-enumerable argument in each filter: Int(3)"
    context.Each Value.Plain ∧
      (Store.empty.render 1 document context).result = .error (.error error) ∧
      ∃ other tag expression inner reason, Store.empty.Shows document context.frames other ∧
        other.Evaluates tag expression ∧ expression.calls = true ∧
        expression.evaluate (inner : Context Stock) = .error reason ∧
        error = .evaluation tag.describe reason.message := by
  intro tag document context error
  have data : (Value.ofPairs [("x", .int 3)] : Value Stock).Plain :=
    .ofPairs (by simp [Value.Plain.int])
  have plain := (Context.Each.empty.push (Value.standardFilters_plain 0)).push data
  have fails : (Expression.call (.name "each") [.name "x"]).evaluate context =
      .error (.nonEnumerable "Int(3)") := by
    cbv
  have failed : (Store.empty.render 1 document context).result = .error (.error error) := by
    simp only [render, Runner.document, run, Runner.append, Runner.nodes, List.foldlM,
      Runner.node, Runner.tag, document, fails]
    rfl
  exact ⟨plain, failed, Store.render_faults plain failed⟩

end Stencil
