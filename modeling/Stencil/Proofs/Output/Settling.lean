import Mathlib
import Stencil.Proofs.Inheritance.Nesting
import Stencil.Proofs.Output.Faults
import Stencil.Proofs.Output.Isolation

namespace Stencil

open Run (Settles)

variable {κ : Type} [Host κ] {store : Store} {document : Document} {context : Context κ}
  {info : Info κ}

def Content.Settles (κ : Type) [Host κ] (store : Store) (frames : List Frame)
    (document : Document) : Prop :=
  ∀ (host : ContentType) (output : String) (context : Context κ), context.Tame →
    context.frames = frames → Run.Settles fun depth =>
      store.run depth (.append host output document context)

structure Info.Settles (store : Store) (info : Info κ) : Prop where
  context : info.context.Tame
  content : ∀ content ∈ info.content?, content.document.Settles κ store info.context.frames

def Judgment.settles (κ : Type) : Judgment κ Nat where
  Holds := Run.Settles
  done := .pure
  andThen := .bind

namespace Store

def settling (store : Store) : Discipline κ Nat :=
  .uniform (.settles κ) (fun _ => store) Context.Tame
    (fun context document => document.Settles κ store context.frames)
    (fun value => ∀ info : Info κ, info.Settles store →
      Settles fun depth => store.run depth (.value value info))
    Value.Tame (fun _ => False) fun _ => True

theorem settling_sound (store : Store) : (store.settling : Discipline κ Nat).Sound :=
  Discipline.uniform_sound (.of_forall fun _ => trivial) (fun tame part => tame.push part) id

theorem settling_keeps (store : Store) :
    (store.settling : Discipline κ Nat).Keeps fun depth => store.run depth where
  append := by
    rintro _ _ host output ⟨document, context, rfl, rfl, tame, settles⟩ -
    exact ⟨settles host output context tame rfl,
      fun _ _ ok => ⟨contentType_of_append ok, trivial⟩⟩
  value := by
    rintro _ _ ⟨value, rfl, settles⟩ ⟨info, rfl, around⟩
    exact ⟨settles info ⟨around.1, around.2⟩, fun _ _ _ => ⟨trivial, nofun⟩⟩

theorem settling_tags (store : Store) :
    (store.settling : Discipline κ Nat).Tags fun depth => store.run depth := by
  apply Discipline.tags_of_hookless
  rintro _ ⟨info, rfl, tame, -⟩ _
  exact ⟨tame.wills_eq, tame.dids_eq⟩

theorem settling_values {value : Value κ} (tame : value.Tame) :
    (store.settling : Discipline κ Nat).values fun _ => value := by
  -- By induction on the value: a value settles where its parts do.
  have settles {value : Value κ} (opens : store.settling.Opens value) :
      (store.settling : Discipline κ Nat).values fun _ => value := by
    refine ⟨value, rfl, fun info around => .succ ?_⟩
    exact (Discipline.value_yields (settling_sound store) (settling_keeps store) opens
      ⟨info, rfl, around.context, around.content⟩).holds
  have whole := tame
  induction tame with
  | list parts ih =>
      exact settles (.list (fun item member => ih item member (parts item member))
        (.inr (.fail _)) whole)
  | item position part _ ih => exact settles (.item rfl position (ih part) id)
  | escaped part ih => exact settles (.escaped rfl (ih part) id)
  | each | escape => exact settles (.wrapper rfl nofun False.elim whole)
  | _ => exact settles (.scalar rfl whole)

theorem settling_evaluates (expression : Expression) (tame : info.context.Tame) :
    store.settling.Evaluates expression fun _ => info := by
  cases evaluated : expression.evaluate info.context with
  | error error => exact .error (fun _ => evaluated) (.fail _)
  | ok value =>
      have replaced : replaced info.element info.context.wills value = value := by
        rw [tame.wills_eq]
        rfl
      refine .ok (fun _ => evaluated) ?_ fun _ => congrArg Value.truth replaced
      simp only [replaced]
      exact settling_values (expression.evaluate_tame tame evaluated)

theorem append_settles
    (nodes : ∀ node ∈ document.nodes,
      store.settling.Nodes document.contentType (fun _ => context) fun _ => node)
    (host : ContentType) (output : String) :
    Settles fun depth => store.run depth (.append host output document context) := by
  apply Settles.succ
  exact (Discipline.append_yields (settling_sound store) (settling_keeps store)
    (settling_tags store) (fun _ => rfl) (.of_forall nodes) trivial).holds

theorem Bounded.settles {place : Document × List Frame} (bounded : store.Bounded place)
    {frames : List Frame} (alike : store.Interchangeable frames place.2) :
    place.1.Settles κ store frames := by
  induction bounded generalizing frames with
  | intro place _ ih =>
      rintro host output context tame rfl
      refine append_settles (fun node member => ?_) host output
      have nested {inner : Document × List Frame} (nested : inner ∈ node.nested store place.2)
          {frames : List Frame} (alike : store.Interchangeable frames inner.2) :
          inner.1.Settles κ store frames :=
        ih inner (List.mem_flatMap.mpr ⟨node, member, nested⟩) alike
      cases node with
      | text string => exact .text fun _ _ => trivial
      | variableTag tag expression escapes =>
          exact .tag (fun _ => rfl) ⟨_, rfl, tame, nofun⟩ (settling_evaluates expression tame)
            fun _ _ _ _ _ => trivial
      | sectionTag tag expression inverted body source =>
          have body_ : body.Settles κ store context.frames :=
            nested (List.mem_singleton_self _) alike
          exact .tag (fun _ => rfl) ⟨_, rfl, tame, by simpa using body_⟩
            (settling_evaluates expression tame) fun _ _ _ _ _ => trivial
      | blockTag name body =>
          have resolved : (store.resolve place.2 name body).Settles κ store context.frames :=
            nested (List.mem_singleton_self _) alike
          rw [← alike.resolve_eq] at resolved
          exact .blockTag ⟨_, context, rfl, rfl, tame, resolved⟩
      | partialTag name target =>
          exact .partialTag ⟨_, context, rfl, rfl, tame, nested (List.mem_singleton_self _) alike⟩
      | inheritTag name parent overriding =>
          have parent_ := nested (List.mem_singleton_self _) (alike.onto ⟨parent, overriding⟩)
          exact .inheritTag ⟨_, _, rfl, rfl, tame.pushFrame _, parent_⟩

theorem render_settles (bounded : store.Bounded (document, context.frames)) (tame : context.Tame) :
    Settles fun depth => store.render depth document context :=
  bounded.settles (fun _ _ => rfl) _ _ context tame rfl

def Quiet (store : Store) (document : Document) : Prop :=
  ∀ other, store.Shows document [] other → ∀ tag expression, ¬ other.Evaluates tag expression

theorem nodes_exhausted {run : Runner κ} {host : ContentType} {nodes : List Node} {node : Node}
    (sound : ∀ output, ∀ node ∈ nodes, ∀ error,
      (run.node store host context output node).result ≠ .error (.error error))
    (member : node ∈ nodes)
    (exhausted : ∀ output, (run.node store host context output node).result = .error .exhausted)
    (output : String) :
    (run.nodes store host context nodes output).result = .error .exhausted := by
  unfold Runner.nodes
  induction nodes generalizing output with
  | nil => cases member
  | cons first nodes ih =>
      rw [List.foldlM_cons]
      cases result : (run.node store host context output first).result with
      | ok written =>
          rw [Run.result_bind_of_ok result]
          rcases List.mem_cons.mp member with rfl | member
          · cases (exhausted output).symm.trans result
          · exact ih (fun output node member => sound output node (by simp [member])) member written
      | error halt =>
          cases halt with
          | exhausted => exact Run.result_bind_of_error result
          | error error => exact absurd result (sound output first (by simp) error)

theorem append_exhausted {run : Runner κ}
    (nodes : ∀ output, (run.nodes store document.contentType context document.nodes output).result =
      .error .exhausted)
    (host : ContentType) (output : String) :
    (run.append store host output document context).result = .error .exhausted := by
  unfold Runner.append
  split
  · rename_i same
    subst same
    exact Run.result_bind_of_error (nodes output)
  · exact Run.result_bind_of_error (nodes "")

variable {root : Document}

theorem Quiet.node_sound (quiet : store.Quiet root) (shows : store.Shows root [] document)
    (among : context.Among store (store.Shows root []) Value.Steady) (depth : Nat)
    {node : Node} (member : node ∈ document.nodes) (output : String) (error : RenderError) :
    ((store.run depth).node store document.contentType context output node).result ≠
      .error (.error error) := by
  intro failed
  have hereditary : store.Hereditary (store.Shows root []) := fun _ _ shows => shows.uses
  have allows := Realm.steady_allows (κ := κ) hereditary
  have tags := Realm.steady_tags (κ := κ) hereditary
  have keeps := Discipline.keeps_run allows.walks tags depth
  have raised : RaisedIn κ (store.Shows root []) error :=
    (Discipline.node_yields (Realm.sound allows.toGood) keeps (tags depth)
      (allows.nodes shows among member) trivial).holds error failed
  obtain ⟨other, shows, @⟨tag, expression, _, _, evaluates, -, -⟩⟩ := raised
  exact quiet other shows tag expression evaluates

theorem exhausted_of_not_bounded (quiet : store.Quiet root) {place : Document × List Frame}
    (arises : store.Arises root place) (unbounded : ¬ store.Bounded place)
    (among : context.Among store (store.Shows root []) Value.Steady)
    (alike : store.Interchangeable context.frames place.2) (depth : Nat) (host : ContentType)
    (output : String) :
    (store.run depth (.append host output place.1 context)).result = .error .exhausted := by
  induction depth generalizing place context host output with
  | zero => rfl
  | succ depth ih =>
      obtain ⟨inner, nests, unbounded⟩ : ∃ inner, store.Nests place inner ∧ ¬ store.Bounded inner := by
        by_contra! all
        exact unbounded ⟨place, all⟩
      have within := arises.nests nests
      obtain ⟨node, member, nested⟩ := List.mem_flatMap.mp nests
      apply append_exhausted
      apply nodes_exhausted (fun output node member =>
        quiet.node_sound arises.shows among depth member output) member
      intro output
      cases node with
      | sectionTag => exact absurd (.sectionTag member) (quiet _ arises.shows _ _)
      | blockTag name body =>
          obtain rfl := List.mem_singleton.mp nested
          have resolved := ih within unbounded among alike place.1.contentType output
          rw [← alike.resolve_eq] at resolved
          exact Run.result_bind_of_error resolved
      | partialTag name target =>
          obtain rfl := List.mem_singleton.mp nested
          exact Run.result_bind_of_error (ih within unbounded among alike _ output)
      | inheritTag name parent overriding =>
          obtain rfl := List.mem_singleton.mp nested
          let frame : Frame := ⟨parent, overriding⟩
          have shows : store.Shows root [] (store.get frame.parent) ∧
              store.Shows root [] (store.get frame.overriding) :=
            ⟨arises.shows.uses (.parent member), arises.shows.uses (.overriding member)⟩
          have among := among.pushFrame shows.1 shows.2
          have alike := alike.onto frame
          exact Run.result_bind_of_error (ih within unbounded among alike _ output)
      | _ => cases nested

theorem render_exhausted (plain : context.Each Value.Plain) (outermost : context.frames = [])
    (quiet : store.Quiet document) (recurs : store.Recurs document) (depth : Nat) :
    (store.render depth document context).result = .error .exhausted := by
  have among : context.Among store (store.Shows document []) Value.Steady :=
    ⟨plain.mono Value.Plain.steady, by simp [outermost]⟩
  have unbounded : ¬ store.Bounded (document, []) := fun bounded => bounded.not_recurs recurs
  have alike : store.Interchangeable context.frames [] := fun _ _ => by rw [outermost]
  exact exhausted_of_not_bounded quiet (arises_of_nests .refl) unbounded among alike depth _ _

end Store

end Stencil
