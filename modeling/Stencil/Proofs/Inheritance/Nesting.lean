import Mathlib
import Stencil.Proofs.Inheritance.Resolution

/-!
# How deep rendering nests

A document brings in bodies and templates finitely deep, but a block renders with what an inherited
template offers for it, and that may have blocks of its own. A frame counts once, where it stands
innermost (`Store.Interchangeable.onto`), so that finitely many documents render, under finitely many
stacks of frames. Rendering nests finitely deep unless what overrides a block comes up inside itself
(`Store.bounded_iff`).
-/

namespace Stencil

open Relation (ReflTransGen TransGen)

/-! ## Ways that end -/

section

variable {α : Type} {r : α → α → Prop} {s : Set α}

theorem acc_of_acyclic (finite : s.Finite) (within : ∀ {a b}, r a b → b ∈ s)
    (acyclic : ∀ a, ¬ TransGen r a a) (a : α) : Acc (flip r) a := by
  have trans : IsTrans α (flip (TransGen r)) := ⟨fun _ _ _ first second => second.trans first⟩
  have irrefl : Std.Irrefl (flip (TransGen r)) := ⟨acyclic⟩
  have order : IsStrictOrder α (flip (TransGen r)) := {}
  have inside : ∀ b ∈ s, Acc (flip r) b := by
    intro b member
    refine (finite.wellFoundedOn (r := flip (TransGen r))).induction member ?_
    intro b _ ih
    exact ⟨b, fun c step => ih c (within step) (.single step)⟩
  exact ⟨a, fun b step => inside b (within step)⟩

theorem not_transGen_of_acc {a : α} (acc : Acc (flip r) a) : ¬ TransGen r a a := by
  induction acc with
  | intro a _ ih =>
      intro cycle
      obtain ⟨b, step, back⟩ := TransGen.head'_iff.mp cycle
      exact ih b step (.tail' back step)

theorem finite_nodup (finite : s.Finite) : {as : List α | as.Nodup ∧ ∀ a ∈ as, a ∈ s}.Finite := by
  classical
  have := finite.fintype
  refine (Set.finite_range fun as : {as : List s // as.Nodup} => as.1.map Subtype.val).subset ?_
  rintro as ⟨nodup, within⟩
  refine ⟨⟨as.attachWith (· ∈ s) within, ?_⟩, by simp⟩
  exact List.Nodup.of_map Subtype.val (by simpa using nodup)

end

/-! ## What a document brings in -/

def Node.used (store : Store) : Node → List Document
  | .sectionTag _ _ _ body _ => [body]
  | .blockTag _ body => [body]
  | .partialTag _ target => [store.get target]
  | .inheritTag _ parent overriding => [store.get parent, store.get overriding]
  | _ => []

def Node.frame? : Node → Option Frame
  | .inheritTag _ parent overriding => some ⟨parent, overriding⟩
  | _ => none

theorem Content.Uses.mem_used {store : Store} {document other : Document}
    (uses : document.Uses store other) : other ∈ document.nodes.flatMap (Node.used store) := by
  rw [List.mem_flatMap]
  cases uses with
  | sectionTag member => exact ⟨_, member, by simp [Node.used]⟩
  | blockTag member => exact ⟨_, member, by simp [Node.used]⟩
  | partialTag member => exact ⟨_, member, by simp [Node.used]⟩
  | parent member => exact ⟨_, member, by simp [Node.used]⟩
  | overriding member => exact ⟨_, member, by simp [Node.used]⟩

namespace Store

variable {store : Store} {document other : Document}

/-- A document brings in documents, and these bring in others, finitely deep. -/
def Ends (store : Store) (document : Document) : Prop :=
  Acc (flip (Content.Uses store)) document

theorem Shows.ends (ends : store.Ends document) (shows : store.Shows document [] other) :
    store.Ends other := by
  induction shows with
  | whole => exact ends
  | parent member => cases member
  | overriding member => cases member
  | uses _ uses ih => exact ih.inv uses

theorem Shows.cases_head (shows : store.Shows document [] other) :
    other = document ∨ ∃ middle, document.Uses store middle ∧ store.Shows middle [] other := by
  induction shows with
  | whole => exact .inl rfl
  | parent member => cases member
  | overriding member => cases member
  | uses _ uses ih =>
      rcases ih with rfl | ⟨middle, first, shows⟩
      · exact .inr ⟨_, uses, .whole⟩
      · exact .inr ⟨middle, first, shows.uses uses⟩

theorem Shows.mem {documents : List Document}
    (closed : ∀ document ∈ documents, ∀ other ∈ document.nodes.flatMap (Node.used store),
      other ∈ documents)
    (member : document ∈ documents) (shows : store.Shows document [] other) :
    other ∈ documents := by
  induction shows with
  | whole => exact member
  | parent member => cases member
  | overriding member => cases member
  | uses _ uses ih => exact closed _ ih _ uses.mem_used

theorem finite_shows (ends : store.Ends document) :
    {other | store.Shows document [] other}.Finite := by
  induction ends with
  | intro document _ ih =>
      have used : {middle | document.Uses store middle}.Finite :=
        (List.finite_toSet _).subset fun middle uses => uses.mem_used
      refine ((used.biUnion ih).insert document).subset fun other shows => ?_
      rcases Shows.cases_head shows with rfl | ⟨middle, uses, rest⟩
      · exact Set.mem_insert _ _
      · exact Set.mem_insert_of_mem _ (Set.mem_biUnion uses rest)

def Inherits (store : Store) (document : Document) (frame : Frame) : Prop :=
  ∃ other name, store.Shows document [] other ∧
    .inheritTag name frame.parent frame.overriding ∈ other.nodes

theorem finite_inherits (ends : store.Ends document) :
    {frame | store.Inherits document frame}.Finite := by
  have here (other : Document) : {frame | frame ∈ other.nodes.filterMap Node.frame?}.Finite :=
    List.finite_toSet _
  refine ((finite_shows ends).biUnion fun other _ => here other).subset ?_
  rintro frame ⟨other, name, shows, member⟩
  exact Set.mem_biUnion shows (List.mem_filterMap.mpr ⟨_, member, rfl⟩)

theorem Inherits.exists_block {frame : Frame} {block : Block} {body : Document}
    (inherits : store.Inherits document frame)
    (offered : (store.offer? block frame).map Block.body = some body) :
    ∃ other, store.Shows document [] other ∧ .blockTag block.name body ∈ other.nodes := by
  obtain ⟨other, _, shows, member⟩ := inherits
  exact exists_of_offer? (fun _ _ shows => shows.uses) (shows.uses (.parent member))
    (shows.uses (.overriding member)) offered

end Store

/-! ## Frames that come up again -/

def Frame.onto (frame : Frame) (frames : List Frame) : List Frame :=
  frame :: frames.filter (· ≠ frame)

namespace Store

variable {store : Store} {frame : Frame} {frames frames' : List Frame} {used : List Ref}

def Interchangeable (store : Store) (frames frames' : List Frame) : Prop :=
  ∀ used block, store.resolveIn frames used block = store.resolveIn frames' used block

theorem Interchangeable.resolve_eq (alike : store.Interchangeable frames frames') (name : String)
    (body : Document) : store.resolve frames name body = store.resolve frames' name body :=
  congrArg Block.body (alike [] ⟨name, body⟩)

theorem resolveIn_filter {block : Block}
    (spent : frame.parent ∈ used ∨ store.offers block.name frame = []) :
    store.resolveIn (frames.filter (· ≠ frame)) used block =
      store.resolveIn frames used block := by
  induction frames generalizing used block with
  | nil => rfl
  | cons next frames ih =>
      by_cases same : next = frame
      · subst same
        have left : store.resolveIn (next :: frames) used block =
            store.resolveIn frames used block := by
          rcases spent with asked | none
          · simp [resolveIn, asked]
          · simp [resolveIn, offer?_eq, none]
        rw [left, List.filter_cons_of_neg (by simp)]
        exact ih spent
      · rw [List.filter_cons_of_pos (by simpa using same), resolveIn, resolveIn]
        split
        · exact ih spent
        · split
          · rename_i offered
            apply ih
            rw [name_of_offer? offered]
            exact spent.imp_left (List.mem_cons_of_mem _)
          · exact ih spent

theorem Interchangeable.onto (alike : store.Interchangeable frames frames') (frame : Frame) :
    store.Interchangeable (frame :: frames) (frame.onto frames') := by
  intro used block
  rw [Frame.onto, resolveIn, resolveIn]
  split
  · rename_i asked
    rw [resolveIn_filter (.inl asked)]
    exact alike used block
  · split
    · rw [resolveIn_filter (.inl List.mem_cons_self)]
      exact alike _ _
    · rename_i none
      rw [offer?_eq, List.getLast?_eq_none_iff] at none
      rw [resolveIn_filter (.inr none)]
      exact alike used block

end Store

/-! ## Places -/

/-- What renders in the place of a node, and under which frames. Whether a section renders is left to
the data. -/
def Node.nested (store : Store) (frames : List Frame) : Node → List (Document × List Frame)
  | .sectionTag _ _ _ body _ => [(body, frames)]
  | .blockTag name body => [(store.resolve frames name body, frames)]
  | .partialTag _ target => [(store.get target, frames)]
  | .inheritTag _ parent overriding => [(store.get parent, Frame.onto ⟨parent, overriding⟩ frames)]
  | _ => []

namespace Store

def nested (store : Store) (place : Document × List Frame) : List (Document × List Frame) :=
  place.1.nodes.flatMap (Node.nested store place.2)

def Nests (store : Store) (outer inner : Document × List Frame) : Prop :=
  inner ∈ store.nested outer

def Bounded (store : Store) (place : Document × List Frame) : Prop :=
  Acc (flip store.Nests) place

def Overrides (store : Store) (place : Document × List Frame) : Prop :=
  ∃ block, ∃ frame ∈ place.2, (store.offer? block frame).map Block.body = some place.1

/-- What overrides a block comes up inside itself, under the same frames. -/
def Recurs (store : Store) (root : Document) : Prop :=
  ∃ place, ReflTransGen store.Nests (root, []) place ∧ store.Overrides place ∧
    TransGen store.Nests place place

structure Stacks (store : Store) (root : Document) (frames : List Frame) : Prop where
  inherits : ∀ frame ∈ frames, store.Inherits root frame
  nodup : frames.Nodup

structure Arises (store : Store) (root : Document) (place : Document × List Frame) : Prop where
  shows : store.Shows root [] place.1
  frames : store.Stacks root place.2

variable {store : Store} {root : Document} {outer inner place : Document × List Frame}

theorem Nests.cases (nests : store.Nests outer inner) :
    outer.1.Uses store inner.1 ∨ store.Overrides inner := by
  obtain ⟨node, member, nested⟩ := List.mem_flatMap.mp nests
  cases node with
  | sectionTag =>
      obtain rfl := List.mem_singleton.mp nested
      exact .inl (.sectionTag member)
  | blockTag name body =>
      obtain rfl := List.mem_singleton.mp nested
      rcases store.resolve_cases outer.2 name body with same | ⟨frame, here, offered⟩
      · left
        rw [same]
        exact .blockTag member
      · exact .inr ⟨⟨name, body⟩, frame, here, offered⟩
  | partialTag =>
      obtain rfl := List.mem_singleton.mp nested
      exact .inl (.partialTag member)
  | inheritTag =>
      obtain rfl := List.mem_singleton.mp nested
      exact .inl (.parent member)
  | _ => cases nested

theorem Arises.nests (arises : store.Arises root outer) (nests : store.Nests outer inner) :
    store.Arises root inner := by
  have frames : store.Stacks root inner.2 := by
    obtain ⟨node, member, nested⟩ := List.mem_flatMap.mp nests
    cases node with
    | inheritTag name parent overriding =>
        obtain rfl := List.mem_singleton.mp nested
        have here : store.Inherits root ⟨parent, overriding⟩ := ⟨_, name, arises.shows, member⟩
        refine ⟨List.forall_mem_cons.mpr ⟨here, fun frame member => ?_⟩,
          List.nodup_cons.mpr ⟨by simp, arises.frames.nodup.filter _⟩⟩
        exact arises.frames.inherits frame (List.mem_of_mem_filter member)
    | sectionTag | blockTag | partialTag =>
        obtain rfl := List.mem_singleton.mp nested
        exact arises.frames
    | _ => cases nested
  refine ⟨?_, frames⟩
  rcases nests.cases with uses | ⟨block, frame, here, offered⟩
  · exact arises.shows.uses uses
  · obtain ⟨other, shows, member⟩ := (frames.inherits frame here).exists_block offered
    exact shows.uses (.blockTag member)

theorem arises_of_nests (nests : ReflTransGen store.Nests (root, []) place) :
    store.Arises root place := by
  induction nests with
  | refl => exact ⟨.whole, by simp, .nil⟩
  | tail _ step ih => exact ih.nests step

theorem finite_arises (ends : store.Ends root) : {place | store.Arises root place}.Finite := by
  have finite := (finite_shows ends).prod (finite_nodup (finite_inherits ends))
  exact finite.subset fun place arises =>
    ⟨arises.shows, arises.frames.nodup, arises.frames.inherits⟩

theorem cases_nested (nested : TransGen store.Nests outer inner) :
    TransGen (Content.Uses store) outer.1 inner.1 ∨
      ∃ place, TransGen store.Nests outer place ∧ store.Overrides place ∧
        ReflTransGen store.Nests place inner := by
  induction nested with
  | single step =>
      exact step.cases.imp .single fun overrides => ⟨_, .single step, overrides, .refl⟩
  | tail first step ih =>
      rcases ih with uses | ⟨place, before, overrides, after⟩
      · exact step.cases.imp uses.tail fun overrides => ⟨_, first.tail step, overrides, .refl⟩
      · exact .inr ⟨place, before, overrides, after.tail step⟩

theorem recurs_of_cycle (ends : store.Ends root) (nests : ReflTransGen store.Nests (root, []) place)
    (cycle : TransGen store.Nests place place) : store.Recurs root := by
  rcases cases_nested cycle with uses | ⟨other, before, overrides, after⟩
  · exact absurd uses (not_transGen_of_acc ((arises_of_nests nests).shows.ends ends))
  · exact ⟨other, nests.trans before.to_reflTransGen, overrides, .trans_right after before⟩

theorem Bounded.of_nested (nested : store.nested outer = [inner]) (bounded : store.Bounded inner) :
    store.Bounded outer := by
  refine ⟨outer, fun other nests => ?_⟩
  have member : other ∈ [inner] := by
    rw [← nested]
    exact nests
  obtain rfl := List.mem_singleton.mp member
  exact bounded

theorem Bounded.not_recurs (bounded : store.Bounded (root, [])) : ¬ store.Recurs root := by
  rintro ⟨place, nests, -, cycle⟩
  have here : store.Bounded place := by
    clear cycle
    induction nests with
    | refl => exact bounded
    | tail _ step ih => exact ih.inv step
  exact not_transGen_of_acc here cycle

theorem bounded_iff (ends : store.Ends root) : store.Bounded (root, []) ↔ ¬ store.Recurs root := by
  refine ⟨Bounded.not_recurs, fun not => ?_⟩
  -- The places that come up are finitely many, and no cycle leads through any of them.
  let within (outer inner : Document × List Frame) : Prop :=
    ReflTransGen store.Nests (root, []) outer ∧ store.Nests outer inner
  have acyclic (place : Document × List Frame) : ¬ TransGen within place place := by
    intro cycle
    obtain ⟨_, ⟨nests, -⟩, -⟩ := TransGen.head'_iff.mp cycle
    exact not (recurs_of_cycle ends nests (TransGen.mono (fun _ _ step => step.2) _ _ cycle))
  have acc : Acc (flip within) (root, []) :=
    acc_of_acyclic (finite_arises ends)
      (fun step => arises_of_nests (step.1.tail step.2)) acyclic (root, [])
  have bounded {place : Document × List Frame} (acc : Acc (flip within) place)
      (nests : ReflTransGen store.Nests (root, []) place) : store.Bounded place := by
    induction acc with
    | intro place _ ih =>
        exact ⟨place, fun inner step => ih inner ⟨nests, step⟩ (nests.tail step)⟩
  exact bounded acc .refl

end Store

end Stencil
