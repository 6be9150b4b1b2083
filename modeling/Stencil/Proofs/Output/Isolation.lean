import Mathlib
import Stencil.Proofs.Output.Runs
import Stencil.Stock

namespace Stencil

variable {κ : Type}

namespace Rendering

@[simp] theorem within_mk_self (string : String) (contentType : ContentType) :
    (Rendering.mk string contentType).within contentType = string :=
  within_self ⟨string, contentType⟩

theorem within_append (a b : String) (contentType host : ContentType) :
    (Rendering.mk (a ++ b) contentType).within host =
      (Rendering.mk a contentType).within host ++ (Rendering.mk b contentType).within host := by
  cases host with
  | text => rfl
  | html =>
      cases contentType with
      | html => rfl
      | text => exact Text.escape_append a b

theorem within_mk (string : String) (contentType host : ContentType) :
    (Rendering.mk string contentType).within host =
      if host = .html ∧ contentType = .text then Text.escape string else string := by
  cases host <;> cases contentType <;> rfl

def behind (rendering : Rendering) (host : ContentType) (output : String) : Rendering :=
  ⟨output ++ rendering.within host, host⟩

end Rendering

namespace Runner

/-- Documents are rendered into output as they are rendered by themselves. -/
def Appends (run : Runner κ) : Prop :=
  ∀ (host : ContentType) (output : String) (document : Document) (context : Context κ),
    run (.append host output document context) =
      (fun rendering => rendering.behind host output) <$> run.document document context

variable [Host κ] {run : Runner κ}

theorem node_appends (appends : run.Appends) (store : Store) (host : ContentType)
    (context : Context κ) (output : String) (node : Node) :
    run.node store host context output node =
      (fun string => output ++ string) <$> run.node store host context "" node := by
  have inlined (document : Document) (context : Context κ) :
      (do return (← run (.append host output document context)).string) =
        (fun string => output ++ string) <$>
          (do return (← run (.append host "" document context)).string : Run κ String) := by
    rw [appends host output, appends host ""]
    simp [Rendering.behind]
  cases node with
  | text string => simp [Runner.node]
  | variableTag tag expression escapes => simp [Runner.node]
  | sectionTag tag expression inverted body source => simp [Runner.node]
  | blockTag name body => exact inlined _ context
  | partialTag name target => exact inlined _ context
  | inheritTag name parent overriding => exact inlined _ _

theorem nodes_append (run : Runner κ) (store : Store) (host : ContentType) (context : Context κ)
    (first second : List Node) (output : String) :
    run.nodes store host context (first ++ second) output =
      (run.nodes store host context first output >>= run.nodes store host context second) :=
  List.foldlM_append

theorem nodes_appends (appends : run.Appends) (store : Store) (host : ContentType)
    (context : Context κ) (nodes : List Node) (output : String) :
    run.nodes store host context nodes output =
      (fun string => output ++ string) <$> run.nodes store host context nodes "" := by
  induction nodes generalizing output with
  | nil => simp [nodes]
  | cons node rest ih =>
      have later (string : String) :
          run.nodes store host context rest (output ++ string) =
            (fun string => output ++ string) <$> run.nodes store host context rest string := by
        rw [ih (output ++ string), ih string]
        simp [String.append_assoc]
      show (run.node store host context output node >>= run.nodes store host context rest) = _ <$>
        (run.node store host context "" node >>= run.nodes store host context rest)
      rw [node_appends appends]
      simp [later]

theorem append_appends (appends : run.Appends) (store : Store) (host : ContentType)
    (output : String) (document : Document) (context : Context κ) :
    run.append store host output document context =
      (fun rendering => rendering.behind host output) <$>
        run.append store document.contentType "" document context := by
  unfold append
  by_cases same : document.contentType = host
  · subst same
    rw [nodes_appends appends]
    simp [Rendering.behind]
  · simp [same, Rendering.behind]

end Runner

namespace Store

variable [Host κ]

theorem run_appends (store : Store) (depth : Nat) : (store.run depth : Runner κ).Appends := by
  cases depth with
  | zero => exact fun _ _ _ _ => rfl
  | succ depth =>
      intro host output document context
      exact Runner.append_appends (run_appends store depth) store host output document context

theorem render_succ (store : Store) (depth : Nat) (document : Document) (context : Context κ) :
    store.render (depth + 1) document context =
      (fun string => ⟨string, document.contentType⟩) <$>
        (store.run depth).nodes store document.contentType context document.nodes "" := by
  show Runner.append _ _ _ _ _ _ = _
  simp [Runner.append]

theorem contentType_of_render {store : Store} {depth : Nat} {document : Document}
    {context : Context κ} {rendering : Rendering}
    (ok : (store.render depth document context).result = .ok rendering) :
    rendering.contentType = document.contentType := by
  cases depth with
  | zero => cases ok
  | succ depth =>
      rw [render_succ, map_eq_pure_bind] at ok
      obtain ⟨string, -, last⟩ := Run.result_bind ok
      rw [Run.result_pure last]

theorem render_append (store : Store) (depth : Nat) (contentType : ContentType)
    (first second : List Node) (context : Context κ) :
    store.render depth ⟨contentType, first ++ second⟩ context = (do
      let a ← store.render depth ⟨contentType, first⟩ context
      let b ← store.render depth ⟨contentType, second⟩ context
      return ⟨a.string ++ b.string, contentType⟩) := by
  cases depth with
  | zero => rfl
  | succ depth =>
      have behind (string : String) :=
        Runner.nodes_appends (store.run_appends depth) store contentType context second string
      simp only [render_succ, Runner.nodes_append, map_eq_pure_bind, bind_assoc, pure_bind] at behind ⊢
      congr 1
      funext string
      rw [behind]
      simp

/-- A document includes another one over some levels of templates of its own content type. -/
inductive Includes (store : Store) : Nat → Document → Document → Prop
  | self {document : Document} : Includes store 0 document document
  | next {levels : Nat} {document inner : Document} {name : String} {target : Ref}
      {before after : List Node} : document.nodes = before ++ .partialTag name target :: after →
      (store.get target).contentType = document.contentType →
      Includes store levels (store.get target) inner → Includes store (levels + 1) document inner

theorem Includes.contentType_eq {store : Store} {levels : Nat} {document inner : Document}
    (includes : store.Includes levels document inner) :
    inner.contentType = document.contentType := by
  induction includes with
  | self => rfl
  | next _ same _ ih => exact ih.trans same

theorem render_partialTag (store : Store) (depth : Nat) (name : String) (target : Ref)
    (context : Context κ) :
    store.render (depth + 1) ⟨(store.get target).contentType, [.partialTag name target]⟩ context =
      (fun rendering => ⟨rendering.string, (store.get target).contentType⟩) <$>
        store.render depth (store.get target) context := by
  rw [render_succ]
  simp [Runner.nodes, Runner.node, render, Runner.document]

theorem Includes.rendered {store : Store} {levels depth : Nat} {document inner : Document}
    {context : Context κ} {rendering : Rendering} (includes : store.Includes levels document inner)
    (ok : (store.render (depth + levels) document context).result = .ok rendering) :
    ∃ innermost before after, (store.render depth inner context).result = .ok innermost ∧
      rendering.string = before ++ innermost.string ++ after := by
  induction includes generalizing rendering with
  | self => exact ⟨rendering, "", "", ok, by simp⟩
  | @next levels document inner name target before after nodes same includes ih =>
      have split : document =
          ⟨(store.get target).contentType, before ++ ([.partialTag name target] ++ after)⟩ := by
        cases document
        cases nodes
        simp [same]
      rw [split, render_append] at ok
      obtain ⟨first, -, ok⟩ := Run.result_bind ok
      obtain ⟨rest, ok, last⟩ := Run.result_bind ok
      rw [render_append, ← Nat.add_assoc, render_partialTag, map_eq_pure_bind, bind_assoc] at ok
      obtain ⟨included, here, ok⟩ := Run.result_bind ok
      obtain ⟨_, wrapped, ok⟩ := Run.result_bind ok
      obtain ⟨following, -, last'⟩ := Run.result_bind ok
      obtain ⟨innermost, before', after', inside, around⟩ := ih here
      refine ⟨innermost, first.string ++ before', after' ++ following.string, inside, ?_⟩
      rw [Run.result_pure last, Run.result_pure last', Run.result_pure wrapped]
      simp [around, String.append_assoc]

theorem append_isolated (store : Store) (depth : Nat) (context : Context κ) :
    (∀ (host : ContentType) (output : String) (document : Document),
      let inlined := store.run depth (.append host output document context)
      let isolated := store.render depth document context
      inlined.calls = isolated.calls ∧
        inlined.result = isolated.result.map fun rendering =>
          ⟨output ++ if host = .html ∧ document.contentType = .text then
            Text.escape rendering.string else rendering.string, host⟩) ∧
    (∀ (contentType : ContentType) (first second : List Node),
      store.render depth ⟨contentType, first ++ second⟩ context = (do
        let a ← store.render depth ⟨contentType, first⟩ context
        let b ← store.render depth ⟨contentType, second⟩ context
        return ⟨a.string ++ b.string, contentType⟩)) ∧
    ∀ (host : ContentType) (output : String) (levels : Nat) (document inner : Document)
      (rendering : Rendering), store.Includes levels document inner →
      (store.run (depth + levels) (.append host output document context)).result = .ok rendering →
      ∃ innermost before after, (store.render depth inner context).result = .ok innermost ∧
        rendering.string = output ++ before ++
          (if host = .html ∧ inner.contentType = .text then
            Text.escape innermost.string else innermost.string) ++ after := by
  refine ⟨?_, fun type first second => store.render_append depth type first second context, ?_⟩
  · intro host output document inlined isolated
    have appends : inlined = (fun rendering => rendering.behind host output) <$> isolated :=
      store.run_appends depth host output document context
    refine ⟨by rw [appends, Run.calls_map], ?_⟩
    rw [appends, Run.result_map]
    cases result : isolated.result with
    | error halt => rfl
    | ok rendering =>
        obtain ⟨string, contentType⟩ := rendering
        have same : contentType = document.contentType := contentType_of_render result
        simp [Except.map, Rendering.behind, Rendering.within_mk, same]
  · intro host output levels document inner rendering includes ok
    rw [store.run_appends (depth + levels), map_eq_pure_bind] at ok
    obtain ⟨whole, ok, last⟩ := Run.result_bind ok
    obtain ⟨innermost, before, after, inside, around⟩ := includes.rendered ok
    have same := contentType_of_render ok
    obtain ⟨string, contentType⟩ := whole
    refine ⟨innermost, (Rendering.mk before contentType).within host,
      (Rendering.mk after contentType).within host, inside, ?_⟩
    have type : contentType = inner.contentType := same.trans includes.contentType_eq.symm
    dsimp only at around
    rw [Run.result_pure last, ← Rendering.within_mk, ← type]
    simp [Rendering.behind, around, Rendering.within_append, String.append_assoc]

theorem append_isolated_text_in_text :
    let store : Store :=
      ⟨#[some ⟨.text, [.text "<p>"]⟩, some ⟨.text, [.partialTag "p" ⟨0⟩, .text "&"]⟩]⟩
    let context : Context Stock := .empty
    store.Includes 1 (store.get ⟨1⟩) (store.get ⟨0⟩) ∧
      (store.run (1 + 1) (.append .html "<b>" (store.get ⟨1⟩) context)).result =
        .ok ⟨"<b>&lt;p&gt;&amp;", .html⟩ ∧
      ∃ innermost before after, (store.render 1 (store.get ⟨0⟩) context).result = .ok innermost ∧
        "<b>&lt;p&gt;&amp;" = "<b>" ++ before ++ Text.escape innermost.string ++ after := by
  intro store context
  have includes : store.Includes 1 (store.get ⟨1⟩) (store.get ⟨0⟩) :=
    @Includes.next store 0 _ _ "p" ⟨0⟩ [] [.text "&"] rfl rfl .self
  have ok : (store.run (1 + 1) (.append .html "<b>" (store.get ⟨1⟩) context)).result =
      .ok ⟨"<b>&lt;p&gt;&amp;", .html⟩ := by
    cbv
  exact ⟨includes, ok, (append_isolated store 1 context).2.2 .html "<b>" 1 _ _ _ includes ok⟩

end Store

end Stencil
