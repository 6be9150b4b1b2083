import Stencil.Proofs.Library.Blame
import Stencil.Proofs.Output.Settling
import Stencil.Stock

namespace Stencil

open Relation (TransGen)

theorem Build.yields_of_attempt {α : Type} {build : Build α} {before after : Library} {a : α}
    (attempted : build.attempt before = (.ok a, after)) : build.Yields before a after := by
  unfold Build.attempt at attempted
  split at attempted
  · rename_i run
    cases attempted
    exact run
  · cases attempted

theorem Assembled.used_ends {library : Library} {source : Option Source} {base : Option String}
    {contentType : ContentType} {inside : Bool} {tokens : List Token} {nodes : List Node}
    {store : Store} (assembled : Assembled library source base contentType inside tokens nodes)
    (kept : library.store.Keeps store)
    (linked : ∀ token ∈ tokens, ∀ name ref, token.Asks name →
      library.Links source base name ref → store.Ends (store.get ref)) :
    ∀ other ∈ nodes.flatMap (Node.used store), store.Ends other := by
  induction assembled with
  | nil => simp
  | silent _ _ ih => exact ih fun token member => linked token (List.mem_cons_of_mem _ member)
  | @adds inside token tokens node nodes adds _ ih =>
      have rest := ih fun token member => linked token (List.mem_cons_of_mem _ member)
      rw [List.flatMap_cons, List.forall_mem_append]
      refine ⟨?_, rest⟩
      cases adds with
      | partialTag kind names links =>
          simpa [Node.used] using linked token (by simp) _ _ ⟨.inl kind, names⟩ links
      | _ => simp [Node.used]
  | @scope inside opening closing inner tokens opener node body nodes opens _ _ becomes _ ihBody ih =>
      have rest := ih fun token member => linked token (by simp [member])
      have used := ihBody fun token member => linked token (by simp [member])
      have body_ : store.Ends ⟨contentType, body⟩ := ⟨_, fun other uses => used other uses.mem_used⟩
      rw [List.flatMap_cons, List.forall_mem_append]
      refine ⟨?_, rest⟩
      cases becomes with
      | sectionOf => simpa [Node.used] using body_
      | block => simpa [Node.used] using body_
      | @inherit name parent overriding filled =>
          cases opens with
          | inheritTag kind names links =>
              have parent_ := linked opening (by simp) _ _ ⟨.inr kind, names⟩ links
              simpa [Node.used, kept.get_eq filled] using ⟨parent_, body_⟩

namespace Repository

variable {κ : Type} {repository : Repository κ} {library : Library} {base : Option String}
  {text : String} {document : Document} {tokens : List Token} {store : Store}

def Mentions (repository : Repository κ) (id id' : String) : Prop :=
  ∃ text, repository.Holds id text ∧ ∃ token ∈ (repository.scan text (some id)).1, ∃ name,
    token.Asks name ∧ Denotes repository.source (some id) name id'

theorem Compiles.ends (compiles : repository.Compiles library base text document tokens)
    (kept : library.store.Keeps store)
    (linked : ∀ token ∈ (repository.scan text base).1, ∀ name ref, token.Asks name →
      library.Links repository.source base name ref → store.Ends (store.get ref)) :
    store.Ends document := by
  rw [compiles.scan] at linked
  exact ⟨_, fun other uses => compiles.assembled.used_ends kept linked other uses.mem_used⟩

theorem Sound.ends_of_cached (sound : repository.Sound library) (kept : library.store.Keeps store)
    {id : String} (acc : Acc (flip repository.Mentions) id) {ref : Ref}
    (cached : library.cache.lookup id = some ref) : store.Ends (store.get ref) := by
  induction acc generalizing ref with
  | intro id _ ih =>
      obtain ⟨source, text, document, tokens, hsource, read, filled, compiles⟩ :=
        sound.faithful cached
      rw [kept.get_eq filled]
      apply compiles.ends kept
      rintro token member name target asks ⟨s, id', hs, hid, cached'⟩
      exact ih id' ⟨text, ⟨source, hsource, read⟩, token, member, name, asks, s, hs, hid⟩ cached'

theorem Mentions.mem {source : Source} {ids : List String} (hsource : repository.source = some source)
    (within : source.Within ids) {id id' : String} (mentions : repository.Mentions id id') :
    id' ∈ ids := by
  obtain ⟨text, -, token, -, name, -, s, hs, hid⟩ := mentions
  rw [hsource] at hs
  cases hs
  exact within hid

theorem acyclic_of_quiet {templates : List (String × String)}
    (repository : Repository κ) (hsource : repository.source = some (.memory templates))
    (quiet : ∀ entry ∈ templates, ∀ token ∈ (repository.scan entry.2 (some entry.1)).1,
      token.kind ≠ .partialTag ∧ token.kind ≠ .inheritTag) (id : String) :
    ¬ TransGen repository.Mentions id id := by
  intro cycle
  obtain ⟨id', ⟨text, ⟨source, hs, read⟩, token, member, name, asks, -⟩, -⟩ :=
    TransGen.head'_iff.mp cycle
  rw [hsource] at hs
  cases hs
  have here : (id, text) ∈ templates := by
    simp only [Source.memory] at read
    cases found : templates.lookup id with
    | none => simp [found] at read
    | some text' =>
        obtain rfl : text' = text := by simpa [found] using read
        obtain ⟨before, after, rfl, -⟩ := List.lookup_eq_some_iff.mp found
        simp
  obtain ⟨noPartial, noInherit⟩ := quiet (id, text) here token member
  exact asks.kind.elim noPartial noInherit

theorem attempt_templateOfText {before middle : Library}
    (compiled : (repository.compile (repository.load repository.depth none) text none).Yields before
      document middle) :
    (repository.templateOfText text).attempt before =
      (.ok ⟨⟨middle.store.size⟩, repository.configuration.context⟩,
        { middle with store := (middle.store.add document).2 }) := by
  have yields : (repository.templateOfText text).Yields before
      ⟨⟨middle.store.size⟩, repository.configuration.context⟩
      { middle with store := (middle.store.add document).2 } :=
    Build.yields_bind.mpr ⟨document, middle, compiled, rfl⟩
  unfold Build.attempt
  rw [yields]

def HandsOut (repository : Repository κ) (build : Build (Template κ)) : Prop :=
  (∃ name, build = repository.template name) ∨ ∃ text, build = repository.templateOfText text

theorem Sound.ends_of_attempt (sound : repository.Sound library)
    (accs : ∀ id, Acc (flip repository.Mentions) id) {build : Build (Template κ)}
    (handsOut : repository.HandsOut build) {template : Template κ} {after : Library}
    (attempted : build.attempt library = (.ok template, after)) (kept : after.store.Keeps store) :
    store.Ends (store.get template.root) ∧ template.context = repository.configuration.context := by
  have yields := Build.yields_of_attempt attempted
  rcases handsOut with ⟨name, rfl⟩ | ⟨text, rfl⟩
  · have later := sound.attempt_template name
    rw [attempted] at later
    obtain ⟨loaded, context⟩ := template_yields yields
    obtain ⟨s, id, hs, hid, cached⟩ := links_of_load loaded
    exact ⟨later.ends_of_cached kept (accs id) cached, context⟩
  · have later := sound.attempt_text text
    rw [attempted] at later
    obtain ⟨document, tokens, filled, compiles⟩ := compiles_of_text yields
    obtain ⟨_, _, -, -, same⟩ := templateOfText_yields yields
    refine ⟨?_, congrArg Template.context same⟩
    rw [kept.get_eq filled]
    apply compiles.ends kept
    rintro token member name target asks ⟨s, id', hs, hid, cached⟩
    exact later.ends_of_cached kept (accs id') cached

end Repository

theorem Configuration.standard_plain {κ : Type} :
    (Configuration.standard : Configuration κ).context.Each Value.Plain :=
  Context.Each.empty.push (Value.standardFilters_plain 0)

namespace Session

variable {κ : Type}

theorem rendering_settles [Host κ] (templates : List (String × String))
    (configuration : Configuration κ) (plain : configuration.context.Each Value.Plain)
    (outermost : configuration.context.frames = []) (calls : List Call) :
    let repository : Repository κ := ⟨some (.memory templates), configuration⟩
    (∀ id, ¬ TransGen repository.Mentions id id) →
    ∀ build template after, repository.HandsOut build →
      build.attempt (libraryAfter repository calls) = (.ok template, after) →
      ∀ store, after.store.Keeps store →
        ¬ store.Recurs (store.get template.root) →
        ∀ data : Value κ, data.Plain → Run.Settles fun depth =>
          store.render depth (store.get template.root) (template.context.push data) := by
  intro repository acyclic build template after handsOut attempted store kept apart data plainData
  have within : (Source.memory templates).Within (templates.map Prod.fst) :=
    Source.memory_within templates
  have accs (id : String) : Acc (flip repository.Mentions) id :=
    acc_of_acyclic (List.finite_toSet _) (fun mentions => mentions.mem rfl within) acyclic id
  obtain ⟨ends, context⟩ :=
    (sound_after repository calls).ends_of_attempt accs handsOut attempted kept
  have bounded := (Store.bounded_iff ends).mpr apart
  have tame : configuration.context.Tame := plain.tame
  rw [context]
  apply Store.render_settles
  · rw [Context.frames_push, outermost]
    exact bounded
  · exact tame.push plainData.tame

theorem rendering_settles_again :
    let repository : Repository Stock :=
      ⟨some (.memory [("p", "\x7b\x7b$a\x7d\x7d\x7b\x7b/a\x7d\x7d")]), .standard⟩
    let text := "\x7b\x7b<p\x7d\x7d\x7b\x7b$a\x7d\x7d\x7b\x7b<p\x7d\x7d\x7b\x7b/p\x7d\x7d" ++
      "\x7b\x7b/a\x7d\x7d\x7b\x7b/p\x7d\x7d"
    let parent : Document := ⟨.html, [.blockTag "a" ⟨.html, []⟩]⟩
    let again : Document := ⟨.html, [.inheritTag "p" ⟨0⟩ ⟨1⟩]⟩
    let overriding : Document := ⟨.html, [.blockTag "a" again]⟩
    let root : Document := ⟨.html, [.inheritTag "p" ⟨0⟩ ⟨2⟩]⟩
    let after : Library :=
      ⟨⟨#[some parent, some ⟨.html, []⟩, some overriding, some root]⟩, [("p", ⟨0⟩)]⟩
    let template : Template Stock := ⟨⟨3⟩, repository.configuration.context⟩
    repository.configuration.context.Each Value.Plain ∧
      repository.configuration.context.frames = [] ∧
      (∀ id, ¬ TransGen repository.Mentions id id) ∧
      repository.HandsOut (repository.templateOfText text) ∧
      (repository.templateOfText text).attempt (libraryAfter repository []) = (.ok template, after) ∧
      after.store.Keeps after.store ∧ ¬ after.store.Recurs (after.store.get template.root) ∧
      (Value.map .nil : Value Stock).Plain ∧
      Run.Settles fun depth => after.store.render depth (after.store.get template.root)
        (template.context.push (.map .nil)) := by
  intro repository text parent again overriding root after template
  have acyclic := repository.acyclic_of_quiet rfl (by decide)
  have compiled : (repository.compile (repository.load repository.depth none) text none).Yields
      .empty root ⟨⟨#[some parent, some ⟨.html, []⟩, some overriding]⟩, [("p", ⟨0⟩)]⟩ := by
    unfold Build.Yields
    cbv
  have attempted : (repository.templateOfText text).attempt (libraryAfter repository []) =
      (.ok template, after) :=
    Repository.attempt_templateOfText compiled
  let outer : Frame := ⟨⟨0⟩, ⟨2⟩⟩
  let inner : Frame := ⟨⟨0⟩, ⟨1⟩⟩
  -- The block that comes up the second time renders with what the parent itself has for it.
  have last : after.store.Bounded (⟨.html, []⟩, [inner, outer]) := ⟨_, fun _ nests => by cases nests⟩
  have third : after.store.Bounded (parent, [inner, outer]) := .of_nested rfl last
  have second : after.store.Bounded (again, [outer]) := .of_nested rfl third
  have first : after.store.Bounded (parent, [outer]) := .of_nested rfl second
  have apart : ¬ after.store.Recurs root := (Store.Bounded.of_nested rfl first).not_recurs
  have handsOut : repository.HandsOut (repository.templateOfText text) := .inr ⟨text, rfl⟩
  have kept : after.store.Keeps after.store := fun _ _ filled => filled
  have data : (Value.map .nil : Value Stock).Plain := .map (by simp [Entries.toList])
  have plain : repository.configuration.context.Each Value.Plain := Configuration.standard_plain
  exact ⟨plain, rfl, acyclic, handsOut, attempted, kept, apart, data,
    rendering_settles _ _ plain rfl [] acyclic _ _ _ handsOut attempted _ kept apart _ data⟩

theorem override_recurs :
    let included := "\x7b\x7b$a\x7d\x7d\x7b\x7b$a\x7d\x7dx\x7b\x7b/a\x7d\x7d\x7b\x7b/a\x7d\x7d"
    let repository : Repository Stock := ⟨some (.memory [("p", included)]), .standard⟩
    let text := "\x7b\x7b<p\x7d\x7d\x7b\x7b/p\x7d\x7d"
    (∀ id, ¬ TransGen repository.Mentions id id) ∧
      ∃ template after,
        (repository.templateOfText text).attempt .empty = (.ok template, after) ∧
        ∀ depth data, data.Plain → (after.store.render depth (after.store.get template.root)
          (template.context.push data)).result = .error .exhausted := by
  intro included repository text
  have acyclic := repository.acyclic_of_quiet rfl (by decide)
  let own : Document := ⟨.html, [.text "x"]⟩
  let nested : Document := ⟨.html, [.blockTag "a" own]⟩
  let parent : Document := ⟨.html, [.blockTag "a" nested]⟩
  let root : Document := ⟨.html, [.inheritTag "p" ⟨0⟩ ⟨1⟩]⟩
  have compiled : (repository.compile (repository.load repository.depth none) text none).Yields
      .empty root ⟨⟨#[some parent, some ⟨.html, []⟩]⟩, [("p", ⟨0⟩)]⟩ := by
    unfold Build.Yields
    cbv
  refine ⟨acyclic, _, _, Repository.attempt_templateOfText compiled, fun depth data plain => ?_⟩
  let store : Store := ⟨#[some parent, some ⟨.html, []⟩, some root]⟩
  let frame : Frame := ⟨⟨0⟩, ⟨1⟩⟩
  have recurs : store.Recurs root := by
    have first : store.Nests (root, []) (parent, [frame]) := List.mem_singleton_self _
    have second : store.Nests (parent, [frame]) (nested, [frame]) := List.mem_singleton_self _
    have back : store.Nests (nested, [frame]) (nested, [frame]) := List.mem_singleton_self _
    exact ⟨(nested, [frame]), .tail (.single first) second, ⟨⟨"a", own⟩, frame, by simp, rfl⟩,
      .single back⟩
  have quiet : store.Quiet root := by
    intro other shows tag expression evaluates
    have known : other ∈ [root, parent, nested, own, ⟨.html, []⟩] := by
      refine shows.mem ?_ (by simp)
      simp [root, parent, nested, own, Node.used, store, Store.get, Store.get?]
    simp only [List.mem_cons, List.not_mem_nil, or_false] at known
    rcases known with rfl | rfl | rfl | rfl | rfl <;> cases evaluates <;>
      simp_all [root, parent, nested, own]
  exact Store.render_exhausted (Configuration.standard_plain.push plain) rfl quiet recurs depth

end Session

end Stencil
