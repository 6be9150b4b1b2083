import Stencil.Proofs.Assembly.Determinism
import Stencil.Proofs.Library.Agreement
import Stencil.Proofs.Library.Ownership

namespace Stencil

open Token Library

namespace Repository

variable {κ : Type} {repository : Repository κ} {library later other : Library}
  {base : Option String} {text : String} {document document' : Document} {tokens : List Token}

/-- What a text yields, as far as it depends on no library, and what it refers to. -/
structure Compiles (repository : Repository κ) (library : Library) (base : Option String) (text : String)
    (document : Document) (tokens : List Token) : Prop where
  scan : repository.scan text base = (tokens, .finished)
  faultless : Faultless tokens
  closed : openings tokens = []
  links : ∀ token ∈ tokens, ∀ name, token.Asks name →
    ∃ ref, library.Links repository.source base name ref
  contentType : document.contentType = tokens.foldl settle repository.configuration.contentType
  assembled : Assembled library repository.source base document.contentType false tokens
    document.nodes

theorem Compiles.kept (compiles : repository.Compiles library base text document tokens)
    (kept : library.Keeps later) : repository.Compiles later base text document tokens :=
  { compiles with
    links := fun token member name asks =>
      (compiles.links token member name asks).imp fun _ links => links.kept kept
    assembled := compiles.assembled.kept kept }

theorem exists_compiles {resolve : String → Build (Option Ref)} {before : Library}
    (resolves : Resolves repository.source base resolve)
    (compiled : (repository.compile resolve text base).Yields before document later) :
    ∃ tokens, repository.Compiles later base text document tokens := by
  have assembled := Assembly.assembled_of_ofScan resolves compiled
  rw [compile, Assembly.ofScan_eq] at compiled
  obtain ⟨a, middle, run, ended⟩ := Build.yields_bind.mp compiled
  obtain ⟨finish, rfl⟩ := Assembly.finish_of_ending ended
  obtain ⟨taken, faultless, contentType, links⟩ := Assembly.inspect_tokens resolves run
  have finished : (repository.scan text base).2 = .finished := by
    cases ending : (repository.scan text base).2 with
    | finished => rfl
    | stopped => exact absurd ending (Scan.trace_ne_stopped _ _)
    | failed error =>
        rw [scan] at ending
        rw [ending] at ended
        exact absurd ended Build.not_yields_throw
    | exhausted =>
        rw [scan] at ending
        rw [ending] at ended
        exact absurd ended Build.not_yields_throw
  rw [taken.finish_eq] at finish
  split at finish
  · rename_i closed
    cases finish
    exact ⟨_, Prod.ext rfl finished, faultless, closed, links, contentType, assembled⟩
  · cases finish

theorem compiles_of_text {template : Template κ} {before : Library}
    (yields : (repository.templateOfText text).Yields before template later) :
    ∃ document tokens, later.store.get? template.root = some document ∧
      repository.Compiles later none text document tokens := by
  obtain ⟨document, middle, compiled, rfl, rfl⟩ := templateOfText_yields yields
  obtain ⟨tokens, compiles⟩ := exists_compiles (resolves_load repository _ none) compiled
  exact ⟨document, tokens, Store.get?_add_self middle.store document,
    compiles.kept (middle.extends_add document).keeps⟩

theorem Compiles.filled {document' : Document} {tokens' : List Token} {ref ref' : Ref}
    (compiles : repository.Compiles library base text document tokens)
    (compiles' : repository.Compiles other base text document' tokens')
    (filled : library.store.get? ref = some document)
    (filled' : other.store.get? ref' = some document') :
    library.store.Filled other.store (library.Linked other) ref ref' := by
  have same : tokens = tokens' := congrArg Prod.fst (compiles.scan.symm.trans compiles'.scan)
  subst same
  have contentType := compiles.contentType.trans compiles'.contentType.symm
  have assembled := compiles.assembled
  obtain ⟨contentType', nodes⟩ := document
  obtain ⟨contentType'', nodes'⟩ := document'
  obtain rfl : contentType' = contentType'' := contentType
  exact ⟨contentType', nodes, nodes', filled, filled', assembled.same_nodes compiles'.assembled⟩

def Faithful (repository : Repository κ) (library : Library) (id : String) (ref : Ref) : Prop :=
  ∃ source text document tokens, repository.source = some source ∧ source.text id = .ok text ∧
    library.store.get? ref = some document ∧
    repository.Compiles library (some id) text document tokens

theorem Faithful.kept {id : String} {ref : Ref} (faithful : repository.Faithful library id ref)
    (kept : library.Keeps later) : repository.Faithful later id ref := by
  obtain ⟨source, text, document, tokens, hsource, read, filled, compiles⟩ := faithful
  exact ⟨source, text, document, tokens, hsource, read, kept.store ref document filled,
    compiles.kept kept⟩

theorem Enters.faithful {id : String} {ref : Ref} (enters : repository.Enters library id ref) :
    repository.Faithful library id ref := by
  obtain ⟨depth, source, text, document, before, after, hsource, read, compiled, kept, filled⟩ :=
    enters
  obtain ⟨tokens, compiles⟩ := exists_compiles (resolves_load repository depth (some id)) compiled
  exact ⟨source, text, document, tokens, hsource, read, filled, compiles.kept kept⟩

theorem Faithful.filled {id : String} {ref ref' : Ref}
    (faithful : repository.Faithful library id ref) (faithful' : repository.Faithful other id ref') :
    library.store.Filled other.store (library.Linked other) ref ref' := by
  obtain ⟨source, text, document, tokens, hsource, read, filled, compiles⟩ := faithful
  obtain ⟨source', text', document', tokens', hsource', read', filled', compiles'⟩ := faithful'
  rw [hsource] at hsource'
  cases hsource'
  rw [read] at read'
  cases read'
  exact compiles.filled compiles' filled filled'

/-- A library that has compiled nothing but the templates of a repository. -/
structure Sound (repository : Repository κ) (library : Library) : Prop where
  faithful : ∀ {id : String} {ref : Ref}, library.cache.lookup id = some ref →
    repository.Faithful library id ref
  owns : library.Owns []

theorem Sound.whole {source : Source} (sound : repository.Sound library)
    (hsource : repository.source = some source) : repository.Whole source library.Caches := by
  rintro id ⟨ref, cached⟩
  obtain ⟨source', text, document, tokens, hsource', read, -, compiles⟩ := sound.faithful cached
  rw [hsource] at hsource'
  cases hsource'
  refine ⟨text, tokens, read, compiles.scan, compiles.faultless, compiles.closed, ?_⟩
  intro token member name asks
  obtain ⟨ref', s, id', hs, hid, cached'⟩ := compiles.links token member name asks
  rw [hsource] at hs
  cases hs
  exact ⟨id', hid, ref', cached'⟩

theorem sound_empty (repository : Repository κ) : repository.Sound .empty :=
  ⟨nofun, Store.owns_empty⟩

theorem Sound.reload (sound : repository.Sound library) : repository.Sound library.reload :=
  ⟨nofun, Store.Owns.subperm sound.owns List.nil_subperm⟩

section Builds

variable {α : Type} {build : Build α} {given : α → List Ref}

theorem Sound.yields {a : α} (sound : repository.Sound library)
    (conveys : Build.Conveys [] build given) (gains : repository.Gains library later)
    (yields : build.Yields library a later) : repository.Sound later ∧ later.Owns (given a) := by
  have owns := conveys library [] sound.owns
  rw [show build.run library = (.ok a, later) from yields] at owns
  have owns : later.Owns (given a) := by simpa using owns
  refine ⟨⟨fun cached => ?_, owns.subperm List.nil_subperm⟩, owns⟩
  rcases gains.entries cached with cached | enters
  · exact (sound.faithful cached).kept gains.kept
  · exact enters.faithful

theorem Sound.attempt (sound : repository.Sound library) (grows : build.Grows)
    (conveys : Build.Conveys [] build given)
    (gains : ∀ {a : α} {after : Library}, build.Yields library a after →
      repository.Gains library after) :
    repository.Sound (build.attempt library).2 := by
  rcases Build.attempt_cases grows library with
    ⟨a, after, yields, attempt⟩ | ⟨failure, after, attempt, same, kept⟩
  · rw [attempt]
    exact (sound.yields conveys (gains yields) yields).1
  · have owns := owns_attempt conveys sound.owns
    rw [attempt] at owns ⊢
    refine ⟨fun cached => ?_, owns⟩
    rw [same] at cached
    exact (sound.faithful cached).kept kept

end Builds

theorem Sound.attempt_template (sound : repository.Sound library) (name : String) :
    repository.Sound ((repository.template name).attempt library).2 :=
  sound.attempt (repository.grows_template name) (repository.conveys_template name) gains_template

theorem Sound.attempt_text (sound : repository.Sound library) (text : String) :
    repository.Sound ((repository.templateOfText text).attempt library).2 :=
  sound.attempt (repository.grows_templateOfText text) (repository.conveys_templateOfText text)
    gains_templateOfText

end Repository

/-! ## Isomorphic outcomes -/

namespace Library

variable {library other : Library} {atHand atHand' : List Ref} {ref ref' ref'' : Ref}

theorem mem_of_lookup {cache : List (String × Ref)} {id : String}
    (cached : cache.lookup id = some ref) : (id, ref) ∈ cache := by
  obtain ⟨before, after, rfl, -⟩ := List.lookup_eq_some_iff.mp cached
  simp

theorem Owns.lookup_inj {id id' : String} (owns : library.Owns atHand)
    (cached : library.cache.lookup id = some ref) (cached' : library.cache.lookup id' = some ref) :
    id = id' := by
  have nodup : (library.cache.map Prod.snd).Nodup := (List.nodup_append.mp owns.nodup).2.1
  have inj := List.inj_on_of_nodup_map nodup (mem_of_lookup cached) (mem_of_lookup cached') rfl
  exact congrArg Prod.fst inj

theorem Owns.not_atHand {id : String} (owns : library.Owns atHand)
    (cached : library.cache.lookup id = some ref) : ref ∉ atHand := by
  intro here
  have disjoint := (List.nodup_append.mp owns.nodup).2.2
  exact disjoint ref here ref (List.mem_map.mpr ⟨_, mem_of_lookup cached, rfl⟩) rfl

theorem Linked.symm (linked : library.Linked other ref ref') : other.Linked library ref' ref :=
  linked.imp fun _ cached => ⟨cached.2, cached.1⟩

def Anchors (library other : Library) (atHand atHand' : List Ref) (ref ref' : Ref) : Prop :=
  library.Linked other ref ref' ∨ (ref, ref') ∈ atHand.zip atHand'

theorem Anchors.symm (anchors : library.Anchors other atHand atHand' ref ref') :
    other.Anchors library atHand' atHand ref' ref := by
  refine anchors.imp Linked.symm fun member => ?_
  rw [← List.zip_swap, List.mem_map]
  exact ⟨_, member, rfl⟩

theorem Owns.anchors_unique (owns : library.Owns atHand)
    (anchors : library.Anchors other atHand atHand' ref ref')
    (anchors' : library.Anchors other atHand atHand' ref ref'') : ref' = ref'' := by
  rcases anchors with ⟨id, cached, found⟩ | member
  · rcases anchors' with ⟨id', cached', found'⟩ | member
    · obtain rfl := owns.lookup_inj cached cached'
      rw [found] at found'
      exact Option.some.inj found'
    · exact absurd (List.of_mem_zip member).1 (owns.not_atHand cached)
  · rcases anchors' with ⟨id', cached', -⟩ | member'
    · exact absurd (List.of_mem_zip member).1 (owns.not_atHand cached')
    · exact Store.eq_of_mem_zip (List.nodup_append.mp owns.nodup).1 member member'

theorem Owns.separate_anchors (owns : library.Owns atHand) :
    library.store.Separate fun ref => ∃ ref', library.Anchors other atHand atHand' ref ref' := by
  have separate := Store.Owns.separate owns
  refine ⟨separate.once, separate.owner, fun filled member anchored => ?_⟩
  apply separate.anchored filled member
  obtain ⟨ref', ⟨id, cached, -⟩ | here⟩ := anchored
  · exact List.mem_append_right _ (List.mem_map.mpr ⟨_, mem_of_lookup cached, rfl⟩)
  · exact List.mem_append_left _ (List.of_mem_zip here).1

end Library

namespace Repository

variable {κ : Type} {repository : Repository κ} {library other : Library} {atHand atHand' : List Ref}
  {ref ref' : Ref}

theorem Sound.isomorphic (sound : repository.Sound library) (sound' : repository.Sound other)
    (owns : library.Owns atHand) (owns' : other.Owns atHand')
    (filled : ∀ {ref ref' : Ref}, (ref, ref') ∈ atHand.zip atHand' →
      library.store.Filled other.store (library.Linked other) ref ref')
    (root : library.Anchors other atHand atHand' ref ref') :
    library.store.Isomorphic ref other.store ref' := by
  have separate' : other.store.Separate
      fun ref' => ∃ ref, other.Anchors library atHand' atHand ref' ref := owns'.separate_anchors
  refine Store.isomorphic_of_matches owns.separate_anchors
    ⟨separate'.once, separate'.owner, fun filled member ⟨ref, anchors⟩ =>
      separate'.anchored filled member ⟨ref, anchors.symm⟩⟩
    owns.anchors_unique (fun anchors anchors' => owns'.anchors_unique anchors.symm anchors'.symm)
    .inl ?_ root
  rintro ref ref' (⟨id, cached, cached'⟩ | member)
  · exact (sound.faithful cached).filled (sound'.faithful cached')
  · exact filled member

theorem Sound.isomorphic_of_cached {id : String} (sound : repository.Sound library)
    (sound' : repository.Sound other) (cached : library.cache.lookup id = some ref)
    (cached' : other.cache.lookup id = some ref') :
    library.store.Isomorphic ref other.store ref' :=
  sound.isomorphic sound' sound.owns sound'.owns (by simp) (.inl ⟨id, cached, cached'⟩)

/-- Two attempts fail with the same error, or yield templates that cannot be told apart. -/
inductive SameOutcome :
    Except Failure (Template κ) × Library → Except Failure (Template κ) × Library → Prop
  | failed {error : Error} {after after' : Library} :
      SameOutcome (.error (.error error), after) (.error (.error error), after')
  | succeeded {template template' : Template κ} {after after' : Library} :
      template.context = template'.context →
      after.store.Isomorphic template.root after'.store template'.root →
      SameOutcome (.ok template, after) (.ok template', after')

theorem same_attempt {R : Library → Library → Prop} {build : Build (Template κ)}
    (agrees : Build.Agrees R (fun template template' => template.context = template'.context)
      (build.run library) (build.run other))
    (isomorphic : ∀ {template template' : Template κ} {after after' : Library},
      build.Yields library template after → build.Yields other template' after' →
      after.store.Isomorphic template.root after'.store template'.root) :
    SameOutcome (build.attempt library) (build.attempt other) := by
  unfold Build.attempt
  rcases hrun : build.run library with ⟨result, after⟩
  rcases hrun' : build.run other with ⟨result', after'⟩
  rw [hrun, hrun'] at agrees
  cases agrees with
  | failed => exact .failed
  | succeeded same => exact .succeeded same (isomorphic hrun hrun')

theorem Sound.isomorphic_template (sound : repository.Sound library)
    (sound' : repository.Sound other) {name : String} {template template' : Template κ}
    {after after' : Library} (yields : (repository.template name).Yields library template after)
    (yields' : (repository.template name).Yields other template' after') :
    after.store.Isomorphic template.root after'.store template'.root := by
  obtain ⟨later, -⟩ := sound.yields (repository.conveys_template name) (gains_template yields) yields
  obtain ⟨later', -⟩ :=
    sound'.yields (repository.conveys_template name) (gains_template yields') yields'
  exact later.isomorphic later' later.owns later'.owns (by simp)
    (.inl ((links_of_load (template_yields yields).1).linked
      (links_of_load (template_yields yields').1)))

theorem Sound.isomorphic_text (sound : repository.Sound library) (sound' : repository.Sound other)
    {text : String} {template template' : Template κ} {after after' : Library}
    (yields : (repository.templateOfText text).Yields library template after)
    (yields' : (repository.templateOfText text).Yields other template' after') :
    after.store.Isomorphic template.root after'.store template'.root := by
  obtain ⟨later, owns⟩ :=
    sound.yields (repository.conveys_templateOfText text) (gains_templateOfText yields) yields
  obtain ⟨later', owns'⟩ :=
    sound'.yields (repository.conveys_templateOfText text) (gains_templateOfText yields') yields'
  refine later.isomorphic later' owns owns' (fun member => ?_) (.inr (by simp))
  simp only [List.zip_cons_cons, List.zip_nil_right, List.mem_singleton, Prod.mk.injEq] at member
  obtain ⟨rfl, rfl⟩ := member
  obtain ⟨document, tokens, filled, compiles₁⟩ := compiles_of_text yields
  obtain ⟨document', tokens', filled', compiles₂⟩ := compiles_of_text yields'
  exact compiles₁.filled compiles₂ filled filled'

/-! ## Fresh repositories -/

section Fresh

variable {source : Source} {ids : List String}

theorem Sound.ahead (enough : ids.length ≤ source.size) (hsource : repository.source = some source) :
    Ahead library.Caches ids repository.depth library .empty := by
  have none_cached (id : String) : ¬ Library.empty.Caches id := by
    rintro ⟨ref, cached⟩
    cases cached
  refine ⟨fun id => by simp [none_cached], ?_⟩
  have fewer : Library.empty.remaining ids ≤ ids.length := List.countP_le_length
  simp only [depth, hsource]
  omega

theorem Sound.same_template (sound : repository.Sound library)
    (hsource : repository.source = some source) (within : source.Within ids)
    (enough : ids.length ≤ source.size) (name : String) :
    SameOutcome ((repository.template name).attempt library)
      ((repository.template name).attempt .empty) :=
  same_attempt
    (agrees_template hsource within (sound.whole hsource) name (Sound.ahead enough hsource))
    (sound.isomorphic_template (sound_empty repository))

theorem Sound.same_text (sound : repository.Sound library)
    (hsource : repository.source = some source) (within : source.Within ids)
    (enough : ids.length ≤ source.size) (text : String) :
    SameOutcome ((repository.templateOfText text).attempt library)
      ((repository.templateOfText text).attempt .empty) :=
  same_attempt
    (agrees_templateOfText hsource within (sound.whole hsource) text (Sound.ahead enough hsource))
    (sound.isomorphic_text (sound_empty repository))

end Fresh

end Repository

theorem Source.memory_within (templates : List (String × String)) :
    (Source.memory templates).Within (templates.map Prod.fst) := by
  intro name base id hid
  simp only [memory, Option.map_eq_some_iff] at hid
  obtain ⟨text, found, rfl⟩ := hid
  obtain ⟨before, after, rfl, -⟩ := List.lookup_eq_some_iff.mp found
  simp

/-! ## Sessions -/

namespace Session

inductive Call where
  | template (name : String)
  | text (text : String)
  | reload

variable {κ : Type}

def request (repository : Repository κ) : Call → Request κ
  | .template name => .template repository name
  | .text text => .text repository text
  | .reload => .reload

def libraryAfter (repository : Repository κ) (calls : List Call) : Library :=
  (after (calls.map (request repository))).library

theorem library_receive (session : Session) (outcome : Except Failure (Template κ) × Library) :
    (session.receive outcome).library = outcome.2 := by
  obtain ⟨result, library⟩ := outcome
  cases result <;> rfl

theorem sound_after (repository : Repository κ) (calls : List Call) :
    repository.Sound (libraryAfter repository calls) := by
  induction calls with
  | nil => exact repository.sound_empty
  | cons call calls ih =>
      cases call with
      | template name =>
          have step := ih.attempt_template name
          rwa [← library_receive] at step
      | text text =>
          have step := ih.attempt_text text
          rwa [← library_receive] at step
      | reload => exact ih.reload

theorem attempt_fresh (templates : List (String × String)) (configuration : Configuration κ)
    (calls : List Call) (name text : String) :
    let repository : Repository κ := ⟨some (.memory templates), configuration⟩
    let library := libraryAfter repository calls
    Repository.SameOutcome ((repository.template name).attempt library)
        ((repository.template name).attempt .empty) ∧
      Repository.SameOutcome ((repository.templateOfText text).attempt library)
        ((repository.templateOfText text).attempt .empty) ∧
      ∀ (others : List Call) (id : String) (ref ref' : Ref),
        library.cache.lookup id = some ref →
        (libraryAfter repository others).cache.lookup id = some ref' →
        library.store.Isomorphic ref (libraryAfter repository others).store ref' := by
  intro repository library
  have sound := sound_after repository calls
  have within : (Source.memory templates).Within (templates.map Prod.fst) :=
    Source.memory_within templates
  have enough : (templates.map Prod.fst).length ≤ (Source.memory templates).size := by
    simp [Source.memory]
  exact ⟨sound.same_template rfl within enough name, sound.same_text rfl within enough text,
    fun others _ _ _ => sound.isomorphic_of_cached (sound_after repository others)⟩

end Session

end Stencil
