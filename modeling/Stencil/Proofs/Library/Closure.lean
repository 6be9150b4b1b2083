import Stencil.Proofs.Library.Entries

namespace Stencil

namespace Library

/-- A document with all its references found, as a template with an identifier has them. -/
def Complete (library : Library) (source : Option Source) (base : Option String) (ref : Ref) : Prop :=
  ∃ document inside tokens, library.store.get? ref = some document ∧
    Assembled library source base document.contentType inside tokens document.nodes

variable {a b c library : Library} {source : Option Source} {base : Option String} {ref : Ref}

theorem Complete.kept (complete : a.Complete source base ref) (kept : a.Keeps b) :
    b.Complete source base ref := by
  obtain ⟨document, inside, tokens, filled, assembled⟩ := complete
  exact ⟨document, inside, tokens, kept.store ref document filled, assembled.kept kept⟩

theorem Complete.resolved (complete : library.Complete source base ref) :
    ∃ document, library.store.get? ref = some document ∧
      ∀ part, document.Within library.store part → ∀ node ∈ part.nodes, ∀ name target,
        node.Refers name target → library.Links source base name target := by
  obtain ⟨document, inside, tokens, filled, assembled⟩ := complete
  refine ⟨document, filled, ?_⟩
  intro part within node member name target refers
  obtain ⟨inside', before, inner, after, -, -, assembled⟩ := assembled.within within
  exact assembled.refers member refers

theorem needs_of_assembled {contentType : ContentType} {inside : Bool} {tokens : List Token}
    {nodes : List Node} {node : Node}
    (assembled : Assembled library source base contentType inside tokens nodes)
    (member : node ∈ nodes) (needs : node.Needs ref) :
    (∃ name, library.Links source base name ref) ∨ library.Complete source base ref := by
  induction needs generalizing inside tokens nodes with
  | sectionTag inner _ ih =>
      obtain ⟨tokens', -, encloses⟩ := assembled.enclosed member .sectionTag
      exact ih encloses.body inner
  | blockTag inner _ ih =>
      obtain ⟨tokens', -, encloses⟩ := assembled.enclosed member .blockTag
      exact ih encloses.body inner
  | target refers => exact .inl ⟨_, assembled.refers member refers⟩
  | overriding =>
      obtain ⟨body, filled⟩ := assembled.overrides member
      obtain ⟨tokens', same, encloses⟩ := assembled.enclosed member (.inheritTag filled)
      have body_ := encloses.body
      rw [← same] at body_
      exact .inr ⟨body, true, tokens', filled, body_⟩

def Closed (library : Library) : Prop :=
  ∀ id ref, library.cache.lookup id = some ref → ∃ source, library.Complete source (some id) ref

theorem Complete.whole (complete : library.Complete source base ref) (closed : library.Closed) :
    library.store.Sealed ref := by
  have reached {other : Ref} (reaches : library.store.Reaches ref other) :
      ∃ source base, library.Complete source base other := by
    induction reaches with
    | root => exact ⟨source, base, complete⟩
    | next _ filled member needs ih =>
        obtain ⟨source, base, document, inside, tokens, filled', assembled⟩ := ih
        rw [filled'] at filled
        cases filled
        rcases needs_of_assembled assembled member needs with ⟨name, links⟩ | complete
        · obtain ⟨s, id, -, -, cached⟩ := links
          obtain ⟨source, complete⟩ := closed id _ cached
          exact ⟨source, some id, complete⟩
        · exact ⟨source, base, complete⟩
  intro other reaches
  obtain ⟨source, base, document, inside, tokens, filled, -⟩ := reached reaches
  exact ⟨document, filled⟩

/-! ## Successful compilations -/

structure Completes (source : Option Source) (earlier later : Library) : Prop where
  grown : earlier.Extends later
  entries : ∀ {id : String} {ref : Ref}, later.cache.lookup id = some ref →
    earlier.cache.lookup id = some ref ∨ later.Complete source (some id) ref

theorem Completes.refl (source : Option Source) (a : Library) : a.Completes source a :=
  ⟨.refl a, .inl⟩

theorem Completes.trans (first : a.Completes source b) (second : b.Completes source c) :
    a.Completes source c := by
  refine ⟨first.grown.trans second.grown, fun cached => ?_⟩
  rcases second.entries cached with cached | complete
  · rcases first.entries cached with cached | complete
    · exact .inl cached
    · exact .inr (complete.kept second.grown.keeps)
  · exact .inr complete

theorem completes_of_cache (source : Option Source) (grown : a.Extends b)
    (same : b.cache = a.cache) : a.Completes source b := by
  refine ⟨grown, fun cached => .inl ?_⟩
  rw [← same]
  exact cached

end Library

namespace Repository

open Library

variable {κ : Type} {repository : Repository κ} {before after : Library}

theorem completes_compile {resolve : String → Build (Option Ref)} {id : Option String}
    (resolves : Resolves repository.source id resolve)
    (completes : ∀ {name : String} {ref : Ref} {before after : Library},
      (resolve name).Yields before (some ref) after → before.Completes repository.source after)
    {text : String} {document : Document}
    (compiled : (repository.compile resolve text id).Yields before document after) :
    before.Completes repository.source after :=
  Assembly.relates_ofScan (.refl _) .trans (completes_of_cache _) resolves completes compiled

theorem Enters.complete {library : Library} {id : String} {ref : Ref}
    (enters : repository.Enters library id ref) :
    library.Complete repository.source (some id) ref := by
  obtain ⟨depth, source, text, document, before, after, -, -, compiled, kept, filled⟩ := enters
  have assembled := Assembly.assembled_of_ofScan (resolves_load repository depth (some id)) compiled
  exact ⟨document, false, _, filled, assembled.kept kept⟩

theorem completes_load {depth : Nat} {base : Option String} {name : String} {found : Option Ref}
    (yields : (repository.load depth base name).Yields before found after) :
    before.Completes repository.source after where
  grown := (grows_load repository depth base name).yields yields
  entries cached := ((gains_load yields).entries cached).imp_right Enters.complete

end Repository

/-! ## Failed compilations -/

namespace Library

theorem lookup_isSome {cache : List (String × Ref)} {entry : String × Ref} (member : entry ∈ cache) :
    (cache.lookup entry.1).isSome = true := by
  cases found : cache.lookup entry.1 with
  | none =>
      have apart := List.lookup_eq_none_iff.mp found entry member
      simp at apart
  | some ref => rfl

theorem cache_retain {a b : Library} (grown : a.Extends b) : (b.retain a).cache = a.cache := by
  obtain ⟨added, hb, fresh⟩ := grown.cache
  have dropped : added.filter (fun entry => (a.cache.lookup entry.1).isSome) = [] := by
    rw [List.filter_eq_nil_iff]
    intro entry member
    simp [fresh entry member]
  have remaining : a.cache.filter (fun entry => (a.cache.lookup entry.1).isSome) = a.cache := by
    rw [List.filter_eq_self]
    intro entry member
    exact lookup_isSome member
  show b.cache.filter (fun entry => (a.cache.lookup entry.1).isSome) = a.cache
  rw [hb, List.filter_append, dropped, remaining, List.nil_append]

end Library

theorem Build.attempt_cases {α : Type} {build : Build α} (grows : build.Grows) (before : Library) :
    (∃ a after, build.Yields before a after ∧ build.attempt before = (.ok a, after)) ∨
      ∃ failure after, build.attempt before = (.error failure, after) ∧
        after.cache = before.cache ∧ before.Keeps after := by
  -- A failed attempt takes back what the build has cached, but none of the documents.
  have grown := grows before
  unfold Build.attempt
  rcases hrun : build.run before with ⟨result, after⟩
  rw [hrun] at grown
  cases result with
  | ok a => exact .inl ⟨a, after, hrun, rfl⟩
  | error failure =>
      have same := Library.cache_retain grown
      refine .inr ⟨failure, after.retain before, rfl, same, fun _ _ filled => grown.get? filled, ?_⟩
      intro id ref cached
      rw [same]
      exact cached

namespace Repository

open Library

variable {κ : Type} {repository : Repository κ} {before after : Library}

theorem grows_template (repository : Repository κ) (name : String) :
    (repository.template name).Grows := by
  apply (grows_load repository _ none name).bind
  intro found
  cases found with
  | none => exact Build.grows_throw _
  | some root => exact Build.grows_pure _

theorem grows_templateOfText (repository : Repository κ) (text : String) :
    (repository.templateOfText text).Grows :=
  (grows_compile (grows_load repository _ none) text none).bind fun document =>
    (Build.grows_add document).bind fun _ => Build.grows_pure _

theorem completes_template {name : String} {template : Template κ}
    (yields : (repository.template name).Yields before template after) :
    before.Completes repository.source after ∧ ∃ id, after.cache.lookup id = some template.root := by
  obtain ⟨loaded, -⟩ := template_yields yields
  obtain ⟨source, id, -, -, cached⟩ := links_of_load loaded
  exact ⟨completes_load loaded, id, cached⟩

theorem completes_templateOfText {text : String} {template : Template κ}
    (yields : (repository.templateOfText text).Yields before template after) :
    before.Completes repository.source after ∧
      after.Complete repository.source none template.root := by
  obtain ⟨document, middle, compiled, rfl, rfl⟩ := templateOfText_yields yields
  have resolves := resolves_load repository repository.depth none
  have grown := middle.extends_add document
  have completes := completes_compile resolves completes_load compiled
  have assembled := Assembly.assembled_of_ofScan resolves compiled
  refine ⟨completes.trans (completes_of_cache _ grown rfl), document, false, _,
    Store.get?_add_self middle.store document, assembled.kept grown.keeps⟩

end Repository

/-! ## Sessions -/

/-- What can be asked of a repository. Its source may answer differently every time. -/
inductive Request (κ : Type) where
  | template (repository : Repository κ) (name : String)
  | text (repository : Repository κ) (text : String)
  | reload

def Request.source {κ : Type} : Request κ → Option Source
  | template repository _ => repository.source
  | text repository _ => repository.source
  | reload => none

/-- The library of a repository, and the templates handed out, the latest first. -/
structure Session where
  library : Library
  handed : List Ref

namespace Session

variable {κ : Type}

def receive (session : Session) : Except Failure (Template κ) × Library → Session
  | (.ok template, library) => ⟨library, template.root :: session.handed⟩
  | (.error _, library) => ⟨library, session.handed⟩

def next (session : Session) : Request κ → Session
  | .template repository name =>
    session.receive ((repository.template name).attempt session.library)
  | .text repository text =>
    session.receive ((repository.templateOfText text).attempt session.library)
  | .reload => { session with library := session.library.reload }

def after : List (Request κ) → Session
  | [] => ⟨.empty, []⟩
  | request :: earlier => (after earlier).next request

/-- A template was compiled since the last reload: it became cached then, or it was a text. -/
inductive Compiled : List (Request κ) → Option Source → Option String → Ref → Prop
  | cached {request : Request κ} {earlier : List (Request κ)} {id : String} {ref : Ref} :
      (after earlier).library.cache.lookup id = none →
      (after (request :: earlier)).library.cache.lookup id = some ref →
      Compiled (request :: earlier) request.source (some id) ref
  | text {repository : Repository κ} {text : String} {earlier : List (Request κ)}
      {template : Template κ} {library : Library} :
      (repository.templateOfText text).attempt (after earlier).library = (.ok template, library) →
      Compiled (.text repository text :: earlier) repository.source none template.root
  | earlier {request : Request κ} {earlier : List (Request κ)} {source : Option Source}
      {base : Option String} {ref : Ref} : request ≠ .reload → Compiled earlier source base ref →
      Compiled (request :: earlier) source base ref

inductive Answers (request : Request κ) (session next : Session) : Prop
  | reloaded : request = .reload → next = { session with library := session.library.reload } →
      Answers request session next
  | failed : request ≠ .reload → next.handed = session.handed →
      next.library.cache = session.library.cache → session.library.Keeps next.library →
      Answers request session next
  | handed {root : Ref} : request ≠ .reload → next.handed = root :: session.handed →
      session.library.Completes request.source next.library →
      ((∃ id, next.library.cache.lookup id = some root) ∨
        next.library.Complete request.source none root) →
      Answers request session next

theorem answers_receive (session : Session) {request : Request κ} (asked : request ≠ .reload)
    {build : Build (Template κ)} (grows : build.Grows)
    (succeeds : ∀ {template : Template κ} {after : Library},
      build.Yields session.library template after →
        session.library.Completes request.source after ∧
          ((∃ id, after.cache.lookup id = some template.root) ∨
            after.Complete request.source none template.root)) :
    Answers request session (session.receive (build.attempt session.library)) := by
  rcases Build.attempt_cases grows session.library with
    ⟨template, after, yields, attempt⟩ | ⟨failure, after, attempt, same, kept⟩
  · obtain ⟨completes, found⟩ := succeeds yields
    rw [attempt]
    exact .handed asked rfl completes found
  · rw [attempt]
    exact .failed asked rfl same kept

theorem answers (session : Session) (request : Request κ) :
    Answers request session (session.next request) := by
  cases request with
  | template repository name =>
      apply session.answers_receive (by nofun) (repository.grows_template name)
      intro template after yields
      obtain ⟨completes, cached⟩ := Repository.completes_template yields
      exact ⟨completes, .inl cached⟩
  | text repository text =>
      apply session.answers_receive (by nofun) (repository.grows_templateOfText text)
      intro template after yields
      obtain ⟨completes, complete⟩ := Repository.completes_templateOfText yields
      exact ⟨completes, .inr complete⟩
  | reload => exact .reloaded rfl rfl

theorem Answers.keeps {request : Request κ} {session next : Session}
    (answers : Answers request session next) : session.library.store.Keeps next.library.store := by
  cases answers with
  | reloaded _ same =>
      rw [same]
      exact fun _ _ filled => filled
  | failed _ _ _ kept => exact kept.store
  | handed _ _ completes => exact completes.grown.keeps.store

theorem keeps (later requests : List (Request κ)) :
    (after requests).library.store.Keeps (after (later ++ requests)).library.store := by
  induction later with
  | nil => exact fun _ _ filled => filled
  | cons request later ih =>
      have last := (answers (after (later ++ requests)) request).keeps
      exact fun ref document filled => last ref document (ih ref document filled)

theorem complete_of_text {repository : Repository κ} {text : String} {template : Template κ}
    {before library : Library}
    (attempt : (repository.templateOfText text).attempt before = (.ok template, library)) :
    library.Complete repository.source none template.root := by
  rcases Build.attempt_cases (repository.grows_templateOfText text) before with
    ⟨template', after, yields, attempt'⟩ | ⟨failure, after, attempt', -, -⟩
  · rw [attempt] at attempt'
    cases attempt'
    exact (Repository.completes_templateOfText yields).2
  · rw [attempt] at attempt'
    cases attempt'

structure Sound (requests : List (Request κ)) : Prop where
  compiled : ∀ {source : Option Source} {base : Option String} {ref : Ref},
    Compiled requests source base ref → (after requests).library.Complete source base ref
  origin : ∀ {id : String} {ref : Ref}, (after requests).library.cache.lookup id = some ref →
    ∃ source, Compiled requests source (some id) ref
  handed : ∀ root ∈ (after requests).handed, (after requests).library.store.Sealed root

theorem Sound.library_closed {requests : List (Request κ)} (sound : Sound requests) :
    (after requests).library.Closed := by
  intro id ref cached
  obtain ⟨source, compiled⟩ := sound.origin cached
  exact ⟨source, sound.compiled compiled⟩

theorem compiled_cons {request : Request κ} {earlier : List (Request κ)} (sound : Sound earlier)
    {source : Option Source} {base : Option String} {ref : Ref}
    (compiled : Compiled (request :: earlier) source base ref) :
    (after (request :: earlier)).library.Complete source base ref := by
  have step := answers (after earlier) request
  cases compiled with
  | cached fresh found =>
      cases step with
      | reloaded _ same =>
          rw [after, same] at found
          cases found
      | failed _ _ same =>
          rw [after, same, fresh] at found
          cases found
      | handed _ _ completes =>
          rcases completes.entries found with old | complete
          · rw [fresh] at old
            cases old
          · exact complete
  | text attempt =>
      rw [after, next, attempt]
      exact complete_of_text attempt
  | earlier asked compiled =>
      have complete := sound.compiled compiled
      cases step with
      | reloaded reload => exact absurd reload asked
      | failed _ _ _ kept => exact complete.kept kept
      | handed _ _ completes => exact complete.kept completes.grown.keeps

theorem origin_cons {request : Request κ} {earlier : List (Request κ)} (sound : Sound earlier)
    {id : String} {ref : Ref}
    (found : (after (request :: earlier)).library.cache.lookup id = some ref) :
    ∃ source, Compiled (request :: earlier) source (some id) ref := by
  have step := answers (after earlier) request
  cases old : (after earlier).library.cache.lookup id with
  | none => exact ⟨request.source, .cached old found⟩
  | some ref' =>
      obtain ⟨source, compiled⟩ := sound.origin old
      cases step with
      | reloaded _ same =>
          rw [after, same] at found
          cases found
      | failed asked _ same =>
          rw [after, same, old] at found
          cases found
          exact ⟨source, .earlier asked compiled⟩
      | handed asked _ completes =>
          have still := completes.grown.lookup old
          rw [after, still] at found
          cases found
          exact ⟨source, .earlier asked compiled⟩

theorem sound (requests : List (Request κ)) : Sound requests := by
  induction requests with
  | nil => exact ⟨nofun, nofun, nofun⟩
  | cons request earlier ih =>
      have step := answers (after earlier) request
      have kept := step.keeps
      have closed : (after (request :: earlier)).library.Closed := by
        intro id ref cached
        obtain ⟨source, compiled⟩ := origin_cons ih cached
        exact ⟨source, compiled_cons ih compiled⟩
      refine ⟨compiled_cons ih, origin_cons ih, ?_⟩
      cases step with
      | reloaded _ same =>
          rw [after, same]
          exact ih.handed
      | failed _ same =>
          rw [after, same]
          exact fun root member => (ih.handed root member).kept kept
      | handed _ same _ found =>
          rw [after, same]
          intro root member
          rcases List.mem_cons.mp member with rfl | member
          · rcases found with ⟨id, cached⟩ | complete
            · obtain ⟨source, complete⟩ := closed id root cached
              exact complete.whole closed
            · exact complete.whole closed
          · exact (ih.handed root member).kept kept

/-! ## Closure -/

def RefersTo (requests : List (Request κ)) (id : String) (target : Ref) : Prop :=
  ∃ source base ref document part node name, Compiled requests (some source) base ref ∧
    (after requests).library.store.get? ref = some document ∧
    document.Within (after requests).library.store part ∧ node ∈ part.nodes ∧
    node.Refers name target ∧ source.id? name base = some id

structure Closed (requests : List (Request κ)) : Prop where
  filled : ∀ {id : String} {ref : Ref}, (after requests).library.cache.lookup id = some ref →
    ∃ document, (after requests).library.store.get? ref = some document
  origin : ∀ {id : String} {ref : Ref}, (after requests).library.cache.lookup id = some ref →
    ∃ source, Compiled requests source (some id) ref
  resolved : ∀ {source : Option Source} {base : Option String} {ref : Ref},
    Compiled requests source base ref →
      ∃ document, (after requests).library.store.get? ref = some document ∧
        ∀ part, document.Within (after requests).library.store part → ∀ node ∈ part.nodes,
          ∀ name target, node.Refers name target →
            (after requests).library.Links source base name target
  shared : ∀ {id : String} {target target' : Ref}, RefersTo requests id target →
    RefersTo requests id target' → target = target'
  handed : ∀ root ∈ (after requests).handed, (after requests).library.store.Sealed root
  kept : ∀ later, (after requests).library.store.Keeps (after (later ++ requests)).library.store

theorem Sound.refersTo {requests : List (Request κ)} (sound : Sound requests) {id : String}
    {target : Ref} (refersTo : RefersTo requests id target) :
    (after requests).library.cache.lookup id = some target := by
  obtain ⟨source, base, ref, document, part, node, name, compiled, filled, within, member, refers,
    hid⟩ := refersTo
  obtain ⟨document', filled', links⟩ := (sound.compiled compiled).resolved
  rw [filled] at filled'
  cases filled'
  obtain ⟨source', id', hsource, hid', cached⟩ := links part within node member name target refers
  cases hsource
  rw [hid] at hid'
  cases hid'
  exact cached

theorem closed_after (requests : List (Request κ)) : Closed requests where
  filled := by
    intro id ref cached
    obtain ⟨source, document, inside, tokens, filled, -⟩ := (sound requests).library_closed id ref cached
    exact ⟨document, filled⟩
  origin := (sound requests).origin
  resolved compiled := ((sound requests).compiled compiled).resolved
  shared := by
    intro id target target' refersTo refersTo'
    have cached := (sound requests).refersTo refersTo
    rw [(sound requests).refersTo refersTo'] at cached
    exact (Option.some.inj cached).symm
  handed := (sound requests).handed
  kept later := keeps later requests

end Session

end Stencil
