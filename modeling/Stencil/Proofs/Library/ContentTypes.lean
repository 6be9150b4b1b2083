import Stencil.Proofs.Library.History

namespace Stencil

open Token

namespace Token

def declares? (token : Token) : Option ContentType :=
  if token.kind = .pragmaTag then Assembly.pragmaType? (Text.trim token.content).toList else none

def Misplaced (tokens : List Token) : Prop :=
  ∃ i j : Nat, i < j ∧ tokens[i]?.any (·.kind.renders) = true ∧
    (tokens[j]?.bind declares?).isSome = true

def declared (configured : ContentType) (tokens : List Token) : ContentType :=
  (tokens.filterMap declares?).getLast?.getD configured

theorem settle_eq (contentType : ContentType) (token : Token) :
    token.settle contentType = token.declares?.getD contentType := by
  unfold settle declares?
  split <;> rfl

theorem foldl_settle (configured : ContentType) (tokens : List Token) :
    tokens.foldl settle configured = declared configured tokens := by
  induction tokens using List.reverseRecOn with
  | nil => rfl
  | append_singleton tokens token ih =>
      rw [List.foldl_append, ih, List.foldl_cons, List.foldl_nil, settle_eq, declared, declared,
        List.filterMap_append]
      cases declares : token.declares? with
      | none => simp [declares]
      | some contentType => simp [declares]

theorem Faultless.not_misplaced {tokens : List Token} (faultless : Faultless tokens) :
    ¬ Misplaced tokens := by
  rintro ⟨i, j, before, renders, declares⟩
  obtain ⟨other, here, kind⟩ := (Option.any_eq_true _ _).mp renders
  obtain ⟨contentType, declares⟩ := Option.isSome_iff_exists.mp declares
  obtain ⟨pragma, there, declares⟩ := Option.bind_eq_some_iff.mp declares
  obtain ⟨inside, rfl⟩ := List.getElem?_eq_some_iff.mp there
  have within : tokens.take j ++ [tokens[j]] <+: tokens := by
    rw [List.take_append_getElem]
    exact List.take_prefix _ _
  have earlier : other ∈ tokens.take j := by
    refine List.mem_of_getElem? (i := i) ?_
    rwa [List.getElem?_take_of_lt before]
  by_cases pragmaTag : tokens[j].kind = .pragmaTag
  · rw [declares?, if_pos pragmaTag] at declares
    exact faultless _ _ within _ (.pragma pragmaTag declares earlier kind)
  · simp [declares?, pragmaTag] at declares

end Token

/-- The content type of a document, and of all its parts, is the one that its tokens declare. They do
not declare one too late. -/
structure DecidedBy (store : Store) (configured : ContentType) (tokens : List Token)
    (document : Document) : Prop where
  contentType : document.contentType = declared configured tokens
  placed : ¬ Misplaced tokens
  uniform : ∀ part, document.Within store part → part.contentType = document.contentType
  overriding : ∀ part, document.Within store part → ∀ name parent overriding,
    .inheritTag name parent overriding ∈ part.nodes → ∃ body, store.get? overriding = some body

namespace Repository

variable {κ : Type} {repository : Repository κ} {library later before after : Library}
  {base : Option String} {text : String} {document : Document} {tokens : List Token}

theorem Compiles.decided (compiles : repository.Compiles library base text document tokens) :
    DecidedBy library.store repository.configuration.contentType (repository.scan text base).1
      document := by
  rw [compiles.scan]
  refine ⟨compiles.contentType.trans (foldl_settle _ _), compiles.faultless.not_misplaced,
    fun part within => ?_, fun part within name parent overriding member => ?_⟩
  · obtain ⟨_, _, _, _, _, same, -⟩ := compiles.assembled.within within
    exact same
  · obtain ⟨_, _, _, _, _, -, assembled⟩ := compiles.assembled.within within
    exact assembled.overrides member

def Decides (repository : Repository κ) (library : Library) (id : String) (ref : Ref) : Prop :=
  ∃ source text document, repository.source = some source ∧ source.text id = .ok text ∧
    library.store.get? ref = some document ∧
    DecidedBy library.store repository.configuration.contentType (repository.scan text (some id)).1
      document

theorem Faithful.decides {id : String} {ref : Ref}
    (faithful : repository.Faithful library id ref) : repository.Decides library id ref := by
  obtain ⟨source, text, document, tokens, hsource, read, filled, compiles⟩ := faithful
  exact ⟨source, text, document, hsource, read, filled, compiles.decided⟩

def DecidesSince (repository : Repository κ) (before after : Library) : Prop :=
  ∀ id ref, after.cache.lookup id = some ref →
    before.cache.lookup id = some ref ∨ repository.Decides after id ref

theorem Gains.decidesSince (gains : repository.Gains before after) :
    repository.DecidesSince before after :=
  fun _ _ cached => (gains.entries cached).imp_right fun enters => enters.faithful.decides

theorem run_misplaced (misplaced : Misplaced (repository.scan text base).1) (depth : Nat)
    (library : Library) :
    ∃ failure after, (repository.compile (repository.load depth base) text base).run library =
      (.error failure, after) := by
  rcases run : (repository.compile (repository.load depth base) text base).run library with
    ⟨failure | document, after⟩
  · exact ⟨failure, after, rfl⟩
  · obtain ⟨tokens, compiles⟩ := exists_compiles (resolves_load repository depth base) run
    exact absurd misplaced compiles.decided.placed

theorem contentType_eq {other : Repository κ} {depth depth' : Nat} {before' after' : Library}
    {document' : Document} (configured : other.configuration = repository.configuration)
    (compiled : (repository.compile (repository.load depth base) text base).Yields before document
      after)
    (compiled' : (other.compile (other.load depth' base) text base).Yields before' document'
      after') : document'.contentType = document.contentType := by
  obtain ⟨tokens, compiles⟩ := exists_compiles (resolves_load repository depth base) compiled
  obtain ⟨tokens', compiles'⟩ := exists_compiles (resolves_load other depth' base) compiled'
  rw [compiles.decided.contentType, compiles'.decided.contentType, scan, scan, configured]

theorem contentTypes_decided (repository : Repository κ) (library : Library) :
    (∀ text template after, (repository.templateOfText text).Yields library template after →
      repository.DecidesSince library after ∧
      ∃ document, after.store.get? template.root = some document ∧
        DecidedBy after.store repository.configuration.contentType (repository.scan text none).1
          document) ∧
    (∀ name template after, (repository.template name).Yields library template after →
      repository.DecidesSince library after ∧ ∃ id, after.cache.lookup id = some template.root) ∧
    (∀ calls id ref, (Session.libraryAfter repository calls).cache.lookup id = some ref →
      repository.Decides (Session.libraryAfter repository calls) id ref) ∧
    (∀ text base depth, Misplaced (repository.scan text base).1 →
      ∃ failure after, (repository.compile (repository.load depth base) text base).run library =
        (.error failure, after)) ∧
    ∀ other : Repository κ, other.configuration = repository.configuration →
      ∀ text base depth depth' library' document document' after after',
        (repository.compile (repository.load depth base) text base).Yields library document after →
        (other.compile (other.load depth' base) text base).Yields library' document' after' →
        document'.contentType = document.contentType := by
  refine ⟨fun text template after yields => ?_, fun name template after yields => ?_,
    fun calls id ref cached => ((Session.sound_after repository calls).faithful cached).decides,
    fun text base depth misplaced => run_misplaced misplaced depth library, ?_⟩
  · obtain ⟨document, tokens, filled, compiles⟩ := compiles_of_text yields
    exact ⟨(gains_templateOfText yields).decidesSince, document, filled, compiles.decided⟩
  · obtain ⟨_, id, -, -, cached⟩ := links_of_load (template_yields yields).1
    exact ⟨(gains_template yields).decidesSince, id, cached⟩
  · intro other configured _ _ _ _ _ _ _ _ _ compiled compiled'
    exact contentType_eq configured compiled compiled'

theorem contentTypes_decided_inherited :
    let repository : Repository Empty :=
      ⟨some (.memory [("p", "\x7b\x7b$b\x7d\x7d\x7b\x7bx\x7d\x7d\x7b\x7b/b\x7d\x7d")]), .standard⟩
    let text := "\x7b\x7b%CONTENT_TYPE:HTML\x7d\x7d\x7b\x7b% CONTENT_TYPE : TEXT \x7d\x7d" ++
      "\x7b\x7b<p\x7d\x7d\x7b\x7b$b\x7d\x7dé\x7b\x7b/b\x7d\x7d\x7b\x7b/p\x7d\x7d"
    let late := "\x7b\x7b#s\x7d\x7da\x7b\x7b%CONTENT_TYPE:HTML\x7d\x7d\x7b\x7b/s\x7d\x7d"
    (∃ template after document inherited,
      (repository.templateOfText text).Yields .empty template after ∧
      after.store.get? template.root = some document ∧ document.contentType = .text ∧
      (∀ part, document.Within after.store part → part.contentType = .text) ∧
      (after.cache.lookup "p").bind after.store.get? = some inherited ∧
      inherited.contentType = .html) ∧
    ∃ failure after, (repository.compile (repository.load repository.depth none) late none).run
      .empty = (.error failure, after) := by
  intro repository text late
  obtain ⟨texts, -, -, misplaced, -⟩ := contentTypes_decided repository .empty
  have tooLate : Misplaced (repository.scan late none).1 :=
    ⟨0, 2, by decide, by decide +kernel, by decide +kernel⟩
  refine ⟨?_, misplaced late none _ tooLate⟩
  have compiles : ((repository.templateOfText text).run .empty).1.isOk = true := by decide +kernel
  have cached : (((repository.templateOfText text).run .empty).2.cache.lookup "p").isSome = true := by
    decide +kernel
  rcases run : (repository.templateOfText text).run .empty with ⟨failure | template, after⟩
  · rw [run] at compiles
    cases compiles
  · rw [run] at cached
    obtain ⟨ref, cached⟩ := Option.isSome_iff_exists.mp cached
    obtain ⟨since, document, filled, decided⟩ := texts text template after run
    have declared : document.contentType = .text := decided.contentType.trans (by decide +kernel)
    rcases since "p" ref cached with before | ⟨source, _, inherited, hsource, read, filled', decided'⟩
    · cases before
    · cases hsource
      cases read
      refine ⟨template, after, document, inherited, run, filled, declared,
        fun part within => (decided.uniform part within).trans declared, ?_,
        decided'.contentType.trans (by decide +kernel)⟩
      rw [cached]
      exact filled'

end Repository

end Stencil
