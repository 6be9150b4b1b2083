import Stencil.Proofs.Assembly.Lockstep
import Stencil.Proofs.Assembly.Recompile

/-!
# Templates cached before

A template that is cached is not compiled again. Where all that is cached is accepted and refers to
cached templates only (`Repository.Whole`), compiling it once more would succeed, and would cache
nothing else (`exists_load`). So a library that has cached more finds what a library that has cached
less finds, and fails where it fails (`agrees_load`). Either has templates left to compile as deep as
they can be nested, so none is exhausted.
-/

namespace Stencil

open Token

namespace Library

def Caches (library : Library) (id : String) : Prop :=
  ∃ ref, library.cache.lookup id = some ref

def remaining (library : Library) (ids : List String) : Nat :=
  ids.countP fun id => (library.cache.lookup id).isNone

variable {library later : Library} {id other : String} {ids : List String}

theorem Keeps.caches (kept : library.Keeps later) (cached : library.Caches id) : later.Caches id := by
  obtain ⟨ref, cached⟩ := cached
  exact ⟨ref, kept.cache cached⟩

theorem caches_congr (same : later.cache = library.cache) : later.Caches id ↔ library.Caches id := by
  rw [Caches, Caches, same]

theorem caches_reserved : (library.reserved id).Caches other ↔ other = id ∨ library.Caches other := by
  unfold Caches reserved
  by_cases same : other = id
  · simp [same]
  · simp [List.lookup_cons, same, beq_eq_false_iff_ne.mpr same]

theorem remaining_mono (kept : ∀ id, library.Caches id → later.Caches id) (ids : List String) :
    later.remaining ids ≤ library.remaining ids := by
  refine List.countP_mono_left fun id _ absent => ?_
  cases cached : library.cache.lookup id with
  | none => rfl
  | some ref =>
      obtain ⟨ref', still⟩ := kept id ⟨ref, cached⟩
      rw [still] at absent
      cases absent

theorem remaining_congr (same : later.cache = library.cache) (ids : List String) :
    later.remaining ids = library.remaining ids := by
  rw [remaining, remaining, same]

theorem remaining_reserved (member : id ∈ ids) (fresh : library.cache.lookup id = none) :
    (library.reserved id).remaining ids < library.remaining ids := by
  have kept (id' : String) (cached : library.Caches id') : (library.reserved id).Caches id' :=
    caches_reserved.mpr (.inr cached)
  obtain ⟨before, after, rfl⟩ := List.append_of_mem member
  have first := remaining_mono kept before
  have last := remaining_mono kept after
  have here : (library.reserved id).cache.lookup id = some ⟨library.store.size⟩ := by
    simp [reserved]
  unfold remaining at first last ⊢
  simp only [List.countP_append, List.countP_cons, here, fresh, Option.isNone_some,
    Option.isNone_none, Bool.false_eq_true, if_true, if_false]
  omega

end Library

def Source.Within (source : Source) (ids : List String) : Prop :=
  ∀ {name : String} {base : Option String} {id : String}, source.id? name base = some id → id ∈ ids

namespace Repository

open Library

variable {κ : Type}

/-- A template is read without a fault, and all it refers to is among some known templates. -/
structure Accepts (repository : Repository κ) (source : Source) (known : String → Prop) (id : String)
    (text : String) (tokens : List Token) : Prop where
  read : source.text id = .ok text
  scan : repository.scan text (some id) = (tokens, .finished)
  faultless : Faultless tokens
  closed : openings tokens = []
  names : ∀ token ∈ tokens, ∀ name, token.Asks name →
    ∃ id', source.id? name (some id) = some id' ∧ known id'

def Whole (repository : Repository κ) (source : Source) (known : String → Prop) : Prop :=
  ∀ id, known id → ∃ text tokens, repository.Accepts source known id text tokens

variable {repository : Repository κ} {source : Source} {known : String → Prop} {ids : List String}

theorem yields_load {depth : Nat} {base : Option String} {name id text : String} {document : Document}
    {before middle : Library} (hsource : repository.source = some source)
    (hid : source.id? name base = some id) (fresh : before.cache.lookup id = none)
    (read : source.text id = .ok text)
    (compiled : (repository.compile (repository.load depth (some id)) text (some id)).Yields
      (before.reserved id) document middle) :
    (repository.load (depth + 1) base name).Yields before (some ⟨before.store.size⟩)
      { middle with store := middle.store.fill ⟨before.store.size⟩ document } := by
  rw [Build.Yields, load_succ, hsource]
  dsimp only
  rw [hid]
  dsimp only
  rw [fresh]
  exact Build.yields_bind.mpr ⟨text, _, Build.yields_ofExcept.mpr ⟨read, rfl⟩,
    Build.yields_bind.mpr ⟨document, middle, compiled, rfl⟩⟩

theorem exists_load (hsource : repository.source = some source) (within : source.Within ids)
    (whole : repository.Whole source known) {depth : Nat} {base : Option String} {name id : String}
    {before : Library} (hid : source.id? name base = some id) (hknown : known id)
    (enough : before.remaining ids < depth) :
    ∃ ref after, (repository.load depth base name).Yields before (some ref) after ∧
      ∀ other, after.Caches other → before.Caches other ∨ known other := by
  induction depth generalizing base name id before with
  | zero => exact absurd enough (Nat.not_lt_zero _)
  | succ depth ih =>
      cases cached : before.cache.lookup id with
      | some ref =>
          exact ⟨ref, before, recalls_load repository depth base ⟨source, id, hsource, hid, cached⟩,
            fun _ here => .inl here⟩
      | none =>
          obtain ⟨text, tokens, accepts⟩ := whole id hknown
          -- While the text is compiled, known templates become cached, and no others.
          let P (library : Library) : Prop :=
            library.remaining ids < depth ∧
              ∀ other, library.Caches other → before.Caches other ∨ known other
          have placed : P (before.reserved id) := by
            have fewer := remaining_reserved (within hid) cached
            refine ⟨by omega, fun other here => ?_⟩
            rcases caches_reserved.mp here with rfl | here
            · exact .inr hknown
            · exact .inl here
          have kept {library later : Library} (holds : P library)
              (same : later.cache = library.cache) : P later := by
            refine ⟨?_, fun other here => holds.2 other ((caches_congr same).mp here)⟩
            rw [remaining_congr same]
            exact holds.1
          have found (token : Token) (member : token ∈ tokens) (name : String)
              (asks : token.Asks name) {library : Library} (holds : P library) :
              ∃ ref after, (repository.load depth (some id) name).Yields library (some ref) after ∧
                P after := by
            obtain ⟨id', hid', hknown'⟩ := accepts.names token member name asks
            obtain ⟨ref, after, yields, only⟩ := ih hid' hknown' holds.1
            have grown := (grows_load repository depth (some id) name).yields yields
            have fewer := remaining_mono (fun _ => grown.keeps.caches) ids
            refine ⟨ref, after, yields, Nat.lt_of_le_of_lt fewer holds.1, fun other here => ?_⟩
            exact (only other here).elim (holds.2 other) .inr
          obtain ⟨a, middle, run, holds, taken⟩ :=
            Assembly.exists_run kept found accepts.faultless placed
          have closed : a.scopes = [] := by
            simpa [accepts.closed] using taken.openings
          have compiled := Assembly.yields_ofScan accepts.scan run closed
          exact ⟨_, _, yields_load hsource hid cached accepts.read compiled, holds.2⟩

/-- A library has cached what another one has and, besides, what is known. The other one has fewer
templates to compile than may be nested. -/
structure Ahead (known : String → Prop) (ids : List String) (depth : Nat)
    (library other : Library) : Prop where
  caches : ∀ id, library.Caches id ↔ other.Caches id ∨ known id
  enough : other.remaining ids < depth

theorem Ahead.congr {depth : Nat} {library other later later' : Library}
    (ahead : Ahead known ids depth library other) (same : later.cache = library.cache)
    (same' : later'.cache = other.cache) : Ahead known ids depth later later' := by
  refine ⟨fun id => ?_, ?_⟩
  · rw [caches_congr same, caches_congr same']
    exact ahead.caches id
  · rw [remaining_congr same']
    exact ahead.enough

theorem agrees_load (hsource : repository.source = some source) (within : source.Within ids)
    (whole : repository.Whole source known) {depth : Nat} (base : Option String) (name : String)
    {before before' : Library} (ahead : Ahead known ids depth before before') :
    Build.Agrees (Ahead known ids depth) (fun found found' => found.isSome = found'.isSome)
      ((repository.load depth base name).run before)
      ((repository.load depth base name).run before') := by
  induction depth generalizing base name before before' with
  | zero => exact absurd ahead.enough (Nat.not_lt_zero _)
  | succ depth ih =>
      cases hid : source.id? name base with
      | none =>
          rw [load_succ, load_succ, hsource]
          dsimp only
          rw [hid]
          exact .succeeded rfl ahead
      | some id =>
          cases cached : before.cache.lookup id with
          | some ref =>
              have recalled := recalls_load repository depth base ⟨source, id, hsource, hid, cached⟩
              rw [recalled]
              rcases (ahead.caches id).mp ⟨ref, cached⟩ with ⟨ref', cached'⟩ | hknown
              · have recalled' :=
                  recalls_load repository depth base ⟨source, id, hsource, hid, cached'⟩
                rw [recalled']
                exact .succeeded rfl ahead
              · -- Only the other library compiles the template. What that caches, the first one has.
                obtain ⟨ref', after, yields, only⟩ :=
                  exists_load hsource within whole hid hknown ahead.enough
                have kept := ((grows_load repository (depth + 1) base name).yields yields).keeps
                have fewer := remaining_mono (fun _ => kept.caches) ids
                rw [yields]
                refine .succeeded rfl ⟨fun other => ?_, Nat.lt_of_le_of_lt fewer ahead.enough⟩
                rw [ahead.caches other]
                exact ⟨.imp_left kept.caches, fun here => here.elim (only other) .inr⟩
          | none =>
              have absent := mt (ahead.caches id).mpr (by simp [Caches, cached])
              have fresh : before'.cache.lookup id = none := by
                by_contra present
                obtain ⟨ref, cached'⟩ := Option.ne_none_iff_exists'.mp present
                exact absent (.inl ⟨ref, cached'⟩)
              have placed : Ahead known ids depth (before.reserved id) (before'.reserved id) := by
                have fewer := remaining_reserved (within hid) fresh
                have enough := ahead.enough
                refine ⟨fun other => ?_, by omega⟩
                rw [caches_reserved, caches_reserved, ahead.caches other, or_assoc]
              have lockstep : Assembly.InLockstep (Ahead known ids depth)
                  (repository.load depth (some id)) (repository.load depth (some id)) :=
                ⟨Ahead.congr, fun name _ _ => ih (some id) name⟩
              rw [load_succ, load_succ, hsource]
              dsimp only
              rw [hid]
              dsimp only
              rw [cached, fresh]
              dsimp only
              rw [loadText, loadText]
              cases source.text id with
              | error error => exact .failed
              | ok text =>
                  refine (repository.agrees_compile lockstep placed text (some id)).bind
                    fun _ ahead => .succeeded rfl ⟨ahead.caches, Nat.lt_succ_of_lt ahead.enough⟩

theorem agrees_template (hsource : repository.source = some source) (within : source.Within ids)
    (whole : repository.Whole source known) (name : String) {before before' : Library}
    (ahead : Ahead known ids repository.depth before before') :
    Build.Agrees (Ahead known ids repository.depth)
      (fun template template' => template.context = template'.context)
      ((repository.template name).run before) ((repository.template name).run before') := by
  refine (agrees_load hsource within whole none name ahead).bind
    fun {found found' _ _} same ahead => ?_
  cases found with
  | none =>
      cases found' with
      | none => exact .failed
      | some root' => cases same
  | some root =>
      cases found' with
      | none => cases same
      | some root' => exact .succeeded rfl ahead

theorem agrees_templateOfText (hsource : repository.source = some source)
    (within : source.Within ids) (whole : repository.Whole source known) (text : String)
    {before before' : Library} (ahead : Ahead known ids repository.depth before before') :
    Build.Agrees (Ahead known ids repository.depth)
      (fun template template' => template.context = template'.context)
      ((repository.templateOfText text).run before)
      ((repository.templateOfText text).run before') := by
  have lockstep : Assembly.InLockstep (Ahead known ids repository.depth)
      (repository.load repository.depth none) (repository.load repository.depth none) :=
    ⟨Ahead.congr, fun name _ _ => agrees_load hsource within whole none name⟩
  refine (repository.agrees_compile lockstep ahead text none).bind fun _ ahead => ?_
  exact .succeeded rfl (ahead.congr rfl rfl)

end Repository

end Stencil
