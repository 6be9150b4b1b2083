import Mathlib
import Stencil.Proofs.Assembly.Walk
import Stencil.Proofs.Library.Load

/-!
# Accepted templates

The tokens of a template are accepted if they are well nested, and rejected for the first token that
offends or, if none does, for a scope that is left open (`compile_nested`). An accepted template
shows all of its tokens: its nodes, walked from left to right and each from its opening tag through
its body to its closing tag, are what the tokens stand for, one by one.
-/

namespace Stencil

open Assembly

/-! ## Acceptance -/

/-- While some tokens are assembled, one of them asks for a name, with what is compiled by then. -/
def Asked (resolve : String → Build (Option Ref)) (contentType : ContentType) (tokens : List Token)
    (library : Library) (name : String) (before : Library) : Prop :=
  ∃ earlier token a, earlier ++ [token] <+: tokens ∧ token.Asks name ∧
    (earlier.foldlM (take resolve) (start contentType)).Yields library a before

/-- Whenever some tokens ask for a name, it has the same answer. -/
def Settled (resolve : String → Build (Option Ref)) (contentType : ContentType)
    (tokens : List Token) (library : Library) (answer : String → Except Error (Option Ref)) : Prop :=
  ∀ name before, Asked resolve contentType tokens library name before →
    ∃ after, (resolve name).run before = ((answer name).mapError .error, after) ∧
      before.Extends after

variable {answer : String → Except Error (Option Ref)} {earlier tokens : List Token} {token : Token}

inductive Token.Offends (answer : String → Except Error (Option Ref)) (earlier : List Token)
    (token : Token) : Error → Prop
  | faulty {error : ParseError} : token.Faulty earlier error →
      Offends answer earlier token (.parse error)
  | failed {name : String} {error : Error} : token.Asks name → answer name = .error error →
      Offends answer earlier token error
  | missing {name : String} : token.Asks name → answer name = .ok none →
      Offends answer earlier token (.parse ⟨.missingTemplate name, token.location⟩)

def Token.Clean (answer : String → Except Error (Option Ref)) (tokens : List Token) : Prop :=
  Throughout (fun earlier token => ∀ error, ¬ token.Offends answer earlier error) tokens

structure WellNested (answer : String → Except Error (Option Ref)) (tokens : List Token) : Prop where
  expressions : ∀ token ∈ tokens, token.kind.holdsExpression = true →
    ∃ expression, Expression.ofText token.content = .ok expression
  names : ∀ token ∈ tokens, token.kind.named?.isSome = true → Text.trim token.content ≠ ""
  resolved : ∀ token ∈ tokens, token.kind = .partialTag ∨ token.kind = .inheritTag →
    ∃ ref, answer (Text.trim token.content) = .ok (some ref)
  pragmas : ∀ earlier token, earlier ++ [token] <+: tokens → token.kind = .pragmaTag →
    (pragmaType? (Text.trim token.content).toList).isSome = true →
    ∀ other ∈ earlier, other.kind.renders = false
  closings : ∀ earlier token, earlier ++ [token] <+: tokens → token.kind = .closeTag →
    ∃ opening outer, Token.openings earlier = opening :: outer ∧ token.Matches opening
  closed : Token.openings tokens = []

/-- The error of some tokens: that of the first one that offends, or that of the innermost scope left
open at the end. -/
inductive Rejects (answer : String → Except Error (Option Ref)) (tokens : List Token) : Error → Prop
  | offending {earlier : List Token} {token : Token} {error : Error} :
      earlier ++ [token] <+: tokens → Token.Clean answer earlier →
      token.Offends answer earlier error → Rejects answer tokens error
  | unclosed {opening : Token} {outer : List Token} : Token.Clean answer tokens →
      Token.openings tokens = opening :: outer →
      Rejects answer tokens (.parse ⟨.unclosedSection opening.scopeName, opening.location⟩)

namespace Token

theorem Offends.unique {error error' : Error} (offends : token.Offends answer earlier error)
    (offends' : token.Offends answer earlier error') : error = error' := by
  cases offends with
  | faulty faulty =>
      cases offends' with
      | faulty faulty' => rw [faulty.unique faulty']
      | failed asks => exact absurd faulty (asks.not_faulty _)
      | missing asks => exact absurd faulty (asks.not_faulty _)
  | failed asks failed =>
      cases offends' with
      | faulty faulty => exact absurd faulty (asks.not_faulty _)
      | failed asks' failed' =>
          rw [asks.unique asks', failed'] at failed
          cases failed
          rfl
      | missing asks' missing =>
          rw [asks.unique asks', missing] at failed
          cases failed
  | missing asks missing =>
      cases offends' with
      | faulty faulty => exact absurd faulty (asks.not_faulty _)
      | failed asks' failed =>
          rw [asks.unique asks', failed] at missing
          cases missing
      | missing asks' => rw [asks.unique asks']

end Token

theorem Token.Offends.unique_of_prefix {earlier' : List Token} {token' : Token} {error error' : Error}
    (offends : token.Offends answer earlier error)
    (offends' : token'.Offends answer earlier' error') (clean' : Token.Clean answer earlier')
    (first : earlier ++ [token] <+: earlier' ++ [token']) : error = error' := by
  rcases List.prefix_concat_iff.mp first with same | first
  · obtain ⟨rfl, last⟩ := List.append_inj' same rfl
    obtain rfl := List.singleton_inj.mp last
    exact offends.unique offends'
  · exact absurd offends (clean' _ _ first _)

theorem Rejects.unique {error error' : Error} (rejects : Rejects answer tokens error)
    (rejects' : Rejects answer tokens error') : error = error' := by
  cases rejects with
  | offending within clean offends =>
      cases rejects' with
      | offending within' clean' offends' =>
          rcases List.prefix_or_prefix_of_prefix within within' with first | first
          · exact offends.unique_of_prefix offends' clean' first
          · exact (offends'.unique_of_prefix offends clean first).symm
      | unclosed clean' => exact absurd offends (clean' _ _ within _)
  | unclosed clean openings =>
      cases rejects' with
      | offending within _ offends => exact absurd offends (clean _ _ within _)
      | unclosed _ openings' =>
          rw [openings] at openings'
          cases openings'
          rfl

theorem exists_prefix (member : token ∈ tokens) : ∃ earlier, earlier ++ [token] <+: tokens := by
  obtain ⟨earlier, later, rfl⟩ := List.append_of_mem member
  exact ⟨earlier, later, by simp⟩

theorem wellNested_iff :
    WellNested answer tokens ↔ Token.Clean answer tokens ∧ Token.openings tokens = [] := by
  constructor
  · intro nested
    refine ⟨fun earlier token within error offends => ?_, nested.closed⟩
    have member : token ∈ tokens := within.subset (by simp)
    cases offends with
    | faulty faulty =>
        cases faulty with
        | expression kind invalid =>
            obtain ⟨expression, valid⟩ := nested.expressions token member kind
            rw [invalid] at valid
            cases valid
        | name kind blank => exact nested.names token member (by simp [kind]) blank
        | pragma kind known before renders =>
            have silent := nested.pragmas earlier token within kind (by simp [known]) _ before
            simp [renders] at silent
        | closing kind unmatched =>
            obtain ⟨opening, outer, openings, fits⟩ := nested.closings earlier token within kind
            exact unmatched opening outer openings fits
    | failed asks failed =>
        obtain ⟨ref, found⟩ := nested.resolved token member asks.kind
        rw [← asks.names.1, failed] at found
        cases found
    | missing asks missing =>
        obtain ⟨ref, found⟩ := nested.resolved token member asks.kind
        rw [← asks.names.1, missing] at found
        cases found
  · rintro ⟨clean, closed⟩
    have sound {token : Token} (member : token ∈ tokens) :
        ∃ earlier, ∀ error, ¬ token.Offends answer earlier error := by
      obtain ⟨earlier, within⟩ := exists_prefix member
      exact ⟨earlier, clean earlier token within⟩
    have named {token : Token} (member : token ∈ tokens)
        (kind : token.kind.named?.isSome = true) : Text.trim token.content ≠ "" := by
      obtain ⟨earlier, sound⟩ := sound member
      obtain ⟨named, kind⟩ := Option.isSome_iff_exists.mp kind
      exact fun blank => sound _ (.faulty (.name kind blank))
    refine ⟨fun token member kind => ?_, fun token member => named member, fun token member kind => ?_,
      fun earlier token within kind known other before => ?_, fun earlier token within kind => ?_,
      closed⟩
    · obtain ⟨earlier, sound⟩ := sound member
      exact Token.exists_expression (fun error faulty => sound _ (.faulty faulty)) kind
    · obtain ⟨earlier, sound⟩ := sound member
      have filled := named member (by rcases kind with kind | kind <;> simp [kind, Token.Kind.named?])
      have asks : token.Asks (Text.trim token.content) := ⟨kind, rfl, by simpa using filled⟩
      cases found : answer (Text.trim token.content) with
      | error error => exact absurd (.failed asks found) (sound _)
      | ok found_ =>
          cases found_ with
          | none => exact absurd (.missing asks found) (sound _)
          | some ref => exact ⟨ref, rfl⟩
    · obtain ⟨contentType, known⟩ := Option.isSome_iff_exists.mp known
      by_contra renders
      exact clean earlier token within _
        (.faulty (.pragma kind known before (by simpa using renders)))
    · by_contra unmatched
      refine clean earlier token within _ (.faulty (.closing kind fun opening outer open_ fits => ?_))
      exact unmatched ⟨opening, outer, open_, fits⟩

theorem Rejects.not_wellNested {error : Error} (rejects : Rejects answer tokens error) :
    ¬ WellNested answer tokens := by
  intro nested
  obtain ⟨clean, closed⟩ := wellNested_iff.mp nested
  cases rejects with
  | offending within _ offends => exact clean _ _ within _ offends
  | unclosed _ openings => simp [closed] at openings

/-! ## Runs -/

def Answered (answer : String → Except Error (Option Ref)) (name : String) (ref : Ref) : Prop :=
  answer name = .ok (some ref)

namespace Assembly

variable {resolve : String → Build (Option Ref)} {contentType : ContentType}
  {library before before' : Library} {a : Assembly} {source : Option Source} {base : Option String}
  {name : String}

theorem fst_run_asked (resolves : Resolves source base resolve)
    (recalls : Recalls source base resolve)
    (asked : Asked resolve contentType tokens library name before)
    (asked' : Asked resolve contentType tokens library name before') :
    ((resolve name).run before').1 = ((resolve name).run before).1 := by
  -- What lies between the two asks has taken the first of them, so the library knows by then what
  -- it found.
  obtain ⟨earlier, token, a, within, asks, run⟩ := asked
  obtain ⟨earlier', token', a', within', asks', run'⟩ := asked'
  wlog first : earlier ++ [token] <+: earlier' ++ [token'] generalizing
    before before' earlier earlier' token token' a a'
  · have second := (List.prefix_or_prefix_of_prefix within within').resolve_left first
    exact (this earlier' token' a' within' asks' run' earlier token a within asks run second).symm
  rcases List.prefix_concat_iff.mp first with same | ⟨between, rfl⟩
  · obtain ⟨rfl, -⟩ := List.append_inj' same rfl
    cases run.symm.trans run'
    rfl
  · rw [List.append_assoc, List.foldlM_append, Build.yields_bind] at run'
    obtain ⟨a₁, middle, here, later⟩ := run'
    cases run.symm.trans here
    rw [List.singleton_append, List.foldlM_cons, Build.yields_bind] at later
    obtain ⟨a₂, after, taken, later⟩ := later
    have found : (take resolve a token).run before = _ := run_take_asks asks before
    rw [taken] at found
    rcases resolved : (resolve name).run before with ⟨failure | (_ | ref), last⟩
    · rw [resolved] at found
      cases found
    · rw [resolved] at found
      cases found
    · rw [resolved] at found
      cases found
      have kept := ((grows_tokens resolves.grows between _).yields later).keeps
      have recalled := recalls ((resolves.links resolved).kept kept)
      rw [recalled]

theorem exists_settled (resolves : Resolves source base resolve)
    (recalls : Recalls source base resolve)
    (ends : ∀ name before, ((resolve name).run before).1 ≠ .error .exhausted)
    (contentType : ContentType) (tokens : List Token) (library : Library) :
    ∃ answer, Settled resolve contentType tokens library answer := by
  have answered (name : String) : ∃ answer : Except Error (Option Ref), ∀ before,
      Asked resolve contentType tokens library name before →
        ((resolve name).run before).1 = answer.mapError .error := by
    by_cases asked : ∃ before, Asked resolve contentType tokens library name before
    · obtain ⟨first, asked⟩ := asked
      have same {before : Library}
          (asked' : Asked resolve contentType tokens library name before) :=
        fst_run_asked resolves recalls asked asked'
      rcases found : ((resolve name).run first).1 with (error | -) | target
      · exact ⟨.error error, fun before asked' => (same asked').trans found⟩
      · exact absurd found (ends name first)
      · exact ⟨.ok target, fun before asked' => (same asked').trans found⟩
    · exact ⟨.ok none, fun before asked' => absurd ⟨before, asked'⟩ asked⟩
  choose answer answered using answered
  exact ⟨answer, fun name before asked =>
    ⟨_, Prod.ext (answered name before asked) rfl, resolves.grows name before⟩⟩

theorem run_take
    (settled : ∀ name, token.Asks name → ∃ after,
      (resolve name).run before = ((answer name).mapError .error, after) ∧ before.Extends after)
    (reflects : a.Reflects (Answered answer) earlier) :
    (∃ error after, token.Offends answer earlier error ∧
        (take resolve a token).run before = (.error (.error error), after)) ∨
      (∀ error, ¬ token.Offends answer earlier error) ∧
        ∃ a' after, (take resolve a token).Yields before a' after ∧ before.Extends after ∧
          Advances (Answered answer) after a token a' := by
  by_cases faulty : ∃ error, token.Faulty earlier error
  · obtain ⟨error, faulty⟩ := faulty
    exact .inl ⟨_, before, .faulty faulty, run_take_faulty reflects faulty⟩
  have sound : ∀ error, ¬ token.Faulty earlier error := not_exists.mp faulty
  by_cases asks : ∃ name, token.Asks name
  · obtain ⟨name, asks⟩ := asks
    obtain ⟨after, resolved, grown⟩ := settled name asks
    have run : (take resolve a token).run before = _ := run_take_asks asks before
    rw [resolved] at run
    cases found : answer name with
    | error error =>
        rw [found] at run
        exact .inl ⟨error, after, .failed asks found, run⟩
    | ok target =>
        rw [found] at run
        cases target with
        | none => exact .inl ⟨_, after, .missing asks found, run⟩
        | some ref =>
            refine .inr ⟨fun error offends => ?_, _, after, run, grown,
              advances_referring asks found after a⟩
            cases offends with
            | faulty faulty => exact sound _ faulty
            | failed asks' failed =>
                rw [← asks.unique asks', found] at failed
                cases failed
            | missing asks' missing =>
                rw [← asks.unique asks', found] at missing
                cases missing
  · have quiet : ∀ name, ¬ token.Asks name := not_exists.mp asks
    obtain ⟨a', after, yields, grown, -, advances⟩ :=
      exists_advances reflects sound quiet resolve before
    refine .inr ⟨fun error offends => ?_, a', after, yields, grown, advances⟩
    cases offends with
    | faulty faulty => exact sound _ faulty
    | failed asks => exact quiet _ asks
    | missing asks => exact quiet _ asks

theorem run_tokens (settled : Settled resolve contentType tokens library answer) :
    (∃ earlier token error after, earlier ++ [token] <+: tokens ∧ Token.Clean answer earlier ∧
        token.Offends answer earlier error ∧
        (tokens.foldlM (take resolve) (start contentType)).run library =
          (.error (.error error), after)) ∨
      Token.Clean answer tokens ∧
        ∃ a after, (tokens.foldlM (take resolve) (start contentType)).Yields library a after ∧
          a.Reflects (Answered answer) tokens ∧
          a.Shows (Answered answer) after.store tokens := by
  induction tokens using List.reverseRecOn with
  | nil =>
      exact .inr ⟨Token.throughout_nil _, _, library, rfl, reflects_start _ _, shows_start _ _ _⟩
  | append_singleton tokens token ih =>
      have started : Settled resolve contentType tokens library answer := by
        rintro name before ⟨earlier, other, a, within, asked⟩
        exact settled name before
          ⟨earlier, other, a, within.trans (List.prefix_append _ _), asked⟩
      simp only [List.foldlM_append, List.foldlM_cons, List.foldlM_nil, bind_pure]
      rcases ih started with ⟨earlier, other, error, after, within, clean, offends, run⟩ |
        ⟨clean, a, middle, yields, reflects, shows⟩
      · refine .inl ⟨earlier, other, error, after, within.trans (List.prefix_append _ _), clean,
          offends, ?_⟩
        rw [Build.run_bind, run]
      · have here (name : String) (asks : token.Asks name) :=
          settled name middle ⟨tokens, token, a, List.prefix_refl _, asks, yields⟩
        rcases run_take here reflects with
          ⟨error, after, offends, run⟩ | ⟨sound, a', after, taken, grown, advances⟩
        · refine .inl ⟨tokens, token, error, after, List.prefix_refl _, clean, offends, ?_⟩
          rw [Build.run_bind, yields]
          exact run
        · exact .inr ⟨Token.throughout_snoc.mpr ⟨clean, sound⟩, a', after,
            Build.yields_bind.mpr ⟨a, middle, yields, taken⟩, reflects.advances advances,
            (shows.kept grown.keeps.store).advances advances⟩

end Assembly

/-! ## Templates -/

namespace Repository

variable {κ : Type} {repository : Repository κ} {resolve : String → Build (Option Ref)}
  {library : Library} {text : String} {id : Option String}

theorem compile_cases
    (traced : Scan.trace (Scan.steps text.toList 0)
      (.ofTemplate text.toList repository.configuration.delimiters id) = (tokens, .finished))
    (settled : Settled resolve repository.configuration.contentType tokens library answer) :
    (∃ error after, Rejects answer tokens error ∧
        (repository.compile resolve text id).run library = (.error (.error error), after)) ∨
      WellNested answer tokens ∧ ∃ document after marks,
        (repository.compile resolve text id).Yields library document after ∧
          after.store.Walks document.nodes marks ∧
          Token.Reappear (Answered answer) tokens marks := by
  simp only [compile, Build.Yields, Assembly.ofScan_eq, traced]
  rcases run_tokens settled with ⟨earlier, token, error, after, within, clean, offends, run⟩ |
    ⟨clean, a, after, yields, reflects, outer, inner, surrounds, walks, reappear⟩
  · refine .inl ⟨error, after, .offending within clean offends, ?_⟩
    rw [Build.run_bind, run]
  · rw [Build.run_bind, yields]
    simp only [ending, reflects.finish_eq]
    cases openings : Token.openings tokens with
    | nil =>
        have closed : a.scopes = [] := by simpa [openings] using reflects.openings
        rw [closed] at surrounds
        cases surrounds
        exact .inr ⟨wellNested_iff.mpr ⟨clean, openings⟩, a.content, after, inner, rfl, walks,
          reappear⟩
    | cons opening outer => exact .inl ⟨_, after, .unclosed clean openings, rfl⟩

theorem compile_nested
    (traced : Scan.trace (Scan.steps text.toList 0)
      (.ofTemplate text.toList repository.configuration.delimiters id) = (tokens, .finished))
    (settled : Settled resolve repository.configuration.contentType tokens library answer) :
    let build := repository.compile resolve text id
    ((∃ document after, build.Yields library document after) ↔ WellNested answer tokens) ∧
      (∀ document after, build.Yields library document after →
        ∃ marks, after.store.Walks document.nodes marks ∧
          Token.Reappear (Answered answer) tokens marks) ∧
      ∀ failure, (∃ after, build.run library = (.error failure, after)) ↔
        ∃ error, failure = .error error ∧ Rejects answer tokens error := by
  intro build
  rcases compile_cases traced settled with
    ⟨error, final, rejects, run⟩ | ⟨nested, document, final, marks, yields, walks, reappear⟩
  · have fails {document : Document} {after : Library} : ¬ build.Yields library document after := by
      intro yields
      cases run.symm.trans yields
    refine ⟨⟨fun ⟨document, after, yields⟩ => absurd yields fails,
      fun nested => absurd nested rejects.not_wellNested⟩,
      fun document after yields => absurd yields fails, fun failure => ⟨?_, ?_⟩⟩
    · rintro ⟨after, fails⟩
      cases run.symm.trans fails
      exact ⟨error, rfl, rejects⟩
    · rintro ⟨error', rfl, rejects'⟩
      rw [rejects'.unique rejects]
      exact ⟨final, run⟩
  · refine ⟨⟨fun _ => nested, fun _ => ⟨document, final, yields⟩⟩, ?_, fun failure => ⟨?_, ?_⟩⟩
    · intro document' after yields'
      cases yields.symm.trans yields'
      exact ⟨marks, walks, reappear⟩
    · rintro ⟨after, fails⟩
      cases yields.symm.trans fails
    · rintro ⟨error, -, rejects⟩
      exact absurd nested rejects.not_wellNested

theorem compile_nested_inherit :
    let repository : Repository Empty :=
      { source := some (.memory [("p", "<")]), configuration := .standard }
    let resolve := repository.load repository.depth none
    let answer : String → Except Error (Option Ref) := fun _ => .ok (some ⟨0⟩)
    let text := "\x7b\x7b#a\x7d\x7d\x7b\x7b<p\x7d\x7d\x7b\x7b/ p \x7d\x7d\x7b\x7b/\x7d\x7d"
    let tokens : List Token :=
      [⟨.sectionTag, "a", .braces, ⟨1, none⟩, 0, "\x7b\x7b#a\x7d\x7d"⟩,
        ⟨.inheritTag, "p", .braces, ⟨1, none⟩, 6, "\x7b\x7b<p\x7d\x7d"⟩,
        ⟨.closeTag, " p ", .braces, ⟨1, none⟩, 12, "\x7b\x7b/ p \x7d\x7d"⟩,
        ⟨.closeTag, "", .braces, ⟨1, none⟩, 20, "\x7b\x7b/\x7d\x7d"⟩]
    let build := repository.compile resolve text none
    Scan.trace (Scan.steps text.toList 0)
        (.ofTemplate text.toList repository.configuration.delimiters none) = (tokens, .finished) ∧
      Settled resolve repository.configuration.contentType tokens .empty answer ∧
      ((∃ document after, build.Yields .empty document after) ↔ WellNested answer tokens) ∧
      (∀ document after, build.Yields .empty document after →
        ∃ marks, after.store.Walks document.nodes marks ∧
          Token.Reappear (Answered answer) tokens marks) ∧
      ∀ failure, (∃ after, build.run .empty = (.error failure, after)) ↔
        ∃ error, failure = .error error ∧ Rejects answer tokens error := by
  intro repository resolve answer text tokens build
  have traced : Scan.trace (Scan.steps text.toList 0)
      (.ofTemplate text.toList repository.configuration.delimiters none) = (tokens, .finished) := by
    cbv
  have loaded : ((resolve "p").run .empty).1 = .ok (some ⟨0⟩) := by
    subst resolve repository
    cbv
  have settled : Settled resolve repository.configuration.contentType tokens .empty answer := by
    rintro name before ⟨earlier, token, a, within, asks, run⟩
    -- The one token that asks is the second, and by then nothing is compiled.
    rcases earlier with - | ⟨first, - | ⟨second, between⟩⟩
    · obtain ⟨rfl, -⟩ : token = _ ∧ _ := List.cons_prefix_cons.mp within
      rcases asks.kind with ⟨⟨⟩⟩ | ⟨⟨⟩⟩
    · obtain ⟨rfl, rest⟩ : first = _ ∧ _ := List.cons_prefix_cons.mp within
      obtain ⟨rfl, -⟩ : token = _ ∧ _ := List.cons_prefix_cons.mp rest
      obtain rfl : name = "p" := asks.names.1.trans (by cbv)
      cases run
      exact ⟨_, Prod.ext loaded rfl, grows_load repository _ none "p" .empty⟩
    · obtain ⟨-, rest⟩ : first = _ ∧ _ := List.cons_prefix_cons.mp within
      obtain ⟨-, rest⟩ : second = _ ∧ _ := List.cons_prefix_cons.mp rest
      have closes : token.kind = .closeTag := by
        rcases List.mem_pair.mp (rest.subset (List.mem_append_right _ List.mem_cons_self)) with
          rfl | rfl <;> rfl
      rcases asks.kind with kind | kind <;> cases closes.symm.trans kind
  exact ⟨traced, settled, compile_nested traced settled⟩

end Repository

end Stencil
