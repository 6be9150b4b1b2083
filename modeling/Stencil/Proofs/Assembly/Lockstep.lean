import Stencil.Proofs.Assembly.Advance
import Stencil.Repository

namespace Stencil

open Token

namespace Build

variable {α β γ δ : Type} {R R' : Library → Library → Prop} {Q : α → β → Prop} {Q' : γ → δ → Prop}

/-- Two builds fail with the same error, or both succeed. -/
inductive Agrees (R : Library → Library → Prop) (Q : α → β → Prop) :
    Except Failure α × Library → Except Failure β × Library → Prop
  | failed {error : Error} {after after' : Library} :
      Agrees R Q (.error (.error error), after) (.error (.error error), after')
  | succeeded {a : α} {b : β} {after after' : Library} : Q a b → R after after' →
      Agrees R Q (.ok a, after) (.ok b, after')

theorem Agrees.bind {build : Build α} {build' : Build β} {next : α → Build γ} {next' : β → Build δ}
    {before before' : Library} (first : Agrees R Q (build.run before) (build'.run before'))
    (second : ∀ {a b after after'}, Q a b → R after after' →
      Agrees R' Q' ((next a).run after) ((next' b).run after')) :
    Agrees R' Q' ((build >>= next).run before) ((build' >>= next').run before') := by
  rw [run_bind, run_bind]
  generalize build.run before = run at first
  generalize build'.run before' = run' at first
  cases first with
  | failed => exact .failed
  | succeeded same related => exact second same related

end Build

open Build

variable {source : Option Source} {base : Option String}
  {resolve resolve' : String → Build (Option Ref)}
  {before before' after library : Library} {token : Token} {tokens : List Token}
  {contentType : ContentType} {a a' b : Assembly}

namespace Assembly

def Taken (tokens : List Token) (a : Assembly) : Prop :=
  a.Reflects (fun _ _ => True) tokens

theorem inspect_take (resolves : Resolves source base resolve) (taken : a.Taken tokens)
    (yields : (take resolve a token).Yields before a' after) :
    (∀ error, ¬ token.Faulty tokens error) ∧
      (∀ name, token.Asks name → ∃ ref, after.Links source base name ref) ∧
      a'.Taken (tokens ++ [token]) ∧ a'.contentType = token.settle a.contentType := by
  have sound : ∀ error, ¬ token.Faulty tokens error := by
    intro error faulty
    cases (run_take_faulty taken faulty).symm.trans yields
  refine ⟨sound, ?_⟩
  by_cases asks : ∃ name, token.Asks name
  · obtain ⟨name, asks⟩ := asks
    have run : (take resolve a token).run before = _ := run_take_asks asks before
    rw [yields] at run
    rcases resolved : (resolve name).run before with ⟨result, later⟩
    rw [resolved] at run
    rcases result with failure | found
    · cases run
    · cases found with
      | none => cases run
      | some ref =>
          cases run
          have links := resolves.links resolved
          have advances : Advances (fun _ _ => True) after a token (a.referring token name ref) :=
            advances_referring asks trivial after a
          refine ⟨fun name' asks' => ⟨ref, ?_⟩, taken.advances advances, advances.contentType_eq⟩
          rwa [← asks.unique asks']
  · obtain ⟨a'', after', yields', -, -, advances⟩ :=
      exists_advances taken sound (not_exists.mp asks) resolve before
    cases yields.symm.trans yields'
    exact ⟨fun name here => absurd ⟨name, here⟩ asks, taken.advances advances,
      advances.contentType_eq⟩

theorem inspect_tokens (resolves : Resolves source base resolve)
    (yields : (tokens.foldlM (take resolve) (start contentType)).Yields before a after) :
    a.Taken tokens ∧ Faultless tokens ∧ a.contentType = tokens.foldl settle contentType ∧
      ∀ token ∈ tokens, ∀ name, token.Asks name → ∃ ref, after.Links source base name ref := by
  induction tokens using List.reverseRecOn generalizing a after with
  | nil =>
      obtain ⟨rfl, rfl⟩ := yields_pure.mp yields
      exact ⟨reflects_start _ _, throughout_nil _, rfl, by simp⟩
  | append_singleton tokens token ih =>
      simp only [List.foldlM_append, List.foldlM_cons, List.foldlM_nil, bind_pure] at yields
      obtain ⟨between, middle, earlier, last⟩ := yields_bind.mp yields
      obtain ⟨taken, faultless, same, found⟩ := ih earlier
      obtain ⟨sound, here, taken', same'⟩ := inspect_take resolves taken last
      refine ⟨taken', throughout_snoc.mpr ⟨faultless, sound⟩, ?_, fun other member name asks => ?_⟩
      · rw [same', same, List.foldl_append]
        rfl
      · rcases List.mem_append.mp member with member | member
        · obtain ⟨ref, links⟩ := found other member name asks
          exact ⟨ref, links.kept ((grows_take resolves.grows between token).yields last).keeps⟩
        · rw [List.mem_singleton.mp member] at asks
          exact here name asks

theorem exists_run {P : Library → Prop}
    (kept : ∀ {library later : Library}, P library → later.cache = library.cache → P later)
    (found : ∀ token ∈ tokens, ∀ name, token.Asks name → ∀ {before : Library}, P before →
      ∃ ref after, (resolve name).Yields before (some ref) after ∧ P after)
    (faultless : Faultless tokens) (holds : P before) :
    ∃ a after, (tokens.foldlM (take resolve) (start contentType)).Yields before a after ∧
      P after ∧ a.Taken tokens := by
  induction tokens using List.reverseRecOn with
  | nil => exact ⟨_, before, rfl, holds, reflects_start _ _⟩
  | append_singleton tokens token ih =>
      simp only [List.foldlM_append, List.foldlM_cons, List.foldlM_nil, bind_pure]
      obtain ⟨faultless, sound⟩ := throughout_snoc.mp faultless
      obtain ⟨a, middle, earlier, holds, taken⟩ :=
        ih (fun other member => found other (List.mem_append_left _ member)) faultless
      by_cases asks : ∃ name, token.Asks name
      · obtain ⟨name, asks⟩ := asks
        obtain ⟨ref, after, resolved, holds⟩ := found token (by simp) name asks holds
        have run : (take resolve a token).run middle = _ := run_take_asks asks middle
        rw [resolved] at run
        exact ⟨_, after, yields_bind.mpr ⟨a, middle, earlier, run⟩, holds,
          taken.advances (advances_referring asks trivial after a)⟩
      · obtain ⟨a', after, last, -, same, advances⟩ :=
          exists_advances taken sound (not_exists.mp asks) resolve middle
        exact ⟨a', after, yields_bind.mpr ⟨a, middle, earlier, last⟩, kept holds same,
          taken.advances advances⟩

/-- Two resolvers agree on every name, in libraries with a relation that only caching can undo. -/
structure InLockstep (R : Library → Library → Prop)
    (resolve resolve' : String → Build (Option Ref)) : Prop where
  kept : ∀ {library library' later later' : Library}, R library library' →
    later.cache = library.cache → later'.cache = library'.cache → R later later'
  agrees : ∀ (name : String) {before before' : Library}, R before before' →
    Agrees R (fun found found' => found.isSome = found'.isSome)
      ((resolve name).run before) ((resolve' name).run before')

structure InStep (tokens : List Token) (a b : Assembly) : Prop where
  faultless : Faultless tokens
  left : a.Taken tokens
  right : b.Taken tokens

variable {R : Library → Library → Prop}

theorem agrees_take (lockstep : InLockstep R resolve resolve') (related : R before before')
    (inStep : InStep tokens a b) (token : Token) :
    Agrees R (InStep (tokens ++ [token])) ((take resolve a token).run before)
      ((take resolve' b token).run before') := by
  by_cases faulty : ∃ error, token.Faulty tokens error
  · obtain ⟨error, faulty⟩ := faulty
    rw [run_take_faulty inStep.left faulty, run_take_faulty inStep.right faulty]
    exact .failed
  have sound : ∀ error, ¬ token.Faulty tokens error := not_exists.mp faulty
  have goes_on {a' b' : Assembly} {later later' : Library}
      (advances : Advances (fun _ _ => True) later a token a')
      (advances' : Advances (fun _ _ => True) later' b token b') : InStep (tokens ++ [token]) a' b' :=
    ⟨throughout_snoc.mpr ⟨inStep.faultless, sound⟩, inStep.left.advances advances,
      inStep.right.advances advances'⟩
  by_cases asks : ∃ name, token.Asks name
  · obtain ⟨name, asks⟩ := asks
    have resolved := lockstep.agrees name related
    rw [run_take_asks asks, run_take_asks asks]
    generalize (resolve name).run before = run at resolved
    generalize (resolve' name).run before' = run' at resolved
    cases resolved with
    | failed => exact .failed
    | @succeeded found found' after after' same related =>
        cases found with
        | none =>
            cases found' with
            | none => exact .failed
            | some ref' => cases same
        | some ref =>
            cases found' with
            | none => cases same
            | some ref' =>
                exact .succeeded (goes_on (advances_referring asks trivial after a)
                  (advances_referring asks trivial after' b)) related
  · have quiet := not_exists.mp asks
    obtain ⟨a', after, yields, -, same, advances⟩ :=
      exists_advances inStep.left sound quiet resolve before
    obtain ⟨b', after', yields', -, same', advances'⟩ :=
      exists_advances inStep.right sound quiet resolve' before'
    rw [yields, yields']
    exact .succeeded (goes_on advances advances') (lockstep.kept related same same')

theorem agrees_tokens (lockstep : InLockstep R resolve resolve') (related : R before before')
    (contentType : ContentType) (tokens : List Token) :
    Agrees R (InStep tokens) ((tokens.foldlM (take resolve) (start contentType)).run before)
      ((tokens.foldlM (take resolve') (start contentType)).run before') := by
  induction tokens using List.reverseRecOn with
  | nil => exact .succeeded ⟨throughout_nil _, reflects_start _ _, reflects_start _ _⟩ related
  | append_singleton tokens token ih =>
      simp only [List.foldlM_append, List.foldlM_cons, List.foldlM_nil, bind_pure]
      exact ih.bind fun inStep related => agrees_take lockstep related inStep token

theorem faultless_ne_exhausted {text : List Char} {d : Delimiters} {id : Option String}
    (faultless : Faultless (Scan.trace (Scan.steps text 0) (.ofTemplate text d id)).1) :
    (Scan.trace (Scan.steps text 0) (.ofTemplate text d id)).2 ≠ .exhausted := by
  intro exhausted
  obtain ⟨token, member, kind, empty⟩ := Scan.trace_ofTemplate_exhausted exhausted
  obtain ⟨earlier, later, split⟩ := List.append_of_mem member
  have invalid : Expression.ofText token.content = .error .empty := by
    rw [empty]
    rfl
  refine faultless earlier token ⟨later, by simp [split]⟩ _ (.expression ?_ invalid)
  simp [kind, Kind.holdsExpression]

theorem agrees_ending (related : R before before') (inStep : InStep tokens a b) {ending : Scan.Ending}
    (ended : ending ≠ .exhausted) :
    Agrees R (fun _ _ => True) ((a.ending ending).run before) ((b.ending ending).run before') := by
  have finish : Agrees R (fun _ _ => True) ((Build.ofParse a.finish).run before)
      ((Build.ofParse b.finish).run before') := by
    rw [inStep.left.finish_eq, inStep.right.finish_eq]
    cases Token.openings tokens with
    | nil => exact .succeeded trivial related
    | cons => exact .failed
  cases ending with
  | failed error => exact .failed
  | exhausted => exact absurd rfl ended
  | finished => exact finish
  | stopped => exact finish

end Assembly

namespace Repository

variable {κ : Type} {R : Library → Library → Prop}

theorem agrees_compile (repository : Repository κ)
    (lockstep : Assembly.InLockstep R resolve resolve') (related : R before before') (text : String)
    (id : Option String) :
    Agrees R (fun _ _ => True) ((repository.compile resolve text id).run before)
      ((repository.compile resolve' text id).run before') := by
  simp only [compile, Assembly.ofScan_eq]
  refine (Assembly.agrees_tokens lockstep related _ _).bind fun inStep related => ?_
  exact Assembly.agrees_ending related inStep (Assembly.faultless_ne_exhausted inStep.faultless)

end Repository

end Stencil
