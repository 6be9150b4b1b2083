import Stencil.Proofs.Assembly.Acceptance
import Stencil.Proofs.Library.History

namespace Stencil

open Token

variable {source : Option Source} {base : Option String}
  {resolve resolve' : String → Build (Option Ref)} {before : Library} {tokens : List Token}
  {contentType : ContentType}

namespace Build

theorem Agrees.ne_exhausted {α β : Type} {R : Library → Library → Prop} {Q : α → β → Prop}
    {run : Except Failure α × Library} {run' : Except Failure β × Library}
    (agrees : Agrees R Q run run') : run.1 ≠ .error .exhausted := by
  cases agrees with
  | failed => nofun
  | succeeded => nofun

theorem run_bind_congr {α β : Type} {build build' : Build α} {next next' : α → Build β}
    (first : build'.run before = build.run before)
    (second : ∀ a after, build.Yields before a after → (next' a).run after = (next a).run after) :
    (build' >>= next').run before = (build >>= next).run before := by
  rw [run_bind, run_bind, first]
  rcases run : build.run before with ⟨result, after⟩
  cases result with
  | error failure => rfl
  | ok a => exact second a after run

theorem fst_attempt {α : Type} (build : Build α) (library : Library) :
    (build.attempt library).1 = (build.run library).1 := by
  unfold attempt
  rcases build.run library with ⟨result, after⟩
  cases result <;> rfl

end Build

namespace Assembly

theorem run_faulty (resolves : Resolves source base resolve) (faulty : ¬ Faultless tokens)
    (contentType : ContentType) (before : Library) :
    ∃ failure after, (tokens.foldlM (take resolve) (start contentType)).run before =
      (.error failure, after) := by
  rcases run : (tokens.foldlM (take resolve) (start contentType)).run before with ⟨result, after⟩
  cases result with
  | error failure => exact ⟨failure, after, rfl⟩
  | ok a => exact absurd (inspect_tokens resolves run).2.1 faulty

theorem ofScan_of_le (resolves : Resolves source base resolve) (contentType : ContentType)
    {text : List Char} {steps : Nat} (enough : Scan.steps text 0 ≤ steps) (d : Delimiters)
    (id : Option String) :
    ofScan resolve contentType steps (.ofTemplate text d id) =
      ofScan resolve contentType (Scan.steps text 0) (.ofTemplate text d id) := by
  rw [ofScan_eq, ofScan_eq]
  rcases Scan.trace_of_le enough (.ofTemplate text d id) with same | ⟨exhausted, rest, longer⟩
  · rw [same]
  · have faulty := mt faultless_ne_exhausted (not_not_intro exhausted)
    rw [← longer]
    funext before
    obtain ⟨failure, after, fails⟩ := run_faulty resolves faulty contentType before
    -- Both runs end with the fault among the tokens that they share.
    have ends {β : Type} (next : Assembly → Build β) :
        ((Scan.trace (Scan.steps text 0) (.ofTemplate text d id)).1.foldlM (take resolve)
          (start contentType) >>= next).run before = (.error failure, after) := by
      rw [Build.run_bind, fails]
    rw [List.foldlM_append, bind_assoc]
    exact (ends _).trans (ends _).symm

theorem run_take_congr (same : ∀ name, (resolve' name).run before = (resolve name).run before)
    (a : Assembly) (token : Token) :
    (take resolve' a token).run before = (take resolve a token).run before := by
  have target (name : String) :
      (targetOf resolve' token name).run before = (targetOf resolve token name).run before :=
    Build.run_bind_congr (same name) fun _ _ _ => rfl
  have referred {β : Type} (result : Except ParseError String) (next : String → Ref → β) :
      (do
        let name ← Build.ofParse result
        let target ← targetOf resolve' token name
        return next name target : Build β).run before =
      (do
        let name ← Build.ofParse result
        let target ← targetOf resolve token name
        return next name target : Build β).run before := by
    apply Build.run_bind_congr rfl
    intro name after parsed
    obtain ⟨-, rfl⟩ := Build.yields_ofParse.mp parsed
    exact Build.run_bind_congr (target name) fun _ _ _ => rfl
  unfold take
  split
  case h_10 => exact referred _ _
  case h_11 => exact referred _ _
  all_goals rfl

theorem run_ofScan_congr {P : Library → Prop}
    (upward : ∀ {library later : Library}, library.Extends later → P library → P later)
    (grows : ∀ name, (resolve name).Grows)
    (same : ∀ (name : String) {library : Library}, P library →
      (resolve' name).run library = (resolve name).run library)
    (holds : P before) (steps : Nat) (scan : Scan) :
    (ofScan resolve' contentType steps scan).run before =
      (ofScan resolve contentType steps scan).run before := by
  have tokens_same (a : Assembly) (tokens : List Token) :
      (tokens.foldlM (take resolve') a).run before =
        (tokens.foldlM (take resolve) a).run before := by
    induction tokens generalizing a before with
    | nil => rfl
    | cons token tokens ih =>
        rw [List.foldlM_cons, List.foldlM_cons]
        apply Build.run_bind_congr (run_take_congr (fun name => same name holds) a token)
        intro next after taken
        exact ih (upward ((grows_take grows a token).yields taken) holds) next
  rw [ofScan_eq, ofScan_eq]
  exact Build.run_bind_congr (tokens_same _ _) fun _ _ _ => rfl

end Assembly

namespace Repository

open Library

variable {κ : Type} {repository : Repository κ} {source : Source} {ids : List String}

theorem run_load_of_le (hsource : repository.source = some source) (within : source.Within ids)
    {depth deeper : Nat} (le : depth ≤ deeper) (base : Option String) (name : String)
    {before : Library} (enough : before.remaining ids < depth) :
    (repository.load deeper base name).run before = (repository.load depth base name).run before := by
  induction depth generalizing deeper base name before with
  | zero => exact absurd enough (Nat.not_lt_zero _)
  | succ depth ih =>
      obtain ⟨deeper, rfl⟩ : ∃ n, deeper = n + 1 := ⟨deeper - 1, by omega⟩
      rw [load_succ, load_succ, hsource]
      dsimp only
      cases hid : source.id? name base with
      | none => rfl
      | some id =>
          dsimp only
          cases fresh : before.cache.lookup id with
          | some ref => rfl
          | none =>
              dsimp only
              have fewer := remaining_reserved (within hid) fresh
              have few : (before.reserved id).remaining ids < depth := by omega
              rw [loadText, loadText]
              apply Build.run_bind_congr rfl
              intro text after read
              obtain ⟨-, rfl⟩ := Build.yields_ofExcept.mp read
              refine Build.run_bind_congr ?_ fun _ _ _ => rfl
              -- The template under way is cached, so fewer are left for those that it includes.
              apply Assembly.run_ofScan_congr (P := fun library => library.remaining ids < depth)
              · intro library later grown few
                exact (remaining_mono (fun _ => grown.keeps.caches) ids).trans_lt few
              · exact grows_load repository depth (some id)
              · intro name library few
                exact ih (by omega) (some id) name few
              · exact few

theorem remaining_lt_depth (hsource : repository.source = some source)
    (enough : ids.length ≤ source.size) (library : Library) :
    library.remaining ids < repository.depth := by
  have fewer : library.remaining ids ≤ ids.length := List.countP_le_length
  simp only [depth, hsource]
  omega

theorem load_ends (templates : List (String × String)) (configuration : Configuration κ)
    (base : Option String) (name : String) (library : Library) :
    let repository : Repository κ := ⟨some (.memory templates), configuration⟩
    ((repository.load repository.depth base name).run library).1 ≠ .error .exhausted := by
  intro repository
  have whole : repository.Whole (.memory templates) fun _ => False := fun _ known => known.elim
  have enough : library.remaining (templates.map Prod.fst) < repository.depth :=
    remaining_lt_depth rfl (by simp [Source.memory]) library
  have alike : Ahead (fun _ => False) (templates.map Prod.fst) repository.depth library library :=
    ⟨by simp, enough⟩
  exact (agrees_load rfl (Source.memory_within templates) whole base name alike).ne_exhausted

theorem exists_settled_load (templates : List (String × String)) (configuration : Configuration κ)
    (base : Option String) (tokens : List Token) (library : Library) :
    let repository : Repository κ := ⟨some (.memory templates), configuration⟩
    ∃ answer, Settled (repository.load repository.depth base) configuration.contentType tokens
      library answer := by
  intro repository
  exact Assembly.exists_settled (resolves_load repository _ base) (recalls_load repository _ base)
    (load_ends templates configuration base) configuration.contentType tokens library

theorem compilation_ends (templates : List (String × String)) (configuration : Configuration κ)
    (library : Library) :
    let repository : Repository κ := ⟨some (.memory templates), configuration⟩
    (∀ name, ((repository.template name).attempt library).1 ≠ .error .exhausted) ∧
      (∀ text, ((repository.templateOfText text).attempt library).1 ≠ .error .exhausted) ∧
      (∀ depth base name, repository.depth ≤ depth →
        (repository.load depth base name).run library =
          (repository.load repository.depth base name).run library) ∧
      ∀ depth base text id steps, Scan.steps text.toList 0 ≤ steps →
        Assembly.ofScan (repository.load depth base) configuration.contentType steps
            (.ofTemplate text.toList configuration.delimiters id) =
          repository.compile (repository.load depth base) text id := by
  intro repository
  have within : (Source.memory templates).Within (templates.map Prod.fst) :=
    Source.memory_within templates
  have enough : library.remaining (templates.map Prod.fst) < repository.depth :=
    remaining_lt_depth rfl (by simp [Source.memory]) library
  have whole : repository.Whole (.memory templates) fun _ => False := fun _ known => known.elim
  have alike : Ahead (fun _ => False) (templates.map Prod.fst) repository.depth library library :=
    ⟨by simp, enough⟩
  refine ⟨fun name => ?_, fun text => ?_, fun depth base name le => ?_,
    fun depth base text id steps le => ?_⟩
  · rw [Build.fst_attempt]
    exact (agrees_template rfl within whole name alike).ne_exhausted
  · rw [Build.fst_attempt]
    exact (agrees_templateOfText rfl within whole text alike).ne_exhausted
  · exact run_load_of_le rfl within le base name enough
  · exact Assembly.ofScan_of_le (resolves_load repository depth base) _ le _ id

end Repository

end Stencil
