import Stencil.Proofs.Library.Blame
import Stencil.Proofs.Scan.Appending

namespace Stencil

open Token

variable {source : Option Source} {base : Option String} {tokens : List Token}
  {resolve : String → Build (Option Ref)} {before after : Library}

/-- What is wrong at the end of a template's text: a tag or a scope of that text is still open. -/
inductive LeftOpen (base : Option String) : Error → Prop
  | tag {error : ParseError} : error.fault = .unclosedTag → error.location.template = base →
      LeftOpen base (.parse error)
  | scope {error : ParseError} {name : String} : error.fault = .unclosedSection name →
      error.location.template = base → LeftOpen base (.parse error)

namespace Build

theorem foldlM_failed {α β : Type} {step : β → α → Build β} {start : β} {elements : List α}
    {failure : Failure}
    (failed : (elements.foldlM step start).run before = (.error failure, after)) :
    ∃ earlier element later state middle, elements = earlier ++ element :: later ∧
      (step state element).run middle = (.error failure, after) ∧
      ∀ later', ((earlier ++ element :: later').foldlM step start).run before =
        (.error failure, after) := by
  induction elements generalizing start before with
  | nil => cases failed
  | cons first elements ih =>
      rw [List.foldlM_cons, run_bind] at failed
      rcases run : (step start first).run before with ⟨failure' | state, middle⟩
      · rw [run] at failed
        cases failed
        refine ⟨[], first, elements, start, before, rfl, run, fun later' => ?_⟩
        rw [List.nil_append, List.foldlM_cons, run_bind, run]
      · rw [run] at failed
        obtain ⟨earlier, element, later, state', middle', rfl, raised, always⟩ := ih failed
        refine ⟨first :: earlier, element, later, state', middle', rfl, raised, fun later' => ?_⟩
        rw [List.cons_append, List.foldlM_cons, run_bind, run]
        exact always later'

end Build

namespace Scan

theorem trace_failed {steps : Nat} {s : Scan} {error : ParseError} (underway : s.Underway)
    (failed : (trace steps s).2 = .failed error) :
    error.location.template = s.template ∧
      (error.fault = .unclosedTag ∨ error.fault = .invalidDelimiters) := by
  obtain ⟨d, rest, -, ends⟩ := trace_reads steps underway
  rw [failed] at ends
  cases ends with
  | failed fails =>
      refine ⟨rfl, ?_⟩
      cases fails with
      | unclosed => exact .inl rfl
      | invalid => exact .inr rfl

end Scan

namespace Assembly

theorem tag_of_failed {a : Assembly} {token : Token} {failure : Failure}
    (failed : (take resolve a token).run before = (.error failure, after)) :
    token.kind ≠ .text := by
  intro kind
  rw [take, kind] at failed
  cases failed

theorem Taken.finish_failed {a : Assembly} {error : ParseError} (taken : a.Taken tokens)
    (failed : a.finish = .error error) :
    ∃ opening ∈ tokens, error = ⟨.unclosedSection opening.scopeName, opening.location⟩ := by
  rw [taken.finish_eq] at failed
  cases open_ : openings tokens with
  | nil =>
      rw [open_] at failed
      cases failed
  | cons opening outer =>
      rw [open_] at failed
      cases failed
      obtain ⟨earlier, later, rfl, -⟩ := exists_opening [] open_
      exact ⟨opening, by simp, rfl⟩

end Assembly

namespace Repository

variable {κ : Type} {repository : Repository κ} {text : String} {error : Error}

theorem compile_eq (repository : Repository κ) (resolve : String → Build (Option Ref))
    (text : String) (base : Option String) :
    repository.compile resolve text base = (do
      let a ← (repository.scan text base).1.foldlM (Assembly.take resolve)
        (Assembly.start repository.configuration.contentType)
      a.ending (repository.scan text base).2) :=
  Assembly.ofScan_eq resolve _ _ _

theorem scan_append (repository : Repository κ) (text tail : String) (base : Option String) :
    repository.scan (text ++ tail) base =
      Scan.trace (Scan.steps (text.toList ++ tail.toList) 0)
        (.ofTemplate (text.toList ++ tail.toList) repository.configuration.delimiters base) := by
  rw [scan, String.toList_append]

theorem ending_failed (resolves : Resolves repository.source base resolve) {a : Assembly}
    {middle : Library}
    (run : ((repository.scan text base).1.foldlM (Assembly.take resolve)
      (Assembly.start repository.configuration.contentType)).Yields before a middle)
    (failed : (a.ending (repository.scan text base).2).run middle = (.error (.error error), after))
    (tail : String) :
    LeftOpen base error ∨ repository.scan (text ++ tail) base = repository.scan text base := by
  have underway : (Scan.ofTemplate text.toList repository.configuration.delimiters base).Underway :=
    .gap rfl rfl
  cases ending : (repository.scan text base).2 with
  | failed parse =>
      rw [ending] at failed
      cases failed
      obtain ⟨here, open_ | invalid⟩ := Scan.trace_failed underway ending
      · exact .inl (.tag open_ here)
      · obtain ⟨fault, location⟩ := parse
        cases invalid
        right
        rw [scan_append]
        exact Scan.trace_append_invalid ending tail.toList
  | exhausted =>
      rw [ending] at failed
      cases failed
  | stopped => exact absurd ending (Scan.trace_ne_stopped _ _)
  | finished =>
      left
      rw [ending] at failed
      obtain ⟨taken, -⟩ := Assembly.inspect_tokens resolves run
      cases finish : a.finish with
      | ok document =>
          simp only [Assembly.ending, finish] at failed
          cases failed
      | error parse =>
          simp only [Assembly.ending, finish] at failed
          cases failed
          obtain ⟨opening, member, rfl⟩ := taken.finish_failed finish
          exact .scope rfl (Scan.trace_located _ underway opening member)

theorem compile_append (resolves : Resolves repository.source base resolve)
    (failed : (repository.compile resolve text base).run before = (.error (.error error), after))
    (decided : ¬ LeftOpen base error) (tail : String) :
    (repository.compile resolve (text ++ tail) base).run before =
      (.error (.error error), after) := by
  rw [compile_eq, Build.run_bind] at failed ⊢
  rcases run : ((repository.scan text base).1.foldlM (Assembly.take resolve)
    (Assembly.start repository.configuration.contentType)).run before with ⟨failure | a, middle⟩
  · -- A tag has failed, and the longer text has the same tokens up to it.
    rw [run] at failed
    cases failed
    obtain ⟨earlier, token, later, a, middle, split, raised, always⟩ := Build.foldlM_failed run
    obtain ⟨later', longer⟩ := Scan.trace_append split (Assembly.tag_of_failed raised) tail.toList
    rw [scan_append, longer, always later']
  · rw [run] at failed
    rcases ending_failed resolves run failed tail with open_ | same
    · exact absurd open_ decided
    · rw [same, run]
      exact failed

theorem templateOfText_append (repository : Repository κ) (library : Library) {text : String}
    {error : Error}
    (failed : ((repository.templateOfText text).attempt library).1 = .error (.error error))
    (decided : ¬ LeftOpen none error) (tail : String) :
    (repository.templateOfText (text ++ tail)).attempt library =
      (.error (.error error), ((repository.templateOfText text).attempt library).2) := by
  have resolves := resolves_load repository repository.depth none
  rw [Build.fst_attempt, templateOfText, Build.run_bind] at failed
  rcases run : (repository.compile (repository.load repository.depth none) text none).run library
    with ⟨failure | document, after⟩
  · rw [run] at failed
    cases failed
    have longer := compile_append resolves run decided tail
    simp only [Build.attempt, templateOfText, Build.run_bind, run, longer]
  · rw [run] at failed
    cases failed

theorem templateOfText_append_partial :
    let repository : Repository Empty :=
      ⟨some (.memory [("p", "\n\x7b\x7b#x\x7d\x7d")]), .standard⟩
    let text := "a\x7b\x7b>p\x7d\x7d\x7b\x7b=\x7b"
    let error : Error := .parse ⟨.unclosedSection "x", 2, some "p"⟩
    ((repository.templateOfText text).attempt .empty).1 = .error (.error error) ∧
      ¬ LeftOpen none error ∧
      ((repository.templateOfText (text ++ "=\x7d\x7d\x7b\x7b/x\x7d\x7d")).attempt .empty).1 =
        .error (.error error) := by
  intro repository text error
  have failed : ((repository.templateOfText text).attempt .empty).1 = .error (.error error) := by
    cbv
  have decided : ¬ LeftOpen none (.parse ⟨.unclosedSection "x", 2, some "p"⟩) := by
    intro left
    cases left with
    | tag fault => cases fault
    | scope fault template => cases template
  exact ⟨failed, decided, by rw [templateOfText_append repository .empty failed decided]⟩

end Repository

end Stencil
