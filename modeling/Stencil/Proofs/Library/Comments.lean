import Stencil.Proofs.Assembly.Similar
import Stencil.Proofs.Output.Simulation
import Stencil.Stock

namespace Stencil

variable {κ : Type}

inductive RenderError.Relocated : RenderError → RenderError → Prop
  | evaluation {tag tag' : Tag} {reason : String} : tag.Alike tag' →
      Relocated (.evaluation tag.describe reason) (.evaluation tag'.describe reason)
  | same {error : RenderError} : Relocated error error

theorem Run.Matches.mono {α : Type} {E E' : RenderError → RenderError → Prop} {run run' : Run κ α}
    (alike : Run.Matches E run run') (weaker : ∀ {error error'}, E error error' → E' error error') :
    Run.Matches E' run run' := by
  cases alike with
  | ok here there => exact .ok here there
  | error related failed failed' => exact .error (weaker related) failed failed'
  | exhausted ended ended' => exact .exhausted ended ended'

def Correspondence.similar (store store' : Store) : Correspondence κ where
  store := store
  store' := store'
  contexts context context' := context' = context ∧ context.Tame
  documents := Document.Similar
  tags := Tag.Alike
  expressions _ := True

namespace Store.Similar

variable {store store' : Store}

theorem nodeLists (similar : store.Similar store') {nodes nodes' : List Node}
    (alike : Node.Similar nodes nodes') :
    (Correspondence.similar store store' : Correspondence κ).NodeLists nodes nodes' := by
  have links (ref : Ref) : (Correspondence.similar store store' : Correspondence κ).Links ref :=
    similar.get ref
  induction alike with
  | nil => exact .nil
  | text _ ih => exact .cons .text ih
  | cut _ ih => exact .cut ih
  | variableTag tags _ ih => exact .cons (.variableTag tags trivial) ih
  | sectionTag tags body _ _ ih => exact .cons (.sectionTag tags trivial ⟨rfl, body⟩) ih
  | blockTag body _ _ ih => exact .cons (.blockTag ⟨rfl, body⟩) ih
  | partialTag _ ih => exact .cons (.partialTag (links _)) ih
  | inheritTag _ ih => exact .cons (.inheritTag (links _) (links _)) ih

variable [Host κ]

theorem sound (similar : store.Similar store') :
    (Correspondence.similar store store' : Correspondence κ).Sound where
  contentType documents := documents.contentType
  nodes documents := similar.nodeLists documents.nodes
  tame := by
    rintro context _ ⟨rfl, tame⟩
    exact ⟨tame, tame⟩
  evaluate := by
    rintro context _ expression ⟨rfl, -⟩ -
    rfl
  push := by
    rintro context _ value ⟨rfl, tame⟩ pushed
    exact ⟨rfl, tame.push pushed⟩
  pushFrame := by
    rintro context _ frame ⟨rfl, tame⟩ - -
    exact ⟨rfl, tame.pushFrame frame⟩
  frames := by
    rintro context _ ⟨rfl, -⟩
    rfl
  inherited _ frame _ := ⟨similar.get frame.parent, similar.get frame.overriding⟩

theorem render (similar : store.Similar store') (root : Ref) {context : Context κ}
    (tame : context.Tame) (depth : Nat) :
    Run.Matches RenderError.Relocated (store.render depth (store.get root) context)
      (store'.render depth (store'.get root) context) := by
  refine (Correspondence.render_matches similar.sound (similar.get root) ⟨rfl, tame⟩ depth).mono ?_
  intro error error' related
  cases related with
  | evaluation tags => exact .evaluation tags
  | contentTypeMismatch => exact .same

end Store.Similar

namespace Repository

variable {repository : Repository κ}

theorem loadText_parallel {depth : Nat} {source : Source} {id : String}
    (steady : Steady (repository.load depth (some id))) (ref : Ref) {before before' : Library}
    (similar : before.Similar before') :
    Build.Parallel (fun found found' => found' = found)
      ((repository.loadText depth source id ref).run before)
      ((repository.loadText depth source id ref).run before') := by
  unfold loadText
  cases source.text id with
  | error error => exact .failed .same similar
  | ok text =>
      refine (repository.compile_parallel steady similar (.refl _) .same).bind
        fun documents similar => ?_
      exact (Build.Parallel.fill similar ref documents).bind fun _ similar => .succeeded rfl similar

theorem steady_load (repository : Repository κ) (depth : Nat) (base : Option String) :
    Steady (repository.load depth base) := by
  induction depth generalizing base with
  | zero => exact fun name _ _ similar => .failed .same similar
  | succ depth ih =>
      intro name before before' similar
      rw [load_succ, load_succ, similar.cache, similar.store.size]
      split
      · exact .succeeded rfl similar
      · split
        · exact .succeeded rfl similar
        · rename_i id _
          split
          · exact .succeeded rfl similar
          · exact loadText_parallel (ih (some id)) _ (similar.reserved id)

theorem templateOfText_commented [Host κ] (repository : Repository κ)
    (braces : repository.configuration.delimiters = .braces) {a b comment : String}
    (between : Scan.Between a.toList b.toList none) (seam : ¬ ['\x7b'] <:+ a.toList)
    (isComment : Text.IsComment comment.toList) (library : Library) :
    let without := repository.templateOfText (a ++ b)
    let commented := repository.templateOfText (a ++ "\x7b\x7b!" ++ comment ++ "\x7d\x7d" ++ b)
    (∃ failure failure' after after', without.attempt library = (.error failure, after) ∧
      commented.attempt library = (.error failure', after') ∧ failure.Alike failure') ∨
    ∃ template after after', without.attempt library = (.ok template, after) ∧
      commented.attempt library = (.ok template, after') ∧
      ∀ context : Context κ, context.Tame → ∀ depth,
        Run.Matches RenderError.Relocated
          (after.store.render depth (after.store.get template.root) context)
          (after'.store.render depth (after'.store.get template.root) context) := by
  intro without commented
  have scanned {text : String} {characters : List Char} (same : characters = text.toList) :
      Scan.trace (Scan.steps characters 0) (.ofTemplate characters .braces none) =
        ((repository.scan text none).1, (repository.scan text none).2) := by
    rw [same, scan, braces]
  have whole : a.toList ++ b.toList = (a ++ b).toList := by simp
  have whole' : a.toList ++ (Text.comment comment.toList ++ b.toList) =
      (a ++ "\x7b\x7b!" ++ comment ++ "\x7d\x7d" ++ b).toList := by simp [Text.comment]
  obtain ⟨tokens, ends⟩ := between.commented isComment seam (scanned whole) (scanned whole')
  have parallel : Build.Parallel (fun template template' => template' = template)
      (without.run library) (commented.run library) := by
    have steady := steady_load repository repository.depth none
    refine (repository.compile_parallel steady (.refl library) tokens ends).bind
      fun documents similar => ?_
    refine (Build.Parallel.add similar documents).bind fun same similar => ?_
    subst same
    exact .succeeded rfl similar
  have attempted := parallel.attempt
  generalize without.attempt library = result, commented.attempt library = result' at attempted
  cases attempted with
  | failed alike => exact .inl ⟨_, _, _, _, rfl, rfl, alike⟩
  | @succeeded template _ after after' same similar =>
      subst same
      exact .inr ⟨_, after, after', rfl, rfl, fun context tame depth =>
        similar.store.render _ tame depth⟩

theorem templateOfText_commented_section :
    let repository : Repository Stock := ⟨some (.memory [("p", ";")]), .standard⟩
    let a := "\x7b\x7b#s\x7d\x7dx"
    let b := "y\x7b\x7b>p\x7d\x7d\x7b\x7b/s\x7d\x7d"
    let tag : Tag := ⟨"\x7b\x7b#s\x7d\x7d", ⟨1, none⟩, .braces⟩
    let inner := "xy\x7b\x7b>p\x7d\x7d"
    let body : Document := ⟨.html, [.text "xy", .partialTag "p" ⟨0⟩]⟩
    let root : Document := ⟨.html, [.sectionTag tag (.name "s") false body inner]⟩
    let after : Library := ⟨⟨#[some ⟨.html, [.text ";"]⟩, some root]⟩, [("p", ⟨0⟩)]⟩
    let template : Template Stock := ⟨⟨1⟩, repository.configuration.context⟩
    repository.configuration.delimiters = .braces ∧ Scan.Between a.toList b.toList none ∧
      ¬ ['\x7b'] <:+ a.toList ∧ Text.IsComment "\x7d\n".toList ∧
      (repository.templateOfText (a ++ b)).attempt .empty = (.ok template, after) ∧
      ∃ after', (repository.templateOfText (a ++ "\x7b\x7b!" ++ "\x7d\n" ++ "\x7d\x7d" ++ b)).attempt
          .empty = (.ok template, after') ∧
        ∀ context : Context Stock, context.Tame → ∀ depth,
          Run.Matches RenderError.Relocated (after.store.render depth root context)
            (after'.store.render depth (after'.store.get ⟨1⟩) context) := by
  intro repository a b tag inner body root after template
  have between : Scan.Between a.toList b.toList none := by
    have place : Scan.walk 5 (.ofTemplate (a.toList ++ b.toList) .braces none) =
        { template := none, delimiters := .braces, mode := .text, seen := ['x'], start := 6
          startLine := 1, line := 1, rest := b.toList } := by
      cbv
    refine .apart (Scan.reaches_walk 5 _) ?_
    rw [place]
    exact ⟨rfl, by simp, rfl⟩
  have seam : ¬ ['\x7b'] <:+ a.toList := by decide
  have isComment : Text.IsComment "\x7d\n".toList := ⟨by decide, by decide⟩
  have compiled : (repository.templateOfText (a ++ b)).attempt .empty = (.ok template, after) := by
    cbv
  refine ⟨rfl, between, seam, isComment, compiled, ?_⟩
  rcases templateOfText_commented repository rfl between seam isComment .empty with
    ⟨failure, _, _, _, failed, -⟩ | ⟨template', after, after', compiled', commented, matches_⟩
  · cases compiled.symm.trans failed
  · cases compiled.symm.trans compiled'
    exact ⟨after', commented, matches_⟩

end Repository

end Stencil
