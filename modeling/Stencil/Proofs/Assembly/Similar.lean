import Stencil.Proofs.Library.Agreement
import Stencil.Proofs.Library.Similar
import Stencil.Proofs.Scan.Comments

namespace Stencil

open Assembly Build

variable {resolve : String → Build (Option Ref)} {before before' : Library}
  {token token' : Token} {tokens tokens' : List Token}

structure Scope.Similar (scope scope' : Scope) : Prop where
  opener : scope'.opener = scope.opener
  opening : scope.opening.Alike scope'.opening
  nodes : Node.Similar scope.nodes.reverse scope'.nodes.reverse

structure Assembly.Similar (a a' : Assembly) : Prop where
  contentType : a'.contentType = a.contentType
  decided : a'.decided = a.decided
  nodes : Node.Similar a.nodes.reverse a'.nodes.reverse
  scopes : List.Forall₂ Scope.Similar a.scopes a'.scopes

def Steady (resolve : String → Build (Option Ref)) : Prop :=
  ∀ (name : String) {before before' : Library}, before.Similar before' →
    Parallel (fun found found' => found' = found) ((resolve name).run before)
      ((resolve name).run before')

namespace Assembly

variable {a a' : Assembly}

namespace Similar

theorem start (contentType : ContentType) :
    (Assembly.start contentType).Similar (Assembly.start contentType) :=
  ⟨rfl, rfl, .nil, .nil⟩

theorem decide (similar : a.Similar a') : a.decide.Similar a'.decide :=
  ⟨similar.contentType, rfl, similar.nodes, similar.scopes⟩

theorem pass (similar : a.Similar a') (token token' : Token) :
    (a.pass token).Similar (a'.pass token') :=
  ⟨similar.contentType, similar.decided, similar.nodes, similar.scopes⟩

theorem passed (similar : a.Similar a') (token : Token) : a.Similar (a'.pass token) :=
  ⟨similar.contentType, similar.decided, similar.nodes, similar.scopes⟩

theorem add (similar : a.Similar a') {node node' : Node} (nodes : Node.Similar [node] [node'])
    (token token' : Token) : (a.add token node).Similar (a'.add token' node') where
  contentType := similar.contentType
  decided := similar.decided
  nodes := by
    have longer := similar.nodes.append nodes
    simpa [Assembly.add] using longer
  scopes := similar.scopes

theorem opened (similar : a.Similar a') (alike : token.Alike token') (opener : Opener) :
    (a.opened token opener).Similar (a'.opened token' opener) where
  contentType := similar.contentType
  decided := similar.decided
  nodes := .nil
  scopes := .cons ⟨rfl, alike, similar.nodes⟩ similar.scopes

theorem content (similar : a.Similar a') : Document.Similar a.content a'.content :=
  ⟨similar.contentType, similar.nodes⟩

end Similar

theorem expressionOf_parses (alike : token.Alike token') :
    Parses (fun expression expression' => expression' = expression) (expressionOf token)
      (expressionOf token') := by
  simp only [expressionOf, ← alike.content]
  cases Expression.ofText token.content with
  | error error => exact .failed ⟨rfl, alike.template.symm⟩
  | ok expression => exact .ok rfl

theorem nameOf_parses (alike : token.Alike token') (named : Named) :
    Parses (fun name name' => name' = name) (nameOf token named) (nameOf token' named) := by
  simp only [nameOf, ← alike.content]
  split
  · exact .failed ⟨rfl, alike.template.symm⟩
  · exact .ok rfl

theorem pragma_parses (similar : a.Similar a') (alike : token.Alike token') :
    Parses Assembly.Similar (a.pragma token) (a'.pragma token') := by
  simp only [pragma, ← alike.content, similar.decided]
  split
  · exact .ok (similar.pass token token')
  · split
    · exact .failed ⟨rfl, alike.template.symm⟩
    · exact .ok ⟨rfl, rfl, similar.nodes, similar.scopes⟩

theorem targetOf_parallel (steady : Steady resolve) (similar : before.Similar before')
    (alike : token.Alike token') (name : String) :
    Parallel (fun ref ref' => ref' = ref) ((targetOf resolve token name).run before)
      ((targetOf resolve token' name).run before') := by
  refine (steady name similar).bind fun {found found' _ _} same similar => ?_
  subst same
  cases found' with
  | none => exact .failed (.parse ⟨rfl, alike.template.symm⟩) similar
  | some ref => exact .succeeded rfl similar

theorem node_parallel (assemblies : a.Similar a') (similar : before.Similar before')
    {scope scope' : Scope} (scopes : scope.Similar scope') :
    Parallel (fun node node' => Node.Similar [node] [node']) ((a.node scope).run before)
      ((a'.node scope').run before') := by
  have body := assemblies.content
  unfold Assembly.node
  rw [scopes.opener]
  cases scope.opener with
  | sectionOf expression inverted =>
      exact .succeeded (body.sectionTag scopes.opening.tagOf expression inverted _ _) similar
  | block name => exact .succeeded (body.blockTag name) similar
  | inherit name parent =>
      refine (Parallel.add similar body).bind fun same similar => .succeeded ?_ similar
      rw [same]
      exact .inheritTag .nil

theorem close_parallel (assemblies : a.Similar a') (similar : before.Similar before')
    (alike : token.Alike token') :
    Parallel Assembly.Similar ((a.close token).run before) ((a'.close token').run before') := by
  have unmatched : Failure.Alike (.error (.parse ⟨.unmatchedClosing token.source, token.location⟩))
      (.error (.parse ⟨.unmatchedClosing token'.source, token'.location⟩)) := by
    rw [alike.source]
    exact .parse ⟨rfl, alike.template.symm⟩
  have scopes := assemblies.scopes
  unfold Assembly.close
  generalize a.scopes = open_, a'.scopes = open_' at scopes
  cases scopes with
  | nil => exact .failed unmatched similar
  | @cons scope scope' scopes scopes' here outer =>
      simp only [here.opener, ← alike.content]
      split
      · refine (node_parallel assemblies similar here).bind fun nodes similar =>
          .succeeded ⟨assemblies.contentType, assemblies.decided, ?_, outer⟩ similar
        have longer := here.nodes.append nodes
        simpa using longer
      · exact .failed unmatched similar

theorem read_parallel {α : Type} {result result' : Except ParseError α} {next next' : α → Assembly}
    (parses : Parses (fun x x' => x' = x) result result') (similar : before.Similar before')
    (assemblies : ∀ x, (next x).Similar (next' x)) :
    Parallel Assembly.Similar ((do return next (← Build.ofParse result)).run before)
      ((do return next' (← Build.ofParse result')).run before') := by
  refine (Parallel.ofParse parses similar).bind fun same similar => ?_
  subst same
  exact .succeeded (assemblies _) similar

theorem take_parallel (steady : Steady resolve) (assemblies : a.Similar a')
    (similar : before.Similar before') (alike : token.Alike token') :
    Parallel Assembly.Similar ((take resolve a token).run before)
      ((take resolve a' token').run before') := by
  unfold take
  rw [← alike.kind]
  cases token.kind with
  | text =>
      have texts : Node.Similar [.text token.content] [.text token'.content] := by
        rw [alike.content]
        exact .text .nil
      exact .succeeded (assemblies.add texts token token') similar
  | commentTag => exact .succeeded (assemblies.pass token token') similar
  | delimitersTag => exact .succeeded (assemblies.pass token token') similar
  | pragmaTag => exact .ofParse (pragma_parses assemblies alike) similar
  | variableTag =>
      exact read_parallel (expressionOf_parses alike) similar fun _ =>
        assemblies.decide.add (.variableTag alike.tagOf .nil) token token'
  | rawTag =>
      exact read_parallel (expressionOf_parses alike) similar fun _ =>
        assemblies.decide.add (.variableTag alike.tagOf .nil) token token'
  | sectionTag =>
      exact read_parallel (expressionOf_parses alike) similar fun _ => assemblies.decide.opened alike _
  | invertedTag =>
      exact read_parallel (expressionOf_parses alike) similar fun _ => assemblies.decide.opened alike _
  | blockTag =>
      exact read_parallel (nameOf_parses alike .block) similar fun _ =>
        assemblies.decide.opened alike _
  | partialTag =>
      refine (Parallel.ofParse (nameOf_parses alike .template) similar).bind fun same similar => ?_
      subst same
      refine (targetOf_parallel steady similar alike _).bind fun same similar => ?_
      subst same
      exact .succeeded (assemblies.decide.add (.partialTag .nil) token token') similar
  | inheritTag =>
      refine (Parallel.ofParse (nameOf_parses alike .template) similar).bind fun same similar => ?_
      subst same
      refine (targetOf_parallel steady similar alike _).bind fun same similar => ?_
      subst same
      exact .succeeded (assemblies.decide.opened alike _) similar
  | closeTag => exact close_parallel assemblies similar alike

theorem run_take_comment (kind : token.kind = .commentTag) (a : Assembly) (library : Library) :
    (take resolve a token).run library = (.ok (a.pass token), library) := by
  unfold take
  rw [kind]
  rfl

theorem run_take_text (kind : token.kind = .text) (a : Assembly) (library : Library) :
    (take resolve a token).run library = (.ok (a.add token (.text token.content)), library) := by
  unfold take
  rw [kind]
  rfl

theorem tokens_parallel (steady : Steady resolve) (commented : Token.Commented tokens tokens')
    (assemblies : a.Similar a') (similar : before.Similar before') :
    Parallel Assembly.Similar ((tokens.foldlM (take resolve) a).run before)
      ((tokens'.foldlM (take resolve) a').run before') := by
  induction commented generalizing a a' before before' with
  | nil => exact .succeeded assemblies similar
  | cons alike _ ih =>
      simp only [List.foldlM_cons]
      exact (take_parallel steady assemblies similar alike).bind ih
  | comment kind _ ih =>
      rw [List.foldlM_cons, run_bind, run_take_comment kind]
      exact ih (assemblies.passed _) similar
  | @cut whole first comment second _ _ text text' kind text'' split _ ih =>
      simp only [List.foldlM_cons]
      rw [run_bind, run_take_text text, run_bind, run_take_text text']
      dsimp only
      rw [run_bind, run_take_comment kind]
      dsimp only
      rw [run_bind, run_take_text text'']
      have texts : Node.Similar [.text whole.content] [.text first.content, .text second.content] := by
        rw [split]
        exact .cut .nil
      have longer := assemblies.nodes.append texts
      refine ih ⟨assemblies.contentType, assemblies.decided, ?_, assemblies.scopes⟩ similar
      simpa [add, Assembly.pass] using longer

theorem finish_parses (assemblies : a.Similar a') :
    Parses Document.Similar a.finish a'.finish := by
  have scopes := assemblies.scopes
  unfold finish
  generalize a.scopes = open_, a'.scopes = open_' at scopes
  cases scopes with
  | nil => exact .ok assemblies.content
  | cons here _ =>
      simp only [here.opener]
      exact .failed ⟨rfl, here.opening.template.symm⟩

theorem ending_parallel (assemblies : a.Similar a') (similar : before.Similar before')
    {ending ending' : Scan.Ending} (ends : ending.Alike ending') :
    Parallel Document.Similar ((a.ending ending).run before) ((a'.ending ending').run before') := by
  have finish := Parallel.ofParse (finish_parses assemblies) similar
  cases ends with
  | failed alike => exact .failed (.parse alike) similar
  | same =>
      cases ending with
      | finished => exact finish
      | stopped => exact finish
      | failed error => exact .failed .same similar
      | exhausted => exact .failed .same similar

end Assembly

theorem Repository.compile_parallel {κ : Type} (repository : Repository κ) (steady : Steady resolve)
    (similar : before.Similar before') {text text' : String} {id : Option String}
    (commented : Token.Commented (repository.scan text id).1 (repository.scan text' id).1)
    (ends : (repository.scan text id).2.Alike (repository.scan text' id).2) :
    Parallel Document.Similar ((repository.compile resolve text id).run before)
      ((repository.compile resolve text' id).run before') := by
  simp only [compile, ofScan_eq]
  exact (tokens_parallel steady commented (.start _) similar).bind fun assemblies similar =>
    ending_parallel assemblies similar ends

end Stencil
