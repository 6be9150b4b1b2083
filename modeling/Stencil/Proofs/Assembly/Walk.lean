import Stencil.Proofs.Assembly.Advance

namespace Stencil

namespace Store

inductive Walks (store : Store) : List Node → List Mark → Prop
  | nil : Walks store [] []
  | leaf {node : Node} {mark : Mark} {nodes : List Node} {marks : List Mark} : node.Leaf mark →
      Walks store nodes marks → Walks store (node :: nodes) (mark :: marks)
  | sectionTag {tag : Tag} {expression : Expression} {inverted : Bool} {body : Document}
      {source : String} {nodes : List Node} {inner marks : List Mark} :
      Walks store body.nodes inner → Walks store nodes marks →
      Walks store (.sectionTag tag expression inverted body source :: nodes)
        (.sectionTag tag expression inverted :: inner ++ .closeTag :: marks)
  | blockTag {name : String} {body : Document} {nodes : List Node} {inner marks : List Mark} :
      Walks store body.nodes inner → Walks store nodes marks →
      Walks store (.blockTag name body :: nodes) (.blockTag name :: inner ++ .closeTag :: marks)
  | inheritTag {name : String} {parent overriding : Ref} {body : Document} {nodes : List Node}
      {inner marks : List Mark} : store.get? overriding = some body →
      Walks store body.nodes inner → Walks store nodes marks →
      Walks store (.inheritTag name parent overriding :: nodes)
        (.inheritTag name parent :: inner ++ .closeTag :: marks)

variable {store later : Store} {nodes others : List Node} {marks inner : List Mark}

theorem Walks.kept (walks : store.Walks nodes marks) (kept : store.Keeps later) :
    later.Walks nodes marks := by
  induction walks with
  | nil => exact .nil
  | leaf leaf _ ih => exact .leaf leaf ih
  | sectionTag _ _ body ih => exact .sectionTag body ih
  | blockTag _ _ body ih => exact .blockTag body ih
  | inheritTag filled _ _ body ih => exact .inheritTag (kept _ _ filled) body ih

theorem Walks.append {marks' : List Mark} (first : store.Walks nodes marks)
    (second : store.Walks others marks') : store.Walks (nodes ++ others) (marks ++ marks') := by
  induction first with
  | nil => exact second
  | leaf leaf _ ih => exact .leaf leaf ih
  | sectionTag body _ _ ih => simpa using Walks.sectionTag body ih
  | blockTag body _ _ ih => simpa using Walks.blockTag body ih
  | inheritTag filled body _ _ ih => simpa using Walks.inheritTag filled body ih

theorem walks_scope {library : Library} {opener : Opener} {opening : Token} {body : Document}
    {source : String} {node : Node} (becomes : opener.Becomes library opening body source node)
    (walks : library.store.Walks body.nodes inner) :
    library.store.Walks [node] (opener.mark opening :: inner ++ [.closeTag]) := by
  cases becomes with
  | sectionOf => exact .sectionTag walks .nil
  | block => exact .blockTag walks .nil
  | inherit filled => exact .inheritTag filled walks .nil

/-- What is shown around the innermost of some open scopes. -/
inductive Surrounds (store : Store) : List Scope → List Mark → Prop
  | nil : Surrounds store [] []
  | scope {scope : Scope} {scopes : List Scope} {outer around : List Mark} :
      Surrounds store scopes outer → store.Walks scope.nodes.reverse around →
      Surrounds store (scope :: scopes) (outer ++ around ++ [scope.opener.mark scope.opening])

theorem Surrounds.kept {scopes : List Scope} (surrounds : store.Surrounds scopes marks)
    (kept : store.Keeps later) : later.Surrounds scopes marks := by
  induction surrounds with
  | nil => exact .nil
  | scope _ around ih => exact .scope ih (around.kept kept)

end Store

variable {links : String → Ref → Prop} {library : Library} {store later : Store}
  {tokens : List Token} {token : Token} {marks : List Mark} {mark : Mark} {a a' : Assembly}

namespace Token

/-- Tokens reappear as marks, one by one and without the silent ones. -/
def Reappear (links : String → Ref → Prop) (tokens : List Token) (marks : List Mark) : Prop :=
  List.Forall₂ (Token.Marks links) (tokens.filter fun token => !token.kind.silent) marks

theorem Marks.not_silent (shown : token.Marks links mark) : token.kind.silent = false := by
  cases shown <;> simp_all [Kind.silent]

theorem Reappear.silent (reappear : Reappear links tokens marks) (silent : token.kind.silent = true) :
    Reappear links (tokens ++ [token]) marks := by
  simpa [Reappear, silent] using reappear

theorem Reappear.snoc (reappear : Reappear links tokens marks) (shown : token.Marks links mark) :
    Reappear links (tokens ++ [token]) (marks ++ [mark]) := by
  have last : List.Forall₂ (Token.Marks links) [token] [mark] := .cons shown .nil
  simpa [Reappear, shown.not_silent] using List.rel_append reappear last

end Token

namespace Assembly

def Shows (links : String → Ref → Prop) (store : Store) (tokens : List Token) (a : Assembly) :
    Prop :=
  ∃ outer inner, store.Surrounds a.scopes outer ∧ store.Walks a.nodes.reverse inner ∧
    Token.Reappear links tokens (outer ++ inner)

theorem shows_start (links : String → Ref → Prop) (store : Store) (contentType : ContentType) :
    (start contentType).Shows links store [] :=
  ⟨[], [], .nil, .nil, .nil⟩

theorem Shows.kept (shows : a.Shows links store tokens) (kept : store.Keeps later) :
    a.Shows links later tokens := by
  obtain ⟨outer, inner, surrounds, walks, reappear⟩ := shows
  exact ⟨outer, inner, surrounds.kept kept, walks.kept kept, reappear⟩

theorem Shows.advances (shows : a.Shows links library.store tokens)
    (advances : Advances links library a token a') :
    a'.Shows links library.store (tokens ++ [token]) := by
  obtain ⟨outer, inner, surrounds, walks, reappear⟩ := shows
  cases advances with
  | silent silent => exact ⟨outer, inner, surrounds, walks, reappear.silent silent⟩
  | @adds decided node mark marks leaf _ =>
      refine ⟨outer, inner ++ [mark], surrounds, ?_, ?_⟩
      · rw [add, List.reverse_cons]
        exact walks.append (.leaf leaf .nil)
      · rw [← List.append_assoc]
        exact reappear.snoc marks
  | @opens opener marks =>
      let scope : Scope := ⟨opener, token, a.nodes, a.source⟩
      refine ⟨outer ++ inner ++ [opener.mark token], [], .scope surrounds walks, .nil, ?_⟩
      rw [List.append_nil]
      exact reappear.snoc marks
  | @closes scope scopes node open_ kind becomes =>
      rw [open_] at surrounds
      cases surrounds with
      | @scope _ _ outer around surrounds before =>
          -- The scope, from its opening tag to this one, joins what is shown around it.
          let shown := scope.opener.mark scope.opening :: inner ++ [.closeTag]
          refine ⟨outer, around ++ shown, surrounds, ?_, ?_⟩
          · rw [closed, List.reverse_cons]
            exact before.append (Store.walks_scope becomes walks)
          · have closing := reappear.snoc (.closeTag kind)
            simpa [shown] using closing

end Assembly

end Stencil
