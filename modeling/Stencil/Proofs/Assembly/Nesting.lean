import Stencil.Proofs.Assembly.Run

namespace Stencil

open Assembly

namespace Token

def Kind.holdsExpression : Kind → Bool
  | .variableTag | .rawTag | .sectionTag | .invertedTag => true
  | _ => false

def Kind.named? : Kind → Option Named
  | .blockTag => some .block
  | .partialTag | .inheritTag => some .template
  | _ => none

def Kind.renders (kind : Kind) : Bool :=
  kind.holdsExpression || kind.named?.isSome

def Kind.opens : Kind → Bool
  | .sectionTag | .invertedTag | .blockTag | .inheritTag => true
  | _ => false

def Kind.silent : Kind → Bool
  | .commentTag | .delimitersTag | .pragmaTag => true
  | _ => false

def Kind.single (kind : Kind) : Prop :=
  kind.silent = false ∧ kind.opens = false ∧ kind ≠ .closeTag

theorem Kind.of_silent {kind : Kind} (silent : kind.silent = true) :
    kind.renders = false ∧ kind.opens = false ∧ kind ≠ .closeTag := by
  cases kind <;> simp_all [Kind.silent, Kind.renders, Kind.holdsExpression, Kind.named?, Kind.opens]

theorem Kind.of_opens {kind : Kind} (opens : kind.opens = true) : kind ≠ .closeTag := by
  cases kind <;> simp_all [Kind.opens]

/-- The tags whose scopes are open after some tokens, innermost first. -/
def openings (tokens : List Token) : List Token :=
  tokens.foldl (fun scopes token =>
    if token.kind.opens then token :: scopes
    else if token.kind = .closeTag then scopes.tail
    else scopes) []

theorem openings_snoc (tokens : List Token) (token : Token) :
    openings (tokens ++ [token]) =
      if token.kind.opens then token :: openings tokens
      else if token.kind = .closeTag then (openings tokens).tail
      else openings tokens := by
  simp [openings]

inductive Matches (closing opening : Token) : Prop
  | empty : Text.trim closing.content = "" → Matches closing opening
  | expression {expression : Expression} : opening.kind.holdsExpression = true →
      Expression.ofText opening.content = .ok expression →
      Expression.ofText (Text.trim closing.content) = .ok expression → Matches closing opening
  | name : opening.kind.named?.isSome = true →
      Text.trim closing.content = Text.trim opening.content → Matches closing opening

def scopeName (opening : Token) : String :=
  match opening.kind.holdsExpression, Expression.ofText opening.content with
  | true, .ok expression => expression.describe
  | _, _ => Text.trim opening.content

/-- What is wrong with a token that follows others, whatever the names of templates stand for. -/
inductive Faulty (earlier : List Token) (token : Token) : ParseError → Prop
  | expression {error : ExpressionError} : token.kind.holdsExpression = true →
      Expression.ofText token.content = .error error →
      Faulty earlier token ⟨.invalidExpression (Text.trim token.content) error, token.location⟩
  | name {named : Named} : token.kind.named? = some named → Text.trim token.content = "" →
      Faulty earlier token ⟨.missingName named, token.location⟩
  | pragma {contentType : ContentType} {other : Token} : token.kind = .pragmaTag →
      pragmaType? (Text.trim token.content).toList = some contentType →
      other ∈ earlier → other.kind.renders = true →
      Faulty earlier token ⟨.misplacedPragma (Text.trim token.content), token.location⟩
  | closing : token.kind = .closeTag →
      (∀ opening outer, openings earlier = opening :: outer → ¬ token.Matches opening) →
      Faulty earlier token ⟨.unmatchedClosing token.source, token.location⟩

def Throughout (P : List Token → Token → Prop) (tokens : List Token) : Prop :=
  ∀ earlier token, earlier ++ [token] <+: tokens → P earlier token

def Faultless (tokens : List Token) : Prop :=
  Throughout (fun earlier token => ∀ error, ¬ token.Faulty earlier error) tokens

def settle (contentType : ContentType) (token : Token) : ContentType :=
  if token.kind = .pragmaTag then (pragmaType? (Text.trim token.content).toList).getD contentType
  else contentType

structure Asks (token : Token) (name : String) : Prop where
  kind : token.kind = .partialTag ∨ token.kind = .inheritTag
  names : token.Names name

variable {earlier tokens : List Token} {token : Token} {P : List Token → Token → Prop}

theorem throughout_nil (P : List Token → Token → Prop) : Throughout P [] := by
  intro earlier token within
  simp at within

theorem throughout_snoc :
    Throughout P (tokens ++ [token]) ↔ Throughout P tokens ∧ P tokens token := by
  constructor
  · intro all
    refine ⟨fun earlier other within => all earlier other (within.trans ?_), ?_⟩
    · exact List.prefix_append tokens [token]
    · exact all tokens token (List.prefix_refl _)
  · rintro ⟨all, last⟩ earlier other within
    rcases List.prefix_concat_iff.mp within with same | within
    · obtain ⟨rfl, here⟩ := List.append_inj' same rfl
      obtain rfl := List.singleton_inj.mp here
      exact last
    · exact all earlier other within

theorem Faulty.unique {error error' : ParseError} (faulty : token.Faulty earlier error)
    (faulty' : token.Faulty earlier error') : error = error' := by
  cases faulty with
  | expression kind parsed =>
      cases faulty' with
      | expression _ parsed' =>
          rw [parsed] at parsed'
          cases parsed'
          rfl
      | name kind' => cases h : token.kind <;> simp_all [Kind.holdsExpression, Kind.named?]
      | pragma kind' => simp [kind', Kind.holdsExpression] at kind
      | closing kind' => simp [kind', Kind.holdsExpression] at kind
  | name kind =>
      cases faulty' with
      | expression kind' => cases h : token.kind <;> simp_all [Kind.holdsExpression, Kind.named?]
      | name kind' =>
          rw [kind] at kind'
          cases kind'
          rfl
      | pragma kind' => simp [kind', Kind.named?] at kind
      | closing kind' => simp [kind', Kind.named?] at kind
  | pragma kind =>
      cases faulty' with
      | expression kind' => simp [kind, Kind.holdsExpression] at kind'
      | name kind' => simp [kind, Kind.named?] at kind'
      | pragma => rfl
      | closing kind' => simp [kind] at kind'
  | closing kind =>
      cases faulty' with
      | expression kind' => simp [kind, Kind.holdsExpression] at kind'
      | name kind' => simp [kind, Kind.named?] at kind'
      | pragma kind' => simp [kind] at kind'
      | closing => rfl

theorem exists_expression (sound : ∀ error, ¬ token.Faulty earlier error)
    (kind : token.kind.holdsExpression = true) :
    ∃ expression, Expression.ofText token.content = .ok expression := by
  cases parsed : Expression.ofText token.content with
  | error error => exact absurd (.expression kind parsed) (sound _)
  | ok expression => exact ⟨expression, rfl⟩

theorem exists_name {named : Named} (sound : ∀ error, ¬ token.Faulty earlier error)
    (kind : token.kind.named? = some named) : ∃ name, token.Names name := by
  by_cases blank : Text.trim token.content = ""
  · exact absurd (.name kind blank) (sound _)
  · exact ⟨_, rfl, by simp [blank]⟩

theorem Asks.unique {name name' : String} (asks : token.Asks name) (asks' : token.Asks name') :
    name = name' :=
  asks.names.1.trans asks'.names.1.symm

theorem Asks.not_faulty {name : String} (asks : token.Asks name) (error : ParseError) :
    ¬ token.Faulty earlier error := by
  obtain ⟨kind, rfl, filled⟩ := asks
  intro faulty
  cases faulty with
  | expression kind' => rcases kind with kind | kind <;> simp [kind, Kind.holdsExpression] at kind'
  | name _ blank => simp [blank] at filled
  | pragma kind' => rcases kind with kind | kind <;> simp [kind] at kind'
  | closing kind' => rcases kind with kind | kind <;> simp [kind] at kind'

end Token

/-- What a document shows of a token: a text, a tag, or the end of a scope. -/
inductive Mark where
  | text (string : String)
  | variableTag (tag : Tag) (expression : Expression) (escapes : Bool)
  | sectionTag (tag : Tag) (expression : Expression) (inverted : Bool)
  | blockTag (name : String)
  | partialTag (name : String) (target : Ref)
  | inheritTag (name : String) (parent : Ref)
  | closeTag

inductive Token.Marks (links : String → Ref → Prop) (token : Token) : Mark → Prop
  | text : token.kind = .text → Marks links token (.text token.content)
  | variableTag {expression : Expression} : token.kind = .variableTag →
      Expression.ofText token.content = .ok expression →
      Marks links token (.variableTag (tagOf token) expression true)
  | rawTag {expression : Expression} : token.kind = .rawTag →
      Expression.ofText token.content = .ok expression →
      Marks links token (.variableTag (tagOf token) expression false)
  | sectionTag {expression : Expression} : token.kind = .sectionTag →
      Expression.ofText token.content = .ok expression →
      Marks links token (.sectionTag (tagOf token) expression false)
  | invertedTag {expression : Expression} : token.kind = .invertedTag →
      Expression.ofText token.content = .ok expression →
      Marks links token (.sectionTag (tagOf token) expression true)
  | blockTag {name : String} : token.kind = .blockTag → token.Names name →
      Marks links token (.blockTag name)
  | partialTag {name : String} {target : Ref} : token.kind = .partialTag → token.Names name →
      links name target → Marks links token (.partialTag name target)
  | inheritTag {name : String} {parent : Ref} : token.kind = .inheritTag → token.Names name →
      links name parent → Marks links token (.inheritTag name parent)
  | closeTag : token.kind = .closeTag → Marks links token .closeTag

inductive Node.Leaf : Node → Mark → Prop
  | text {string : String} : Leaf (.text string) (.text string)
  | variableTag {tag : Tag} {expression : Expression} {escapes : Bool} :
      Leaf (.variableTag tag expression escapes) (.variableTag tag expression escapes)
  | partialTag {name : String} {target : Ref} :
      Leaf (.partialTag name target) (.partialTag name target)

def Opener.mark (opening : Token) : Opener → Mark
  | .sectionOf expression inverted => .sectionTag (tagOf opening) expression inverted
  | .block name => .blockTag name
  | .inherit name parent => .inheritTag name parent

variable {links : String → Ref → Prop} {opening closing token : Token} {opener : Opener}
  {earlier : List Token}

namespace Token.Marks

theorem opens (marks : opening.Marks links (opener.mark opening)) : opening.kind.opens = true := by
  cases opener <;> cases marks <;> simp_all [Kind.opens]

theorem single {node : Node} {mark : Mark} (marks : token.Marks links mark) (leaf : node.Leaf mark) :
    token.kind.single := by
  cases leaf <;> cases marks <;> simp_all [Kind.single, Kind.silent, Kind.opens]

theorem renders (marks : opening.Marks links (opener.mark opening)) :
    opening.kind.renders = true := by
  cases opener <;> cases marks <;> simp_all [Kind.renders, Kind.holdsExpression, Kind.named?]

theorem name_eq (marks : opening.Marks links (opener.mark opening)) :
    opener.name = opening.scopeName := by
  cases opener with
  | sectionOf expression inverted =>
      cases marks <;> simp_all [Opener.name, scopeName, Kind.holdsExpression]
  | block name =>
      cases marks with
      | blockTag kind names => simp [Opener.name, scopeName, kind, Kind.holdsExpression, names.1]
  | inherit name parent =>
      cases marks with
      | inheritTag kind names => simp [Opener.name, scopeName, kind, Kind.holdsExpression, names.1]

theorem closedBy_iff (marks : opening.Marks links (opener.mark opening)) :
    opener.closedBy (Text.trim closing.content) = true ↔ closing.Matches opening := by
  constructor
  · intro closedBy
    by_cases empty : Text.trim closing.content = ""
    · exact .empty empty
    · have filled : (Text.trim closing.content).isEmpty = false := by simp [empty]
      simp only [Opener.closedBy, filled, Bool.false_or] at closedBy
      cases opener with
      | sectionOf expression inverted =>
          dsimp only at closedBy
          split at closedBy
          · rename_i repeated parsed
            obtain rfl := eq_of_beq closedBy
            cases marks with
            | sectionTag kind opened =>
                exact .expression (by simp [kind, Kind.holdsExpression]) opened parsed
            | invertedTag kind opened =>
                exact .expression (by simp [kind, Kind.holdsExpression]) opened parsed
          · cases closedBy
      | block name =>
          cases marks with
          | blockTag kind names =>
              exact .name (by simp [kind, Kind.named?]) ((eq_of_beq closedBy).symm.trans names.1)
      | inherit name parent =>
          cases marks with
          | inheritTag kind names =>
              exact .name (by simp [kind, Kind.named?]) ((eq_of_beq closedBy).symm.trans names.1)
  · intro fits
    cases fits with
    | empty blank => simp [Opener.closedBy, blank]
    | expression kind opened parsed =>
        cases opener with
        | sectionOf expression inverted => cases marks <;> simp_all [Opener.closedBy]
        | block name => cases marks; simp_all [Kind.holdsExpression]
        | inherit name parent => cases marks; simp_all [Kind.holdsExpression]
    | name kind same =>
        cases opener with
        | sectionOf expression inverted => cases marks <;> simp_all [Kind.named?]
        | block name => cases marks with | blockTag _ names => simp [Opener.closedBy, same, names.1]
        | inherit name parent =>
            cases marks with | inheritTag _ names => simp [Opener.closedBy, same, names.1]

end Token.Marks

end Stencil
