import Stencil.Expression.Reader
import Stencil.Library
import Stencil.Token.Scanner

namespace Stencil

inductive Opener where
  | sectionOf (expression : Expression) (inverted : Bool)
  | block (name : String)
  | inherit (name : String) (parent : Ref)

def Opener.name : Opener → String
  | .sectionOf expression _ => expression.describe
  | .block name => name
  | .inherit name _ => name

def Opener.closedBy (opener : Opener) (content : String) : Bool :=
  content.isEmpty ||
    match opener with
    | .sectionOf expression _ =>
      match Expression.ofText content with
      | .ok closing => closing == expression
      | .error _ => false
    | .block name => name == content
    | .inherit name _ => name == content

structure Scope where
  opener : Opener
  opening : Token
  nodes : List Node
  source : String

/-- What has been assembled so far: the innermost scope's nodes, the latest first, the text they were
read from, and the scopes around them, innermost first. -/
structure Assembly where
  contentType : ContentType
  decided : Bool
  nodes : List Node
  source : String
  scopes : List Scope

namespace Assembly

def start (contentType : ContentType) : Assembly :=
  { contentType, decided := false, nodes := [], source := "", scopes := [] }

def decide (a : Assembly) : Assembly :=
  { a with decided := true }

def pass (a : Assembly) (token : Token) : Assembly :=
  { a with source := a.source ++ token.source }

def add (a : Assembly) (token : Token) (node : Node) : Assembly :=
  { a with nodes := node :: a.nodes, source := a.source ++ token.source }

def opened (a : Assembly) (token : Token) (opener : Opener) : Assembly :=
  { a with
    nodes := []
    source := ""
    scopes := { opener, opening := token, nodes := a.nodes, source := a.source } :: a.scopes }

def content (a : Assembly) : Document :=
  ⟨a.contentType, a.nodes.reverse⟩

def tagOf (token : Token) : Tag :=
  { source := token.source, location := token.location, delimiters := token.delimiters }

def expressionOf (token : Token) : Except ParseError Expression :=
  (Expression.ofText token.content).mapError fun error =>
    ⟨.invalidExpression (Text.trim token.content) error, token.location⟩

def nameOf (token : Token) (named : Named) : Except ParseError String :=
  let name := Text.trim token.content
  if name.isEmpty then .error ⟨.missingName named, token.location⟩ else .ok name

def pragmaType? (pragma : List Char) : Option ContentType :=
  let key := "CONTENT_TYPE".toList
  if key.isPrefixOf pragma then
    match (pragma.drop key.length).dropWhile Text.isBlank with
    | ':' :: value =>
      let value := value.dropWhile Text.isBlank
      if value = "TEXT".toList then some .text
      else if value = "HTML".toList then some .html
      else none
    | _ => none
  else none

def pragma (a : Assembly) (token : Token) : Except ParseError Assembly :=
  let pragma := Text.trim token.content
  match pragmaType? pragma.toList with
  | none => .ok (a.pass token)
  | some contentType =>
    if a.decided then .error ⟨.misplacedPragma pragma, token.location⟩
    else .ok ({ a with contentType }.pass token)

def targetOf (resolve : String → Build (Option Ref)) (token : Token) (name : String) :
    Build Ref := do
  match ← resolve name with
  | some ref => return ref
  | none => throw (.error (.parse ⟨.missingTemplate name, token.location⟩))

def node (a : Assembly) (scope : Scope) : Build Node := do
  match scope.opener with
  | .sectionOf expression inverted =>
    return .sectionTag (tagOf scope.opening) expression inverted a.content a.source
  | .block name => return .blockTag name a.content
  | .inherit name parent => return .inheritTag name parent (← Build.add a.content)

def close (a : Assembly) (token : Token) : Build Assembly := do
  let unmatched : Failure := .error (.parse ⟨.unmatchedClosing token.source, token.location⟩)
  match a.scopes with
  | [] => throw unmatched
  | scope :: scopes =>
    if scope.opener.closedBy (Text.trim token.content) then
      let node ← a.node scope
      return { a with
        nodes := node :: scope.nodes
        source := scope.source ++ scope.opening.source ++ a.source ++ token.source
        scopes }
    else throw unmatched

def take (resolve : String → Build (Option Ref)) (a : Assembly) (token : Token) :
    Build Assembly := do
  match token.kind with
  | .text => return a.add token (.text token.content)
  | .commentTag | .delimitersTag => return a.pass token
  | .pragmaTag => Build.ofParse (a.pragma token)
  | .variableTag =>
    let expression ← Build.ofParse (expressionOf token)
    return a.decide.add token (.variableTag (tagOf token) expression true)
  | .rawTag =>
    let expression ← Build.ofParse (expressionOf token)
    return a.decide.add token (.variableTag (tagOf token) expression false)
  | .sectionTag =>
    let expression ← Build.ofParse (expressionOf token)
    return a.decide.opened token (.sectionOf expression false)
  | .invertedTag =>
    let expression ← Build.ofParse (expressionOf token)
    return a.decide.opened token (.sectionOf expression true)
  | .blockTag =>
    let name ← Build.ofParse (nameOf token .block)
    return a.decide.opened token (.block name)
  | .partialTag =>
    let name ← Build.ofParse (nameOf token .template)
    let target ← targetOf resolve token name
    return a.decide.add token (.partialTag name target)
  | .inheritTag =>
    let name ← Build.ofParse (nameOf token .template)
    let parent ← targetOf resolve token name
    return a.decide.opened token (.inherit name parent)
  | .closeTag => a.close token

def finish (a : Assembly) : Except ParseError Document :=
  match a.scopes with
  | [] => .ok a.content
  | scope :: _ => .error ⟨.unclosedSection scope.opener.name, scope.opening.location⟩

def ofScan (resolve : String → Build (Option Ref)) (contentType : ContentType) (steps : Nat)
    (scan : Scan) : Build Document := do
  let receive (token : Token) : StateT Assembly Build Bool := do
    set (← take resolve (← get) token)
    return true
  let (ending, assembly) ← (scan.feed receive steps).run (start contentType)
  match ending with
  | .failed error => throw (.error (.parse error))
  | .exhausted => throw .exhausted
  | .finished | .stopped => Build.ofParse assembly.finish

end Assembly

end Stencil
