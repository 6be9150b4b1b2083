import Stencil.Error
import Stencil.Text.Blank
import Stencil.Token

/-!
# Scanning

A scan walks through a template and hands its tokens to a receiver, which may ask it to stop. Each
step either passes over some characters, delivers a token or finds a fault. A step passes over at
least one character, unless it opens or closes a tag with an empty marker; so as long as not both
delimiters are empty, a scan of `n` characters takes at most `2 * n` steps and two more at the end.
-/

namespace Stencil

inductive Scan.Mode where
  | gap
  | text
  | tag (form : TagForm)
deriving DecidableEq, Repr

/-- How far a scan has come. The characters of the token under way are kept latest first. -/
structure Scan where
  template : Option String
  delimiters : Delimiters
  mode : Scan.Mode
  seen : List Char
  start : Nat
  startLine : Nat
  line : Nat
  rest : List Char
deriving DecidableEq, Repr

namespace Scan

def ofTemplate (source : List Char) (delimiters : Delimiters) (template : Option String) : Scan :=
  { template, delimiters, mode := .gap, seen := [], start := 0, startLine := 1, line := 1
    rest := source }

def size : List Char → Nat
  | [] => 0
  | c :: cs => c.utf8Size + size cs

def position (s : Scan) : Nat :=
  s.start + size s.seen

def location (s : Scan) : Location :=
  ⟨s.startLine, s.template⟩

def pass (s : Scan) (c : Char) (rest : List Char) : Scan :=
  { s with
    seen := c :: s.seen
    line := if c = '\n' then s.line + 1 else s.line
    rest }

def passText (s : Scan) (c : Char) (rest : List Char) : Scan :=
  match s.mode with
  | .gap => { s.pass c rest with mode := .text, startLine := s.line }
  | _ => s.pass c rest

def openTag (s : Scan) (form : TagForm) : Scan :=
  let marker := s.delimiters.opening form
  { s with
    mode := .tag form
    seen := marker.reverse
    start := s.position
    startLine := s.line
    rest := s.rest.drop marker.length }

def closeTag (s : Scan) (form : TagForm) (delimiters : Delimiters) : Scan :=
  let marker := s.delimiters.closing form
  { s with
    delimiters
    mode := .gap
    seen := []
    start := s.position + size marker
    rest := s.rest.drop marker.length }

def textToken (s : Scan) : Token :=
  let text := String.ofList s.seen.reverse
  { kind := .text, content := text, delimiters := s.delimiters, location := s.location
    start := s.start, source := text }

def interior (s : Scan) (form : TagForm) : List Char :=
  s.seen.reverse.drop (s.delimiters.opening form).length

def tagToken (s : Scan) (form : TagForm) (kind : Token.Kind) (content : List Char) : Token :=
  { kind, content := String.ofList content, delimiters := s.delimiters, location := s.location
    start := s.start
    source := String.ofList (s.seen.reverse ++ s.delimiters.closing form) }

inductive Step where
  | finished
  | failed (error : ParseError)
  | on (next : Scan)
  | token (token : Token) (next : Scan)

def close (s : Scan) : TagForm → Step
  | .plain =>
    let (kind, content) := Token.classify (s.interior .plain)
    .token (s.tagToken .plain kind content) (s.closeTag .plain s.delimiters)
  | .raw => .token (s.tagToken .raw .rawTag (s.interior .raw)) (s.closeTag .raw s.delimiters)
  | .redefining =>
    match Text.words (s.interior .redefining) with
    | [start, stop] =>
      .token (s.tagToken .redefining .delimitersTag (s.interior .redefining))
        (s.closeTag .redefining ⟨String.ofList start, String.ofList stop⟩)
    | _ => .failed ⟨.invalidDelimiters, s.location⟩

/-- One step of a scan. A line feed is passed over wherever it stands: no marker is recognised at
it. -/
def step (s : Scan) : Step :=
  match s.rest, s.mode with
  | [], .gap => .finished
  | [], .text => .token s.textToken { s with mode := .gap, seen := [], start := s.position }
  | [], .tag _ => .failed ⟨.unclosedTag, s.location⟩
  | c :: rest, .tag form =>
    if c ≠ '\n' ∧ (s.delimiters.closing form).isPrefixOf s.rest then s.close form
    else .on (s.pass c rest)
  | c :: rest, mode =>
    match if c = '\n' then none else s.delimiters.opens? s.rest with
    | none => .on (s.passText c rest)
    | some form =>
      if mode = .text then .token s.textToken (s.openTag form) else .on (s.openTag form)

inductive Ending where
  | finished
  | stopped
  | failed (error : ParseError)
  | exhausted
deriving DecidableEq, Repr

def feed {m : Type → Type} [Monad m] (receive : Token → m Bool) : Nat → Scan → m Ending
  | 0, _ => pure .exhausted
  | steps + 1, s =>
    match s.step with
    | .finished => pure .finished
    | .failed error => pure (.failed error)
    | .on next => feed receive steps next
    | .token token next => do
      if ← receive token then feed receive steps next else pure .stopped

/-- Steps that suffice for a template, unless both delimiters are empty; with both empty they
suffice for as many tokens as are wanted. -/
def steps (source : List Char) (wanted : Nat) : Nat :=
  2 * (source.length + wanted) + 2

end Scan

namespace Token

def ofTemplate (source : String) (delimiters : Delimiters) (template : Option String)
    (limit : Option Nat) : List Token × Option ParseError :=
  let receive (token : Token) : StateM (List Token) Bool :=
    modifyGet fun tokens =>
      (match limit with
        | some limit => tokens.length + 1 < limit
        | none => true, token :: tokens)
  let scan := Scan.ofTemplate source.toList delimiters template
  let (ending, tokens) := (scan.feed receive (Scan.steps source.toList (limit.getD 0))).run []
  (tokens.reverse, match ending with
    | .failed error => some error
    | _ => none)

end Token

end Stencil
