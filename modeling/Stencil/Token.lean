import Stencil.Delimiters
import Stencil.Location

namespace Stencil

namespace Token

inductive Kind where
  | text
  | commentTag
  | sectionTag
  | invertedTag
  | blockTag
  | closeTag
  | partialTag
  | inheritTag
  | rawTag
  | variableTag
  | pragmaTag
  | delimitersTag
deriving DecidableEq, Repr

def Kind.ofSigil? : Char → Option Kind
  | '!' => some .commentTag
  | '#' => some .sectionTag
  | '^' => some .invertedTag
  | '$' => some .blockTag
  | '/' => some .closeTag
  | '>' => some .partialTag
  | '<' => some .inheritTag
  | '&' => some .rawTag
  | '%' => some .pragmaTag
  | _ => none

def classify (interior : List Char) : Kind × List Char :=
  match interior with
  | [] => (.variableTag, [])
  | c :: content =>
    match Kind.ofSigil? c with
    | some kind => (kind, content)
    | none => (.variableTag, interior)

end Token

structure Token where
  kind : Token.Kind
  content : String
  delimiters : Delimiters
  location : Location
  /-- The byte of the template at which the token starts. -/
  start : Nat
  source : String
deriving DecidableEq, Repr

def Token.stop (token : Token) : Nat :=
  token.start + token.source.utf8ByteSize

end Stencil
