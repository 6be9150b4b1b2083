import Stencil.Location

namespace Stencil

inductive ExpressionError where
  | empty
  | missingIdentifier
  | unexpectedCharacter (c : Char)
  | unclosedCall
deriving DecidableEq, Repr

def ExpressionError.message : ExpressionError → String
  | .empty => "Missing expression"
  | .missingIdentifier => "Missing identifier"
  | .unexpectedCharacter c => "Unexpected character `" ++ String.singleton c ++ "`"
  | .unclosedCall => "Missing `)` in filter call"

inductive Named where
  | block
  | template
deriving DecidableEq, Repr

def Named.noun : Named → String
  | .block => "inheritable section"
  | .template => "partial"

inductive Fault where
  | invalidDelimiters
  | unclosedTag
  | unclosedSection (name : String)
  | unmatchedClosing (tag : String)
  | invalidExpression (expression : String) (error : ExpressionError)
  | missingName (named : Named)
  | misplacedPragma (pragma : String)
  | missingTemplate (name : String)
deriving DecidableEq, Repr

def Fault.message : Fault → String
  | .invalidDelimiters => "Invalid set delimiters tag"
  | .unclosedTag => "Unclosed Mustache tag"
  | .unclosedSection name => "Unclosed Mustache section `" ++ name ++ "`"
  | .unmatchedClosing tag => "Unmatched closing tag `" ++ tag ++ "`"
  | .invalidExpression expression error =>
    "Invalid expression `" ++ expression ++ "`: " ++ error.message
  | .missingName named => "Missing " ++ named.noun ++ " name"
  | .misplacedPragma pragma =>
    pragma ++ " pragma tag must prepend any Mustache variable, section, or partial tag"
  | .missingTemplate name => "No such partial named `" ++ name ++ "`"

structure ParseError where
  fault : Fault
  location : Location
deriving DecidableEq, Repr

def ParseError.message (error : ParseError) : String :=
  "Parse error at " ++ error.location.describe ++ ": " ++ error.fault.message

inductive RenderError where
  | evaluation (tag : String) (reason : String)
  | missingFilter (name : String)
  | notAFilter (name : String)
  | nonEnumerable (value : String)
  | contentTypeMismatch
  | custom (message : String)
deriving DecidableEq, Repr

def RenderError.message : RenderError → String
  | .evaluation tag reason => "Error evaluating " ++ tag ++ ": " ++ reason
  | .missingFilter name => "Missing filter `" ++ name ++ "`"
  | .notAFilter name => "`" ++ name ++ "` is not a filter"
  | .nonEnumerable value => "Non-enumerable argument in each filter: " ++ value
  | .contentTypeMismatch => "Content type mismatch"
  | .custom message => message

inductive FileError where
  | notFound
  | notADirectory
  | isADirectory
  | invalidText
deriving DecidableEq, Repr

def FileError.message : FileError → String
  | .notFound => "no such file"
  | .notADirectory => "not a directory"
  | .isADirectory => "is a directory"
  | .invalidText => "not valid UTF-8"

inductive Error where
  | parse (error : ParseError)
  | render (error : RenderError)
  | templateNotFound (name : String)
  | file (error : FileError)
deriving DecidableEq, Repr

def Error.message : Error → String
  | .parse error => error.message
  | .render error => error.message
  | .templateNotFound name => "No such template `" ++ name ++ "`"
  | .file error => "I/O error: " ++ error.message

end Stencil
