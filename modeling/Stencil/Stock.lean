import Stencil.Output
import Stencil.Repository

namespace Stencil

inductive Stock where
  -- Filters.
  | first
  | count
  | list
  | describeArguments
  | upper
  | wrapFirst
  /-- The first argument, rendered as HTML. -/
  | htmlFirst
  | curry
  | curried (earlier : List (Value Stock))
  | mismatch
  | failure
  -- Lookups.
  | echo
  | length
  -- Render functions.
  | const (rendering : Rendering)
  | content
  | contentWith (value : Value Stock)
  | contentBetween (before after : String) (contentType : ContentType)
  | source (contentType : ContentType)
  /-- Compiles the text of the tag's content again, and renders that. -/
  | compiled
  | delegate (value : Value Stock)
  /-- Renders another value and takes the text for HTML. -/
  | html (value : Value Stock)
  | describeKey (key : String) (contentType : ContentType)
  | evaluate (text : String)
  | describeInfo (contentType : ContentType)
  | error (message : String)
  -- Hooks.
  | will (name : String) (marks : Bool) (replacement : Option (Value Stock))
  | did (name : String)

namespace Stock

def applyFilter (filter : Stock) (arguments : List (Value Stock)) :
    Except RenderError (Value Stock) :=
  let argument := arguments.headD .null
  match filter with
  | .first => .ok argument
  | .count => .ok (.int arguments.length)
  | .list => .ok (.list arguments)
  | .describeArguments => .ok (.text (Value.list arguments).describe)
  | .upper =>
    match arguments with
    | [.text string] => .ok (.text (string.map Char.toUpper))
    | _ => .error (.custom "upper expects one string")
  | .wrapFirst => .ok (.custom 0 (some argument) {})
  | .htmlFirst => .ok (.rendering (.host (.html argument)))
  | .curry => .ok (.custom 0 none { filter := some (.host (.curried arguments)) })
  | .curried earlier => .ok (.list (earlier ++ arguments))
  | .mismatch => .error .contentTypeMismatch
  | _ => .error (.custom ("filter failed with " ++ toString arguments.length ++ " arguments"))

def find (lookup : Stock) (key : String) : Value Stock :=
  match lookup with
  | .echo => .text key
  | .length => .int key.utf8ByteSize
  | _ => .null

instance : Functions Stock where
  lookup := find
  filter := applyFilter

def contentSource (info : Info Stock) : String :=
  (info.content?.map SectionContent.source).getD ""

def summary (info : Info Stock) : String :=
  String.intercalate "|" [if info.content?.isSome then "Section" else "Variable",
    info.tag.describe, info.tag.location.describe,
    info.tag.delimiters.start ++ " " ++ info.tag.delimiters.stop, contentSource info,
    Value.boolText info.isItem, toString info.context.frames.length,
    Value.boolText info.context.top.truth]

def program (renderer : Stock) (info : Info Stock) : Action Stock :=
  match renderer with
  | .const rendering => .finish (.ok rendering)
  | .content => .content info info.context .finish
  | .contentWith value => .content info (info.context.push value) .finish
  | .contentBetween before after contentType =>
    .content info info.context fun outcome =>
      .finish (outcome.map fun rendering => ⟨before ++ rendering.string ++ after, contentType⟩)
  | .source contentType => .finish (.ok ⟨contentSource info, contentType⟩)
  | .compiled =>
    match Document.ofText (contentSource info) with
    | .ok document => .document document info.context .finish
    | .error (.error reason) => .finish (.error (.custom reason.message))
    | .error .exhausted => .finish (.error (.custom ""))
  | .delegate value => .value value info .finish
  | .html value =>
    .value value info fun outcome =>
      .finish (outcome.map fun rendering => ⟨rendering.string, .html⟩)
  | .describeKey key contentType =>
    .finish (.ok ⟨(info.context.lookup key).describe, contentType⟩)
  | .evaluate text =>
    match info.context.evaluate text with
    | .ok value => .value value info .finish
    | .error reason => .finish (.error (.custom reason.message))
  | .describeInfo contentType => .finish (.ok ⟨summary info, contentType⟩)
  | .error message => .finish (.error (.custom message))
  | _ => .finish (.error (.custom ""))

def replace (hook : Stock) (value : Value Stock) : Value Stock :=
  match hook, value with
  | .will _ _ (some replacement), _ => replacement
  | .will name true none, .text string => .text (name ++ "(" ++ string ++ ")")
  | _, value => value

instance : Host Stock where
  render name _ := name.program
  will hook _ value := hook.replace value

def name : Stock → String
  | .will name _ _ => name
  | .did name => name
  | _ => ""

end Stock

end Stencil
