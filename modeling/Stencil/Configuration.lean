import Stencil.Filter

namespace Stencil

variable {κ : Type}

structure Configuration (κ : Type) where
  contentType : ContentType
  delimiters : Delimiters
  context : Context κ

namespace Configuration

def standard : Configuration κ where
  contentType := .html
  delimiters := .braces
  context := Context.empty.push (.standardFilters 0)

end Configuration

structure Options where
  contentType : Option ContentType := none
  delimiters : Option Delimiters := none
deriving DecidableEq, Repr

namespace Options

def optional {α : Type} (read : Value κ → Option α) : Value κ → Option (Option α)
  | .null => some none
  | value => (read value).map some

def contentType? : Value κ → Option ContentType
  | .text "html" => some .html
  | .text "text" => some .text
  | .map (.cons "html" .null _ .nil) => some .html
  | .map (.cons "text" .null _ .nil) => some .text
  | _ => none

def delimiters? : Value κ → Option Delimiters
  | .map entries =>
    match entries.toList.lookup "start", entries.toList.lookup "end" with
    | some (.text start), some (.text stop) => some ⟨start, stop⟩
    | _, _ => none
  | .list [.text start, .text stop] => some ⟨start, stop⟩
  | _ => none

/-- The settings in their order, of which the last may be left out. -/
def ofItems? : List (Value κ) → Option Options
  | [] => some {}
  | [first] => do return { contentType := ← optional contentType? first }
  | [first, second] => do
    return { contentType := ← optional contentType? first
             delimiters := ← optional delimiters? second }
  | _ => none

def ofValue? : Value κ → Option Options
  | .map entries =>
    if entries.toList.all fun (key, _) =>
        key == "content_type" || key == "tag_delimiter_pair" then
      ofItems? [(entries.toList.lookup "content_type").getD .null,
        (entries.toList.lookup "tag_delimiter_pair").getD .null]
    else none
  | .list items => ofItems? items
  | _ => none

end Options

def Configuration.withOptions (configuration : Configuration κ) (options : Options) :
    Configuration κ :=
  { configuration with
    contentType := options.contentType.getD configuration.contentType
    delimiters := options.delimiters.getD configuration.delimiters }

end Stencil
