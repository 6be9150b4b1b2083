namespace Stencil

structure Delimiters where
  start : String
  stop : String
deriving DecidableEq, Repr

inductive TagForm where
  | plain
  | raw
  | redefining
deriving DecidableEq, Repr

namespace Delimiters

def braces : Delimiters :=
  ⟨"\x7b\x7b", "\x7d\x7d"⟩

def opening (d : Delimiters) : TagForm → List Char
  | .plain => d.start.toList
  | .raw => ['\x7b', '\x7b', '\x7b']
  | .redefining => d.start.toList ++ ['=']

def closing (d : Delimiters) : TagForm → List Char
  | .plain => d.stop.toList
  | .raw => ['\x7d', '\x7d', '\x7d']
  | .redefining => '=' :: d.stop.toList

def opens? (d : Delimiters) (text : List Char) : Option TagForm :=
  if d = braces ∧ (d.opening .raw).isPrefixOf text then some .raw
  else if (d.opening .redefining).isPrefixOf text then some .redefining
  else if (d.opening .plain).isPrefixOf text then some .plain
  else none

theorem isPrefixOf_of_opens? {d : Delimiters} {text : List Char} {form : TagForm}
    (opened : d.opens? text = some form) : (d.opening form).isPrefixOf text := by
  unfold opens? at opened
  split at opened
  · rename_i h
    cases opened
    exact h.2
  · split at opened
    · cases opened
      assumption
    · split at opened
      · cases opened
        assumption
      · cases opened

end Delimiters

end Stencil
