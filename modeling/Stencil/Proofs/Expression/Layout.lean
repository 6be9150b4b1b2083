import Mathlib
import Stencil.Expression.Reader

namespace Stencil.Expression

def Blanks (cs : List Char) : Prop :=
  ∀ c ∈ cs, Text.isBlank c = true

def IsIdentifier (s : String) : Prop :=
  s ≠ "" ∧ ∀ c ∈ s.toList, Text.isBlank c = false ∧ c ∉ ['.', '(', ')', ',']

mutual

/-- The texts of an expression, without blanks at either end. -/
inductive Layout : Expression → List Char → Prop
  | top : Layout .top ['.']
  | name {identifier : String} : IsIdentifier identifier →
      Layout (.name identifier) identifier.toList
  /-- The dot before a key of the top stands for the top as well. -/
  | topKey {identifier : String} : IsIdentifier identifier →
      Layout (.key .top identifier) ('.' :: identifier.toList)
  | key {base : Expression} {cs : List Char} {identifier : String} : Layout base cs →
      IsIdentifier identifier → Layout (.key base identifier) (cs ++ '.' :: identifier.toList)
  | call {filter : Expression} {cs ds : List Char} {arguments : List Expression} :
      Layout filter cs → ArgumentsLayout arguments ds →
      Layout (.call filter arguments) (cs ++ '(' :: ds ++ [')'])

inductive Spelled : Expression → List Char → Prop
  | mk {expression : Expression} {before cs after : List Char} : Blanks before →
      Layout expression cs → Blanks after → Spelled expression (before ++ cs ++ after)

inductive ArgumentsLayout : List Expression → List Char → Prop
  | none {blanks : List Char} : Blanks blanks → ArgumentsLayout [] blanks
  | last {argument : Expression} {cs : List Char} : Spelled argument cs →
      ArgumentsLayout [argument] cs
  | cons {argument next : Expression} {arguments : List Expression} {cs rest : List Char} :
      Spelled argument cs → ArgumentsLayout (next :: arguments) rest →
      ArgumentsLayout (argument :: next :: arguments) (cs ++ ',' :: rest)

end

mutual

def WellFormed : Expression → Prop
  | .top => True
  | .name identifier => IsIdentifier identifier
  | .key base identifier => base.WellFormed ∧ IsIdentifier identifier
  | .call filter arguments => filter.WellFormed ∧ ArgumentsWellFormed arguments

def ArgumentsWellFormed : List Expression → Prop
  | [] => True
  | argument :: arguments => argument.WellFormed ∧ ArgumentsWellFormed arguments

end

theorem blanks_nil : Blanks [] := by
  simp [Blanks]

theorem Blanks.append {before after : List Char} (first : Blanks before) (second : Blanks after) :
    Blanks (before ++ after) :=
  List.forall_mem_append.mpr ⟨first, second⟩

theorem Layout.spelled {expression : Expression} {cs : List Char} (written : Layout expression cs) :
    Spelled expression cs := by
  simpa using Spelled.mk blanks_nil written blanks_nil

theorem Spelled.indent {expression : Expression} {blanks cs : List Char}
    (spelled : Spelled expression cs) (blank : Blanks blanks) :
    Spelled expression (blanks ++ cs) := by
  cases spelled with
  | mk leading written trailing => simpa using Spelled.mk (blank.append leading) written trailing

theorem Spelled.extend {expression : Expression} {blanks cs : List Char}
    (spelled : Spelled expression cs) (blank : Blanks blanks) :
    Spelled expression (cs ++ blanks) := by
  cases spelled with
  | mk leading written trailing => simpa using Spelled.mk leading written (trailing.append blank)

theorem ArgumentsLayout.indent {arguments : List Expression} {blanks cs : List Char}
    (written : ArgumentsLayout arguments cs) (blank : Blanks blanks) :
    ArgumentsLayout arguments (blanks ++ cs) := by
  cases written with
  | none own => exact .none (blank.append own)
  | last argument => exact .last (argument.indent blank)
  | cons argument rest => simpa using ArgumentsLayout.cons (argument.indent blank) rest

theorem isIdentifierChar_iff (c : Char) :
    isIdentifierChar c = true ↔ Text.isBlank c = false ∧ c ∉ ['.', '(', ')', ','] := by
  simp [isIdentifierChar, and_assoc]

theorem IsIdentifier.ne_nil {s : String} (identifier : IsIdentifier s) : s.toList ≠ [] := by
  simpa using identifier.1

theorem IsIdentifier.chars {s : String} (identifier : IsIdentifier s) :
    ∀ c ∈ s.toList, isIdentifierChar c = true :=
  fun c member => (isIdentifierChar_iff c).mpr (identifier.2 c member)

theorem isIdentifier_ofList {cs : List Char} (filled : cs ≠ [])
    (all : ∀ c ∈ cs, isIdentifierChar c = true) : IsIdentifier (String.ofList cs.reverse) := by
  refine ⟨by simpa using filled, fun c member => (isIdentifierChar_iff c).mp (all c ?_)⟩
  simpa using member

mutual

theorem Layout.wellFormed {expression : Expression} {cs : List Char} :
    Layout expression cs → expression.WellFormed
  | .top => trivial
  | .name identifier => identifier
  | .topKey identifier => ⟨trivial, identifier⟩
  | .key base identifier => ⟨base.wellFormed, identifier⟩
  | .call filter arguments => ⟨filter.wellFormed, arguments.wellFormed⟩

theorem Spelled.wellFormed {expression : Expression} {cs : List Char} :
    Spelled expression cs → expression.WellFormed
  | .mk _ written _ => written.wellFormed

theorem ArgumentsLayout.wellFormed {arguments : List Expression} {cs : List Char} :
    ArgumentsLayout arguments cs → ArgumentsWellFormed arguments
  | .none _ => trivial
  | .last argument => ⟨argument.wellFormed, trivial⟩
  | .cons argument rest => ⟨argument.wellFormed, rest.wellFormed⟩

end

mutual

theorem layout_describe : (expression : Expression) → expression.WellFormed →
    Layout expression expression.describe.toList
  | .top, _ => .top
  | .name _, identifier => .name identifier
  | .key base identifier, ⟨base_, identifier_⟩ => by
    have described := layout_describe base base_
    cases base with
    | top => simpa [describe] using Layout.topKey identifier_
    | _ => simpa [describe] using described.key identifier_
  | .call filter arguments, ⟨filter_, arguments_⟩ => by
    have described := layout_describe filter filter_
    simpa [describe] using described.call (layout_describeArguments arguments arguments_)

theorem layout_describeArguments : (arguments : List Expression) →
    ArgumentsWellFormed arguments → ArgumentsLayout arguments (describeArguments arguments).toList
  | [], _ => .none blanks_nil
  | [argument], ⟨argument_, _⟩ => by
    simpa [describeArguments] using ArgumentsLayout.last (layout_describe argument argument_).spelled
  | argument :: next :: arguments, ⟨argument_, rest_⟩ => by
    have described := (layout_describe argument argument_).spelled
    have rest := layout_describeArguments (next :: arguments) rest_
    -- The blank after a comma belongs to the argument behind it.
    have space : Blanks [' '] := by simp [Blanks, Text.isBlank]
    simpa [describeArguments] using ArgumentsLayout.cons described (rest.indent space)

end

end Stencil.Expression
