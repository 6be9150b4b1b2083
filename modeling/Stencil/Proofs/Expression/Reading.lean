import Stencil.Proofs.Expression.Moves

namespace Stencil.Expression

/-! ## Layouts are read -/

namespace Reader

variable {place : Place} {calls : List OpenCall} {operand : Expression} {cs : List Char}

theorem reads_identifier {r : Reader} {identifier : String} (valid : IsIdentifier identifier)
    (place : List Char → Place) (calls : List OpenCall)
    (first : ∀ c, isIdentifierChar c = true → r.Moves c ⟨place [c], calls⟩)
    (further : ∀ cs c, (place cs).Extends c (place (c :: cs))) :
    r.Reads identifier.toList ⟨place identifier.toList.reverse, calls⟩ := by
  have rest (earlier cs : List Char) (all : ∀ c ∈ cs, isIdentifierChar c = true) :
      Reads ⟨place earlier, calls⟩ cs ⟨place (cs.reverse ++ earlier), calls⟩ := by
    induction cs generalizing earlier with
    | nil => exact .nil
    | cons c cs ih =>
        obtain ⟨here, later⟩ := List.forall_mem_cons.mp all
        simpa using Reads.cons (.extend (further earlier c) here) (ih (c :: earlier) later)
  have chars := valid.chars
  obtain ⟨c, cs, split⟩ := List.exists_cons_of_ne_nil valid.ne_nil
  rw [split] at chars ⊢
  obtain ⟨here, later⟩ := List.forall_mem_cons.mp chars
  simpa using Reads.cons (first c here) (rest [c] cs later)

theorem reads_leading (begins : place.Begins) (blank : Blanks cs) :
    Reads ⟨place, calls⟩ cs ⟨place, calls⟩ := by
  induction cs with
  | nil => exact .nil
  | cons c cs ih =>
      obtain ⟨here, rest⟩ := List.forall_mem_cons.mp blank
      exact .cons (.blank begins here) (ih rest)

theorem reads_trailing (calls : List OpenCall) (ends : place.Ends operand) (blank : Blanks cs) :
    ∃ place', Reads ⟨place, calls⟩ cs ⟨place', calls⟩ ∧ place'.Ends operand := by
  induction cs generalizing place with
  | nil => exact ⟨place, .nil, ends⟩
  | cons c cs ih =>
      obtain ⟨here, rest⟩ := List.forall_mem_cons.mp blank
      obtain ⟨place', reads, ends'⟩ := ih .ended rest
      exact ⟨place', .cons (.ended ends here) reads, ends'⟩

theorem reads_between {before after : List Char} (begins : place.Begins) (leading : Blanks before)
    (trailing : Blanks after)
    (written : ∃ place', Reads ⟨place, calls⟩ cs ⟨place', calls⟩ ∧ place'.Holds operand) :
    ∃ place', Reads ⟨place, calls⟩ (before ++ cs ++ after) ⟨place', calls⟩ ∧
      place'.Ends operand := by
  obtain ⟨place', read, holds⟩ := written
  obtain ⟨place'', passed, ends⟩ := reads_trailing calls (.holds holds) trailing
  exact ⟨place'', ((reads_leading begins leading).trans read).trans passed, ends⟩

theorem holds_name (identifier : String) :
    (Place.name identifier.toList.reverse).Holds (.name identifier) := by
  have holds := @Place.Holds.name identifier.toList.reverse
  rwa [List.reverse_reverse, String.ofList_toList] at holds

theorem holds_key (base : Expression) {identifier : String} (valid : IsIdentifier identifier) :
    (Place.key base identifier.toList.reverse).Holds (.key base identifier) := by
  have filled : identifier.toList.reverse ≠ [] := by simpa using valid.ne_nil
  have holds := @Place.Holds.key base _ filled
  rwa [List.reverse_reverse, String.ofList_toList] at holds

end Reader

open Reader

mutual

theorem Layout.reads {expression : Expression} {cs : List Char} {place : Place}
    (calls : List OpenCall) (begins : place.Begins) : Layout expression cs →
    ∃ place', Reads ⟨place, calls⟩ cs ⟨place', calls⟩ ∧ place'.Holds expression
  | .top => ⟨.dot, .single (.dot begins), .top⟩
  | .name valid => by
    have read := reads_identifier valid .name calls (fun _ => .name begins) fun _ _ => .name
    exact ⟨_, read, holds_name _⟩
  | .topKey valid => by
    have read := reads_identifier valid (.key .top) calls (fun _ => .extend .dot) fun _ _ => .key
    exact ⟨_, .cons (.dot begins) read, holds_key .top valid⟩
  | @Layout.key base _ _ written valid => by
    obtain ⟨place', read, holds⟩ := written.reads calls begins
    have keyed := reads_identifier valid (.key base) calls (fun _ => .extend .key) fun _ _ => .key
    exact ⟨_, read.trans (.cons (.key holds) keyed), holds_key base valid⟩
  | @Layout.call filter _ _ _ written arguments => by
    obtain ⟨place', read, holds⟩ := written.reads calls begins
    have closed := arguments.reads ⟨filter, []⟩ calls .firstArgument fun _ => rfl
    exact ⟨_, by simpa using read.trans (.cons (.call holds) closed), .tail⟩

theorem Spelled.reads {expression : Expression} {cs : List Char} {place : Place}
    (calls : List OpenCall) (begins : place.Begins) : Spelled expression cs →
    ∃ place', Reads ⟨place, calls⟩ cs ⟨place', calls⟩ ∧ place'.Ends expression
  | .mk leading written trailing =>
    reads_between begins leading trailing (written.reads calls begins)

theorem ArgumentsLayout.reads {arguments : List Expression} {cs : List Char} {place : Place}
    (opened : OpenCall) (calls : List OpenCall) (begins : place.Begins)
    (empty : arguments = [] → place = .firstArgument) : ArgumentsLayout arguments cs →
    Reads ⟨place, opened :: calls⟩ (cs ++ [')'])
      ⟨.tail (.call opened.filter (opened.arguments.reverse ++ arguments)), calls⟩
  | .none blank => by
    obtain rfl := empty rfl
    have read : Reads ⟨.firstArgument, opened :: calls⟩ _ _ := reads_leading .firstArgument blank
    simpa [OpenCall.close] using read.trans (.single .closeEmpty)
  | .last spelled => by
    obtain ⟨place', read, ends⟩ := spelled.reads (opened :: calls) begins
    simpa [OpenCall.close, OpenCall.add] using read.trans (.single (.close ends))
  | @ArgumentsLayout.cons argument _ _ _ _ spelled rest => by
    obtain ⟨place', read, ends⟩ := spelled.reads (opened :: calls) begins
    have closed := rest.reads (opened.add argument) calls .operand (by simp)
    simpa [OpenCall.close, OpenCall.add] using read.trans (.cons (.argument ends) closed)

end

theorem ofText_of_spelled {text : String} {expression : Expression}
    (spelled : Spelled expression text.toList) : ofText text = .ok expression :=
  ofText_eq_ok_iff_reads.mpr (spelled.reads [] .operand)

/-! ## What a reader has behind it -/

/-- What has been read since an operand could begin. -/
inductive Place.Behind : Place → List Char → Prop
  | begins {place : Place} {blanks : List Char} : place.Begins → Blanks blanks →
      Behind place blanks
  | dot {blanks : List Char} : Blanks blanks → Behind .dot (blanks ++ ['.'])
  | name {blanks cs : List Char} : Blanks blanks → cs ≠ [] →
      (∀ c ∈ cs, isIdentifierChar c = true) → Behind (.name cs) (blanks ++ cs.reverse)
  | topKey {blanks cs : List Char} : Blanks blanks → cs ≠ [] →
      (∀ c ∈ cs, isIdentifierChar c = true) → Behind (.key .top cs) (blanks ++ '.' :: cs.reverse)
  | key {base : Expression} {blanks layout cs : List Char} : Blanks blanks → Layout base layout →
      (∀ c ∈ cs, isIdentifierChar c = true) →
      Behind (.key base cs) (blanks ++ layout ++ '.' :: cs.reverse)
  | tail {operand : Expression} {blanks layout : List Char} : Blanks blanks →
      Layout operand layout → Behind (.tail operand) (blanks ++ layout)
  | ended {operand : Expression} {text : List Char} : Spelled operand text →
      Behind (.ended operand) text

inductive Given : List Expression → List Char → Prop
  | nil : Given [] []
  | cons {argument : Expression} {arguments : List Expression} {cs ds : List Char} :
      Given arguments cs → Spelled argument ds → Given (argument :: arguments) (cs ++ ds ++ [','])

/-- The text up to the last argument of the innermost open call, or to the beginning. -/
inductive Open : List OpenCall → List Char → Prop
  | nil : Open [] []
  | cons {filter : Expression} {arguments : List Expression} {calls : List OpenCall}
      {cs blanks layout ds : List Char} : Open calls cs → Blanks blanks → Layout filter layout →
      Given arguments ds → Open (⟨filter, arguments⟩ :: calls) (cs ++ (blanks ++ layout) ++ '(' :: ds)

inductive Reader.Behind : Reader → List Char → Prop
  | mk {place : Place} {calls : List OpenCall} {cs ds : List Char} : Open calls cs →
      place.Behind ds → (place = .firstArgument → ∀ call ∈ calls.head?, call.arguments = []) →
      Behind ⟨place, calls⟩ (cs ++ ds)

variable {place place' : Place} {operand : Expression} {cs ds : List Char} {c : Char}

theorem Place.Behind.of_begins (behind : place.Behind cs) (begins : place.Begins) :
    Blanks cs := by
  cases behind with
  | begins _ blank => exact blank
  | _ => cases begins

theorem Place.Behind.of_holds (behind : place.Behind cs) (holds : place.Holds operand) :
    ∃ blanks layout, Blanks blanks ∧ Layout operand layout ∧ cs = blanks ++ layout := by
  cases behind with
  | begins begins => cases begins <;> cases holds
  | dot blank =>
      cases holds
      exact ⟨_, _, blank, .top, rfl⟩
  | name blank filled all =>
      cases holds
      have written := Layout.name (isIdentifier_ofList filled all)
      exact ⟨_, _, blank, written, by simp⟩
  | topKey blank filled all =>
      cases holds
      have written := Layout.topKey (isIdentifier_ofList filled all)
      exact ⟨_, _, blank, written, by simp⟩
  | key blank base all =>
      cases holds with
      | key filled =>
          have written := base.key (isIdentifier_ofList filled all)
          exact ⟨_, _, blank, written, by simp⟩
  | tail blank written =>
      cases holds
      exact ⟨_, _, blank, written, rfl⟩
  | ended => cases holds

theorem Place.Behind.of_ends (behind : place.Behind cs) (ends : place.Ends operand) :
    Spelled operand cs := by
  cases ends with
  | holds holds =>
      obtain ⟨blanks, layout, blank, written, rfl⟩ := behind.of_holds holds
      exact written.spelled.indent blank
  | ended =>
      cases behind with
      | begins begins => cases begins
      | ended spelled => exact spelled

theorem Place.Behind.extend (behind : place.Behind cs) (extends_ : place.Extends c place')
    (identifier : isIdentifierChar c = true) : place'.Behind (cs ++ [c]) := by
  cases behind with
  | begins begins => cases begins <;> cases extends_
  | dot blank =>
      cases extends_
      simpa using Place.Behind.topKey blank (List.cons_ne_nil c []) (by simpa using identifier)
  | name blank filled all =>
      cases extends_
      simpa using Place.Behind.name blank (List.cons_ne_nil c _)
        (List.forall_mem_cons.mpr ⟨identifier, all⟩)
  | topKey blank filled all =>
      cases extends_
      simpa using Place.Behind.topKey blank (List.cons_ne_nil c _)
        (List.forall_mem_cons.mpr ⟨identifier, all⟩)
  | key blank base all =>
      cases extends_
      simpa using Place.Behind.key blank base (List.forall_mem_cons.mpr ⟨identifier, all⟩)
  | tail => cases extends_
  | ended => cases extends_

theorem Given.close {arguments rest : List Expression} {next : Expression}
    (given : Given arguments cs) (written : ArgumentsLayout (next :: rest) ds) :
    ArgumentsLayout (arguments.reverse ++ next :: rest) (cs ++ ds) := by
  induction given generalizing next rest ds with
  | nil => simpa using written
  | cons _ spelled ih => simpa using ih (.cons spelled written)

theorem Given.empty (given : Given [] cs) : cs = [] := by
  cases given
  rfl

theorem Open.close {call : OpenCall} {calls : List OpenCall} {arguments : List Expression}
    (opened : Open (call :: calls) cs)
    (complete : ∀ given, Given call.arguments given → ArgumentsLayout arguments (given ++ ds)) :
    Reader.Behind ⟨.tail (.call call.filter arguments), calls⟩ (cs ++ (ds ++ [')'])) := by
  cases opened with
  | cons outer blank filter given =>
      have written := filter.call (complete _ given)
      simpa using Reader.Behind.mk outer (.tail blank written) nofun

theorem Reader.Behind.moves {r r' : Reader} (behind : r.Behind cs) (moves : r.Moves c r') :
    r'.Behind (cs ++ [c]) := by
  obtain @⟨place, calls, before, here, opened, behind, first⟩ := behind
  rw [List.append_assoc]
  -- Where the stack stays as it is, only the text behind the place grows; a call that opens, goes on
  -- or closes moves the line between the two parts of the text.
  cases moves with
  | blank begins blank =>
      have blanks := (behind.of_begins begins).append (List.forall_mem_singleton.mpr blank)
      exact .mk opened (.begins begins blanks) first
  | dot begins => exact .mk opened (.dot (behind.of_begins begins)) nofun
  | name begins identifier =>
      have named := Place.Behind.name (behind.of_begins begins) (List.cons_ne_nil c [])
        (List.forall_mem_singleton.mpr identifier)
      exact .mk opened named nofun
  | extend extends_ identifier =>
      exact .mk opened (behind.extend extends_ identifier) (by cases extends_ <;> simp)
  | key holds =>
      obtain ⟨blanks, layout, blank, written, rfl⟩ := behind.of_holds holds
      exact .mk opened (.key blank written (by simp)) nofun
  | call holds =>
      obtain ⟨blanks, layout, blank, written, rfl⟩ := behind.of_holds holds
      have calling := opened.cons blank written .nil
      simpa using Reader.Behind.mk calling (.begins .firstArgument blanks_nil) (by simp)
  | ended ends blank =>
      have spelled := (behind.of_ends ends).extend (List.forall_mem_singleton.mpr blank)
      exact .mk opened (.ended spelled) nofun
  | argument ends =>
      have spelled := behind.of_ends ends
      cases opened with
      | cons outer blank filter given =>
          have calling := outer.cons blank filter (given.cons spelled)
          simpa [OpenCall.add] using Reader.Behind.mk calling (.begins .operand blanks_nil) nofun
  | close ends =>
      have last := ArgumentsLayout.last (behind.of_ends ends)
      have closed := opened.close fun given given_ => given_.close last
      simpa [OpenCall.close, OpenCall.add] using closed
  | @closeEmpty call calls =>
      have none : call.arguments = [] := first rfl call rfl
      have blank := ArgumentsLayout.none (behind.of_begins .firstArgument)
      have closed : Reader.Behind ⟨.tail (.call call.filter []), calls⟩
          (before ++ (here ++ [')'])) := opened.close fun given given_ => by
        rw [none] at given_
        simpa [given_.empty] using blank
      simpa [OpenCall.close, none] using closed

theorem Reader.Behind.reads {r r' : Reader} (behind : r.Behind cs) (reads : r.Reads ds r') :
    r'.Behind (cs ++ ds) := by
  induction reads generalizing cs with
  | nil => simpa using behind
  | cons moves _ ih => simpa using ih (behind.moves moves)

theorem spelled_of_ofText {text : String} {expression : Expression}
    (ok : ofText text = .ok expression) : Spelled expression text.toList := by
  obtain ⟨place, reads, ends⟩ := ofText_eq_ok_iff_reads.mp ok
  have start : Reader.start.Behind [] := .mk .nil (.begins .operand blanks_nil) nofun
  have behind := start.reads reads
  rw [List.nil_append] at behind
  generalize text.toList = cs at behind
  obtain @⟨_, _, before, here, opened, behind, _⟩ := behind
  cases opened
  exact behind.of_ends ends

theorem ofText_eq_ok_iff {text : String} {expression : Expression} :
    ofText text = .ok expression ↔ Spelled expression text.toList :=
  ⟨spelled_of_ofText, ofText_of_spelled⟩

theorem Spelled.unique {expression expression' : Expression} (spelled : Spelled expression cs)
    (spelled' : Spelled expression' cs) : expression = expression' := by
  have ok : ofText (String.ofList cs) = .ok expression := ofText_of_spelled (by simpa using spelled)
  have ok' : ofText (String.ofList cs) = .ok expression' :=
    ofText_of_spelled (by simpa using spelled')
  rw [ok] at ok'
  exact Except.ok.inj ok'

theorem ofText_describe {expression : Expression} (wellFormed : expression.WellFormed) :
    ofText expression.describe = .ok expression :=
  ofText_of_spelled (layout_describe expression wellFormed).spelled

theorem ofText_layouts :
    (∀ (text : String) (expression : Expression),
      ofText text = .ok expression ↔ Spelled expression text.toList) ∧
    (∀ text, { expression | Spelled expression text }.Subsingleton) ∧
    (∀ expression : Expression, expression.WellFormed →
      ofText expression.describe = .ok expression) ∧
    ∀ (text : String) (expression : Expression), ofText text = .ok expression →
      expression.WellFormed := by
  exact ⟨fun _ _ => ofText_eq_ok_iff, fun _ _ spelled _ spelled' => spelled.unique spelled',
    fun _ => ofText_describe, fun _ _ ok => (spelled_of_ofText ok).wellFormed⟩

theorem ofText_layouts_call :
    let text := " f( .a ,..b.c)( )\n"
    let expression : Expression :=
      .call (.call (.name "f") [.key .top "a", .key (.key .top "b") "c"]) []
    ofText text = .ok expression ∧ expression.WellFormed ∧
      expression.describe = "f(.a, .b.c)()" ∧ ofText "f(.a, .b.c)()" = .ok expression := by
  intro text expression
  have ok : ofText text = .ok expression := by cbv
  have wellFormed := ofText_layouts.2.2.2 text expression ok
  have described : expression.describe = "f(.a, .b.c)()" := by cbv
  exact ⟨ok, wellFormed, described, described ▸ ofText_layouts.2.2.1 expression wellFormed⟩

end Stencil.Expression
