import Stencil.Proofs.Assembly.Nesting

namespace Stencil

variable {links : String → Ref → Prop} {resolve : String → Build (Option Ref)}
  {before after library : Library} {earlier : List Token} {token : Token} {a a' : Assembly}

namespace Assembly

structure Reflects (links : String → Ref → Prop) (earlier : List Token) (a : Assembly) : Prop where
  decided : a.decided = true ↔ ∃ token ∈ earlier, token.kind.renders = true
  openings : a.scopes.map Scope.opening = Token.openings earlier
  marks : ∀ scope ∈ a.scopes, scope.opening.Marks links (scope.opener.mark scope.opening)

theorem reflects_start (links : String → Ref → Prop) (contentType : ContentType) :
    (start contentType).Reflects links [] :=
  ⟨by simp [start], rfl, by simp [start]⟩

/-! ## Faults -/

theorem expressionOf_error {error : ExpressionError}
    (invalid : Expression.ofText token.content = .error error) :
    expressionOf token =
      .error ⟨.invalidExpression (Text.trim token.content) error, token.location⟩ := by
  simp [expressionOf, invalid, Except.mapError]

theorem nameOf_blank (named : Named) (blank : Text.trim token.content = "") :
    nameOf token named = .error ⟨.missingName named, token.location⟩ := by
  simp [nameOf, blank]

theorem run_take_faulty {error : ParseError} (reflects : a.Reflects links earlier)
    (faulty : token.Faulty earlier error) :
    (take resolve a token).run before = (.error (.error (.parse error)), before) := by
  unfold take
  cases faulty with
  | expression kind invalid =>
      have refused := expressionOf_error invalid
      cases hkind : token.kind <;> simp [hkind, Token.Kind.holdsExpression] at kind
      all_goals
        simp only [refused]
        rfl
  | @name named kind blank =>
      have refused := nameOf_blank named blank
      cases hkind : token.kind <;> simp [hkind, Token.Kind.named?] at kind
      all_goals
        subst kind
        simp only [refused]
        rfl
  | pragma kind known member renders =>
      have decided : a.decided = true := reflects.decided.mpr ⟨_, member, renders⟩
      rw [kind]
      simp only [pragma, known, decided, if_true]
      rfl
  | closing kind unmatched =>
      rw [kind]
      unfold close
      have openings := reflects.openings
      cases open_ : a.scopes with
      | nil => rfl
      | cons scope scopes =>
          rw [open_, List.map_cons] at openings
          have marks := reflects.marks scope (by simp [open_])
          have mismatch := mt marks.closedBy_iff.mp (unmatched _ _ openings.symm)
          simp only [mismatch, Bool.false_eq_true, if_false]
          rfl

/-! ## Names of templates -/

def referring (a : Assembly) (token : Token) (name : String) (ref : Ref) : Assembly :=
  if token.kind = .inheritTag then a.decide.opened token (.inherit name ref)
  else a.decide.add token (.partialTag name ref)

theorem take_asks {name : String} (asks : token.Asks name) (resolve : String → Build (Option Ref))
    (a : Assembly) :
    take resolve a token = (do return a.referring token name (← targetOf resolve token name)) := by
  have named : nameOf token .template = .ok name := nameOf_eq.mpr asks.names
  unfold take referring
  rcases asks.kind with kind | kind
  · rw [kind]
    simp only [named, reduceCtorEq, if_false]
    rfl
  · rw [kind]
    simp only [named, if_true]
    rfl

theorem run_take_asks {name : String} (asks : token.Asks name) (before : Library) :
    (take resolve a token).run before =
      match (resolve name).run before with
      | (.ok (some ref), after) => (.ok (a.referring token name ref), after)
      | (.ok none, after) =>
        (.error (.error (.parse ⟨.missingTemplate name, token.location⟩)), after)
      | (.error failure, after) => (.error failure, after) := by
  rw [take_asks asks, Build.run_bind, targetOf, Build.run_bind]
  rcases (resolve name).run before with ⟨result, after⟩
  rcases result with failure | found
  · rfl
  · cases found <;> rfl

/-! ## Steps -/

/-- What an assembly becomes by a token. -/
inductive Advances (links : String → Ref → Prop) (library : Library) (a : Assembly)
    (token : Token) : Assembly → Prop
  | silent : token.kind.silent = true →
      Advances links library a token
        ({ a with contentType := token.settle a.contentType }.pass token)
  | adds {decided : Bool} {node : Node} {mark : Mark} : token.Marks links mark → node.Leaf mark →
      decided = (a.decided || token.kind.renders) →
      Advances links library a token ({ a with decided }.add token node)
  | opens {opener : Opener} : token.Marks links (opener.mark token) →
      Advances links library a token (a.decide.opened token opener)
  | closes {scope : Scope} {scopes : List Scope} {node : Node} : a.scopes = scope :: scopes →
      token.kind = .closeTag → scope.opener.Becomes library scope.opening a.content a.source node →
      Advances links library a token (a.closed token scope scopes node)

theorem advances_referring {name : String} {ref : Ref} (asks : token.Asks name)
    (found : links name ref) (library : Library) (a : Assembly) :
    Advances links library a token (a.referring token name ref) := by
  unfold referring
  split
  · rename_i kind
    exact .opens (.inheritTag kind asks.names found)
  · rename_i other
    have kind := asks.kind.resolve_right other
    refine .adds (.partialTag kind asks.names found) .partialTag ?_
    simp [kind, Token.Kind.renders, Token.Kind.named?]

theorem exists_closes (reflects : a.Reflects links earlier)
    (sound : ∀ error, ¬ token.Faulty earlier error) (kind : token.kind = .closeTag) :
    ∃ scope scopes, a.scopes = scope :: scopes ∧ token.Closes scope.opener := by
  have openings := reflects.openings
  cases open_ : a.scopes with
  | nil =>
      rw [open_] at openings
      refine absurd (.closing kind fun opening outer some => ?_) (sound _)
      rw [← openings] at some
      cases some
  | cons scope scopes =>
      rw [open_] at openings
      have marks := reflects.marks scope (by simp [open_])
      have fits : token.Matches scope.opening := by
        by_contra unfit
        refine sound _ (.closing kind fun opening outer some => ?_)
        rw [← openings] at some
        cases some
        exact unfit
      exact ⟨scope, scopes, rfl, kind, marks.closedBy_iff.mpr fits⟩

theorem exists_advances (reflects : a.Reflects links earlier)
    (sound : ∀ error, ¬ token.Faulty earlier error) (quiet : ∀ name, ¬ token.Asks name)
    (resolve : String → Build (Option Ref)) (before : Library) :
    ∃ a' after, (take resolve a token).Yields before a' after ∧ before.Extends after ∧
      after.cache = before.cache ∧ Advances links after a token a' := by
  have stays (next : Assembly) (yields : (take resolve a token).Yields before next before)
      (advances : Advances links before a token next) :
      ∃ a' after, (take resolve a token).Yields before a' after ∧ before.Extends after ∧
        after.cache = before.cache ∧ Advances links after a token a' :=
    ⟨next, before, yields, .refl before, rfl, advances⟩
  have valid (holds : token.kind.holdsExpression = true) :
      ∃ expression, Expression.ofText token.content = .ok expression ∧
        expressionOf token = .ok expression := by
    obtain ⟨expression, parsed⟩ := Token.exists_expression sound holds
    exact ⟨expression, parsed, expressionOf_eq.mpr parsed⟩
  cases kind : token.kind with
  | text =>
      refine stays (a.add token (.text token.content)) ?_ (.adds (.text kind) .text ?_)
      · simp only [take, kind]
        rfl
      · simp [kind, Token.Kind.renders, Token.Kind.holdsExpression, Token.Kind.named?]
  | commentTag =>
      refine stays _ ?_ (.silent (by simp [kind, Token.Kind.silent]))
      simp only [take, Token.settle, kind]
      rfl
  | delimitersTag =>
      refine stays _ ?_ (.silent (by simp [kind, Token.Kind.silent]))
      simp only [take, Token.settle, kind]
      rfl
  | pragmaTag =>
      refine stays _ ?_ (.silent (by simp [kind, Token.Kind.silent]))
      simp only [take, Token.settle, kind, pragma, if_true]
      split
      · rename_i unknown
        rw [unknown]
        rfl
      · rename_i contentType known
        split
        · rename_i decided
          obtain ⟨other, member, renders⟩ := reflects.decided.mp decided
          exact absurd (.pragma kind known member renders) (sound _)
        · rw [known]
          rfl
  | variableTag =>
      obtain ⟨expression, parsed, read⟩ := valid (by simp [kind, Token.Kind.holdsExpression])
      refine stays (a.decide.add token (.variableTag (tagOf token) expression true)) ?_
        (.adds (.variableTag kind parsed) .variableTag ?_)
      · simp only [take, kind, read]
        rfl
      · simp [kind, Token.Kind.renders, Token.Kind.holdsExpression]
  | rawTag =>
      obtain ⟨expression, parsed, read⟩ := valid (by simp [kind, Token.Kind.holdsExpression])
      refine stays (a.decide.add token (.variableTag (tagOf token) expression false)) ?_
        (.adds (.rawTag kind parsed) .variableTag ?_)
      · simp only [take, kind, read]
        rfl
      · simp [kind, Token.Kind.renders, Token.Kind.holdsExpression]
  | sectionTag =>
      obtain ⟨expression, parsed, read⟩ := valid (by simp [kind, Token.Kind.holdsExpression])
      refine stays (a.decide.opened token (.sectionOf expression false)) ?_
        (.opens (.sectionTag kind parsed))
      simp only [take, kind, read]
      rfl
  | invertedTag =>
      obtain ⟨expression, parsed, read⟩ := valid (by simp [kind, Token.Kind.holdsExpression])
      refine stays (a.decide.opened token (.sectionOf expression true)) ?_
        (.opens (.invertedTag kind parsed))
      simp only [take, kind, read]
      rfl
  | blockTag =>
      obtain ⟨name, names⟩ := Token.exists_name sound (by rw [kind]; rfl)
      refine stays (a.decide.opened token (.block name)) ?_ (.opens (.blockTag kind names))
      simp only [take, kind, nameOf_eq.mpr names]
      rfl
  | partialTag =>
      obtain ⟨name, names⟩ := Token.exists_name sound (by rw [kind]; rfl)
      exact absurd ⟨.inl kind, names⟩ (quiet name)
  | inheritTag =>
      obtain ⟨name, names⟩ := Token.exists_name sound (by rw [kind]; rfl)
      exact absurd ⟨.inr kind, names⟩ (quiet name)
  | closeTag =>
      obtain ⟨scope, scopes, open_, closes⟩ := exists_closes reflects sound kind
      obtain ⟨node, after, hnode⟩ := exists_node a scope before
      exact ⟨_, after, yields_take_closes resolve open_ closes hnode,
        (grows_node a scope).yields hnode, cache_of_node hnode,
        .closes open_ kind (becomes_of_node hnode)⟩

theorem Reflects.advances (reflects : a.Reflects links earlier)
    (advances : Advances links library a token a') : a'.Reflects links (earlier ++ [token]) := by
  have decides {decided : Bool} (same : decided = (a.decided || token.kind.renders)) :
      decided = true ↔ ∃ other ∈ earlier ++ [token], other.kind.renders = true := by
    rw [same, Bool.or_eq_true, reflects.decided]
    simp [or_and_right, exists_or]
  have openings := reflects.openings
  cases advances with
  | silent silent =>
      have kind := Token.Kind.of_silent silent
      refine ⟨decides (by simp [pass, kind.1]), ?_, reflects.marks⟩
      simpa [Token.openings_snoc, kind, pass] using openings
  | adds marks leaf decided =>
      refine ⟨decides decided, ?_, reflects.marks⟩
      have kind := marks.single leaf
      simpa [Token.openings_snoc, kind.2, add] using openings
  | opens marks =>
      refine ⟨decides (by simp [opened, Assembly.decide, marks.renders]), ?_, ?_⟩
      · simpa [Token.openings_snoc, marks.opens, opened, Assembly.decide] using openings
      · intro scope member
        rcases List.mem_cons.mp member with rfl | member
        · exact marks
        · exact reflects.marks scope member
  | closes open_ kind becomes =>
      have silent : token.kind.renders = false := by
        simp [kind, Token.Kind.renders, Token.Kind.holdsExpression, Token.Kind.named?]
      refine ⟨decides (by simp [closed, silent]), ?_, fun scope member => ?_⟩
      · rw [open_] at openings
        simp [Token.openings_snoc, kind, Token.Kind.opens, ← openings, closed]
      · apply reflects.marks scope
        rw [open_]
        exact List.mem_cons_of_mem _ member

theorem Advances.contentType_eq (advances : Advances links library a token a') :
    a'.contentType = token.settle a.contentType := by
  cases advances with
  | silent => rfl
  | adds marks leaf =>
      have kind : token.kind ≠ .pragmaTag := by
        rintro pragma
        simpa [pragma, Token.Kind.silent] using (marks.single leaf).1
      rw [Token.settle, if_neg kind]
      rfl
  | opens marks =>
      have opens := marks.opens
      have kind : token.kind ≠ .pragmaTag := by
        rintro pragma
        simp [pragma, Token.Kind.opens] at opens
      rw [Token.settle, if_neg kind]
      rfl
  | closes _ kind =>
      rw [Token.settle, if_neg (by simp [kind])]
      rfl

/-! ## Ends -/

theorem Reflects.finish_eq (reflects : a.Reflects links earlier) :
    a.finish =
      match Token.openings earlier with
      | [] => .ok a.content
      | opening :: _ => .error ⟨.unclosedSection opening.scopeName, opening.location⟩ := by
  have openings := reflects.openings
  unfold finish
  cases open_ : a.scopes with
  | nil =>
      rw [open_] at openings
      rw [← openings]
      rfl
  | cons scope scopes =>
      rw [open_, List.map_cons] at openings
      have name := (reflects.marks scope (by simp [open_])).name_eq
      simp only [← openings, name]

end Assembly

end Stencil
