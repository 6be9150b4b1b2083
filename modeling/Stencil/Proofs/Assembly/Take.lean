import Stencil.Proofs.Assembly.Structure

namespace Stencil

open Assembly

/-- A resolver finds the documents that names stand for. -/
structure Resolves (source : Option Source) (base : Option String)
    (resolve : String → Build (Option Ref)) : Prop where
  grows : ∀ name, (resolve name).Grows
  links : ∀ {name : String} {ref : Ref} {before after : Library},
    (resolve name).Yields before (some ref) after → after.Links source base name ref

/-- A resolver knows the documents that names stand for already. -/
def Recalls (source : Option Source) (base : Option String)
    (resolve : String → Build (Option Ref)) : Prop :=
  ∀ {name : String} {ref : Ref} {library : Library}, library.Links source base name ref →
    (resolve name).Yields library (some ref) library

variable {source : Option Source} {base : Option String} {resolve : String → Build (Option Ref)}
  {before after : Library} {token : Token}

namespace Assembly

theorem expressionOf_eq {expression : Expression} :
    expressionOf token = .ok expression ↔ Expression.ofText token.content = .ok expression := by
  unfold expressionOf
  cases Expression.ofText token.content <;> simp [Except.mapError]

theorem nameOf_eq {named : Named} {name : String} :
    nameOf token named = .ok name ↔ token.Names name := by
  simp only [nameOf, Token.Names]
  cases hempty : (Text.trim token.content).isEmpty with
  | true =>
      simp only [if_true]
      constructor
      · intro error
        cases error
      · rintro ⟨rfl, filled⟩
        simp [hempty] at filled
  | false =>
      simp only [Bool.false_eq_true, if_false, Except.ok.injEq]
      constructor
      · rintro rfl
        exact ⟨rfl, hempty⟩
      · rintro ⟨rfl, -⟩
        rfl

theorem yields_targetOf {name : String} {ref : Ref} :
    (targetOf resolve token name).Yields before ref after ↔
      (resolve name).Yields before (some ref) after := by
  rw [targetOf, Build.yields_bind]
  constructor
  · rintro ⟨found, middle, resolved, yields⟩
    cases found with
    | none => exact absurd yields Build.not_yields_throw
    | some ref' =>
        obtain ⟨rfl, rfl⟩ := Build.yields_pure.mp yields
        exact resolved
  · intro resolved
    exact ⟨_, _, resolved, Build.yields_pure.mpr ⟨rfl, rfl⟩⟩

theorem grows_targetOf (grows : ∀ name, (resolve name).Grows) (name : String) :
    (targetOf resolve token name).Grows := by
  apply (grows name).bind
  intro found
  cases found with
  | none => exact Build.grows_throw _
  | some ref => exact Build.grows_pure ref

/-! ## The node of a scope -/

theorem grows_node (a : Assembly) (scope : Scope) : (a.node scope).Grows := by
  unfold node
  split
  · exact Build.grows_pure _
  · exact Build.grows_pure _
  · exact (Build.grows_add _).bind fun _ => Build.grows_pure _

theorem becomes_of_node {a : Assembly} {scope : Scope} {node : Node}
    (yields : (a.node scope).Yields before node after) :
    scope.opener.Becomes after scope.opening a.content a.source node := by
  unfold Assembly.node at yields
  split at yields
  · rename_i expression inverted opener
    obtain ⟨rfl, -⟩ := Build.yields_pure.mp yields
    rw [opener]
    exact .sectionOf
  · rename_i name opener
    obtain ⟨rfl, -⟩ := Build.yields_pure.mp yields
    rw [opener]
    exact .block
  · rename_i name parent opener
    obtain ⟨overriding, middle, added, last⟩ := Build.yields_bind.mp yields
    obtain ⟨rfl, rfl⟩ := Build.yields_add.mp added
    obtain ⟨rfl, rfl⟩ := Build.yields_pure.mp last
    rw [opener]
    exact .inherit (Store.get?_add_self before.store a.content)

theorem cache_of_node {a : Assembly} {scope : Scope} {node : Node}
    (yields : (a.node scope).Yields before node after) : after.cache = before.cache := by
  unfold Assembly.node at yields
  split at yields
  · obtain ⟨-, rfl⟩ := Build.yields_pure.mp yields
    rfl
  · obtain ⟨-, rfl⟩ := Build.yields_pure.mp yields
    rfl
  · obtain ⟨overriding, middle, added, last⟩ := Build.yields_bind.mp yields
    obtain ⟨-, rfl⟩ := Build.yields_add.mp added
    obtain ⟨-, rfl⟩ := Build.yields_pure.mp last
    rfl

theorem exists_node (a : Assembly) (scope : Scope) (library : Library) :
    ∃ node after, (a.node scope).Yields library node after := by
  unfold Assembly.node
  split
  · exact ⟨_, library, rfl⟩
  · exact ⟨_, library, rfl⟩
  · exact ⟨_, { library with store := (library.store.add a.content).2 }, rfl⟩

/-! ## Steps -/

def closed (a : Assembly) (token : Token) (scope : Scope) (scopes : List Scope) (node : Node) :
    Assembly :=
  { a with
    nodes := node :: scope.nodes
    source := scope.source ++ scope.opening.source ++ a.source ++ token.source
    scopes }

inductive Moves (resolve : String → Build (Option Ref)) (before : Library) : Library → Prop
  | stays : Moves resolve before before
  | resolved {name : String} {ref : Ref} {after : Library} :
      (resolve name).Yields before (some ref) after → Moves resolve before after

inductive Takes (source : Option Source) (base : Option String)
    (resolve : String → Build (Option Ref)) (a : Assembly) (token : Token)
    (before after : Library) : Assembly → Prop
  | silent {contentType : ContentType} : token.Silent a.decided →
      (a.decided = true → contentType = a.contentType) → after = before →
      Takes source base resolve a token before after ({ a with contentType }.pass token)
  | adds {decided : Bool} {node : Node} : token.Adds after source base node →
      (a.decided = true → decided = true) → Moves resolve before after →
      Takes source base resolve a token before after ({ a with decided }.add token node)
  | opens {opener : Opener} : token.Opens after source base opener → Moves resolve before after →
      Takes source base resolve a token before after (a.decide.opened token opener)
  | closes {scope : Scope} {scopes : List Scope} {node : Node} : a.scopes = scope :: scopes →
      token.Closes scope.opener → (a.node scope).Yields before node after →
      Takes source base resolve a token before after (a.closed token scope scopes node)

theorem yields_pragma {a a' : Assembly} (pragma : a.pragma token = .ok a')
    (kind : token.kind = .pragmaTag) :
    ∃ contentType, token.Silent a.decided ∧ (a.decided = true → contentType = a.contentType) ∧
      a' = { a with contentType }.pass token := by
  unfold Assembly.pragma at pragma
  dsimp only at pragma
  split at pragma
  · rename_i unknown
    cases pragma
    exact ⟨a.contentType, .pragmaTag kind fun _ => unknown, fun _ => rfl, rfl⟩
  · rename_i contentType _
    split at pragma
    · cases pragma
    · rename_i undecided
      cases pragma
      exact ⟨contentType, .pragmaTag kind (absurd · undecided), (absurd · undecided), rfl⟩

theorem take_takes (resolves : Resolves source base resolve) {a a' : Assembly}
    (yields : (take resolve a token).Yields before a' after) :
    Takes source base resolve a token before after a' := by
  unfold take at yields
  split at yields
  · rename_i kind
    obtain ⟨rfl, rfl⟩ := Build.yields_pure.mp yields
    exact .adds (.text kind) id .stays
  · rename_i kind
    obtain ⟨rfl, rfl⟩ := Build.yields_pure.mp yields
    exact .silent (.commentTag kind) (fun _ => rfl) rfl
  · rename_i kind
    obtain ⟨rfl, rfl⟩ := Build.yields_pure.mp yields
    exact .silent (.delimitersTag kind) (fun _ => rfl) rfl
  · rename_i kind
    obtain ⟨pragma, rfl⟩ := Build.yields_ofParse.mp yields
    obtain ⟨contentType, silent, same, rfl⟩ := yields_pragma pragma kind
    exact .silent silent same rfl
  · rename_i kind
    obtain ⟨expression, parsed, last⟩ := Build.yields_ofParse_bind.mp yields
    obtain ⟨rfl, rfl⟩ := Build.yields_pure.mp last
    exact .adds (.variableTag kind (expressionOf_eq.mp parsed)) (fun _ => rfl) .stays
  · rename_i kind
    obtain ⟨expression, parsed, last⟩ := Build.yields_ofParse_bind.mp yields
    obtain ⟨rfl, rfl⟩ := Build.yields_pure.mp last
    exact .adds (.rawTag kind (expressionOf_eq.mp parsed)) (fun _ => rfl) .stays
  · rename_i kind
    obtain ⟨expression, parsed, last⟩ := Build.yields_ofParse_bind.mp yields
    obtain ⟨rfl, rfl⟩ := Build.yields_pure.mp last
    exact .opens (.sectionTag kind (expressionOf_eq.mp parsed)) .stays
  · rename_i kind
    obtain ⟨expression, parsed, last⟩ := Build.yields_ofParse_bind.mp yields
    obtain ⟨rfl, rfl⟩ := Build.yields_pure.mp last
    exact .opens (.invertedTag kind (expressionOf_eq.mp parsed)) .stays
  · rename_i kind
    obtain ⟨name, parsed, last⟩ := Build.yields_ofParse_bind.mp yields
    obtain ⟨rfl, rfl⟩ := Build.yields_pure.mp last
    exact .opens (.blockTag kind (nameOf_eq.mp parsed)) .stays
  · rename_i kind
    obtain ⟨name, parsed, last⟩ := Build.yields_ofParse_bind.mp yields
    obtain ⟨target, middle, resolved, last⟩ := Build.yields_bind.mp last
    obtain ⟨rfl, rfl⟩ := Build.yields_pure.mp last
    have found := yields_targetOf.mp resolved
    exact .adds (.partialTag kind (nameOf_eq.mp parsed) (resolves.links found)) (fun _ => rfl)
      (.resolved found)
  · rename_i kind
    obtain ⟨name, parsed, last⟩ := Build.yields_ofParse_bind.mp yields
    obtain ⟨parent, middle, resolved, last⟩ := Build.yields_bind.mp last
    obtain ⟨rfl, rfl⟩ := Build.yields_pure.mp last
    have found := yields_targetOf.mp resolved
    exact .opens (.inheritTag kind (nameOf_eq.mp parsed) (resolves.links found)) (.resolved found)
  · rename_i kind
    unfold close at yields
    dsimp only at yields
    split at yields
    · exact absurd yields Build.not_yields_throw
    · rename_i scope scopes open_
      split at yields
      · rename_i closedBy
        obtain ⟨node, middle, hnode, last⟩ := Build.yields_bind.mp yields
        obtain ⟨rfl, rfl⟩ := Build.yields_pure.mp last
        exact .closes open_ ⟨kind, closedBy⟩ hnode
      · exact absurd yields Build.not_yields_throw

theorem grows_take (grows : ∀ name, (resolve name).Grows) (a : Assembly) (token : Token) :
    (take resolve a token).Grows := by
  have parsed {α β : Type} (result : Except ParseError α) (next : α → β) :
      (do return next (← Build.ofParse result) : Build β).Grows :=
    (Build.grows_ofParse result).bind fun _ => Build.grows_pure _
  have resolved {β : Type} (result : Except ParseError String) (next : String → Ref → β) :
      (do
        let name ← Build.ofParse result
        let target ← targetOf resolve token name
        return next name target : Build β).Grows :=
    (Build.grows_ofParse result).bind fun name =>
      (grows_targetOf grows name).bind fun _ => Build.grows_pure _
  unfold take
  split
  · exact Build.grows_pure _
  · exact Build.grows_pure _
  · exact Build.grows_pure _
  · exact Build.grows_ofParse _
  · exact parsed _ _
  · exact parsed _ _
  · exact parsed _ _
  · exact parsed _ _
  · exact parsed _ _
  · exact resolved _ _
  · exact resolved _ _
  · unfold close
    dsimp only
    split
    · exact Build.grows_throw _
    · split
      · exact (grows_node _ _).bind fun _ => Build.grows_pure _
      · exact Build.grows_throw _

/-! ## Steps that can be taken -/

variable {library : Library} {a : Assembly}

theorem yields_take_silent (resolve : String → Build (Option Ref)) (a : Assembly)
    (silent : token.Silent true) : (take resolve a token).Yields library (a.pass token) library := by
  unfold take
  cases silent with
  | commentTag kind => rw [kind]; rfl
  | delimitersTag kind => rw [kind]; rfl
  | pragmaTag kind unknown =>
      rw [kind, Build.yields_ofParse]
      refine ⟨?_, rfl⟩
      simp only [pragma, unknown rfl]

theorem yields_take_adds (recalls : Recalls source base resolve) (a : Assembly) {node : Node}
    (adds : token.Adds library source base node) :
    ∃ decided, (take resolve a token).Yields library ({ a with decided }.add token node) library := by
  unfold take
  cases adds with
  | text kind =>
      rw [kind]
      exact ⟨a.decided, rfl⟩
  | variableTag kind expression =>
      rw [kind]
      exact ⟨true, Build.yields_ofParse_bind.mpr ⟨_, expressionOf_eq.mpr expression, rfl⟩⟩
  | rawTag kind expression =>
      rw [kind]
      exact ⟨true, Build.yields_ofParse_bind.mpr ⟨_, expressionOf_eq.mpr expression, rfl⟩⟩
  | partialTag kind names links =>
      rw [kind]
      have resolved : (targetOf resolve token _).Yields library _ library :=
        yields_targetOf.mpr (recalls links)
      exact ⟨true, Build.yields_ofParse_bind.mpr
        ⟨_, nameOf_eq.mpr names, Build.yields_bind.mpr ⟨_, _, resolved, rfl⟩⟩⟩

theorem yields_take_opens (recalls : Recalls source base resolve) (a : Assembly) {opener : Opener}
    (opens : token.Opens library source base opener) :
    (take resolve a token).Yields library (a.decide.opened token opener) library := by
  unfold take
  cases opens with
  | sectionTag kind expression =>
      rw [kind]
      exact Build.yields_ofParse_bind.mpr ⟨_, expressionOf_eq.mpr expression, rfl⟩
  | invertedTag kind expression =>
      rw [kind]
      exact Build.yields_ofParse_bind.mpr ⟨_, expressionOf_eq.mpr expression, rfl⟩
  | blockTag kind names =>
      rw [kind]
      exact Build.yields_ofParse_bind.mpr ⟨_, nameOf_eq.mpr names, rfl⟩
  | inheritTag kind names links =>
      rw [kind]
      have resolved : (targetOf resolve token _).Yields library _ library :=
        yields_targetOf.mpr (recalls links)
      exact Build.yields_ofParse_bind.mpr
        ⟨_, nameOf_eq.mpr names, Build.yields_bind.mpr ⟨_, _, resolved, rfl⟩⟩

theorem yields_take_closes (resolve : String → Build (Option Ref)) {scope : Scope}
    {scopes : List Scope} {node : Node} (open_ : a.scopes = scope :: scopes)
    (closes : token.Closes scope.opener) (hnode : (a.node scope).Yields before node after) :
    (take resolve a token).Yields before (a.closed token scope scopes node) after := by
  unfold take
  rw [closes.kind]
  simp only [close, open_, closes.closedBy, if_true]
  exact Build.yields_bind.mpr ⟨node, after, hnode, rfl⟩

end Assembly

end Stencil
