import Stencil.Proofs.Assembly.Take

namespace Stencil

open Assembly

variable {source : Option Source} {base : Option String} {resolve : String → Build (Option Ref)}
  {before after : Library}

inductive Enclosing (library : Library) (source : Option Source) (base : Option String)
    (contentType : ContentType) : List Scope → List Token → Prop
  | nil : Enclosing library source base contentType [] []
  | scope {scope : Scope} {scopes : List Scope} {outer around : List Token} :
      Enclosing library source base contentType scopes outer →
      Assembled library source base contentType (!scopes.isEmpty) around scope.nodes.reverse →
      scope.source = Token.sources around →
      scope.opening.Opens library source base scope.opener →
      Enclosing library source base contentType (scope :: scopes)
        (outer ++ around ++ [scope.opening])

structure Innermost (library : Library) (source : Option Source) (base : Option String)
    (contentType : ContentType) (a : Assembly) (tokens outer inner : List Token) : Prop where
  tokens : tokens = outer ++ inner
  enclosing : Enclosing library source base contentType a.scopes outer
  text : a.source = Token.sources inner
  assembled : Assembled library source base contentType (!a.scopes.isEmpty) inner a.nodes.reverse

/-- What an assembly has gathered from some tokens. As long as the content type is not decided, it
may be any. -/
structure Gathered (library : Library) (source : Option Source) (base : Option String)
    (tokens : List Token) (a : Assembly) : Prop where
  decided : a.scopes ≠ [] → a.decided = true
  innermost : ∀ contentType, (a.decided = true → contentType = a.contentType) →
    ∃ outer inner, Innermost library source base contentType a tokens outer inner

theorem Enclosing.kept {library later : Library} {contentType : ContentType} {scopes : List Scope}
    {tokens : List Token} (enclosing : Enclosing library source base contentType scopes tokens)
    (kept : library.Keeps later) : Enclosing later source base contentType scopes tokens := by
  induction enclosing with
  | nil => exact .nil
  | scope _ around source opens ih => exact .scope ih (around.kept kept) source (opens.kept kept)

theorem Innermost.kept {library later : Library} {contentType : ContentType} {a : Assembly}
    {tokens outer inner : List Token}
    (innermost : Innermost library source base contentType a tokens outer inner)
    (kept : library.Keeps later) : Innermost later source base contentType a tokens outer inner :=
  ⟨innermost.tokens, innermost.enclosing.kept kept, innermost.text, innermost.assembled.kept kept⟩

theorem Token.Silent.weaken {token : Token} {decided inside : Bool} (silent : token.Silent decided)
    (weaker : inside = true → decided = true) : token.Silent inside := by
  cases silent with
  | commentTag kind => exact .commentTag kind
  | delimitersTag kind => exact .delimitersTag kind
  | pragmaTag kind unknown => exact .pragmaTag kind fun h => unknown (weaker h)

namespace Gathered

variable {tokens : List Token} {a a' : Assembly}

theorem start (library : Library) (source : Option Source) (base : Option String)
    (contentType : ContentType) :
    Gathered library source base [] (Assembly.start contentType) := by
  refine ⟨fun open_ => absurd rfl open_, fun contentType _ => ⟨[], [], ?_⟩⟩
  exact ⟨rfl, .nil, rfl, .nil⟩

theorem takes {token : Token} (gathered : Gathered before source base tokens a)
    (grown : before.Extends after) (takes : Takes source base resolve a token before after a') :
    Gathered after source base (tokens ++ [token]) a' := by
  cases takes with
  | @silent contentType silent same _ =>
      refine ⟨gathered.decided, fun contentType' decided => ?_⟩
      obtain ⟨outer, inner, innermost⟩ := gathered.innermost contentType'
        fun h => (decided h).trans (same h)
      have now := innermost.kept grown.keeps
      have inside : (!a.scopes.isEmpty) = true → a.decided = true := by
        simpa using gathered.decided
      refine ⟨outer, inner ++ [token], ?_, now.enclosing, ?_, ?_⟩
      · rw [now.tokens, List.append_assoc]
      · simp [Assembly.pass, now.text]
      · have longer := now.assembled.append (.silent (silent.weaken inside) .nil)
        rwa [List.append_nil] at longer
  | @adds decided node adds still =>
      refine ⟨fun open_ => still (gathered.decided open_), fun contentType' same => ?_⟩
      obtain ⟨outer, inner, innermost⟩ := gathered.innermost contentType' fun h => same (still h)
      have now := innermost.kept grown.keeps
      refine ⟨outer, inner ++ [token], ?_, now.enclosing, ?_, ?_⟩
      · rw [now.tokens, List.append_assoc]
      · simp [add, now.text]
      · show Assembled after source base contentType' (!a.scopes.isEmpty) (inner ++ [token])
          (node :: a.nodes).reverse
        rw [List.reverse_cons]
        exact now.assembled.append (.adds adds .nil)
  | @opens opener opens =>
      refine ⟨fun _ => rfl, fun contentType' same => ?_⟩
      obtain ⟨outer, inner, innermost⟩ := gathered.innermost contentType' fun _ => same rfl
      have now := innermost.kept grown.keeps
      refine ⟨outer ++ inner ++ [token], [], ?_, ?_, rfl, .nil⟩
      · rw [now.tokens, List.append_nil]
      · let scope : Scope := ⟨opener, token, a.nodes, a.source⟩
        exact @Enclosing.scope _ _ _ _ scope _ _ _ now.enclosing now.assembled now.text opens
  | @closes scope scopes node open_ closes hnode =>
      have decided : a.decided = true := gathered.decided (by simp [open_])
      refine ⟨fun _ => decided, fun contentType' same => ?_⟩
      have same : contentType' = a.contentType := same decided
      obtain ⟨outer, inner, innermost⟩ := gathered.innermost contentType' fun _ => same
      have now := innermost.kept grown.keeps
      have enclosing := now.enclosing
      have body := now.assembled
      have becomes := becomes_of_node hnode
      rw [open_] at enclosing body
      rw [Assembly.content, ← same, now.text] at becomes
      cases enclosing with
      | @scope _ _ outer around enclosing assembled source opens =>
          -- The scope, from its opening token to this one, joins the tokens around it.
          refine ⟨outer, around ++ (scope.opening :: inner ++ [token]), ?_, enclosing, ?_, ?_⟩
          · rw [now.tokens]
            simp
          · show scope.source ++ scope.opening.source ++ a.source ++ token.source = _
            rw [source, now.text]
            simp [String.append_assoc]
          · show Assembled after _ base contentType' (!scopes.isEmpty) _ (node :: scope.nodes).reverse
            rw [List.reverse_cons]
            exact assembled.append (.scope opens body closes becomes .nil)

theorem run (resolves : Resolves source base resolve) {later : List Token}
    (gathered : Gathered before source base tokens a)
    (yields : (later.foldlM (take resolve) a).Yields before a' after) :
    Gathered after source base (tokens ++ later) a' := by
  induction later generalizing tokens a before with
  | nil =>
      obtain ⟨rfl, rfl⟩ := Build.yields_pure.mp yields
      rwa [List.append_nil]
  | cons token later ih =>
      rw [List.foldlM_cons, Build.yields_bind] at yields
      obtain ⟨next, middle, taken, rest⟩ := yields
      have grown := (grows_take resolves.grows a token).yields taken
      have step := gathered.takes grown (take_takes resolves taken)
      have whole := ih step rest
      rwa [List.append_assoc, List.singleton_append] at whole

end Gathered

namespace Assembly

def ending (a : Assembly) : Scan.Ending → Build Document
  | .failed error => throw (.error (.parse error))
  | .exhausted => throw .exhausted
  | .finished | .stopped => Build.ofParse a.finish

theorem deliver_take (resolve : String → Build (Option Ref)) (ending : Scan.Ending)
    (tokens : List Token) (a : Assembly) :
    (Scan.deliver (m := StateT Assembly Build)
      (fun token => do
        set (← take resolve (← get) token)
        return true) ending tokens).run a =
      (do return (ending, ← tokens.foldlM (take resolve) a)) := by
  induction tokens generalizing a with
  | nil => simp [Scan.deliver]
  | cons token tokens ih =>
      simp only [Scan.deliver, bind_assoc, pure_bind, if_true, StateT.run_bind, StateT.run_get,
        StateT.run_set, StateT.run_monadLift, ih, List.foldlM_cons]
      simp

theorem ofScan_eq (resolve : String → Build (Option Ref)) (contentType : ContentType) (steps : Nat)
    (scan : Scan) :
    ofScan resolve contentType steps scan = (do
      let a ← (Scan.trace steps scan).1.foldlM (take resolve) (Assembly.start contentType)
      a.ending (Scan.trace steps scan).2) := by
  simp only [ofScan, Scan.feed_eq_deliver, deliver_take]
  simp only [bind_assoc, pure_bind]
  rfl

theorem finish_of_ending {a : Assembly} {ending : Scan.Ending} {document : Document}
    (yields : (a.ending ending).Yields before document after) :
    a.finish = .ok document ∧ after = before := by
  unfold Assembly.ending at yields
  split at yields
  · exact absurd yields Build.not_yields_throw
  · exact absurd yields Build.not_yields_throw
  · exact Build.yields_ofParse.mp yields
  · exact Build.yields_ofParse.mp yields

theorem grows_tokens (grows : ∀ name, (resolve name).Grows) (tokens : List Token) (a : Assembly) :
    (tokens.foldlM (take resolve) a).Grows := by
  induction tokens generalizing a with
  | nil => exact Build.grows_pure a
  | cons token tokens ih =>
      rw [List.foldlM_cons]
      exact (grows_take grows a token).bind ih

theorem grows_ofScan (grows : ∀ name, (resolve name).Grows) (contentType : ContentType)
    (steps : Nat) (scan : Scan) : (ofScan resolve contentType steps scan).Grows := by
  rw [ofScan_eq]
  refine (grows_tokens grows _ _).bind fun a => ?_
  unfold ending
  split
  · exact Build.grows_throw _
  · exact Build.grows_throw _
  · exact Build.grows_ofParse _
  · exact Build.grows_ofParse _

theorem relates_ofScan {R : Library → Library → Prop} (refl : ∀ library, R library library)
    (trans : ∀ {a b c : Library}, R a b → R b c → R a c)
    (added : ∀ {a b : Library}, a.Extends b → b.cache = a.cache → R a b)
    (resolves : Resolves source base resolve)
    (resolved : ∀ {name : String} {ref : Ref} {before after : Library},
      (resolve name).Yields before (some ref) after → R before after)
    {contentType : ContentType} {steps : Nat} {scan : Scan} {document : Document}
    (yields : (ofScan resolve contentType steps scan).Yields before document after) :
    R before after := by
  have moved {before after : Library} (moves : Moves resolve before after) : R before after := by
    cases moves with
    | stays => exact refl before
    | resolved found => exact resolved found
  rw [ofScan_eq, Build.yields_bind] at yields
  obtain ⟨a, middle, run, ended⟩ := yields
  obtain ⟨-, rfl⟩ := finish_of_ending ended
  generalize Assembly.start contentType = start at run
  generalize (Scan.trace steps scan).1 = tokens at run
  induction tokens generalizing before start with
  | nil =>
      obtain ⟨-, rfl⟩ := Build.yields_pure.mp run
      exact refl _
  | cons token tokens ih =>
      rw [List.foldlM_cons, Build.yields_bind] at run
      obtain ⟨next, between, taken, rest⟩ := run
      refine trans ?_ (ih next rest)
      cases take_takes resolves taken with
      | silent _ _ same =>
          rw [same]
          exact refl before
      | adds _ _ moves => exact moved moves
      | opens _ moves => exact moved moves
      | closes _ _ hnode => exact added ((grows_node start _).yields hnode) (cache_of_node hnode)

theorem assembled_of_ofScan (resolves : Resolves source base resolve) {contentType : ContentType}
    {steps : Nat} {scan : Scan} {document : Document}
    (yields : (ofScan resolve contentType steps scan).Yields before document after) :
    Assembled after source base document.contentType false (Scan.trace steps scan).1
      document.nodes := by
  rw [ofScan_eq, Build.yields_bind] at yields
  obtain ⟨a, middle, run, ended⟩ := yields
  have gathered := (Gathered.start before source base contentType).run resolves run
  obtain ⟨finish, rfl⟩ := finish_of_ending ended
  obtain ⟨outer, inner, innermost⟩ := gathered.innermost a.contentType fun _ => rfl
  have enclosing := innermost.enclosing
  have assembled := innermost.assembled
  unfold Assembly.finish at finish
  split at finish
  · rename_i closed
    cases finish
    rw [closed] at enclosing assembled
    cases enclosing
    have tokens := innermost.tokens
    rw [List.nil_append, List.nil_append] at tokens
    rw [tokens]
    exact assembled
  · cases finish

end Assembly

end Stencil
