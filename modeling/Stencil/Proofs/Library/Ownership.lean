import Mathlib.Data.List.Perm.Subperm
import Stencil.Proofs.Document.Isomorphism
import Stencil.Proofs.Library.Closure

/-!
# Ownership

A document that overrides blocks is owned by the one document that refers to it. Until there is such a
document, its reference is at hand, as are those of the cached templates (`Store.Owns`). Whatever a
build makes, it conveys the references that it has been given: each is at hand again in what it
returns, or has found an owner (`Build.Conveys`). A failure loses the references at hand, but no owner
(`owns_attempt`).
-/

namespace Stencil

namespace Store

/-- Some references are at hand, each once. All others are owned by one document. -/
structure Owns (store : Store) (atHand : List Ref) : Prop where
  separate : store.Separate (· ∈ atHand)
  nodup : atHand.Nodup
  known : ∀ {ref : Ref}, ref ∈ atHand → ref.index < store.size
  owned : ∀ {ref owner : Ref} {document : Document}, store.get? owner = some document →
    ref ∈ overridesOf document.nodes → ref.index < store.size

variable {store : Store} {atHand others : List Ref} {document : Document}

theorem owns_empty : Store.empty.Owns [] := by
  have vacant (ref : Ref) : Store.empty.get? ref = none := get?_eq_none (Nat.zero_le _)
  exact ⟨⟨by simp [vacant], by simp [vacant], by simp [vacant]⟩, .nil, by simp, by simp [vacant]⟩

theorem Owns.subperm (owns : store.Owns atHand) (fewer : others.Subperm atHand) : store.Owns others where
  separate :=
    ⟨owns.separate.once, owns.separate.owner, fun filled member here =>
      owns.separate.anchored filled member (fewer.subset here)⟩
  nodup := by
    obtain ⟨same, perm, sublist⟩ := fewer
    exact perm.nodup_iff.mp (owns.nodup.sublist sublist)
  known here := owns.known (fewer.subset here)
  owned := owns.owned

theorem Owns.perm (owns : store.Owns atHand) (perm : others.Perm atHand) : store.Owns others :=
  owns.subperm perm.subperm

theorem Owns.reserve (owns : store.Owns atHand) :
    store.reserve.2.Owns (⟨store.size⟩ :: atHand) where
  separate := by
    refine ⟨fun filled => ?_, fun filled member filled' => ?_, fun filled member here => ?_⟩
    · rw [get?_reserve] at filled
      exact owns.separate.once filled
    · rw [get?_reserve] at filled filled'
      exact owns.separate.owner filled member filled'
    · rw [get?_reserve] at filled
      rcases List.mem_cons.mp here with rfl | here
      · exact Nat.lt_irrefl _ (owns.owned filled member)
      · exact owns.separate.anchored filled member here
  nodup := List.nodup_cons.mpr ⟨fun here => Nat.lt_irrefl _ (owns.known here), owns.nodup⟩
  known here := by
    rw [size_reserve]
    rcases List.mem_cons.mp here with rfl | here
    · exact Nat.lt_succ_self _
    · exact Nat.lt_succ_of_lt (owns.known here)
  owned filled member := by
    rw [get?_reserve] at filled
    rw [size_reserve]
    exact Nat.lt_succ_of_lt (owns.owned filled member)

theorem get?_fill_cases {ref other : Ref} {new : Document}
    (filled : (store.fill ref new).get? other = some document) :
    store.get? other = some document ∨ other = ref ∧ document = new ∧ store.get? ref = none := by
  by_cases same : other = ref
  · subst same
    cases before : store.get? other with
    | some _ =>
        rw [get?_fill_of_some before] at filled
        exact .inl filled
    | none =>
        by_cases known : other.index < store.size
        · rw [get?_fill_self new known before] at filled
          exact .inr ⟨rfl, (Option.some.inj filled).symm, rfl⟩
        · rw [get?_eq_none (by rw [size_fill]; omega)] at filled
          cases filled
  · rw [get?_fill_of_ne store new same] at filled
    exact .inl filled

theorem Owns.fill (owns : store.Owns (overridesOf document.nodes ++ atHand)) (ref : Ref) :
    (store.fill ref document).Owns atHand := by
  have apart {owner : Ref} {old : Document} {member : Ref} (filled : store.get? owner = some old)
      (held : member ∈ overridesOf old.nodes) : member ∉ overridesOf document.nodes :=
    fun here => owns.separate.anchored filled held (List.mem_append_left _ here)
  obtain ⟨nodup, remaining, disjoint⟩ := List.nodup_append.mp owns.nodup
  refine ⟨⟨fun filled => ?_, fun filled member filled' member' => ?_, fun filled member here => ?_⟩,
    remaining, fun here => ?_, fun filled member => ?_⟩
  · rcases get?_fill_cases filled with old | ⟨-, rfl, -⟩
    · exact owns.separate.once old
    · exact nodup
  · rcases get?_fill_cases filled with old | ⟨rfl, rfl, -⟩
    · rcases get?_fill_cases filled' with old' | ⟨-, rfl, -⟩
      · exact owns.separate.owner old member old' member'
      · exact absurd member' (apart old member)
    · rcases get?_fill_cases filled' with old' | ⟨rfl, -, -⟩
      · exact absurd member (apart old' member')
      · rfl
  · rcases get?_fill_cases filled with old | ⟨-, rfl, -⟩
    · exact owns.separate.anchored old member (List.mem_append_right _ here)
    · exact disjoint _ member _ here rfl
  · rw [size_fill]
    exact owns.known (List.mem_append_right _ here)
  · rw [size_fill]
    rcases get?_fill_cases filled with old | ⟨-, rfl, -⟩
    · exact owns.owned old member
    · exact owns.known (List.mem_append_left _ member)

theorem add_eq_fill (store : Store) (document : Document) :
    (store.add document).2 = store.reserve.2.fill ⟨store.size⟩ document := by
  have vacant : store.reserve.2.get? ⟨store.size⟩ = none := by
    rw [get?_reserve]
    exact get?_eq_none (Nat.le_refl _)
  simp only [fill, vacant]
  simp [add, reserve, size, Array.setIfInBounds, Array.set_push]

theorem Owns.add (owns : store.Owns (overridesOf document.nodes ++ atHand)) :
    (store.add document).2.Owns (⟨store.size⟩ :: atHand) := by
  rw [add_eq_fill]
  exact Owns.fill (owns.reserve.perm List.perm_middle) _

end Store

/-! ## Builds -/

def Library.Owns (library : Library) (atHand : List Ref) : Prop :=
  library.store.Owns (atHand ++ library.cache.map Prod.snd)

theorem Library.Owns.subperm {library : Library} {atHand others : List Ref}
    (owns : library.Owns atHand) (fewer : others.Subperm atHand) : library.Owns others :=
  Store.Owns.subperm owns (fewer.append (.refl _))

namespace Build

variable {α β : Type} {taken kept : List Ref}

/-- A build gives back the references it has taken, and leaves all others at hand. -/
def Conveys (taken : List Ref) (build : Build α) (given : α → List Ref) : Prop :=
  ∀ (before : Library) (frame : List Ref), before.Owns (taken ++ frame) →
    match build.run before with
    | (.ok a, after) => after.Owns (given a ++ frame)
    | (.error _, after) => after.Owns []

theorem conveys_pure {a : α} {given : α → List Ref} (fewer : (given a).Subperm taken) :
    Conveys taken (pure a) given :=
  fun _ _ owns => owns.subperm (fewer.append (.refl _))

theorem conveys_throw (failure : Failure) (given : α → List Ref) :
    Conveys taken (throw failure : Build α) given :=
  fun _ _ owns => owns.subperm (List.nil_subperm)

theorem Conveys.bind {build : Build α} {next : α → Build β} {between : α → List Ref}
    {given : β → List Ref} (first : Conveys taken build between)
    (second : ∀ a, Conveys (between a) (next a) given) : Conveys taken (build >>= next) given := by
  intro before frame owns
  have middle := first before frame owns
  rw [run_bind]
  rcases hrun : build.run before with ⟨result, after⟩
  rw [hrun] at middle
  cases result with
  | error failure => exact middle
  | ok a => exact second a after frame middle

theorem Conveys.frame {build : Build α} {given : α → List Ref} (conveys : Conveys taken build given)
    (extra : List Ref) : Conveys (taken ++ extra) build fun a => given a ++ extra := by
  intro before frame owns
  rw [List.append_assoc] at owns
  have after := conveys before (extra ++ frame) owns
  rcases hrun : build.run before with ⟨result, library⟩
  rw [hrun] at after
  cases result with
  | error failure => exact after
  | ok a =>
      dsimp only at after ⊢
      rwa [List.append_assoc]

theorem conveys_ofParse (result : Except ParseError α) (taken : List Ref) :
    Conveys taken (ofParse result) fun _ => taken := by
  cases result with
  | error error => exact conveys_throw _ _
  | ok a => exact conveys_pure (.refl _)

theorem conveys_ofExcept (result : Except Error α) (taken : List Ref) :
    Conveys taken (ofExcept result) fun _ => taken := by
  cases result with
  | error error => exact conveys_throw _ _
  | ok a => exact conveys_pure (.refl _)

theorem conveys_add (document : Document) :
    Conveys (overridesOf document.nodes) (add document) fun ref => [ref] := by
  intro before frame owns
  rw [Library.Owns, List.append_assoc] at owns
  exact owns.add

theorem conveys_fill (ref : Ref) (document : Document) :
    Conveys (overridesOf document.nodes) (fill ref document) fun _ => [] := by
  intro before frame owns
  rw [Library.Owns, List.append_assoc] at owns
  exact owns.fill ref

theorem conveys_cached? (id : String) : Conveys [] (cached? id) fun _ => [] :=
  fun _ _ owns => owns

theorem conveys_reserve (id : String) : Conveys [] (reserve id) fun _ => [] :=
  fun _ _ owns => owns.reserve.perm List.perm_middle

end Build

/-! ## Assemblies -/

open Build

namespace Assembly

variable {resolve : String → Build (Option Ref)}

theorem perm_overridesOf_reverse (nodes : List Node) :
    (overridesOf nodes.reverse).Perm (overridesOf nodes) := by
  induction nodes with
  | nil => exact .refl _
  | cons node nodes ih =>
      rw [List.reverse_cons, overridesOf_append]
      simp only [overridesOf, List.append_nil]
      exact List.perm_append_comm.trans (ih.append_left _)

def overrides (a : Assembly) : List Ref :=
  overridesOf a.nodes ++ a.scopes.flatMap fun scope => overridesOf scope.nodes

theorem conveys_targetOf (conveys : ∀ name, Conveys [] (resolve name) fun _ => []) (token : Token)
    (name : String) (taken : List Ref) :
    Conveys taken (targetOf resolve token name) fun _ => taken := by
  refine Conveys.bind ((conveys name).frame taken) fun found => ?_
  cases found with
  | none => exact conveys_throw _ _
  | some ref => exact conveys_pure (.refl _)

theorem conveys_node (a : Assembly) (scope : Scope) :
    Conveys (overridesOf a.nodes) (a.node scope) Node.overrides := by
  have body := (perm_overridesOf_reverse a.nodes).subperm
  unfold node
  split
  · exact conveys_pure body
  · exact conveys_pure body
  · intro before frame owns
    exact (conveys_add a.content).bind (fun ref => conveys_pure (.refl _)) before frame
      (owns.subperm (body.append (.refl _)))

theorem conveys_take (conveys : ∀ name, Conveys [] (resolve name) fun _ => []) (a : Assembly)
    (token : Token) : Conveys a.overrides (take resolve a token) overrides := by
  have parsed {α : Type} (result : Except ParseError α) (next : α → Assembly)
      (same : ∀ x, (next x).overrides = a.overrides) :
      Conveys a.overrides (do return next (← Build.ofParse result)) overrides :=
    (conveys_ofParse result a.overrides).bind fun x => conveys_pure (by rw [same x])
  have resolved (result : Except ParseError String) (next : String → Ref → Assembly)
      (same : ∀ name ref, (next name ref).overrides = a.overrides) :
      Conveys a.overrides (do
        let name ← Build.ofParse result
        let target ← targetOf resolve token name
        return next name target) overrides :=
    (conveys_ofParse result a.overrides).bind fun name =>
      (conveys_targetOf conveys token name a.overrides).bind fun ref =>
        conveys_pure (by rw [same name ref])
  unfold take
  split
  · exact conveys_pure (.refl _)
  · exact conveys_pure (.refl _)
  · exact conveys_pure (.refl _)
  · rename_i kind
    cases pragma : a.pragma token with
    | error error => exact conveys_throw _ _
    | ok a' =>
        obtain ⟨contentType, -, -, rfl⟩ := yields_pragma pragma kind
        exact conveys_pure (.refl _)
  · exact parsed _ _ fun _ => rfl
  · exact parsed _ _ fun _ => rfl
  · exact parsed _ _ fun _ => rfl
  · exact parsed _ _ fun _ => rfl
  · exact parsed _ _ fun _ => rfl
  · exact resolved _ _ fun _ _ => rfl
  · exact resolved _ _ fun _ _ => rfl
  · unfold close
    dsimp only
    split
    · exact conveys_throw _ _
    · rename_i scope scopes open_
      split
      · rw [overrides, open_, List.flatMap_cons]
        refine ((conveys_node a scope).frame _).bind fun node => conveys_pure ?_
        simp only [overrides, overridesOf, List.append_assoc]
        exact .refl _
      · exact conveys_throw _ _

theorem conveys_ofScan (conveys : ∀ name, Conveys [] (resolve name) fun _ => [])
    (contentType : ContentType) (steps : Nat) (scan : Scan) :
    Conveys [] (ofScan resolve contentType steps scan) fun document => overridesOf document.nodes := by
  have run (tokens : List Token) (a : Assembly) :
      Conveys a.overrides (tokens.foldlM (take resolve) a) overrides := by
    induction tokens generalizing a with
    | nil => exact conveys_pure (.refl _)
    | cons token tokens ih =>
        rw [List.foldlM_cons]
        exact (conveys_take conveys a token).bind ih
  rw [ofScan_eq]
  refine (run _ (start contentType)).bind fun a => ?_
  have finish : Conveys a.overrides (Build.ofParse a.finish)
      fun document => overridesOf document.nodes := by
    unfold Assembly.finish
    split
    · refine conveys_pure ((perm_overridesOf_reverse a.nodes).subperm.trans ?_)
      exact (List.sublist_append_left _ _).subperm
    · exact conveys_throw _ _
  unfold ending
  split
  · exact conveys_throw _ _
  · exact conveys_throw _ _
  · exact finish
  · exact finish

end Assembly

/-! ## Repositories -/

namespace Repository

variable {κ : Type}

theorem conveys_load (repository : Repository κ) (depth : Nat) (base : Option String)
    (name : String) : Conveys [] (repository.load depth base name) fun _ => [] := by
  induction depth generalizing base name with
  | zero => exact conveys_throw _ _
  | succ depth ih =>
      rw [load]
      split
      · exact conveys_pure (.refl _)
      · rename_i source _
        split
        · exact conveys_pure (.refl _)
        · rename_i id _
          refine (conveys_cached? id).bind fun found => ?_
          cases found with
          | some ref => exact conveys_pure (.refl _)
          | none =>
              refine (conveys_reserve id).bind fun ref => ?_
              refine (conveys_ofExcept _ []).bind fun text => ?_
              refine (Assembly.conveys_ofScan (ih (some id)) _ _ _).bind fun document => ?_
              exact (conveys_fill ref document).bind fun _ => conveys_pure (.refl _)

theorem conveys_template (repository : Repository κ) (name : String) :
    Conveys [] (repository.template name) fun _ => [] := by
  refine (conveys_load repository _ none name).bind fun found => ?_
  cases found with
  | none => exact conveys_throw _ _
  | some root => exact conveys_pure (.refl _)

theorem conveys_templateOfText (repository : Repository κ) (text : String) :
    Conveys [] (repository.templateOfText text) fun template => [template.root] := by
  refine (Assembly.conveys_ofScan (conveys_load repository _ none) _ _ _).bind fun document => ?_
  exact (conveys_add document).bind fun ref => conveys_pure (.refl _)

end Repository

theorem owns_attempt {α : Type} {build : Build α} {given : α → List Ref}
    (conveys : Conveys [] build given) {library : Library} (owns : library.Owns []) :
    match build.attempt library with
    | (.ok a, after) => after.Owns (given a)
    | (.error _, after) => after.Owns [] := by
  have after := conveys library [] owns
  unfold attempt
  rcases hrun : build.run library with ⟨result, later⟩
  rw [hrun] at after
  cases result with
  | error failure =>
      refine Store.Owns.subperm after (List.Sublist.subperm ?_)
      exact (List.filter_sublist.map _)
  | ok a => simpa using after

end Stencil
