import Stencil.Proofs.Library.Load

namespace Stencil

namespace Repository

open Library

variable {κ : Type} {repository : Repository κ} {library later before after : Library}
  {id : String} {ref : Ref}

def Enters (repository : Repository κ) (library : Library) (id : String) (ref : Ref) : Prop :=
  ∃ depth source text document before after, repository.source = some source ∧
    source.text id = .ok text ∧
    (repository.compile (repository.load depth (some id)) text (some id)).Yields before document
      after ∧
    after.Keeps library ∧ library.store.get? ref = some document

theorem Enters.kept (enters : repository.Enters library id ref) (kept : library.Keeps later) :
    repository.Enters later id ref := by
  obtain ⟨depth, source, text, document, before, after, hsource, read, compiled, since, filled⟩ :=
    enters
  exact ⟨depth, source, text, document, before, after, hsource, read, compiled, since.trans kept,
    kept.store ref document filled⟩

structure Gains (repository : Repository κ) (before after : Library) : Prop where
  kept : before.Keeps after
  entries : ∀ {id : String} {ref : Ref}, after.cache.lookup id = some ref →
    before.cache.lookup id = some ref ∨ repository.Enters after id ref

theorem Gains.refl (repository : Repository κ) (library : Library) :
    repository.Gains library library :=
  ⟨.refl library, .inl⟩

theorem Gains.trans (first : repository.Gains before library)
    (second : repository.Gains library after) : repository.Gains before after := by
  refine ⟨first.kept.trans second.kept, fun cached => ?_⟩
  rcases second.entries cached with cached | enters
  · exact (first.entries cached).imp_right fun enters => enters.kept second.kept
  · exact .inr enters

theorem gains_of_cache (repository : Repository κ) (grown : before.Extends after)
    (same : after.cache = before.cache) : repository.Gains before after := by
  refine ⟨grown.keeps, fun cached => .inl ?_⟩
  rwa [← same]

theorem gains_compile {resolve : String → Build (Option Ref)} {id : Option String}
    (resolves : Resolves repository.source id resolve)
    (gains : ∀ {name : String} {ref : Ref} {before after : Library},
      (resolve name).Yields before (some ref) after → repository.Gains before after)
    {text : String} {document : Document}
    (compiled : (repository.compile resolve text id).Yields before document after) :
    repository.Gains before after :=
  Assembly.relates_ofScan (.refl repository) .trans (gains_of_cache repository) resolves gains
    compiled

theorem gains_load {depth : Nat} {base : Option String} {name : String} {found : Option Ref}
    (yields : (repository.load depth base name).Yields before found after) :
    repository.Gains before after := by
  induction depth generalizing base name found before after with
  | zero => exact absurd yields Build.not_yields_throw
  | succ depth ih =>
      have grown := (grows_load repository (depth + 1) base name).yields yields
      cases load_loads yields with
      | unknown => exact .refl _ _
      | cached => exact .refl _ _
      | @compiled source id text document middle hsource hid fresh read compiled =>
          have resolves := resolves_load repository depth (some id)
          have gains := gains_compile resolves ih compiled
          have during := (grows_compile resolves.grows text (some id)).yields compiled
          have kept := middle.keeps_fill ⟨before.store.size⟩ document
          have placed : before.store.size < (before.reserved id).store.size := by
            simp [reserved, Store.size_reserve]
          have filled : (middle.store.fill ⟨before.store.size⟩ document).get? ⟨before.store.size⟩ =
              some document := by
            refine Store.get?_fill_self document (Nat.lt_of_lt_of_le placed during.size) ?_
            rw [during.cells ⟨before.store.size⟩ placed]
            simp only [reserved, Store.get?_reserve]
            exact Store.get?_eq_none (Nat.le_refl _)
          refine ⟨grown.keeps, fun {id' ref} cached => ?_⟩
          rcases gains.entries cached with cached | enters
          · by_cases same : id' = id
            · subst same
              have here : ref = ⟨before.store.size⟩ := by
                simpa [reserved, eq_comm] using cached
              subst here
              exact .inr ⟨depth, source, text, document, _, middle, hsource, read, compiled, kept,
                filled⟩
            · left
              simpa [reserved, List.lookup_cons, beq_eq_false_iff_ne.mpr same] using cached
          · exact .inr (enters.kept kept)

theorem template_yields {name : String} {template : Template κ}
    (yields : (repository.template name).Yields before template after) :
    (repository.load repository.depth none name).Yields before (some template.root) after ∧
      template.context = repository.configuration.context := by
  obtain ⟨found, middle, loaded, last⟩ := Build.yields_bind.mp yields
  cases found with
  | none => exact absurd last Build.not_yields_throw
  | some root =>
      obtain ⟨rfl, rfl⟩ := Build.yields_pure.mp last
      exact ⟨loaded, rfl⟩

theorem gains_template {name : String} {template : Template κ}
    (yields : (repository.template name).Yields before template after) :
    repository.Gains before after :=
  gains_load (template_yields yields).1

theorem templateOfText_yields {text : String} {template : Template κ}
    (yields : (repository.templateOfText text).Yields before template after) :
    ∃ document middle,
      (repository.compile (repository.load repository.depth none) text none).Yields before document
        middle ∧
      after = { middle with store := (middle.store.add document).2 } ∧
      template = ⟨⟨middle.store.size⟩, repository.configuration.context⟩ := by
  obtain ⟨document, middle, compiled, last⟩ := Build.yields_bind.mp yields
  obtain ⟨ref, added, add, last⟩ := Build.yields_bind.mp last
  obtain ⟨rfl, rfl⟩ := Build.yields_add.mp add
  obtain ⟨rfl, rfl⟩ := Build.yields_pure.mp last
  exact ⟨document, middle, compiled, rfl, rfl⟩

theorem gains_templateOfText {text : String} {template : Template κ}
    (yields : (repository.templateOfText text).Yields before template after) :
    repository.Gains before after := by
  obtain ⟨document, middle, compiled, rfl, -⟩ := templateOfText_yields yields
  have gains := gains_compile (resolves_load repository _ none) gains_load compiled
  exact gains.trans (gains_of_cache repository (middle.extends_add document) rfl)

end Repository

end Stencil
