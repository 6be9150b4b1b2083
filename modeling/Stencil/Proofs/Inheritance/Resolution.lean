import Stencil.Output
import Stencil.Proofs.Inheritance.Blocks

namespace Stencil

namespace Store

/-- The frame at a position, counted from the innermost, applies to the blocks of a name. -/
def Applies (store : Store) (name : String) (frames : List Frame) (k : Nat) : Prop :=
  ∃ frame, frames[k]? = some frame ∧ store.offers name frame ≠ [] ∧
    ∀ j, ∀ _ : j < k, ∀ inner, frames[j]? = some inner → store.Applies name frames j →
      inner.parent ≠ frame.parent
termination_by k

structure Decides (store : Store) (name : String) (frames : List Frame) (k : Nat) (last : Block) :
    Prop where
  applies : store.Applies name frames k
  outermost : ∀ i, store.Applies name frames i → i ≤ k
  offered : ∃ frame, frames[k]? = some frame ∧ (store.offers name frame).getLast? = some last

/-- What renders in place of a block: the last block that the outermost frame that applies offers,
or the block itself. -/
inductive Resolves (store : Store) (frames : List Frame) (block : Block) : Block → Prop
  | offered {k : Nat} {last : Block} : store.Decides block.name frames k last →
      Resolves store frames block last
  | own : (∀ k, ¬ store.Applies block.name frames k) → Resolves store frames block block

variable {store : Store} {name : String} {frames before rest : List Frame} {frame : Frame}
  {used : List Ref}

theorem Applies.lt {k : Nat} (applies : store.Applies name frames k) : k < frames.length := by
  rw [Applies] at applies
  obtain ⟨frame, found, -⟩ := applies
  exact (List.getElem?_eq_some_iff.mp found).1

def Used (store : Store) (name : String) (frames : List Frame) (n : Nat) (used : List Ref) : Prop :=
  ∀ ref, ref ∈ used ↔ ∃ j inner, j < n ∧ frames[j]? = some inner ∧ store.Applies name frames j ∧
    inner.parent = ref

theorem applies_iff {n : Nat} (found : frames[n]? = some frame)
    (parents : store.Used name frames n used) :
    store.Applies name frames n ↔ store.offers name frame ≠ [] ∧ frame.parent ∉ used := by
  rw [Applies]
  constructor
  · rintro ⟨_, found', offered, apart⟩
    obtain rfl : frame = _ := Option.some.inj (found.symm.trans found')
    refine ⟨offered, fun member => ?_⟩
    obtain ⟨j, inner, before, at_, applies, same⟩ := (parents _).mp member
    exact apart j before inner at_ applies same
  · rintro ⟨offered, fresh⟩
    refine ⟨frame, found, offered, fun j before inner at_ applies same => fresh ?_⟩
    exact (parents _).mpr ⟨j, inner, before, at_, applies, same⟩

theorem Used.skip {n : Nat} (parents : store.Used name frames n used)
    (not : ¬ store.Applies name frames n) : store.Used name frames (n + 1) used := by
  intro ref
  rw [parents ref]
  constructor
  · rintro ⟨j, inner, before, rest⟩
    exact ⟨j, inner, Nat.lt_succ_of_lt before, rest⟩
  · rintro ⟨j, inner, before, found, applies, same⟩
    have other : j ≠ n := fun here => not (here ▸ applies)
    exact ⟨j, inner, by omega, found, applies, same⟩

theorem Used.mark {n : Nat} (parents : store.Used name frames n used)
    (found : frames[n]? = some frame) (applies : store.Applies name frames n) :
    store.Used name frames (n + 1) (frame.parent :: used) := by
  intro ref
  rw [List.mem_cons, parents ref]
  constructor
  · rintro (rfl | ⟨j, inner, before, rest⟩)
    · exact ⟨n, frame, Nat.lt_succ_self n, found, applies, rfl⟩
    · exact ⟨j, inner, Nat.lt_succ_of_lt before, rest⟩
  · rintro ⟨j, inner, before, at_, applies', same⟩
    rcases Nat.lt_succ_iff_lt_or_eq.mp before with before | rfl
    · exact .inr ⟨j, inner, before, at_, applies', same⟩
    · rw [found] at at_
      cases at_
      exact .inl same.symm

theorem resolveIn_of_applies {n : Nat} {block last : Block} (found : frames[n]? = some frame)
    (parents : store.Used block.name frames n used) (applies : store.Applies block.name frames n)
    (offered : (store.offers block.name frame).getLast? = some last) :
    store.resolveIn (frame :: rest) used block =
      store.resolveIn rest (frame.parent :: used) last := by
  have fresh := ((applies_iff found parents).mp applies).2
  simp [resolveIn, fresh, offer?_eq, offered]

theorem resolveIn_of_not_applies {n : Nat} {block : Block} (found : frames[n]? = some frame)
    (parents : store.Used block.name frames n used)
    (not : ¬ store.Applies block.name frames n) :
    store.resolveIn (frame :: rest) used block = store.resolveIn rest used block := by
  by_cases again : frame.parent ∈ used
  · simp [resolveIn, again]
  · have none : store.offers block.name frame = [] := by
      by_contra offered
      exact not ((applies_iff found parents).mpr ⟨offered, again⟩)
    simp [resolveIn, again, offer?_eq, none]

theorem resolveIn_eq {n : Nat} {block : Block} (parents : store.Used block.name frames n used)
    (split : frames.drop n = rest) :
    (∃ k last, n ≤ k ∧ store.Decides block.name frames k last ∧
      store.resolveIn rest used block = last) ∨
    (∀ k, n ≤ k → ¬ store.Applies block.name frames k) ∧
      store.resolveIn rest used block = block := by
  -- By induction on the frames still to be asked. The block so far matters only by its name, unless
  -- none of them applies, and the parents so far are those of the frames that applied.
  induction rest generalizing n used block with
  | nil =>
      right
      refine ⟨fun k later applies => ?_, rfl⟩
      have short := List.drop_eq_nil_iff.mp split
      have inside := applies.lt
      omega
  | cons frame rest ih =>
      have found : frames[n]? = some frame := by
        rw [← Nat.add_zero n, ← List.getElem?_drop, split, List.getElem?_cons_zero]
      have split' : frames.drop (n + 1) = rest := by
        rw [← List.tail_drop, split, List.tail_cons]
      by_cases applies : store.Applies block.name frames n
      · obtain ⟨offered, -⟩ := (applies_iff found parents).mp applies
        have last := List.getLast?_eq_some_getLast offered
        have named : ((store.offers block.name frame).getLast offered).name = block.name :=
          name_of_mem_offers (List.getLast_mem offered)
        have parents' := parents.mark found applies
        rw [← named] at parents'
        have further := ih parents' split'
        rw [named] at further
        rw [resolveIn_of_applies found parents applies last]
        rcases further with ⟨k, outer, later, decides, same⟩ | ⟨none, same⟩
        · exact .inl ⟨k, outer, by omega, decides, same⟩
        · refine .inl ⟨n, _, le_rfl, ⟨applies, fun i applies' => ?_, frame, found, last⟩, same⟩
          by_contra further
          exact none i (by omega) applies'
      · rw [resolveIn_of_not_applies found parents applies]
        rcases ih (parents.skip applies) split' with ⟨k, last, later, rest⟩ | ⟨none, same⟩
        · exact .inl ⟨k, last, by omega, rest⟩
        · refine .inr ⟨fun k later => ?_, same⟩
          rcases Nat.eq_or_lt_of_le later with rfl | later
          · exact applies
          · exact none k later

theorem Resolves.name_eq {block resolved : Block}
    (resolves : store.Resolves frames block resolved) : resolved.name = block.name := by
  cases resolves with
  | offered decides =>
      obtain ⟨frame, -, offered⟩ := decides.offered
      exact name_of_mem_offers (List.mem_of_getLast? offered)
  | own => rfl

theorem resolve_resolves (store : Store) (frames : List Frame) (block : Block) :
    ∃ resolved, store.Resolves frames block resolved ∧
      store.resolve frames block.name block.body = resolved.body := by
  have start : store.Used block.name frames 0 [] := by
    intro ref
    simp
  rcases resolveIn_eq start frames.drop_zero with ⟨k, last, -, decides, same⟩ | ⟨none, same⟩
  · exact ⟨last, .offered decides, congrArg Block.body same⟩
  · exact ⟨block, .own fun k => none k (Nat.zero_le k), congrArg Block.body same⟩

theorem resolve_cases (store : Store) (frames : List Frame) (name : String) (body : Document) :
    store.resolve frames name body = body ∨
      ∃ frame ∈ frames, (store.offer? ⟨name, body⟩ frame).map Block.body =
        some (store.resolve frames name body) := by
  obtain ⟨resolved, resolves, same⟩ := store.resolve_resolves frames ⟨name, body⟩
  dsimp only at same
  rw [same]
  cases resolves with
  | own => exact .inl rfl
  | offered decides =>
      obtain ⟨frame, found, last⟩ := decides.offered
      refine .inr ⟨frame, List.mem_of_getElem? found, ?_⟩
      rw [offer?_eq, last, Option.map_some]

theorem exists_of_offer? {kind : Document → Prop} (hereditary : store.Hereditary kind)
    (parent : kind (store.get frame.parent)) (overriding : kind (store.get frame.overriding))
    {block : Block} {body : Document}
    (offered : (store.offer? block frame).map Block.body = some body) :
    ∃ document, kind document ∧ .blockTag block.name body ∈ document.nodes := by
  rw [offer?_eq, Option.map_eq_some_iff] at offered
  obtain ⟨last, offered, rfl⟩ := offered
  have member := List.mem_of_getLast? offered
  have named := name_of_mem_offers member
  rw [← named] at member ⊢
  rcases List.mem_append.mp member with member | member
  · exact exists_of_mem_blocks hereditary parent member
  · exact exists_of_mem_blocks hereditary overriding member

theorem resolve_of_hereditary {kind : Document → Prop} (hereditary : store.Hereditary kind)
    (inherited : ∀ frame ∈ frames,
      kind (store.get frame.parent) ∧ kind (store.get frame.overriding))
    {body : Document} (own : kind body) : kind (store.resolve frames name body) := by
  rcases store.resolve_cases frames name body with same | ⟨frame, member, offered⟩
  · rw [same]
    exact own
  · obtain ⟨parent, overriding⟩ := inherited frame member
    obtain ⟨document, here, block⟩ := exists_of_offer? hereditary parent overriding offered
    exact hereditary _ _ here (.blockTag block)

theorem blockTag_resolved {κ : Type} [Host κ] (store : Store) (context : Context κ) (block : Block) :
    ∃ resolved, store.Resolves context.frames block resolved ∧ resolved.name = block.name ∧
      store.resolve context.frames block.name block.body = resolved.body ∧
      ∀ (run : Runner κ) (host : ContentType) (output : String),
        run.node store host context output (.blockTag block.name block.body) =
          Rendering.string <$> run (.append host output resolved.body context) := by
  obtain ⟨resolved, resolves, same⟩ := store.resolve_resolves context.frames block
  refine ⟨resolved, resolves, resolves.name_eq, same, fun run host output => ?_⟩
  rw [Runner.node, same, map_eq_pure_bind]

example :
    let body (string : String) : Document := ⟨.html, [.text string]⟩
    let overriding (string : String) : Document := ⟨.html, [.blockTag "b" (body string)]⟩
    let store : Store :=
      ⟨#[some (overriding "layout"), some (overriding "inner"), some (overriding "outer")]⟩
    store.resolve [⟨⟨0⟩, ⟨1⟩⟩, ⟨⟨0⟩, ⟨2⟩⟩] "b" (body "own") = body "inner" := by
  rfl

end Store

end Stencil
