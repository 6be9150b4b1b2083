import Mathlib
import Stencil.Inheritance
import Stencil.Proofs.Document.Parts

namespace Stencil

def Node.blocks (name : String) (included : Ref → List Block) : Node → List Block
  | .blockTag other body => if other = name then [⟨other, body⟩] else []
  | .partialTag _ target => included target
  | .inheritTag _ parent overriding => included parent ++ included overriding
  | _ => []

theorem Node.name_of_mem_blocks {name : String} {included : Ref → List Block} (node : Node)
    (names : ∀ ref, ∀ block ∈ included ref, block.name = name) :
    ∀ block ∈ node.blocks name included, block.name = name := by
  intro block member
  cases node with
  | blockTag other body =>
      simp only [Node.blocks] at member
      split at member
      · simp_all
      · simp at member
  | partialTag _ target => exact names target block member
  | inheritTag _ parent overriding =>
      rcases List.mem_append.mp member with first | second
      · exact names parent block first
      · exact names overriding block second
  | _ => cases member

namespace Store

def offPath (store : Store) (path : List Ref) : Finset Nat :=
  (Finset.range store.size).filter fun index => ⟨index⟩ ∉ path

theorem card_offPath_le {store : Store} (path : List Ref) :
    (store.offPath path).card ≤ store.size := by
  simpa [offPath] using Finset.card_filter_le (Finset.range store.size) fun index => ⟨index⟩ ∉ path

theorem offPath_cons_lt {store : Store} {path : List Ref} {ref : Ref} (fresh : ref ∉ path)
    (known : ref.index < store.size) :
    (store.offPath (ref :: path)).card < (store.offPath path).card := by
  apply Finset.card_lt_card
  refine Finset.ssubset_iff_of_subset ?_ |>.mpr ⟨ref.index, ?_, ?_⟩
  · intro index member
    simp_all [offPath]
  · simp [offPath, known, fresh]
  · simp [offPath]

/-- The blocks of a name, in the order in which a document is read. A document on the path to itself
is passed over, and beyond the store there are none. -/
def blocks (store : Store) (name : String) (path : List Ref) (ref : Ref) : List Block :=
  if _ : ref ∉ path ∧ ref.index < store.size then
    (store.get ref).nodes.flatMap
      (Node.blocks name fun target => store.blocks name (ref :: path) target)
  else []
termination_by (store.offPath path).card
decreasing_by
  rename_i entered
  exact offPath_cons_lt entered.1 entered.2

theorem get_nodes_of_le {store : Store} {ref : Ref} (beyond : store.size ≤ ref.index) :
    (store.get ref).nodes = [] := by
  have none : store.cells[ref.index]? = none := Array.getElem?_eq_none beyond
  simp [get, get?, none]

theorem blocks_eq (store : Store) (name : String) (path : List Ref) (ref : Ref) :
    store.blocks name path ref =
      if ref ∈ path then []
      else (store.get ref).nodes.flatMap (Node.blocks name (store.blocks name (ref :: path))) := by
  rw [blocks]
  by_cases known : ref.index < store.size
  · simp [known, ite_not]
  · simp [known, get_nodes_of_le (not_lt.mp known)]

theorem name_of_mem_blocks {store : Store} {name : String} {path : List Ref} {ref : Ref}
    {block : Block} (member : block ∈ store.blocks name path ref) : block.name = name := by
  fun_induction store.blocks name path ref generalizing block with
  | case1 path ref entered ih =>
      obtain ⟨node, -, member⟩ := List.mem_flatMap.mp member
      exact node.name_of_mem_blocks (fun target _ => ih target) block member
  | case2 => cases member

def lastMet (met : Block × Bool) (blocks : List Block) : Block × Bool :=
  (blocks.getLast?.getD met.1, met.2 || !blocks.isEmpty)

theorem lastMet_append (met : Block × Bool) (first second : List Block) :
    lastMet met (first ++ second) = lastMet (lastMet met first) second := by
  cases second with
  | nil => simp [lastMet]
  | cons block blocks => simp [lastMet, List.getLast?_append]

theorem name_lastMet {name : String} (met : Block × Bool) {blocks : List Block}
    (started : met.1.name = name) (names : ∀ block ∈ blocks, block.name = name) :
    (lastMet met blocks).1.name = name := by
  cases last : blocks.getLast? with
  | none => simpa [lastMet, last] using started
  | some block => simpa [lastMet, last] using names block (List.mem_of_getLast? last)

/-- From a path, and from any block of a name, the search of a document ends on that path, with the
last of the blocks of that name that the document is said to have. -/
structure Meets (name : String) (path : List Ref) (enter : Block → Ref → Search (Block × Bool))
    (included : Ref → List Block) : Prop where
  ends : ∀ block ref, block.name = name →
    (enter block ref).run path = some (lastMet (block, false) (included ref), path)
  names : ∀ ref, ∀ block ∈ included ref, block.name = name

namespace Meets

variable {name : String} {path : List Ref} {enter : Block → Ref → Search (Block × Bool)}
  {included : Ref → List Block}

theorem frame (meets : Meets name path enter included) (frame : Frame) (block : Block)
    (started : block.name = name) :
    (Frame.search enter block frame).run path =
      some (lastMet (block, false) (included frame.parent ++ included frame.overriding), path) := by
  have inParent := meets.ends block frame.parent started
  have named := name_lastMet (block, false) started (meets.names frame.parent)
  have inOverriding := meets.ends _ frame.overriding named
  rw [lastMet_append]
  simp [Frame.search, inParent, inOverriding]
  simp [lastMet]

theorem node (meets : Meets name path enter included) (node : Node) (met : Block × Bool)
    (started : met.1.name = name) :
    (node.search enter met).run path = some (lastMet met (node.blocks name included), path) := by
  cases node with
  | blockTag other body =>
      by_cases same : other = name <;> simp [Node.search, Node.blocks, lastMet, started, same]
  | partialTag _ target =>
      have entered := meets.ends met.1 target started
      simp [Node.search, Node.blocks, entered, lastMet]
  | inheritTag _ parent overriding =>
      have entered := meets.frame ⟨parent, overriding⟩ met.1 started
      simp [Node.search, Node.blocks, entered, lastMet]
  | _ => simp [Node.search, Node.blocks, lastMet]

theorem nodes (meets : Meets name path enter included) (nodes : List Node) (met : Block × Bool)
    (started : met.1.name = name) :
    (nodes.foldlM (Node.search enter) met).run path =
      some (lastMet met (nodes.flatMap (Node.blocks name included)), path) := by
  induction nodes generalizing met with
  | nil => simp [lastMet]
  | cons node nodes ih =>
      have named := name_lastMet met started (node.name_of_mem_blocks meets.names)
      rw [List.foldlM_cons, StateT.run_bind, meets.node node met started, List.flatMap_cons,
        lastMet_append]
      exact ih _ named

end Meets

theorem search_eq {store : Store} {depth : Nat} {path : List Ref}
    (deep : (store.offPath path).card < depth) (block : Block) (ref : Ref) :
    (store.search depth block ref).run path =
      some (lastMet (block, false) (store.blocks block.name path ref), path) := by
  -- The documents off the path bound the depth, and fewer are left with each one that is entered.
  induction depth generalizing path block ref with
  | zero => cases deep
  | succ depth ih =>
      rw [search, blocks_eq]
      by_cases onPath : ref ∈ path
      · simp [onPath, lastMet]
      · by_cases known : ref.index < store.size
        · have deeper : (store.offPath (ref :: path)).card < depth :=
            (offPath_cons_lt onPath known).trans_le (Nat.le_of_lt_succ deep)
          have meets : Meets block.name (ref :: path) (store.search depth)
              (store.blocks block.name (ref :: path)) :=
            ⟨fun block ref named => named ▸ ih deeper block ref, fun _ _ => name_of_mem_blocks⟩
          have inside := meets.nodes (store.get ref).nodes (block, false) rfl
          simp [onPath, inside]
        · simp [onPath, get_nodes_of_le (not_lt.mp known), lastMet]

theorem search_last (store : Store) (block : Block) (ref : Ref) (visiting : List Ref) {depth : Nat}
    (deep : store.size < depth) :
    let met := store.blocks block.name visiting ref
    (store.search depth block ref).run visiting =
        some ((met.getLast?.getD block, !met.isEmpty), visiting) ∧
      ∀ path other, store.blocks block.name path other =
        if other ∈ path then []
        else (store.get other).nodes.flatMap
          (Node.blocks block.name (store.blocks block.name (other :: path))) := by
  refine ⟨?_, store.blocks_eq block.name⟩
  rw [search_eq ((card_offPath_le visiting).trans_lt deep) block ref]
  simp [lastMet]

theorem search_last_again :
    let body (string : String) : Document := ⟨.html, [.text string]⟩
    let block (string : String) : Block := ⟨"b", body string⟩
    let first := [.partialTag "p" ⟨1⟩, .blockTag "b" (body "x"), .partialTag "p" ⟨1⟩]
    let second := [.blockTag "b" (body "y"), .partialTag "q" ⟨0⟩,
      .blockTag "c" ⟨.html, [.blockTag "b" (body "z")]⟩]
    let store : Store := ⟨#[some ⟨.html, first⟩, some ⟨.html, second⟩]⟩
    store.size < 3 ∧
      (store.search 3 (block "own") ⟨0⟩).run [] = some ((block "y", true), []) ∧
      (store.search 3 (block "own") ⟨0⟩).run [⟨1⟩] = some ((block "x", true), [⟨1⟩]) ∧
      (store.search 3 (block "own") ⟨0⟩).run [⟨0⟩] = some ((block "own", false), [⟨0⟩]) := by
  intro body block first second store
  have deep : store.size < 3 := by decide
  have onPath (path : List Ref) {ref : Ref} (member : ref ∈ path) :
      store.blocks "b" path ref = [] := by rw [blocks_eq, if_pos member]
  have below (path : List Ref) (root : ⟨0⟩ ∈ path) (fresh : ⟨1⟩ ∉ path) :
      store.blocks "b" path ⟨1⟩ = [block "y"] := by
    rw [blocks_eq, if_neg fresh]
    simp [store, get, get?, second, Node.blocks, onPath, root, block]
  have all : store.blocks "b" [] ⟨0⟩ = [block "y", block "x", block "y"] := by
    rw [blocks_eq]
    simp [store, get, get?, first, Node.blocks, below, block]
  have without : store.blocks "b" [⟨1⟩] ⟨0⟩ = [block "x"] := by
    rw [blocks_eq]
    simp [store, get, get?, first, Node.blocks, onPath, block]
  obtain ⟨anew, -⟩ := search_last store (block "own") ⟨0⟩ [] deep
  obtain ⟨inside, -⟩ := search_last store (block "own") ⟨0⟩ [⟨1⟩] deep
  obtain ⟨again, -⟩ := search_last store (block "own") ⟨0⟩ [⟨0⟩] deep
  rw [all] at anew
  rw [without] at inside
  rw [onPath _ (by simp)] at again
  exact ⟨deep, anew, inside, again⟩

theorem exists_of_mem_blocks {store : Store} {kind : Document → Prop}
    (hereditary : store.Hereditary kind) {name : String} {path : List Ref} {ref : Ref}
    {block : Block} (root : kind (store.get ref)) (member : block ∈ store.blocks name path ref) :
    ∃ document, kind document ∧ .blockTag block.name block.body ∈ document.nodes := by
  fun_induction store.blocks name path ref with
  | case1 path ref entered ih =>
      obtain ⟨node, here, member⟩ := List.mem_flatMap.mp member
      cases node with
      | blockTag other body =>
          simp only [Node.blocks] at member
          split at member
          · obtain rfl := List.mem_singleton.mp member
            exact ⟨store.get ref, root, here⟩
          · simp at member
      | partialTag _ target => exact ih target (hereditary _ _ root (.partialTag here)) member
      | inheritTag _ parent overriding =>
          rcases List.mem_append.mp member with first | second
          · exact ih parent (hereditary _ _ root (.parent here)) first
          · exact ih overriding (hereditary _ _ root (.overriding here)) second
      | _ => cases member
  | case2 => cases member

def offers (store : Store) (name : String) (frame : Frame) : List Block :=
  store.blocks name [] frame.parent ++ store.blocks name [] frame.overriding

theorem name_of_mem_offers {store : Store} {name : String} {frame : Frame} {block : Block}
    (member : block ∈ store.offers name frame) : block.name = name := by
  rcases List.mem_append.mp member with parent | overriding
  · exact name_of_mem_blocks parent
  · exact name_of_mem_blocks overriding

theorem offer?_eq (store : Store) (block : Block) (frame : Frame) :
    store.offer? block frame = (store.offers block.name frame).getLast? := by
  -- A search this deep ends, and of the block that it starts from only the name counts.
  have deep : (store.offPath []).card < store.size + 1 := Nat.lt_succ_of_le (card_offPath_le [])
  have meets : Meets block.name [] (store.search (store.size + 1)) (store.blocks block.name []) :=
    ⟨fun block ref named => named ▸ search_eq deep block ref, fun _ _ => name_of_mem_blocks⟩
  rw [offer?, meets.frame frame block rfl, ← offers]
  cases last : (store.offers block.name frame).getLast? with
  | none => simp [lastMet, List.getLast?_eq_none_iff.mp last]
  | some offered =>
      have filled : (store.offers block.name frame).isEmpty = false :=
        List.isEmpty_eq_false_iff_exists_mem.mpr ⟨offered, List.mem_of_getLast? last⟩
      simp [lastMet, last, filled]

theorem name_of_offer? {store : Store} {block offered : Block} {frame : Frame}
    (offers : store.offer? block frame = some offered) : offered.name = block.name := by
  rw [offer?_eq] at offers
  exact name_of_mem_offers (List.mem_of_getLast? offers)

end Store

end Stencil
