namespace Stencil

/-- Pairs of keys and values, each key above the one before, and the first above a given key if there
is one. Keys are ordered by their code points. -/
inductive Entries (α : Type) : Option String → Type where
  | nil {bound : Option String} : Entries α bound
  | cons {bound : Option String} (key : String) (value : α) (above : ∀ k ∈ bound, k < key)
      (rest : Entries α (some key)) : Entries α bound

abbrev Dictionary (α : Type) :=
  Entries α none

namespace Entries

variable {α : Type} {bound : Option String}

def toList {bound : Option String} : Entries α bound → List (String × α)
  | .nil => []
  | .cons key value _ rest => (key, value) :: rest.toList

instance : CoeOut (Entries α bound) (List (String × α)) := ⟨toList⟩

theorem lt_of_not_lt {key k : String} (before : ¬ key < k) (apart : key ≠ k) : k < key :=
  Std.lt_of_le_of_ne (String.not_lt.mp before) apart.symm

def insert {bound : Option String} (key : String) (value : α) (above : ∀ k ∈ bound, k < key) :
    Entries α bound → Entries α bound
  | .nil => .cons key value above .nil
  | .cons k v above' rest =>
    if before : key < k then .cons key value above (.cons k v (by simpa using before) rest)
    else if same : key = k then .cons k value above' rest
    else .cons k v above' (rest.insert key value (by simpa using lt_of_not_lt before same))

theorem forall_above {entries : Entries α bound} {k : String} (known : k ∈ bound) :
    ∀ entry ∈ entries.toList, k < entry.1 := by
  induction entries generalizing k with
  | nil => simp [toList]
  | cons key value above rest ih =>
      intro entry member
      rcases List.mem_cons.mp member with rfl | later
      · exact above k known
      · exact Std.lt_trans (above k known) (ih rfl entry later)

theorem ascending (entries : Entries α bound) :
    (entries.toList.map Prod.fst).Pairwise (· < ·) := by
  induction entries with
  | nil => exact .nil
  | cons key value above rest ih =>
      refine .cons (fun other member => ?_) ih
      obtain ⟨entry, inside, rfl⟩ := List.mem_map.mp member
      exact forall_above rfl entry inside

theorem lookup_cons (key other : String) (value : α) (entries : List (String × α)) :
    ((key, value) :: entries).lookup other =
      if other = key then some value else entries.lookup other := by
  by_cases same : other = key
  · simp [same]
  · simp [List.lookup_cons, same, beq_false_of_ne same]

theorem lookup_insert {key : String} (other : String) (value : α) (above : ∀ k ∈ bound, k < key)
    (entries : Entries α bound) :
    (entries.insert key value above).toList.lookup other =
      if other = key then some value else entries.toList.lookup other := by
  induction entries with
  | nil => simp [insert, toList, lookup_cons]
  | cons k v above' rest ih =>
      simp only [insert]
      split
      · simp [toList, lookup_cons]
      · split
        · rename_i same
          subst same
          by_cases h : other = key <;> simp [toList, lookup_cons, h]
        · rename_i apart
          simp only [toList, lookup_cons, ih]
          by_cases h : other = k
          · subst h
            simp [Ne.symm apart]
          · simp [h]

theorem forall_mem_insert {P : String × α → Prop} {key : String} {value : α}
    {above : ∀ k ∈ bound, k < key} {entries : Entries α bound} (new : P (key, value))
    (old : ∀ entry ∈ entries.toList, P entry) :
    ∀ entry ∈ (entries.insert key value above).toList, P entry := by
  induction entries with
  | nil => simpa [insert, toList] using new
  | cons k v above' rest ih =>
      obtain ⟨here, later⟩ := List.forall_mem_cons.mp old
      simp only [insert]
      split
      · exact List.forall_mem_cons.mpr ⟨new, old⟩
      · split
        · rename_i same
          subst same
          exact List.forall_mem_cons.mpr ⟨new, later⟩
        · exact List.forall_mem_cons.mpr ⟨here, ih later⟩

end Entries

namespace Dictionary

variable {α : Type}

def ofPairs (pairs : List (String × α)) : Dictionary α :=
  pairs.foldl (fun entries (key, value) => entries.insert key value nofun) .nil

theorem forall_mem_ofPairs {P : String × α → Prop} {pairs : List (String × α)}
    (all : ∀ pair ∈ pairs, P pair) : ∀ entry ∈ (ofPairs pairs).toList, P entry := by
  have folded (entries : Dictionary α) (old : ∀ entry ∈ entries.toList, P entry) :
      ∀ entry ∈ (pairs.foldl (fun entries pair => entries.insert pair.1 pair.2 nofun)
        entries).toList, P entry := by
    induction pairs generalizing entries with
    | nil => exact old
    | cons pair pairs ih =>
        obtain ⟨here, rest⟩ := List.forall_mem_cons.mp all
        exact ih rest _ (Entries.forall_mem_insert here old)
  exact folded .nil (by simp [Entries.toList])

end Dictionary

end Stencil
