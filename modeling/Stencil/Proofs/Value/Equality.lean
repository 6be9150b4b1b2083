import Stencil.Stock

namespace Stencil

theorem Double.same_trans {x y z : Double} (first : x.same y = true) (second : y.same z = true) :
    x.same z = true := by
  simp only [same, Bool.and_eq_true, Bool.not_eq_true', Bool.or_eq_true, beq_iff_eq] at first second ⊢
  obtain ⟨⟨number, -⟩, alike⟩ := first
  obtain ⟨⟨-, number'⟩, alike'⟩ := second
  refine ⟨⟨number, number'⟩, ?_⟩
  rcases alike with ⟨zero, zero'⟩ | rfl
  · rcases alike' with ⟨-, zero''⟩ | rfl
    · exact .inl ⟨zero, zero''⟩
    · exact .inl ⟨zero, zero'⟩
  · exact alike'

namespace Value

variable {κ : Type}

/-- A NaN stands in the value, at any depth, but not in a custom value. -/
inductive HoldsNaN : Value κ → Prop
  | float {x : Double} : x.isNaN = true → HoldsNaN (.float x)
  | list {items : List (Value κ)} {item : Value κ} : item ∈ items → HoldsNaN item →
      HoldsNaN (.list items)
  | map {entries : Dictionary (Value κ)} {entry : String × Value κ} : entry ∈ entries.toList →
      HoldsNaN entry.2 → HoldsNaN (.map entries)

mutual

theorem same_comm : (a b : Value κ) → same a b = same b a
  | .bool a, b => by cases b <;> simp [same, Bool.beq_comm]
  | .int a, b => by cases b <;> simp [same, Bool.beq_comm]
  | .float a, b => by cases b <;> simp [same, Double.same_comm]
  | .text a, b => by cases b <;> simp [same, Bool.beq_comm]
  | .list as, b => by
    cases b with
    | list bs => exact sameItems_comm as bs
    | _ => rfl
  | .map as, b => by
    cases b with
    | map bs => exact sameEntries_comm as bs
    | _ => rfl
  | .custom _ _ _, b => by cases b <;> simp [same, Bool.beq_comm]
  | .null, b => by cases b <;> rfl

theorem sameItems_comm : (as bs : List (Value κ)) → sameItems as bs = sameItems bs as
  | [], bs => by cases bs <;> rfl
  | a :: as, [] => rfl
  | a :: as, b :: bs => by rw [sameItems, sameItems, same_comm a b, sameItems_comm as bs]

theorem sameEntries_comm {bound bound' : Option String} : (as : Entries (Value κ) bound) →
    (bs : Entries (Value κ) bound') → sameEntries as bs = sameEntries bs as
  | .nil, bs => by cases bs <;> rfl
  | .cons _ _ _ _, .nil => rfl
  | .cons _ a _ as, .cons _ b _ bs => by
    rw [sameEntries, sameEntries, Bool.beq_comm, same_comm a b, sameEntries_comm as bs]

end

mutual

theorem same_trans : {a b c : Value κ} → same a b = true → same b c = true → same a c = true
  | .null, b, c, first, second => by
    obtain rfl : b = .null := by cases b <;> simp_all [same]
    exact second
  | .bool a, b, c, first, second => by
    obtain rfl : b = .bool a := by cases b <;> simp_all [same]
    exact second
  | .int a, b, c, first, second => by
    obtain rfl : b = .int a := by cases b <;> simp_all [same]
    exact second
  | .text a, b, c, first, second => by
    obtain rfl : b = .text a := by cases b <;> simp_all [same]
    exact second
  | .custom _ _ _, b, c, first, second => by
    cases b <;> cases c <;> simp only [same, Bool.false_eq_true, beq_iff_eq] at first second ⊢
    exact first.trans second
  | .float x, b, c, first, second => by
    cases b <;> cases c <;> simp only [same, Bool.false_eq_true] at first second
    exact Double.same_trans first second
  | .list as, b, c, first, second => by
    cases b <;> cases c <;> simp only [same, Bool.false_eq_true] at first second
    exact sameItems_trans first second
  | .map as, b, c, first, second => by
    cases b <;> cases c <;> simp only [same, Bool.false_eq_true] at first second
    exact sameEntries_trans first second

theorem sameItems_trans : {as bs cs : List (Value κ)} → sameItems as bs = true →
    sameItems bs cs = true → sameItems as cs = true
  | [], bs, cs, first, second => by
    cases bs <;> cases first
    exact second
  | a :: as, bs, cs, first, second => by
    cases bs with
    | nil => cases first
    | cons b bs =>
      cases cs with
      | nil => cases second
      | cons c cs =>
        simp only [sameItems, Bool.and_eq_true] at first second ⊢
        exact ⟨same_trans first.1 second.1, sameItems_trans first.2 second.2⟩

theorem sameEntries_trans {bound bound' bound'' : Option String} : {as : Entries (Value κ) bound} →
    {bs : Entries (Value κ) bound'} → {cs : Entries (Value κ) bound''} →
    sameEntries as bs = true → sameEntries bs cs = true → sameEntries as cs = true
  | .nil, bs, cs, first, second => by
    cases bs with
    | nil => cases cs <;> first | rfl | cases second
    | cons => cases first
  | .cons _ a _ as, bs, cs, first, second => by
    cases bs with
    | nil => cases first
    | cons _ b _ bs =>
      cases cs with
      | nil => cases second
      | cons _ c _ cs =>
        simp only [sameEntries, Bool.and_eq_true, beq_iff_eq] at first second ⊢
        exact ⟨⟨first.1.1.trans second.1.1, same_trans first.1.2 second.1.2⟩,
          sameEntries_trans first.2 second.2⟩

end

mutual

theorem same_self_iff : (a : Value κ) → (same a a = true ↔ ¬ a.HoldsNaN)
  | .float x => by
    rw [same, Double.same_self]
    constructor
    · rintro number ⟨holds⟩
      simp [holds] at number
    · intro none
      simpa using fun holds => none (.float holds)
  | .list items => by
    rw [same, sameItems_self_iff items]
    constructor
    · rintro all (_ | ⟨member, holds⟩)
      exact all _ member holds
    · exact fun none item member holds => none (.list member holds)
  | .map entries => by
    rw [same, sameEntries_self_iff entries]
    constructor
    · rintro all (_ | _ | ⟨member, holds⟩)
      exact all _ member holds
    · exact fun none entry member holds => none (.map member holds)
  | .null => by simpa [same] using nofun
  | .bool _ => by simpa [same] using nofun
  | .int _ => by simpa [same] using nofun
  | .text _ => by simpa [same] using nofun
  | .custom _ _ _ => by simpa [same] using nofun

theorem sameItems_self_iff : (items : List (Value κ)) →
    (sameItems items items = true ↔ ∀ item ∈ items, ¬ item.HoldsNaN)
  | [] => by simp [sameItems]
  | item :: items => by
    rw [sameItems, Bool.and_eq_true, same_self_iff item, sameItems_self_iff items,
      List.forall_mem_cons]

theorem sameEntries_self_iff {bound : Option String} : (entries : Entries (Value κ) bound) →
    (sameEntries entries entries = true ↔ ∀ entry ∈ entries.toList, ¬ entry.2.HoldsNaN)
  | .nil => by simp [sameEntries, Entries.toList]
  | .cons _ value _ entries => by
    rw [sameEntries, Bool.and_eq_true, beq_self_eq_true, Bool.true_and, same_self_iff value,
      sameEntries_self_iff entries, Entries.toList, List.forall_mem_cons]

end

theorem same_partialEquivalence (a b c : Value κ) :
    a.same b = b.same a ∧ (a.same b = true → b.same c = true → a.same c = true) ∧
      (a.same a = true ↔ ¬ a.HoldsNaN) :=
  ⟨same_comm a b, same_trans, same_self_iff a⟩

theorem same_partialEquivalence_zeros :
    let nan : Double := ⟨0x7ff8000000000000⟩
    let wrapper (inner : Value Stock) : Value Stock := .custom 3 (some inner) {}
    let value (zero : Double) (inner : Value Stock) : Value Stock :=
      .list [.ofPairs [("k", .float zero)], wrapper inner]
    let positive := value ⟨0⟩ (.float nan)
    let negative := value ⟨0x8000000000000000⟩ (.float nan)
    positive.same negative = true ∧ negative.same positive = true ∧
      positive.same positive = true ∧ (Value.list [positive, .float nan]).same
        (.list [positive, .float nan]) = false := by
  intro nan wrapper value positive negative
  have alike : positive.same negative = true := by rfl
  obtain ⟨comm, trans, -⟩ := same_partialEquivalence positive negative positive
  have back : negative.same positive = true := comm ▸ alike
  refine ⟨alike, back, trans alike back, ?_⟩
  have holds : (Value.list [positive, .float nan]).HoldsNaN :=
    .list (List.mem_cons_of_mem _ (List.mem_singleton_self _)) (.float (by decide))
  obtain ⟨-, -, self⟩ := same_partialEquivalence (.list [positive, .float nan]) .null .null
  exact Bool.eq_false_iff.mpr fun same => self.mp same holds

end Value

end Stencil
