import Mathlib
import Stencil.Path

/-!
# Resolution of paths

A template's name is resolved component by component. What is found is said here of whole paths: the
name is put behind the directory of its base and gets an extension (`Path.located`), and then every
pair of dots cancels the name before it (`Path.Cancels`). A path that at some point has led further
up than down leaves the root (`Path.Escapes`), wherever it leads to in the end (`Path.resolve_located`).
-/

namespace Stencil.Path

/-! ## Paths as texts -/

def idle (part : List Char) : Bool :=
  part.isEmpty || part == ['.']

def through (parts : List (List Char)) : List Char :=
  parts.flatMap (· ++ ['/'])

def cut? (path : List Char) : Option (List Char × List Char) :=
  match (split path).reverse.dropWhile idle with
  | [] => none
  | last :: before => some (through before.reverse, last)

def directory (path : List Char) : List Char :=
  match cut? path with
  | some (front, _) => front
  | none => []

def joined (name : List Char) (base : Option (List Char)) : List Char :=
  match name with
  | '/' :: name => name
  | name => directory (base.getD []) ++ name

def extended (extension path : List Char) : List Char :=
  match cut? path with
  | none => path
  | some (front, last) =>
    if last = parentDots ∨ (extension? last).isSome ∨ extension = [] then path
    else front ++ last ++ '.' :: extension

def located (name : String) (base : Option String) (extension : String) : List Char :=
  extended extension.toList (joined name.toList (base.map String.toList))

/-! ## Parts of a path -/

variable {path part : List Char}

theorem split_eq_splitOn (path : List Char) : split path = path.splitOn '/' := by
  induction path with
  | nil => rfl
  | cons c path ih =>
      rw [List.splitOn_cons_eq_if_modifyHead, ← ih, split, List.foldr_cons, ← split]
      by_cases slash : c = '/'
      · simp [slash]
      · simp only [slash, if_false, beq_iff_eq]
        cases parts : split path with
        | nil => exact absurd (ih.symm.trans parts) (List.splitOn_ne_nil _ _)
        | cons part parts => rfl

theorem split_ne_nil (path : List Char) : split path ≠ [] := by
  rw [split_eq_splitOn]
  exact List.splitOn_ne_nil _ _

theorem split_of_not_mem (one : '/' ∉ part) : split part = [part] := by
  rw [split_eq_splitOn]
  exact List.splitOn_eq_singleton one

theorem split_append (before after : List Char) :
    split (before ++ '/' :: after) = split before ++ split after := by
  simp only [split_eq_splitOn, List.splitOn_append_cons_self]

theorem not_mem_of_mem_split (member : part ∈ split path) : '/' ∉ part := by
  rw [split_eq_splitOn] at member
  induction path generalizing part with
  | nil => simp_all
  | cons c path ih =>
      rw [List.splitOn_cons_eq_if_modifyHead] at member
      by_cases slash : c = '/'
      · simp only [slash, beq_self_eq_true, if_true, List.mem_cons] at member
        rcases member with rfl | member
        · simp
        · exact ih member
      · simp only [slash, if_false, beq_iff_eq] at member
        cases parts : path.splitOn '/' with
        | nil => exact absurd parts (List.splitOn_ne_nil _ _)
        | cons first parts' =>
            rw [parts] at ih member
            rcases List.mem_cons.mp member with rfl | member
            · have clear := ih List.mem_cons_self
              simpa [Ne.symm slash] using clear
            · exact ih (List.mem_cons_of_mem _ member)

theorem isAbsolute_iff : isAbsolute path = true ↔ ∃ parts, parts ≠ [] ∧ split path = [] :: parts := by
  cases path with
  | nil => simp [isAbsolute, split]
  | cons c path =>
      rw [split_eq_splitOn, List.splitOn_cons_eq_if_modifyHead]
      by_cases slash : c = '/'
      · simp [isAbsolute, slash, List.splitOn_ne_nil]
      · cases parts : path.splitOn '/' with
        | nil => exact absurd parts (List.splitOn_ne_nil _ _)
        | cons first parts => simp [isAbsolute, slash]

theorem components_eq (path : List Char) : components path = (split path).filter (!idle ·) := by
  simp only [components, idle, Bool.not_or, bne]

theorem split_through {parts : List (List Char)} (apart : ∀ part ∈ parts, '/' ∉ part)
    (path : List Char) : split (through parts ++ path) = parts ++ split path := by
  induction parts with
  | nil => rfl
  | cons part parts ih =>
      obtain ⟨here, apart⟩ := List.forall_mem_cons.mp apart
      have longer : through (part :: parts) ++ path = part ++ '/' :: (through parts ++ path) := by
        simp [through]
      rw [longer, split_append, split_of_not_mem here, ih apart]
      rfl

/-- The parts of a path: those in front of its last component, this component, and idle ones. -/
structure Cut (path : List Char) (before : List (List Char)) (last : List Char)
    (after : List (List Char)) : Prop where
  split : split path = before ++ last :: after
  last : idle last = false
  after : ∀ part ∈ after, idle part = true

theorem cut?_cases (path : List Char) :
    (cut? path = none ∧ components path = []) ∨
      ∃ before last after, Cut path before last after ∧
        cut? path = some (through before, last) := by
  have parts := List.takeWhile_append_dropWhile (p := idle) (l := (split path).reverse)
  have passed (part : List Char) (member : part ∈ (split path).reverse.takeWhile idle) :
      idle part = true :=
    List.mem_takeWhile_imp member
  cases found : (split path).reverse.dropWhile idle with
  | nil =>
      left
      rw [found, List.append_nil] at parts
      refine ⟨by rw [cut?, found], ?_⟩
      rw [components_eq, List.filter_eq_nil_iff]
      intro part member
      rw [parts] at passed
      simpa using passed part (by simpa using member)
  | cons last before =>
      right
      refine ⟨before.reverse, last, ((split path).reverse.takeWhile idle).reverse, ?_, ?_⟩
      · refine ⟨?_, ?_, fun part member => passed part (by simpa using member)⟩
        · rw [found] at parts
          have whole := congrArg List.reverse parts
          simpa using whole.symm
        · have head := List.head?_dropWhile_not idle (split path).reverse
          rw [found] at head
          simpa using head
      · rw [cut?, found]

namespace Cut

variable {before after : List (List Char)} {last : List Char}

theorem apart (cut : Cut path before last after) : ∀ part ∈ before, '/' ∉ part := by
  intro part member
  have within : part ∈ Path.split path := by simp [cut.split, member]
  exact not_mem_of_mem_split within

theorem components_eq (cut : Cut path before last after) :
    components path = before.filter (!idle ·) ++ [last] := by
  have none_after : after.filter (!idle ·) = [] := by
    rw [List.filter_eq_nil_iff]
    intro part member
    simp [cut.after part member]
  rw [Path.components_eq, cut.split, List.filter_append, List.filter_cons, none_after]
  simp [cut.last]

theorem components_through (cut : Cut path before last after) (rest : List Char) :
    components (through before ++ rest) = before.filter (!idle ·) ++ components rest := by
  rw [Path.components_eq, Path.components_eq, split_through cut.apart, List.filter_append]

theorem isAbsolute_through (cut : Cut path before last after) {rest : List Char}
    (relative : isAbsolute rest = false) :
    isAbsolute (through before ++ rest) = isAbsolute path := by
  have filled : last ≠ [] := by
    rintro rfl
    simpa [idle] using cut.last
  rw [Bool.eq_iff_iff, isAbsolute_iff, isAbsolute_iff, split_through cut.apart, cut.split]
  cases before with
  | nil =>
      have other : ¬ ∃ parts, parts ≠ [] ∧ Path.split rest = [] :: parts := by
        rw [← isAbsolute_iff, relative]
        exact Bool.false_ne_true
      simpa [filled] using other
  | cons first before => simp [split_ne_nil]

theorem relative (cut : Cut path before last after) (rest : List Char) :
    isAbsolute (last ++ rest) = false := by
  have within : last ∈ Path.split path := by simp [cut.split]
  have clear := not_mem_of_mem_split within
  cases last with
  | nil => simpa [idle] using cut.last
  | cons c last => simpa [isAbsolute] using (List.ne_of_not_mem_cons clear).symm

end Cut

/-! ## Where a path is located -/

theorem place?_relative {name : List Char} (relative : isAbsolute name = false)
    (base : List Char) :
    (if isAbsolute base ∧ !(components base).isEmpty then none
      else some ((components base).dropLast ++ components name)) =
      if isAbsolute (directory base ++ name) then none
      else some (components (directory base ++ name)) := by
  rcases cut?_cases base with ⟨none_left, empty⟩ | ⟨before, last, after, cut, found⟩
  · simp [directory, none_left, empty, relative]
  · have absolute := cut.isAbsolute_through relative
    have behind := cut.components_through name
    simp only [directory, found, absolute, behind, cut.components_eq, List.dropLast_concat]
    simp

theorem place?_eq (name : List Char) (base : Option (List Char)) :
    place? name base =
      if isAbsolute (joined name base) then none else some (components (joined name base)) := by
  by_cases slashed : ∃ rest, name = '/' :: rest
  · obtain ⟨rest, rfl⟩ := slashed
    rfl
  · have other (rest : List Char) : name ≠ '/' :: rest := fun same => slashed ⟨rest, same⟩
    have relative : isAbsolute name = false := by
      cases name with
      | nil => rfl
      | cons c name => simpa [isAbsolute] using fun slash : c = '/' => other name (by rw [slash])
    have joined_eq : joined name base = directory (base.getD []) ++ name := by
      unfold joined
      split
      · exact absurd rfl (other _)
      · rfl
    rw [joined_eq, ← place?_relative relative]
    unfold place?
    split
    · exact absurd rfl (other _)
    · rfl

theorem isAbsolute_extended (extension path : List Char) :
    isAbsolute (extended extension path) = isAbsolute path := by
  rcases cut?_cases path with ⟨none_left, -⟩ | ⟨before, last, after, cut, found⟩
  · simp only [extended, none_left]
  · simp only [extended, found]
    split
    · rfl
    · rw [List.append_assoc]
      exact cut.isAbsolute_through (cut.relative _)

theorem components_extended (extension path : List Char) :
    components (extended extension path) = extend extension (components path) := by
  rcases cut?_cases path with ⟨none_left, empty⟩ | ⟨before, last, after, cut, found⟩
  · simp [extended, none_left, extend, empty]
  · simp only [extended, found, extend, cut.components_eq, List.getLast?_concat,
      List.dropLast_concat, List.isEmpty_iff]
    split
    · exact cut.components_eq
    · rw [List.append_assoc]
      exact cut.components_through _

def join? : Option (List (List Char)) → Option String
  | none => none
  | some [] => none
  | some left => some (String.ofList (['/'].intercalate left.reverse))

theorem resolve_eq (name : String) (base : Option String) (extension : String) :
    let path := located name base extension
    resolve name base extension =
      if isAbsolute path then none else join? (descend [] (components path)) := by
  intro path
  have absolute := isAbsolute_extended extension.toList (joined name.toList (base.map String.toList))
  have parts := components_extended extension.toList (joined name.toList (base.map String.toList))
  rw [resolve, place?_eq]
  simp only [path, located, absolute, parts]
  split
  · rfl
  · simp only [Option.bind_eq_bind, Option.bind_some]
    rcases descend [] _ with _ | _ | ⟨last, left⟩
    · rfl
    · rfl
    · rfl

/-! ## What is left of the components -/

def Escapes (parts : List (List Char)) : Prop :=
  ∃ earlier, earlier <+: parts ∧ earlier.countP (· ≠ parentDots) < earlier.count parentDots

/-- What is left of some components once every pair of dots has cancelled the name before it. -/
inductive Cancels : List (List Char) → List (List Char) → Prop
  | done {parts : List (List Char)} : parentDots ∉ parts → Cancels parts parts
  | cancel {before after left : List (List Char)} {part : List Char} : part ≠ parentDots →
      Cancels (before ++ after) left → Cancels (before ++ part :: parentDots :: after) left

variable {above stack parts left : List (List Char)}

theorem descend_up : descend [] (parentDots :: parts) = none := rfl

theorem descend_back (part : List Char) (above parts : List (List Char)) :
    descend (part :: above) (parentDots :: parts) = descend above parts := rfl

theorem descend_down {part : List Char} (name : part ≠ parentDots)
    (above parts : List (List Char)) :
    descend above (part :: parts) = descend (part :: above) parts := by
  simp [descend, name]

theorem descend_names (names : parentDots ∉ parts) (above : List (List Char)) :
    descend above parts = some (parts.reverse ++ above) := by
  induction parts generalizing above with
  | nil => rfl
  | cons part parts ih =>
      obtain ⟨name, names⟩ := List.ne_and_not_mem_of_not_mem_cons names
      rw [descend_down name.symm, ih names]
      simp

theorem descend_append (above before after : List (List Char)) :
    descend above (before ++ after) = (descend above before).bind fun above => descend above after := by
  simp only [descend, List.foldlM_append]
  rfl

theorem cancels_of_descend (names : parentDots ∉ above)
    (found : descend above parts = some stack) : Cancels (above.reverse ++ parts) stack.reverse := by
  induction parts generalizing above with
  | nil =>
      cases found
      rw [List.append_nil]
      exact .done (by simpa using names)
  | cons part parts ih =>
      by_cases up : part = parentDots
      · subst up
        cases above with
        | nil =>
            rw [descend_up] at found
            cases found
        | cons top above =>
            obtain ⟨name, names⟩ := List.ne_and_not_mem_of_not_mem_cons names
            rw [descend_back] at found
            have shorter := Cancels.cancel name.symm (ih names found)
            simpa using shorter
      · rw [descend_down up] at found
        have same := ih (List.not_mem_cons_of_ne_of_not_mem (Ne.symm up) names) found
        simpa using same

theorem Cancels.descend_eq (cancels : Cancels parts left) : descend [] parts = some left.reverse := by
  induction cancels with
  | done names => rw [descend_names names, List.append_nil]
  | @cancel before after left part name _ ih =>
      rw [descend_append] at ih ⊢
      simpa only [descend_down name, descend_back] using ih

theorem descend_eq_some_iff : descend [] parts = some stack ↔ Cancels parts stack.reverse :=
  ⟨fun found => cancels_of_descend List.not_mem_nil found,
    fun cancels => by rw [cancels.descend_eq, List.reverse_reverse]⟩

theorem exists_prefix_cons {P : List (List Char) → Prop} {part : List Char} :
    (∃ earlier, earlier <+: part :: parts ∧ P earlier) ↔
      P [] ∨ ∃ earlier, earlier <+: parts ∧ P (part :: earlier) := by
  constructor
  · rintro ⟨earlier, first, holds⟩
    rcases List.prefix_cons_iff.mp first with rfl | ⟨rest, rfl, shorter⟩
    · exact .inl holds
    · exact .inr ⟨rest, shorter, holds⟩
  · rintro (holds | ⟨rest, first, holds⟩)
    · exact ⟨[], List.nil_prefix, holds⟩
    · exact ⟨part :: rest, List.cons_prefix_cons.mpr ⟨rfl, first⟩, holds⟩

theorem descend_eq_none_iff_above : descend above parts = none ↔
    ∃ earlier, earlier <+: parts ∧
      above.length + earlier.countP (· ≠ parentDots) < earlier.count parentDots := by
  induction parts generalizing above with
  | nil => simp [descend]
  | cons part parts ih =>
      rw [exists_prefix_cons]
      by_cases up : part = parentDots
      · subst up
        cases above with
        | nil =>
            refine iff_of_true descend_up (.inr ⟨[], List.nil_prefix, ?_⟩)
            simp
        | cons top above =>
            rw [descend_back, ih]
            simp only [List.length_cons, List.countP_nil, List.count_nil, Nat.not_lt_zero, false_or,
              List.countP_cons, List.count_cons_self]
            simp only [ne_eq, not_true, decide_false, Bool.false_eq_true, if_false, Nat.add_zero,
              Nat.add_right_comm _ 1, Nat.add_lt_add_iff_right]
      · rw [descend_down up, ih]
        simp [List.count_cons_of_ne up, up, Nat.add_assoc, Nat.add_comm 1]

theorem descend_eq_none_iff : descend [] parts = none ↔ Escapes parts := by
  have fromRoot := @descend_eq_none_iff_above [] parts
  simpa [Escapes] using fromRoot

theorem Cancels.names (cancels : Cancels parts left) : parentDots ∉ left := by
  induction cancels with
  | done names => exact names
  | cancel _ _ ih => exact ih

theorem Cancels.subset (cancels : Cancels parts left) : left ⊆ parts := by
  induction cancels with
  | done => exact List.Subset.refl _
  | @cancel before after left part _ _ ih =>
      intro other member
      have kept := ih member
      simp only [List.mem_append, List.mem_cons] at kept ⊢
      tauto

/-! ## Identifiers -/

theorem join?_eq_none_iff {found : Option (List (List Char))} :
    join? found = none ↔ found = none ∨ found = some [] := by
  unfold join?
  split <;> simp_all

theorem join?_eq_some_iff {found : Option (List (List Char))} {id : String} :
    join? found = some id ↔
      ∃ left, left ≠ [] ∧ found = some left.reverse ∧ id = String.ofList (['/'].intercalate left) := by
  constructor
  · intro joined
    unfold join? at joined
    split at joined
    · cases joined
    · cases joined
    · rename_i left filled
      cases joined
      exact ⟨left.reverse, by simpa using filled, by rw [List.reverse_reverse], rfl⟩
  · rintro ⟨left, filled, rfl, rfl⟩
    cases reversed : left.reverse with
    | nil => exact absurd (List.reverse_eq_nil_iff.mp reversed) filled
    | cons last before =>
        rw [join?, ← reversed, List.reverse_reverse]
        exact nofun

theorem Cancels.mem_split {left : List (List Char)} (cancels : Cancels (components path) left)
    (member : part ∈ left) : part ∈ split path ∧ idle part = false := by
  have component := cancels.subset member
  rw [components_eq, List.mem_filter] at component
  simpa using component

theorem Cancels.split_join {left : List (List Char)} (cancels : Cancels (components path) left)
    (filled : left ≠ []) : split (['/'].intercalate left) = left := by
  rw [split_eq_splitOn]
  exact List.splitOn_intercalate '/'
    (fun part member => not_mem_of_mem_split (cancels.mem_split member).1) filled

/-- A path below the root, without detours. -/
structure Direct (path : List Char) : Prop where
  filled : path ≠ []
  relative : isAbsolute path = false
  proper : ∀ part ∈ split path, part ≠ [] ∧ part ≠ ['.'] ∧ part ≠ parentDots

theorem Cancels.direct {left : List (List Char)} (cancels : Cancels (components path) left)
    (filled : left ≠ []) : Direct (['/'].intercalate left) := by
  have parts := cancels.split_join filled
  have proper : ∀ part ∈ left, part ≠ [] ∧ part ≠ ['.'] ∧ part ≠ parentDots := by
    intro part member
    have busy := (cancels.mem_split member).2
    simp only [idle, Bool.or_eq_false_iff, List.isEmpty_eq_false_iff, beq_eq_false_iff_ne] at busy
    refine ⟨busy.1, busy.2, ?_⟩
    rintro rfl
    exact cancels.names member
  -- An empty path has an empty part, and so has one with a slash in front.
  have start (rest : List (List Char)) : split (['/'].intercalate left) ≠ [] :: rest := by
    rw [parts]
    rintro rfl
    exact (proper [] List.mem_cons_self).1 rfl
  refine ⟨fun empty => start [] (by rw [empty]; rfl), ?_, by rwa [parts]⟩
  rw [Bool.eq_false_iff]
  intro absolute
  obtain ⟨rest, -, whole⟩ := isAbsolute_iff.mp absolute
  exact start rest whole

theorem resolve_eq_some_iff (name : String) (base : Option String) (extension id : String) :
    let path := located name base extension
    resolve name base extension = some id ↔
      isAbsolute path = false ∧ ∃ left, left ≠ [] ∧ Cancels (components path) left ∧
        id = String.ofList (['/'].intercalate left) := by
  intro path
  rw [resolve_eq]
  cases isAbsolute path with
  | true => simp
  | false => simp [path, join?_eq_some_iff, descend_eq_some_iff]

theorem resolve_eq_none_iff (name : String) (base : Option String) (extension : String) :
    let path := located name base extension
    resolve name base extension = none ↔
      isAbsolute path = true ∨ Escapes (components path) ∨ Cancels (components path) [] := by
  intro path
  rw [resolve_eq]
  cases isAbsolute path with
  | true => simp
  | false => simp [path, join?_eq_none_iff, descend_eq_none_iff, descend_eq_some_iff]

theorem resolve_located (name : String) (base : Option String) (extension : String) :
    let path := located name base extension
    (resolve name base extension = none ↔
      isAbsolute path = true ∨ Escapes (components path) ∨ Cancels (components path) []) ∧
    (∀ id, resolve name base extension = some id ↔
      isAbsolute path = false ∧ ∃ left, left ≠ [] ∧ Cancels (components path) left ∧
        id = String.ofList (['/'].intercalate left)) ∧
    ∀ id, resolve name base extension = some id → Direct id.toList := by
  refine ⟨resolve_eq_none_iff name base extension, resolve_eq_some_iff name base extension,
    fun id found => ?_⟩
  obtain ⟨-, left, filled, cancels, rfl⟩ := (resolve_eq_some_iff name base extension id).mp found
  rw [String.toList_ofList]
  exact cancels.direct filled

theorem resolve_located_dots :
    let path := located "../.././x/..//.b" (some "a/./b//c.d") "m.n"
    (∃ left, left ≠ [] ∧ Cancels (components path) left ∧
      ".b.m.n" = String.ofList (['/'].intercalate left)) ∧
    resolve "../../a/x" (some "a/b") "" = none ∧ resolve "//x" none "" = none := by
  intro path
  have found : resolve "../.././x/..//.b" (some "a/./b//c.d") "m.n" = some ".b.m.n" := by
    decide +kernel
  refine ⟨(((resolve_located _ _ _).2.1 _).mp found).2, ?_, ?_⟩
  · refine (resolve_located _ _ _).1.mpr (.inr (.inl ⟨["a".toList, parentDots, parentDots], ?_, ?_⟩))
    · decide +kernel
    · decide +kernel
  · exact (resolve_located _ _ _).1.mpr (.inl (by decide +kernel))

end Stencil.Path
