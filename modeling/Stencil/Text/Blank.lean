namespace Stencil.Text

/-- The characters of the Unicode property `White_Space`. -/
def isBlank (c : Char) : Bool :=
  (9 ≤ c.val && c.val ≤ 13) || c.val == 0x20 || c.val == 0x85 || c.val == 0xA0 ||
    c.val == 0x1680 || (0x2000 ≤ c.val && c.val ≤ 0x200A) || c.val == 0x2028 ||
    c.val == 0x2029 || c.val == 0x202F || c.val == 0x205F || c.val == 0x3000

def trimChars (cs : List Char) : List Char :=
  ((cs.dropWhile isBlank).reverse.dropWhile isBlank).reverse

def trim (s : String) : String :=
  String.ofList (trimChars s.toList)

def splitWords : List Char → List Char × List (List Char)
  | [] => ([], [])
  | c :: cs =>
    let (word, rest) := splitWords cs
    if isBlank c then ([], if word.isEmpty then rest else word :: rest)
    else (c :: word, rest)

def words (cs : List Char) : List (List Char) :=
  match splitWords cs with
  | ([], rest) => rest
  | (word, rest) => word :: rest

theorem splitWords_flatten (cs : List Char) :
    (splitWords cs).1 ++ (splitWords cs).2.flatten = cs.filter (!isBlank ·) := by
  induction cs with
  | nil => rfl
  | cons c cs ih =>
    by_cases blank : isBlank c
    · by_cases empty : (splitWords cs).1 = []
      · simp [splitWords, blank, empty, ← ih]
      · simp [splitWords, blank, empty, ← ih]
    · simp [splitWords, blank, ← ih]

theorem words_flatten (cs : List Char) : (words cs).flatten = cs.filter (!isBlank ·) := by
  rw [← splitWords_flatten]
  unfold words
  split <;> simp_all

theorem splitWords_ne_nil {cs word : List Char} (member : word ∈ (splitWords cs).2) :
    word ≠ [] := by
  induction cs with
  | nil => simp [splitWords] at member
  | cons c cs ih =>
    simp only [splitWords] at member
    split at member
    · split at member
      · exact ih member
      · rename_i occupied
        rcases List.mem_cons.mp member with rfl | member
        · simpa using occupied
        · exact ih member
    · exact ih member

theorem words_ne_nil {cs word : List Char} (member : word ∈ words cs) : word ≠ [] := by
  unfold words at member
  split at member
  · rename_i h
    exact @splitWords_ne_nil cs word (by simpa [h] using member)
  · rename_i first rest occupied h
    rcases List.mem_cons.mp member with rfl | member
    · exact occupied
    · exact @splitWords_ne_nil cs word (by simpa [h] using member)

theorem ofList_ne_empty {cs word : List Char} (member : word ∈ words cs) : String.ofList word ≠ "" :=
  fun empty => words_ne_nil member (String.ofList_eq_empty_iff.mp empty)

end Stencil.Text
