import Stencil.Proofs.Scan.Reading

namespace Stencil

def Token.Placed : Nat → List Token → Prop
  | _, [] => True
  | start, token :: tokens => token.start = start ∧ Placed token.stop tokens

namespace Token.Placed

variable {start : Nat} {token : Token} {tokens before after : List Token}

theorem start_eq (placed : Placed start (before ++ token :: after)) :
    token.start = start + (sources before).utf8ByteSize := by
  induction before generalizing start with
  | nil => simpa using placed.1
  | cons first before ih =>
      obtain ⟨here, placed⟩ := placed
      rw [ih placed, sources_cons, String.utf8ByteSize_append, Token.stop, here, Nat.add_assoc]

theorem isChain (placed : Placed start tokens) :
    tokens.IsChain fun token next => token.stop = next.start := by
  induction tokens generalizing start with
  | nil => exact .nil
  | cons token tokens ih =>
      obtain ⟨-, placed⟩ := placed
      apply (ih placed).cons
      intro next member
      cases tokens with
      | nil => simp at member
      | cons second tokens =>
          obtain rfl : second = next := by simpa using member
          exact placed.1.symm

end Token.Placed

theorem Scan.trace_placed (steps : Nat) {s : Scan} (underway : s.Underway) :
    Token.Placed s.start (s.trace steps).1 := by
  induction steps generalizing s with
  | zero => trivial
  | succ steps ih =>
      cases action : s.step with
      | finished => simp [trace, action, Token.Placed]
      | failed error => simp [trace, action, Token.Placed]
      | on next =>
          obtain ⟨underway', -, -, -, start⟩ := underway.on action
          simp only [trace, action]
          rw [← start]
          exact ih underway'
      | token token next =>
          have delivers := underway.delivers action
          simp only [trace, action]
          refine ⟨delivers.start, ?_⟩
          rw [← delivers.stop]
          exact ih delivers.underway

namespace Token

structure Lossless (source : String) (d : Delimiters) (tokens : List Token)
    (failure : Option ParseError) : Prop where
  /-- The bytes of a token are a part of the template between two of its characters, not empty. -/
  range : ∀ token ∈ tokens, token.start < token.stop ∧
    String.Pos.Raw.IsValid source ⟨token.start⟩ ∧ String.Pos.Raw.IsValid source ⟨token.stop⟩ ∧
    source.toByteArray.extract token.start token.stop = token.source.toByteArray
  first : ∀ token ∈ tokens.head?, token.start = 0
  contiguous : tokens.IsChain fun token next => token.stop = next.start
  whole : failure = none → sources tokens = source
  upToFault : ∀ error, failure = some error →
    ∃ rest, source.toList = (sources tokens).toList ++ rest ∧
      Fails (d.inForce tokens) rest error.fault
  alternating : tokens.IsChain fun token next => token.kind = .text → next.kind ≠ .text
  text : ∀ token ∈ tokens, token.kind = .text → token.content = token.source
  tag : ∀ before token after, tokens = before ++ token :: after → token.kind ≠ .text →
    token.delimiters = d.inForce before ∧ ∃ form sigil,
      token.source.toList = token.delimiters.opening form ++ (sigil ++ token.content.toList) ++
        token.delimiters.closing form ∧
      Written form sigil token.kind token.content.toList ∧
      (form = .raw → token.delimiters = .braces)

end Token

theorem extract_middle (before middle after : String) :
    (before ++ (middle ++ after)).toByteArray.extract before.utf8ByteSize
      (before.utf8ByteSize + middle.utf8ByteSize) = middle.toByteArray := by
  have from_start := ByteArray.extract_append_size_add' (a := before.toByteArray)
    (b := middle.toByteArray ++ after.toByteArray) (i := 0) (j := middle.utf8ByteSize)
    String.size_toByteArray.symm
  rw [Nat.add_zero] at from_start
  rw [String.toByteArray_append, String.toByteArray_append, from_start]
  exact ByteArray.extract_append_eq_left String.size_toByteArray

namespace Token

theorem range_of_reads {source : String} {d d' : Delimiters} {before after : List Token}
    {token : Token} {rest : List Char} (marked : d.Marked)
    (reads : Reads d source.toList (before ++ token :: after) d' rest)
    (placed : Placed 0 (before ++ token :: after)) :
    token.start < token.stop ∧
    String.Pos.Raw.IsValid source ⟨token.start⟩ ∧ String.Pos.Raw.IsValid source ⟨token.stop⟩ ∧
    source.toByteArray.extract token.start token.stop = token.source.toByteArray := by
  obtain ⟨d₁, middle, first, last⟩ := reads.split
  have filled := last.filled (first.marked marked)
  have start : token.start = (sources before).utf8ByteSize := by simpa using placed.start_eq
  have whole : source = sources before ++ (token.source ++ (sources after ++ String.ofList rest)) := by
    apply String.toList_injective
    rw [reads.text_eq]
    simp
  have size : 0 < token.source.utf8ByteSize := by
    rw [Nat.pos_iff_ne_zero, Ne, String.utf8ByteSize_eq_zero_iff]
    intro empty
    exact filled (by simp [empty])
  refine ⟨by unfold stop; omega, ?_, ?_, ?_⟩
  · rw [String.Pos.Raw.isValid_iff_exists_append]
    exact ⟨_, _, whole, by rw [start]; rfl⟩
  · rw [String.Pos.Raw.isValid_iff_exists_append]
    refine ⟨sources before ++ token.source, sources after ++ String.ofList rest, ?_, ?_⟩
    · rw [whole, String.append_assoc]
    · rw [stop, start, ← String.utf8ByteSize_append]
      rfl
  · rw [whole, stop, start]
    exact extract_middle _ _ _

theorem slice_of_reads {source : String} {d d' : Delimiters} {before inner after : List Token}
    {opening closing : Token} {rest : List Char}
    (reads : Reads d source.toList (before ++ opening :: (inner ++ closing :: after)) d' rest)
    (placed : Placed 0 (before ++ opening :: (inner ++ closing :: after))) :
    source.toByteArray.extract opening.stop closing.start = (sources inner).toByteArray := by
  have first : opening.start = (sources before).utf8ByteSize := by simpa using placed.start_eq
  have stop : opening.stop = (sources (before ++ [opening])).utf8ByteSize := by
    simp [Token.stop, first]
  have start : closing.start = opening.stop + (sources inner).utf8ByteSize := by
    have split : before ++ opening :: (inner ++ closing :: after) =
        (before ++ opening :: inner) ++ closing :: after := by simp
    rw [split] at placed
    rw [placed.start_eq, stop]
    simp [Nat.add_assoc]
  have whole : source = sources (before ++ [opening]) ++
      (sources inner ++ (sources (closing :: after) ++ String.ofList rest)) := by
    apply String.toList_injective
    rw [reads.text_eq]
    simp
  rw [start, stop, whole]
  exact extract_middle _ _ _

theorem tag_of_reads {text rest : List Char} {d d' : Delimiters} {before after : List Token}
    {token : Token} (reads : Reads d text (before ++ token :: after) d' rest)
    (kind : token.kind ≠ .text) :
    token.delimiters = d.inForce before ∧ ∃ form sigil,
      token.source.toList = token.delimiters.opening form ++ (sigil ++ token.content.toList) ++
        token.delimiters.closing form ∧
      Written form sigil token.kind token.content.toList ∧
      (form = .raw → token.delimiters = .braces) := by
  obtain ⟨d₁, middle, first, last⟩ := reads.split
  obtain ⟨rest, form, interior, isTag, -, -⟩ := last.head_tag kind
  obtain ⟨sigil, hinterior, written⟩ := isTag.means.written
  refine ⟨isTag.delimiters.trans first.inForce_eq, form, sigil, ?_, written, ?_⟩
  · rw [isTag.delimiters, isTag.source, hinterior]
  · rintro rfl
    rw [isTag.delimiters]
    exact Delimiters.eq_braces_of_opensAt? isTag.opens

theorem lossless_of_reads {source : String} {d d' : Delimiters} {tokens : List Token}
    {rest : List Char} {template : Option String} {ending : Scan.Ending} (marked : d.Marked)
    (reads : Reads d source.toList tokens d' rest) (placed : Placed 0 tokens)
    (ends : Ends d' template rest ending) (ended : ending ≠ .exhausted) :
    Lossless source d tokens ending.failure? where
  range := by
    intro token member
    obtain ⟨before, after, rfl⟩ := List.append_of_mem member
    exact range_of_reads marked reads placed
  first := by
    intro token member
    cases tokens with
    | nil => simp at member
    | cons first tokens =>
        obtain rfl : first = token := by simpa using member
        exact placed.1
  contiguous := placed.isChain
  whole := by
    intro none
    cases ends with
    | finished =>
        apply String.toList_injective
        rw [reads.text_eq, List.append_nil]
    | failed => simp [Scan.Ending.failure?] at none
    | exhausted => exact absurd rfl ended
  upToFault := by
    intro error some
    cases ends with
    | finished => simp [Scan.Ending.failure?] at some
    | failed fails =>
        obtain rfl := Option.some.inj some
        refine ⟨rest, reads.text_eq, ?_⟩
        rw [← reads.inForce_eq]
        exact fails
    | exhausted => exact absurd rfl ended
  alternating := reads.alternating
  text := by
    intro token member kind
    obtain ⟨before, after, rfl⟩ := List.append_of_mem member
    obtain ⟨d₁, middle, -, last⟩ := reads.split
    obtain ⟨_, isText, -, -⟩ := last.head_text kind
    exact isText.content
  tag := by
    rintro before token after rfl kind
    exact tag_of_reads reads kind

theorem ofTemplate_lossless (source : String) (d : Delimiters) (template : Option String)
    (marked : d.start ≠ "" ∨ d.stop ≠ "") :
    Lossless source d (ofTemplate source d template none).1 (ofTemplate source d template none).2 := by
  have underway : (Scan.ofTemplate source.toList d template).Underway := .gap rfl rfl
  obtain ⟨d', rest, reads, ends⟩ := Scan.trace_reads (Scan.steps source.toList 0) underway
  have placed := Scan.trace_placed (Scan.steps source.toList 0) underway
  have ended := Scan.trace_ofTemplate_ne_exhausted source.toList marked template
  rw [Scan.ofTemplate_eq]
  exact lossless_of_reads marked reads placed ends ended

theorem ofTemplate_lossless_without_start :
    let d : Delimiters := ⟨"", "|"⟩
    (d.start ≠ "" ∨ d.stop ≠ "") ∧
      Lossless "a|\n\n=é |=|b" d (ofTemplate "a|\n\n=é |=|b" d none none).1
        (ofTemplate "a|\n\n=é |=|b" d none none).2 :=
  ⟨.inr (by decide), ofTemplate_lossless _ _ _ (.inr (by decide))⟩

end Token

end Stencil
