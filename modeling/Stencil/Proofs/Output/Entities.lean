import Stencil.Proofs.Output.Escaping
import Stencil.Proofs.Output.Isolation

namespace Stencil

namespace Text

/-- The text with its entities replaced by their characters, from left to right. A character that
comes of an entity is not read again. -/
def unescapeChars : List Char → List Char
  | '&' :: 'a' :: 'm' :: 'p' :: ';' :: cs => '&' :: unescapeChars cs
  | '&' :: 'l' :: 't' :: ';' :: cs => '<' :: unescapeChars cs
  | '&' :: 'g' :: 't' :: ';' :: cs => '>' :: unescapeChars cs
  | '&' :: 'q' :: 'u' :: 'o' :: 't' :: ';' :: cs => '"' :: unescapeChars cs
  | '&' :: 'a' :: 'p' :: 'o' :: 's' :: ';' :: cs => '\'' :: unescapeChars cs
  | c :: cs => c :: unescapeChars cs
  | [] => []

def unescape (s : String) : String :=
  String.ofList (unescapeChars s.toList)

theorem unescapeChars_cons {c : Char} (ordinary : c ≠ '&') (cs : List Char) :
    unescapeChars (c :: cs) = c :: unescapeChars cs := by
  rw [unescapeChars] <;> exact fun _ same => absurd same ordinary

theorem unescapeChars_entity (c : Char) (rest : List Char) :
    unescapeChars (entity c ++ rest) = c :: unescapeChars rest := by
  unfold entity
  split
  case h_6 ordinary _ _ _ _ => exact unescapeChars_cons ordinary rest
  all_goals rfl

theorem unescapeChars_escapeChars (cs rest : List Char) :
    unescapeChars (escapeChars cs ++ rest) = cs ++ unescapeChars rest := by
  induction cs with
  | nil => rfl
  | cons c cs ih =>
      show unescapeChars (entity c ++ escapeChars cs ++ rest) = _
      rw [List.append_assoc, unescapeChars_entity, ih, List.cons_append]

theorem unescape_escape_append (s rest : String) :
    unescape (escape s ++ rest) = s ++ unescape rest := by
  apply String.toList_injective
  simp [unescape, unescapeChars_escapeChars]

-- the first text has to be escaped, or it may end within an entity
example : unescape ("&am" ++ "p;") ≠ unescape "&am" ++ unescape "p;" := by
  decide +kernel

theorem unescape_escape (s : String) : unescape (escape s) = s := by
  simpa [unescape, unescapeChars] using unescape_escape_append s ""

theorem escape_injective : Function.Injective escape :=
  Function.LeftInverse.injective unescape_escape

def entities : List String :=
  ["&amp;", "&lt;", "&gt;", "&quot;", "&apos;"]

structure Escaped (text : List Char) : Prop where
  clean : ∀ c ∈ ['<', '>', '"', '\''], c ∉ text
  begins : ∀ rest, '&' :: rest <:+ text → ∃ name ∈ entities, name.toList <+: '&' :: rest

theorem Escaped.of_suffix {text rest : List Char} (escaped : Escaped text)
    (suffix : rest <:+ text) : Escaped rest where
  clean c special member := escaped.clean c special (suffix.subset member)
  begins rest' suffix' := escaped.begins rest' (suffix'.trans suffix)

theorem entity_of_ordinary {c : Char} (ordinary : c ≠ '&') (clean : c ∉ ['<', '>', '"', '\'']) :
    entity c = [c] := by
  unfold entity
  split <;> simp_all

theorem begins_of_entity {c : Char} {rest cs : List Char} (suffix : '&' :: rest <:+ entity c ++ cs) :
    (∃ name ∈ entities, name.toList <+: '&' :: rest) ∨ '&' :: rest <:+ cs := by
  -- an entity has its ampersand at the start alone
  unfold entity at suffix
  split at suffix
  case h_6 ordinary _ _ _ _ =>
    rcases List.suffix_cons_iff.mp suffix with same | suffix
    · exact absurd (List.cons.inj same).1.symm ordinary
    · exact .inr suffix
  all_goals
    simp only [List.cons_append, List.nil_append, List.suffix_cons_iff, List.cons.injEq,
      Char.reduceEq, false_and, true_and, false_or] at suffix
    rcases suffix with rfl | suffix
    · exact .inl (by simp [entities])
    · exact .inr suffix

theorem escaped_escapeChars (cs : List Char) : Escaped (escapeChars cs) where
  clean c special := by simpa using not_mem_escape special (String.ofList cs)
  begins rest suffix := by
    induction cs with
    | nil => simp [escapeChars] at suffix
    | cons c cs ih => exact (begins_of_entity suffix).elim id ih

theorem escapeChars_unescapeChars {text : List Char} (escaped : Escaped text) :
    escapeChars (unescapeChars text) = text := by
  fun_induction unescapeChars text with
  | case1 cs ih | case2 cs ih | case3 cs ih | case4 cs ih | case5 cs ih =>
      have later : Escaped cs := escaped.of_suffix (by simp [List.suffix_cons_iff])
      show entity _ ++ escapeChars (unescapeChars cs) = _
      rw [ih later]
      rfl
  | case6 c cs noAmp noLt noGt noQuot noApos ih =>
      have later : Escaped cs := escaped.of_suffix (List.suffix_cons c cs)
      -- an ampersand here would begin one of the entities that the cases before have read
      have ordinary : c ≠ '&' := by
        rintro rfl
        obtain ⟨name, member, more, same⟩ := escaped.begins cs List.suffix_rfl
        simp only [entities, List.mem_cons, List.not_mem_nil, or_false] at member
        rcases member with rfl | rfl | rfl | rfl | rfl <;>
          simp only [String.reduceToList, List.cons_append, List.nil_append, List.cons.injEq,
            true_and] at same
        · exact noAmp more rfl same.symm
        · exact noLt more rfl same.symm
        · exact noGt more rfl same.symm
        · exact noQuot more rfl same.symm
        · exact noApos more rfl same.symm
      have clean : c ∉ ['<', '>', '"', '\''] := fun special =>
        escaped.clean c special List.mem_cons_self
      show entity c ++ escapeChars (unescapeChars cs) = _
      rw [entity_of_ordinary ordinary clean, ih later]
      rfl
  | case7 => rfl

theorem escaped_iff (text : String) : Escaped text.toList ↔ escape (unescape text) = text := by
  constructor
  · intro escaped
    apply String.toList_injective
    rw [toList_escape, unescape, String.toList_ofList, escapeChars_unescapeChars escaped]
  · intro same
    rw [← same, toList_escape]
    exact escaped_escapeChars _

theorem escape_join (parts : List String) :
    escape (String.join parts) = String.join (parts.map escape) := by
  induction parts with
  | nil => rfl
  | cons part parts ih => rw [String.join_cons, escape_append, ih, List.map_cons, String.join_cons]

end Text

namespace Store

variable {κ : Type} [Host κ]

theorem render_flatten (store : Store) (depth : Nat) (contentType : ContentType)
    (parts : List (List Node)) (context : Context κ) :
    store.render (depth + 1) ⟨contentType, parts.flatten⟩ context =
      (fun strings => ⟨String.join strings, contentType⟩) <$> parts.mapM fun part =>
        Rendering.string <$> store.render (depth + 1) ⟨contentType, part⟩ context := by
  induction parts with
  | nil => simp [render_succ, Runner.nodes]
  | cons part parts ih =>
      rw [List.flatten_cons, render_append, ih]
      simp [String.join_cons]

theorem escape_reversible (s t : String) (store : Store) (depth : Nat) (context : Context κ)
    (output : String) (parts : List (List Node)) :
    let appended := store.run (depth + 1) (.append .html output ⟨.text, parts.flatten⟩ context)
    let rendered := parts.mapM fun part =>
      Rendering.string <$> store.render (depth + 1) ⟨.text, part⟩ context
    Text.Escaped (Text.escape s).toList ∧
      (Text.Escaped t.toList ↔ Text.escape (Text.unescape t) = t) ∧
      Text.unescape (Text.escape s) = s ∧
      Text.unescape (Text.escape s ++ t) = s ++ Text.unescape t ∧
      (Text.escape s = Text.escape t ↔ s = t) ∧
      Text.escape (s ++ t) = Text.escape s ++ Text.escape t ∧
      appended = (fun strings => ⟨output ++ Text.escape (String.join strings), .html⟩) <$> rendered ∧
      appended =
        (fun strings => ⟨output ++ String.join (strings.map Text.escape), .html⟩) <$> rendered := by
  intro appended rendered
  have escaped : Text.Escaped (Text.escape s).toList := by
    rw [Text.toList_escape]
    exact Text.escaped_escapeChars s.toList
  have merged : appended =
      (fun strings => ⟨output ++ Text.escape (String.join strings), .html⟩) <$> rendered := by
    have apart : appended = (fun rendering => rendering.behind .html output) <$>
        store.render (depth + 1) ⟨.text, parts.flatten⟩ context :=
      store.run_appends (depth + 1) .html output _ context
    rw [apart, render_flatten, Functor.map_map]
    rfl
  have each : appended =
      (fun strings => ⟨output ++ String.join (strings.map Text.escape), .html⟩) <$> rendered := by
    simpa only [Text.escape_join] using merged
  exact ⟨escaped, Text.escaped_iff t, Text.unescape_escape s, Text.unescape_escape_append s t,
    Text.escape_injective.eq_iff, Text.escape_append s t, merged, each⟩

theorem escape_reversible_halves :
    let parts : List (List Node) := [[.text "&l"], [.text "t;"]]
    Text.Escaped "&amp;lt;".toList ∧ Text.unescape "&amp;lt;" = "&lt;" ∧
      Text.unescape ("&amp;l" ++ "t;&amp;") = "&l" ++ "t;&" ∧
      empty.run 1 (.append .html "<p>" ⟨.text, parts.flatten⟩ (.empty : Context Stock)) =
        pure ⟨"<p>&amp;lt;", .html⟩ := by
  intro parts
  have whole : Text.escape "&lt;" = "&amp;lt;" := by cbv
  have half : Text.escape "&l" = "&amp;l" := by cbv
  have rest : Text.unescape "t;&amp;" = "t;&" := by cbv
  obtain ⟨escaped, -, back, -, -, -, merged, -⟩ :=
    escape_reversible "&lt;" "" empty 0 (.empty : Context Stock) "<p>" parts
  obtain ⟨-, -, -, behind, -⟩ :=
    escape_reversible "&l" "t;&amp;" empty 0 (.empty : Context Stock) "<p>" parts
  rw [whole] at escaped back
  rw [half, rest] at behind
  refine ⟨escaped, back, behind, ?_⟩
  rw [merged]
  cbv

end Store

end Stencil
