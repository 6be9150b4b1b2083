import Stencil.Proofs.Scan.Reading

namespace Stencil

structure Token.Alike (token other : Token) : Prop where
  kind : token.kind = other.kind
  content : token.content = other.content
  delimiters : token.delimiters = other.delimiters
  source : token.source = other.source
  template : token.location.template = other.location.template

/-! ## Cutting a text off behind a token -/

namespace Delimiters

variable {d : Delimiters} {form : TagForm} {text tail : List Char}

theorem opensAt?_of_append (opened : d.opensAt? (text ++ tail) = some form)
    (filled : text ≠ []) (fits : d.opening form <+: text) : d.opensAt? text = some form := by
  cases text with
  | nil => exact absurd rfl filled
  | cons c text =>
      have longer : ∀ marker : List Char, marker <+: c :: text → marker <+: c :: text ++ tail :=
        fun marker short => short.trans (List.prefix_append _ _)
      simp only [opensAt?, opens?, List.cons_append, List.isPrefixOf_iff_prefix] at opened longer ⊢
      split at opened
      · cases opened
      · rename_i visible
        rw [if_neg visible]
        split at opened
        · rename_i raw
          cases opened
          rw [if_pos ⟨raw.1, fits⟩]
        · rename_i raw
          rw [if_neg fun short => raw ⟨short.1, longer _ short.2⟩]
          split at opened
          · cases opened
            rw [if_pos fits]
          · rename_i redefining
            rw [if_neg fun short => redefining (longer _ short)]
            split at opened
            · cases opened
              rw [if_pos fits]
            · cases opened

theorem opensAt?_eq_none_of_append (closed : d.opensAt? (text ++ tail) = none) :
    d.opensAt? text = none := by
  cases text with
  | nil => rfl
  | cons c text =>
      have longer : ∀ marker : List Char, marker <+: c :: text → marker <+: c :: text ++ tail :=
        fun marker short => short.trans (List.prefix_append _ _)
      simp only [opensAt?, opens?, List.cons_append, List.isPrefixOf_iff_prefix] at closed longer ⊢
      split at closed
      · rename_i hidden
        rw [if_pos hidden]
      · rename_i visible
        rw [if_neg visible]
        split at closed
        · cases closed
        · rename_i raw
          rw [if_neg fun short => raw ⟨short.1, longer _ short.2⟩]
          split at closed
          · cases closed
          · rename_i redefining
            rw [if_neg fun short => redefining (longer _ short)]
            split at closed
            · cases closed
            · rename_i plain
              rw [if_neg fun short => plain (longer _ short)]

theorem closesAt_append (closes : d.closesAt form text) : d.closesAt form (text ++ tail) := by
  cases text with
  | nil => exact closes.elim
  | cons c text => exact ⟨closes.1, closes.2.trans (List.prefix_append _ _)⟩

theorem closesAt_closing (filled : d.stop ≠ "") (closes : d.closesAt form (d.closing form ++ tail)) :
    d.closesAt form (d.closing form ++ text) := by
  have positive := closing_pos form filled
  cases hclosing : d.closing form with
  | nil => simp [hclosing] at positive
  | cons c marker =>
      rw [hclosing] at closes
      exact ⟨closes.1, by simp [hclosing]⟩

end Delimiters

theorem Token.IsText.truncate {d : Delimiters} {token : Token} {rest tail : List Char}
    (isText : token.IsText d (rest ++ tail)) (ends : rest = [] ∨ d.opensAt? rest ≠ none) :
    token.IsText d rest where
  kind := isText.kind
  content := isText.content
  delimiters := isText.delimiters
  filled := isText.filled
  clear := isText.clear.cut fun _ => Delimiters.opensAt?_eq_none_of_append
  ends := ends

theorem Token.IsTag.truncate {d : Delimiters} {token : Token} {form : TagForm}
    {interior rest tail : List Char} (isTag : token.IsTag d form interior (rest ++ tail))
    (filled : d.stop ≠ "") : token.IsTag d form interior rest where
  source := isTag.source
  delimiters := isTag.delimiters
  opens := by
    have opens := isTag.opens
    rw [← List.append_assoc] at opens
    refine Delimiters.opensAt?_of_append opens ?_ ?_
    · have := isTag.filled (.inr filled)
      simp_all
    · rw [isTag.source, List.append_assoc, List.append_assoc]
      exact List.prefix_append _ _
  unclosed := by
    have unclosed := isTag.unclosed
    rw [← List.append_assoc] at unclosed
    exact unclosed.cut fun _ clear => mt Delimiters.closesAt_append clear
  closes := Delimiters.closesAt_closing filled isTag.closes
  means := isTag.means

theorem Reads.truncate {d d' : Delimiters} {text tail : List Char} {tokens : List Token}
    (reads : Reads d text tokens d' tail) (filled : d.stop ≠ "") :
    Reads d (Token.sources tokens).toList tokens d' [] := by
  induction tokens generalizing d text with
  | nil =>
      cases reads
      exact .done
  | cons token tokens ih =>
      rw [Token.sources_cons, String.toList_append]
      cases reads with
      | @text _ _ _ _ middle _ isText reads =>
          have short := ih reads filled
          have middle_eq := reads.text_eq
          rw [middle_eq] at isText
          refine .text (isText.truncate ?_) short
          cases tokens with
          | nil => exact .inl rfl
          | cons next tokens =>
              right
              -- What follows a text opens a tag, so it is no text.
              have tagged : next.kind ≠ .text := by
                have alternating := (Reads.text isText (middle_eq ▸ reads)).alternating
                exact (List.isChain_cons_cons.mp alternating).1 isText.kind
              obtain ⟨_, form, _, isTag, whole, -⟩ := short.head_tag tagged
              rw [whole, isTag.opens]
              exact Option.some_ne_none form
      | tag isTag reads =>
          have short := ih reads (isTag.means.stop_ne filled)
          rw [reads.text_eq] at isTag
          exact .tag (isTag.truncate filled) short

/-! ## Completeness -/

namespace Scan

/-- The scan `s` after it has passed over some characters within a token. -/
structure Over (s : Scan) (cs rest : List Char) (full : Scan) : Prop where
  mode : full.mode = s.mode
  seen : full.seen = cs.reverse ++ s.seen
  rest : full.rest = rest
  delimiters : full.delimiters = s.delimiters
  template : full.template = s.template
  trace : ∀ n, s.trace (n + cs.length) = full.trace n

theorem exists_over {P : List Char → Prop} {s : Scan} {cs rest : List Char}
    (silent : ∀ (t : Scan) (c : Char) (after : List Char), t.mode = s.mode →
      t.delimiters = s.delimiters → t.rest = c :: after → P t.rest → t.step = .on (t.pass c after))
    (hrest : s.rest = cs ++ rest) (all : Throughout P cs rest) : ∃ full, s.Over cs rest full := by
  induction cs generalizing s with
  | nil => exact ⟨s, rfl, rfl, hrest, rfl, rfl, fun n => rfl⟩
  | cons c cs ih =>
      obtain ⟨here, all⟩ := all
      rw [← hrest] at here
      have step := silent s c (cs ++ rest) rfl rfl hrest here
      obtain ⟨full, past⟩ := ih (s := s.pass c (cs ++ rest)) silent rfl all
      refine ⟨full, past.mode, ?_, past.rest, past.delimiters, past.template, fun n => ?_⟩
      · rw [past.seen]
        simp [pass]
      · rw [List.length_cons, ← Nat.add_assoc, Scan.trace, step]
        exact past.trace n

/-- From one gap to the next, a scan delivers a token. -/
structure Passes (s : Scan) (token : Token) (next : Scan) : Prop where
  mode : next.mode = .gap
  seen : next.seen = []
  template : next.template = s.template
  trace : ∀ n, (next.trace n).2 ≠ .exhausted →
    ∃ m, s.trace m = (token :: (next.trace n).1, (next.trace n).2)

def gap (s : Scan) : Scan :=
  { s with mode := .gap, seen := [], start := s.position }

theorem passes_full {full : Scan} (mode : full.mode = .text)
    (ends : full.rest = [] ∨ full.delimiters.opensAt? full.rest ≠ none) :
    full.Passes full.textToken full.gap := by
  refine ⟨rfl, rfl, rfl, fun n ended => ?_⟩
  rcases ends with empty | opens
  · refine ⟨n + 1, ?_⟩
    rw [trace, step_eq (.trailing mode empty)]
    rfl
  · obtain ⟨form, opens⟩ := Option.ne_none_iff_exists'.mp opens
    cases n with
    | zero => exact absurd rfl ended
    | succ n =>
        -- The gap opens the tag in a step of its own, the text with its token.
        have taken : full.gap.Taken (.on (full.gap.openTag form)) := .opened rfl opens
        have same : full.gap.openTag form = full.openTag form := by simp [gap, openTag, position, size]
        refine ⟨n + 1, ?_⟩
        rw [trace, step_eq (.interrupted mode opens), trace, step_eq taken, same]

theorem passes_text {s : Scan} {token : Token} {middle : List Char} (mode : s.mode = .gap)
    (seen : s.seen = []) (isText : token.IsText s.delimiters middle)
    (hrest : s.rest = token.source.toList ++ middle)
    (template : token.location.template = s.template) :
    ∃ token' next, token.Alike token' ∧ s.Passes token' next ∧ next.delimiters = s.delimiters ∧
      next.rest = middle := by
  have clear := isText.clear
  cases hsource : token.source.toList with
  | nil => exact absurd hsource isText.filled
  | cons c cs =>
      rw [hsource] at clear hrest
      obtain ⟨first, clear⟩ := clear
      rw [← hrest] at first
      have begun := step_eq (.begun mode hrest first)
      obtain ⟨full, past⟩ := exists_over
        (s := { s.pass c (cs ++ middle) with mode := .text, startLine := s.line })
        (fun t c after mode delimiters hrest clear =>
          step_eq (.continued mode hrest (by rw [delimiters]; exact clear))) rfl clear
      have ends := isText.ends
      rw [← past.rest] at ends
      have passes := passes_full past.mode (by rw [past.delimiters]; exact ends)
      have source : full.textToken.source = token.source := by
        apply String.toList_injective
        simp [textToken, past.seen, hsource, pass, seen]
      refine ⟨full.textToken, full.gap, ?_, ⟨rfl, rfl, past.template, fun n ended => ?_⟩,
        past.delimiters, past.rest⟩
      · exact
          { kind := isText.kind
            content := isText.content.trans source.symm
            delimiters := isText.delimiters.trans past.delimiters.symm
            source := source.symm
            template := template.trans past.template.symm }
      · obtain ⟨m, htrace⟩ := passes.trace n ended
        refine ⟨m + cs.length + 1, ?_⟩
        rw [trace, begun]
        exact (past.trace m).trans htrace

theorem passes_tag {s : Scan} {token : Token} {form : TagForm} {interior middle : List Char}
    (mode : s.mode = .gap) (isTag : token.IsTag s.delimiters form interior middle)
    (hrest : s.rest = token.source.toList ++ middle)
    (template : token.location.template = s.template) :
    ∃ token' next, token.Alike token' ∧ s.Passes token' next ∧
      next.delimiters = s.delimiters.after token ∧ next.rest = middle := by
  have opens := isTag.opens
  rw [← hrest] at opens
  have inside : (s.openTag form).rest = interior ++ (s.delimiters.closing form ++ middle) := by
    simp [openTag, hrest, isTag.source]
  obtain ⟨full, past⟩ := exists_over
    (s := s.openTag form)
    (fun t c after mode delimiters hrest unclosed =>
      step_eq (.within mode hrest (by rw [delimiters]; exact unclosed))) inside isTag.unclosed
  have hinterior : full.interior form = interior := by
    simp [Scan.interior, past.seen, past.delimiters, openTag]
  have closes : full.delimiters.closesAt form full.rest := by
    rw [past.delimiters, past.rest]
    exact isTag.closes
  have means : Token.Means full.delimiters form (full.interior form) token.kind
      token.content.toList (s.delimiters.after token) := by
    rw [past.delimiters, hinterior]
    exact isTag.means
  have closed := step_eq (.closed past.mode closes means)
  refine ⟨full.tagToken form token.kind token.content.toList,
    full.closeTag form (s.delimiters.after token), ?_,
    ⟨rfl, rfl, past.template, fun n _ => ⟨n + 1 + interior.length + 1, ?_⟩⟩, rfl, ?_⟩
  · exact
      { kind := rfl
        content := by simp [tagToken]
        delimiters := isTag.delimiters.trans past.delimiters.symm
        source := by
          apply String.toList_injective
          simp [tagToken, past.seen, past.delimiters, openTag, isTag.source]
        template := template.trans past.template.symm }
  · rw [trace, step_eq (.opened mode opens)]
    have after := past.trace (n + 1)
    rw [trace, closed] at after
    exact after
  · simp [closeTag, past.rest, past.delimiters, openTag]

theorem trace_of_reads {d d' : Delimiters} {text : List Char} {tokens : List Token}
    (reads : Reads d text tokens d' []) {s : Scan} (mode : s.mode = .gap) (seen : s.seen = [])
    (delimiters : s.delimiters = d) (hrest : s.rest = text)
    (template : ∀ token ∈ tokens, token.location.template = s.template) :
    ∃ n tokens', s.trace n = (tokens', .finished) ∧ List.Forall₂ Token.Alike tokens tokens' := by
  induction tokens generalizing d text s with
  | nil =>
      cases reads
      refine ⟨1, [], ?_, .nil⟩
      rw [trace, step_eq (.finished mode hrest)]
  | cons token tokens ih =>
      subst delimiters
      have here := template token List.mem_cons_self
      obtain ⟨token', next, alike, passes, nextDelimiters, nextRest⟩ :
          ∃ token' next, token.Alike token' ∧ s.Passes token' next ∧
            next.delimiters = s.delimiters.after token ∧
            ∃ middle, next.rest = middle ∧ Reads (s.delimiters.after token) middle tokens d' [] := by
        by_cases kind : token.kind = .text
        · obtain ⟨middle, isText, whole, reads⟩ := reads.head_text kind
          have same : s.delimiters.after token = s.delimiters := by simp [Delimiters.after, kind]
          rw [same]
          obtain ⟨token', next, alike, passes, delimiters, rest⟩ :=
            passes_text mode seen isText (hrest.trans whole) here
          exact ⟨token', next, alike, passes, delimiters, middle, rest, reads⟩
        · obtain ⟨middle, form, interior, isTag, whole, reads⟩ := reads.head_tag kind
          obtain ⟨token', next, alike, passes, delimiters, rest⟩ :=
            passes_tag mode isTag (hrest.trans whole) here
          exact ⟨token', next, alike, passes, delimiters, middle, rest, reads⟩
      obtain ⟨middle, rest, reads⟩ := nextRest
      obtain ⟨n, tokens', htrace, alikes⟩ :=
        ih reads passes.mode passes.seen nextDelimiters rest fun other member => by
          rw [passes.template]
          exact template other (List.mem_cons_of_mem _ member)
      obtain ⟨m, whole⟩ := passes.trace n (by simp [htrace])
      refine ⟨m, token' :: tokens', ?_, .cons alike alikes⟩
      rw [whole, htrace]

end Scan

theorem Token.IsTag.stop_ne {d : Delimiters} {token : Token} {form : TagForm}
    {interior rest : List Char} (isTag : token.IsTag d form interior rest)
    (kind : token.kind = .sectionTag ∨ token.kind = .invertedTag) : d.stop ≠ "" := by
  intro empty
  have unclosed := isTag.unclosed
  obtain ⟨sigil, hinterior, written⟩ := isTag.means.written
  generalize token.kind = k at kind written
  cases written with
  | @sigil c k content hsigil =>
      rw [hinterior] at unclosed
      obtain ⟨first, -⟩ := unclosed
      refine first ⟨?_, by simp [Delimiters.closing, empty]⟩
      rintro rfl
      simp [Kind.ofSigil?] at hsigil
  | bare => simp at kind
  | raw => simp at kind
  | redefining => simp at kind

theorem Reads.inside {d d' : Delimiters} {text rest : List Char} {before inner after : List Token}
    {opening : Token} (reads : Reads d text (before ++ opening :: (inner ++ after)) d' rest)
    (kind : opening.kind = .sectionTag ∨ opening.kind = .invertedTag) :
    opening.delimiters.stop ≠ "" ∧
      ∃ text' d₁ rest', Reads opening.delimiters text' inner d₁ rest' := by
  obtain ⟨d₁, middle, -, reads⟩ := reads.split
  have tagged : opening.kind ≠ .text := by
    rintro text
    simp [text] at kind
  obtain ⟨_, form, interior, isTag, -, reads⟩ := reads.head_tag tagged
  have same : d₁.after opening = opening.delimiters := by
    rw [isTag.delimiters]
    rcases kind with kind | kind <;> simp [Delimiters.after, kind]
  obtain ⟨d₂, rest', first, -⟩ := reads.split
  rw [same] at first
  refine ⟨?_, _, d₂, rest', first⟩
  rw [isTag.delimiters]
  exact isTag.stop_ne kind

theorem Reads.rescan {d d' : Delimiters} {text tail : List Char} {tokens : List Token}
    (reads : Reads d text tokens d' tail) (filled : d.stop ≠ "") {template : Option String}
    (located : ∀ token ∈ tokens, token.location.template = template) :
    ∃ tokens', (Scan.ofTemplate (Token.sources tokens).toList d template).trace
        (Scan.steps (Token.sources tokens).toList 0) = (tokens', .finished) ∧
      List.Forall₂ Token.Alike tokens tokens' := by
  obtain ⟨n, tokens', htrace, alikes⟩ :=
    Scan.trace_of_reads (reads.truncate filled)
      (s := .ofTemplate (Token.sources tokens).toList d template) rfl rfl rfl rfl located
  refine ⟨tokens', ?_, alikes⟩
  have ended := Scan.trace_ofTemplate_ne_exhausted (Token.sources tokens).toList
    (.inr filled : d.Marked) template
  rw [← htrace]
  exact Scan.trace_agree ended (by simp [htrace])

end Stencil
