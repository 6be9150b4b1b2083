import Mathlib
import Stencil.Proofs.Scan.Lossless

namespace Stencil

def Location.behind (template : Option String) (before : String) : Location :=
  ⟨1 + before.toList.count '\n', template⟩

namespace Delimiters

structure OneLine (d : Delimiters) : Prop where
  start : '\n' ∉ d.start.toList
  stop : '\n' ∉ d.stop.toList

variable {d d' : Delimiters}

theorem OneLine.count_opening (oneLine : d.OneLine) (form : TagForm) :
    (d.opening form).count '\n' = 0 := by
  apply List.count_eq_zero.mpr
  cases form with
  | plain => exact oneLine.start
  | raw => simp [opening]
  | redefining => simpa [opening] using oneLine.start

theorem OneLine.count_closing (oneLine : d.OneLine) (form : TagForm) :
    (d.closing form).count '\n' = 0 := by
  apply List.count_eq_zero.mpr
  cases form with
  | plain => exact oneLine.stop
  | raw => simp [closing]
  | redefining => simpa [closing] using oneLine.stop

end Delimiters

theorem Text.not_blank_of_mem_words {cs word : List Char} (member : word ∈ words cs) {c : Char}
    (inside : c ∈ word) : isBlank c = false := by
  have kept : c ∈ cs.filter (!isBlank ·) := by
    rw [← words_flatten]
    exact List.mem_flatten.mpr ⟨word, member, inside⟩
  simpa using (List.mem_filter.mp kept).2

theorem Token.Means.oneLine {d d' : Delimiters} {form : TagForm} {interior content : List Char}
    {kind : Token.Kind} (means : Means d form interior kind content d') (oneLine : d.OneLine) :
    d'.OneLine := by
  cases means with
  | plain => exact oneLine
  | raw => exact oneLine
  | @redefining _ start stop words =>
      have filled {word : List Char} (member : word ∈ [start, stop]) : '\n' ∉ word := by
        intro inside
        rw [← words] at member
        have visible := Text.not_blank_of_mem_words member inside
        simp [Text.isBlank] at visible
      refine ⟨?_, ?_⟩
      · simpa using filled (by simp : start ∈ [start, stop])
      · simpa using filled (by simp : stop ∈ [start, stop])

namespace Token

/-- Every token stands where the texts before it put it. -/
def Lined (template : Option String) : String → List Token → Prop
  | _, [] => True
  | before, token :: tokens =>
    token.location = .behind template before ∧ Lined template (before ++ token.source) tokens

theorem Lined.location_eq {template : Option String} {before : String} {earlier later : List Token}
    {token : Token} (lined : Lined template before (earlier ++ token :: later)) :
    token.location = .behind template (before ++ sources earlier) := by
  induction earlier generalizing before with
  | nil => simpa using lined.1
  | cons first earlier ih =>
      rw [sources_cons, ← String.append_assoc]
      exact ih lined.2

end Token

namespace Scan

/-- The line feeds of the template are counted, those before the token under way and those in it. -/
structure Counted (s : Scan) (before : String) : Prop where
  oneLine : s.delimiters.OneLine
  line : s.line = 1 + before.toList.count '\n' + s.seen.count '\n'
  startLine : s.mode ≠ .gap → s.startLine = 1 + before.toList.count '\n'
  gap : s.mode = .gap → s.seen = []

variable {s next : Scan} {before : String}

theorem counted_ofTemplate (source : List Char) {d : Delimiters} (oneLine : d.OneLine)
    (template : Option String) : (ofTemplate source d template).Counted "" where
  oneLine := oneLine
  line := rfl
  startLine mode := absurd rfl mode
  gap _ := rfl

theorem line_pass (s : Scan) (c : Char) (rest : List Char) :
    (s.pass c rest).line = s.line + [c].count '\n' := by
  by_cases feed : c = '\n'
  · simp [pass, feed]
  · simp [pass, feed, List.count_eq_zero_of_not_mem]

namespace Counted

theorem location_eq (counted : s.Counted before) (mode : s.mode ≠ .gap) :
    s.location = .behind s.template before := by
  rw [location, counted.startLine mode, Location.behind]

theorem pass (counted : s.Counted before) (mode : s.mode ≠ .gap) (c : Char) (rest : List Char) :
    (s.pass c rest).Counted before where
  oneLine := counted.oneLine
  line := by
    rw [line_pass, counted.line]
    simp only [Scan.pass, List.count_cons, List.count_nil]
    omega
  startLine := counted.startLine
  gap here := absurd here mode

theorem openTag (counted : s.Counted before) (form : TagForm) :
    (s.openTag form).Counted (before ++ String.ofList s.seen.reverse) where
  oneLine := counted.oneLine
  line := by
    show s.line = _ + (s.delimiters.opening form).reverse.count '\n'
    rw [List.count_reverse, counted.oneLine.count_opening, counted.line]
    simp [Nat.add_assoc]
  startLine _ := by
    show s.line = _
    rw [counted.line]
    simp [Nat.add_assoc]
  gap mode := by cases mode

theorem on (counted : s.Counted before) (action : s.step = .on next) : next.Counted before := by
  have taken := s.step_taken
  rw [action] at taken
  cases taken with
  | within mode => exact counted.pass (by simp [mode]) _ _
  | opened mode =>
      have opens (form : TagForm) := counted.openTag form
      simp only [counted.gap mode, List.reverse_nil, String.ofList_nil, String.append_empty] at opens
      exact opens _
  | @begun c rest mode =>
      have unseen := counted.gap mode
      refine ⟨counted.oneLine, ?_, fun _ => ?_, fun mode => by cases mode⟩
      · show (s.pass c rest).line = _
        rw [line_pass, counted.line]
        simp [Scan.pass, unseen]
      · show s.line = _
        rw [counted.line]
        simp [unseen]
  | continued mode => exact counted.pass (by simp [mode]) _ _

theorem delivers {token : Token} (counted : s.Counted before)
    (action : s.step = .token token next) :
    token.location = .behind s.template before ∧ next.Counted (before ++ token.source) := by
  have taken := s.step_taken
  rw [action] at taken
  cases taken with
  | trailing mode =>
      refine ⟨counted.location_eq (by simp [mode]), counted.oneLine, ?_, absurd rfl, fun _ => rfl⟩
      show s.line = _
      rw [counted.line]
      simp [textToken, Nat.add_assoc]
  | @closed form _ _ d mode _ means =>
      refine ⟨counted.location_eq (by simp [mode]), means.oneLine counted.oneLine, ?_,
        absurd rfl, fun _ => rfl⟩
      show s.line = _
      rw [counted.line]
      simp [tagToken, closeTag, counted.oneLine.count_closing, Nat.add_assoc]
  | interrupted mode =>
      exact ⟨counted.location_eq (by simp [mode]), counted.openTag _⟩

theorem fails {error : ParseError} (counted : s.Counted before) (action : s.step = .failed error) :
    error.location = .behind s.template before := by
  have taken := s.step_taken
  rw [action] at taken
  cases taken with
  | unclosed mode => exact counted.location_eq (by simp [mode])
  | invalid mode => exact counted.location_eq (by simp [mode])

end Counted

theorem trace_lined (steps : Nat) (underway : s.Underway) (counted : s.Counted before) :
    Token.Lined s.template before (trace steps s).1 ∧
      ∀ error, (trace steps s).2 = .failed error →
        error.location = .behind s.template (before ++ Token.sources (trace steps s).1) := by
  induction steps generalizing s before with
  | zero => exact ⟨trivial, fun _ failed => by cases failed⟩
  | succ steps ih =>
      cases action : s.step with
      | finished => simp [trace, action, Token.Lined]
      | failed error => simpa [trace, action, Token.Lined] using counted.fails action
      | on next =>
          obtain ⟨underway', -, -, template, -⟩ := underway.on action
          have rest := ih underway' (counted.on action)
          rw [template] at rest
          simpa only [trace, action] using rest
      | token token next =>
          have delivers := underway.delivers action
          obtain ⟨here, counted'⟩ := counted.delivers action
          have rest := ih delivers.underway counted'
          rw [delivers.template] at rest
          obtain ⟨lined, fails⟩ := rest
          simp only [trace, action]
          refine ⟨⟨here, lined⟩, fun error failed => ?_⟩
          rw [fails error failed, Token.sources_cons, String.append_assoc]

theorem deliver_prefix (wants : List Token → Bool) (ending : Ending) (tokens earlier : List Token) :
    ∃ taken, taken <+: tokens ∧
      ((deliver (fun token => modifyGet fun tokens => (wants tokens, token :: tokens)) ending tokens :
        StateM (List Token) Ending).run earlier).2 = taken.reverse ++ earlier := by
  induction tokens generalizing earlier with
  | nil => exact ⟨[], List.prefix_refl [], rfl⟩
  | cons token tokens ih =>
      by_cases more : wants earlier
      · obtain ⟨taken, first, same⟩ := ih (token :: earlier)
        refine ⟨token :: taken, List.cons_prefix_cons.mpr ⟨rfl, first⟩, ?_⟩
        rw [List.reverse_cons, List.append_assoc, List.singleton_append, ← same]
        simp [deliver, StateT.run, bind, StateT.bind, modifyGet, MonadStateOf.modifyGet,
          StateT.modifyGet, pure, more]
      · refine ⟨[token], by simp, ?_⟩
        simp [deliver, StateT.run, bind, StateT.bind, modifyGet, MonadStateOf.modifyGet,
          StateT.modifyGet, pure, StateT.pure, more]

theorem ofTemplate_prefix (source : String) (d : Delimiters) (template : Option String)
    (limit : Option Nat) : ∃ steps, (Token.ofTemplate source d template limit).1 <+:
      (trace steps (.ofTemplate source.toList d template)).1 := by
  let scan := ofTemplate source.toList d template
  have first (wants : List Token → Bool) (enough : Nat) :
      ((scan.feed (fun token => modifyGet fun tokens => (wants tokens, token :: tokens)) enough :
        StateM (List Token) Ending).run []).2.reverse <+: (trace enough scan).1 := by
    obtain ⟨taken, within, same⟩ :=
      deliver_prefix wants (trace enough scan).2 (trace enough scan).1 []
    rw [feed_eq_deliver, same]
    simpa using within
  cases limit with
  | none => exact ⟨_, first (fun _ => true) (steps source.toList 0)⟩
  | some limit => exact ⟨_, first (fun tokens => tokens.length + 1 < limit) (steps source.toList limit)⟩

end Scan

namespace Token

structure Stands (text : String) (template : Option String) (token : Token) (before : String) :
    Prop where
  within : ∃ after, text = before ++ token.source ++ after
  start : token.start = before.utf8ByteSize
  location : token.location = .behind template before

theorem ofTemplate_located (text : String) {d : Delimiters} (oneLine : d.OneLine)
    (template : Option String) (limit : Option Nat) :
    ∀ token ∈ (ofTemplate text d template limit).1, ∃ before, token.Stands text template before := by
  intro token member
  obtain ⟨steps, first⟩ := Scan.ofTemplate_prefix text d template limit
  have underway : (Scan.ofTemplate text.toList d template).Underway := .gap rfl rfl
  obtain ⟨d', rest, reads, -⟩ := Scan.trace_reads steps underway
  have placed := Scan.trace_placed steps underway
  have lined := (Scan.trace_lined steps underway (Scan.counted_ofTemplate _ oneLine _)).1
  obtain ⟨earlier, later, split⟩ := List.append_of_mem (first.subset member)
  rw [split] at reads placed lined
  refine ⟨sources earlier, ⟨sources later ++ String.ofList rest, ?_⟩, ?_, ?_⟩
  · apply String.toList_injective
    have whole := reads.text_eq
    simp only [Scan.ofTemplate, Scan.ahead] at whole
    simpa using whole
  · simpa [Scan.ofTemplate] using placed.start_eq
  · simpa [Scan.ofTemplate] using lined.location_eq

end Token

end Stencil
