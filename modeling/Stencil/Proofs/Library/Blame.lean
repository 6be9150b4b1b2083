import Stencil.Proofs.Library.Termination
import Stencil.Proofs.Scan.Lines

namespace Stencil

open Token

def Denotes (source : Option Source) (base : Option String) (name id : String) : Prop :=
  ∃ s, source = some s ∧ s.id? name base = some id

structure InOrder (source : Option Source) (base : Option String) (tokens : List Token) : Prop where
  faultless : Faultless tokens
  known : ∀ token ∈ tokens, ∀ name, token.Asks name → ∃ id, Denotes source base name id

variable {source : Option Source} {base : Option String} {tokens : List Token}
  {resolve : String → Build (Option Ref)} {before after : Library} {contentType : ContentType}

theorem Library.Links.denotes {library : Library} {name : String} {ref : Ref}
    (links : library.Links source base name ref) : ∃ id, Denotes source base name id := by
  obtain ⟨s, id, hsource, hid, -⟩ := links
  exact ⟨id, s, hsource, hid⟩

theorem Token.exists_opening {opening : Token} (inner : List Token) {outer : List Token}
    (found : openings tokens = inner ++ opening :: outer) :
    ∃ earlier later, tokens = earlier ++ opening :: later ∧ openings earlier = outer := by
  induction tokens using List.reverseRecOn generalizing inner with
  | nil => simp [openings] at found
  | append_singleton tokens token ih =>
      rw [openings_snoc] at found
      have within (inner : List Token) (found : openings tokens = inner ++ opening :: outer) :
          ∃ earlier later, tokens ++ [token] = earlier ++ opening :: later ∧
            openings earlier = outer := by
        obtain ⟨earlier, later, rfl, same⟩ := ih inner found
        exact ⟨earlier, later ++ [token], by simp, same⟩
      split at found
      · cases inner with
        | nil =>
            obtain ⟨rfl, same⟩ := List.cons.inj found
            exact ⟨tokens, [], rfl, same⟩
        | cons first inner =>
            obtain ⟨-, found⟩ := List.cons.inj found
            exact within inner found
      · split at found
        · cases open_ : openings tokens with
          | nil => simp [open_] at found
          | cons first scopes =>
              rw [open_, List.tail_cons] at found
              apply within (first :: inner)
              rw [open_, found, List.cons_append]
        · exact within inner found

theorem Token.Faulty.location_eq {token : Token} {error : ParseError}
    (faulty : token.Faulty tokens error) : error.location = token.location := by
  cases faulty <;> rfl

namespace Assembly

inductive Stops (resolve : String → Build (Option Ref)) (earlier : List Token) (token : Token)
    (error : ParseError) : Prop
  | faulty : token.Faulty earlier error → Stops resolve earlier token error
  | missing {name : String} {before after : Library} : token.Asks name →
      (resolve name).run before = (.ok none, after) →
      error = ⟨.missingTemplate name, token.location⟩ → Stops resolve earlier token error
  | failed {name : String} {before after : Library} : token.Asks name →
      (resolve name).run before = (.error (.error (.parse error)), after) →
      Stops resolve earlier token error

theorem stops_take {a : Assembly} {token : Token} {error : ParseError} (taken : a.Taken tokens)
    (failed : (take resolve a token).run before = (.error (.error (.parse error)), after)) :
    Stops resolve tokens token error := by
  by_cases faulty : ∃ error, token.Faulty tokens error
  · obtain ⟨error', faulty⟩ := faulty
    rw [run_take_faulty taken faulty] at failed
    cases failed
    exact .faulty faulty
  have sound := not_exists.mp faulty
  by_cases asks : ∃ name, token.Asks name
  · obtain ⟨name, asks⟩ := asks
    rw [run_take_asks asks] at failed
    split at failed
    · cases failed
    · rename_i resolved
      cases failed
      exact .missing asks resolved rfl
    · rename_i resolved
      cases failed
      exact .failed asks resolved
  · obtain ⟨a', after', yields, -⟩ := exists_advances taken sound (not_exists.mp asks) resolve before
    cases yields.symm.trans failed

theorem stops_tokens (resolves : Resolves source base resolve) {error : ParseError}
    (failed : (tokens.foldlM (take resolve) (start contentType)).run before =
      (.error (.error (.parse error)), after)) :
    ∃ earlier token later, tokens = earlier ++ token :: later ∧ InOrder source base earlier ∧
      Stops resolve earlier token error := by
  induction tokens using List.reverseRecOn generalizing after with
  | nil => cases failed
  | append_singleton tokens token ih =>
      simp only [List.foldlM_append, List.foldlM_cons, List.foldlM_nil, bind_pure] at failed
      rw [Build.run_bind] at failed
      rcases run : (tokens.foldlM (take resolve) (start contentType)).run before with ⟨result, middle⟩
      rw [run] at failed
      cases result with
      | error failure =>
          cases failed
          obtain ⟨earlier, token', later, rfl, inOrder, stops⟩ := ih run
          exact ⟨earlier, token', later ++ [token], by simp, inOrder, stops⟩
      | ok a =>
          obtain ⟨taken, faultless, -, found⟩ := inspect_tokens resolves run
          refine ⟨tokens, token, [], rfl, ⟨faultless, fun token member name asks => ?_⟩,
            stops_take taken failed⟩
          obtain ⟨ref, links⟩ := found token member name asks
          exact links.denotes

end Assembly

/-! ## Templates -/

/-- A source reads texts, and compiles none. -/
def Source.Apart (source : Source) : Prop :=
  ∀ id error, source.text id ≠ .error (.parse error)

theorem Source.apart_memory (templates : List (String × String)) :
    (Source.memory templates).Apart := by
  intro id error
  simp only [memory]
  cases templates.lookup id <;> simp

theorem Source.apart_directory (files : Files) (root : List String) (extension : String) :
    (Source.directory files root extension).Apart := by
  intro id error
  simp only [directory]
  split
  · simp
  · rename_i path _
    cases files.read path <;> simp [Except.mapError]

namespace Repository

variable {κ : Type}

def Refers (repository : Repository κ) (base : Option String) (text id : String) : Prop :=
  ∃ tokens d rest, Reads repository.configuration.delimiters text.toList tokens d rest ∧
    ∃ token ∈ tokens, ∃ name, token.Asks name ∧ Denotes repository.source base name id

def Holds (repository : Repository κ) (id text : String) : Prop :=
  ∃ source, repository.source = some source ∧ source.text id = .ok text

inductive Draws (repository : Repository κ) :
    Option String → String → Option String → String → Prop
  | here {base : Option String} {text : String} : Draws repository base text base text
  | next {base last : Option String} {text text' lastText id : String} :
      repository.Refers base text id → repository.Holds id text' →
      Draws repository (some id) text' last lastText → Draws repository base text last lastText

/-- The first tag at fault in the text of a template, by the text before it, and what is wrong. -/
inductive Blames (repository : Repository κ) (base : Option String) (text : String) :
    String → Fault → Prop
  | scanned {tokens : List Token} {d : Delimiters} {rest : List Char} {fault : Fault} :
      Reads repository.configuration.delimiters text.toList tokens d rest →
      InOrder repository.source base tokens → Fails d rest fault →
      Blames repository base text (sources tokens) fault
  | faulty {earlier later : List Token} {token : Token} {d : Delimiters} {rest : List Char}
      {error : ParseError} :
      Reads repository.configuration.delimiters text.toList (earlier ++ token :: later) d rest →
      InOrder repository.source base earlier → token.Faulty earlier error →
      Blames repository base text (sources earlier) error.fault
  | missing {earlier later : List Token} {token : Token} {d : Delimiters} {rest : List Char}
      {name : String} :
      Reads repository.configuration.delimiters text.toList (earlier ++ token :: later) d rest →
      InOrder repository.source base earlier → token.Asks name →
      (∀ id, ¬ Denotes repository.source base name id) →
      Blames repository base text (sources earlier) (.missingTemplate name)
  | unclosed {earlier later : List Token} {opening : Token} {d : Delimiters} :
      Reads repository.configuration.delimiters text.toList (earlier ++ opening :: later) d [] →
      InOrder repository.source base (earlier ++ opening :: later) →
      openings (earlier ++ opening :: later) = opening :: openings earlier →
      Blames repository base text (sources earlier) (.unclosedSection opening.scopeName)

/-- An error is located at the tag at fault, in the template that holds it. -/
def Locates (repository : Repository κ) (base : Option String) (text : String)
    (error : ParseError) : Prop :=
  ∃ last lastText before, repository.Draws base text last lastText ∧
    repository.Blames last lastText before error.fault ∧ error.location = .behind last before

variable {repository : Repository κ} {text : String} {error : ParseError}

theorem compile_blames (oneLine : repository.configuration.delimiters.OneLine)
    (resolves : Resolves repository.source base resolve)
    (unknown : ∀ {name before after}, (resolve name).run before = (.ok none, after) →
      ∀ id, ¬ Denotes repository.source base name id)
    (failed : (repository.compile resolve text base).run before =
      (.error (.error (.parse error)), after)) :
    (∃ before, repository.Blames base text before error.fault ∧
        error.location = .behind base before) ∨
      ∃ tokens d rest, Reads repository.configuration.delimiters text.toList tokens d rest ∧
        ∃ token ∈ tokens, ∃ name before after, token.Asks name ∧
          (resolve name).run before = (.error (.error (.parse error)), after) := by
  let d := repository.configuration.delimiters
  have underway : (Scan.ofTemplate text.toList d base).Underway := .gap rfl rfl
  obtain ⟨d', rest, reads, ends⟩ := Scan.trace_reads (Scan.steps text.toList 0) underway
  obtain ⟨lined, fails⟩ := Scan.trace_lined (Scan.steps text.toList 0) underway
    (Scan.counted_ofTemplate text.toList oneLine base)
  rw [compile, Assembly.ofScan_eq, Build.run_bind] at failed
  generalize Scan.trace (Scan.steps text.toList 0) (.ofTemplate text.toList d base) = trace at *
  obtain ⟨tokens, ending⟩ := trace
  replace lined : Lined base "" tokens := lined
  simp only [String.empty_append] at fails
  rcases run : (tokens.foldlM (Assembly.take resolve)
    (Assembly.start repository.configuration.contentType)).run before with ⟨result, middle⟩
  rw [run] at failed
  cases result with
  | error failure =>
      cases failed
      obtain ⟨earlier, token, later, rfl, inOrder, stops⟩ := Assembly.stops_tokens resolves run
      have location : token.location = .behind base (sources earlier) := by
        simpa using lined.location_eq
      cases stops with
      | faulty faulty =>
          exact .inl ⟨sources earlier, .faulty reads inOrder faulty,
            faulty.location_eq.trans location⟩
      | missing asks resolved same =>
          subst same
          exact .inl ⟨sources earlier, .missing reads inOrder asks (unknown resolved), location⟩
      | failed asks failed =>
          exact .inr ⟨_, d', rest, reads, token, by simp, _, _, _, asks, failed⟩
  | ok a =>
      left
      obtain ⟨taken, faultless, -, found⟩ := Assembly.inspect_tokens resolves run
      have inOrder : InOrder repository.source base tokens :=
        ⟨faultless, fun token member name asks => (found token member name asks).elim
          fun _ links => links.denotes⟩
      cases ends with
      | failed faulty =>
          cases failed
          exact ⟨sources tokens, .scanned reads inOrder faulty, fails _ rfl⟩
      | exhausted => cases failed
      | finished =>
          have finish : (Build.ofParse a.finish).run middle =
            (.error (.error (.parse error)), after) := failed
          rw [taken.finish_eq] at finish
          cases open_ : openings tokens with
          | nil =>
              rw [open_] at finish
              cases finish
          | cons opening outer =>
              rw [open_] at finish
              cases finish
              obtain ⟨earlier, later, rfl, same⟩ := exists_opening [] open_
              subst same
              exact ⟨sources earlier, .unclosed reads inOrder open_, by simpa using lined.location_eq⟩

theorem unknown_of_load {depth : Nat} {name : String}
    (found : (repository.load depth base name).run before = (.ok none, after)) (id : String) :
    ¬ Denotes repository.source base name id := by
  rintro ⟨source, hsource, hid⟩
  cases depth with
  | zero => cases found
  | succ depth =>
      rw [load_succ, hsource] at found
      dsimp only at found
      rw [hid] at found
      dsimp only at found
      split at found
      · cases found
      · have yields : (repository.loadText depth source id _).Yields _ none after := found
        obtain ⟨text, _, -, yields⟩ := Build.yields_bind.mp yields
        obtain ⟨document, _, -, yields⟩ := Build.yields_bind.mp yields
        obtain ⟨_, _, -, yields⟩ := Build.yields_bind.mp yields
        cases yields

theorem compile_locates (oneLine : repository.configuration.delimiters.OneLine) {depth : Nat}
    (nested : ∀ {name before after},
      (repository.load depth base name).run before = (.error (.error (.parse error)), after) →
      ∃ id text, Denotes repository.source base name id ∧ repository.Holds id text ∧
        repository.Locates (some id) text error)
    (failed : (repository.compile (repository.load depth base) text base).run before =
      (.error (.error (.parse error)), after)) : repository.Locates base text error := by
  rcases compile_blames oneLine (resolves_load repository depth base) unknown_of_load failed with
    ⟨place, blames, location⟩ | ⟨tokens, d, rest, reads, token, member, name, _, _, asks, failed⟩
  · exact ⟨base, text, place, .here, blames, location⟩
  · obtain ⟨id, text', denotes, holds, last, lastText, place, draws, blames, location⟩ :=
      nested failed
    have refers : repository.Refers base text id :=
      ⟨tokens, d, rest, reads, token, member, name, asks, denotes⟩
    exact ⟨last, lastText, place, .next refers holds draws, blames, location⟩

theorem load_failed {depth : Nat} {name : String} {error : Error}
    (failed : (repository.load (depth + 1) base name).run before = (.error (.error error), after)) :
    ∃ source id, repository.source = some source ∧ source.id? name base = some id ∧
      (source.text id = .error error ∨ ∃ text, source.text id = .ok text ∧
        (repository.compile (repository.load depth (some id)) text (some id)).run
          (before.reserved id) = (.error (.error error), after)) := by
  rw [load_succ] at failed
  split at failed
  · cases failed
  · rename_i source hsource
    split at failed
    · cases failed
    · rename_i id hid
      split at failed
      · cases failed
      · refine ⟨source, id, hsource, hid, ?_⟩
        rw [loadText, Build.run_bind] at failed
        cases htext : source.text id with
        | error error' =>
            rw [htext] at failed
            cases failed
            exact .inl rfl
        | ok text =>
            rw [htext] at failed
            refine .inr ⟨text, rfl, ?_⟩
            let compiled := repository.compile (repository.load depth (some id)) text (some id)
            change (compiled >>= _).run (before.reserved id) = _ at failed
            rw [Build.run_bind] at failed
            change compiled.run (before.reserved id) = _
            rcases run : compiled.run (before.reserved id) with ⟨result, middle⟩
            rw [run] at failed
            cases result with
            | error failure =>
                cases failed
                rfl
            | ok document => cases failed

theorem load_locates (oneLine : repository.configuration.delimiters.OneLine)
    (apart : ∀ source ∈ repository.source, source.Apart) {depth : Nat} {name : String}
    (failed : (repository.load depth base name).run before =
      (.error (.error (.parse error)), after)) :
    ∃ id text, Denotes repository.source base name id ∧ repository.Holds id text ∧
      repository.Locates (some id) text error := by
  induction depth generalizing base name before after with
  | zero => cases failed
  | succ depth ih =>
      obtain ⟨source, id, hsource, hid, refused | ⟨text, read, failed⟩⟩ := load_failed failed
      · exact absurd refused (apart source hsource id error)
      · exact ⟨id, text, ⟨source, hsource, hid⟩, ⟨source, hsource, read⟩,
          compile_locates oneLine ih failed⟩

theorem parse_errors_located (repository : Repository κ)
    (oneLine : repository.configuration.delimiters.OneLine)
    (apart : ∀ source ∈ repository.source, source.Apart) :
    (∀ text id limit,
      ∀ token ∈ (Token.ofTemplate text repository.configuration.delimiters id limit).1,
        ∃ before, token.Stands text id before) ∧
      (∀ name library error,
        ((repository.template name).attempt library).1 = .error (.error (.parse error)) →
        ∃ id text, Denotes repository.source none name id ∧ repository.Holds id text ∧
          repository.Locates (some id) text error) ∧
      ∀ text library error,
        ((repository.templateOfText text).attempt library).1 = .error (.error (.parse error)) →
        repository.Locates none text error := by
  refine ⟨fun text id limit => Token.ofTemplate_located text oneLine id limit,
    fun name library error failed => ?_, fun text library error failed => ?_⟩
  · rw [Build.fst_attempt, template, Build.run_bind] at failed
    rcases run : (repository.load repository.depth none name).run library with ⟨result, after⟩
    rw [run] at failed
    rcases result with failure | _ | root
    · cases failed
      exact load_locates oneLine apart run
    · cases failed
    · cases failed
  · rw [Build.fst_attempt, templateOfText, Build.run_bind] at failed
    rcases run : (repository.compile (repository.load repository.depth none) text none).run library
      with ⟨result, after⟩
    rw [run] at failed
    cases result with
    | error failure =>
        cases failed
        exact compile_locates oneLine (load_locates oneLine apart) run
    | ok document => cases failed

theorem parse_errors_located_partial :
    let repository : Repository Empty :=
      ⟨some (.memory [("p", "a\n\x7b\x7b#x\x7d\x7d\n")]), .standard⟩
    let text := "\x7b\x7b=| |=\x7d\x7d\n\n|>p|"
    let error : ParseError := ⟨.unclosedSection "x", ⟨2, some "p"⟩⟩
    repository.configuration.delimiters.OneLine ∧
      (∀ source ∈ repository.source, source.Apart) ∧
      ((repository.templateOfText text).attempt .empty).1 = .error (.error (.parse error)) ∧
      repository.Locates none text error := by
  intro repository text error
  have oneLine : repository.configuration.delimiters.OneLine := ⟨by decide, by decide⟩
  have apart : ∀ source ∈ repository.source, source.Apart := by
    intro source same
    obtain rfl := Option.some.inj same
    exact Source.apart_memory _
  have failed : ((repository.templateOfText text).attempt .empty).1 =
      .error (.error (.parse error)) := by
    cbv
  exact ⟨oneLine, apart, failed,
    (parse_errors_located repository oneLine apart).2.2 text .empty error failed⟩

end Repository

end Stencil
