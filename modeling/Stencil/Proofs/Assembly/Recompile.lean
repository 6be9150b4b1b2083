import Mathlib
import Stencil.Proofs.Library.Load
import Stencil.Proofs.Scan.Lossless

/-!
# Compiling the text of a section again

A section keeps the text of its body. Compiled by itself, in a library that still knows the templates
it refers to, that text yields the body again (`compile_inner`): the same nodes, with tags in other
lines (`Store.Alike`). What overrides an inherited template becomes another document, with such nodes.
-/

namespace Stencil

open Assembly

structure Tag.Alike (tag other : Tag) : Prop where
  source : tag.source = other.source
  delimiters : tag.delimiters = other.delimiters
  template : tag.location.template = other.location.template

/-- Nodes that differ at most in the lines of their tags, and in which documents hold what overrides
a template. -/
inductive Store.Alike (store : Store) : List Node → List Node → Prop
  | nil : Alike store [] []
  | text {string : String} {nodes others : List Node} : Alike store nodes others →
      Alike store (.text string :: nodes) (.text string :: others)
  | variableTag {tag other : Tag} {expression : Expression} {escapes : Bool}
      {nodes others : List Node} : tag.Alike other → Alike store nodes others →
      Alike store (.variableTag tag expression escapes :: nodes)
        (.variableTag other expression escapes :: others)
  | sectionTag {tag other : Tag} {expression : Expression} {inverted : Bool}
      {contentType : ContentType} {body body' : List Node} {source : String}
      {nodes others : List Node} : tag.Alike other → Alike store body body' →
      Alike store nodes others →
      Alike store (.sectionTag tag expression inverted ⟨contentType, body⟩ source :: nodes)
        (.sectionTag other expression inverted ⟨contentType, body'⟩ source :: others)
  | blockTag {name : String} {contentType : ContentType} {body body' nodes others : List Node} :
      Alike store body body' → Alike store nodes others →
      Alike store (.blockTag name ⟨contentType, body⟩ :: nodes)
        (.blockTag name ⟨contentType, body'⟩ :: others)
  | partialTag {name : String} {target : Ref} {nodes others : List Node} :
      Alike store nodes others →
      Alike store (.partialTag name target :: nodes) (.partialTag name target :: others)
  | inheritTag {name : String} {parent overriding overriding' : Ref} {contentType : ContentType}
      {body body' nodes others : List Node} : store.get? overriding = some ⟨contentType, body⟩ →
      store.get? overriding' = some ⟨contentType, body'⟩ → Alike store body body' →
      Alike store nodes others →
      Alike store (.inheritTag name parent overriding :: nodes)
        (.inheritTag name parent overriding' :: others)

theorem Store.Alike.kept {store later : Store} {nodes others : List Node}
    (alike : store.Alike nodes others) (kept : store.Keeps later) : later.Alike nodes others := by
  induction alike with
  | nil => exact .nil
  | text _ ih => exact .text ih
  | variableTag tag _ ih => exact .variableTag tag ih
  | sectionTag tag _ _ body ih => exact .sectionTag tag body ih
  | blockTag _ _ body ih => exact .blockTag body ih
  | partialTag _ ih => exact .partialTag ih
  | inheritTag filled filled' _ _ body ih =>
      exact .inheritTag (kept _ _ filled) (kept _ _ filled') body ih

theorem Store.Alike.append {store : Store} {nodes others nodes' others' : List Node}
    (first : store.Alike nodes nodes') (second : store.Alike others others') :
    store.Alike (nodes ++ others) (nodes' ++ others') := by
  induction first with
  | nil => exact second
  | text _ ih => exact .text ih
  | variableTag tag _ ih => exact .variableTag tag ih
  | sectionTag tag body _ _ ih => exact .sectionTag tag body ih
  | blockTag body _ _ ih => exact .blockTag body ih
  | partialTag _ ih => exact .partialTag ih
  | inheritTag filled filled' body _ _ ih => exact .inheritTag filled filled' body ih

/-! ## Tokens in other places -/

variable {source : Option Source} {base : Option String} {resolve : String → Build (Option Ref)}
  {library : Library} {contentType : ContentType} {token token' : Token}

namespace Token

theorem Alike.tagOf (alike : token.Alike token') : (tagOf token).Alike (Assembly.tagOf token') :=
  ⟨alike.source, alike.delimiters, alike.template⟩

theorem Alike.names {name : String} (alike : token.Alike token') (names : token.Names name) :
    token'.Names name := by
  rw [Names, ← alike.content]
  exact names

theorem Alike.silent {decided : Bool} (alike : token.Alike token') (silent : token.Silent decided) :
    token'.Silent decided := by
  cases silent with
  | commentTag kind => exact .commentTag (alike.kind.symm.trans kind)
  | delimitersTag kind => exact .delimitersTag (alike.kind.symm.trans kind)
  | pragmaTag kind unknown =>
      rw [alike.content] at unknown
      exact .pragmaTag (alike.kind.symm.trans kind) unknown

theorem Alike.closes {opener : Opener} (alike : token.Alike token') (closes : token.Closes opener) :
    token'.Closes opener := by
  refine ⟨alike.kind.symm.trans closes.kind, ?_⟩
  rw [← alike.content]
  exact closes.closedBy

theorem Alike.opens {opener : Opener} (alike : token.Alike token')
    (opens : token.Opens library source base opener) : token'.Opens library source base opener := by
  have same := alike.kind.symm
  cases opens with
  | sectionTag kind expression =>
      rw [alike.content] at expression
      exact .sectionTag (same.trans kind) expression
  | invertedTag kind expression =>
      rw [alike.content] at expression
      exact .invertedTag (same.trans kind) expression
  | blockTag kind names => exact .blockTag (same.trans kind) (alike.names names)
  | inheritTag kind names links => exact .inheritTag (same.trans kind) (alike.names names) links

theorem Alike.adds {node : Node} (alike : token.Alike token')
    (adds : token.Adds library source base node) :
    ∃ node', token'.Adds library source base node' ∧ ∀ store : Store, store.Alike [node] [node'] := by
  have same := alike.kind.symm
  cases adds with
  | text kind =>
      refine ⟨_, .text (same.trans kind), fun store => ?_⟩
      rw [alike.content]
      exact .text .nil
  | variableTag kind expression =>
      rw [alike.content] at expression
      exact ⟨_, .variableTag (same.trans kind) expression, fun store => .variableTag alike.tagOf .nil⟩
  | rawTag kind expression =>
      rw [alike.content] at expression
      exact ⟨_, .rawTag (same.trans kind) expression, fun store => .variableTag alike.tagOf .nil⟩
  | partialTag kind names links =>
      exact ⟨_, .partialTag (same.trans kind) (alike.names names) links,
        fun store => .partialTag .nil⟩

theorem sources_eq_of_alike {tokens tokens' : List Token}
    (alikes : List.Forall₂ Alike tokens tokens') : sources tokens = sources tokens' := by
  induction alikes with
  | nil => rfl
  | cons alike _ ih => rw [sources_cons, sources_cons, alike.source, ih]

end Token

theorem Opener.Becomes.alike {opener : Opener} {node node' : Node} {body body' : List Node}
    {text : String} (tokens : token.Alike token')
    (becomes : opener.Becomes library token ⟨contentType, body⟩ text node)
    (becomes' : opener.Becomes library token' ⟨contentType, body'⟩ text node')
    (bodies : library.store.Alike body body') : library.store.Alike [node] [node'] := by
  cases becomes with
  | sectionOf =>
      cases becomes'
      exact .sectionTag tokens.tagOf bodies .nil
  | block =>
      cases becomes'
      exact .blockTag bodies .nil
  | inherit filled =>
      cases becomes' with
      | inherit filled' => exact .inheritTag filled filled' bodies .nil

/-! ## Assembling again -/

structure Assembly.Gathers (a a' : Assembly) (text : String) (nodes : List Node) : Prop where
  nodes : a'.nodes = nodes.reverse ++ a.nodes
  source : a'.source = a.source ++ text
  scopes : a'.scopes = a.scopes
  contentType : a'.contentType = a.contentType

theorem Assembly.Gathers.trans {a b c : Assembly} {text text' : String} {nodes nodes' : List Node}
    (first : a.Gathers b text nodes) (second : b.Gathers c text' nodes') :
    a.Gathers c (text ++ text') (nodes ++ nodes') where
  nodes := by rw [second.nodes, first.nodes, List.reverse_append, List.append_assoc]
  source := by rw [second.source, first.source, String.append_assoc]
  scopes := second.scopes.trans first.scopes
  contentType := second.contentType.trans first.contentType

/-- Tokens that make up some nodes can be taken once more. -/
structure Reassembles (resolve : String → Build (Option Ref)) (library after : Library)
    (nodes : List Node) (tokens : List Token) (a a' : Assembly) (nodes' : List Node) : Prop where
  yields : (tokens.foldlM (take resolve) a).Yields library a' after
  grown : library.Extends after
  cache : after.cache = library.cache
  gathers : a.Gathers a' (Token.sources tokens) nodes'
  alike : after.store.Alike nodes nodes'

namespace Reassembles

variable {after middle : Library} {nodes nodes' others others' : List Node}
  {tokens tokens' : List Token} {a b c : Assembly}

theorem trans (first : Reassembles resolve library middle nodes tokens a b nodes')
    (second : Reassembles resolve middle after others tokens' b c others') :
    Reassembles resolve library after (nodes ++ others) (tokens ++ tokens') a c
      (nodes' ++ others') where
  yields := by
    rw [List.foldlM_append]
    exact Build.yields_bind.mpr ⟨b, middle, first.yields, second.yields⟩
  grown := first.grown.trans second.grown
  cache := second.cache.trans first.cache
  gathers := by
    rw [Token.sources_append]
    exact first.gathers.trans second.gathers
  alike := (first.alike.kept second.grown.keeps.store).append second.alike

theorem nil (resolve : String → Build (Option Ref)) (library : Library) (a : Assembly) :
    Reassembles resolve library library [] [] a a [] :=
  ⟨rfl, .refl library, rfl, ⟨rfl, by simp, rfl, rfl⟩, .nil⟩

theorem silent (resolve : String → Build (Option Ref)) (library : Library) (a : Assembly)
    (silent : token.Silent true) :
    Reassembles resolve library library [] [token] a (a.pass token) [] where
  yields := Build.yields_bind.mpr ⟨_, _, yields_take_silent resolve a silent, rfl⟩
  grown := .refl library
  cache := rfl
  gathers := ⟨rfl, by simp [Assembly.pass], rfl, rfl⟩
  alike := .nil

theorem adds (recalls : Recalls source base resolve) (a : Assembly) {node : Node}
    (alike : token.Alike token') (adds : token.Adds library source base node) :
    ∃ a' nodes', Reassembles resolve library library [node] [token'] a a' nodes' := by
  obtain ⟨node', adds', nodes⟩ := alike.adds adds
  obtain ⟨decided, yields⟩ := yields_take_adds recalls a adds'
  exact ⟨_, [node'],
    { yields := Build.yields_bind.mpr ⟨_, _, yields, rfl⟩
      grown := .refl library
      cache := rfl
      gathers := ⟨rfl, by simp [add], rfl, rfl⟩
      alike := nodes library.store }⟩

theorem scope (recalls : Recalls source base resolve) {a b : Assembly} {opening opening' closing :
      Token} {opener : Opener} {node : Node} {body body' : List Node} {inner : List Token}
    (alike : opening.Alike opening') (opens : opening'.Opens library source base opener)
    (closes : closing.Closes opener)
    (becomes : opener.Becomes library opening ⟨a.contentType, body⟩ (Token.sources inner) node)
    (within : Reassembles resolve library middle body inner (a.decide.opened opening' opener) b
      body') :
    ∃ after a' nodes',
      Reassembles resolve library after [node] (opening' :: inner ++ [closing]) a a' nodes' := by
  let entered : Scope := { opener, opening := opening', nodes := a.nodes, source := a.source }
  have open_ : b.scopes = entered :: a.scopes := within.gathers.scopes
  obtain ⟨node', after, yields⟩ := exists_node b entered middle
  have grown := (grows_node b _).yields yields
  have becomes' := becomes_of_node yields
  have content : b.content = ⟨a.contentType, body'⟩ := by
    rw [Assembly.content, within.gathers.nodes, within.gathers.contentType]
    simp [opened, Assembly.decide]
  have text : b.source = Token.sources inner := by
    rw [within.gathers.source]
    simp [opened]
  rw [content, text] at becomes'
  have kept := becomes.kept (within.grown.trans grown).keeps
  refine ⟨after, b.closed closing entered a.scopes node', [node'],
    { yields := ?_
      grown := within.grown.trans grown
      cache := (cache_of_node yields).trans within.cache
      gathers := ⟨rfl, ?_, rfl, within.gathers.contentType⟩
      alike := kept.alike alike becomes' (within.alike.kept grown.keeps.store) }⟩
  · rw [List.cons_append, List.foldlM_cons]
    refine Build.yields_bind.mpr ⟨_, _, yields_take_opens recalls a opens, ?_⟩
    rw [List.foldlM_append]
    refine Build.yields_bind.mpr ⟨_, _, within.yields, ?_⟩
    exact Build.yields_bind.mpr ⟨_, _, yields_take_closes resolve open_ closes yields, rfl⟩
  · simp [closed, entered, text, String.append_assoc]

end Reassembles

theorem exists_append_of_alike {before after tokens' : List Token}
    (alikes : List.Forall₂ Token.Alike (before ++ after) tokens') :
    ∃ before' after', tokens' = before' ++ after' ∧ List.Forall₂ Token.Alike before before' ∧
      List.Forall₂ Token.Alike after after' := by
  induction before generalizing tokens' with
  | nil => exact ⟨[], tokens', rfl, .nil, alikes⟩
  | cons token before ih =>
      cases alikes with
      | cons alike alikes =>
          obtain ⟨before', after', rfl, first, last⟩ := ih alikes
          exact ⟨_ :: before', after', rfl, .cons alike first, last⟩

theorem exists_reassembles (recalls : Recalls source base resolve) {inside : Bool}
    {tokens tokens' : List Token} {nodes : List Node}
    (assembled : Assembled library source base contentType inside tokens nodes)
    (within : inside = true) (alikes : List.Forall₂ Token.Alike tokens tokens') {later : Library}
    (kept : library.Keeps later) (a : Assembly) (same : a.contentType = contentType) :
    ∃ after a' nodes', Reassembles resolve later after nodes tokens' a a' nodes' := by
  -- By induction on the structure. Every part is taken in the library that those before it leave.
  induction assembled generalizing tokens' later a with
  | nil =>
      cases alikes
      exact ⟨later, a, [], .nil resolve later a⟩
  | silent silent _ ih =>
      subst within
      cases alikes with
      | cons alike alikes =>
          have first := Reassembles.silent resolve later a (alike.silent silent)
          obtain ⟨after, a', nodes', rest⟩ := ih rfl alikes kept (a.pass _) same
          exact ⟨after, a', nodes', first.trans rest⟩
  | adds adds _ ih =>
      cases alikes with
      | cons alike alikes =>
          obtain ⟨b, nodes, first⟩ := Reassembles.adds recalls a alike (adds.kept kept)
          obtain ⟨after, a', nodes', rest⟩ :=
            ih within alikes kept b (first.gathers.contentType.trans same)
          exact ⟨after, a', nodes ++ nodes', first.trans rest⟩
  | @scope inside opening closing inner tokens opener node body nodes opens _ closes becomes _ ihBody
      ih =>
      obtain ⟨scope, rest, rfl, alikes, restAlike⟩ := exists_append_of_alike alikes
      cases alikes with
      | cons alike innerAlike =>
          cases restAlike with
          | cons closingAlike restAlike =>
              have text := Token.sources_eq_of_alike innerAlike
              rw [← same] at becomes
              have now := becomes.kept kept
              rw [text] at now
              obtain ⟨middle, b, body', within_⟩ := ihBody rfl innerAlike kept
                (a.decide.opened _ opener) same
              obtain ⟨middle, b, nodes, first⟩ := Reassembles.scope recalls alike
                (alike.opens (opens.kept kept)) (closingAlike.closes closes) now within_
              obtain ⟨after, a', nodes', rest⟩ := ih within restAlike
                (kept.trans first.grown.keeps) b (first.gathers.contentType.trans same)
              refine ⟨after, a', nodes ++ nodes', ?_⟩
              have whole := first.trans rest
              simpa using whole

theorem Assembly.yields_ofScan {before after : Library} {steps : Nat} {scan : Scan}
    {tokens : List Token} {a : Assembly} (htrace : Scan.trace steps scan = (tokens, .finished))
    (run : (tokens.foldlM (take resolve) (start contentType)).Yields before a after)
    (closed : a.scopes = []) :
    (ofScan resolve contentType steps scan).Yields before a.content after := by
  rw [ofScan_eq, htrace]
  refine Build.yields_bind.mpr ⟨a, after, run, Build.yields_ofParse.mpr ⟨?_, rfl⟩⟩
  rw [finish, closed]

/-! ## Sections -/

namespace Repository

variable {κ : Type} {repository : Repository κ}

def scan (repository : Repository κ) (text : String) (id : Option String) :
    List Token × Scan.Ending :=
  Scan.trace (Scan.steps text.toList 0)
    (.ofTemplate text.toList repository.configuration.delimiters id)

theorem exists_scope {depth : Nat} {id : Option String} {text inner : String}
    {before after : Library} {document part body : Document} {tag : Tag} {expression : Expression}
    {inverted : Bool}
    (compiled : (repository.compile (repository.load depth id) text id).Yields before document after)
    (within : document.Within after.store part)
    (member : .sectionTag tag expression inverted body inner ∈ part.nodes) :
    body.contentType = document.contentType ∧ ∃ outer opening tokens closing behind,
      (repository.scan text id).1 = outer ++ opening :: (tokens ++ closing :: behind) ∧
        (opening.kind = .sectionTag ∨ opening.kind = .invertedTag) ∧ tag = tagOf opening ∧
        closing.kind = .closeTag ∧ inner = Token.sources tokens ∧
        Assembled after repository.source id document.contentType true tokens body.nodes := by
  have assembled := Assembly.assembled_of_ofScan (resolves_load repository depth id) compiled
  obtain ⟨inside, outer, around, behind, htokens, -, assembled⟩ := assembled.within within
  obtain ⟨tokens, same, encloses⟩ := assembled.enclosed member .sectionTag
  obtain ⟨outer', opening, closing, behind', opener, rfl, opens, closes, becomes⟩ := encloses.opens
  obtain ⟨contentType, nodes⟩ := body
  cases becomes with
  | sectionOf =>
      have kind : opening.kind = .sectionTag ∨ opening.kind = .invertedTag := by
        cases opens with
        | sectionTag kind => exact .inl kind
        | invertedTag kind => exact .inr kind
      refine ⟨same, outer ++ outer', opening, tokens, closing, behind' ++ behind, ?_, kind, rfl,
        closes.kind, rfl, encloses.body⟩
      rw [scan, htokens]
      simp

theorem inner_sliced {depth : Nat} {id : Option String} {text inner : String}
    {before after : Library} {document part body : Document} {tag : Tag} {expression : Expression}
    {inverted : Bool}
    (compiled : (repository.compile (repository.load depth id) text id).Yields before document after)
    (within : document.Within after.store part)
    (member : .sectionTag tag expression inverted body inner ∈ part.nodes) :
    ∃ outer opening tokens closing behind,
      (repository.scan text id).1 = outer ++ opening :: (tokens ++ closing :: behind) ∧
        tag = tagOf opening ∧ closing.kind = .closeTag ∧
        text.toByteArray.extract opening.stop closing.start = inner.toByteArray := by
  obtain ⟨-, outer, opening, tokens, closing, behind, htokens, -, tagged, closes, rfl, -⟩ :=
    exists_scope compiled within member
  have underway : (Scan.ofTemplate text.toList repository.configuration.delimiters id).Underway :=
    .gap rfl rfl
  obtain ⟨d, rest, reads, -⟩ := Scan.trace_reads (Scan.steps text.toList 0) underway
  have placed := Scan.trace_placed (Scan.steps text.toList 0) underway
  rw [scan] at htokens
  rw [htokens] at reads placed
  exact ⟨outer, opening, tokens, closing, behind, htokens, tagged, closes,
    Token.slice_of_reads reads placed⟩

theorem exists_section {depth : Nat} {id : Option String} {text inner : String}
    {before after : Library} {document part body : Document} {tag : Tag} {expression : Expression}
    {inverted : Bool}
    (compiled : (repository.compile (repository.load depth id) text id).Yields before document after)
    (within : document.Within after.store part)
    (member : .sectionTag tag expression inverted body inner ∈ part.nodes) :
    body.contentType = document.contentType ∧ tag.delimiters.stop ≠ "" ∧
      ∃ tokens text' d rest, Reads tag.delimiters text' tokens d rest ∧
        inner = Token.sources tokens ∧ (∀ token ∈ tokens, token.location.template = id) ∧
        Assembled after repository.source id document.contentType true tokens body.nodes := by
  obtain ⟨same, outer, opening, tokens, closing, behind, htokens, kind, rfl, -, rfl, assembled⟩ :=
    exists_scope compiled within member
  have underway : (Scan.ofTemplate text.toList repository.configuration.delimiters id).Underway :=
    .gap rfl rfl
  have located := Scan.trace_located (Scan.steps text.toList 0) underway
  obtain ⟨d, rest, reads, -⟩ := Scan.trace_reads (Scan.steps text.toList 0) underway
  rw [scan] at htokens
  rw [htokens] at reads located
  obtain ⟨filled, text', d, rest, reads⟩ := reads.inside kind
  refine ⟨same, filled, tokens, text', d, rest, reads, rfl, fun token member => ?_, assembled⟩
  exact located token (by simp [member])

theorem compile_inner {depth : Nat} {id : Option String} {text inner : String}
    {before after later : Library} {document part body : Document} {tag : Tag}
    {expression : Expression} {inverted : Bool}
    (compiled : (repository.compile (repository.load depth id) text id).Yields before document after)
    (kept : after.Keeps later) (within : document.Within after.store part)
    (member : .sectionTag tag expression inverted body inner ∈ part.nodes) (depth' : Nat) :
    let again : Repository κ :=
      { repository with configuration :=
        { repository.configuration with
          delimiters := tag.delimiters
          contentType := document.contentType } }
    ∃ document' final,
      (again.compile (repository.load (depth' + 1) id) inner id).Yields later document' final ∧
        later.Extends final ∧ final.cache = later.cache ∧
        document'.contentType = body.contentType ∧
        final.store.Alike body.nodes document'.nodes := by
  intro again
  obtain ⟨same, filled, tokens, text', d, rest, reads, rfl, located, assembled⟩ :=
    exists_section compiled within member
  obtain ⟨tokens', htrace, alikes⟩ := reads.rescan filled located
  obtain ⟨final, a, nodes, reassembles⟩ :=
    exists_reassembles (recalls_load repository depth' id) assembled rfl alikes kept
      (.start document.contentType) rfl
  have gathers := reassembles.gathers
  refine ⟨a.content, final, Assembly.yields_ofScan htrace reassembles.yields gathers.scopes,
    reassembles.grown, reassembles.cache, ?_, ?_⟩
  · rw [same]
    exact gathers.contentType
  · have content : a.content.nodes = nodes := by
      simp [Assembly.content, gathers.nodes, Assembly.start]
    rw [content]
    exact reassembles.alike

theorem compile_inner_before_brace :
    let repository : Repository Empty :=
      { source := some (.memory [("p", "<")]), configuration := .standard }
    let text := "\x7b\x7b#a\x7d\x7d\x7b\x7b>p\x7d\x7d\x7d\x7b\x7b/a\x7d\x7d"
    let tag : Tag := ⟨"\x7b\x7b#a\x7d\x7d", ⟨1, none⟩, .braces⟩
    let body : Document := ⟨.html, [.partialTag "p" ⟨0⟩, .text "\x7d"]⟩
    let inner := "\x7b\x7b>p\x7d\x7d\x7d"
    let document : Document := ⟨.html, [.sectionTag tag (.name "a") false body inner]⟩
    let after : Library := ⟨⟨#[some ⟨.html, [.text "<"]⟩]⟩, [("p", ⟨0⟩)]⟩
    (repository.compile (repository.load 2 none) text none).Yields .empty document after ∧
      after.Keeps after ∧ document.Within after.store document ∧
      .sectionTag tag (.name "a") false body inner ∈ document.nodes ∧
      ∃ document' final,
        (repository.compile (repository.load 1 none) inner none).Yields after document' final ∧
          after.Extends final ∧ final.cache = after.cache ∧ document'.contentType = .html ∧
          final.store.Alike body.nodes document'.nodes := by
  intro repository text tag body inner document after
  have compiled :
      (repository.compile (repository.load 2 none) text none).Yields .empty document after := by
    unfold Build.Yields
    cbv
  exact ⟨compiled, .refl after, .whole, List.mem_cons_self,
    compile_inner compiled (.refl after) .whole List.mem_cons_self 0⟩

end Repository

end Stencil
