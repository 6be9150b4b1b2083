import Mathlib.Data.List.TakeWhile
import Stencil.Assembly
import Stencil.Proofs.Document.Parts
import Stencil.Proofs.Scan.Slice

namespace Stencil

open Assembly

def ContentType.keyword : ContentType → String
  | .text => "TEXT"
  | .html => "HTML"

theorem Text.dropWhile_blanks {blanks rest : List Char} {c : Char}
    (blank : ∀ c ∈ blanks, isBlank c = true) (visible : isBlank c = false) :
    (blanks ++ c :: rest).dropWhile isBlank = c :: rest := by
  rw [List.dropWhile_append_of_pos blank, List.dropWhile_cons_of_neg (by simp [visible])]

theorem Assembly.pragmaType?_eq_some {pragma : List Char} {contentType : ContentType} :
    pragmaType? pragma = some contentType ↔
      ∃ before after : List Char, (∀ c ∈ before, Text.isBlank c = true) ∧
        (∀ c ∈ after, Text.isBlank c = true) ∧ pragma =
          "CONTENT_TYPE".toList ++ (before ++ ':' :: (after ++ contentType.keyword.toList)) := by
  constructor
  · intro known
    unfold pragmaType? at known
    dsimp only at known
    split at known
    · rename_i begins
      obtain ⟨rest, rfl⟩ := List.isPrefixOf_iff_prefix.mp begins
      rw [List.drop_left] at known
      split at known
      · rename_i value colon
        have named : value.dropWhile Text.isBlank = contentType.keyword.toList := by
          split at known
          · rename_i same
            cases known
            exact same
          · split at known
            · rename_i same
              cases known
              exact same
            · cases known
        refine ⟨rest.takeWhile Text.isBlank, value.takeWhile Text.isBlank,
          fun c => List.mem_takeWhile_imp, fun c => List.mem_takeWhile_imp, ?_⟩
        rw [← named, List.takeWhile_append_dropWhile, ← colon, List.takeWhile_append_dropWhile]
      · cases known
    · cases known
  · rintro ⟨before, after, blank, blank', rfl⟩
    unfold pragmaType?
    dsimp only
    rw [if_pos (List.isPrefixOf_iff_prefix.mpr (List.prefix_append _ _)), List.drop_left,
      Text.dropWhile_blanks blank (by decide)]
    cases contentType with
    | text => simp [ContentType.keyword, Text.dropWhile_blanks blank' (c := 'T') (by decide)]
    | html => simp [ContentType.keyword, Text.dropWhile_blanks blank' (c := 'H') (by decide)]

namespace Token

def Names (token : Token) (name : String) : Prop :=
  name = Text.trim token.content ∧ name.isEmpty = false

/-- A token adds no node. Once the content type is decided, no pragma sets it. -/
inductive Silent (token : Token) (decided : Bool) : Prop
  | commentTag : token.kind = .commentTag → Silent token decided
  | delimitersTag : token.kind = .delimitersTag → Silent token decided
  | pragmaTag : token.kind = .pragmaTag →
      (decided = true → pragmaType? (Text.trim token.content).toList = none) → Silent token decided

inductive Adds (library : Library) (source : Option Source) (base : Option String)
    (token : Token) : Node → Prop
  | text : token.kind = .text → Adds library source base token (.text token.content)
  | variableTag {expression : Expression} : token.kind = .variableTag →
      Expression.ofText token.content = .ok expression →
      Adds library source base token (.variableTag (tagOf token) expression true)
  | rawTag {expression : Expression} : token.kind = .rawTag →
      Expression.ofText token.content = .ok expression →
      Adds library source base token (.variableTag (tagOf token) expression false)
  | partialTag {name : String} {target : Ref} : token.kind = .partialTag → token.Names name →
      library.Links source base name target →
      Adds library source base token (.partialTag name target)

inductive Opens (library : Library) (source : Option Source) (base : Option String)
    (token : Token) : Opener → Prop
  | sectionTag {expression : Expression} : token.kind = .sectionTag →
      Expression.ofText token.content = .ok expression →
      Opens library source base token (.sectionOf expression false)
  | invertedTag {expression : Expression} : token.kind = .invertedTag →
      Expression.ofText token.content = .ok expression →
      Opens library source base token (.sectionOf expression true)
  | blockTag {name : String} : token.kind = .blockTag → token.Names name →
      Opens library source base token (.block name)
  | inheritTag {name : String} {parent : Ref} : token.kind = .inheritTag → token.Names name →
      library.Links source base name parent →
      Opens library source base token (.inherit name parent)

structure Closes (token : Token) (opener : Opener) : Prop where
  kind : token.kind = .closeTag
  closedBy : opener.closedBy (Text.trim token.content) = true

end Token

inductive Opener.Becomes (library : Library) (opening : Token) (body : Document)
    (source : String) : Opener → Node → Prop
  | sectionOf {expression : Expression} {inverted : Bool} :
      Becomes library opening body source (.sectionOf expression inverted)
        (.sectionTag (tagOf opening) expression inverted body source)
  | block {name : String} :
      Becomes library opening body source (.block name) (.blockTag name body)
  | inherit {name : String} {parent overriding : Ref} :
      library.store.get? overriding = some body →
      Becomes library opening body source (.inherit name parent)
        (.inheritTag name parent overriding)

/-- Some tokens make up some nodes, with bodies of a content type. -/
inductive Assembled (library : Library) (source : Option Source) (base : Option String)
    (contentType : ContentType) : Bool → List Token → List Node → Prop
  | nil {inside : Bool} : Assembled library source base contentType inside [] []
  | silent {inside : Bool} {token : Token} {tokens : List Token} {nodes : List Node} :
      token.Silent inside → Assembled library source base contentType inside tokens nodes →
      Assembled library source base contentType inside (token :: tokens) nodes
  | adds {inside : Bool} {token : Token} {tokens : List Token} {node : Node} {nodes : List Node} :
      token.Adds library source base node →
      Assembled library source base contentType inside tokens nodes →
      Assembled library source base contentType inside (token :: tokens) (node :: nodes)
  | scope {inside : Bool} {opening closing : Token} {inner tokens : List Token} {opener : Opener}
      {node : Node} {body nodes : List Node} : opening.Opens library source base opener →
      Assembled library source base contentType true inner body → closing.Closes opener →
      opener.Becomes library opening ⟨contentType, body⟩ (Token.sources inner) node →
      Assembled library source base contentType inside tokens nodes →
      Assembled library source base contentType inside (opening :: inner ++ closing :: tokens)
        (node :: nodes)

variable {library later : Library} {source : Option Source} {base : Option String}
  {contentType : ContentType} {inside : Bool} {tokens : List Token} {nodes : List Node}

theorem Token.Adds.kept {token : Token} {node : Node} (adds : token.Adds library source base node)
    (kept : library.Keeps later) : token.Adds later source base node := by
  cases adds with
  | text kind => exact .text kind
  | variableTag kind expression => exact .variableTag kind expression
  | rawTag kind expression => exact .rawTag kind expression
  | partialTag kind names links => exact .partialTag kind names (links.kept kept)

theorem Token.Opens.kept {token : Token} {opener : Opener}
    (opens : token.Opens library source base opener) (kept : library.Keeps later) :
    token.Opens later source base opener := by
  cases opens with
  | sectionTag kind expression => exact .sectionTag kind expression
  | invertedTag kind expression => exact .invertedTag kind expression
  | blockTag kind names => exact .blockTag kind names
  | inheritTag kind names links => exact .inheritTag kind names (links.kept kept)

theorem Opener.Becomes.kept {opening : Token} {body : Document} {inner : String} {opener : Opener}
    {node : Node} (becomes : opener.Becomes library opening body inner node)
    (kept : library.Keeps later) : opener.Becomes later opening body inner node := by
  cases becomes with
  | sectionOf => exact .sectionOf
  | block => exact .block
  | inherit filled => exact .inherit (kept.store _ _ filled)

namespace Assembled

theorem kept (assembled : Assembled library source base contentType inside tokens nodes)
    (kept : library.Keeps later) : Assembled later source base contentType inside tokens nodes := by
  induction assembled with
  | nil => exact .nil
  | silent silent _ ih => exact .silent silent ih
  | adds adds _ ih => exact .adds (adds.kept kept) ih
  | scope opens _ closes becomes _ body ih =>
      exact .scope (opens.kept kept) body closes (becomes.kept kept) ih

theorem append {tokens' : List Token} {nodes' : List Node}
    (first : Assembled library source base contentType inside tokens nodes)
    (second : Assembled library source base contentType inside tokens' nodes') :
    Assembled library source base contentType inside (tokens ++ tokens') (nodes ++ nodes') := by
  induction first with
  | nil => exact second
  | silent silent _ ih => exact .silent silent (ih second)
  | adds adds _ ih => exact .adds adds (ih second)
  | @scope inside opening closing inner tokens opener node body nodes opens inner_ closes becomes _ _
      ih =>
      have whole := Assembled.scope opens inner_ closes becomes (ih second)
      simpa using whole

structure Encloses (library : Library) (source : Option Source) (base : Option String)
    (contentType : ContentType) (tokens : List Token) (node : Node) (inner : List Token)
    (body : List Node) : Prop where
  opens : ∃ before opening closing after opener,
    tokens = before ++ opening :: (inner ++ closing :: after) ∧
      opening.Opens library source base opener ∧ closing.Closes opener ∧
      opener.Becomes library opening ⟨contentType, body⟩ (Token.sources inner) node
  body : Assembled library source base contentType true inner body

theorem enclosed {node : Node} {part : Document}
    (assembled : Assembled library source base contentType inside tokens nodes)
    (member : node ∈ nodes) (hpart : node.Part library.store part) :
    ∃ inner, part.contentType = contentType ∧
      Encloses library source base contentType tokens node inner part.nodes := by
  induction assembled with
  | nil => simp at member
  | @silent inside token tokens nodes _ _ ih =>
      obtain ⟨inner, same, encloses⟩ := ih member
      obtain ⟨before, opening, closing, after, opener, rfl, found⟩ := encloses.opens
      exact ⟨inner, same, ⟨token :: before, opening, closing, after, opener, rfl, found⟩,
        encloses.body⟩
  | @adds inside token tokens node' nodes adds _ ih =>
      rcases List.mem_cons.mp member with rfl | member
      · cases adds <;> cases hpart
      · obtain ⟨inner, same, encloses⟩ := ih member
        obtain ⟨before, opening, closing, after, opener, rfl, found⟩ := encloses.opens
        exact ⟨inner, same, ⟨token :: before, opening, closing, after, opener, rfl, found⟩,
          encloses.body⟩
  | @scope inside opening closing inner tokens opener node' body nodes opens assembled closes
      becomes _ _ ih =>
      rcases List.mem_cons.mp member with rfl | member
      · have same : part = ⟨contentType, body⟩ := by
          cases becomes with
          | sectionOf => cases hpart; rfl
          | block => cases hpart; rfl
          | inherit filled =>
              cases hpart with
              | inheritTag filled' => exact Option.some.inj (filled'.symm.trans filled)
        subst same
        exact ⟨inner, rfl, ⟨[], opening, closing, tokens, opener, rfl, opens, closes, becomes⟩,
          assembled⟩
      · obtain ⟨inner', same, encloses⟩ := ih member
        obtain ⟨before, opening', closing', after, opener', rfl, found⟩ := encloses.opens
        refine ⟨inner', same, ⟨opening :: inner ++ closing :: before, opening', closing', after,
          opener', ?_, found⟩, encloses.body⟩
        simp

theorem refers {node : Node} {name : String} {target : Ref}
    (assembled : Assembled library source base contentType inside tokens nodes)
    (member : node ∈ nodes) (refers : node.Refers name target) :
    library.Links source base name target := by
  induction assembled with
  | nil => simp at member
  | silent _ _ ih => exact ih member
  | adds adds _ ih =>
      rcases List.mem_cons.mp member with rfl | member
      · cases refers with
        | partialTag => cases adds with | partialTag _ _ links => exact links
        | inheritTag => cases adds
      · exact ih member
  | scope opens _ _ becomes _ _ ih =>
      rcases List.mem_cons.mp member with rfl | member
      · cases refers with
        | partialTag => cases becomes
        | inheritTag =>
            cases becomes
            cases opens with | inheritTag _ _ links => exact links
      · exact ih member

theorem overrides {name : String} {parent overriding : Ref}
    (assembled : Assembled library source base contentType inside tokens nodes)
    (member : .inheritTag name parent overriding ∈ nodes) :
    ∃ body, library.store.get? overriding = some body := by
  induction assembled with
  | nil => simp at member
  | silent _ _ ih => exact ih member
  | adds adds _ ih =>
      rcases List.mem_cons.mp member with rfl | member
      · cases adds
      · exact ih member
  | scope _ _ _ becomes _ _ ih =>
      rcases List.mem_cons.mp member with rfl | member
      · cases becomes with | inherit filled => exact ⟨_, filled⟩
      · exact ih member

theorem within {document part : Document} (hwithin : document.Within library.store part)
    (assembled : Assembled library source base document.contentType inside tokens document.nodes) :
    ∃ inside before inner after, tokens = before ++ inner ++ after ∧
      part.contentType = document.contentType ∧
      Assembled library source base document.contentType inside inner part.nodes := by
  induction hwithin generalizing inside tokens with
  | @whole document => exact ⟨inside, [], tokens, [], by simp, rfl, assembled⟩
  | @part document part inner node member hpart _ ih =>
      obtain ⟨tokens', same, encloses⟩ := assembled.enclosed member hpart
      obtain ⟨before, opening, closing, after, opener, rfl, -⟩ := encloses.opens
      have body := encloses.body
      rw [← same] at body
      obtain ⟨inside', before', inner', after', rfl, same', assembled'⟩ := ih body
      rw [same] at assembled'
      refine ⟨inside', before ++ opening :: before', inner', after' ++ closing :: after, ?_,
        same'.trans same, assembled'⟩
      simp

end Assembled

end Stencil
