import Stencil.Proofs.Assembly.Nesting
import Stencil.Proofs.Document.Isomorphism

namespace Stencil

open Assembly

variable {library other : Library} {source : Option Source} {base : Option String} {token : Token}

def Library.Linked (library other : Library) (ref ref' : Ref) : Prop :=
  ∃ id, library.cache.lookup id = some ref ∧ other.cache.lookup id = some ref'

theorem Library.Links.linked {name : String} {ref ref' : Ref}
    (links : library.Links source base name ref) (links' : other.Links source base name ref') :
    library.Linked other ref ref' := by
  obtain ⟨s, id, hsource, hid, cached⟩ := links
  obtain ⟨s', id', hsource', hid', cached'⟩ := links'
  rw [hsource] at hsource'
  cases hsource'
  rw [hid] at hid'
  cases hid'
  exact ⟨id, cached, cached'⟩

namespace Token

theorem Silent.silent {decided : Bool} (silent : token.Silent decided) :
    token.kind.silent = true := by
  cases silent with
  | commentTag kind => simp [kind, Kind.silent]
  | delimitersTag kind => simp [kind, Kind.silent]
  | pragmaTag kind => simp [kind, Kind.silent]

theorem Adds.single {node : Node} (adds : token.Adds library source base node) :
    token.kind.single := by
  cases adds with
  | text kind => simp [kind, Kind.single, Kind.silent, Kind.opens]
  | variableTag kind => simp [kind, Kind.single, Kind.silent, Kind.opens]
  | rawTag kind => simp [kind, Kind.single, Kind.silent, Kind.opens]
  | partialTag kind => simp [kind, Kind.single, Kind.silent, Kind.opens]

theorem Opens.opens {opener : Opener} (opens : token.Opens library source base opener) :
    token.kind.opens = true := by
  cases opens with
  | sectionTag kind => simp [kind, Kind.opens]
  | invertedTag kind => simp [kind, Kind.opens]
  | blockTag kind => simp [kind, Kind.opens]
  | inheritTag kind => simp [kind, Kind.opens]

theorem Adds.matches {node node' : Node} (adds : token.Adds library source base node)
    (adds' : token.Adds other source base node') :
    library.store.Matches other.store (library.Linked other) [node] [node'] := by
  cases adds with
  | text kind =>
      cases adds' with
      | text => exact .text .nil
      | _ kind' => simp [kind] at kind'
  | variableTag kind parsed =>
      cases adds' with
      | variableTag _ parsed' =>
          rw [parsed] at parsed'
          cases parsed'
          exact .variableTag .nil
      | _ kind' => simp [kind] at kind'
  | rawTag kind parsed =>
      cases adds' with
      | rawTag _ parsed' =>
          rw [parsed] at parsed'
          cases parsed'
          exact .variableTag .nil
      | _ kind' => simp [kind] at kind'
  | partialTag kind names links =>
      cases adds' with
      | partialTag _ names' links' =>
          obtain rfl := names.1.trans names'.1.symm
          exact .partialTag (links.linked links') .nil
      | _ kind' => simp [kind] at kind'

end Token

theorem Opener.Becomes.matches {opener opener' : Opener} {contentType : ContentType}
    {body body' : List Node} {text : String} {node node' : Node}
    (opens : token.Opens library source base opener) (opens' : token.Opens other source base opener')
    (becomes : opener.Becomes library token ⟨contentType, body⟩ text node)
    (becomes' : opener'.Becomes other token ⟨contentType, body'⟩ text node')
    (bodies : library.store.Matches other.store (library.Linked other) body body') :
    library.store.Matches other.store (library.Linked other) [node] [node'] := by
  cases opens with
  | sectionTag kind parsed =>
      cases opens' with
      | sectionTag _ parsed' =>
          rw [parsed] at parsed'
          cases parsed'
          cases becomes
          cases becomes'
          exact .sectionTag bodies .nil
      | _ kind' => simp [kind] at kind'
  | invertedTag kind parsed =>
      cases opens' with
      | invertedTag _ parsed' =>
          rw [parsed] at parsed'
          cases parsed'
          cases becomes
          cases becomes'
          exact .sectionTag bodies .nil
      | _ kind' => simp [kind] at kind'
  | blockTag kind names =>
      cases opens' with
      | blockTag _ names' =>
          obtain rfl := names.1.trans names'.1.symm
          cases becomes
          cases becomes'
          exact .blockTag bodies .nil
      | _ kind' => simp [kind] at kind'
  | inheritTag kind names links =>
      cases opens' with
      | inheritTag _ names' links' =>
          obtain rfl := names.1.trans names'.1.symm
          cases becomes with
          | inherit filled =>
              cases becomes' with
              | inherit filled' =>
                  exact .inheritTag (links.linked links') filled filled' bodies .nil
      | _ kind' => simp [kind] at kind'

namespace Assembled

variable {contentType : ContentType} {inside inside' : Bool}
  {tokens tokens' rest rest' : List Token} {nodes nodes' : List Node}

/-- Some tokens are at their end: there are none, or the scope they stand in is closed. -/
def Ends (tokens : List Token) : Prop :=
  ∀ token ∈ tokens.head?, token.kind = .closeTag

theorem Ends.absurd {P : Prop} {tokens : List Token} (ends : Ends (token :: tokens))
    (other : token.kind ≠ .closeTag) : P :=
  (other (ends token rfl)).elim

theorem matches_of_append
    (assembled : Assembled library source base contentType inside tokens nodes)
    (assembled' : Assembled other source base contentType inside' tokens' nodes')
    (same : tokens ++ rest = tokens' ++ rest') (ends : Ends rest) (ends' : Ends rest') :
    tokens = tokens' ∧ library.store.Matches other.store (library.Linked other) nodes nodes' := by
  -- The kind of the first token decides how both of them begin, and so all other cases are absurd.
  induction assembled generalizing inside' tokens' nodes' rest rest' with
  | nil =>
      rw [List.nil_append] at same
      subst same
      cases assembled' with
      | nil => exact ⟨rfl, .nil⟩
      | silent silent => exact ends.absurd (Token.Kind.of_silent silent.silent).2.2
      | adds adds => exact ends.absurd adds.single.2.2
      | scope opens => exact Ends.absurd (by simpa using ends) (Token.Kind.of_opens opens.opens)
  | silent silent _ ih =>
      have kind := silent.silent
      cases assembled' with
      | nil =>
          rw [List.nil_append] at same
          subst same
          exact ends'.absurd (Token.Kind.of_silent kind).2.2
      | silent _ later =>
          obtain ⟨rfl, same'⟩ := List.cons.inj same
          obtain ⟨rfl, alike⟩ := ih later same' ends ends'
          exact ⟨rfl, alike⟩
      | adds adds =>
          obtain ⟨rfl, -⟩ := List.cons.inj same
          simp [adds.single.1] at kind
      | scope opens =>
          obtain ⟨rfl, -⟩ := List.cons.inj same
          have opens := opens.opens
          simp [(Token.Kind.of_silent kind).2.1] at opens
  | adds adds _ ih =>
      have kind := adds.single
      cases assembled' with
      | nil =>
          rw [List.nil_append] at same
          subst same
          exact ends'.absurd kind.2.2
      | silent silent =>
          obtain ⟨rfl, -⟩ := List.cons.inj same
          have silent := silent.silent
          simp [kind.1] at silent
      | adds adds' later =>
          obtain ⟨rfl, same'⟩ := List.cons.inj same
          obtain ⟨rfl, alike⟩ := ih later same' ends ends'
          exact ⟨rfl, (adds.matches adds').append alike⟩
      | scope opens =>
          obtain ⟨rfl, -⟩ := List.cons.inj same
          have opens := opens.opens
          simp [kind.2.1] at opens
  | scope opens _ closes becomes _ ihBody ih =>
      have kind := opens.opens
      cases assembled' with
      | nil =>
          rw [List.nil_append] at same
          subst same
          exact Ends.absurd (by simpa using ends') (Token.Kind.of_opens kind)
      | silent silent =>
          obtain ⟨rfl, -⟩ := List.cons.inj same
          simp [(Token.Kind.of_silent silent.silent).2.1] at kind
      | adds adds =>
          obtain ⟨rfl, -⟩ := List.cons.inj same
          simp [adds.single.2.1] at kind
      | scope opens' within closes' becomes' later =>
          simp only [List.cons_append, List.append_assoc, List.cons.injEq] at same
          obtain ⟨rfl, same⟩ := same
          have ended {closing : Token} {opener : Opener} {tokens : List Token}
              (closes : closing.Closes opener) : Ends (closing :: tokens) := by
            intro token here
            cases here
            exact closes.kind
          obtain ⟨rfl, bodies⟩ := ihBody within same (ended closes) (ended closes')
          obtain ⟨rfl, same'⟩ := List.cons.inj (List.append_cancel_left same)
          obtain ⟨rfl, alike⟩ := ih later same' ends ends'
          exact ⟨rfl, (becomes.matches opens opens' becomes' bodies).append alike⟩

theorem same_nodes (assembled : Assembled library source base contentType inside tokens nodes)
    (assembled' : Assembled other source base contentType inside' tokens nodes') :
    library.store.Matches other.store (library.Linked other) nodes nodes' := by
  have ends : Ends [] := by simp [Ends]
  exact (assembled.matches_of_append assembled' rfl ends ends).2

end Assembled

end Stencil
