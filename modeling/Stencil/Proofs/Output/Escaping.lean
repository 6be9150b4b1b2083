import Stencil.Proofs.Output.Realm
import Stencil.Stock

namespace Stencil

open Relation

structure Content.Harmless (c : Char) (document : Document) : Prop where
  escapes : ∀ tag expression escapes, .variableTag tag expression escapes ∈ document.nodes →
    escapes = true
  clean : document.contentType = .html → ∀ string, .text string ∈ document.nodes →
    c ∉ string.toList

def Content.Safe (store : Store) (c : Char) (document : Document) : Prop :=
  ∀ other, ReflTransGen (Content.Uses store) document other → other.Harmless c

abbrev Context.Safe {κ : Type} (store : Store) (c : Char) (context : Context κ) : Prop :=
  context.Among store (Content.Safe store c) Value.Tame

variable {κ : Type} {store : Store} {c : Char} {document other : Document}

namespace Content.Safe

theorem harmless (safe : document.Safe store c) : document.Harmless c :=
  safe document .refl

theorem uses (safe : document.Safe store c) (used : document.Uses store other) :
    other.Safe store c :=
  fun last reaches => safe last (reaches.head used)

end Content.Safe

theorem Text.not_mem_entity (special : c ∈ ['<', '>', '"', '\'']) (other : Char) :
    c ∉ entity other := by
  intro member
  simp only [List.mem_cons, List.not_mem_nil, or_false] at special
  unfold entity at member
  split at member
  case h_6 =>
    rw [List.mem_singleton] at member
    subst member
    simp_all
  all_goals rcases special with rfl | rfl | rfl | rfl <;> revert member <;> decide

theorem Text.not_mem_escape (special : c ∈ ['<', '>', '"', '\'']) (s : String) :
    c ∉ (escape s).toList := by
  rw [toList_escape, escapeChars, List.mem_flatMap]
  rintro ⟨other, -, member⟩
  exact not_mem_entity special other member

def Rendering.Clean (c : Char) (rendering : Rendering) : Prop :=
  rendering.contentType = .html → c ∉ rendering.string.toList

theorem Rendering.Clean.within (special : c ∈ ['<', '>', '"', '\'']) {rendering : Rendering}
    (clean : rendering.Clean c) : c ∉ (rendering.within .html).toList := by
  unfold Rendering.within
  split
  · exact Text.not_mem_escape special _
  · rename_i other
    apply clean
    cases htype : rendering.contentType with
    | html => rfl
    | text => exact absurd htype (other rfl)

theorem Rendering.clean_plain (string : String) : (Rendering.plain string).Clean c := nofun

variable [Host κ]

def Realm.safe (κ : Type) [Host κ] (store : Store) (c : Char) : Realm κ Unit :=
  have hereditary : store.Hereditary (Content.Safe store c) := fun _ _ => Content.Safe.uses
  .ofTame hereditary Value.Tame.closed id

theorem Realm.safe_allows (special : c ∈ ['<', '>', '"', '\'']) (store : Store) :
    (Realm.safe κ store c).Allows (.any κ Unit) (fun _ => False) (Rendering.Clean c) where
  empty _ _ := by simp
  plain := Rendering.clean_plain
  escaped string _ := Text.not_mem_escape special string
  joined first second same html := by
    rw [String.toList_append, List.mem_append]
    rintro (before | here)
    · exact first html before
    · exact second (same.symm.trans html) here
  within {output host rendering} clean inside html := by
    obtain rfl : host = .html := html
    rw [String.toList_append, List.mem_append]
    rintro (before | here)
    · exact clean rfl before
    · exact inside.within special here
  texts {document string output} safe member clean html := by
    rw [String.toList_append, List.mem_append]
    rintro (before | here)
    · exact clean html before
    · exact safe.harmless.clean html string member here
  raws safe member := by cases safe.harmless.escapes _ _ _ member
  fails _ _ _ _ := trivial
  opens {value} tame := by
    refine Discipline.Spans.opens ?_ (show value.Tame from tame)
    exact Discipline.spans_tame (fun tame => ⟨_, rfl, tame⟩) id (fun _ => id) trivial
  exhausted := trivial

theorem Store.render_escapes (special : c ∈ ['<', '>', '"', '\''])
    (html : document.contentType = .html) (safe : document.Safe store c) {context : Context κ}
    (tame : context.Safe store c) {depth : Nat} {rendering : Rendering}
    (ok : (store.render depth document context).result = .ok rendering) :
    c ∉ rendering.string.toList := by
  have allows := Realm.safe_allows (κ := κ) special store
  have yields := allows.render_yields (fun _ => Realm.tags_of_tame id) safe tame depth
  obtain ⟨same, clean⟩ := yields.value () rendering ok
  exact clean (same.trans html)

theorem Store.render_escapes_text_partial :
    let store : Store := ⟨#[some ⟨.text, [.text "<p>"]⟩]⟩
    let document : Document :=
      ⟨.html, [.variableTag ⟨"", ⟨1, none⟩, .braces⟩ (.name "x") true, .partialTag "p" ⟨0⟩]⟩
    let context : Context Stock := Context.empty.push (.ofPairs [("x", .text "<i>")])
    '<' ∈ ['<', '>', '"', '\''] ∧ document.contentType = .html ∧ document.Safe store '<' ∧
      context.Safe store '<' ∧
      (store.render 3 document context).result = .ok ⟨"&lt;i&gt;&lt;p&gt;", .html⟩ ∧
      '<' ∉ "&lt;i&gt;&lt;p&gt;".toList := by
  intro store document context
  have special : '<' ∈ ['<', '>', '"', '\''] := by decide
  have safe : document.Safe store '<' := by
    intro other reaches
    have known : other = document ∨ other = ⟨.text, [.text "<p>"]⟩ := by
      induction reaches with
      | refl => exact .inl rfl
      | tail _ uses ih =>
          rcases ih with rfl | rfl
          · cases uses <;> simp_all [document, store, Store.get, Store.get?]
          · cases uses <;> simp_all
    rcases known with rfl | rfl
    · exact ⟨by simp [document], by simp [document]⟩
    · exact ⟨by simp, fun html => by cases html⟩
  have data : (Value.ofPairs [("x", .text "<i>")] : Value Stock).Tame :=
    Value.Plain.tame (.ofPairs (by simp [Value.Plain.text]))
  have tame : context.Safe store '<' :=
    ⟨Context.Each.empty.push data, by simp [context]⟩
  have ok : (store.render 3 document context).result = .ok ⟨"&lt;i&gt;&lt;p&gt;", .html⟩ := by
    cbv
  exact ⟨special, rfl, safe, tame, ok, Store.render_escapes special rfl safe tame ok⟩

end Stencil
