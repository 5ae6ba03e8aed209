import Mathlib.Data.List.Basic
import XmlAssist.Diagnostics.Syntax
import XmlAssist.Proofs.Text.Lines
import XmlAssist.Proofs.Tree.Recording

/-!
# The tree keeps the text

Reading a text loses no token of a tag, an attribute, a text or a declaration and keeps none twice
(`KeepsTokens`), and every span in the tree covers what is written beside it (`Faithful`). Main
statement: both hold of every document, whatever its text and address (`parse_faithful`).
-/

namespace XmlAssist.Document

def tokens (d : Document) : List Token := (d.lexer.tokens d.text).map (·.1)

/-- What the elements keep, in the order of the nodes. -/
def elementRecords (d : Document) : List Element := d.nodes.toList.filterMap (·.element?)

def attributeRecords (d : Document) : List Attribute := d.nodes.toList.filterMap (·.attribute?)

def declarationRecords (d : Document) : List Declaration := d.nodes.toList.filterMap (·.declaration?)

/-- No token is lost and none is kept twice. Of start tags, attributes, texts and declarations the
nodes keep the tokens in the order of the text, so that every name is that of the tag before it; an
end tag is kept by the element that it closes. -/
structure KeepsTokens (d : Document) : Prop where
  distinct : d.tokens.Pairwise (·.start < ·.start)
  inOrder : d.nodes.toList.flatMap Node.parts = d.tokens.filterMap (Token.part d.text)
  startTagOpen : d.elementRecords.filterMap (·.startOpen) =
    (d.tokens.filter (·.kind = .startTagOpen)).map (·.start)
  startTagName : d.elementRecords.filterMap (·.tagSpan) =
    (d.tokens.filter (·.kind = .startTagName)).map (·.span)
  endTagOpen : (d.elementRecords.filterMap (·.endOpen)).Perm
    ((d.tokens.filter (·.kind = .endTagOpen)).map (·.start))
  endTagName : (d.elementRecords.filterMap (·.endTagSpan)).Perm
    ((d.tokens.filter (·.kind = .endTagName)).map (·.span))
  attributeName : d.attributeRecords.map (·.nameSpan) =
    (d.tokens.filter (·.kind = .attributeName)).map (·.span)
  attributeValue : d.attributeRecords.filterMap (·.valueSpan) =
    (d.tokens.filter (·.kind = .attributeValue)).map (·.span)
  text : (d.nodes.toList.filter (·.isText)).map (·.span) =
    (d.tokens.filter (·.kind = .text)).map (·.span)
  parameter : d.declarationRecords.flatMap (·.parameters) =
    (d.tokens.filter (·.isParameter)).map (Builder.parameter d.text)

/-- Every span that a node keeps lies in the text, from boundary to boundary, and has a range; the
strings beside the spans are what they cover. -/
structure Faithful (d : Document) : Prop where
  lies : ∀ n ∈ d.nodes, ∀ sp ∈ n.span :: n.kind.spans, Lies d.text d.size sp
  range : ∀ n ∈ d.nodes, ∀ sp ∈ n.span :: n.kind.spans, ∃ r, d.rangeOf sp = .ok r
  quotes : ∀ n ∈ d.nodes, n.kind.Quotes d.text

/-! ## Parts of one kind -/

section select
variable {α : Type} {nodes : List Node} {ts : List Token} {parts : Node → List Part}
variable {part : Token → Option Part} {f : Node → List α} {p : Token → Bool} {v : Token → α}
variable (g : Part → Option α)

theorem filterMap_parts (hn : ∀ n, (parts n).filterMap g = f n) (nodes : List Node) :
    (nodes.flatMap parts).filterMap g = nodes.flatMap f := by
  rw [List.filterMap_flatMap]
  exact congrArg (nodes.flatMap ·) (funext hn)

theorem filterMap_part (ht : ∀ t, (part t).bind g = if p t then some (v t) else none)
    (ts : List Token) : (ts.filterMap part).filterMap g = (ts.filter p).map v := by
  rw [List.filterMap_filterMap, ← List.filterMap_eq_map, List.filterMap_filter]
  exact congrArg (ts.filterMap ·) (funext ht)

theorem flatMap_eq_of_parts (h : nodes.flatMap parts = ts.filterMap part)
    (hn : ∀ n, (parts n).filterMap g = f n)
    (ht : ∀ t, (part t).bind g = if p t then some (v t) else none) :
    nodes.flatMap f = (ts.filter p).map v := by
  rw [← filterMap_parts g hn, h, filterMap_part g ht]

theorem flatMap_perm_of_parts (h : (nodes.flatMap parts).Perm (ts.filterMap part))
    (hn : ∀ n, (parts n).filterMap g = f n)
    (ht : ∀ t, (part t).bind g = if p t then some (v t) else none) :
    (nodes.flatMap f).Perm ((ts.filter p).map v) := by
  rw [← filterMap_parts g hn, ← filterMap_part g ht]
  exact h.filterMap g

end select

theorem keepsTokens_of_parts {d : Document} (hdistinct : d.tokens.Pairwise (·.start < ·.start))
    (hparts : d.nodes.toList.flatMap Node.parts = d.tokens.filterMap (Token.part d.text))
    (hends : (d.nodes.toList.flatMap Node.ends).Perm (d.tokens.filterMap Token.endPart)) :
    d.KeepsTokens where
  distinct := hdistinct
  inOrder := hparts
  -- each kind of part is read off one of the two: the other parts of a node are dropped
  startTagOpen := by
    rw [elementRecords, List.filterMap_filterMap, List.filterMap_eq_flatMap_toList]
    refine flatMap_eq_of_parts Part.startTagOpen? hparts (fun n => ?_) fun t => ?_
    · cases hk : n.kind <;>
        simp [Node.parts, Node.Kind.parts, Node.element?, hk, List.filterMap_map, Function.comp_def]
    · cases hk : t.kind <;> simp [Token.part, hk]
  startTagName := by
    rw [elementRecords, List.filterMap_filterMap, List.filterMap_eq_flatMap_toList]
    refine flatMap_eq_of_parts Part.startTagName? hparts (fun n => ?_) fun t => ?_
    · cases hk : n.kind <;>
        simp [Node.parts, Node.Kind.parts, Node.element?, hk, List.filterMap_map, Function.comp_def]
    · cases hk : t.kind <;> simp [Token.part, hk]
  endTagOpen := by
    rw [elementRecords, List.filterMap_filterMap, List.filterMap_eq_flatMap_toList]
    refine flatMap_perm_of_parts Part.endTagOpen? hends (fun n => ?_) fun t => ?_
    · cases hk : n.kind <;>
        simp [Node.ends, Node.Kind.ends, Node.element?, hk, List.filterMap_map, Function.comp_def]
    · cases hk : t.kind <;> simp [Token.endPart, hk]
  endTagName := by
    rw [elementRecords, List.filterMap_filterMap, List.filterMap_eq_flatMap_toList]
    refine flatMap_perm_of_parts Part.endTagName? hends (fun n => ?_) fun t => ?_
    · cases hk : n.kind <;>
        simp [Node.ends, Node.Kind.ends, Node.element?, hk, List.filterMap_map, Function.comp_def]
    · cases hk : t.kind <;> simp [Token.endPart, hk]
  attributeName := by
    rw [attributeRecords, List.map_filterMap, List.filterMap_eq_flatMap_toList]
    refine flatMap_eq_of_parts Part.attributeName? hparts (fun n => ?_) fun t => ?_
    · cases hk : n.kind <;>
        simp [Node.parts, Node.Kind.parts, Node.attribute?, hk, List.filterMap_map,
          Function.comp_def]
    · cases hk : t.kind <;> simp [Token.part, hk]
  attributeValue := by
    rw [attributeRecords, List.filterMap_filterMap, List.filterMap_eq_flatMap_toList]
    refine flatMap_eq_of_parts Part.attributeValue? hparts (fun n => ?_) fun t => ?_
    · cases hk : n.kind <;>
        simp [Node.parts, Node.Kind.parts, Node.attribute?, hk, List.filterMap_cons,
          List.filterMap_map, Function.comp_def]
    · cases hk : t.kind <;> simp [Token.part, hk]
  text := by
    rw [← List.filterMap_eq_map, List.filterMap_filter, List.filterMap_eq_flatMap_toList]
    refine flatMap_eq_of_parts Part.text? hparts (fun n => ?_) fun t => ?_
    · cases hk : n.kind <;>
        simp [Node.parts, Node.Kind.parts, Node.isText, hk, List.filterMap_map, Function.comp_def]
    · cases hk : t.kind <;> simp [Token.part, hk]
  parameter := by
    rw [declarationRecords, List.filterMap_eq_flatMap_toList, List.flatMap_assoc]
    refine flatMap_eq_of_parts Part.parameter? hparts (fun n => ?_) fun t => ?_
    · cases hk : n.kind <;>
        simp [Node.parts, Node.Kind.parts, Node.declaration?, hk, List.filterMap_map,
          Function.comp_def]
    · cases hk : t.kind with
      | dtd k => cases hp : k.isParameter <;> simp [Token.part, Token.isParameter, hk, hp]
      | _ => simp [Token.part, Token.isParameter, hk]

/-! ## Every document -/

theorem tokens_parse (text uri : String) : (parse text uri).tokens =
    Builder.scanned text (if isDtdUri uri then Lexer.declarations else Lexer.document) := rfl

theorem exists_rangeOf {text uri : String} {sp : Span} (hstart : Text.isBoundary text sp.start = true)
    (hstop : Text.isBoundary text sp.stop = true) : ∃ r, (parse text uri).rangeOf sp = .ok r := by
  obtain ⟨p, hp⟩ := LineIndex.exists_positionAt_iff.mpr hstart
  obtain ⟨q, hq⟩ := LineIndex.exists_positionAt_iff.mpr hstop
  refine ⟨⟨p, q⟩, ?_⟩
  have hp' : (parse text uri).positionAt sp.start = .ok p := hp
  have hq' : (parse text uri).positionAt sp.stop = .ok q := hq
  rw [rangeOf, hp', hq']
  rfl

theorem lies_of_mem {text uri : String} {n : Node} (hn : n ∈ (parse text uri).nodes) :
    ∀ sp ∈ n.span :: n.kind.spans, Lies text (Text.size text) sp := by
  obtain ⟨id, hid⟩ := Array.mem_iff_getElem?.mp hn
  obtain ⟨⟨_, hnested⟩, -⟩ := Builder.build_spec text (isDtdUri uri)
  have hsound := (Builder.build_keeps text (isDtdUri uri)).2.2 id n hid
  intro sp hsp
  rcases List.mem_cons.mp hsp with rfl | hsp
  · exact ⟨hnested.start_le_stop hid, (hnested.span_le hid).2, hsound.start, hsound.stop⟩
  · exact hsound.kind.spans sp hsp

theorem quotes_of_mem {text uri : String} {n : Node} (hn : n ∈ (parse text uri).nodes) : n.kind.Quotes text := by
  obtain ⟨-, -, hsound⟩ := Builder.build_keeps text (isDtdUri uri)
  obtain ⟨id, hid⟩ := Array.mem_iff_getElem?.mp hn
  exact (hsound id n hid).kind.quotes

/-- **The tree keeps the text**: reading loses no token and keeps none twice, and every span in the
tree lies in the text, has a range and covers what is written beside it. -/
theorem parse_faithful (text uri : String) :
    (parse text uri).KeepsTokens ∧ (parse text uri).Faithful := by
  obtain ⟨hparts, hends, -⟩ := Builder.build_keeps text (isDtdUri uri)
  refine ⟨keepsTokens_of_parts ?_ hparts hends, fun n hn => lies_of_mem hn, fun n hn sp hsp => ?_,
    fun n hn => quotes_of_mem hn⟩
  · rw [tokens_parse]
    split <;> exact (Builder.scanned_pairwise _ (Text.isBoundary_zero text)).1
  · have hlies := lies_of_mem hn sp hsp
    exact exists_rangeOf hlies.start hlies.stop

end XmlAssist.Document
