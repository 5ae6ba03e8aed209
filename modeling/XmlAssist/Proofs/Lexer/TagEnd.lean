import XmlAssist.Proofs.Lexer.TagName
import XmlAssist.Proofs.Lexer.TagPrefix

/-!
# The brackets that end tags

A `/>` is two bytes, and the `>` of an end tag is one (`lengths_step`): no other function of the lexer than
`insideTag` and `insideEndTag` reads them, and markup between tags is something else.
-/

namespace XmlAssist.Lexer

open Text (size isBoundary)

variable {s : String} {x : Lexer} {i : Nat} {r : Lexed}

/-- How long what was read at `i` is, if it ends a tag. -/
structure TagEnd (i : Nat) (r : Lexed) : Prop where
  selfClose : r.kind = .startTagSelfClose → r.lexer.pos = i + 2
  endTagClose : r.kind = .endTagClose → r.lexer.pos = i + 1

def EndsNoTag (kind : Token.Kind) : Prop := kind ≠ .startTagSelfClose ∧ kind ≠ .endTagClose

instance (kind : Token.Kind) : Decidable (EndsNoTag kind) := inferInstanceAs (Decidable (_ ∧ _))

theorem EndsNoTag.tagEnd (h : EndsNoTag r.kind) : TagEnd i r :=
  ⟨fun hkind => absurd hkind h.1, fun hkind => absurd hkind h.2⟩

/-! ## Between tags -/

theorem endsNoTag_of_firstOpener {openers : List (String × Token.Kind × Mode)}
    (ho : ∀ o ∈ openers, EndsNoTag o.2.1) (h : firstOpener s x openers = some r) : EndsNoTag r.kind := by
  obtain ⟨o, hmem, rfl⟩ := firstOpener_eq_some h
  exact ho o hmem

theorem endsNoTag_content (s : String) (x : Lexer) : EndsNoTag (content s x).kind := by
  unfold content
  split
  · rename_i r hr
    exact endsNoTag_of_firstOpener (by decide) hr
  · exact (by decide : EndsNoTag .text)

theorem endsNoTag_dtdContent (s : String) (x : Lexer) : EndsNoTag (dtdContent s x).kind := by
  unfold dtdContent
  split
  · exact (by decide : EndsNoTag .blank)
  split
  · exact (by decide : EndsNoTag (.dtd .subsetClose))
  split
  · rename_i r hr
    exact endsNoTag_of_firstOpener (by decide) hr
  split
  · exact endsNoTag_content ..
  · exact (by decide : EndsNoTag .text)

theorem endsNoTag_betweenMarkup (s : String) (x : Lexer) : EndsNoTag (betweenMarkup s x).kind := by
  unfold betweenMarkup
  split
  · exact endsNoTag_dtdContent ..
  · exact endsNoTag_content ..

/-! ## In tags -/

theorem tagEnd_insideTag (s : String) (x : Lexer) : TagEnd x.pos (insideTag s x) := by
  unfold insideTag
  split
  · exact (by decide : EndsNoTag .blank).tagEnd
  split
  · exact (by decide : EndsNoTag .prologClose).tagEnd
  split
  · exact (by decide : EndsNoTag .attributeName).tagEnd
  split
  · rename_i pos hclose
    refine ⟨fun _ => ?_, by rintro ⟨⟩⟩
    split at hclose
    · cases hclose
    · rw [literal?_close] at hclose
      split at hclose
      · exact (Option.some.inj hclose).symm
      · cases hclose
  split
  · exact (by decide : EndsNoTag .startTagClose).tagEnd
  split
  · exact (endsNoTag_betweenMarkup ..).tagEnd
  · exact (by decide : EndsNoTag .unknown).tagEnd

theorem tagEnd_insideEndTag (s : String) (x : Lexer) : TagEnd x.pos (insideEndTag s x) := by
  unfold insideEndTag
  split
  · exact (by decide : EndsNoTag .blank).tagEnd
  split
  · exact ⟨by rintro ⟨⟩, fun _ => rfl⟩
  split
  · exact (endsNoTag_content ..).tagEnd
  · exact (by decide : EndsNoTag .unknown).tagEnd

theorem tagEnd_startTag (s : String) (x : Lexer) : TagEnd x.pos (startTag s x) := by
  unfold startTag
  split
  · exact (by decide : EndsNoTag .startTagName).tagEnd
  split
  · exact (by decide : EndsNoTag .blank).tagEnd
  · exact tagEnd_insideTag s { x with mode := .inTag, spaced := false }

theorem tagEnd_endTag (s : String) (x : Lexer) : TagEnd x.pos (endTag s x) := by
  unfold endTag
  split
  · exact (by decide : EndsNoTag .endTagName).tagEnd
  split
  · exact (by decide : EndsNoTag .blank).tagEnd
  · exact tagEnd_insideEndTag s { x with mode := .inEndTag }

theorem tagEnd_attributeAssign (s : String) (x : Lexer) : TagEnd x.pos (attributeAssign s x) := by
  unfold attributeAssign
  split
  · exact (by decide : EndsNoTag .blank).tagEnd
  split
  · exact (by decide : EndsNoTag .assign).tagEnd
  · exact tagEnd_insideTag s { x with mode := x.tagMode }

theorem tagEnd_attributeValue (s : String) (x : Lexer) : TagEnd x.pos (attributeValue s x) := by
  unfold attributeValue
  split
  · exact (by decide : EndsNoTag .blank).tagEnd
  split
  · exact (by decide : EndsNoTag .attributeValue).tagEnd
  · dsimp only
    split
    · exact (by decide : EndsNoTag .attributeValue).tagEnd
    · exact tagEnd_insideTag s { { x with spaced := false } with mode := x.tagMode }

theorem mode_of_tagEnd (hc : x.Consistent) (hlt : x.pos < size s)
    (h : (lex s x).kind = .startTagSelfClose ∨ (lex s x).kind = .endTagClose) :
    x.mode = .afterStartTagOpen ∨ x.mode = .afterEndTagOpen ∨ x.mode = .inTag ∨ x.mode = .inEndTag ∨
      x.mode = .afterAttributeName ∨ x.mode = .beforeAttributeValue := by
  have hopeners {kind : Token.Kind} (hkind : kind = .startTagSelfClose ∨ kind = .endTagClose) :
      (∀ mode, ¬ StartsContent kind mode) ∧ ∀ mode, ¬ StartsDeclaration kind mode := by
    constructor
    · rintro mode (⟨rfl, -⟩ | hmem)
      · simp at hkind
      · rcases hkind with rfl | rfl <;> simp [contentOpeners] at hmem
    · rintro mode (⟨rfl, -⟩ | hmem)
      · simp at hkind
      · rcases hkind with rfl | rfl <;> simp [dtdOpeners] at hmem
  obtain ⟨y, spaced, hy, hreads⟩ := lex_turns hc hlt
  have hmode : y.mode = .inTag ∨ y.mode = .inEndTag := by
    unfold Gives at hreads
    generalize (lex s x).lexer.pos = pos at hreads
    generalize (lex s x).lexer.spaced = spaced at hreads
    generalize (lex s x).kind = kind at *
    generalize (lex s x).lexer = z at hreads
    cases hreads with
    | content _ hk => exact absurd hk ((hopeners h).1 _)
    | declaration _ hk => exact absurd hk ((hopeners h).2 _)
    | startTagSelfClose hm => exact .inl hm
    | endTagClose hm => exact .inr hm
    | _ => simp at h
  rcases hy with rfl | hfalls
  · rcases hmode with hmode | hmode <;> simp [hmode]
  · cases hfalls with
    | startTag hm => exact .inl hm
    | endTag hm => exact .inr (.inl hm)
    | backInTag hm => exact .inr (.inr (.inr (.inr hm)))
    | instruction hm => simp at hmode

theorem tagEnd_lex (hc : x.Consistent) (hlt : x.pos < size s) : TagEnd x.pos (lex s x) := by
  by_cases hkind : EndsNoTag (lex s x).kind
  · exact hkind.tagEnd
  · have hmode := mode_of_tagEnd hc hlt (by
      simpa [EndsNoTag, Classical.or_iff_not_imp_left] using hkind)
    rw [lex, if_neg (Nat.not_le_of_lt hlt)]
    rcases hmode with hm | hm | hm | hm | hm | hm
    all_goals rw [hm]
    · exact tagEnd_startTag s x
    · exact tagEnd_endTag s x
    · exact tagEnd_insideTag s x
    · exact tagEnd_insideEndTag s x
    · exact tagEnd_attributeAssign s x
    · exact tagEnd_attributeValue s x

/-- How long the brackets around the names of tags are. -/
structure Lengths (t : Token) : Prop where
  endTagOpen : t.kind = .endTagOpen → t.stop = t.start + 2
  selfClose : t.kind = .startTagSelfClose → t.stop = t.start + 2
  endTagClose : t.kind = .endTagClose → t.stop = t.start + 1

theorem lengths_step (hc : x.Consistent) (hx : isBoundary s x.pos = true) (hlt : x.pos < size s) :
    Lengths (x.step s).1 := by
  have htag := tagEnd_lex hc hlt
  rw [step_eq_lex hx hlt]
  exact ⟨stop_of_endTagOpen hc, htag.selfClose, htag.endTagClose⟩

end XmlAssist.Lexer
