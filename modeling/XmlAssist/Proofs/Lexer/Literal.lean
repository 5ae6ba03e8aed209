import XmlAssist.Proofs.Edits.Reading
import XmlAssist.Text.Quoted

/-!
# Quoted literals

A literal of a document type or of a declaration starts with its quote, and ends behind the next one or where it is
cut off (`quotes_step`): only `quoted?` reads such tokens.
-/

namespace XmlAssist

open Text (size isBoundary byte? bytesOf slice)

/-- The token covers the quote `q` and `content`, in which that quote does not stand, and then the quote again, unless
the token says that the literal is not closed. -/
structure Token.Quotes (s : String) (t : Token) (q : Char) (content : String) : Prop where
  quote : Text.isQuote q = true
  free : q ∉ content.toList
  fault : t.fault = none ∨ t.fault = some .unterminatedLiteral
  written : t.written s =
    String.singleton q ++ content ++ (if t.fault = none then String.singleton q else "")

/-- The kinds of the tokens that are quoted literals. -/
def Token.literals : List Token.DtdKind :=
  [.doctypePublicId, .doctypeSystemId, .entityValue, .entityPublicId, .entitySystemId, .notationPublicId,
    .notationSystemId]

namespace Lexer

variable {s : String} {x : Lexer} {i j k : Nat} {b : UInt8} {stops : List UInt8} {r : Lexed}

/-! ## Where a literal ends -/

theorem exists_quote (hb : isQuoteByte b = true) :
    ∃ q, Text.isQuote q = true ∧ q.toNat < 128 ∧ UInt8.ofNat q.toNat = b ∧
      bytesOf (String.singleton q) = [b] := by
  simp only [isQuoteByte, Bool.or_eq_true, beq_iff_eq] at hb
  rcases hb with rfl | rfl
  · exact ⟨'"', by decide⟩
  · exact ⟨'\'', by decide⟩

theorem slice_succ {p : String} (h : byte? s i = some b) (hb : b < 0x80) (hp : bytesOf p = [b]) :
    slice s i (i + 1) = p := by
  refine Text.eq_of_bytesOf_eq ?_
  obtain ⟨hlt, rfl⟩ := Text.byte?_eq_some h
  rw [Text.bytesOf_slice (Text.isBoundary_of_lt h hb) (Text.isBoundary_succ h hb) (Nat.le_succ i),
    Text.rest_of_lt hlt, hp]
  simp

theorem slice_quoted? (hstops : Ascii stops) {closed : Bool} (h : quoted? stops s i = some (j, closed)) :
    ∃ q content, Text.isQuote q = true ∧ q ∉ content.toList ∧
      slice s i j = String.singleton q ++ content ++ (if closed then String.singleton q else "") := by
  rw [quoted?] at h
  split at h
  · rename_i b hb
    split at h
    · rename_i hquote
      have hb80 := lt_of_isQuoteByte hquote
      obtain ⟨q, hq, hlt, hbyte, hbytes⟩ := exists_quote hquote
      have hi := Text.isBoundary_of_lt hb hb80
      have hnext := Text.isBoundary_succ hb hb80
      have hstop := isBoundary_untilAny (.cons hb80 hstops) (Text.le_size_of_isBoundary hnext)
      have hle := le_untilAny (s := s) (i := i + 1) (b :: stops)
      have hfree : q ∉ (slice s (i + 1) (untilAny (b :: stops) s (i + 1))).toList := by
        refine Text.not_mem_toList hlt ?_
        rw [hbyte]
        intro hmem
        simpa using Text.of_mem_slice hnext hstop hle (Nat.le_refl _) hmem
      have hopen := Text.slice_append hi hnext hstop (Nat.le_succ i) hle
      rw [slice_succ hb hb80 hbytes] at hopen
      refine ⟨q, _, hq, hfree, ?_⟩
      rw [hopen]
      dsimp only at h
      split at h
      · rename_i hclose
        obtain ⟨rfl, rfl⟩ := Prod.mk.inj (Option.some.inj h)
        have hclose : byte? s (untilAny (b :: stops) s (i + 1)) = some b := by simpa using hclose
        rw [if_pos rfl, ← slice_succ hclose hb80 hbytes]
        exact (Text.slice_append hi hstop (Text.isBoundary_succ hclose hb80) (by omega) (Nat.le_succ _)).symm
      · obtain ⟨rfl, rfl⟩ := Prod.mk.inj (Option.some.inj h)
        rw [if_neg (by decide), String.append_empty]
    · cases h
  · cases h

/-! ## What reads literals -/

/-- If what was read at `i` is a literal, it is one with its quotes. -/
def Quoted (s : String) (i : Nat) (r : Lexed) : Prop := ∀ kind ∈ Token.literals, r.kind = .dtd kind →
  ∃ stops closed, Ascii stops ∧ quoted? stops s i = some (r.lexer.pos, closed) ∧ r.fault = literalFault closed

def NoLiteral (kind : Token.Kind) : Prop := ∀ k ∈ Token.literals, kind ≠ .dtd k

instance (kind : Token.Kind) : Decidable (NoLiteral kind) := inferInstanceAs (Decidable (∀ k ∈ Token.literals, _))

theorem NoLiteral.quoted (h : NoLiteral r.kind) : Quoted s i r := fun k hk hkind => absurd hkind (h k hk)

theorem noLiteral_content (s : String) (x : Lexer) : NoLiteral (content s x).kind := by
  unfold content
  split
  · rename_i r hr
    obtain ⟨o, ho, rfl⟩ := firstOpener_eq_some hr
    exact (by decide : ∀ o ∈ contentOpeners, NoLiteral o.2.1) o ho
  · exact (by decide : NoLiteral .text)

theorem noLiteral_dtdContent (s : String) (x : Lexer) : NoLiteral (dtdContent s x).kind := by
  unfold dtdContent
  split
  · exact (by decide : NoLiteral .blank)
  split
  · exact (by decide : NoLiteral (.dtd .subsetClose))
  split
  · rename_i r hr
    obtain ⟨o, ho, rfl⟩ := firstOpener_eq_some hr
    exact (by decide : ∀ o ∈ dtdOpeners, NoLiteral o.2.1) o ho
  split
  · exact noLiteral_content s _
  · exact (by decide : NoLiteral .text)

theorem quoted_unrecognized : Quoted s i (unrecognized stops s x) :=
  (by decide : NoLiteral (.dtd .unrecognized)).quoted

theorem quoted_getD {o : Option Lexed} {junk : Lexed} (ho : ∀ r, o = some r → Quoted s i r)
    (hjunk : Quoted s i junk) :
    Quoted s i (o.getD junk) := by
  cases o with
  | none => exact hjunk
  | some r => exact ho r rfl

theorem quoted_emit_map {f : Nat → Lexed} {o : Option Nat} (hf : ∀ pos, NoLiteral (f pos).kind) :
    ∀ r, o.map f = some r → Quoted s i r := by
  intro r hr
  obtain ⟨pos, -, rfl⟩ := Option.map_eq_some_iff.mp hr
  exact (hf pos).quoted

theorem quoted_literal {kind : Token.Kind} {mode : Mode} (hstops : Ascii stops) :
    ∀ r, ((quoted? stops s x.pos).map fun (pos, closed) => x.emit kind pos mode (literalFault closed)) = some r →
      Quoted s x.pos r := by
  intro r hr
  obtain ⟨⟨pos, closed⟩, hquoted, rfl⟩ := Option.map_eq_some_iff.mp hr
  exact fun _ _ _ => ⟨stops, closed, hstops, hquoted, rfl⟩

theorem quoted_doctypeParameter (stage : DoctypeStage) : Quoted s x.pos (doctypeParameter s x stage) := by
  unfold doctypeParameter
  cases stage with
  | start =>
    exact quoted_getD (quoted_emit_map fun _ => (by decide : NoLiteral (.dtd .doctypeName))) quoted_unrecognized
  | named =>
    dsimp only
    split
    · exact (by decide : NoLiteral (.dtd .doctypePublic)).quoted
    · exact quoted_getD (quoted_emit_map fun _ => (by decide : NoLiteral (.dtd .doctypeSystem))) quoted_unrecognized
  | publicKeyword | publicId | systemKeyword => exact quoted_getD (quoted_literal (by decide)) quoted_unrecognized
  | ids | subset => exact quoted_unrecognized

theorem quoted_declarationParameter (stage : DeclarationStage) : Quoted s x.pos (declarationParameter s x stage) := by
  have hjunk : Quoted s x.pos (unrecognized (if x.inSubset then [0x3C, 0x3E, 0x5D] else [0x3C, 0x3E]) s x) :=
    quoted_unrecognized
  have hname {kind : Token.DtdKind} {next : DeclarationStage} {o : Option Nat} (hkind : NoLiteral (.dtd kind)) :
      ∀ r, (o.map fun pos => x.emit (.dtd kind) pos (.declaration next)) = some r → Quoted s x.pos r :=
    quoted_emit_map fun _ => hkind
  unfold declarationParameter
  cases stage with
  | elementStart | attlistStart | attributeName | notationStart => exact quoted_getD (hname (by decide)) hjunk
  | elementDone | entityDone | notationDone => exact hjunk
  | elementNamed =>
    dsimp only
    split
    · exact (by decide : NoLiteral (.dtd .contentOpen)).quoted
    · exact quoted_getD (hname (by decide)) (quoted_getD (hname (by decide)) hjunk)
  | elementContent =>
    dsimp only [elementContent]
    split
    · exact (by decide : NoLiteral (.dtd .contentClose)).quoted
    · exact (by decide : NoLiteral (.dtd .contentBody)).quoted
  | attributeType => exact quoted_getD (hname (by decide)) hjunk
  | attributeDefault =>
    refine quoted_getD (fun r hr => ?_) hjunk
    obtain ⟨_, -, rfl⟩ := Option.map_eq_some_iff.mp hr
    exact (by decide : NoLiteral (.dtd .attributeDefault)).quoted
  | entityStart =>
    dsimp only
    split
    · exact (by decide : NoLiteral (.dtd .entityPercent)).quoted
    · exact quoted_getD (hname (by decide)) hjunk
  | entityNamed =>
    exact quoted_getD (hname (by decide)) (quoted_getD (hname (by decide))
      (quoted_getD (quoted_literal (by decide)) hjunk))
  | notationNamed => exact quoted_getD (hname (by decide)) (quoted_getD (hname (by decide)) hjunk)
  | entityPublic | entityPublicId | entitySystem | notationPublic | notationPublicId | notationSystem =>
    exact quoted_getD (quoted_literal (by decide)) hjunk

theorem quoted_doctype (stage : DoctypeStage) : Quoted s x.pos (doctype s x stage) := by
  unfold doctype
  split
  · exact (by decide : NoLiteral .blank).quoted
  split
  · exact (by decide : NoLiteral (.dtd .subsetOpen)).quoted
  split
  · exact (by decide : NoLiteral (.dtd .doctypeClose)).quoted
  split
  · exact (noLiteral_content s _ : NoLiteral _).quoted
  · exact quoted_doctypeParameter stage

theorem quoted_declaration (stage : DeclarationStage) : Quoted s x.pos (declaration s x stage) := by
  unfold declaration
  split
  · exact (by decide : NoLiteral .blank).quoted
  split
  · exact (by decide : NoLiteral (.dtd .declarationClose)).quoted
  split
  · exact (noLiteral_dtdContent s _ : NoLiteral _).quoted
  · exact quoted_declarationParameter stage

theorem mode_of_literal (hc : x.Consistent) (hlt : x.pos < size s) {kind : Token.DtdKind}
    (hkind : kind ∈ Token.literals) (h : (lex s x).kind = .dtd kind) :
    (∃ stage, x.mode = .doctype stage) ∨ ∃ stage, x.mode = .declaration stage := by
  obtain ⟨y, spaced, hy, hreads⟩ := lex_turns hc hlt
  have hmode : (∃ stage, y.mode = .doctype stage) ∨ ∃ stage, y.mode = .declaration stage := by
    unfold Gives at hreads
    rw [h] at hreads
    generalize (lex s x).lexer.pos = pos at hreads
    generalize (lex s x).lexer.spaced = spaced at hreads
    generalize (lex s x).lexer = z at hreads
    generalize hk : Token.Kind.dtd kind = k at hreads
    have hno : ¬ NoLiteral k := fun hno => hno kind hkind hk.symm
    cases hreads with
    | content _ hstarts =>
      rcases hstarts with ⟨rfl, -⟩ | hmem
      · exact absurd (by decide) hno
      · exact absurd ((by decide : ∀ o ∈ contentOpeners.map (·.2), NoLiteral o.1) _ hmem) hno
    | declaration _ hstarts =>
      rcases hstarts with ⟨rfl, -⟩ | hmem
      · exact absurd (by decide) hno
      · exact absurd ((by decide : ∀ o ∈ dtdOpeners.map (·.2), NoLiteral o.1) _ hmem) hno
    | doctypeParameter hm | subsetOpen hm | doctypeClose hm => exact .inl ⟨_, hm⟩
    | declarationParameter hm | declarationClose hm => exact .inr ⟨_, hm⟩
    | _ => exact absurd (by decide) hno
  rcases hy with rfl | hfalls
  · exact hmode
  · cases hfalls with
    | startTag | endTag | instruction => simp at hmode
    | backInTag =>
      simp only [moved_mode, tagMode] at hmode
      split at hmode <;> simp at hmode

theorem quoted_lex (hc : x.Consistent) (hlt : x.pos < size s) : Quoted s x.pos (lex s x) := by
  intro kind hkind h
  have hmode := mode_of_literal hc hlt hkind h
  rw [lex, if_neg (Nat.not_le_of_lt hlt)] at h ⊢
  rcases hmode with ⟨stage, hm⟩ | ⟨stage, hm⟩ <;> rw [hm] at h ⊢
  · exact quoted_doctype stage kind hkind h
  · exact quoted_declaration stage kind hkind h

/-- **What is read as a literal is one**, closed or cut off. -/
theorem quotes_step (hc : x.Consistent) (hx : isBoundary s x.pos = true) (hlt : x.pos < size s)
    {kind : Token.DtdKind} (hkind : kind ∈ Token.literals) (h : (x.step s).1.kind = .dtd kind) :
    ∃ q content, (x.step s).1.Quotes s q content := by
  rw [step_eq_lex hx hlt] at h ⊢
  obtain ⟨stops, closed, hstops, hquoted, hfault⟩ := quoted_lex hc hlt kind hkind h
  obtain ⟨q, content, hq, hfree, hslice⟩ := slice_quoted? hstops hquoted
  refine ⟨q, content, hq, hfree, ?_, ?_⟩
  · rw [hfault]
    cases closed with
    | true => exact .inl rfl
    | false => exact .inr rfl
  · rw [Token.written, hslice, hfault]
    cases closed <;> rfl

end Lexer

end XmlAssist
