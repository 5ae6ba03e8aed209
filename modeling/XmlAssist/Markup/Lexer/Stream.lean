import XmlAssist.Markup.Lexer.Doctype

/-!
# The stream of tokens

One step of the lexer, and the tokens from a state up to the end of the text. Main statement: a
step that is not at the end moves forward, so that the stream is finite.
-/

namespace XmlAssist.Lexer

/-- The token at the cursor, by the mode. -/
def lex (s : String) (x : Lexer) : Lexed :=
  if Text.size s ≤ x.pos then ⟨.eos, x, none⟩
  else
    match x.mode with
    | .content => content s x
    | .afterStartTagOpen => startTag s x
    | .afterEndTagOpen => endTag s x
    | .inTag | .inProlog => insideTag s x
    | .inEndTag => insideEndTag s x
    | .afterAttributeName => attributeAssign s x
    | .beforeAttributeValue => attributeValue s x
    | .inComment => delimited "-->" .commentText .commentClose .unterminatedComment s x
    | .inCData => delimited "]]>" .cdataText .cdataClose .unterminatedCData s x
    | .afterInstructionOpen => instruction s x
    | .inInstruction => insideInstruction s x
    | .dtdContent => dtdContent s x
    | .doctype stage => doctype s x stage
    | .declaration stage => declaration s x stage

/-- The next token and the lexer behind it. Should a mode not move forward, one character is
skipped and reported. -/
def step (s : String) (x : Lexer) : Token × Lexer :=
  let r := lex s x
  if r.kind ≠ .eos ∧ r.lexer.pos ≤ x.pos then
    let pos := Text.nextChar s x.pos
    (⟨.unknown, x.pos, pos, some .unexpectedCharacter⟩, { r.lexer with pos })
  else (⟨r.kind, x.pos, r.lexer.pos, r.fault⟩, r.lexer)

/-- A step that is not at the end of the text moves forward. -/
theorem step_pos_lt (s : String) (x : Lexer) (h : (x.step s).1.kind ≠ .eos) :
    x.pos < Text.size s ∧ x.pos < (x.step s).2.pos := by
  have hlt : x.pos < Text.size s := by
    refine Nat.lt_of_not_le fun hle => h ?_
    have hl : lex s x = ⟨.eos, x, none⟩ := by unfold lex; exact if_pos hle
    unfold step
    simp [hl]
  refine ⟨hlt, ?_⟩
  simp only [step] at h ⊢
  split
  · exact Text.lt_nextChar s x.pos hlt
  · rename_i hn
    rw [if_neg hn] at h
    simp only at h
    exact Nat.lt_of_not_le fun hle => hn ⟨h, hle⟩

/-- The tokens from a state up to the end of the text, that of the end included, each with the
lexer behind it. -/
def run (s : String) (x : Lexer) : List (Token × Lexer) :=
  if _h : (x.step s).1.kind = .eos then [x.step s] else x.step s :: run s (x.step s).2
termination_by Text.size s - x.pos
decreasing_by
  have := step_pos_lt s x _h
  omega

/-- The tokens from a state on, without that of the end. -/
def tokens (s : String) (x : Lexer) : List (Token × Lexer) :=
  (x.run s).filter fun (t, _) => t.kind != .eos

end XmlAssist.Lexer
