import XmlAssist.Proofs.Edits.Attribute
import XmlAssist.Proofs.Tree.Sections

/-!
# Markup behind the end of a text

Where markup is put behind the end of a text, what stands in front of it is read as before, unless the text breaks off
in something that goes on over brackets: a comment, a CDATA section, an instruction or the literal of an entity. There a
node is left without its end. So where each of them has its end, the same is read up to the end of the old text
(`Builder.upToEnd`), and the markup behind it is read in a mode that yields to it.
-/

namespace XmlAssist

open Node
open Text (SameTo Stretch shift byte? size isBoundary bytesOf startsAt)
open Lexer (Leads Reads Falls)

/-- What the node has to end with is there. -/
def Node.Kind.isTerminated : Kind → Bool
  | .comment c | .cdata c => c.closed
  | .instruction i => i.closed
  | .doctype d => d.closed
  | _ => true

/-- Every comment, CDATA section, instruction and document type has its end. -/
def Document.IsTerminated (d : Document) : Prop := ∀ n ∈ d.nodes, n.kind.isTerminated = true

instance (d : Document) : Decidable d.IsTerminated := inferInstanceAs (Decidable (∀ n ∈ d.nodes, _))

namespace Lexer

variable {s s' : String} {x y : Lexer} {l : List (Token × Lexer)} {pos : Nat} {spaced : Bool} {kind : Token.Kind}
variable {k : Section}

/-! ## The end of a section -/

/-- A token of a section is its last literal, or leaves the section open, or is the name of the XML declaration. -/
theorem Reads.of_section (hr : Reads x pos spaced kind y) (hx : x.mode.section? = some k) :
    kind = k.last ∨ y.mode.section? = some k ∨ y.inProlog = true := by
  have hmode {mode : Mode} (hm : x.mode = mode) : mode.section? = some k := hm ▸ hx
  cases hr with
  | blank => exact .inr (.inl hx)
  | content hy | declaration hy =>
    rw [Builder.section?_of_yields (by first | exact .inl hy | exact .inr hy)] at hx
    cases hx
  | commentClose hm | cdataClose hm | instructionClose hm =>
    obtain rfl := Option.some.inj (hmode hm)
    exact .inl rfl
  | commentText hm | cdataText hm | instructionContent hm => exact .inr (.inl (hmode hm))
  | instructionTarget hm =>
    obtain rfl := Option.some.inj (hmode hm)
    exact .inr (.inl rfl)
  | prologName => exact .inr (.inr rfl)
  | unknown hm => rcases hm with hm | hm | hm <;> cases hmode hm
  | attributeName hm => rcases hm with hm | hm <;> cases hmode hm
  | subsetClose hy =>
    rw [Builder.section?_of_yields (.inr hy)] at hx
    cases hx
  | startTagName hm | startTagClose hm | startTagSelfClose hm | endTagName hm | endTagClose hm | assign hm
  | attributeValue hm | prologClose hm | subsetOpen hm | doctypeClose hm | doctypeParameter hm
  | declarationClose hm | declarationParameter hm => cases hmode hm

theorem Leads.dtdFile_eq (h : Leads s x l y) (hx : isBoundary s x.pos = true) (hc : x.Consistent) :
    y.dtdFile = x.dtdFile := by
  induction h with
  | here => rfl
  | next hlt _ ih =>
    obtain ⟨hc', hfile⟩ := dtdFile_step hx hlt hc
    exact (ih (boundary_step hx hlt) hc').trans hfile

theorem InSection.stands_of_last {r : Lexed} {i : Nat} (h : InSection s i k r) (hk : r.kind = k.last) :
    startsAt s i (bytesOf k.closing) = true := by
  cases h with
  | last stands => exact stands
  | before only _ kind =>
    subst only
    rw [hk] at kind
    simp [Section.last] at kind
  | inside _ kind | cut _ kind =>
    rw [hk] at kind
    cases k <;> cases kind

theorem step_section_sameTo (hb : isBoundary s x.pos = true) (hc : x.Consistent) (hlt : x.pos < size s)
    (hsame : SameTo s s' (size s)) (hx : x.mode.section? = some k) (hy : (x.step s).2.mode.section? = none)
    (hprolog : (x.step s).2.inProlog = false) : x.step s' = x.step s := by
  have hahead := Leads.pos_lt_step hb hlt
  have hnext := Text.le_size_of_isBoundary (Leads.boundary_step hb hlt)
  rw [step_eq_lex hb hlt] at hy hprolog hahead hnext ⊢
  have hlast : (lex s x).kind = k.last := by
    obtain ⟨z, spaced, hz, hreads⟩ := lex_turns hc hlt
    have hzx : z.mode.section? = some k := by
      rcases hz with rfl | hfall
      · exact hx
      · exact (Builder.section?_of_falls hfall).trans hx
    rcases hreads.of_section hzx with hkind | hmode | hin
    · exact hkind
    · cases hmode.symm.trans hy
    · cases hin.symm.trans hprolog
  have hstands := (lex_section hx hlt).stands_of_last hlast
  have hlex := lex_last hx hstands
  rw [hlex] at hahead hnext ⊢
  have hlex' := lex_last (s := s') hx (by rwa [startsAt_sameTo hsame (by rw [Text.length_bytesOf]; exact hnext)])
  rw [step_of_lex (by rw [hlex']; exact hahead), hlex']

theorem lex_declaration_or {stage : DeclarationStage} (hmode : x.mode = .declaration stage) (hd : x.inDtd = true)
    (hlt : x.pos < size s) : (lex s x).lexer.inDtd = true ∨ ∀ {t : String}, byte? t x.pos = byte? s x.pos →
      x.step t = step t { x with mode := .dtdContent } := by
  obtain ⟨b, hb⟩ : ∃ b, byte? s x.pos = some b := ⟨_, dif_pos hlt⟩
  by_cases hbreak : b = 0x3C ∨ (b = 0x5D ∧ x.inSubset = true)
  · refine .inr fun {t} ht => ?_
    rw [hb] at ht
    have hlt' : ¬ size t ≤ x.pos := Nat.not_le_of_lt (Text.lt_size_of_byte? ht)
    have hspace : space? t x.pos = none := by
      refine space?_eq_none fun c hc => ?_
      rw [← Text.byte?_eq_head?, ht] at hc
      obtain rfl := Option.some.inj hc
      rcases hbreak with rfl | ⟨rfl, -⟩ <;> rfl
    have hlex : lex t x = lex t { x with mode := .dtdContent } := by
      rw [lex, if_neg hlt', lex, if_neg hlt', hmode]
      show declaration t x stage = dtdContent t { x with mode := .dtdContent }
      rw [declaration, hspace]
      rcases hbreak with rfl | ⟨rfl, hsubset⟩ <;> simp [sees, peek, *]
    rw [step, hlex]
    rfl
  · rw [lex, if_neg (Nat.not_le_of_lt hlt), hmode]
    show (declaration s x stage).lexer.inDtd = true ∨ _
    left
    unfold declaration
    split
    · exact hd
    · split
      · exact hd
      · split
        · rename_i hsees
          refine absurd ?_ hbreak
          simpa [sees, peek, hb, and_comm] using hsees
        · exact inDtd_declarationParameter stage hd

section bracket
variable (hsame : SameTo s s' (size s)) (hb' : byte? s' (size s) = some 0x3C)
include hsame hb'

theorem stretch_end : Stretch s 0 s' 0 (size s) := by
  have hnone : byte? s (size s) = none := dif_neg (Nat.lt_irrefl _)
  exact hsame.stretch (by simp [hnone]) (by simp [hb'])

theorem step_sameTo_end (hb : isBoundary s x.pos = true) (hlt : x.pos < size s) (hnear : x.mode.looksFar = false) :
    x.step s' = x.step s := by
  have hstep := step_stretch (stretch_end hsame hb') hb hlt (Nat.zero_le _) (by omega) (fun _ => by simp [shift])
    fun hfar => by cases hnear.symm.trans hfar
  simpa only [shift, Nat.sub_zero, Nat.zero_add, goTo_self, shiftRead_zero] using hstep

/-- What is read up to the end of a text is read in every text that goes on with a bracket, if the last token is. -/
theorem Leads.upToEnd (h : Leads s .document l y) (hlast : ∀ l₀ x, Leads s .document l₀ x → x.pos < size s →
    (x.step s).2 = y → l = l₀ ++ [x.step s] → x.step s' = x.step s) : Leads s' .document l y := by
  have hzero := Text.isBoundary_zero s
  have hlt' : size s < size s' := Text.lt_size_of_byte? hb'
  rcases List.eq_nil_or_concat l with rfl | ⟨l₀, p, rfl⟩
  · cases h
    exact .here _
  · rw [List.concat_eq_append] at *
    obtain ⟨x, hl₀, hrest⟩ := h.of_append
    cases hrest with
    | next hlt hnone =>
      cases hnone
      -- all tokens but the last end inside the text
      have hread :=
        hl₀.stretch (stretch_end hsame hb') hzero (Nat.zero_le _) ⟨by omega, .inl (by omega)⟩ (.inl rfl)
        (by rintro ⟨⟩)
      simp only [shift, Nat.sub_zero, Nat.zero_add, goTo_self] at hread
      rw [(List.map_congr_left fun p _ => shiftRead_zero p).trans (List.map_id' l₀)] at hread
      have hone := hread.append (.one (Nat.lt_trans hlt hlt'))
      rwa [hlast l₀ x hl₀ hlt rfl rfl] at hone

end bracket

end Lexer

namespace Builder

variable {s s' : String} {x y : Lexer} {l : List (Token × Lexer)} {b : Builder}

theorem Follows.placed_behind (h : Follows s x b) (hp : Placed x b) (hl : Leads s x l y) :
    Placed y (Builder.behind s l b) := by
  induction hl generalizing b with
  | here => exact hp
  | next hlt _ ih =>
    exact ih (h.next hlt).2 (step_induction (fun hc hf h hr hlt hle => h.step hc hf hr hlt hle) Placed.of_falls
      h.boundary h.consistent h.fits hlt hp)

/-- The nodes have their ends. -/
def IsTerminated (b : Builder) : Prop := ∀ id, (b.kindOf id).isTerminated = true

theorem isTerminated_of_openSection? {k : Kind} (h : k.isTerminated = true) : k.openSection? = none := by
  cases k <;> simp_all [Kind.isTerminated, Kind.openSection?]

theorem outside_of_terminated (hl : Leads s .document l y) (h : (Builder.behind s l (start s false)).IsTerminated) :
    y.mode.section? = none ∧ y.inProlog = false ∧ y.inDoctype = false := by
  have hsections : Sections y (Builder.behind s l (start s false)) :=
    (follows_start s false).sections_behind (sections_start s false) hl
  have hplaced : Placed y (Builder.behind s l (start s false)) :=
    (follows_start s false).placed_behind (placed_document s) hl
  refine ⟨?_, Bool.eq_false_iff.mpr fun hin => ?_, Bool.eq_false_iff.mpr fun hin => ?_⟩
  · have hcurrent := hsections.lacks (Builder.behind s l (start s false)).current
    rwa [if_pos rfl, isTerminated_of_openSection? (h _), eq_comm] at hcurrent
  · obtain ⟨⟨around, hplace⟩, -⟩ := hplaced.prolog hin
    have hrole := role_of_places hplace
    have hcurrent := h (Builder.behind s l (start s false)).current
    cases hkind : (Builder.behind s l (start s false)).kindOf (Builder.behind s l (start s false)).current <;>
      simp_all [Kind.role, Kind.isTerminated]
  · obtain ⟨seat, -, hseated⟩ := hplaced.seated
    have hfile : y.dtdFile = false := hl.dtdFile_eq (Text.isBoundary_zero s) Lexer.consistent_document
    obtain ⟨d, hkind, hopen⟩ := hsections.doctype seat (hseated.doctype hfile hin)
    have hseat := h seat
    rw [hkind, Kind.isTerminated, hopen] at hseat
    cases hseat

/-- Where all nodes have their ends, what is read is read in every text that goes on with a bracket. -/
theorem upToEnd (hl : Leads s .document l y) (h : (Builder.behind s l (start s false)).IsTerminated)
    (hsame : SameTo s s' (size s)) (hb' : byte? s' (size s) = some 0x3C) : Leads s' .document l y := by
  have hzero := Text.isBoundary_zero s
  obtain ⟨hsection, hprolog, hdoctype⟩ := outside_of_terminated hl h
  have hfile : y.dtdFile = false := hl.dtdFile_eq hzero Lexer.consistent_document
  refine hl.upToEnd hsame hb' fun l₀ x hx hlt hstep _ => ?_
  have hb := hx.boundary hzero
  have hc := hx.consistent Lexer.consistent_document hzero
  rw [← hstep] at hsection hprolog hdoctype hfile
  by_cases hnear : x.mode.looksFar = false
  · exact Lexer.step_sameTo_end hsame hb' hb hlt hnear
  cases hmode : x.mode.section? with
  | some k => exact Lexer.step_section_sameTo hb hc hlt hsame hmode hsection hprolog
  | none =>
    -- the literal of an entity stands in a document type, which has its end
    obtain ⟨stage, hstage⟩ : ∃ stage, x.mode = .declaration stage := by
      cases hm : x.mode <;> simp_all [Lexer.Mode.looksFar, Lexer.Mode.section?]
    have hd : x.inDtd = true := by
      have hagrees := hc.mode
      rw [Lexer.Agrees, hstage] at hagrees
      exact hagrees.2
    rw [Lexer.step_eq_lex hb hlt] at hdoctype hfile
    rcases Lexer.lex_declaration_or hstage hd hlt with hin | hbreaks
    · rw [Lexer.inDtd, hfile, Bool.false_or] at hin
      rw [Lexer.inDoctype, hin] at hdoctype
      cases hdoctype
    · rw [hbreaks (hsame.byte hlt), hbreaks rfl]
      exact Lexer.step_sameTo_end (x := { x with mode := .dtdContent }) hsame hb' hb hlt rfl

end Builder

namespace Document

variable {text uri : String} {l : List (Token × Lexer)} {y : Lexer}

theorem isTerminated_behind (huri : isDtdUri uri = false) (h : (parse text uri).IsTerminated)
    (hl : Leads text .document l y) (hy : y.pos = Text.size text) :
    (Builder.behind text l (Builder.start text false)).IsTerminated := by
  intro id
  have hnodes : (parse text uri).nodes =
      (Builder.atEnd text (Builder.behind text l (Builder.start text false))).nodes := by
    rw [← Builder.build_eq_behind hl hy, parse, huri]
  have hretains := Builder.retains_atEnd text (Builder.behind text l (Builder.start text false))
  rcases Nat.lt_or_ge id (Builder.behind text l (Builder.start text false)).nodes.size with hid | hid
  · obtain ⟨n, hn⟩ : ∃ n, (parse text uri).nodes[id]? = some n := by
      rw [hnodes]
      exact ⟨_, Array.getElem?_eq_getElem (Nat.lt_of_lt_of_le hid hretains.size_le)⟩
    rw [← hretains.old id hid, Builder.kindOf_eq (hnodes ▸ hn)]
    exact h n (Array.mem_of_getElem? hn)
  · rw [Builder.kindOf_of_ge hid]
    rfl

end Document

end XmlAssist
