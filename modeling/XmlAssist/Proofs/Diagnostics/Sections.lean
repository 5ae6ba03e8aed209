import XmlAssist.Proofs.Tree.Brackets
import XmlAssist.Proofs.Tree.Sections

/-!
# Which sections are reported

A comment, a CDATA section or an instruction that lacks its end is reported at what it contains, and
nothing else is reported in this way (`Diagnostics.ofSyntax_sections`). One that contains nothing, as the
`<!--` at the end of a text, is not reported. Every token keeps what is broken in agreement with what is
open (`Builder.Told.step`).
-/

namespace XmlAssist

open Node
open Text (size isBoundary startsAt bytesOf)
open Lexer (Leads Reads Falls StartsContent StartsDeclaration)

/-- What stands in a section. -/
def Node.Kind.inner? : Kind → Option Span
  | .comment c => c.content
  | .cdata c => c.content
  | .instruction i => i.content
  | _ => none

namespace Builder

variable {s : String} {x y : Lexer} {l r : List (Token × Lexer)} {b b' : Builder} {t : Token}
variable {pos id : Nat} {spaced inDtd : Bool} {kind : Token.Kind} {fault : Option Token.Fault}
variable {k : Section} {n : Kind} {sp : Span}

/-! ## What stands in the section that is being read -/

/-- What stands in the current node, if that is a section. -/
def inner? (b : Builder) : Option Span := (b.kindOf b.current).inner?

theorem inner?_update (hid : b.current < b.nodes.size) (n : Kind) (stop : Nat) :
    (b.update b.current n stop).inner? = n.inner? := by
  have hcurrent : (b.update b.current n stop).current = b.current := rfl
  rw [inner?, hcurrent, kindOf_update_eq hid, if_pos rfl]

theorem inner?_openNode (b : Builder) (n : Kind) (span : Span) : (b.openNode n span).inner? = n.inner? := by
  rw [inner?, openNode_current, kindOf_openNode_eq, if_pos rfl]

/-- What a token does to the section `k` that is being read behind it. -/
inductive Inside (x : Lexer) (pos : Nat) (kind : Token.Kind) (k : Section) (b b' : Builder) : Prop where
  | content (within : x.mode.section? = some k) (kind : kind = k.inside)
      (inner : b'.inner? = some ⟨x.pos, pos⟩)
  | before (within : x.mode.section? = some k) (inside : kind ≠ k.inside) (last : kind ≠ k.last)
      (inner : b'.inner? = b.inner?)
  | opens (inside : kind ≠ k.inside) (inner : b'.inner? = none)

theorem inside_starts {mode : Lexer.Mode} (hk : StartsContent kind mode ∨ StartsDeclaration kind mode)
    (hmode : mode.section? = some k) :
    Inside x pos kind k b (step s b ⟨kind, x.pos, pos, fault⟩ inDtd) := by
  rcases section?_starts hk with ⟨-, hm⟩ | ⟨rfl, -⟩ | ⟨rfl, -⟩ | ⟨rfl, -⟩
  · cases hm.symm.trans hmode
  · refine .opens (by cases k <;> simp [Section.inside]) ?_
    rw [step_commentOpen, inner?_openNode]
    rfl
  · refine .opens (by cases k <;> simp [Section.inside]) ?_
    rw [step_cdataOpen, inner?_openNode]
    rfl
  · refine .opens (by cases k <;> simp [Section.inside]) ?_
    rw [step_instructionOpen, inner?_openNode]
    rfl

theorem Sections.inside (h : Sections x b) (hr : Reads x pos spaced kind y)
    (hy : y.mode.section? = some k) :
    Inside x pos kind k b (Builder.step s b ⟨kind, x.pos, pos, fault⟩ y.inDtd) := by
  cases hr with
  | blank =>
    rw [Lexer.moved_mode] at hy
    exact .before hy (by cases k <;> simp [Section.inside]) (by cases k <;> simp [Section.last]) rfl
  | content _ hk => exact inside_starts (.inl hk) hy
  | declaration _ hk => exact inside_starts (.inr hk) hy
  | commentText hx =>
    obtain rfl := Option.some.inj hy
    have hin : x.mode.section? = some .comment := by rw [hx]; rfl
    obtain ⟨c, hc, -⟩ := eq_of_comment (h.current hin)
    refine .content hin rfl ?_
    rw [step_text_of_comment hc (.inl rfl), inner?_update (h.current_lt hin)]
    rfl
  | cdataText hx =>
    obtain rfl := Option.some.inj hy
    have hin : x.mode.section? = some .cdata := by rw [hx]; rfl
    obtain ⟨c, hc, -⟩ := eq_of_cdata (h.current hin)
    refine .content hin rfl ?_
    rw [step_text_of_cdata hc (.inr rfl), inner?_update (h.current_lt hin)]
    rfl
  | instructionContent hx =>
    obtain rfl := Option.some.inj hy
    have hin : x.mode.section? = some .instruction := by rw [hx]; rfl
    obtain ⟨p, hp, -, -⟩ := eq_of_instruction (h.current hin)
    refine .content hin rfl ?_
    rw [step_instructionContent hp, inner?_update (h.current_lt hin)]
    rfl
  | instructionTarget hx =>
    obtain rfl := Option.some.inj hy
    have hin : x.mode.section? = some .instruction := by rw [hx]; rfl
    obtain ⟨p, hp, -, -⟩ := eq_of_instruction (h.current hin)
    refine .before hin (by simp [Section.inside]) (by simp [Section.last]) ?_
    rw [step_instructionTarget hp, inner?_update (h.current_lt hin), inner?, hp]
    rfl
  | unknown hx =>
    rcases hx with hx | hx | hx <;> rw [Lexer.moved_mode, hx] at hy <;> cases hy
  | attributeValue => cases (Lexer.section?_tagMode x).symm.trans hy
  | commentClose | cdataClose | prologClose | instructionClose =>
    cases (Lexer.section?_contentMode x).symm.trans hy
  | _ => cases hy

theorem section?_of_inside (hr : Reads x pos spaced kind y) (hkind : kind = k.inside) :
    y.mode.section? = some k := by
  cases hr with
  | commentText | cdataText | instructionContent => cases k <;> first | rfl | cases hkind
  | content _ hk =>
    subst hkind
    cases k <;> simp [Section.inside, StartsContent, Lexer.contentOpeners] at hk
  | declaration _ hk =>
    subst hkind
    cases k <;> simp [Section.inside, StartsDeclaration, Lexer.dtdOpeners] at hk
  | _ => cases k <;> cases hkind

/-! ## What is found broken -/

/-- The tokens `l` have the fault of a section just where that section is being read at the end of the
text and something stands in it. -/
structure Told (s : String) (x : Lexer) (l : List (Token × Lexer)) (b : Builder) : Prop where
  broken : ∀ p ∈ l, ∀ k : Section, p.1.fault = some k.fault →
    size s ≤ x.pos ∧ x.mode.section? = some k ∧ b.inner? = some p.1.span
  inner : ∀ (k : Section) sp, x.mode.section? = some k → b.inner? = some sp →
    startsAt s x.pos (bytesOf k.closing) = true ∨ ∃ p ∈ l, p.1.fault = some k.fault

theorem Sections.inside_lex (hf : Follows s x b) (hs : Sections x b) (hlt : x.pos < size s)
    (hy : (Lexer.lex s x).lexer.mode.section? = some k) :
    Inside x (x.step s).2.pos (Lexer.lex s x).kind k b
      (Builder.step s b (x.step s).1 (x.step s).2.inDtd) := by
  rw [Lexer.step_eq_lex hf.boundary hlt]
  obtain ⟨z, spaced, rfl | hfall, hreads⟩ := Lexer.lex_turns hf.consistent hlt
  · exact hs.inside hreads hy
  · have hinside : Inside z (Lexer.lex s x).lexer.pos (Lexer.lex s x).kind k b (Builder.step s b
        ⟨(Lexer.lex s x).kind, z.pos, (Lexer.lex s x).lexer.pos, (Lexer.lex s x).fault⟩
        (Lexer.lex s x).lexer.inDtd) := (hs.of_falls hfall).inside hreads hy
    rw [hfall.pos_eq] at hinside
    cases hinside with
    | content hw hk hi => exact .content (section?_of_falls hfall ▸ hw) hk (hfall.pos_eq ▸ hi)
    | before hw hk hl hi => exact .before (section?_of_falls hfall ▸ hw) hk hl hi
    | opens hk hi => exact .opens hk hi

theorem Told.step (hf : Follows s x b) (hs : Sections x b) (h : Told s x l b) (hlt : x.pos < size s) :
    Told s (x.step s).2 (l ++ [x.step s]) (Builder.step s b (x.step s).1 (x.step s).2.inDtd) := by
  have hin {k : Section} := hs.inside_lex (k := k) hf hlt
  rw [Lexer.step_eq_lex hf.boundary hlt] at hin ⊢
  refine ⟨fun p hp k hfault => ?_, fun k sp hy hinner => ?_⟩
  · rcases List.mem_append.mp hp with hold | hnew
    · exact absurd (h.broken p hold k hfault).1 (Nat.not_le_of_lt hlt)
    · obtain rfl := List.mem_singleton.mp hnew
      obtain ⟨-, hkind, hstop⟩ := Lexer.section_of_fault hlt hfault
      have hy : (Lexer.lex s x).lexer.mode.section? = some k := by
        obtain ⟨z, spaced, -, hreads⟩ := Lexer.lex_turns hf.consistent hlt
        exact section?_of_inside hreads hkind
      refine ⟨Nat.le_of_eq hstop.symm, hy, ?_⟩
      cases hin hy with
      | content _ _ hi => exact hi
      | before _ hk => exact absurd hkind hk
      | opens hk => exact absurd hkind hk
  · cases hin hy with
    | content hw hk =>
      cases Lexer.lex_section hw hlt with
      | last _ hkind => exact absurd (hk.symm.trans hkind) (by cases k <;> simp [Section.inside, Section.last])
      | before _ _ hkind =>
        rw [hk] at hkind
        cases k <;> simp [Section.inside] at hkind
      | inside _ _ _ hfound => exact .inl (Text.startsAt_of_find? hfound).2
      | cut _ _ hfault => exact .inr ⟨_, List.mem_append_right l (List.mem_singleton_self _), hfault⟩
    | before hw hk hl hi =>
      rcases h.inner k sp hw (hi ▸ hinner) with hstands | ⟨p, hp, hfault⟩
      · cases Lexer.lex_section hw hlt with
        | last _ hkind => exact absurd hkind hl
        | before _ hmore => cases hmore.symm.trans hstands
        | inside _ hkind => exact absurd hkind hk
        | cut _ hkind => exact absurd hkind hk
      · exact absurd (h.broken p hp k hfault).1 (Nat.not_le_of_lt hlt)
    | opens _ hi => cases hi.symm.trans hinner

theorem Follows.told_behind (hf : Follows s x b) (hs : Sections x b) (h : Told s x l b)
    (hr : Leads s x r y) : Told s y (l ++ r) (Builder.behind s r b) := by
  induction hr generalizing l b with
  | here => rwa [List.append_nil]
  | @next x y r hlt _ ih =>
    have hrest := ih (hf.next hlt).2 (hf.sections_behind hs (.one hlt)) (h.step hf hs hlt)
    rwa [List.append_assoc] at hrest

theorem told_start (s : String) (dtdFile : Bool) :
    Told s (if dtdFile then Lexer.declarations else Lexer.document) [] (start s dtdFile) := by
  refine ⟨fun p hp => absurd hp List.not_mem_nil, fun k sp hx => ?_⟩
  cases dtdFile <;> cases hx

/-! ## The end of the text -/

theorem kindOf_atEnd_of_open (h : ((atEnd s b).kindOf id).openSection? = some k) :
    (atEnd s b).kindOf id = b.kindOf id := by
  have hretains := retains_atEnd s b
  refine hretains.old id (Nat.lt_of_not_le fun hge => ?_)
  have hplain := hretains.new id hge
  cases hk : (atEnd s b).kindOf id <;> simp_all [Kind.Plain, Kind.openSection?]

end Builder

namespace Document

variable {d : Document} {id : Nat} {k : Section} {inner : Option Span}

/-- The node is a section that lacks its end; `inner` is what stands in it. -/
def Lacks (d : Document) (id : Nat) (k : Section) (inner : Option Span) : Prop :=
  ∃ n, d.node? id = some n ∧ n.kind.openSection? = some k ∧ n.kind.inner? = inner

/-- At most one section of a document lacks its end, and if something stands in it, that is the token
with its fault. -/
theorem parse_lacks (text uri : String) : ∃ o : Option (Section × Nat × Option Span),
    (∀ id k inner, (parse text uri).Lacks id k inner ↔ o = some (k, id, inner)) ∧
      ∀ (k : Section) sp,
        (∃ p ∈ (parse text uri).lexer.tokens text, p.1.fault = some k.fault ∧ p.1.span = sp) ↔
          ∃ id, o = some (k, id, some sp) := by
  have hboundary : isBoundary text (parse text uri).lexer.pos = true := by
    unfold lexer
    cases (parse text uri).isDtd <;> exact Text.isBoundary_zero text
  obtain ⟨y, hy, hend⟩ := Lexer.Leads.exists_end text (parse text uri).lexer hboundary
  have hf := Builder.follows_start text (isDtdUri uri)
  have hsections := Builder.sections_start text (isDtdUri uri)
  have hs := hf.sections_behind hsections hy
  have htold := hf.told_behind hsections (Builder.told_start text (isDtdUri uri)) hy
  rw [List.nil_append] at htold
  generalize hl : (parse text uri).lexer.tokens text = l at hy hs htold ⊢
  generalize hb : Builder.behind text l (Builder.start text (isDtdUri uri)) = b at hs htold
  have hnodes : (parse text uri).nodes = (Builder.atEnd text b).nodes := by
    rw [← hb, ← Builder.run_eq_behind hy hboundary hend]
    exact Builder.build_eq text (isDtdUri uri)
  have hkind {id : Nat} {n : Node} (hn : (parse text uri).node? id = some n) :
      (Builder.atEnd text b).kindOf id = n.kind := by
    rw [node?, hnodes] at hn
    exact Builder.kindOf_eq hn
  refine ⟨y.mode.section?.map fun k => (k, b.current, b.inner?), fun id k inner => ?_, fun k sp => ?_⟩
  · simp only [Option.map_eq_some_iff, Prod.mk.injEq]
    constructor
    · rintro ⟨n, hn, hopen, rfl⟩
      rw [← hkind hn] at hopen ⊢
      have hold := Builder.kindOf_atEnd_of_open hopen
      rw [hold] at hopen ⊢
      rw [hs.lacks] at hopen
      split at hopen
      · rename_i hid
        subst hid
        exact ⟨k, hopen, rfl, rfl, rfl⟩
      · cases hopen
    · rintro ⟨k, hk, rfl, rfl, rfl⟩
      have hlt := Nat.lt_of_lt_of_le (hs.current_lt hk) (Builder.retains_atEnd text b).size_le
      have hold := (Builder.retains_atEnd text b).old b.current (hs.current_lt hk)
      have hn : (parse text uri).node? b.current = some (Builder.atEnd text b).nodes[b.current] := by
        rw [node?, hnodes, Array.getElem?_eq_getElem hlt]
      refine ⟨_, hn, ?_, ?_⟩
      · rw [← hkind hn, hold, hs.current hk]
      · rw [← hkind hn, hold]
        rfl
  · simp only [Option.map_eq_some_iff, Prod.mk.injEq]
    constructor
    · rintro ⟨p, hp, hfault, rfl⟩
      obtain ⟨-, hmode, hinner⟩ := htold.broken p hp k hfault
      exact ⟨b.current, k, hmode, rfl, rfl, hinner⟩
    · rintro ⟨_, k, hmode, rfl, -, hinner⟩
      rcases htold.inner k sp hmode hinner with hstands | ⟨p, hp, hfault⟩
      · exact absurd (k.lt_size_of_closing hstands) (Nat.not_lt.mpr (Nat.le_of_eq hend.symm))
      · obtain ⟨-, -, hspan⟩ := htold.broken p hp k hfault
        exact ⟨p, hp, hfault, Option.some.inj (hspan.symm.trans hinner)⟩

end Document

namespace Diagnostics

open Document

variable {d : Document} {id : Nat} {e : Element} {x : Diagnostic} {k : Section} {sp : Span}

/-! ## The codes -/

theorem mem_ofTokens : x ∈ ofTokens d ↔ ∃ p ∈ d.lexer.tokens d.text, ∃ fault range,
    p.1.fault = some fault ∧ d.rangeOf p.1.span = .ok range ∧
      x = { range, severity := .error, code := some fault.code, message := fault.message } := by
  rw [ofTokens, List.mem_flatMap]
  refine exists_congr fun p => and_congr_right fun _ => ?_
  cases hfault : p.1.fault with
  | none => simp [hfault]
  | some fault =>
    cases hrange : d.rangeOf p.1.span with
    | error e => simp [Diagnostic.errorAt, hfault, hrange]
    | ok range => simp [Diagnostic.errorAt, hfault, hrange]

/-- The codes of what is not about a token. -/
def plainCodes : List String :=
  [doctypeCode, unclosedCode, unmatchedCode, duplicateCode, missingEqualsCode, missingQuoteCode]

theorem code_of_mem_ofDoctype {settings : Settings} (h : x ∈ ofDoctype d settings) :
    ∃ code ∈ plainCodes, x.code = some code := by
  unfold ofDoctype at h
  split at h
  · split at h
    · exact ⟨_, by simp [plainCodes], code_of_mem_errorAt h⟩
    · cases h
  · cases h

theorem code_of_mem_ofAttributes {tag : String} {seen : List Attribute}
    {attributes : List (Nat × Attribute)} (h : x ∈ ofAttributes d tag seen attributes) :
    ∃ code ∈ plainCodes, x.code = some code := by
  induction attributes generalizing seen with
  | nil => cases h
  | cons a attributes ih =>
    rw [ofAttributes, List.mem_append, List.mem_append] at h
    rcases h with (h | h) | h
    · split at h
      · unfold duplicate at h
        split at h
        · cases h
        · rw [List.mem_singleton.mp h]
          exact ⟨_, by simp [plainCodes], rfl⟩
      · cases h
    · unfold incomplete at h
      split at h
      · exact ⟨_, by simp [plainCodes], code_of_mem_errorAt h⟩
      · split at h
        · exact ⟨_, by simp [plainCodes], code_of_mem_errorAt h⟩
        · cases h
    · exact ih h

theorem code_of_mem_ofElements (h : x ∈ ofElements d) : ∃ code ∈ plainCodes, x.code = some code := by
  obtain ⟨id, -, h⟩ := List.mem_flatMap.mp h
  split at h
  · unfold ofElement at h
    split at h
    · cases h
    · split at h
      · rcases List.mem_append.mp h with h | h
        · split at h
          · exact ⟨_, by simp [plainCodes], code_of_mem_errorAt h⟩
          · cases h
        · exact code_of_mem_ofAttributes h
      · split at h
        · exact ⟨_, by simp [plainCodes], code_of_mem_errorAt h⟩
        · cases h
  · cases h

theorem code_injective {f f' : Token.Fault} (h : f.code = f'.code) : f = f' := by
  cases f <;> cases f' <;> first | rfl | exact absurd h (by decide)

/-- The diagnostic that the section lacks its end. -/
def unterminated (k : Section) (range : Range) : Diagnostic :=
  { range, severity := .error, code := some k.fault.code, message := k.fault.message }

theorem mem_ofSyntax_of_section {settings : Settings} : x ∈ ofSyntax d settings ∧ x.code = some k.fault.code ↔
    ∃ sp, (∃ p ∈ d.lexer.tokens d.text, p.1.fault = some k.fault ∧ p.1.span = sp) ∧
      ∃ range, d.rangeOf sp = .ok range ∧ x = unterminated k range := by
  have hplain : k.fault.code ∉ plainCodes := by cases k <;> decide
  constructor
  · rintro ⟨hx, hcode⟩
    rw [ofSyntax, List.mem_append, List.mem_append] at hx
    rcases hx with (hx | hx) | hx
    · obtain ⟨p, hp, fault, range, hfault, hrange, rfl⟩ := mem_ofTokens.mp hx
      obtain rfl := code_injective (Option.some.inj hcode)
      exact ⟨_, ⟨p, hp, hfault, rfl⟩, range, hrange, rfl⟩
    · obtain ⟨code, hmem, hother⟩ := code_of_mem_ofDoctype hx
      exact absurd (Option.some.inj (hother.symm.trans hcode) ▸ hmem) hplain
    · obtain ⟨code, hmem, hother⟩ := code_of_mem_ofElements hx
      exact absurd (Option.some.inj (hother.symm.trans hcode) ▸ hmem) hplain
  · rintro ⟨_, ⟨p, hp, hfault, rfl⟩, range, hrange, rfl⟩
    refine ⟨?_, rfl⟩
    rw [ofSyntax, List.mem_append, List.mem_append]
    exact .inl (.inl (mem_ofTokens.mpr ⟨p, hp, k.fault, range, hfault, hrange, rfl⟩))

/-! ## The sections -/

/-- The sections that are reported are those that lack their end and in which something stands. -/
structure TellsSections (d : Document) (l : List Diagnostic) : Prop where
  reported : ∀ id k sp, d.Lacks id k (some sp) → ∃ range, d.rangeOf sp = .ok range ∧ unterminated k range ∈ l
  sound : ∀ x ∈ l, ∀ k : Section, x.code = some k.fault.code →
    ∃ id sp, d.Lacks id k (some sp) ∧ d.rangeOf sp = .ok x.range ∧ x = unterminated k x.range

/-- **A section that lacks its end is reported, if something stands in it**, and no other diagnostic has
its code, whatever the text. All of them are reported just where there is none in which nothing stands. -/
theorem ofSyntax_sections (text uri : String) (settings : Settings) :
    TellsSections (parse text uri) (ofSyntax (parse text uri) settings) ∧
      ((∀ id k inner, (parse text uri).Lacks id k inner →
          ∃ x ∈ ofSyntax (parse text uri) settings, x.code = some k.fault.code) ↔
        ∀ id k, ¬ (parse text uri).Lacks id k none) := by
  obtain ⟨o, hlacks, hfault⟩ := parse_lacks text uri
  have hrange {id : Nat} {k : Section} {sp : Span} (h : (parse text uri).Lacks id k (some sp)) :
      ∃ range, (parse text uri).rangeOf sp = .ok range := by
    obtain ⟨n, hn, hopen, hinner⟩ := h
    have hlies := lies_of_mem (Array.mem_of_getElem? hn) sp (List.mem_cons_of_mem _ ?_)
    · exact exists_rangeOf hlies.start hlies.stop
    cases hk : n.kind <;> simp_all [Kind.inner?, Kind.spans, Kind.openSection?]
  have hreported : ∀ id k sp, (parse text uri).Lacks id k (some sp) → ∃ range,
      (parse text uri).rangeOf sp = .ok range ∧ unterminated k range ∈ ofSyntax (parse text uri) settings := by
    intro id k sp h
    obtain ⟨range, hr⟩ := hrange h
    have htoken := (hfault k sp).mpr ⟨id, (hlacks id k (some sp)).mp h⟩
    exact ⟨range, hr, (mem_ofSyntax_of_section.mpr ⟨sp, htoken, range, hr, rfl⟩).1⟩
  have hsound : ∀ x ∈ ofSyntax (parse text uri) settings, ∀ k : Section, x.code = some k.fault.code →
      ∃ id sp, (parse text uri).Lacks id k (some sp) ∧ (parse text uri).rangeOf sp = .ok x.range ∧
        x = unterminated k x.range := by
    intro x hx k hcode
    obtain ⟨sp, htoken, range, hr, rfl⟩ := mem_ofSyntax_of_section.mp ⟨hx, hcode⟩
    obtain ⟨id, ho⟩ := (hfault k sp).mp htoken
    exact ⟨id, sp, (hlacks id k (some sp)).mpr ho, hr, rfl⟩
  refine ⟨⟨hreported, hsound⟩, fun hall id k h => ?_, fun hnone id k inner h => ?_⟩
  · obtain ⟨x, hx, hcode⟩ := hall id k none h
    obtain ⟨id', sp, h', -⟩ := hsound x hx k hcode
    cases ((hlacks _ _ _).mp h).symm.trans ((hlacks _ _ _).mp h')
  · cases inner with
    | none => exact absurd h (hnone id k)
    | some sp =>
      obtain ⟨range, -, hmem⟩ := hreported id k sp h
      exact ⟨_, hmem, rfl⟩

/-- The comment at the end of the text is open, and nothing is reported. -/
theorem comment_unreported : ¬ ∀ id k inner, (parse "<a/><!--" "file:///t.xml").Lacks id k inner →
    ∃ x ∈ ofSyntax (parse "<a/><!--" "file:///t.xml") {}, x.code = some k.fault.code := by
  intro h
  have hopen : ((parse "<a/><!--" "file:///t.xml").node? 2).map (·.kind) = some (.comment {}) := by
    decide +kernel
  have hnone : ofSyntax (parse "<a/><!--" "file:///t.xml") {} = [] := by decide +kernel
  obtain ⟨n, hn, hkind⟩ := Option.map_eq_some_iff.mp hopen
  obtain ⟨x, hx, -⟩ := h 2 .comment none ⟨n, hn, by rw [hkind]; rfl, by rw [hkind]; rfl⟩
  rw [hnone] at hx
  cases hx

end Diagnostics

end XmlAssist
