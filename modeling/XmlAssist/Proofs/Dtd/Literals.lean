import XmlAssist.Proofs.Lexer.Literal
import XmlAssist.Proofs.Tree.Change
import XmlAssist.Proofs.Tree.Fate

/-!
# The literals that a document keeps

The identifiers of a document type and the value of an entity are kept as they are written, each the text of one token
(`exists_quotes`). What is told of them lacks the first and the last character: of a literal that is not closed, not
only the quote is lost but also the last character of what stands behind it (`parse_literals`).
-/

namespace XmlAssist

open Node
open Text (size)
open Lexer (Leads)

/-- The identifiers of a document type, each with the kind of its token. -/
def Doctype.literals (d : Doctype) : List (Token.DtdKind × Parameter) :=
  d.external.publicId.toList.map (.doctypePublicId, ·) ++ d.external.systemId.toList.map (.doctypeSystemId, ·)

/-- The value of an entity. -/
def Declaration.Body.literals : Declaration.Body → List (Token.DtdKind × Parameter)
  | .entity b => b.value.toList.map (.entityValue, ·)
  | _ => []

/-- The literals that a node keeps, each with the kind of its token. -/
def Node.Kind.literals : Kind → List (Token.DtdKind × Parameter)
  | .doctype d => d.literals
  | .declaration d => d.body.literals
  | _ => []

namespace Builder

variable {s : String} {x y : Lexer} {l : List (Token × Lexer)} {b b' b'' : Builder} {t : Token} {id stop : Nat}
variable {k : Kind} {inDtd : Bool} {P : Token.DtdKind × Parameter → Prop} {q : Token.DtdKind × Parameter}

/-! ## One token -/

/-- The literals of every node are those that it had, or satisfy `P`. -/
structure Adds (P : Token.DtdKind × Parameter → Prop) (b b' : Builder) : Prop where
  or_of_mem : ∀ id, ∀ q ∈ (b'.kindOf id).literals, q ∈ (b.kindOf id).literals ∨ P q

theorem Adds.of_kindOf (h : ∀ id, b'.kindOf id = b.kindOf id) : Adds P b b' :=
  ⟨fun id _ hq => .inl (h id ▸ hq)⟩

theorem Adds.of_nodes (h : b'.nodes = b.nodes) : Adds P b b' := .of_kindOf fun id => by rw [kindOf, kindOf, h]

theorem Adds.refl (b : Builder) : Adds P b b := .of_nodes rfl

theorem Adds.trans (h : Adds P b b') (h' : Adds P b' b'') : Adds P b b'' :=
  ⟨fun id q hq => (h'.or_of_mem id q hq).elim (h.or_of_mem id q) .inr⟩

theorem adds_extend (b : Builder) (id stop : Nat) : Adds P b (b.extend id stop) := .of_kindOf (kindOf_extend b id stop)

theorem adds_modify {f : Node → Node} (hf : ∀ n, b.nodes[id]? = some n →
    ∀ q ∈ (f n).kind.literals, q ∈ (b.kindOf id).literals ∨ P q) : Adds P b (b.modify id f) := by
  refine ⟨fun c q hq => ?_⟩
  by_cases hid : id = c
  · subst hid
    cases hn : b.nodes[id]? with
    | none =>
      rw [kindOf_of_ge (by simpa [Builder.modify] using hn)] at hq
      cases hq
    | some n =>
      rw [kindOf_eq (n := f n) (by simp [Builder.modify, Array.getElem?_modify, hn])] at hq
      exact hf n hn q hq
  · rw [kindOf_modify_of_ne hid] at hq
    exact .inl hq

theorem adds_update (hk : ∀ q ∈ k.literals, q ∈ (b.kindOf id).literals ∨ P q) : Adds P b (b.update id k stop) :=
  adds_modify fun _ _ => hk

theorem adds_openNode (hk : k.literals = []) (span : Span) : Adds P b (b.openNode k span) := by
  refine ⟨fun c q hq => ?_⟩
  rw [kindOf_openNode_eq] at hq
  split at hq
  · rw [hk] at hq
    cases hq
  · exact .inl hq

theorem adds_push {n : Node} (hn : n.kind.literals = []) (hnodes : b'.nodes = b.nodes.push n) : Adds P b b' := by
  refine ⟨fun c q hq => ?_⟩
  have hkind : b'.kindOf c = if c = b.nodes.size then n.kind else b.kindOf c := by
    rw [kindOf, hnodes, Array.getElem?_push]
    split <;> rfl
  rw [hkind] at hq
  split at hq
  · rw [hn] at hq
    cases hq
  · exact .inl hq

theorem adds_append (hk : k.literals = []) (span : Span) : Adds P b (b.append k span) :=
  (adds_openNode hk span).trans (.of_nodes rfl)

theorem adds_leaveDeclaration (b : Builder) : Adds P b b.leaveDeclaration := by
  unfold leaveDeclaration
  split <;> exact .of_nodes rfl

theorem adds_leaveClosedElement (b : Builder) : Adds P b b.leaveClosedElement := by
  unfold leaveClosedElement
  split
  · split <;> exact .of_nodes rfl
  · exact .refl b

theorem adds_leaveDoctype (b : Builder) (stop : Nat) : Adds P b (b.leaveDoctype stop) := by
  refine (adds_leaveDeclaration b).trans ?_
  unfold leaveDoctype
  dsimp only
  split
  · exact (adds_extend _ _ stop).trans (.of_nodes rfl)
  · exact .refl _

theorem adds_flushEndTag (b : Builder) (stop : Nat) (close : Option Nat) : Adds P b (b.flushEndTag stop close) := by
  have hread : Adds P b { b with endTagOpen := none } := .of_nodes rfl
  unfold flushEndTag
  split
  · exact hread.trans (adds_append (k := .element _) rfl _)
  · exact .refl b

theorem adds_beforeMarkup (b : Builder) (start : Nat) (inDtd : Bool) : Adds P b (b.beforeMarkup start inDtd) := by
  have hforget : Adds P b { b with openAttribute := none } := .of_nodes rfl
  have hsettle : Adds P b (b.settle start) :=
    hforget.trans ((adds_flushEndTag _ start none).trans (adds_leaveDeclaration _))
  rw [beforeMarkup_eq]
  refine .trans ?_ (adds_leaveClosedElement _)
  split
  · exact hsettle.trans (adds_leaveDoctype _ start)
  · exact hsettle

theorem adds_atEnd (s : String) (b : Builder) : Adds P b (atEnd s b) := by
  refine (adds_flushEndTag b (size s) none).trans ?_
  rw [atEnd, foldl_extend]
  exact .of_kindOf (kindOf_reach _ _ _)

theorem adds_write (hk : k.literals = []) : Adds P b (b.update id k stop) :=
  adds_update fun q hq => by
    rw [hk] at hq
    cases hq

theorem adds_openMarkup (hk : k.literals = []) :
    Adds P b ((b.beforeMarkup t.start inDtd).openNode k t.span) :=
  (adds_beforeMarkup b t.start inDtd).trans (adds_openNode hk t.span)

theorem adds_attributeName : Adds P b (attributeName s b t) := by
  unfold attributeName
  dsimp only
  split
  · rename_i k hk
    have hnone : k.literals = [] := by
      unfold withAttribute at hk
      split at hk
      · rw [← Option.some.inj hk]
        rfl
      · split at hk
        · rw [← Option.some.inj hk]
          rfl
        · cases hk
      · cases hk
    exact (adds_write hnone).trans
      (adds_push (n := { span := t.span, parent := some b.current, kind := .attribute _ }) rfl rfl)
  · exact .refl b

theorem adds_assign : Adds P b (assign b t) := by
  unfold assign
  dsimp only
  refine .trans ?_ (adds_extend _ _ _)
  split
  · split
    · exact adds_modify fun _ _ q hq => by cases hq
    · exact .refl b
  · exact .refl b

theorem adds_attributeValue : Adds P b (attributeValue s b t) := by
  have hforget : Adds P b { b with openAttribute := none } := .of_nodes rfl
  unfold attributeValue
  dsimp only
  refine .trans ?_ (adds_extend _ _ _)
  split
  · split
    · exact hforget.trans (adds_write rfl)
    · exact hforget.trans (adds_extend _ _ _)
  · exact .refl b

theorem adds_endTag : Adds P b (endTag s b t) := by
  have hforget : Adds P b { b with endTagOpen := none } := .of_nodes rfl
  unfold endTag
  dsimp only
  split
  · rw [foldl_extend]
    split
    · exact hforget.trans (.trans (.of_kindOf (kindOf_reach _ _ _)) ((adds_write rfl).trans (.of_nodes rfl)))
    · exact hforget.trans (.of_kindOf (kindOf_reach _ _ _))
  · exact hforget.trans (adds_openNode rfl _)

theorem adds_tagToken : Adds P b (tagToken s b t inDtd) := by
  have hforget : Adds P b { b with openAttribute := none } := .of_nodes rfl
  unfold tagToken
  split
  · exact adds_openMarkup rfl
  · exact adds_write rfl
  · exact hforget.trans (adds_write rfl)
  · exact hforget.trans ((adds_write rfl).trans (.of_nodes rfl))
  · exact hforget
  · exact hforget
  · exact (adds_beforeMarkup b t.start inDtd).trans (.of_nodes rfl)
  · exact adds_endTag
  · split
    · exact adds_flushEndTag b t.stop _
    · split
      · split
        · exact (adds_write rfl).trans (.of_nodes rfl)
        · exact .refl b
      · exact .refl b
  · split
    · exact adds_extend b _ _
    · exact .refl b
  · exact .refl b

theorem adds_sectionToken : Adds P b (sectionToken s b t inDtd) := by
  have hforget : Adds P b { b with openAttribute := none } := .of_nodes rfl
  unfold sectionToken
  split
  · exact adds_openMarkup rfl
  · exact adds_openMarkup rfl
  · exact adds_write rfl
  · exact adds_write rfl
  · exact adds_write rfl
  · exact adds_write rfl
  · exact (adds_write rfl).trans (.of_nodes rfl)
  · exact (adds_write rfl).trans (.of_nodes rfl)
  · exact (adds_write rfl).trans (.of_nodes rfl)
  · exact (adds_write rfl).trans (.of_nodes rfl)
  · exact adds_openMarkup rfl
  · exact adds_write rfl
  · exact adds_write rfl
  · exact adds_write rfl
  · exact hforget.trans ((adds_write rfl).trans (.of_nodes rfl))
  · exact hforget.trans ((adds_write rfl).trans (.of_nodes rfl))
  · exact hforget
  · exact hforget
  · exact .refl b

/-! ### Declarations -/

theorem adds_onDoctype {f : Doctype → Doctype} (hf : ∀ d, ∀ q ∈ (f d).literals, q ∈ d.literals ∨ P q) :
    Adds P b (b.onDoctype t f) := by
  unfold onDoctype
  split
  · split
    · rename_i d hkind
      refine adds_update fun q hq => ?_
      rw [hkind]
      exact hf d q hq
    · exact adds_extend b _ _
  · exact .refl b

theorem adds_openDeclaration {body : Declaration.Body} (hbody : body.literals = []) :
    Adds P b (b.openDeclaration t body) := by
  have hleave : Adds P b b.leaveDeclaration.leaveClosedElement :=
    (adds_leaveDeclaration b).trans (adds_leaveClosedElement _)
  exact hleave.trans ((adds_openNode (k := .declaration { body }) hbody t.span).trans (.of_nodes rfl))

theorem adds_unrecognized : Adds P b (unrecognized s b t) := by
  unfold unrecognized
  split
  · split
    · rename_i hkind
      exact adds_update fun q hq => .inl (hkind ▸ hq)
    · rename_i hkind
      exact adds_update fun q hq => .inl (hkind ▸ hq)
    · exact .refl b
  · exact .refl b

theorem adds_declarationClose : Adds P b (dtdToken s b .declarationClose t inDtd) := by
  unfold dtdToken
  dsimp only
  split
  · split
    · rename_i d hkind
      refine (adds_update (k := .declaration { d with closed := true }) fun q hq => .inl ?_).trans (.of_nodes rfl)
      rw [hkind]
      exact hq
    · exact (adds_extend b _ _).trans (.of_nodes rfl)
  · exact .refl b

theorem mem_literals_addDoctypeParameter {kind : Token.DtdKind} {p : Parameter} {d : Doctype}
    (h : q ∈ (addDoctypeParameter kind p d).literals) : q ∈ d.literals ∨ q = (kind, p) := by
  unfold addDoctypeParameter at h
  dsimp only at h
  split at h
  · exact .inl h
  · rcases List.mem_append.mp h with h | h
    · exact .inr (List.mem_singleton.mp h)
    · exact .inl (List.mem_append_right _ h)
  · rcases List.mem_append.mp h with h | h
    · exact .inl (List.mem_append_left _ h)
    · exact .inr (List.mem_singleton.mp h)
  · exact .inl h

theorem mem_literals_addParameter {kind : Token.DtdKind} {p : Parameter} {content : Option Parameter}
    {body : Declaration.Body} (h : q ∈ (addParameter kind p content body).literals) :
    q ∈ body.literals ∨ q = (kind, p) := by
  cases body with
  | entity d =>
    by_cases hkind : kind = .entityValue
    · subst hkind
      exact .inr (List.mem_singleton.mp h)
    · left
      unfold addParameter at h
      dsimp only at h
      split at h
      any_goals exact h
      exact absurd rfl hkind
  | _ => cases h

/-- The literal is the text of the token. -/
def IsWritten (s : String) (t : Token) (q : Token.DtdKind × Parameter) : Prop :=
  t.kind = .dtd q.1 ∧ q.2 = parameter s t

theorem adds_declarationParameter {kind : Token.DtdKind} (hkind : t.kind = .dtd kind) :
    Adds (IsWritten s t) b (declarationParameter s b kind t) := by
  unfold declarationParameter
  split
  · exact .refl b
  · rename_i id _
    have hmark : Adds (IsWritten s t) b
        (if kind = .contentOpen then { b with contentStart := some t.start } else b) := by
      split
      · exact .of_nodes rfl
      · exact .refl b
    generalize (if kind = .contentOpen then { b with contentStart := some t.start } else b) = marked at *
    refine hmark.trans ?_
    dsimp only
    split
    · rename_i d hd
      refine adds_update fun q hq => ?_
      rw [hd]
      refine (mem_literals_addParameter hq).imp_right ?_
      rintro rfl
      exact ⟨hkind, rfl⟩
    · exact .refl _

theorem adds_dtdToken {kind : Token.DtdKind} (hkind : t.kind = .dtd kind) :
    Adds (IsWritten s t) b (dtdToken s b kind t inDtd) := by
  have hparameter : Adds (IsWritten s t) b (b.onDoctype t (addDoctypeParameter kind (parameter s t))) := by
    refine adds_onDoctype fun d q hq => (mem_literals_addDoctypeParameter hq).imp_right ?_
    rintro rfl
    exact ⟨hkind, rfl⟩
  cases kind with
  | doctypeOpen => exact (adds_openMarkup (k := .doctype {}) rfl).trans (.of_nodes rfl)
  | subsetOpen => exact adds_onDoctype fun d q => .inl
  | subsetClose => exact (adds_leaveDeclaration b).trans (adds_onDoctype fun d q => .inl)
  | doctypeClose =>
    unfold dtdToken
    dsimp only
    refine (adds_leaveDeclaration b).trans ?_
    split
    · have hclose : Adds (IsWritten s t) b.leaveDeclaration
          (b.leaveDeclaration.onDoctype t fun d => { d with closed := true }) := adds_onDoctype fun d q => .inl
      exact hclose.trans (.of_nodes rfl)
    · exact .refl _
  | doctypeName | doctypePublic | doctypeSystem | doctypePublicId | doctypeSystemId => exact hparameter
  | elementOpen | attlistOpen | entityOpen | notationOpen => exact adds_openDeclaration rfl
  | declarationClose => exact adds_declarationClose
  | unrecognized => exact adds_unrecognized
  | _ => exact adds_declarationParameter hkind

/-- **The only literal that a token adds is its own.** -/
theorem adds_step (s : String) (b : Builder) (t : Token) (inDtd : Bool) :
    Adds (IsWritten s t) b (step s b t inDtd) := by
  unfold step
  split
  any_goals exact adds_tagToken
  · exact adds_attributeName
  · exact adds_assign
  · exact adds_attributeValue
  · exact .refl b
  · exact .refl b
  · exact (adds_beforeMarkup b _ _).trans (adds_append rfl _)
  · exact adds_dtdToken ‹_›
  · exact adds_sectionToken

/-! ## Along the tokens -/

theorem exists_written (hf : Follows s x b) (hl : Leads s x l y) (hq : q ∈ ((behind s l b).kindOf id).literals) :
    q ∈ (b.kindOf id).literals ∨
      ∃ b z, Follows s z b ∧ z.pos < size s ∧ z.step s ∈ l ∧ IsWritten s (z.step s).1 q := by
  by_cases hold : q ∈ (b.kindOf id).literals
  · exact .inl hold
  · obtain ⟨l₁, z, l₂, h₁, hz, -, rfl, hbefore, hafter⟩ :=
      exists_turn (P := fun b => q ∈ (b.kindOf id).literals) hl hold hq
    have hwritten := ((adds_step s _ _ _).or_of_mem id q hafter).resolve_left hbefore
    exact .inr ⟨_, z, hf.behind h₁, hz, by simp, hwritten⟩

theorem literals_start (s : String) (dtdFile : Bool) (id : Nat) : ((start s dtdFile).kindOf id).literals = [] := by
  cases dtdFile with
  | false => rcases id with _ | id <;> rfl
  | true => rcases id with _ | _ | id <;> rfl

end Builder

/-! ## What is told of a literal -/

theorem Node.Kind.fst_mem_literals {k : Kind} {q : Token.DtdKind × Parameter} (h : q ∈ k.literals) :
    q.1 ∈ Token.literals := by
  cases k with
  | doctype d =>
    rcases List.mem_append.mp h with h | h
    all_goals
      obtain ⟨p, -, rfl⟩ := List.mem_map.mp h
      simp [Token.literals]
  | declaration d =>
    obtain ⟨body, _, _, _⟩ := d
    cases body with
    | entity e =>
      obtain ⟨p, -, rfl⟩ := List.mem_map.mp h
      simp [Token.literals]
    | _ => cases h
  | _ => cases h

/-- The literals that a node may keep, each with the kind of its token and what is told of it. -/
def Node.Kind.told : Kind → List (Token.DtdKind × Option Parameter × Option String)
  | .doctype d =>
    [(.doctypePublicId, d.external.publicId, d.publicId), (.doctypeSystemId, d.external.systemId, d.systemId)]
  | .declaration d =>
    match d.body with
    | .entity e => [(.entityValue, e.value, e.replacement)]
    | _ => []
  | _ => []

theorem Node.Kind.mem_told {k : Kind} {kind : Token.DtdKind} {p : Option Parameter} {told : Option String}
    (h : (kind, p, told) ∈ k.told) : told = p.map Parameter.inner ∧ ∀ p' ∈ p, (kind, p') ∈ k.literals := by
  cases k with
  | doctype d =>
    simp only [Kind.told, List.mem_cons, Prod.mk.injEq, List.not_mem_nil, or_false] at h
    rcases h with ⟨rfl, rfl, rfl⟩ | ⟨rfl, rfl, rfl⟩
    · exact ⟨rfl, fun p hp => by simp [Kind.literals, Doctype.literals, Option.mem_def.mp hp]⟩
    · exact ⟨rfl, fun p hp => by simp [Kind.literals, Doctype.literals, Option.mem_def.mp hp]⟩
  | declaration d =>
    obtain ⟨body, _, _, _⟩ := d
    cases body with
    | entity e =>
      simp only [Kind.told, List.mem_singleton, Prod.mk.injEq] at h
      obtain ⟨rfl, rfl, rfl⟩ := h
      exact ⟨rfl, fun p hp => by simp [Kind.literals, Declaration.Body.literals, Option.mem_def.mp hp]⟩
    | _ => cases h
  | _ => cases h

theorem Node.Kind.exists_told {k : Kind} {kind : Token.DtdKind} {p : Parameter} (h : (kind, p) ∈ k.literals) :
    (kind, some p, some p.inner) ∈ k.told := by
  cases k with
  | doctype d =>
    rcases List.mem_append.mp h with h | h
    all_goals
      obtain ⟨p, hp, heq⟩ := List.mem_map.mp h
      obtain ⟨rfl, rfl⟩ := Prod.mk.inj heq
      simp [Kind.told, Doctype.publicId, Doctype.systemId, Option.mem_toList.mp hp]
  | declaration d =>
    obtain ⟨body, _, _, _⟩ := d
    cases body with
    | entity e =>
      obtain ⟨p, hp, heq⟩ := List.mem_map.mp h
      obtain ⟨rfl, rfl⟩ := Prod.mk.inj heq
      simp [Kind.told, Declaration.EntityBody.replacement, Option.mem_toList.mp hp]
    | _ => cases h
  | _ => cases h

/-- The text without its last character. -/
def Text.withoutLast (s : String) : String := String.ofList s.toList.dropLast

/-- Without its first and last character a literal that is closed is its content, and one that is not lacks the last
character of that. -/
theorem Token.Quotes.inner {s content : String} {t : Token} {q : Char} (h : t.Quotes s q content) :
    Text.inner (t.written s) = if t.fault = none then content else Text.withoutLast content := by
  rw [h.written]
  split
  · simp [Text.inner]
  · simp [Text.inner, Text.withoutLast]

/-- A literal that is not closed has a last character to lose, unless it is nothing but its quote. -/
theorem Token.Quotes.withoutLast_eq_iff {s content : String} {t : Token} {q : Char} (h : t.Quotes s q content)
    (hfault : t.fault ≠ none) : Text.withoutLast content = content ↔ (t.written s).length = 1 := by
  rw [h.written, if_neg hfault, Text.withoutLast, ← String.toList_inj, String.toList_ofList, ← String.length_toList]
  constructor
  · intro heq
    have hlength := congrArg List.length heq
    rw [List.length_dropLast] at hlength
    have hnil : content.toList = [] := List.length_eq_zero_iff.mp (by omega)
    simp [hnil]
  · intro hone
    have hnil : content.toList = [] := by simpa using hone
    rw [hnil]
    rfl

namespace Document

variable {text uri : String} {n : Node} {q : Token.DtdKind × Parameter} {t : Token}

/-- Of each literal that a node keeps, what stands between its quotes is told, or if it is not closed, what `cut`
leaves of all that stands behind its quote. -/
def Tells (cut : String → String) (d : Document) : Prop := ∀ n ∈ d.nodes, ∀ q ∈ n.kind.told,
  (q.2.1 = none ∧ q.2.2 = none) ∨ ∃ t ∈ d.tokens, ∃ quote content, t.kind = .dtd q.1 ∧
    q.2.1 = some (Builder.parameter d.text t) ∧ t.Quotes d.text quote content ∧
    q.2.2 = some (if t.fault = none then content else cut content)

/-- Each literal that is kept is the text of a token. -/
theorem exists_quotes (hn : n ∈ (parse text uri).nodes) (hq : q ∈ n.kind.literals) :
    ∃ t ∈ (parse text uri).tokens, t.kind = .dtd q.1 ∧ q.2 = Builder.parameter text t ∧
      ∃ quote content, t.Quotes text quote content := by
  obtain ⟨id, hid⟩ := Array.mem_iff_getElem?.mp hn
  have hf := Builder.follows_start text (isDtdUri uri)
  obtain ⟨y, hl, hpos⟩ := Leads.exists_end text _ hf.boundary
  rw [parse, Builder.build_eq, Builder.run_eq_behind hl hf.boundary hpos] at hid
  rw [← Builder.kindOf_eq hid] at hq
  -- at the end of the text no literal is added
  have hend := ((Builder.adds_atEnd (P := fun _ => False) text _).or_of_mem id q hq).resolve_right not_false
  rcases Builder.exists_written hf hl hend with hstart | ⟨b, z, hz, hlt, hmem, hkind, hp⟩
  · rw [Builder.literals_start] at hstart
    cases hstart
  · refine ⟨_, ?_, hkind, hp, Lexer.quotes_step hz.consistent hz.boundary hlt (Kind.fst_mem_literals hq) hkind⟩
    rw [tokens_parse]
    exact List.mem_map_of_mem hmem

/-- **What is told of the literals of a document**, whatever its text and address: of one that is not closed the last
character is lost. So what is told is right just where every literal is closed or nothing but a quote. -/
theorem parse_literals (text uri : String) : (parse text uri).Tells Text.withoutLast ∧
    ((parse text uri).Tells id ↔ ∀ n ∈ (parse text uri).nodes, ∀ q ∈ n.kind.literals,
      ∀ t ∈ (parse text uri).tokens, q.2 = Builder.parameter text t →
        t.fault = none ∨ q.2.text.length = 1) := by
  have htells : (parse text uri).Tells Text.withoutLast := by
    rintro n hn ⟨kind, p, told⟩ hq
    obtain ⟨rfl, hliterals⟩ := Kind.mem_told hq
    cases p with
    | none => exact .inl ⟨rfl, rfl⟩
    | some p =>
      obtain ⟨t, ht, hkind, rfl, quote, content, hquotes⟩ := exists_quotes hn (hliterals p rfl)
      exact .inr ⟨t, ht, quote, content, hkind, rfl, hquotes, congrArg some hquotes.inner⟩
  refine ⟨htells, fun h n hn q hq t ht hp => ?_, fun h n hn q hq => ?_⟩
  · obtain ⟨kind, p⟩ := q
    obtain rfl : p = Builder.parameter text t := hp
    obtain ⟨hnone, -⟩ | ⟨t', ht', quote, content, -, hp, hquotes, htold⟩ := h n hn _ (Kind.exists_told hq)
    · cases hnone
    · have hspan : t.span = t'.span := congrArg Parameter.span (Option.some.inj hp)
      obtain rfl := eq_of_start ht ht' (congrArg Span.start hspan)
      have hquotes : t.Quotes text quote content := hquotes
      have htold : Text.inner (t.written text) = if t.fault = none then content else content := Option.some.inj htold
      rw [hquotes.inner] at htold
      by_cases hfault : t.fault = none
      · exact .inl hfault
      · rw [if_neg hfault, if_neg hfault] at htold
        exact .inr ((hquotes.withoutLast_eq_iff hfault).mp htold)
  · obtain ⟨kind, p, told⟩ := q
    refine (htells n hn _ hq).imp_right ?_
    rintro ⟨t, ht, quote, content, hkind, hp, hquotes, htold⟩
    refine ⟨t, ht, quote, content, hkind, hp, hquotes, htold.trans (congrArg some ?_)⟩
    split
    · rfl
    · rename_i hfault
      have hone := (h n hn _ ((Kind.mem_told hq).2 _ hp) t ht rfl).resolve_left hfault
      exact (hquotes.withoutLast_eq_iff hfault).mpr hone

/-- The closing quote is missing here, and the file that is named lacks its last letter. -/
theorem identifier_cut : ¬ (parse "<!DOCTYPE a SYSTEM \"a.dtd>" "file:///t.xml").Tells id := by
  intro h
  have htold : ((parse "<!DOCTYPE a SYSTEM \"a.dtd>" "file:///t.xml").node? 1).map (·.kind.told) =
      some [(.doctypePublicId, none, none), (.doctypeSystemId, some ⟨⟨19, 25⟩, "\"a.dtd"⟩, some "a.dt")] := by
    decide +kernel
  obtain ⟨n, hn, hnode⟩ := Option.map_eq_some_iff.mp htold
  have hmem : (.doctypeSystemId, some ⟨⟨19, 25⟩, "\"a.dtd"⟩, some "a.dt") ∈ n.kind.told := by
    rw [hnode]
    exact List.mem_cons_of_mem _ List.mem_cons_self
  obtain ⟨hnone, -⟩ | ⟨t, -, quote, content, -, hp, hquotes, hcontent⟩ :=
    h n (Array.mem_iff_getElem?.mpr ⟨1, hn⟩) _ hmem
  · cases hnone
  · have hwritten := hquotes.written
    obtain rfl : "a.dt" = content := by
      have := Option.some.inj hcontent
      rwa [id, ite_self] at this
    rw [show t.written _ = "\"a.dtd" from (congrArg Parameter.text (Option.some.inj hp)).symm, ← String.toList_inj]
      at hwritten
    split at hwritten
    · -- the quote would have to be a `d` as well
      simp only [String.toList_append, String.toList_singleton] at hwritten
      obtain ⟨rfl, hlast⟩ : '"' = quote ∧ 'd' = quote := by simpa using hwritten
      cases hlast
    · simp at hwritten

end Document

end XmlAssist
