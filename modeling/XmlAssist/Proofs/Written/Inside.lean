import XmlAssist.Proofs.Tree.Growth
import XmlAssist.Proofs.Tree.Tokens
import XmlAssist.Proofs.Written.Scan

/-!
# Passing over tokens

The lexer and the builder go over a text together. `Passes` says that they get from one pair of
states to another by tokens without a fault. The builder is followed exactly: inside a node, the
nodes are those before it, the node itself and those behind it (`Builder.inside`), and what a token
does is an equation between such builders.
-/

namespace XmlAssist

open Node

/-- From `x` and `b` on, tokens without a fault lead to `y` and `c`. -/
def Passes (s : String) (x : Lexer) (b : Builder) (y : Lexer) (c : Builder) : Prop :=
  ∃ ts, x.tokens s = ts ++ y.tokens s ∧ (∀ t ∈ ts, t.1.fault = none) ∧
    ts.foldl (fun b (t, x) => Builder.step s b t x.inDtd) b = c

namespace Passes

variable {s : String} {x y z : Lexer} {b c d : Builder}

theorem refl (s : String) (x : Lexer) (b : Builder) : Passes s x b x b := ⟨[], rfl, by simp, rfl⟩

theorem trans (h : Passes s x b y c) (h' : Passes s y c z d) : Passes s x b z d := by
  obtain ⟨ts, hts, hfault, rfl⟩ := h
  obtain ⟨ts', hts', hfault', rfl⟩ := h'
  refine ⟨ts ++ ts', by rw [hts, hts', List.append_assoc], fun t ht => ?_, List.foldl_append⟩
  rcases List.mem_append.mp ht with ht | ht
  · exact hfault t ht
  · exact hfault' t ht

theorem of_lex {kind : Token.Kind} (h : x.lex s = ⟨kind, y, none⟩) (hk : kind ≠ .eos)
    (hlt : x.pos < y.pos) (hb : Builder.step s b ⟨kind, x.pos, y.pos, none⟩ y.inDtd = c) :
    Passes s x b y c := by
  have hstep : x.step s = (⟨kind, x.pos, y.pos, none⟩, y) := by
    rw [Lexer.step, h, if_neg fun hn => Nat.not_le_of_lt hlt hn.2]
  refine ⟨[x.step s], ?_, by simp [hstep], by simpa [hstep] using hb⟩
  rw [Lexer.tokens_cons (by rw [hstep]; exact hk), hstep]
  rfl

theorem of_blank (h : x.lex s = ⟨.blank, y, none⟩) (hlt : x.pos < y.pos) : Passes s x b y b :=
  of_lex h (by decide) hlt rfl

end Passes

/-! ## Whole texts -/

theorem extendTo_eq_self {span : Span} {j : Nat} (h : j ≤ span.stop) : span.extendTo j = span := by
  rw [Span.extendTo, Nat.max_eq_left h]

theorem Builder.finish_eq {s : String} {b : Builder} (hpending : b.endTagOpen = none)
    (hspan : ∀ id ∈ chain b.nodes b.current, ∀ n, b.nodes[id]? = some n → Text.size s ≤ n.span.stop) :
    b.finish s = b.nodes := by
  have hflush : b.flushEndTag (Text.size s) none = b := by
    rw [flushEndTag, hpending]
  have hextend : ∀ id ∈ chain b.nodes b.current, b.extend id (Text.size s) = b := by
    intro id hid
    have hnodes : b.nodes.modify id (fun n => { n with span := n.span.extendTo (Text.size s) }) =
        b.nodes := by
      apply Array.ext_getElem?
      intro j
      rw [Array.getElem?_modify]
      split
      · rename_i heq
        subst heq
        cases hn : b.nodes[id]? with
        | none => rfl
        | some n => simp only [Option.map_some, extendTo_eq_self (hspan id hid n hn)]
      · rfl
    rw [extend, modify, hnodes]
  rw [finish, hflush]
  generalize chain b.nodes b.current = ids at hextend
  induction ids with
  | nil => rfl
  | cons id ids ih =>
    rw [List.foldl_cons, hextend id List.mem_cons_self]
    exact ih fun i hi => hextend i (List.mem_cons_of_mem id hi)

theorem Builder.build_of_passes {s : String} {dtdFile : Bool} {y : Lexer} {c : Builder}
    (h : Passes s (if dtdFile then .declarations else .document) (start s dtdFile) y c)
    (hy : Text.size s ≤ y.pos) (hpending : c.endTagOpen = none)
    (hspan : ∀ id ∈ chain c.nodes c.current, ∀ n, c.nodes[id]? = some n → Text.size s ≤ n.span.stop) :
    build s dtdFile = c.nodes ∧
      ∀ t ∈ (if dtdFile then Lexer.declarations else Lexer.document).tokens s, t.1.fault = none := by
  obtain ⟨ts, htokens, hfault, hfold⟩ := h
  rw [Lexer.tokens_at_end hy, List.append_nil] at htokens
  refine ⟨?_, fun t ht => hfault t (htokens ▸ ht)⟩
  rw [← Builder.finish_eq hpending hspan, ← hfold, ← htokens]
  rfl

/-! ## Nodes around one -/

section mid
variable {A B : Array Node} {x n : Node} {f : Node → Node} {i : Nat}

theorem modify_append_left (h : i < A.size) : (A ++ B).modify i f = A.modify i f ++ B := by
  apply Array.ext_getElem?
  intro j
  rw [Array.getElem?_modify, Array.getElem?_append, Array.getElem?_append, Array.getElem?_modify,
    Array.size_modify]
  by_cases hj : j < A.size
  · rw [if_pos hj, if_pos hj]
  · rw [if_neg hj, if_neg hj, if_neg (by omega)]

theorem modify_last (A : Array Node) (x : Node) (f : Node → Node) :
    (A ++ #[x]).modify A.size f = A ++ #[f x] := by
  apply Array.ext_getElem?
  intro j
  rw [Array.getElem?_modify, Array.getElem?_append, Array.getElem?_append]
  by_cases hj : j < A.size
  · rw [if_pos hj, if_pos hj, if_neg (by omega)]
  · rw [if_neg hj, if_neg hj]
    by_cases hlast : A.size = j
    · simp [← hlast]
    · rw [if_neg hlast, Array.getElem?_eq_none (by simp; omega), Array.getElem?_eq_none (by simp; omega)]

theorem modify_mid (A B : Array Node) (x : Node) (f : Node → Node) :
    (A ++ #[x] ++ B).modify A.size f = A ++ #[f x] ++ B := by
  rw [modify_append_left (by simp), modify_last]

theorem getElem?_mid (A B : Array Node) (x : Node) : (A ++ #[x] ++ B)[A.size]? = some x := by
  rw [Array.getElem?_append_left (by simp)]
  simp

end mid

namespace Builder

variable {s : String} {A B : Array Node} {x n : Node} {kind : Kind} {i j : Nat}

/-- The builder inside the node `x`, with the nodes `A` before it and the nodes `B` behind it. -/
def inside (A : Array Node) (x : Node) (B : Array Node) : Builder :=
  { nodes := A ++ #[x] ++ B, current := A.size }

@[simp] theorem current_inside : (inside A x B).current = A.size := rfl

@[simp] theorem nodes_inside : (inside A x B).nodes = A ++ #[x] ++ B := rfl

@[simp] theorem kindOf_inside : (inside A x B).kindOf A.size = x.kind := by
  rw [kindOf, nodes_inside, getElem?_mid]
  rfl

theorem update_inside : (inside A x B).update A.size kind j =
    inside A { x with kind, span := x.span.extendTo j } B := by
  rw [update, modify, nodes_inside, modify_mid]
  rfl

theorem leave_inside {p : Nat} (h : x.parent = some p) :
    (inside A x B).leave = { nodes := A ++ #[x] ++ B, current := p } := by
  rw [leave, parentOf, nodes_inside, current_inside, getElem?_mid]
  show ({ inside A x B with current := x.parent.getD 0 } : Builder) = _
  rw [h]
  rfl

theorem append_eq (N : Array Node) (p : Nat) (kind : Kind) (span : Span) :
    append { nodes := N, current := p } kind span =
      { nodes := N.modify p (withChild N.size) ++ #[{ span, parent := some p, kind }], current := p } := by
  rw [append, modify, Array.push_eq_append]
  rfl

theorem openNode_eq (N : Array Node) (p : Nat) (kind : Kind) (span : Span) :
    openNode { nodes := N, current := p } kind span =
      inside (N.modify p (withChild N.size)) { span, parent := some p, kind } #[] := by
  rw [openNode, append_eq, inside]
  simp

theorem beforeMarkup_of_open {N : Array Node} {p : Nat}
    (h : (kindOf { nodes := N, current := p } p).isClosedElement = false) :
    beforeMarkup { nodes := N, current := p } i false = { nodes := N, current := p } := by
  show leaveClosedElement { nodes := N, current := p } = _
  unfold leaveClosedElement
  dsimp only
  split
  · rename_i e he
    rw [he] at h
    exact if_neg (by rw [show e.closed = false from h]; simp)
  · rfl

/-! ## Attributes -/

theorem modify_attribute (A B : Array Node) (x n : Node) (f : Node → Node) :
    (A ++ #[x] ++ B.push n).modify (A.size + 1 + B.size) f = A ++ #[x] ++ B.push (f n) := by
  rw [Array.push_eq_append, Array.push_eq_append, ← Array.append_assoc, ← Array.append_assoc]
  have hsize : A.size + 1 + B.size = (A ++ #[x] ++ B).size := by simp
  rw [hsize, modify_last]

/-- The builder inside the node `x`, whose last attribute `n` has no value yet. -/
def insideAttribute (A : Array Node) (x : Node) (B : Array Node) (n : Node) : Builder :=
  { nodes := A ++ #[x] ++ B.push n, current := A.size, openAttribute := some (A.size + 1 + B.size) }

theorem getElem?_attribute (A B : Array Node) (x n : Node) :
    (A ++ #[x] ++ B.push n)[A.size + 1 + B.size]? = some n := by
  have hsize : A.size + 1 + B.size = (A ++ #[x] ++ B).size := by simp
  rw [Array.push_eq_append, ← Array.append_assoc, hsize, ← Array.push_eq_append,
    Array.getElem?_push_size]

theorem kindOf_attribute (A B : Array Node) (x n : Node) (o : Option Nat) :
    kindOf { nodes := A ++ #[x] ++ B.push n, current := A.size, openAttribute := o }
      (A.size + 1 + B.size) = n.kind :=
  kindOf_eq (getElem?_attribute A B x n)

theorem attributeName_inside {kind' : Kind} (h : withAttribute (A.size + 1 + B.size) x.kind = some kind')
    (k : Token.Kind) :
    attributeName s (inside A x B) ⟨k, i, j, none⟩ =
      insideAttribute A { x with kind := kind', span := x.span.extendTo j } B
        { span := ⟨i, j⟩, parent := some A.size,
          kind := .attribute { name := Text.slice s i j, nameSpan := ⟨i, j⟩ } } := by
  have hsize : (A ++ #[x] ++ B).size = A.size + 1 + B.size := by simp
  simp only [attributeName, nodes_inside, current_inside, hsize, kindOf_inside, h, update_inside,
    Token.span]
  rw [Array.push_eq_append, Array.append_assoc, ← Array.push_eq_append]
  rfl

theorem assign_inside {a : Attribute} (h : n.kind = .attribute a) (k : Token.Kind) :
    assign (insideAttribute A x B n) ⟨k, i, j, none⟩ =
      insideAttribute A { x with span := x.span.extendTo j } B
        { n with kind := .attribute { a with hasDelimiter := true } } := by
  have hkind := (kindOf_attribute A B x n (some (A.size + 1 + B.size))).trans h
  simp only [assign, insideAttribute, hkind, modify, extend, modify_attribute, modify_mid]

theorem attributeValue_inside {a : Attribute} (h : n.kind = .attribute a) (k : Token.Kind) :
    attributeValue s (insideAttribute A x B n) ⟨k, i, j, none⟩ =
      inside A { x with span := x.span.extendTo j }
        (B.push { n with kind := .attribute (a.withValue (Text.slice s i j) ⟨i, j⟩)
                         span := n.span.extendTo j }) := by
  have hkind := (kindOf_attribute A B x n none).trans h
  simp only [attributeValue, insideAttribute, hkind, update, modify, extend, modify_attribute,
    modify_mid, Token.span]
  rfl

/-! ## End tags -/

theorem chain_eq_cons (nodes : Array Node) (id : Nat) : ∃ outer, chain nodes id = id :: outer := by
  rcases chain_cases nodes id with h | ⟨p, -, -, h⟩
  · exact ⟨_, h⟩
  · exact ⟨_, h⟩

theorem endTag_inside {e : Element} {start : Nat} (h : x.kind = .element e) (hopen : e.closed = false)
    (htag : e.tag = some (Text.slice s i j)) (k : Token.Kind) :
    endTag s { nodes := A ++ #[x] ++ B, current := A.size, endTagOpen := some start } ⟨k, i, j, none⟩ =
      inside A { x with kind := .element { e with closed := true, endOpen := some start
                                                  endTagSpan := some ⟨i, j⟩ }
                        span := x.span.extendTo j } B := by
  obtain ⟨outer, hchain⟩ := chain_eq_cons (A ++ #[x] ++ B) A.size
  have hkind : kindOf (inside A x B) A.size = .element e := kindOf_inside.trans h
  have his : isOpenAs (inside A x B) (Text.slice s i j) A.size = true := by
    rw [isOpenAs, hkind]
    simp [hopen, htag]
  rw [endTag_eq rfl]
  rw [inside] at his
  simp only [hchain, List.find?_cons_of_pos his, List.takeWhile_cons, his, Bool.not_true,
    Bool.false_eq_true, if_false]
  show closeAt (inside A x B) [] A.size start ⟨k, i, j, none⟩ = _
  rw [closeAt, List.foldl_nil]
  simp only [hkind, update_inside, Token.span]
  rfl

end Builder

end XmlAssist
