import XmlAssist.Proofs.Tree.Recording

/-!
# What stands inside what

Every kind of node has its place: declarations stand in a document type, elements and CDATA sections
in elements and in the document, and text, comments and instructions in both. All other nodes are
leaves. There is one exception. New markup can start inside an XML declaration whose `?>` is
missing, and the builder does not leave that node then, so that all that follows is inside it.

`Role` tells the kinds of node apart as far as this goes, and `Tidy` says that each node stands where
one of its role may. Where a node is added next depends on the mode of the lexer (`Placed`), and this
module holds what each operation of the builder makes of it.
-/

namespace XmlAssist

open Node
open Text (size)
open Lexer (Reads Falls)

/-- What a node is to those around it and inside it; an XML declaration without its `?>` is told
apart. -/
inductive Node.Role where
  | document
  | element
  | attribute
  | text
  | comment
  | cdata
  | instruction
  | prolog
  | doctype
  | declaration
deriving DecidableEq, Repr

def Node.Kind.role : Kind → Role
  | .document => .document
  | .element _ => .element
  | .attribute _ => .attribute
  | .text => .text
  | .comment _ => .comment
  | .cdata _ => .cdata
  | .instruction i => if i.isProlog && !i.closed then .prolog else .instruction
  | .doctype _ => .doctype
  | .declaration _ => .declaration

namespace Node.Role

/-- Nodes can be added to one of that role: `file` says that the whole text is declarations, and
`inDoctype` that they stand in a document type of the document. -/
def seats (file inDoctype : Bool) : Role → Bool
  | .document | .element => !file && !inDoctype
  | .prolog => file || !inDoctype
  | .doctype => file || inDoctype
  | _ => false

/-- Nodes of that role can be added there. -/
def goesIn (file inDoctype : Bool) : Role → Bool
  | .text | .comment | .instruction => true
  | .element | .cdata | .doctype => !file && !inDoctype
  | .prolog => file || !inDoctype
  | .declaration => file || inDoctype
  | .document | .attribute => false

/-- A node of the first role may have one of the second in it. -/
def holds (file : Bool) (outer : Role) : Role → Bool
  | .attribute => (outer matches .element | .prolog | .instruction)
  | .doctype => outer.seats false false
  | inner => (outer.seats file false && inner.goesIn file false) ||
      (outer.seats file true && inner.goesIn file true)

variable {file inDoctype : Bool} {outer inner : Role}

theorem holds_of_seats (ho : outer.seats file inDoctype = true)
    (hi : inner.goesIn file inDoctype = true) : outer.holds file inner = true := by
  cases file <;> cases inDoctype <;> cases inner <;> simp_all [holds, goesIn]

theorem seats_of_holds (h : outer.holds file inner = true)
    (hi : inner = .prolog ∨ (file = false ∧ (inner = .element ∨ inner = .doctype))) :
    outer.seats file false = true := by
  rcases hi with rfl | ⟨rfl, rfl | rfl⟩ <;> cases outer <;> simp_all [holds, goesIn, seats]

theorem eq_attribute_of_holds (h : outer.holds file inner = true)
    (ho : outer ≠ .document ∧ outer ≠ .element ∧ outer ≠ .prolog ∧ outer ≠ .doctype) :
    inner = .attribute := by
  cases outer <;> cases inner <;> simp_all [holds, seats]

theorem eq_doctype_of_seats (h : outer.seats false true = true) : outer = .doctype := by
  cases outer <;> simp_all [seats]

end Node.Role

/-- The role of a node and the number of the one around it. -/
def places (nodes : Array Node) (id : Nat) : Option (Role × Option Nat) :=
  nodes[id]?.map fun n => (n.kind.role, n.parent)

/-- Every node but the document stands in one that may have it. -/
def Tidy (file : Bool) (nodes : Array Node) : Prop :=
  ∀ ⦃c : Nat⦄ ⦃inner : Role⦄ ⦃around : Option Nat⦄, places nodes c = some (inner, around) →
    (inner = .document ∧ around = none) ∨
      ∃ p outer q, around = some p ∧ places nodes p = some (outer, q) ∧ outer.holds file inner = true

section places
variable {nodes nodes' : Array Node} {id : Nat} {f : Node → Node} {file : Bool}

theorem places_of_getElem? {n : Node} (h : nodes[id]? = some n) :
    places nodes id = some (n.kind.role, n.parent) := by
  rw [places, h]
  rfl

theorem parentAt_of_places {role : Role} {around : Option Nat}
    (h : places nodes id = some (role, around)) : parentAt nodes id = around := by
  obtain ⟨n, hn, hpair⟩ := Option.map_eq_some_iff.mp h
  rw [Prod.mk.injEq] at hpair
  rw [parentAt, hn, Option.bind_some, hpair.2]

theorem lt_size_of_places {place : Role × Option Nat} (h : places nodes id = some place) :
    id < nodes.size := by
  obtain ⟨n, hn, -⟩ := Option.map_eq_some_iff.mp h
  exact lt_size_of_getElem? hn

theorem places_modify (h : ∀ n, nodes[id]? = some n → (f n).kind.role = n.kind.role)
    (hp : ∀ n, (f n).parent = n.parent) : places (nodes.modify id f) = places nodes := by
  funext j
  rw [places, places, Array.getElem?_modify]
  split
  · rename_i hj
    subst hj
    cases hn : nodes[id]? with
    | none => rfl
    | some n => simp [h n hn, hp]
  · rfl

/-- The places with one node more, in the node `p`. -/
def placesWith (nodes : Array Node) (role : Role) (p : Nat) (id : Nat) : Option (Role × Option Nat) :=
  if id = nodes.size then some (role, some p) else places nodes id

theorem placesWith_of_some {role : Role} {p : Nat} {place : Role × Option Nat}
    (h : places nodes id = some place) : placesWith nodes role p id = some place := by
  have hne := Nat.ne_of_lt (lt_size_of_places h)
  rw [placesWith, if_neg hne, h]

theorem places_grow {p : Nat} {n : Node}
    (h : ∀ m, nodes[p]? = some m → (f m).kind.role = m.kind.role) (hp : ∀ m, (f m).parent = m.parent)
    (hn : n.parent = some p) : places (grow nodes p f n) = placesWith nodes n.kind.role p := by
  funext j
  rw [placesWith, ← places_modify h hp]
  simp only [places, grow, Array.getElem?_push, Array.size_modify]
  split
  · simp [hn]
  · rfl

theorem Tidy.of_places (h : Tidy file nodes) (hp : places nodes' = places nodes) :
    Tidy file nodes' := by
  unfold Tidy
  rw [hp]
  exact h

theorem Tidy.add {p : Nat} {outer inner : Role} {q : Option Nat} (h : Tidy file nodes)
    (hp : places nodes p = some (outer, q)) (hh : outer.holds file inner = true)
    (hnew : places nodes' = placesWith nodes inner p) : Tidy file nodes' := by
  intro c role around hc
  rw [hnew] at hc ⊢
  by_cases hsize : c = nodes.size
  · rw [placesWith, if_pos hsize, Option.some.injEq, Prod.mk.injEq] at hc
    obtain ⟨rfl, rfl⟩ := hc
    exact .inr ⟨p, outer, q, rfl, placesWith_of_some hp, hh⟩
  · rw [placesWith, if_neg hsize] at hc
    refine (h hc).imp_right ?_
    rintro ⟨p', outer', q', hp', hplace, hh'⟩
    exact ⟨p', outer', q', hp', placesWith_of_some hplace, hh'⟩

theorem Tidy.change {c p : Nat} {inner outer : Role} {q : Option Nat} (h : Tidy file nodes)
    (hp : places nodes p = some (outer, q)) (hne : p ≠ c) (hh : outer.holds file inner = true)
    (hparts : ∀ d role, places nodes d = some (role, some c) → inner.holds file role = true)
    (hnew : places nodes' = fun d => if d = c then some (inner, some p) else places nodes d) :
    Tidy file nodes' := by
  intro d role around hd
  rw [hnew] at hd ⊢
  dsimp only at hd ⊢
  split at hd
  · rw [Option.some.injEq, Prod.mk.injEq] at hd
    obtain ⟨rfl, rfl⟩ := hd
    exact .inr ⟨p, outer, q, rfl, by rw [if_neg hne, hp], hh⟩
  · refine (h hd).imp_right ?_
    rintro ⟨p', outer', q', rfl, hplace, hh'⟩
    by_cases hpc : p' = c
    · subst hpc
      exact ⟨p', inner, some p, rfl, if_pos rfl, hparts d role hd⟩
    · exact ⟨p', outer', q', rfl, by rw [if_neg hpc, hplace], hh'⟩

end places

/-- What is read in the mode stands inside a node that nothing is added to. -/
def Lexer.Mode.isEnclosed : Lexer.Mode → Bool
  | .inComment | .inCData | .afterInstructionOpen | .inInstruction | .declaration _ => true
  | _ => false

def Lexer.Mode.isInstruction : Lexer.Mode → Bool
  | .afterInstructionOpen | .inInstruction => true
  | _ => false

def Lexer.Mode.isDoctype : Lexer.Mode → Bool
  | .doctype _ => true
  | _ => false

/-- From the one mode the lexer can go on in the other one inside the same node. -/
def Lexer.Mode.goesOn (m m' : Lexer.Mode) : Bool :=
  m'.isEnclosed == m.isEnclosed && m'.isDoctype == m.isDoctype &&
    (!m'.isInstruction || m.isInstruction) && m' != .afterInstructionOpen

namespace Builder

variable {s : String} {x y : Lexer} {b b' : Builder} {id seat pos stop : Nat} {spaced : Bool}
variable {kind : Token.Kind} {fault : Option Token.Fault} {file inDoctype : Bool} {k : Kind}

/-! ## Operations that move no node -/

theorem places_update (h : (b.kindOf id).role = k.role) :
    places (b.update id k stop).nodes = places b.nodes := by
  refine places_modify (fun n hn => ?_) fun _ => rfl
  rw [kindOf_eq hn] at h
  exact h.symm

theorem places_extend (b : Builder) (id stop : Nat) :
    places (b.extend id stop).nodes = places b.nodes := places_modify (fun _ _ => rfl) fun _ => rfl

theorem places_reach (nodes : Array Node) (ids : List Nat) (stop : Nat) :
    places (reach nodes ids stop) = places nodes := by
  induction ids generalizing nodes with
  | nil => rfl
  | cons id ids ih => exact (ih _).trans (places_modify (fun _ _ => rfl) fun _ => rfl)

theorem places_append (b : Builder) (k : Kind) (span : Span) :
    places (b.append k span).nodes = placesWith b.nodes k.role b.current :=
  places_grow (fun _ _ => rfl) (fun _ => rfl) rfl

theorem exists_place (h : b.kindOf id = k) (hk : k ≠ .document) :
    ∃ around, places b.nodes id = some (k.role, around) := by
  obtain ⟨n, hn, rfl⟩ := exists_node h hk
  exact ⟨n.parent, by rw [places, hn]; rfl⟩

theorem role_of_places {role : Role} {around : Option Nat}
    (h : places b.nodes id = some (role, around)) : (b.kindOf id).role = role := by
  obtain ⟨n, hn, hpair⟩ := Option.map_eq_some_iff.mp h
  rw [kindOf_eq hn]
  exact congrArg Prod.fst hpair

theorem places_change {role : Role} {around : Option Nat}
    (h : places b.nodes id = some (role, around)) (k : Kind) (stop : Nat) :
    places (b.update id k stop).nodes =
      fun d => if d = id then some (k.role, around) else places b.nodes d := by
  obtain ⟨n, hn, hpair⟩ := Option.map_eq_some_iff.mp h
  funext d
  simp only [places, update, modify, Array.getElem?_modify]
  by_cases hd : d = id
  · subst hd
    rw [Prod.mk.injEq] at hpair
    simp [hn, hpair.2]
  · simp [hd, Ne.symm hd]

/-- The second builder has the same nodes at the same places open as the first. -/
structure Stays (b b' : Builder) : Prop where
  places : places b'.nodes = places b.nodes
  current : b'.current = b.current
  doctype : b'.doctype = b.doctype

theorem Stays.refl (b : Builder) : Stays b b := ⟨rfl, rfl, rfl⟩

theorem stays_update (h : (b.kindOf id).role = k.role) : Stays b (b.update id k stop) :=
  ⟨places_update h, rfl, rfl⟩

theorem stays_extend (b : Builder) (id stop : Nat) : Stays b (b.extend id stop) :=
  ⟨places_extend b id stop, rfl, rfl⟩

theorem Stays.trans {b'' : Builder} (h : Stays b b') (h' : Stays b' b'') : Stays b b'' :=
  ⟨h'.places.trans h.places, h'.current.trans h.current, h'.doctype.trans h.doctype⟩

/-! ## Where the next node goes -/

/-- The next node can be added to the node `seat`. -/
structure Seated (file inDoctype : Bool) (b : Builder) (seat : Nat) : Prop where
  tidy : Tidy file b.nodes
  role : ∃ role around, places b.nodes seat = some (role, around) ∧ role.seats file inDoctype = true
  doctype : file = false → inDoctype = true → b.doctype = some seat

theorem Seated.of_places (h : Seated file inDoctype b seat) (hp : places b'.nodes = places b.nodes)
    (hd : b'.doctype = b.doctype) : Seated file inDoctype b' seat where
  tidy := h.tidy.of_places hp
  role := by rw [hp]; exact h.role
  doctype hfile hin := hd.trans (h.doctype hfile hin)

theorem Seated.append (h : Seated file inDoctype b b.current)
    (hk : k.role.goesIn file inDoctype = true) (span : Span) :
    Seated file inDoctype (b.append k span) b.current := by
  obtain ⟨role, around, hplace, hseats⟩ := h.role
  refine ⟨h.tidy.add hplace (Role.holds_of_seats hseats hk) (places_append b k span), ?_, h.doctype⟩
  rw [places_append]
  exact ⟨role, around, placesWith_of_some hplace, hseats⟩

theorem places_openNode (b : Builder) (k : Kind) (span : Span) :
    places (b.openNode k span).nodes (b.openNode k span).current = some (k.role, some b.current) := by
  rw [places, getElem?_openNode]
  rfl

theorem Seated.around {inner : Role} {around : Option Nat} (h : Tidy file b.nodes)
    (hplace : places b.nodes id = some (inner, around))
    (hi : inner = .prolog ∨ (file = false ∧ (inner = .element ∨ inner = .doctype))) :
    Seated file false b (b.parentOf id) := by
  have hne : inner ≠ .document := by rcases hi with rfl | ⟨-, rfl | rfl⟩ <;> simp
  obtain ⟨p, outer, q, rfl, hp, hholds⟩ := (h hplace).resolve_left fun hd => hne hd.1
  rw [parentOf_eq (parentAt_of_places hplace)]
  exact ⟨h, ⟨outer, q, hp, Role.seats_of_holds hholds hi⟩, fun _ hin => absurd hin (by simp)⟩

theorem Seated.leaveElement {around : Option Nat} (h : Seated file inDoctype b b.current)
    (hplace : places b.nodes b.current = some (.element, around)) :
    Seated file inDoctype b.leave b.leave.current := by
  obtain ⟨role, around', hplace', hseats⟩ := h.role
  rw [hplace, Option.some.injEq, Prod.mk.injEq] at hplace'
  obtain ⟨rfl, -⟩ := hplace'
  simp only [Role.seats, Bool.and_eq_true, Bool.not_eq_true'] at hseats
  obtain ⟨rfl, rfl⟩ := hseats
  exact (Seated.around h.tidy hplace (.inr ⟨rfl, .inl rfl⟩)).of_places rfl rfl

theorem Seated.leaveClosedElement (h : Seated file inDoctype b b.current) :
    Seated file inDoctype b.leaveClosedElement b.leaveClosedElement.current := by
  unfold Builder.leaveClosedElement
  split
  · rename_i e he
    split
    · obtain ⟨around, hplace⟩ := exists_place he (by simp)
      exact h.leaveElement hplace
    · exact h
  · exact h

theorem Seated.flushEndTag (h : Seated false false b b.current) (stop : Nat) (close : Option Nat) :
    Seated false false (b.flushEndTag stop close) (b.flushEndTag stop close).current := by
  unfold Builder.flushEndTag
  split
  · have h' : Seated false false { b with endTagOpen := none } b.current := h.of_places rfl rfl
    exact h'.append rfl _
  · exact h

theorem declaration_flushEndTag (b : Builder) (stop : Nat) (close : Option Nat) :
    (b.flushEndTag stop close).declaration = b.declaration := by
  unfold Builder.flushEndTag
  split <;> rfl

theorem Seated.leaveDoctype (h : Seated false true b b.current) (hdecl : b.declaration = none)
    (stop : Nat) : Seated false false (b.leaveDoctype stop) (b.leaveDoctype stop).current := by
  unfold Builder.leaveDoctype
  rw [leaveDeclaration_eq hdecl]
  dsimp only
  rw [h.doctype rfl rfl]
  obtain ⟨role, around, hplace, hseats⟩ := h.role
  obtain rfl := Role.eq_doctype_of_seats hseats
  have haround := Seated.around h.tidy hplace (.inr ⟨rfl, .inr rfl⟩)
  exact ⟨haround.tidy.of_places (places_extend ..), by rw [places_extend]; exact haround.role,
    fun _ hin => absurd hin (by simp)⟩

/-- Each node stands where it may, and so will the next one. -/
structure Placed (x : Lexer) (b : Builder) : Prop where
  seated : ∃ seat, (if x.mode.isEnclosed then parentAt b.nodes b.current else some b.current) = some seat ∧
    Seated x.dtdFile x.inDoctype b seat
  instruction : x.mode.isInstruction = true →
    ∃ around, places b.nodes b.current = some (.instruction, around)
  fresh : x.mode = .afterInstructionOpen → ∃ p, b.kindOf b.current = .instruction p ∧ p.closed = false
  /-- Until its `?>`, the XML declaration has no parts but attributes. -/
  prolog : x.inProlog = true → (∃ around, places b.nodes b.current = some (.prolog, around)) ∧
    ∀ c role, places b.nodes c = some (role, some b.current) → role = .attribute

theorem isEnclosed_contentMode (x : Lexer) : x.contentMode.isEnclosed = false := by
  unfold Lexer.contentMode
  split <;> rfl

theorem Placed.tidy (h : Placed x b) : Tidy x.dtdFile b.nodes := by
  obtain ⟨seat, -, hseated⟩ := h.seated
  exact hseated.tidy

theorem Placed.seated_current (h : Placed x b) (hmode : x.mode.isEnclosed = false) :
    Seated x.dtdFile x.inDoctype b b.current := by
  obtain ⟨seat, hseat, hseated⟩ := h.seated
  rw [hmode, if_neg (by simp)] at hseat
  exact Option.some.inj hseat ▸ hseated

theorem Placed.seated_around (h : Placed x b) (hmode : x.mode.isEnclosed = true) {p : Nat}
    (hp : parentAt b.nodes b.current = some p) : Seated x.dtdFile x.inDoctype b p := by
  obtain ⟨seat, hseat, hseated⟩ := h.seated
  rw [hmode, if_pos rfl, hp] at hseat
  exact Option.some.inj hseat ▸ hseated

theorem placed_of_seated (h : Seated file inDoctype b b.current) (hfile : y.dtdFile = file)
    (hin : y.inDoctype = inDoctype) (hmode : y.mode.isEnclosed = false) (hprolog : y.inProlog = false) :
    Placed y b where
  seated := ⟨b.current, by simp [hmode], by rw [hfile, hin]; exact h⟩
  instruction hi := by
    cases hm : y.mode <;> simp_all [Lexer.Mode.isEnclosed, Lexer.Mode.isInstruction]
  fresh hm := by
    rw [hm] at hmode
    cases hmode
  prolog hp := by
    rw [hprolog] at hp
    cases hp

section opened
variable {span : Span} (h : Seated file inDoctype b b.current)
variable (hk : k.role.goesIn file inDoctype = true) (hfile : y.dtdFile = file)
variable (hprolog : y.inProlog = false) (hnodes : b'.nodes = (b.openNode k span).nodes)
variable (hcurrent : b'.current = (b.openNode k span).current)
include h hk hfile hprolog hnodes hcurrent

theorem placed_enclosed (hin : y.inDoctype = inDoctype) (hmode : y.mode.isEnclosed = true)
    (hi : y.mode.isInstruction = true → k = .instruction {}) (hdoctype : b'.doctype = b.doctype) :
    Placed y b' := by
  have hplace := places_openNode b k span
  rw [← hnodes, ← hcurrent] at hplace
  refine ⟨⟨b.current, ?_, ?_⟩, fun hinst => ?_, fun hm => ?_, fun hp => ?_⟩
  · rw [if_pos hmode, parentAt_of_places hplace]
  · rw [hfile, hin]
    exact (h.append hk span).of_places (by rw [hnodes]; rfl) hdoctype
  · rw [hi hinst] at hplace
    exact ⟨_, hplace⟩
  · refine ⟨{}, ?_, rfl⟩
    rw [kindOf, hnodes, hcurrent, getElem?_openNode, hi (by rw [hm]; rfl)]
    rfl
  · rw [hprolog] at hp
    cases hp

theorem placed_seat (hmode : y.mode.isEnclosed = false)
    (hs : k.role.seats file y.inDoctype = true)
    (hdoctype : y.inDoctype = true → b'.doctype = some b'.current) : Placed y b' := by
  have hplace := places_openNode b k span
  rw [← hnodes, ← hcurrent] at hplace
  refine placed_of_seated ⟨?_, ⟨_, _, hplace, hs⟩, fun _ => hdoctype⟩ hfile rfl hmode hprolog
  exact (h.append hk span).tidy.of_places (by rw [hnodes]; rfl)

end opened

theorem Placed.keep (h : Placed x b) (hb : Stays b b') (hfile : y.dtdFile = x.dtdFile)
    (hin : y.inDoctype = x.inDoctype) (henclosed : y.mode.isEnclosed = x.mode.isEnclosed)
    (hinst : y.mode.isInstruction = true → x.mode.isInstruction = true)
    (hfresh : y.mode ≠ .afterInstructionOpen) (hprolog : y.inProlog = x.inProlog) : Placed y b' := by
  obtain ⟨seat, hseat, hseated⟩ := h.seated
  refine ⟨⟨seat, ?_, ?_⟩, fun hi => ?_, fun hm => absurd hm hfresh, fun hp => ?_⟩
  · rw [henclosed, hb.current, ← hseat]
    split
    · obtain ⟨role, around, hplace⟩ : ∃ role around, places b.nodes b.current = some (role, around) := by
        rename_i hmode
        rw [if_pos hmode] at hseat
        obtain ⟨n, hn, -⟩ := parentAt_eq_some.mp hseat
        exact ⟨_, _, by rw [places, hn]; rfl⟩
      rw [parentAt_of_places hplace, parentAt_of_places (hb.places ▸ hplace)]
    · rfl
  · rw [hfile, hin]
    exact hseated.of_places hb.places hb.doctype
  · rw [hb.places, hb.current]
    exact h.instruction (hinst hi)
  · rw [hb.places, hb.current]
    exact h.prolog (hprolog ▸ hp)

theorem Placed.keepMode {m m' : Lexer.Mode} (h : Placed x b) (hb : Stays b b') (hmode : x.mode = m)
    (hm : m.goesOn m' = true) : Placed (x.moved pos spaced m') b' := by
  simp only [Lexer.Mode.goesOn, Bool.and_eq_true, beq_iff_eq, Bool.or_eq_true, Bool.not_eq_true',
    bne_iff_ne] at hm
  obtain ⟨⟨⟨henclosed, hdoctype⟩, hinst⟩, hfresh⟩ := hm
  subst hmode
  refine h.keep hb rfl ?_ henclosed (fun hi => hinst.resolve_left ?_) hfresh rfl
  · show (x.inSubset || m'.isDoctype) = (x.inSubset || x.mode.isDoctype)
    rw [hdoctype]
  · rw [show m'.isInstruction = true from hi]
    simp

theorem Placed.keepTag (h : Placed x b) (hb : Stays b b')
    (hmode : x.mode = .afterAttributeName ∨ x.mode = .beforeAttributeValue) :
    Placed (x.moved pos spaced x.tagMode) b' := by
  unfold Lexer.tagMode
  rcases hmode with hmode | hmode <;> split <;> exact h.keepMode hb hmode rfl

theorem Placed.leave (h : Placed x b) (hp : parentAt b.nodes b.current = some b'.current)
    (hplaces : places b'.nodes = places b.nodes) (hdoctype : b'.doctype = b.doctype)
    (hx : x.mode.isEnclosed = true) (hy : y.mode.isEnclosed = false) (hfile : y.dtdFile = x.dtdFile)
    (hin : y.inDoctype = x.inDoctype) (hprolog : y.inProlog = false) : Placed y b' := by
  exact placed_of_seated ((h.seated_around hx hp).of_places hplaces hdoctype) hfile hin hy hprolog

theorem Placed.leaveContent (h : Placed x b) (hp : parentAt b.nodes b.current = some b'.current)
    (hplaces : places b'.nodes = places b.nodes) (hdoctype : b'.doctype = b.doctype)
    (hx : x.mode.isEnclosed = true) (hprolog : x.inProlog = false) :
    Placed (x.moved pos spaced x.contentMode) b' := by
  refine h.leave hp hplaces hdoctype hx (isEnclosed_contentMode x) rfl ?_ hprolog
  rw [inDoctype_contentMode]
  cases hmode : x.mode <;> simp_all [Lexer.inDoctype, Lexer.Mode.isEnclosed]

/-! ## New markup -/

theorem doctype_settle (b : Builder) (start : Nat) : (b.settle start).doctype = b.doctype := by
  unfold settle Builder.leaveDeclaration flushEndTag
  split <;> split <;> rfl

theorem Placed.leaveDeclaring {top edge : Nat} (h : Placed x b) (hb : b.Declaring s top edge)
    (hmode : x.mode.isEnclosed = true) :
    Seated x.dtdFile x.inDoctype b.leaveDeclaration b.leaveDeclaration.current := by
  obtain ⟨-, hp, hdoctype⟩ := hb.leave
  refine (h.seated_around hmode hp).of_places ?_ hdoctype
  rw [Builder.leaveDeclaration, hb.declaration]

theorem Placed.settle (hc : x.Consistent) (hf : Fits s x b) (h : Placed x b)
    (hy : x.YieldsToContent ∨ x.YieldsToDeclaration) :
    Seated x.dtdFile x.inDoctype (b.settle x.pos) (b.settle x.pos).current := by
  have hphase := hf.phase
  cases hmode : x.mode with
  | content | dtdContent | doctype _ =>
    simp only [Phase, hmode] at hphase
    have hseated := h.seated_current (by rw [hmode]; rfl)
    rw [Builder.settle, flushEndTag_eq hphase.forget.endTagOpen, leaveDeclaration_eq hphase.forget.declaration]
    exact hseated.of_places rfl rfl
  | inTag | inProlog =>
    simp only [Phase, hmode] at hphase
    have hseated := h.seated_current (by rw [hmode]; rfl)
    rw [Builder.settle, flushEndTag_eq hphase.1.forget.endTagOpen,
      leaveDeclaration_eq hphase.1.forget.declaration]
    exact hseated.of_places rfl rfl
  | inEndTag =>
    have hm := hc.mode
    simp only [Phase, hmode] at hphase
    simp only [Lexer.Agrees, hmode] at hm
    have hseated := h.seated_current (by rw [hmode]; rfl)
    have hdecl : b.declaration = none := by
      rcases hphase with ⟨start, -, hpending⟩ | hclosing
      · exact hpending.declaration
      · exact hclosing.declaration
    rw [Lexer.dtdFile_eq_false hm.2, inDoctype_eq_false hc (by simp [hmode])] at hseated ⊢
    have hforget : Seated false false { b with openAttribute := none } b.current :=
      hseated.of_places rfl rfl
    have hdecl' : ({ b with openAttribute := none }.flushEndTag x.pos none).declaration = none :=
      (declaration_flushEndTag ..).trans hdecl
    rw [Builder.settle, leaveDeclaration_eq hdecl']
    exact hforget.flushEndTag x.pos none
  | declaration _ =>
    simp only [Phase, hmode] at hphase
    have hnone : { b with openAttribute := none }.endTagOpen = none := hphase.steady.endTagOpen
    rw [Builder.settle, flushEndTag_eq hnone]
    have hforget : Placed x { b with openAttribute := none } :=
      h.keep ⟨rfl, rfl, rfl⟩ rfl rfl rfl id (by simp [hmode]) rfl
    exact hforget.leaveDeclaring hphase.forget (by rw [hmode]; rfl)
  | _ => simp [Lexer.YieldsToContent, Lexer.YieldsToDeclaration, hmode] at hy

theorem Placed.beforeContent (hc : x.Consistent) (hf : Fits s x b) (h : Placed x b)
    (hy : x.YieldsToContent) :
    Seated false false (b.beforeMarkup x.pos false) (b.beforeMarkup x.pos false).current := by
  have hfile := hc.dtdFile_of_yieldsToContent hy
  have hseated := h.settle hc hf (.inl hy)
  rw [beforeMarkup_eq]
  rw [hfile] at hseated
  apply Seated.leaveClosedElement
  cases hin : x.inDoctype with
  | true =>
    rw [hin] at hseated
    rw [hseated.doctype rfl rfl]
    have hdecl : (b.settle x.pos).declaration = none := by
      rcases hf.settled hc (.inl hy) with ⟨hsteady, -⟩ | ⟨hclosing, -⟩
      · exact hsteady.declaration
      · exact hclosing.declaration
    exact hseated.leaveDoctype hdecl x.pos
  | false =>
    have hd := hf.doctype
    rw [hin] at hd hseated
    rw [doctype_settle, hd.eq_none hfile]
    exact hseated

theorem Placed.beforeDeclaration (hc : x.Consistent) (hf : Fits s x b) (h : Placed x b)
    (hy : x.YieldsToDeclaration) : Seated x.dtdFile x.inDoctype (b.beforeMarkup x.pos true)
      (b.beforeMarkup x.pos true).current := by
  rw [beforeMarkup_eq, Bool.not_true, Bool.and_false, if_neg (by simp)]
  exact (h.settle hc hf (.inr hy)).leaveClosedElement

theorem Placed.leaveDeclaration (hf : Fits s x b) (h : Placed x b) (hy : x.YieldsToDeclaration) :
    Seated x.dtdFile x.inDoctype b.leaveDeclaration b.leaveDeclaration.current := by
  have hphase := hf.phase
  cases hmode : x.mode with
  | dtdContent =>
    simp only [Phase, hmode] at hphase
    rw [leaveDeclaration_eq hphase.declaration]
    exact h.seated_current (by rw [hmode]; rfl)
  | inProlog =>
    simp only [Phase, hmode] at hphase
    rw [leaveDeclaration_eq hphase.1.declaration]
    exact h.seated_current (by rw [hmode]; rfl)
  | declaration _ =>
    simp only [Phase, hmode] at hphase
    exact h.leaveDeclaring hphase (by rw [hmode]; rfl)
  | _ => simp [Lexer.YieldsToDeclaration, hmode] at hy

theorem Placed.step_content {mode : Lexer.Mode} (hc : x.Consistent) (hf : Fits s x b) (h : Placed x b)
    (hy : x.YieldsToContent) (hk : Lexer.StartsContent kind mode) {inDtd : Bool} (hin : inDtd = false) :
    Placed ({ x with inProlog := false, inSubset := false }.moved pos spaced mode)
      (step s b ⟨kind, x.pos, pos, fault⟩ inDtd) := by
  subst hin
  have hfile := hc.dtdFile_of_yieldsToContent hy
  have hseated := h.beforeContent hc hf hy
  rcases hk with ⟨rfl, rfl⟩ | hk
  · rw [step_text]
    exact placed_of_seated (hseated.append rfl _) hfile rfl rfl rfl
  · simp only [Lexer.contentOpeners, List.map_cons, List.map_nil, List.mem_cons, Prod.mk.injEq,
      List.not_mem_nil, or_false] at hk
    rcases hk with ⟨rfl, rfl⟩ | ⟨rfl, rfl⟩ | ⟨rfl, rfl⟩ | ⟨rfl, rfl⟩ | ⟨rfl, rfl⟩ | ⟨rfl, rfl⟩
    · rw [step_commentOpen]
      exact placed_enclosed hseated rfl hfile rfl rfl rfl rfl rfl (by rintro ⟨⟩) rfl
    · rw [step_cdataOpen]
      exact placed_enclosed hseated rfl hfile rfl rfl rfl rfl rfl (by rintro ⟨⟩) rfl
    · rw [step_doctypeOpen]
      exact placed_seat hseated rfl hfile rfl rfl rfl rfl rfl fun _ => rfl
    · rw [step_endTagOpen]
      exact placed_of_seated (hseated.of_places rfl rfl) hfile rfl rfl rfl
    · rw [step_instructionOpen]
      exact placed_enclosed hseated rfl hfile rfl rfl rfl rfl rfl (fun _ => rfl) rfl
    · rw [step_startTagOpen]
      exact placed_seat hseated rfl hfile rfl rfl rfl rfl rfl (by rintro ⟨⟩)

theorem Placed.step_declaration {mode : Lexer.Mode} (hc : x.Consistent) (hf : Fits s x b)
    (h : Placed x b) (hy : x.YieldsToDeclaration) (hk : Lexer.StartsDeclaration kind mode)
    {inDtd : Bool} (hin : inDtd = true) :
    Placed ({ x with inProlog := false }.moved pos spaced mode)
      (step s b ⟨kind, x.pos, pos, fault⟩ inDtd) := by
  subst hin
  have hseated := h.beforeDeclaration hc hf hy
  have hleft := (h.leaveDeclaration hf hy).leaveClosedElement
  have hsubset : x.inDoctype = x.inSubset := by
    cases hmode : x.mode <;> simp_all [Lexer.inDoctype, Lexer.YieldsToDeclaration]
  rw [hsubset] at hseated hleft
  have hnew {stage : Lexer.DeclarationStage} (kind : Token.Kind) (body : Declaration.Body) :
      Placed ({ x with inProlog := false }.moved pos spaced (.declaration stage))
        (b.openDeclaration ⟨kind, x.pos, pos, fault⟩ body) :=
    placed_enclosed (k := .declaration { body }) hleft (hc.inDtd_of_yieldsToDeclaration hy) rfl rfl rfl
      rfl (Bool.or_false _) rfl (by rintro ⟨⟩) rfl
  rcases hk with ⟨rfl, rfl⟩ | hk
  · rw [step_text]
    exact placed_of_seated (hseated.append rfl _) rfl (Bool.or_false _) rfl rfl
  · simp only [Lexer.dtdOpeners, List.map_cons, List.map_nil, List.mem_cons, Prod.mk.injEq,
      List.not_mem_nil, or_false] at hk
    rcases hk with ⟨rfl, rfl⟩ | ⟨rfl, rfl⟩ | ⟨rfl, rfl⟩ | ⟨rfl, rfl⟩ | ⟨rfl, rfl⟩ | ⟨rfl, rfl⟩
    · rw [step_dtd]
      exact hnew _ _
    · rw [step_dtd]
      exact hnew _ _
    · rw [step_dtd]
      exact hnew _ _
    · rw [step_dtd]
      exact hnew _ _
    · rw [step_commentOpen]
      exact placed_enclosed hseated rfl rfl rfl rfl rfl (Bool.or_false _) rfl (by rintro ⟨⟩) rfl
    · rw [step_instructionOpen]
      exact placed_enclosed hseated rfl rfl rfl rfl rfl (Bool.or_false _) rfl (fun _ => rfl) rfl

/-! ## Tokens inside a node -/

section stays
variable {i j : Nat} {t : Token} (fault : Option Token.Fault) (inDtd : Bool)

theorem stays_startTagName : Stays b (step s b ⟨.startTagName, i, j, fault⟩ inDtd) := by
  cases hkind : b.kindOf b.current with
  | element e =>
    rw [step_startTagName hkind]
    exact stays_update (by rw [hkind]; rfl)
  | _ =>
    simp only [step, tagToken, hkind]
    exact .refl b

theorem stays_unknown : Stays b (step s b ⟨.unknown, i, j, fault⟩ inDtd) := by
  cases hkind : b.kindOf b.current with
  | element e =>
    simp only [step, tagToken, hkind]
    split
    · exact stays_extend ..
    · exact .refl b
  | _ =>
    simp only [step, tagToken, hkind]
    exact .refl b

theorem stays_startTagClose : Stays b (step s b ⟨.startTagClose, i, j, fault⟩ inDtd) := by
  cases hkind : b.kindOf b.current with
  | element e =>
    rw [step_startTagClose hkind]
    have hkind' : { b with openAttribute := none }.kindOf b.current = .element e := hkind
    exact ⟨places_update (by rw [hkind']; rfl), rfl, rfl⟩
  | _ =>
    simp only [step, tagToken, hkind]
    exact ⟨rfl, rfl, rfl⟩

theorem stays_assign (b : Builder) (t : Token) : Stays b (assign b t) := by
  unfold assign
  refine Stays.trans ?_ (stays_extend ..)
  split
  · rename_i id hid
    split
    · rename_i a ha
      refine ⟨places_modify (fun n hn => ?_) fun _ => rfl, rfl, rfl⟩
      rw [kindOf_eq hn] at ha
      rw [ha]
      rfl
    · exact .refl b
  · exact .refl b

theorem stays_attributeValue (b : Builder) (t : Token) : Stays b (attributeValue s b t) := by
  unfold attributeValue
  refine Stays.trans ?_ (stays_extend ..)
  split
  · rename_i id hid
    have hforget : Stays b { b with openAttribute := none } := ⟨rfl, rfl, rfl⟩
    dsimp only
    split
    · rename_i a ha
      exact hforget.trans (stays_update (by rw [ha]; rfl))
    · exact hforget.trans (stays_extend ..)
  · exact .refl b

theorem stays_enclosedText {c : Enclosed}
    (hc : b.kindOf b.current = .comment c ∨ b.kindOf b.current = .cdata c)
    (hk : kind = .commentText ∨ kind = .cdataText) : Stays b (step s b ⟨kind, i, j, fault⟩ inDtd) := by
  rcases hc with hc | hc
  · rw [step_text_of_comment hc hk]
    exact stays_update (by rw [hc]; rfl)
  · rw [step_text_of_cdata hc hk]
    exact stays_update (by rw [hc]; rfl)

theorem places_enclosedClose {c : Enclosed}
    (hc : b.kindOf b.current = .comment c ∨ b.kindOf b.current = .cdata c)
    (hk : kind = .commentClose ∨ kind = .cdataClose) :
    places (step s b ⟨kind, i, j, fault⟩ inDtd).nodes = places b.nodes := by
  rcases hc with hc | hc
  · rw [step_close_of_comment hc hk]
    exact places_update (by rw [hc]; rfl)
  · rw [step_close_of_cdata hc hk]
    exact places_update (by rw [hc]; rfl)

theorem stays_onDoctype (g : Doctype → Doctype) : Stays b (b.onDoctype t g) := by
  unfold onDoctype
  split
  · split
    · rename_i d hd
      exact stays_update (by rw [hd]; rfl)
    · exact stays_extend ..
  · exact .refl b

theorem stays_unrecognized (b : Builder) (t : Token) : Stays b (unrecognized s b t) := by
  unfold unrecognized
  split
  · split
    · rename_i d hd
      exact stays_update (by rw [hd]; rfl)
    · rename_i d hd
      exact stays_update (by rw [hd]; rfl)
    · exact .refl b
  · exact .refl b

theorem stays_declarationParameter (b : Builder) (k : Token.DtdKind) (t : Token) :
    Stays b (declarationParameter s b k t) := by
  unfold declarationParameter
  split
  · exact .refl b
  · rename_i id hid
    have hmark : Stays b (if k = .contentOpen then { b with contentStart := some t.start } else b) := by
      split
      · exact ⟨rfl, rfl, rfl⟩
      · exact .refl b
    dsimp only
    split
    · rename_i d hd
      exact hmark.trans (stays_update (by rw [hd]; rfl))
    · exact hmark

theorem stays_doctypeParameter {k : Token.DtdKind} (hk : k ∈ Lexer.doctypeParameters) :
    Stays b (dtdToken s b k t inDtd) := by
  simp only [Lexer.doctypeParameters, List.mem_cons, List.not_mem_nil, or_false] at hk
  rcases hk with rfl | rfl | rfl | rfl | rfl | rfl
  case inr.inr.inr.inr.inr => exact stays_unrecognized b t
  all_goals exact stays_onDoctype _

theorem stays_declarationToken {k : Token.DtdKind} (hk : k ∈ Lexer.declarationParameters) :
    Stays b (dtdToken s b k t inDtd) := by
  simp only [Lexer.declarationParameters, List.mem_cons, List.not_mem_nil, or_false] at hk
  rcases hk with rfl | rfl | rfl | rfl | rfl | rfl | rfl | rfl | rfl | rfl | rfl | rfl | rfl | rfl |
    rfl | rfl | rfl | rfl | rfl | rfl | rfl | rfl
  case inr.inr.inr.inr.inr.inr.inr.inr.inr.inr.inr.inr.inr.inr.inr.inr.inr.inr.inr.inr.inr =>
    exact stays_unrecognized b t
  all_goals exact stays_declarationParameter b _ t

end stays

/-! ## Tags -/

theorem role_withAttribute {k' : Kind} (h : withAttribute id k = some k') :
    k'.role = k.role ∧ (k.role = .element ∨ k.role = .prolog ∨ k.role = .instruction) := by
  cases k with
  | element e =>
    obtain rfl := Option.some.inj h
    exact ⟨rfl, .inl rfl⟩
  | instruction p =>
    simp only [withAttribute] at h
    split at h
    · obtain rfl := Option.some.inj h
      refine ⟨rfl, .inr ?_⟩
      cases hclosed : p.closed <;> simp_all [Kind.role]
    · cases h
  | _ => cases h

theorem places_attributeName {t : Token}
    (hk : withAttribute b.nodes.size (b.kindOf b.current) = some k) :
    places (attributeName s b t).nodes = placesWith b.nodes .attribute b.current := by
  rw [attributeName_eq hk]
  refine places_grow (fun n hn => ?_) (fun _ => rfl) rfl
  rw [kindOf_eq hn] at hk
  exact (role_withAttribute hk).1

theorem Placed.attributeName {t : Token} (h : Placed x b) (hx : x.mode.isEnclosed = false)
    (hfile : y.dtdFile = x.dtdFile) (hin : y.inDoctype = x.inDoctype) (hprolog : y.inProlog = x.inProlog)
    (hy : y.mode.isEnclosed = false) (hi : y.mode.isInstruction = false) :
    Placed y (Builder.attributeName s b t) := by
  have hfresh : y.mode ≠ .afterInstructionOpen := by
    intro hm
    rw [hm] at hi
    cases hi
  cases hk : withAttribute b.nodes.size (b.kindOf b.current) with
  | none =>
    have hb : Builder.attributeName s b t = b := by simp [Builder.attributeName, hk]
    rw [hb]
    exact h.keep (.refl b) hfile hin (hy.trans hx.symm) (by simp [hi]) hfresh hprolog
  | some kind =>
    have hnew := places_attributeName (s := s) (t := t) hk
    have hcurrent : (Builder.attributeName s b t).current = b.current := by rw [attributeName_eq hk]
    obtain ⟨role, around, hplace, hseats⟩ := (h.seated_current hx).role
    have hholds : role.holds x.dtdFile .attribute = true := by
      have howner := (role_withAttribute hk).2
      rw [role_of_places hplace] at howner
      rcases howner with rfl | rfl | rfl <;> rfl
    refine ⟨⟨b.current, ?_, ?_⟩, by simp [hi], fun hm => absurd hm hfresh, fun hp => ?_⟩
    · rw [hy, hcurrent, if_neg (by simp)]
    · rw [hfile, hin]
      refine ⟨h.tidy.add hplace hholds hnew,
        ⟨role, around, by rw [hnew]; exact placesWith_of_some hplace, hseats⟩, ?_⟩
      rw [doctype_attributeName]
      exact (h.seated_current hx).doctype
    · obtain ⟨⟨around', hplace'⟩, hparts⟩ := h.prolog (hprolog ▸ hp)
      rw [hnew, hcurrent]
      refine ⟨⟨around', placesWith_of_some hplace'⟩, fun c role hc => ?_⟩
      unfold placesWith at hc
      split at hc
      · simp_all
      · exact hparts c role hc

theorem Seated.closeAt {inner : List Nat} {start : Nat} {t : Token} {e : Element}
    (h : Seated false false b b.current) (hkind : b.kindOf id = .element e) :
    Seated false false (b.closeAt inner id start t) (b.closeAt inner id start t).current := by
  have hkind' := (kindOf_reach b inner start id).trans hkind
  have hplaces {k : Kind} {stop : Nat} (hk : k.role = .element) :
      places ({ b with nodes := reach b.nodes inner start }.update id k stop).nodes = places b.nodes := by
    refine (places_update ?_).trans (places_reach ..)
    rw [hkind', hk]
    rfl
  obtain ⟨around, hplace⟩ := exists_place hkind (by simp)
  unfold Builder.closeAt
  rw [foldl_extend]
  dsimp only
  rw [hkind']
  exact ⟨h.tidy.of_places (hplaces rfl), ⟨.element, around, by rw [hplaces rfl]; exact hplace, rfl⟩,
    by rintro _ ⟨⟩⟩

theorem Seated.endTag {start : Nat} {t : Token} (h : Seated false false b b.current)
    (hopen : b.endTagOpen = some start) :
    Seated false false (endTag s b t) (endTag s b t).current := by
  have h' : Seated false false { b with endTagOpen := none } b.current := h.of_places rfl rfl
  rw [endTag_eq hopen]
  dsimp only
  split
  · rename_i id hid
    have hfound := List.find?_some hid
    unfold isOpenAs at hfound
    split at hfound
    · rename_i e he
      exact Seated.closeAt h' he
    · cases hfound
  · have hnew := h'.append (k := .element (strayElement (Text.slice s t.start t.stop) start t)) rfl
      ⟨start, t.stop⟩
    exact ⟨hnew.tidy, ⟨_, _, places_openNode .., rfl⟩, by rintro _ ⟨⟩⟩

theorem Seated.finishElement {e : Element} (h : Seated file inDoctype b b.current)
    (hkind : b.kindOf b.current = .element e) (hk : k.role = .element) :
    Seated file inDoctype (b.update b.current k stop).leave (b.update b.current k stop).leave.current := by
  have hplaces : places (b.update b.current k stop).nodes = places b.nodes :=
    places_update (by rw [hkind, hk]; rfl)
  obtain ⟨around, hplace⟩ := exists_place hkind (by simp)
  have h' : Seated file inDoctype (b.update b.current k stop) b.current := h.of_places hplaces rfl
  exact h'.leaveElement (hplaces ▸ hplace)

theorem Seated.startTagSelfClose {i j : Nat} {inDtd : Bool} (h : Seated false false b b.current) :
    Seated false false (step s b ⟨.startTagSelfClose, i, j, fault⟩ inDtd)
      (step s b ⟨.startTagSelfClose, i, j, fault⟩ inDtd).current := by
  cases hkind : b.kindOf b.current with
  | element e =>
    rw [step_startTagSelfClose hkind]
    have hforget : Seated false false { b with openAttribute := none } b.current := h.of_places rfl rfl
    exact hforget.finishElement hkind rfl
  | _ =>
    simp only [step, tagToken, hkind]
    exact h.of_places rfl rfl

theorem Seated.doctypeClose {t : Token} {inDtd : Bool} (h : Seated false true b b.current)
    (hdecl : b.declaration = none) :
    Seated false false (dtdToken s b .doctypeClose t inDtd)
      (dtdToken s b .doctypeClose t inDtd).current := by
  obtain ⟨role, around, hplace, hseats⟩ := h.role
  obtain rfl := Role.eq_doctype_of_seats hseats
  have hstays := stays_onDoctype (b := b) (t := t) fun d => { d with closed := true }
  simp only [dtdToken, leaveDeclaration_eq hdecl, h.doctype rfl rfl]
  rw [← hstays.places] at hplace
  have haround := Seated.around (h.tidy.of_places hstays.places) hplace (.inr ⟨rfl, .inr rfl⟩)
  exact ⟨haround.tidy, haround.role, by rintro _ ⟨⟩⟩

/-! ## The XML declaration -/

theorem tidy_turn {p : Nat} {inner outer : Role} {q : Option Nat} (h : Tidy file b.nodes)
    (ha : Arena b.nodes) (hplace : places b.nodes id = some (inner, some p))
    (hp : places b.nodes p = some (outer, q)) (hseats : outer.seats file false = true)
    (hk : k.role = .prolog ∨ k.role = .instruction)
    (hparts : ∀ d role, places b.nodes d = some (role, some id) → role = .attribute) :
    Tidy file (b.update id k stop).nodes := by
  have hlt := ha.parentAt_lt (parentAt_of_places hplace)
  have hgoes : k.role.goesIn file false = true := by
    rcases hk with hk | hk <;> simp [hk, Role.goesIn]
  refine h.change hp (Nat.ne_of_lt hlt) (Role.holds_of_seats hseats hgoes) (fun d role hd => ?_)
    (places_change hplace k stop)
  rw [hparts d role hd]
  rcases hk with hk | hk <;> rw [hk] <;> rfl

theorem Placed.prologName {i j : Nat} {inDtd : Bool} (h : Placed x b)
    (ha : Arena b.nodes) (hmode : x.mode = .afterInstructionOpen) (hsubset : x.inSubset = false) :
    Placed ({ x with inProlog := true }.moved pos spaced .inProlog)
      (step s b ⟨.prologName, i, j, fault⟩ inDtd) := by
  obtain ⟨p, hkind, hclosed⟩ := h.fresh hmode
  obtain ⟨around, hplace⟩ := h.instruction (by rw [hmode]; rfl)
  obtain ⟨p', outer, q, rfl, hp, -⟩ := (h.tidy hplace).resolve_left (by rintro ⟨⟨⟩, -⟩)
  -- the instruction stands outside of document types, and has no parts but attributes
  have hin : x.inDoctype = false := by simp [Lexer.inDoctype, hmode, hsubset]
  have hseats : outer.seats x.dtdFile false = true := by
    obtain ⟨role, around, hplace', hseats⟩ :=
      (h.seated_around (by rw [hmode]; rfl) (parentAt_of_places hplace)).role
    rw [hp, Option.some.injEq, Prod.mk.injEq] at hplace'
    rwa [hplace'.1, ← hin]
  have hparts (d : Nat) (role : Role) (hd : places b.nodes d = some (role, some b.current)) :
      role = .attribute := by
    obtain ⟨c, owner, around, hc, howner, hholds⟩ := (h.tidy hd).resolve_left (by rintro ⟨-, ⟨⟩⟩)
    obtain rfl := Option.some.inj hc
    rw [hplace, Option.some.injEq, Prod.mk.injEq] at howner
    obtain ⟨rfl, -⟩ := howner
    exact Role.eq_attribute_of_holds hholds (by decide)
  rw [step_prologName hkind]
  generalize hk : Kind.instruction _ = k
  have hrole : k.role = .prolog := by simp [← hk, Kind.role, hclosed]
  have hnew := places_change hplace k j
  have hself : places (b.update b.current k j).nodes b.current = some (.prolog, some p') := by
    simp [hnew, hrole]
  refine ⟨⟨b.current, rfl, tidy_turn h.tidy ha hplace hp hseats (.inl hrole) hparts, ⟨_, _, hself, ?_⟩, ?_⟩,
    (by rintro ⟨⟩), (by rintro ⟨⟩), fun _ => ⟨⟨_, hself⟩, fun d role hd => ?_⟩⟩
  · simp [Role.seats, Lexer.inDoctype, hsubset]
  · simp [Lexer.inDoctype, hsubset]
  · rw [hnew] at hd
    dsimp only at hd
    split at hd
    · have hlt := ha.parentAt_lt (parentAt_of_places hplace)
      rw [Option.some.injEq, Prod.mk.injEq, Option.some.injEq] at hd
      exact absurd hd.2 (Nat.ne_of_lt hlt)
    · exact hparts d role hd

theorem Placed.prologClose {i j : Nat} {inDtd : Bool} (h : Placed x b) (ha : Arena b.nodes)
    (hprolog : x.inProlog = true) (hsubset : x.inSubset = false) :
    Placed ({ x with inProlog := false }.moved pos spaced x.contentMode)
      (step s b ⟨.prologClose, i, j, fault⟩ inDtd) := by
  obtain ⟨⟨around, hplace⟩, hparts⟩ := h.prolog hprolog
  obtain ⟨p', outer, q, rfl, hp, hholds⟩ := (h.tidy hplace).resolve_left (by rintro ⟨⟨⟩, -⟩)
  have hseats := Role.seats_of_holds hholds (.inl rfl)
  have hlt := ha.parentAt_lt (parentAt_of_places hplace)
  obtain ⟨p, hkind⟩ : ∃ p, b.kindOf b.current = .instruction p := by
    have hrole := role_of_places hplace
    cases hkind : b.kindOf b.current <;> simp_all [Kind.role]
  rw [step_close_of_instruction hkind (.inr rfl)]
  generalize hk : Kind.instruction _ = k
  have hrole : k.role = .instruction := by simp [← hk, Kind.role]
  have hnew := places_change hplace k j
  have hself : places (b.update b.current k j).nodes b.current = some (.instruction, some p') := by
    simp [hnew, hrole]
  have hcurrent : ({ b with openAttribute := none }.update b.current k j).leave.current = p' :=
    parentOf_eq (parentAt_of_places hself)
  have hseated : Seated x.dtdFile false ({ b with openAttribute := none }.update b.current k j).leave p' :=
    ⟨tidy_turn h.tidy ha hplace hp hseats (.inr hrole) hparts,
      ⟨outer, q, (congrFun hnew p').trans (by rw [if_neg (Nat.ne_of_lt hlt), hp]), hseats⟩, by rintro _ ⟨⟩⟩
  refine placed_of_seated ?_ rfl (inDoctype_contentMode.trans hsubset) (isEnclosed_contentMode x) rfl
  rw [hcurrent]
  exact hseated

end Builder

end XmlAssist
