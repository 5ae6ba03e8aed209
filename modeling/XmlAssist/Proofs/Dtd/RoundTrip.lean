import XmlAssist.Diagnostics.Syntax
import XmlAssist.Proofs.Dtd.Reading
import XmlAssist.Proofs.Written.Shows

/-!
# Reading written declarations back

A file of declarations and a document type with them between its brackets are read as a document
type whose children are exactly the declarations that are written. In a file of declarations the
document type stands for the whole file; in a document it is the one that is written.
-/

namespace XmlAssist

open Node
open Written (Dtd Name Decl Opened adopt nodeOf)
open Text (Stands rest size)

/-- The child `id` of the document is the document type `t`, in which nothing fits nowhere, and its
children are the written declarations in their order. -/
structure Document.ShowsDtd (d : Document) (id : Nat) (t : Doctype) (w : Dtd) : Prop where
  children : d.children 0 = [id]
  kind : (d.node id).kind = .doctype t
  unrecognized : t.unrecognized = none
  declarations : List.Forall₂ (fun c => (d.node c).ShowsDecl d.text id) (d.children id) w.declarations

namespace Written

variable {s : String} {i : Nat} {A : Array Node} {o : Option Nat} {d : Doctype}

/-- The node of a document whose only child is the next node. -/
def parentNode (s : String) : Node := { span := ⟨0, size s⟩, children := #[1] }

/-- The nodes of a text that is a document type `x` with the declarations `ns`. -/
def dtdNodes (s : String) (x : Node) (ns : List Node) : Array Node :=
  #[parentNode s] ++
    #[{ x with parent := some 0, children := (List.range' 2 ns.length).toArray }] ++ ns.toArray

section nodes
variable (s) (x : Node) (ns : List Node)

theorem getElem?_document : (dtdNodes s x ns)[0]? = some (parentNode s) := by
  rw [dtdNodes, Array.append_assoc]
  exact getElem?_mid #[] _ _

theorem getElem?_doctype : (dtdNodes s x ns)[1]? =
    some { x with parent := some 0, children := (List.range' 2 ns.length).toArray } :=
  getElem?_mid #[parentNode s] _ _

theorem getElem?_declaration (c : Nat) (hc : c < ns.length) :
    (dtdNodes s x ns)[2 + c]? = some ns[c] := by
  rw [dtdNodes, Array.getElem?_append_right (by simp)]
  simp [hc]

theorem chain_document : chain (dtdNodes s x ns) 0 = [0] := by
  apply chain_of_parentAt_eq_none
  rw [parentAt, getElem?_document]
  rfl

theorem chain_doctype : chain (dtdNodes s x ns) 1 = [1, 0] := by
  have hparent : parentAt (dtdNodes s x ns) 1 = some 0 := by
    rw [parentAt, getElem?_doctype]
    rfl
  rw [chain_of_parentAt hparent (by decide), chain_document]

theorem adopt_declarations (hparent : x.parent = some 0) (hchildren : x.children = #[]) :
    let N : Array Node := #[parentNode s] ++ #[x]
    adopt N 1 (List.range' N.size ns.length).toArray ns.toArray = dtdNodes s x ns := by
  intro N
  have hmodify := modify_last #[parentNode s] x fun n =>
    { n with children := n.children ++ (List.range' 2 ns.length).toArray }
  rw [hchildren, Array.empty_append] at hmodify
  obtain ⟨span, parent, children, kind⟩ := x
  obtain rfl : parent = some 0 := hparent
  exact congrArg (· ++ ns.toArray) hmodify

end nodes

theorem showsDtd_of_nodes {D : Document} {x : Node} {w : Dtd} {ns : List Node}
    (hnodes : D.nodes = dtdNodes D.text x ns) (hx : x.kind = .doctype d) (hd : d.unrecognized = none)
    (hns : List.Forall₂ (Node.ShowsDecl D.text 1) ns w.declarations) : D.ShowsDtd 1 d w := by
  have hnode {c : Nat} {n : Node} (h : (dtdNodes D.text x ns)[c]? = some n) : D.node c = n := by
    rw [Document.node, hnodes, Array.getD_eq_getD_getElem?, h]
    rfl
  have hdocument := hnode (getElem?_document D.text x ns)
  have hdoctype := hnode (getElem?_doctype D.text x ns)
  refine ⟨by rw [Document.children, hdocument]; rfl, by rw [hdoctype, hx], hd, ?_⟩
  rw [Document.children, hdoctype]
  have hids : (List.range' 2 ns.length).map D.node = ns := by
    apply List.ext_getElem (by simp)
    intro c hc hc'
    rw [List.getElem_map, List.getElem_range', Nat.one_mul]
    exact hnode (getElem?_declaration D.text x ns c hc')
  rw [← hids, List.forall₂_map_left_iff] at hns
  exact hns

/-! ## Files of declarations -/

theorem build_file (w : Dtd) : ∃ ns : List Node,
    List.Forall₂ (Node.ShowsDecl w.print 1) ns w.declarations ∧
      Builder.build w.print true =
        dtdNodes w.print { span := ⟨0, size w.print⟩, kind := .doctype { synthetic := true } } ns ∧
      ∀ t ∈ Lexer.declarations.tokens w.print, t.1.fault = none := by
  let x : Node := { span := ⟨0, size w.print⟩, parent := some 0, kind := .doctype { synthetic := true } }
  let N : Array Node := #[parentNode w.print] ++ #[x]
  have hp : Opened N 1 := ⟨x, rfl, rfl⟩
  have hend : Lexer.Stops Lexer.isSpace (rest w.print (0 + size w.print)) := by
    rw [Nat.zero_add, Text.rest_eq_nil (Nat.le_refl _)]
    rintro b ⟨⟩
  obtain ⟨ns, hns, hadds⟩ := adds_dtd false w hp (Text.stands_self w.print) hend
  obtain ⟨start, hpass⟩ := hadds none
  rw [adopt_declarations w.print x ns rfl rfl] at hpass
  refine ⟨ns, hns, ?_⟩
  -- the text ends between declarations, where the document type and the document are still open
  apply Builder.build_of_passes (c := .between (dtdNodes w.print x ns) 1 start) hpass
  · exact Nat.le_add_left ..
  · rfl
  · intro id hid n hn
    have hopen : id ∈ [1, 0] := chain_doctype w.print x ns ▸ hid
    rcases List.mem_cons.mp hopen with rfl | hdocument
    · obtain rfl := Option.some.inj ((getElem?_doctype w.print x ns).symm.trans hn)
      exact Nat.le_refl _
    · obtain rfl := List.mem_singleton.mp hdocument
      obtain rfl := Option.some.inj ((getElem?_document w.print x ns).symm.trans hn)
      exact Nat.le_refl _

/-! ## Document types with declarations -/

theorem onDoctype_between {B : Array Node} {x : Node} {t : Token} (hx : x.kind = .doctype d)
    (f : Doctype → Doctype) :
    (Builder.between (A ++ #[x] ++ B) A.size o).onDoctype t f = .between
      (A ++ #[{ x with kind := .doctype (f d), span := x.span.extendTo t.stop }] ++ B) A.size o := by
  have hkind : (Builder.between (A ++ #[x] ++ B) A.size o).kindOf A.size = .doctype d :=
    (Builder.kindOf_eq (getElem?_mid A B x)).trans hx
  have hopen : (Builder.between (A ++ #[x] ++ B) A.size o).doctype = some A.size := rfl
  simp only [Builder.onDoctype, hopen, hkind, Builder.update, Builder.modify]
  simp only [Builder.between, modify_mid]

theorem passes_doctype {kind : Token.DtdKind} {y z : Lexer} {B : Array Node} {x : Node}
    (hlex : y.lex s = ⟨.dtd kind, z, none⟩) (hlt : y.pos < z.pos) (hx : x.kind = .doctype d)
    (f : Doctype → Doctype)
    (hstep : Builder.step s (.between (A ++ #[x] ++ B) A.size o) ⟨.dtd kind, y.pos, z.pos, none⟩ z.inDtd =
      (Builder.between (A ++ #[x] ++ B) A.size o).onDoctype ⟨.dtd kind, y.pos, z.pos, none⟩ f) :
    Passes s y (.between (A ++ #[x] ++ B) A.size o) z (.between
      (A ++ #[{ x with kind := .doctype (f d), span := x.span.extendTo z.pos }] ++ B) A.size o) := by
  refine .of_lex hlex (by simp) hlt (hstep.trans ?_)
  rw [onDoctype_between hx]

theorem passes_doctypeOpen (h : Stands s 0 "<!DOCTYPE") :
    Passes s .document (Builder.start s false) (Lexer.cursor (.doctype .start) (0 + size "<!DOCTYPE") false)
      (.between (#[parentNode s] ++
        #[nodeOf 0 0 (0 + size "<!DOCTYPE") (.doctype {})] ++ #[]) 1 none) := by
  have hp : Opened #[{ span := ⟨0, size s⟩ }] 0 := ⟨_, rfl, rfl⟩
  refine .of_lex (Lexer.lex_doctypeOpen h) (by simp) (by decide) ?_
  show Builder.step s { nodes := #[{ span := ⟨0, size s⟩ }], current := 0 } _ _ = _
  rw [Builder.step_doctypeOpen, Lexer.inDtd_cursor, Builder.beforeMarkup_of_open hp.kindOf,
    Builder.openNode_eq]
  rfl

theorem passes_head {p : String} {B : Array Node} {x : Node} (root : Name) (hx : x.kind = .doctype {})
    (h : Stands s i (" " ++ (root.text ++ (" " ++ ("[" ++ p))))) :
    ∃ (y : Node) (d : Doctype), y.kind = .doctype d ∧ y.parent = x.parent ∧ y.children = x.children ∧
      d.name.map (·.text) = some root.text ∧ d.synthetic = false ∧ d.unrecognized = none ∧
      Passes s (Lexer.cursor (.doctype .start) i false) (.between (A ++ #[x] ++ B) A.size o)
        (Lexer.between true (i + size " " + size root.text + size " " + size "["))
        (.between (A ++ #[y] ++ B) A.size o) := by
  let nameAt := i + size " "
  let nameEnd := nameAt + size root.text
  let subsetAt := nameEnd + size " "
  let name : Parameter := ⟨⟨nameAt, nameEnd⟩, Text.slice s nameAt nameEnd⟩
  let d : Doctype := { name := some name, parameters := [name] }
  let x₁ : Node := { x with kind := .doctype d, span := x.span.extendTo nameEnd }
  let x₂ : Node := { x₁ with
    kind := .doctype { d with subsetStart := some subsetAt }
    span := x₁.span.extendTo (subsetAt + size "[") }
  have hname : Stands s nameAt (root.text ++ (" " ++ ("[" ++ p))) := h.right
  have hsubset : Stands s subsetAt ("[" ++ p) := hname.right.right
  have hblank : Lexer.Stops Lexer.isSpace (rest s subsetAt) := by
    rw [Lexer.rest_of_stands hsubset.left]
    rintro b ⟨⟩
    rfl
  have h₁ : Passes s (Lexer.cursor (.doctype .start) i false) (.between (A ++ #[x] ++ B) A.size o)
      (Lexer.cursor (.doctype .start) nameAt false) (.between (A ++ #[x] ++ B) A.size o) :=
    .of_blank (Lexer.lex_doctypeSpace h.left (Lexer.AtParameter.of_name root hname.left).stops)
      (Nat.lt_add_of_pos_right (by decide))
  have h₂ : Passes s (Lexer.cursor (.doctype .start) nameAt false)
      (.between (A ++ #[x] ++ B) A.size o)
      (Lexer.cursor (.doctype .named) nameEnd false) (.between (A ++ #[x₁] ++ B) A.size o) :=
    passes_doctype (Lexer.lex_doctypeName root hname.left (.of_gap { text := " " } hname.right.left))
      (Nat.lt_add_of_pos_right (Text.size_pos (Lexer.ne_empty_of_isName root.valid))) hx
      (Builder.addDoctypeParameter .doctypeName name) rfl
  have h₃ : Passes s (Lexer.cursor (.doctype .named) nameEnd false)
      (.between (A ++ #[x₁] ++ B) A.size o)
      (Lexer.cursor (.doctype .named) subsetAt false) (.between (A ++ #[x₁] ++ B) A.size o) :=
    .of_blank (Lexer.lex_doctypeSpace hname.right.left hblank) (Nat.lt_add_of_pos_right (by decide))
  have h₄ : Passes s (Lexer.cursor (.doctype .named) subsetAt false)
      (.between (A ++ #[x₁] ++ B) A.size o)
      (Lexer.between true (subsetAt + size "[")) (.between (A ++ #[x₂] ++ B) A.size o) :=
    passes_doctype (Lexer.lex_subsetOpen hsubset.left) (Nat.lt_add_of_pos_right (by decide)) rfl
      (fun d => { d with subsetStart := some subsetAt }) rfl
  exact ⟨x₂, { d with subsetStart := some subsetAt }, rfl, rfl, rfl, congrArg some hname.left.slice, rfl,
    rfl, h₁.trans (h₂.trans (h₃.trans h₄))⟩

theorem passes_tail {B : Array Node} {x : Node} (h : Stands s i ("]" ++ ">")) (hx : x.kind = .doctype d)
    (hparent : x.parent = some 0) :
    ∃ (y : Node) (stop : Nat), y.parent = x.parent ∧ y.children = x.children ∧
      y.kind = .doctype { d with subsetStop := some stop, closed := true } ∧
      Passes s (Lexer.between true i) (.between (A ++ #[x] ++ B) A.size o)
        (Lexer.cursor .content (i + size "]" + size ">") false)
        { nodes := A ++ #[y] ++ B, current := 0, contentStart := o } := by
  let y₁ : Node := { x with
    kind := .doctype { d with subsetStop := some (i + size "]") }
    span := x.span.extendTo (i + size "]") }
  let y₂ : Node := { y₁ with
    kind := .doctype { d with subsetStop := some (i + size "]"), closed := true }
    span := y₁.span.extendTo (i + size "]" + size ">") }
  have h₁ : Passes s (Lexer.between true i) (.between (A ++ #[x] ++ B) A.size o)
      (Lexer.cursor (.doctype .subset) (i + size "]") false) (.between (A ++ #[y₁] ++ B) A.size o) :=
    passes_doctype (Lexer.lex_subsetClose h.left) (Nat.lt_add_of_pos_right (by decide)) hx _ rfl
  refine ⟨y₂, i + size "]", rfl, rfl, rfl, h₁.trans ?_⟩
  refine .of_lex (Lexer.lex_doctypeClose h.right) (by simp) (Nat.lt_add_of_pos_right (by decide)) ?_
  have hopen : (Builder.between (A ++ #[y₁] ++ B) A.size o).leaveDeclaration =
      .between (A ++ #[y₁] ++ B) A.size o := rfl
  have hdoctype : (Builder.between (A ++ #[y₁] ++ B) A.size o).doctype = some A.size := rfl
  have hparentOf : (Builder.between (A ++ #[y₂] ++ B) A.size o).parentOf A.size = 0 := by
    rw [Builder.parentOf, Builder.between, getElem?_mid, Option.bind_some,
      show y₂.parent = some 0 from hparent]
    rfl
  simp only [Builder.step, Builder.dtdToken, hopen, hdoctype]
  rw [onDoctype_between (x := y₁) rfl]
  show ({ Builder.between (A ++ #[y₂] ++ B) A.size o with
    doctype := none, current := (Builder.between (A ++ #[y₂] ++ B) A.size o).parentOf A.size } : Builder) = _
  rw [hparentOf]
  rfl

theorem build_document (w : Dtd) (root : Name) : ∃ (ns : List Node) (x : Node) (d : Doctype),
    x.kind = .doctype d ∧ d.synthetic = false ∧ d.name.map (·.text) = some root.text ∧ d.closed = true ∧
      d.unrecognized = none ∧ List.Forall₂ (Node.ShowsDecl (w.printIn root) 1) ns w.declarations ∧
      Builder.build (w.printIn root) false = dtdNodes (w.printIn root) x ns ∧
      ∀ t ∈ Lexer.document.tokens (w.printIn root), t.1.fault = none := by
  obtain ⟨s, hs⟩ : ∃ s, s = w.printIn root := ⟨_, rfl⟩
  have h : Stands s 0 (w.printIn root) := hs ▸ Text.stands_self s
  rw [← hs]
  let opened : Node := nodeOf 0 0 (0 + size "<!DOCTYPE") (.doctype {})
  obtain ⟨x, d, hkind, hparent, hchildren, hname, hsynthetic, hunrecognized, hhead⟩ :=
    passes_head (A := #[parentNode s]) (B := #[]) (x := opened) (o := none) root rfl h.right
  have hdtd := h.right.right.right.right.right
  have htail := hdtd.right
  have hp : Opened (#[parentNode s] ++ #[x]) 1 := ⟨x, rfl, by rw [hkind]; rfl⟩
  have hlast : Lexer.Stops Lexer.isSpace (rest s (0 + size "<!DOCTYPE" + size " " + size root.text +
      size " " + size "[" + size w.print)) := by
    rw [Lexer.rest_of_stands htail.left]
    rintro b ⟨⟩
    rfl
  obtain ⟨ns, hns, hadds⟩ := adds_dtd true w hp hdtd.left hlast
  obtain ⟨start, hread⟩ := hadds none
  rw [adopt_declarations s x ns hparent hchildren] at hread
  rw [Array.append_empty] at hhead
  obtain ⟨y, stop, hyparent, hychildren, hykind, hclose⟩ := passes_tail (o := start)
    (A := #[parentNode s])
    (x := { x with parent := some 0, children := (List.range' 2 ns.length).toArray }) (B := ns.toArray)
    htail hkind rfl
  have hnodes : #[parentNode s] ++ #[y] ++ ns.toArray = dtdNodes s y ns := by
    obtain ⟨span, parent, children, kind⟩ := y
    obtain rfl : parent = some 0 := hyparent
    obtain rfl : children = (List.range' 2 ns.length).toArray := hychildren
    rfl
  rw [hnodes] at hclose
  have hsize : size s = 0 + size "<!DOCTYPE" + size " " + size root.text + size " " + size "[" +
      size w.print + size "]" + size ">" := by
    rw [hs, Dtd.printIn]
    simp only [Text.size_append]
    omega
  have hpass := (passes_doctypeOpen h.left).trans (hhead.trans (hread.trans hclose))
  have hbuild : Builder.build s false = dtdNodes s y ns ∧
      ∀ t ∈ Lexer.document.tokens s, t.1.fault = none := by
    apply Builder.build_of_passes (c := { nodes := dtdNodes s y ns, current := 0, contentStart := start })
      hpass
    · exact Nat.le_of_eq hsize
    · rfl
    · intro id hid n hn
      obtain rfl : id = 0 := List.mem_singleton.mp (chain_document s y ns ▸ hid)
      obtain rfl := Option.some.inj ((getElem?_document s y ns).symm.trans hn)
      exact Nat.le_refl _
  exact ⟨ns, y, _, hykind, hsynthetic, hname, rfl, hunrecognized, hns, hbuild⟩

end Written

namespace Document

theorem showsDtd_file (w : Dtd) {file : String} (hfile : isDtdUri file = true) :
    ∃ t, (parse w.print file).ShowsDtd 1 t w ∧ t.synthetic = true ∧
      ∀ x ∈ (parse w.print file).lexer.tokens w.print, x.1.fault = none := by
  obtain ⟨ns, hns, hbuild, hfault⟩ := Written.build_file w
  have hlexer : (parse w.print file).lexer = .declarations := by
    rw [lexer, show (parse w.print file).isDtd = true from hfile, if_pos rfl]
  have hnodes : (parse w.print file).nodes = Builder.build w.print true := by
    rw [parse, hfile]
  exact ⟨_, Written.showsDtd_of_nodes (hnodes.trans hbuild) rfl rfl hns, rfl, hlexer ▸ hfault⟩

theorem showsDtd_document (w : Dtd) (root : Name) {uri : String} (huri : isDtdUri uri = false) :
    ∃ t, (parse (w.printIn root) uri).ShowsDtd 1 t w ∧ t.synthetic = false ∧
      t.name.map (·.text) = some root.text ∧ t.closed = true ∧
      ∀ x ∈ (parse (w.printIn root) uri).lexer.tokens (w.printIn root), x.1.fault = none := by
  obtain ⟨ns, x, t, hx, hsynthetic, hname, hclosed, hunrecognized, hns, hbuild, hfault⟩ :=
    Written.build_document w root
  have hlexer : (parse (w.printIn root) uri).lexer = .document := by
    rw [lexer, show (parse (w.printIn root) uri).isDtd = false from huri, if_neg Bool.false_ne_true]
  have hnodes : (parse (w.printIn root) uri).nodes = Builder.build (w.printIn root) false := by
    rw [parse, huri]
  exact ⟨t, Written.showsDtd_of_nodes (hnodes.trans hbuild) hx hunrecognized hns, hsynthetic, hname,
    hclosed, hlexer ▸ hfault⟩

/-- **Reading declarations back**: the document type of a file of declarations, and the one that is
written around the same declarations in a document, has exactly them as its children, each with what
is written in it; and no token has a fault. -/
theorem parse_dtd (w : Dtd) (root : Name) {file uri : String} (hfile : isDtdUri file = true)
    (huri : isDtdUri uri = false) :
    (∃ t, (parse w.print file).ShowsDtd 1 t w ∧ t.synthetic = true ∧
      ∀ x ∈ (parse w.print file).lexer.tokens w.print, x.1.fault = none) ∧
    ∃ t, (parse (w.printIn root) uri).ShowsDtd 1 t w ∧ t.synthetic = false ∧
      t.name.map (·.text) = some root.text ∧ t.closed = true ∧
      ∀ x ∈ (parse (w.printIn root) uri).lexer.tokens (w.printIn root), x.1.fault = none :=
  ⟨showsDtd_file w hfile, showsDtd_document w root huri⟩

end Document

/-! ## A declaration of each kind -/

namespace Written

def tight : Space := { text := "" }

def newline : Space := { text := "\n" }

def blank : Gap := { text := " " }

def book : Name := { text := "book" }

def bookElement : Decl where
  before := tight
  gap := blank
  body := .element book blank (.model
    (.particle .characters (.particle .choice (.group
      (.particle (.name { text := "title" }) (.particle .sequence (.particle (.space blank.toSpace)
        (.particle (.name { text := "note" }) (.particle (.occurs .optional) .nil)))))
      (.particle (.occurs .atLeastOnce) .nil))))
    (some .many))
  behind := tight

/-- The declaration `<!ATTLIST book kind (novel | essay) #FIXED "novel" cover NOTATION (gif) #IMPLIED >`. -/
def bookAttlist : Decl where
  before := newline
  gap := blank
  body := .attlist book [
    { before := blank, name := { text := "kind" }, beforeType := blank
      type := .enumeration [
        { before := tight, name := { text := "novel" }, behind := blank.toSpace },
        { before := blank.toSpace, name := { text := "essay" }, behind := tight }]
      beforeDefault := blank, default := .fixed blank { quote := .double, text := "novel" } },
    { before := blank, name := { text := "cover" }, beforeType := blank
      type := .notations blank [{ before := tight, name := { text := "gif" }, behind := tight }]
      beforeDefault := blank, default := .implied }]
  behind := blank.toSpace

/-- The declaration `<!ENTITY % common '<!-- "none" -->'>`. -/
def commonEntity : Decl where
  before := newline
  gap := blank
  body := .entity (some blank) { text := "common" } blank
    (.value { quote := .single, text := "<!-- \"none\" -->" })
  behind := tight

def logoEntity : Decl where
  before := newline
  gap := blank
  body := .entity none { text := "logo" } blank
    (.external (.systemId blank { quote := .double, text := "logo.gif" }))
  behind := tight

/-- The declaration `<!NOTATION gif PUBLIC "GIF" 'viewer'>`. -/
def gifNotation : Decl where
  before := newline
  gap := blank
  body := .notationDecl { text := "gif" } blank
    (.publicId blank { quote := .double, text := "GIF" }
      (some (blank, { quote := .single, text := "viewer" })))
  behind := tight

def catalog : Dtd where
  declarations := [bookElement, bookAttlist, commonEntity, logoEntity, gifNotation]
  space := newline

end Written

namespace Document

open Written (catalog book)

theorem parse_catalog :
    isDtdUri "file:///catalog.dtd" = true ∧ isDtdUri "file:///catalog.xml" = false ∧
      (∃ t, (parse catalog.print "file:///catalog.dtd").ShowsDtd 1 t catalog ∧ t.synthetic = true ∧
        ∀ x ∈ (parse catalog.print "file:///catalog.dtd").lexer.tokens catalog.print, x.1.fault = none) ∧
      ∃ t, (parse (catalog.printIn book) "file:///catalog.xml").ShowsDtd 1 t catalog ∧
        t.synthetic = false ∧ t.name.map (·.text) = some "book" ∧ t.closed = true ∧
        ∀ x ∈ (parse (catalog.printIn book) "file:///catalog.xml").lexer.tokens
          (catalog.printIn book), x.1.fault = none := by
  have hfile : isDtdUri "file:///catalog.dtd" = true := by decide +kernel
  have huri : isDtdUri "file:///catalog.xml" = false := by decide +kernel
  exact ⟨hfile, huri, parse_dtd catalog book hfile huri⟩

end Document

end XmlAssist
