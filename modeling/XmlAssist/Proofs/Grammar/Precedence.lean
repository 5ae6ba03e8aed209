import Mathlib.Data.List.Nodup
import XmlAssist.Grammar.DocumentType
import XmlAssist.Library.Own

/-!
# Which declaration counts

A document type is a list of declarations (`declarations`), and the grammar of such a list takes the
first declaration of each element and, for an element, the first of each attribute (`ofDeclarations`).
Declarations in a document come before those in the file that it refers to. The grammar is made of
the two lists one after the other, and the attributes in a list go to the elements declared up to its
end: the elements are those of both lists together, and so are the attributes of an element that the
document declares, but the attributes that the document gives to an element which only the file
declares are lost (`ofDocument_external`).
-/

namespace XmlAssist.Grammar.DocumentType

/-! ## The first of each name -/

section firsts
variable {α : Type} (name : α → String)

/-- Added at the end, unless there is one of the same name. -/
def addNew (known : List α) (a : α) : List α :=
  if known.any (name · == name a) then known else known ++ [a]

/-- The first of each name, in order. -/
def firsts (as : List α) : List α := as.foldl (addNew name) []

variable {name} {known as : List α} {a : α}

theorem firsts_append (as bs : List α) : firsts name (as ++ bs) = bs.foldl (addNew name) (firsts name as) := by
  rw [firsts, List.foldl_append]
  rfl

theorem any_name_addNew (known : List α) (a : α) (n : String) :
    (addNew name known a).any (name · == n) = (known.any (name · == n) || name a == n) := by
  unfold addNew
  split
  · rename_i hknown
    by_cases ha : name a = n
    · subst ha
      simp [hknown]
    · simp [beq_eq_false_iff_ne.mpr ha]
  · simp

theorem any_name_foldl_addNew (known as : List α) (n : String) :
    (as.foldl (addNew name) known).any (name · == n) =
      (known.any (name · == n) || as.any (name · == n)) := by
  induction as generalizing known with
  | nil => simp
  | cons a as ih => rw [List.foldl_cons, ih, any_name_addNew, List.any_cons, Bool.or_assoc]

theorem nodup_addNew (h : (known.map name).Nodup) : ((addNew name known a).map name).Nodup := by
  unfold addNew
  split
  · exact h
  · rename_i hnew
    rw [List.map_append, List.map_singleton, List.nodup_append]
    refine ⟨h, List.nodup_singleton _, ?_⟩
    intro n hn m hm
    obtain ⟨b, hb, rfl⟩ := List.mem_map.mp hn
    obtain rfl := List.mem_singleton.mp hm
    exact fun hname => hnew (List.any_eq_true.mpr ⟨b, hb, beq_iff_eq.mpr hname⟩)

theorem nodup_foldl_addNew (h : (known.map name).Nodup) (as : List α) :
    ((as.foldl (addNew name) known).map name).Nodup := by
  induction as generalizing known with
  | nil => exact h
  | cons a as ih => exact ih (nodup_addNew h)

theorem mem_of_mem_foldl_addNew {b : α} (h : b ∈ as.foldl (addNew name) known) : b ∈ known ∨ b ∈ as := by
  induction as generalizing known with
  | nil => exact .inl h
  | cons a as ih =>
    rcases ih h with hb | hb
    · unfold addNew at hb
      split at hb
      · exact .inl hb
      · rcases List.mem_append.mp hb with hb | hb
        · exact .inl hb
        · exact .inr (List.mem_singleton.mp hb ▸ List.mem_cons_self)
    · exact .inr (List.mem_cons_of_mem _ hb)

/-- What is added depends on the names in the list alone, so the list may be changed first, in what
is added to it as well, if the names are kept and nothing that is new is changed. -/
theorem foldl_addNew_map {f : α → α} (hname : ∀ a, name (f a) = name a)
    (hnew : ∀ a ∈ as, known.any (name · == name a) = true ∨ f a = a) :
    as.foldl (addNew name) (known.map f) = (as.foldl (addNew name) known).map f := by
  induction as generalizing known with
  | nil => rfl
  | cons a as ih =>
    obtain ⟨ha, has⟩ := List.forall_mem_cons.mp hnew
    have hstep : addNew name (known.map f) a = (addNew name known a).map f := by
      have hany : (known.map f).any (name · == name a) = known.any (name · == name a) := by
        simp [List.any_map, Function.comp_def, hname]
      unfold addNew
      rw [hany]
      split
      · rfl
      · rename_i hknown
        rcases ha with ha | ha
        · exact absurd ha hknown
        · rw [List.map_append, List.map_singleton, ha]
    rw [List.foldl_cons, List.foldl_cons, hstep]
    apply ih
    intro b hb
    rcases has b hb with hknown | hb
    · left
      rw [any_name_addNew, hknown, Bool.true_or]
    · exact .inr hb

end firsts

/-! ## Declarations -/

/-- A declaration that says something of a grammar. -/
inductive Declared where
  | element (e : Element)
  | attribute (owner : String) (a : Attribute)
deriving DecidableEq, Repr, Inhabited

/-- The elements that are declared, each without attributes. -/
def elementsOf (ds : List Declared) : List Element :=
  ds.filterMap fun
    | .element e => some e
    | .attribute .. => none

/-- The attributes that are declared, each with the name of its element. -/
def attributesOf (ds : List Declared) : List (String × Attribute) :=
  ds.filterMap fun
    | .element _ => none
    | .attribute owner a => some (owner, a)

def attributesFor (ds : List Declared) (owner : String) : List Attribute :=
  ((attributesOf ds).filter (·.1 == owner)).map (·.2)

def declares (ds : List Declared) (name : String) : Bool := (elementsOf ds).any (·.name == name)

/-- The elements of a list of declarations: the first declaration of an element counts, and so does
the first of an attribute. -/
def ofDeclarations (ds : List Declared) : List Element :=
  (firsts (·.name) (elementsOf ds)).map fun e =>
    { e with attributes := firsts (·.name) (attributesFor ds e.name) }

/-- The declarations that a child adds to none. -/
def Collected.toList (x : Collected) : List Declared :=
  x.elements.map .element ++ x.attributes.map fun (owner, a) => .attribute owner a

/-- The declarations of children of a document type, where `comment` stands before the first. -/
def declarationsFrom (d : Document) (source comment : Option String) : List Nat → List Declared
  | [] => []
  | id :: rest =>
    let x := Collected.step d source { comment } id
    x.toList ++ declarationsFrom d source x.comment rest

def declarations (d : Document) (source : Option String) : List Declared :=
  match d.doctype? with
  | none => []
  | some doctype => declarationsFrom d source none (d.children doctype)

section lists
variable {ds ds' : List Declared}

@[simp] theorem elementsOf_append : elementsOf (ds ++ ds') = elementsOf ds ++ elementsOf ds' :=
  List.filterMap_append

@[simp] theorem attributesOf_append : attributesOf (ds ++ ds') = attributesOf ds ++ attributesOf ds' :=
  List.filterMap_append

@[simp] theorem attributesFor_append (owner : String) :
    attributesFor (ds ++ ds') owner = attributesFor ds owner ++ attributesFor ds' owner := by
  simp [attributesFor]

@[simp] theorem elementsOf_toList (x : Collected) : elementsOf x.toList = x.elements := by
  simp [elementsOf, Collected.toList, List.filterMap_append, List.filterMap_map]

@[simp] theorem attributesOf_toList (x : Collected) : attributesOf x.toList = x.attributes := by
  simp [attributesOf, Collected.toList, List.filterMap_append, List.filterMap_map]

end lists

/-! ## Collecting -/

/-- What is declared, added to what is collected. -/
def Collected.plus (x y : Collected) : Collected where
  elements := y.elements.foldl (addNew (·.name)) x.elements
  attributes := x.attributes ++ y.attributes
  comment := y.comment

/-- Nothing collected yet, behind a comment. -/
abbrev Collected.after (comment : Option String) : Collected := { comment }

section collecting
variable {d : Document} {source : Option String}

theorem plus_after (x : Collected) (comment : Option String) :
    x.plus (.after comment) = { x with comment } := by
  simp [Collected.plus]

theorem addElement_eq (x : Collected) (body : Declaration.ElementBody) (doc : Option String) :
    x.addElement d source body doc = x.plus ((Collected.after x.comment).addElement d source body doc) := by
  unfold Collected.addElement
  cases body.name with
  | none => exact (plus_after x x.comment).symm
  | some name =>
    simp only [Collected.plus, List.any_nil, Bool.false_eq_true, if_false, List.nil_append,
      List.foldl_cons, List.foldl_nil, List.append_nil, addNew]
    split
    · rfl
    · rfl

theorem addAttributes_eq (x : Collected) (body : Declaration.AttlistBody) (doc : Option String) :
    x.addAttributes body doc = x.plus ((Collected.after x.comment).addAttributes body doc) := by
  unfold Collected.addAttributes
  cases body.element with
  | none => exact (plus_after x x.comment).symm
  | some element => simp [Collected.plus]

theorem step_eq (x : Collected) (id : Nat) :
    x.step d source id = x.plus (Collected.step d source (.after x.comment) id) := by
  simp only [Collected.step]
  cases (d.node id).kind with
  | comment c => exact (plus_after ..).symm
  | text =>
    dsimp only
    split
    · exact (plus_after x x.comment).symm
    · exact (plus_after x none).symm
  | declaration declaration =>
    dsimp only
    cases declaration.body with
    | element body => exact addElement_eq ..
    | attlist body => exact addAttributes_eq ..
    | _ => exact (plus_after x none).symm
  | _ => exact (plus_after x none).symm

theorem foldl_step (x : Collected) (ids : List Nat) :
    let ds := declarationsFrom d source x.comment ids
    (ids.foldl (Collected.step d source) x).elements = (elementsOf ds).foldl (addNew (·.name)) x.elements ∧
      (ids.foldl (Collected.step d source) x).attributes = x.attributes ++ attributesOf ds := by
  induction ids generalizing x with
  | nil => simp [declarationsFrom, elementsOf, attributesOf]
  | cons id ids ih =>
    rw [List.foldl_cons, step_eq]
    obtain ⟨helements, hattributes⟩ := ih (x.plus (Collected.step d source (.after x.comment) id))
    simp only [declarationsFrom, elementsOf_append, attributesOf_append, elementsOf_toList,
      attributesOf_toList, List.foldl_append, helements, hattributes]
    exact ⟨rfl, List.append_assoc ..⟩

/-! ## Attributes -/

/-- The element with an attribute, unless it has one of the same name. -/
def withAttribute (e : Element) (a : Attribute) : Element :=
  { e with attributes := addNew (·.name) e.attributes a }

theorem addAttribute_eq {es : List Element} (h : (es.map (·.name)).Nodup) (owner : String) (a : Attribute) :
    addAttribute es owner a = es.map fun e => if e.name = owner then withAttribute e a else e := by
  induction es with
  | nil => rfl
  | cons e es ih =>
    rw [List.map_cons, List.nodup_cons] at h
    rw [addAttribute, List.map_cons]
    by_cases howner : e.name = owner
    · have hothers : es.map (fun e => if e.name = owner then withAttribute e a else e) = es := by
        rw [List.map_congr_left (g := id), List.map_id]
        intro e' he'
        refine if_neg fun hname => h.1 ?_
        rw [howner, ← hname]
        exact List.mem_map_of_mem he'
      rw [hothers, if_pos (beq_iff_eq.mpr howner), if_pos howner]
      simp only [withAttribute, addNew]
      split
      · rfl
      · rfl
    · rw [if_neg (by simpa using howner), if_neg howner, ih h.2]

theorem foldl_addAttribute {es : List Element} (h : (es.map (·.name)).Nodup)
    (as : List (String × Attribute)) :
    as.foldl (fun es (owner, a) => addAttribute es owner a) es = es.map fun e =>
      ((as.filter (·.1 == e.name)).map (·.2)).foldl withAttribute e := by
  induction as generalizing es with
  | nil => simp
  | cons first as ih =>
    obtain ⟨owner, a⟩ := first
    have hnames : ((es.map fun e => if e.name = owner then withAttribute e a else e).map (·.name)) =
        es.map (·.name) := by
      rw [List.map_map]
      apply List.map_congr_left
      intro e _
      by_cases howner : e.name = owner
      · simp [howner, withAttribute]
      · simp [howner]
    rw [List.foldl_cons]
    dsimp only
    rw [addAttribute_eq h, ih (by rwa [hnames]), List.map_map]
    apply List.map_congr_left
    intro e _
    by_cases howner : e.name = owner
    · simp [howner, withAttribute]
    · simp [howner, Ne.symm howner]

theorem foldl_withAttribute (e : Element) (as : List Attribute) :
    as.foldl withAttribute e = { e with attributes := as.foldl (addNew (·.name)) e.attributes } := by
  induction as generalizing e with
  | nil => rfl
  | cons a as ih => rw [List.foldl_cons, ih, List.foldl_cons, withAttribute]

theorem collect_eq {es : List Element} (h : (es.map (·.name)).Nodup) (d : Document) (source : Option String) :
    collect es d source = ((elementsOf (declarations d source)).foldl (addNew (·.name)) es).map fun e =>
      { e with attributes :=
          (attributesFor (declarations d source) e.name).foldl (addNew (·.name)) e.attributes } := by
  unfold collect declarations
  cases d.doctype? with
  | none => simp [elementsOf, attributesFor, attributesOf]
  | some doctype =>
    obtain ⟨helements, hattributes⟩ :=
      @foldl_step d source { elements := es } (d.children doctype)
    dsimp only at helements hattributes ⊢
    rw [helements, hattributes, List.nil_append, foldl_addAttribute (nodup_foldl_addNew h _)]
    apply List.map_congr_left
    intro e _
    rw [foldl_withAttribute]
    rfl

theorem attributes_addElement {x : Collected} (hx : ∀ e ∈ x.elements, e.attributes = [])
    (body : Declaration.ElementBody) (doc : Option String) :
    ∀ e ∈ (x.addElement d source body doc).elements, e.attributes = [] := by
  unfold Collected.addElement
  cases body.name with
  | none => exact hx
  | some name =>
    intro e he
    dsimp only at he
    split at he
    · exact hx e he
    · rcases List.mem_append.mp he with he | he
      · exact hx e he
      · rw [List.mem_singleton.mp he]

theorem elements_addAttributes (x : Collected) (body : Declaration.AttlistBody) (doc : Option String) :
    (x.addAttributes body doc).elements = x.elements := by
  unfold Collected.addAttributes
  cases body.element with
  | none => rfl
  | some element => rfl

theorem attributes_step {x : Collected} (hx : ∀ e ∈ x.elements, e.attributes = []) (id : Nat) :
    ∀ e ∈ (x.step d source id).elements, e.attributes = [] := by
  simp only [Collected.step]
  cases (d.node id).kind with
  | text =>
    dsimp only
    split
    · exact hx
    · exact hx
  | declaration declaration =>
    dsimp only
    cases declaration.body with
    | element body => exact attributes_addElement (by exact hx) body _
    | attlist body =>
      rw [elements_addAttributes]
      exact hx
    | _ => exact hx
  | _ => exact hx

theorem attributes_declarationsFrom (comment : Option String) (ids : List Nat) :
    ∀ e ∈ elementsOf (declarationsFrom d source comment ids), e.attributes = [] := by
  induction ids generalizing comment with
  | nil => simp [declarationsFrom, elementsOf]
  | cons id ids ih =>
    intro e he
    simp only [declarationsFrom, elementsOf_append, elementsOf_toList] at he
    rcases List.mem_append.mp he with he | he
    · exact attributes_step (by simp) id e he
    · exact ih _ e he

theorem attributes_declarations (d : Document) (source : Option String) :
    ∀ e ∈ elementsOf (declarations d source), e.attributes = [] := by
  unfold declarations
  cases d.doctype? with
  | none => simp [elementsOf]
  | some doctype => exact attributes_declarationsFrom none _

theorem collect_nil (d : Document) (source : Option String) :
    collect [] d source = ofDeclarations (declarations d source) := by
  rw [collect_eq (by simp), ofDeclarations, firsts]
  apply List.map_congr_left
  intro e he
  rcases mem_of_mem_foldl_addNew he with he | he
  · cases he
  · rw [attributes_declarations d source e he]
    rfl

end collecting

/-! ## Two lists -/

section both
variable {own external : List Declared}

theorem any_name_firsts (ds : List Declared) (n : String) :
    (firsts (·.name) (elementsOf ds)).any (·.name == n) = declares ds n := by
  rw [firsts, any_name_foldl_addNew]
  rfl

theorem declares_append (n : String) :
    declares (own ++ external) n = (declares own n || declares external n) := by
  simp [declares]

theorem declares_of_mem {ds : List Declared} {e : Element} (h : e ∈ firsts (·.name) (elementsOf ds)) :
    declares ds e.name = true := by
  rw [← any_name_firsts]
  exact List.any_eq_true.mpr ⟨e, h, by simp⟩

/-- The element as it is with the declarations of a document and those of its file: one that only
the file declares has the attributes in the file alone. -/
def combined (own external : List Declared) (e : Element) : Element :=
  let ds := if declares own e.name then own ++ external else external
  { e with attributes := firsts (·.name) (attributesFor ds e.name) }

theorem collect_ofDeclarations (own : List Declared) (dtd : Document) (source : Option String) :
    collect (ofDeclarations own) dtd source =
      (firsts (·.name) (elementsOf (own ++ declarations dtd source))).map
        (combined own (declarations dtd source)) := by
  let bound (e : Element) : Element :=
    if declares own e.name then { e with attributes := firsts (·.name) (attributesFor own e.name) } else e
  have hown : ofDeclarations own = (firsts (·.name) (elementsOf own)).map bound := by
    apply List.map_congr_left
    intro e he
    exact (if_pos (declares_of_mem he)).symm
  have hname : ∀ e, (bound e).name = e.name := by
    intro e
    by_cases hdeclared : declares own e.name = true
    · simp [bound, hdeclared]
    · simp [bound, hdeclared]
  have hnodup : ((ofDeclarations own).map (·.name)).Nodup := by
    rw [ofDeclarations, List.map_map]
    exact nodup_foldl_addNew (by simp) _
  rw [collect_eq hnodup, hown, foldl_addNew_map hname, List.map_map, elementsOf_append, firsts_append]
  · apply List.map_congr_left
    intro e he
    by_cases hdeclared : declares own e.name = true
    · simp [bound, combined, hdeclared, firsts_append]
    · have hnew : e ∈ elementsOf (declarations dtd source) := by
        rcases mem_of_mem_foldl_addNew he with he | he
        · exact absurd (declares_of_mem he) hdeclared
        · exact he
      simp [bound, combined, hdeclared, firsts, attributes_declarations dtd source e hnew]
  · intro e _
    rw [any_name_firsts]
    by_cases hdeclared : declares own e.name = true
    · exact .inl hdeclared
    · exact .inr (if_neg hdeclared)

/-- One list of all declarations gives the same elements if no element that only the second list
declares gets an attribute from the first. -/
theorem map_combined_eq_iff :
    (firsts (·.name) (elementsOf (own ++ external))).map (combined own external) =
        ofDeclarations (own ++ external) ↔
      ∀ n, declares own n = false → declares external n = true →
        firsts (·.name) (attributesFor external n) =
          firsts (·.name) (attributesFor (own ++ external) n) := by
  rw [ofDeclarations, List.map_inj_left]
  constructor
  · intro h n hown hexternal
    have hany : declares (own ++ external) n = true := by
      rw [declares_append, hexternal, Bool.or_true]
    rw [← any_name_firsts, List.any_eq_true] at hany
    obtain ⟨e, he, hname⟩ := hany
    obtain rfl := beq_iff_eq.mp hname
    simpa [combined, hown] using congrArg Element.attributes (h e he)
  · intro h e he
    by_cases hown : declares own e.name = true
    · simp [combined, hown]
    · have hdeclared := declares_of_mem he
      rw [declares_append, Bool.eq_false_iff.mpr hown, Bool.false_or] at hdeclared
      simp only [combined, if_neg hown, h e.name (Bool.eq_false_iff.mpr hown) hdeclared]

end both

/-- **The declarations in a document come before those in its file**: the elements are the first
ones of both together, and so are the attributes of those that the document declares. An element that
only the file declares has the attributes that the file gives to it. -/
theorem ofDocument_external [Library] {lookup : Lookup} {d dtd : Document} {uri : String}
    (huri : externalUri? d = some uri) (hdtd : lookup uri = some dtd) :
    let own := declarations d none
    let external := declarations dtd (some uri)
    ∃ g, ofDocument lookup d = .ok (some g) ∧ g.uri = uri ∧ g.globals = g.elements ∧
      g.elements = (ofDeclarations (own ++ external)).map (fun e =>
        if declares own e.name then e
        else { e with attributes := firsts (·.name) (attributesFor external e.name) }) ∧
      (g.elements = ofDeclarations (own ++ external) ↔
        ∀ n, declares own n = false → declares external n = true →
          firsts (·.name) (attributesFor external n) =
            firsts (·.name) (attributesFor (own ++ external) n)) := by
  intro own external
  have hgrammar : ofDocument lookup d =
      .ok (some (ofElements uri (collect (ofDeclarations own) dtd (some uri)))) := by
    simp only [ofDocument, huri, load, hdtd, collect_nil, own]
  have helements := collect_ofDeclarations own dtd (some uri)
  refine ⟨_, hgrammar, rfl, rfl, ?_, ?_⟩
  · rw [ofElements, helements, ofDeclarations, List.map_map]
    apply List.map_congr_left
    intro e _
    by_cases hown : declares own e.name = true
    · simp [combined, hown, external]
    · simp [combined, hown, external]
  · rw [ofElements, helements]
    exact map_combined_eq_iff

def splitDocument : Document := Document.parse
  "<!DOCTYPE a SYSTEM \"a.dtd\" [<!ATTLIST a x CDATA #IMPLIED><!ELEMENT b EMPTY>]>" "file:///w/a.xml"

def splitFile : Document :=
  Document.parse "<!ELEMENT a EMPTY><!ATTLIST b y CDATA #IMPLIED>" "file:///w/a.dtd"

theorem ofDocument_external_split : externalUri? splitDocument = some "file:///w/a.dtd" ∧
    ∃ g, ofDocument (fun _ => some splitFile) splitDocument = .ok (some g) ∧
      g.elements.map (fun e => (e.name, e.attributes.map (·.name))) = [("b", ["y"]), ("a", [])] := by
  have huri : externalUri? splitDocument = some "file:///w/a.dtd" := by decide +kernel
  obtain ⟨g, hg, _, _, helements, _⟩ :=
    @ofDocument_external _ (fun _ => some splitFile) splitDocument splitFile _ huri rfl
  refine ⟨huri, g, hg, ?_⟩
  rw [helements]
  decide +kernel

/-- An attribute that the document declares for an element of its file is lost. -/
theorem attributes_lost : ¬ ∀ (lookup : Lookup) (d dtd : Document) (uri : String),
    externalUri? d = some uri → lookup uri = some dtd →
      ∃ g, ofDocument lookup d = .ok (some g) ∧
        g.elements = ofDeclarations (declarations d none ++ declarations dtd (some uri)) := by
  intro h
  obtain ⟨g, hg, helements⟩ :=
    h (fun _ => some splitFile) splitDocument splitFile "file:///w/a.dtd" (by decide +kernel) rfl
  have hlost : (ofDocument (fun _ => some splitFile) splitDocument).toOption.join.map (·.elements) ≠
      some (ofDeclarations (declarations splitDocument none ++ declarations splitFile "file:///w/a.dtd")) := by
    decide +kernel
  rw [hg] at hlost
  exact hlost (congrArg some helements)

end XmlAssist.Grammar.DocumentType
