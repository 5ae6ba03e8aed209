import XmlAssist.Participant.DocumentType
import XmlAssist.Proofs.Navigation.Pairs
import XmlAssist.Proofs.Text.Piece
import XmlAssist.Proofs.Tree.Covering

/-!
# Names of declared elements

Names of elements in declarations, and those that refer to them, stand in the text, so each has a range
(`exists_ranges`). Declarations stand behind each other, so where the name in one of them starts no other one is
found (`nameAt?_declared`). Main statement: the number above a declaration counts what is found from there
(`lens_counts`).
-/

namespace XmlAssist

open Node
open Text (size isBoundary Stands)

/-! ## Contributions that do not fail -/

namespace Contribution

variable {α β : Type} {l : List β}

theorem ofAttempts_ok (cancel : Cancel) (items : List α) :
    ofAttempts cancel (items.map .ok) = ofList cancel items := by
  induction items with
  | nil => rfl
  | cons a rest ih =>
    rw [List.map_cons, ofAttempts, ih]
    rfl

theorem map_ok {f : β → Except BadLocation α} {g : β → α} (h : ∀ b ∈ l, f b = .ok (g b)) :
    l.map f = (l.map g).map .ok := by
  rw [List.map_map]
  exact List.map_congr_left h

theorem ofList_andThen (cancel : Cancel) (items : List α) (second : Cancel → Contribution α) :
    (ofList cancel items).andThen second = { second cancel with items := items ++ (second cancel).items } := rfl

theorem visit_never {f : β → Except BadLocation (List α)} {p : β → Bool} {g : β → α}
    (h : ∀ b ∈ l, f b = .ok (if p b then [g b] else [])) :
    visit f .never l = ofList .never ((l.filter p).map g) := by
  induction l with
  | nil => rfl
  | cons b rest ih =>
    have hrest := ih fun c hc => h c (List.mem_cons_of_mem _ hc)
    simp only [visit, Cancel.poll, h b List.mem_cons_self, hrest, List.filter_cons]
    cases p b <;> rfl

end Contribution

/-! ## Names in content models -/

namespace Declaration

theorem size_concat (l : List Char) (c : Char) :
    size (String.ofList (l ++ [c])) = size (String.ofList l) + c.utf8Size := by
  rw [String.ofList_append, Text.size_append]
  simp

theorem exists_of_mem_nameRuns {cs done : List Char} {o start : Nat} {begun : Option (Nat × List Char)}
    {x : Nat × List Char} (hbegun : begun = some (start, done) ∨ begun = none ∧ done = [])
    (ho : start + size (String.ofList done.reverse) = o) (hx : x ∈ nameRuns o begun cs) :
    ∃ before behind, done.reverse ++ cs = before ++ x.2 ++ behind ∧ x.1 = start + size (String.ofList before) := by
  induction cs generalizing o start done begun with
  | nil =>
    rcases hbegun with rfl | ⟨rfl, rfl⟩
    · obtain rfl : x = (start, done.reverse) := by simpa [nameRuns] using hx
      exact ⟨[], [], by simp, by simp⟩
    · simp [nameRuns] at hx
  | cons c cs ih =>
    have hnext : start + size (String.ofList (c :: done).reverse) = o + c.utf8Size := by
      rw [List.reverse_cons, size_concat, ← Nat.add_assoc, ho]
    -- behind a run, the rest of the text is counted anew
    have hrest (hx : x ∈ nameRuns (o + c.utf8Size) none cs) : ∃ before behind,
        done.reverse ++ c :: cs = before ++ x.2 ++ behind ∧ x.1 = start + size (String.ofList before) := by
      obtain ⟨before, behind, hsplit, hx⟩ := ih (.inr ⟨rfl, rfl⟩)
        (show o + c.utf8Size + size (String.ofList [].reverse) = o + c.utf8Size by simp) hx
      refine ⟨done.reverse ++ c :: before, behind, ?_, ?_⟩
      · simpa using hsplit
      · have hsize : size (String.ofList (done.reverse ++ c :: before)) =
            size (String.ofList (c :: done).reverse) + size (String.ofList before) := by
          rw [List.append_cons, String.ofList_append, Text.size_append, List.reverse_cons]
        rw [hx, hsize, ← hnext, Nat.add_assoc]
    rcases hbegun with rfl | ⟨rfl, rfl⟩
    · rw [nameRuns] at hx
      split at hx
      · simpa using ih (.inl rfl) hnext hx
      · rcases List.mem_cons.mp hx with rfl | hx
        · exact ⟨[], c :: cs, by simp, by simp⟩
        · exact hrest hx
    · obtain rfl : start = o := by simpa using ho
      rw [nameRuns] at hx
      split at hx
      · simpa using ih (.inl rfl) hnext hx
      · exact hrest hx

theorem stands_inside {s p q : String} {i o : Nat} (h : Stands s i p) (hin : Stands p o q) : Stands s (i + o) q := by
  obtain ⟨before, behind, rfl, rfl⟩ := h
  obtain ⟨before', behind', rfl, rfl⟩ := hin
  exact ⟨before ++ before', behind' ++ behind, by simp [String.append_assoc], Text.size_append ..⟩

theorem stands_of_mem_contentNames {b : ElementBody} {content p : Parameter} (hcontent : b.content = some content)
    (hp : p ∈ b.contentNames) : ∃ o, Stands content.text o p.text ∧
      p.span = ⟨content.span.start + o, content.span.start + o + size p.text⟩ := by
  rw [ElementBody.contentNames, hcontent] at hp
  obtain ⟨⟨start, run⟩, hrun, hp⟩ := List.mem_filterMap.mp hp
  obtain ⟨before, behind, hsplit, hstart⟩ := exists_of_mem_nameRuns (.inr ⟨rfl, rfl⟩)
    (show content.span.start + size (String.ofList [].reverse) = content.span.start by simp) hrun
  dsimp only at hp hsplit hstart
  split at hp
  · cases hp
  · obtain rfl := Option.some.inj hp
    refine ⟨size (String.ofList before), ⟨String.ofList before, String.ofList behind, ?_, rfl⟩, ?_⟩
    · rw [← String.ofList_append, ← String.ofList_append, ← hsplit]
      simp
    · rw [hstart]

end Declaration

namespace Participant.FromDoctype

open Document (parse)

variable {d : Document} {text uri : String} {p q : Parameter} {id : Nat} {n : Node} {range : Parameter → Range}
variable {r : Request} {settings : Settings.CodeLens}

/-! ## Names in declarations -/

theorem node_of_kind {k : Kind} (h : (d.node id).kind = k) (hk : k ≠ .document) :
    ∃ n, d.nodes[id]? = some n ∧ n.kind = k := by
  cases hn : d.nodes[id]? with
  | none => exact absurd (h.symm.trans (congrArg Node.kind (Document.node_eq_default hn))) hk
  | some n => exact ⟨n, rfl, Document.node_eq hn ▸ h⟩

theorem kind_of_elementDecl? {b : Declaration.ElementBody} (h : n.elementDecl? = some b) :
    ∃ declaration, n.kind = .declaration declaration ∧ declaration.body = .element b := by
  rw [elementDecl?] at h
  split at h
  · rename_i hkind
    exact ⟨_, hkind, congrArg _ (Option.some.inj h)⟩
  · cases h

theorem kind_of_attlistDecl? {b : Declaration.AttlistBody} (h : n.attlistDecl? = some b) :
    ∃ declaration, n.kind = .declaration declaration ∧ declaration.body = .attlist b := by
  rw [attlistDecl?] at h
  split at h
  · rename_i hkind
    exact ⟨_, hkind, congrArg _ (Option.some.inj h)⟩
  · cases h

theorem doctype_lt {doctype : Nat} (h : d.doctype? = some doctype) : doctype < d.nodes.size := by
  have hdoctype : (d.node doctype).isDoctype = true := by simpa using List.find?_some h
  cases hn : d.nodes[doctype]? with
  | none =>
    rw [Document.node_eq_default hn] at hdoctype
    cases hdoctype
  | some n => exact (Array.getElem?_eq_some_iff.mp hn).1

theorem exists_of_mem_declarations (hp : p ∈ declarations d) : ∃ doctype id n declaration b,
    d.doctype? = some doctype ∧ id ∈ d.children doctype ∧ d.nodes[id]? = some n ∧
      n.kind = .declaration declaration ∧ declaration.body = .element b ∧ b.name = some p := by
  obtain ⟨id, hid, hp⟩ := List.mem_filterMap.mp hp
  obtain ⟨b, hb, hname⟩ := Option.bind_eq_some_iff.mp hp
  obtain ⟨declaration, hkind, hbody⟩ := kind_of_elementDecl? hb
  obtain ⟨n, hn, hkind⟩ := node_of_kind hkind (by rintro ⟨⟩)
  rw [doctypeChildren] at hid
  split at hid
  · rename_i doctype hdoctype
    exact ⟨doctype, id, n, declaration, b, hdoctype, hid, hn, hkind, hbody, hname⟩
  · exact absurd hid List.not_mem_nil

/-- A name that refers to a declaration is kept in another one, or stands in a content model that is. -/
theorem exists_of_mem_references (hp : p ∈ references d) : ∃ (id : Nat) (n : Node) (declaration : Declaration),
    d.nodes[id]? = some n ∧ n.kind = .declaration declaration ∧ (p ∈ declaration.stored ∨
      ∃ (b : Declaration.ElementBody) (content : Parameter),
        b.content = some content ∧ content ∈ declaration.stored ∧ p ∈ b.contentNames) := by
  obtain ⟨id, -, hp⟩ := List.mem_flatMap.mp hp
  split at hp
  · rename_i b _ hattlist
    obtain ⟨declaration, hkind, hbody⟩ := kind_of_attlistDecl? hattlist
    obtain ⟨n, hn, hkind⟩ := node_of_kind hkind (by rintro ⟨⟩)
    refine ⟨id, n, declaration, hn, hkind, .inl ?_⟩
    simp [Declaration.stored, Declaration.Body.stored, hbody, Option.mem_toList.mp hp]
  · rename_i b _ helement
    obtain ⟨declaration, hkind, hbody⟩ := kind_of_elementDecl? helement
    obtain ⟨n, hn, hkind⟩ := node_of_kind hkind (by rintro ⟨⟩)
    obtain ⟨content, hcontent⟩ : ∃ content, b.content = some content := by
      cases hcontent : b.content with
      | none => simp [Declaration.ElementBody.contentNames, hcontent] at hp
      | some content => exact ⟨content, rfl⟩
    refine ⟨id, n, declaration, hn, hkind, .inr ⟨b, content, hcontent, ?_, hp⟩⟩
    simp [Declaration.stored, Declaration.Body.stored, hbody, hcontent]
  · exact absurd hp List.not_mem_nil

theorem lies_of_mem_stored {declaration : Declaration} (hn : (parse text uri).nodes[id]? = some n)
    (hkind : n.kind = .declaration declaration) (hp : p ∈ declaration.stored) : Lies text (size text) p.span :=
  Document.lies_of_mem (Array.mem_of_getElem? hn) p.span (List.mem_cons_of_mem _ (by
    rw [hkind]
    exact List.mem_map_of_mem hp))

theorem mem_stored_of_name {declaration : Declaration} {b : Declaration.ElementBody}
    (hbody : declaration.body = .element b) (hname : b.name = some p) : p ∈ declaration.stored := by
  simp [Declaration.stored, Declaration.Body.stored, hbody, hname]

/-- Every name has a range. -/
theorem exists_ranges (text uri : String) : ∃ range : Parameter → Range,
    ∀ p, p ∈ declarations (parse text uri) ∨ p ∈ references (parse text uri) →
      (parse text uri).rangeOf p.span = .ok (range p) := by
  suffices h : ∀ p, p ∈ declarations (parse text uri) ∨ p ∈ references (parse text uri) →
      ∃ range, (parse text uri).rangeOf p.span = .ok range by
    choose! range hrange using h
    exact ⟨range, hrange⟩
  rintro p (hp | hp)
  · obtain ⟨_, _, n, _, _, -, -, hn, hkind, hbody, hname⟩ := exists_of_mem_declarations hp
    have hlies := lies_of_mem_stored hn hkind (mem_stored_of_name hbody hname)
    exact Document.exists_rangeOf hlies.start hlies.stop
  · obtain ⟨id, n, declaration, hn, hkind, hin⟩ := exists_of_mem_references hp
    rcases hin with hp | ⟨b, content, hcontent, hmem, hp⟩
    · have hlies := lies_of_mem_stored hn hkind hp
      exact Document.exists_rangeOf hlies.start hlies.stop
    · -- the content model is cut out of the text, and the name out of it
      have hlies := lies_of_mem_stored hn hkind hmem
      have hquotes := Document.quotes_of_mem (Array.mem_of_getElem? hn)
      rw [hkind] at hquotes
      have hstands := (Text.stands_slice hlies.start hlies.stop hlies.start_le).1
      obtain ⟨o, hin, hspan⟩ := Declaration.stands_of_mem_contentNames hcontent hp
      have hthere := Declaration.stands_inside hstands (hquotes content hmem ▸ hin)
      refine Document.exists_rangeOf ?_ ?_ <;> rw [hspan]
      · exact hthere.isBoundary
      · exact hthere.isBoundary_stop

theorem eq_of_touches (hp : p ∈ declarations (parse text uri)) (hq : q ∈ declarations (parse text uri))
    (h : q.span.touches p.span.start = true) : q = p := by
  have hd := Document.complete_parse text uri
  obtain ⟨doctype, i, n, _, b, hdoctype, hi, hn, hkind, hbody, hname⟩ := exists_of_mem_declarations hp
  obtain ⟨doctype', j, m, _, b', hdoctype', hj, hm, hkind', hbody', hname'⟩ := exists_of_mem_declarations hq
  obtain rfl := Option.some.inj (hdoctype.symm.trans hdoctype')
  have hcovers := Document.parse_covers text uri n (Array.mem_of_getElem? hn)
  have hcovers' := Document.parse_covers text uri m (Array.mem_of_getElem? hm)
  have hspan : p.span ∈ n.kind.spans := hkind ▸ List.mem_map_of_mem (mem_stored_of_name hbody hname)
  have hspan' : q.span ∈ m.kind.spans := hkind' ▸ List.mem_map_of_mem (mem_stored_of_name hbody' hname')
  have hin := hcovers.inside _ hspan
  have hin' := hcovers'.inside _ hspan'
  have hbehind := hcovers.behind _ hkind _ hspan
  have hbehind' := hcovers'.behind _ hkind' _ hspan'
  simp only [Span.touches, Bool.and_eq_true, decide_eq_true_eq] at h
  have hsize := doctype_lt hdoctype
  have hi := (Document.mem_children hd.arena hsize).mp hi
  have hj := (Document.mem_children hd.arena hsize).mp hj
  have hle := (lies_of_mem_stored hn hkind (mem_stored_of_name hbody hname)).start_le
  rcases Nat.lt_trichotomy i j with hlt | rfl | hlt
  · have hapart := hd.disjoint hi hj hlt
    rw [Document.span_eq hn, Document.span_eq hm] at hapart
    omega
  · obtain rfl := Option.some.inj (hn.symm.trans hm)
    simp_all
  · have hapart := hd.disjoint hj hi hlt
    rw [Document.span_eq hn, Document.span_eq hm] at hapart
    omega

/-- Where a declared name starts, that name is found. -/
theorem nameAt?_declared (hp : p ∈ declarations (parse text uri)) :
    nameAt? (parse text uri) p.span.start = some p.text := by
  obtain ⟨_, _, n, _, _, -, -, hn, hkind, hbody, hname⟩ := exists_of_mem_declarations hp
  have hlies := lies_of_mem_stored hn hkind (mem_stored_of_name hbody hname)
  have htouches : p.span.touches p.span.start = true := by simp [Span.touches, hlies.start_le]
  obtain ⟨q, hq⟩ : ∃ q, (declarations (parse text uri)).find? (·.span.touches p.span.start) = some q :=
    Option.isSome_iff_exists.mp (List.find?_isSome.mpr ⟨p, hp, htouches⟩)
  obtain rfl := eq_of_touches hp (List.mem_of_find?_eq_some hq) (by simpa using List.find?_some hq)
  rw [nameAt?, hq]
  rfl

/-! ## What is counted and what is found -/

section found

variable {name : String} (hname : requestedName? r = some name)
variable (hrange : ∀ p, p ∈ declarations r.document ∨ p ∈ references r.document →
  r.document.rangeOf p.span = .ok (range p))
include hname hrange

theorem refer_eq (withDeclaration : Bool) : refer r withDeclaration .never = .ofList .never
    ((if withDeclaration then (declarationsOf r.document name).map fun p => ⟨r.document.uri, range p⟩ else []) ++
      (referencesTo r.document name).map fun p => ⟨r.document.uri, range p⟩) := by
  have hdeclared : (if withDeclaration then (declarationsOf r.document name).map (locate r.document) else []) =
      (if withDeclaration then (declarationsOf r.document name).map fun p => ⟨r.document.uri, range p⟩
        else []).map .ok := by
    cases withDeclaration with
    | false => rfl
    | true =>
      refine Contribution.map_ok fun p hp => ?_
      rw [locate, hrange p (.inl (List.mem_filter.mp hp).1)]
      rfl
  have hvisited := Contribution.visit_never (l := references r.document) (p := (·.text == name))
    (f := fun p => if p.text == name then (locate r.document p).map ([·]) else .ok [])
    (g := fun p => (⟨r.document.uri, range p⟩ : Location)) fun p hp => by
      rw [locate, hrange p (.inr hp)]
      split <;> rfl
  simp only [refer, hname, hdeclared, Contribution.ofAttempts_ok, Contribution.ofList_andThen, hvisited]
  rfl

theorem highlight_eq (cancel : Cancel) : highlight r cancel = .ofList cancel
    ((declarationsOf r.document name).map (fun p => ⟨range p, .write⟩) ++
      (referencesTo r.document name).map fun p => ⟨range p, .read⟩) := by
  have hmark (kind : Highlight.Kind) {l : List Parameter}
      (hl : ∀ p ∈ l, p ∈ declarations r.document ∨ p ∈ references r.document) :
      l.map (fun p => (r.document.rangeOf p.span).map fun range => (⟨range, kind⟩ : Highlight)) =
        (l.map fun p => ⟨range p, kind⟩).map .ok :=
    Contribution.map_ok fun p hp => by rw [hrange p (hl p hp)]; rfl
  have hwrite := hmark .write (l := declarationsOf r.document name) fun p hp => .inl (List.mem_filter.mp hp).1
  have hread := hmark .read (l := referencesTo r.document name) fun p hp => .inr (List.mem_filter.mp hp).1
  simp only [highlight, hname]
  rw [hwrite, hread, ← List.map_append, Contribution.ofAttempts_ok]

end found

/-- The lens is above the declared name, it counts the references, and they are what is found from there. -/
structure Counts (d : Document) (declared : Parameter) (lens : CodeLens) : Prop where
  range : d.rangeOf declared.span = .ok lens.range
  /-- As many references as the lens says are found. -/
  found : ∃ r command, Request.ofPosition d lens.range.start = .ok r ∧ lens.command = some command ∧
    command.title = countTitle (refer r false .never).items.length ∧
    ((highlight r .never).items.filter (·.kind = .read)).length = (refer r false .never).items.length ∧
    (refer r true .never).items = ((highlight r .never).items.filter (·.kind = .write)).map (⟨d.uri, ·.range⟩) ++
      (refer r false .never).items ∧
    (refer r false .never).failure = none ∧ (refer r true .never).failure = none ∧
    (highlight r .never).failure = none

theorem filter_mark (kind kind' : Highlight.Kind) (l : List Parameter) :
    (l.map fun p => (⟨range p, kind⟩ : Highlight)).filter (·.kind = kind') =
      if kind = kind' then l.map fun p => ⟨range p, kind⟩ else [] := by
  split <;> simp_all [List.filter_map, Function.comp_def]

theorem lensOf_eq {whole : Range} (h : d.rangeOf p.span = .ok whole) (supported : Bool) : ∃ command : Command,
    command.title = countTitle (referencesTo d p.text).length ∧ lensOf d supported p =
      .ok (if (references d).any (·.text == p.text) then [{ range := whole, command := some command }] else []) := by
  have hnone : (referencesTo d p.text).length = 0 ↔ ¬ (references d).any (·.text == p.text) = true := by
    rw [referencesTo, List.length_eq_zero_iff, List.filter_eq_nil_iff, List.any_eq_true]
    simp
  rw [lensOf, h]
  by_cases hcount : (referencesTo d p.text).length = 0
  · exact ⟨{ title := _, command := "" }, rfl, by rw [if_pos hcount, if_neg (hnone.mp hcount)]⟩
  · have hany := not_not.mp fun hany => hcount (hnone.mpr hany)
    cases supported <;> exact ⟨_, rfl, by rw [if_neg hcount, if_pos hany]; rfl⟩

theorem exists_lensOf (h : applies (parse text uri) = true) (supported : Bool)
    (hp : p ∈ declarations (parse text uri)) : ∃ lens, Counts (parse text uri) p lens ∧
      lensOf (parse text uri) supported p =
        .ok (if (references (parse text uri)).any (·.text == p.text) then [lens] else []) := by
  obtain ⟨range, hrange⟩ := exists_ranges text uri
  have hwhole := hrange p (.inl hp)
  obtain ⟨r, hr, hdocument, hoffset⟩ := Navigation.exists_ofPosition
    (Document.offsetAt_of_positionAt (Document.positions_of_rangeOf hwhole).1)
  have hname : requestedName? r = some p.text := by
    rw [requestedName?, hdocument, hoffset, if_pos h, nameAt?_declared hp]
  have hrefer := refer_eq hname (hdocument ▸ hrange)
  have hhighlight := highlight_eq hname (hdocument ▸ hrange)
  rw [hdocument] at hrefer hhighlight
  obtain ⟨command, htitle, hlens⟩ := lensOf_eq hwhole supported
  refine ⟨_, ⟨hwhole, r, command, hr, rfl, ?_, ?_, ?_, ?_, ?_, ?_⟩, hlens⟩
  · rw [htitle, hrefer]
    simp [Contribution.ofList]
  · rw [hrefer, hhighlight]
    simp [Contribution.ofList, filter_mark]
  · rw [hrefer, hrefer, hhighlight]
    simp [Contribution.ofList, filter_mark, Function.comp_def]
  · rw [hrefer]
    rfl
  · rw [hrefer]
    rfl
  · rw [hhighlight]
    rfl

/-- **The numbers above declarations**: there is one above each declared name that something refers to, and it is
that of the places found from there. -/
theorem lens_counts (settings : Settings.CodeLens) (h : applies (parse text uri) = true) :
    (lens (parse text uri) settings .never).failure = none ∧
      List.Forall₂ (Counts (parse text uri))
        ((declarations (parse text uri)).filter fun p => (references (parse text uri)).any (·.text == p.text))
        (lens (parse text uri) settings .never).items := by
  have hlens := fun p (hp : p ∈ declarations (parse text uri)) =>
    exists_lensOf h (settings.supports "references") hp
  choose! g hcounts heq using hlens
  rw [lens, h, Contribution.visit_never heq]
  refine ⟨rfl, List.forall₂_map_right_iff.mpr (List.forall₂_same.mpr fun p hp => ?_)⟩
  exact hcounts p (List.mem_filter.mp hp).1

/-- An element that is declared twice and refers to itself. -/
theorem lens_counts_declared_twice :
    applies (parse "<!ELEMENT a (a|b)*><!ELEMENT a (b)>" "file:///a.dtd") = true ∧
      List.Forall₂ (Counts (parse "<!ELEMENT a (a|b)*><!ELEMENT a (b)>" "file:///a.dtd"))
        [⟨⟨10, 11⟩, "a"⟩, ⟨⟨29, 30⟩, "a"⟩]
        (lens (parse "<!ELEMENT a (a|b)*><!ELEMENT a (b)>" "file:///a.dtd") { enabled := true } .never).items := by
  have h : applies (parse "<!ELEMENT a (a|b)*><!ELEMENT a (b)>" "file:///a.dtd") = true := by decide +kernel
  have heq : ((declarations (parse "<!ELEMENT a (a|b)*><!ELEMENT a (b)>" "file:///a.dtd")).filter fun p =>
      (references (parse "<!ELEMENT a (a|b)*><!ELEMENT a (b)>" "file:///a.dtd")).any (·.text == p.text)) =
        [⟨⟨10, 11⟩, "a"⟩, ⟨⟨29, 30⟩, "a"⟩] := by decide +kernel
  exact ⟨h, heq ▸ (lens_counts { enabled := true } h).2⟩

/-- Only the first document type is read: the element that is declared in another one is referred to and has no
lens. -/
theorem lens_of_second_doctype : ∃ d : Document, ∃ declared, applies d = true ∧
    d = parse "<!DOCTYPE a [<!ELEMENT a (b)>]><!DOCTYPE a [<!ELEMENT b EMPTY>]>" "file:///a.xml" ∧
    ((d.node 4).elementDecl?.bind (·.name)) = some declared ∧ declared ∉ declarations d ∧
    (references d).any (·.text == declared.text) = true ∧ (lens d { enabled := true } .never).items.length = 0 :=
  ⟨_, ⟨⟨54, 55⟩, "b"⟩, by decide +kernel, rfl, by decide +kernel, by decide +kernel, by decide +kernel,
    by decide +kernel⟩

end Participant.FromDoctype

end XmlAssist
