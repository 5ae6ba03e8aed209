import XmlAssist.Proofs.Dtd.RoundTrip
import XmlAssist.Proofs.Participant.DocumentType
import XmlAssist.Proofs.Text.Lines

/-!
# Names in content models

A name of markup goes on at every character that is not ASCII; a name in a content model only at letters and
numbers. So what is read off a content model are the pieces of the names that are written in it (`wordsIn_model`),
and they are these names themselves if all of their characters that are not ASCII are letters or numbers.
Main statement: `contentNames_parse`.
-/

namespace XmlAssist

open Text (size Stands)
open Written (Dtd Name Model Particle Occurs)

namespace Declaration

variable {c : Char} {cs ds : List Char} {offset : Nat} {begun : Option (Nat × List Char)}

/-! ## Runs of name characters -/

/-- No name is continued by the text. -/
def Parted (cs : List Char) : Prop := ∀ c ∈ cs.head?, isContentName c = false

theorem nameRuns_append (h : Parted ds) : nameRuns offset begun (cs ++ ds) =
    nameRuns offset begun cs ++ nameRuns (offset + size (String.ofList cs)) none ds := by
  induction cs generalizing offset begun with
  | nil =>
    cases begun with
    | none => rfl
    | some run =>
      cases ds with
      | nil => rfl
      | cons d ds =>
        have hd : isContentName d = false := h d rfl
        simp [nameRuns, hd]
  | cons c cs ih =>
    rw [List.cons_append, LineIndex.size_ofList_cons, ← Nat.add_assoc]
    cases begun <;> cases hc : isContentName c <;> simp [nameRuns, hc, ih]

theorem nameRuns_of_all (h : ∀ c ∈ cs, isContentName c = true) (start : Nat) (run : List Char) :
    nameRuns offset (some (start, run)) cs = [(start, run.reverse ++ cs)] := by
  induction cs generalizing offset run with
  | nil => simp [nameRuns]
  | cons c cs ih =>
    rw [List.forall_mem_cons] at h
    rw [nameRuns, if_pos h.1]
    simp [ih h.2]

theorem isContentName_of_mem_nameRuns {x : Nat × List Char}
    (hbegun : ∀ start run, begun = some (start, run) → ∀ c ∈ run, isContentName c = true)
    (hx : x ∈ nameRuns offset begun cs) (hc : c ∈ x.2) : isContentName c = true := by
  fun_induction nameRuns offset begun cs with
  | case1 offset begun =>
    obtain ⟨⟨start, run⟩, hrun, rfl⟩ := List.mem_map.mp hx
    exact hbegun start run (Option.mem_toList.mp hrun) c (List.mem_reverse.mp hc)
  | case2 offset c' cs next hname start run ih =>
    refine ih ?_ hx
    rintro _ _ ⟨⟩
    exact List.forall_mem_cons.mpr ⟨hname, hbegun _ _ rfl⟩
  | case3 offset c' cs next hname ih =>
    refine ih ?_ hx
    rintro _ _ ⟨⟩
    exact List.forall_mem_cons.mpr ⟨hname, fun _ hmem => absurd hmem List.not_mem_nil⟩
  | case4 offset c' cs next hname start run ih =>
    rcases List.mem_cons.mp hx with rfl | hx
    · exact hbegun _ _ rfl c (List.mem_reverse.mp hc)
    · exact ih (by rintro _ _ ⟨⟩) hx
  | case5 offset c' cs next hname ih => exact ih (by rintro _ _ ⟨⟩) hx

/-! ## Words -/

/-- The names of a text that starts at `offset`; reserved words are none. -/
def wordsIn (offset : Nat) (cs : List Char) : List Parameter :=
  (nameRuns offset none cs).filterMap fun (start, run) =>
    if run.head? == some '#' then none
    else
      let name := String.ofList run
      some ⟨⟨start, start + size name⟩, name⟩

theorem contentNames_eq {b : ElementBody} {content : Parameter} (h : b.content = some content) :
    b.contentNames = wordsIn content.span.start content.text.toList := by
  rw [ElementBody.contentNames, h]
  rfl

theorem wordsIn_append (p : String) (h : Parted ds) :
    wordsIn offset (p.toList ++ ds) = wordsIn offset p.toList ++ wordsIn (offset + size p) ds := by
  rw [wordsIn, nameRuns_append h, List.filterMap_append, String.ofList_toList]
  rfl

theorem wordsIn_of_none {p : String} (h : ∀ c ∈ p.toList, isContentName c = false) :
    wordsIn offset (p.toList ++ ds) = wordsIn (offset + size p) ds := by
  rw [← String.ofList_toList (s := p)]
  generalize p.toList = cs at h
  rw [String.toList_ofList]
  induction cs generalizing offset with
  | nil => rfl
  | cons c cs ih =>
    rw [List.forall_mem_cons] at h
    rw [LineIndex.size_ofList_cons, ← Nat.add_assoc, ← ih h.2, wordsIn, List.cons_append, nameRuns, h.1]
    rfl

theorem wordsIn_of_all (h : ∀ d ∈ c :: cs, isContentName d = true) (hc : c ≠ '#') :
    wordsIn offset (c :: cs) =
      [⟨⟨offset, offset + size (String.ofList (c :: cs))⟩, String.ofList (c :: cs)⟩] := by
  rw [List.forall_mem_cons] at h
  rw [wordsIn, nameRuns, if_pos h.1]
  simp [nameRuns_of_all h.2, hc]

theorem isContentName_of_mem_wordsIn {p : Parameter} (hp : p ∈ wordsIn offset cs) :
    ∀ c ∈ p.text.toList, isContentName c = true := by
  obtain ⟨⟨start, run⟩, hrun, hp⟩ := List.mem_filterMap.mp hp
  dsimp only at hp
  split at hp
  · cases hp
  · rw [← Option.some.inj hp, String.toList_ofList]
    exact fun c hc => isContentName_of_mem_nameRuns (by rintro _ _ ⟨⟩) hrun hc

end Declaration

namespace Written

open Declaration (isContentName Parted wordsIn)

variable {c : Char} {m : Model} {s r : String} {offset : Nat}

/-! ## What is written in a content model -/

/-- The names in a content model that starts at `offset`, where they stand. -/
def Model.names (offset : Nat) : Model → List Parameter
  | .nil => []
  | .particle (.name n) others =>
    ⟨⟨offset, offset + size n.text⟩, n.text⟩ :: others.names (offset + size n.text)
  | .particle piece others => others.names (offset + size piece.print)
  | .group inside others =>
    inside.names (offset + size "(") ++ others.names (offset + size "(" + size inside.print + size ")")

/-- Something stands between any two words; `behindWord` says that a word ends where the model starts. -/
def Model.parted (behindWord : Bool) : Model → Bool
  | .nil => true
  | .particle (.name _) others | .particle .characters others => !behindWord && others.parted true
  | .particle (.space w) others => others.parted (behindWord && w.text == "")
  | .particle .choice others | .particle .sequence others | .particle (.occurs _) others => others.parted false
  | .group inside others => inside.parted false && others.parted false

theorem Model.stands_names (h : Stands s offset (m.print ++ r)) :
    ∀ p ∈ m.names offset, Stands s p.span.start p.text ∧ p.span.stop = p.span.start + size p.text := by
  induction m generalizing offset r with
  | nil => nofun
  | particle piece others ih =>
    rw [Model.print, String.append_assoc] at h
    have hothers := ih h.right
    cases piece with
    | name n => exact List.forall_mem_cons.mpr ⟨⟨h.left, rfl⟩, hothers⟩
    | _ => exact hothers
  | group inside others ihinside ihothers =>
    simp only [Model.print, String.append_assoc] at h
    rw [Model.names, List.forall_mem_append]
    exact ⟨ihinside h.right, ihothers h.right.right.right⟩

/-! ## Characters -/

theorem isContentName_iff_of_lt (hc : c.toNat < 128) :
    isContentName c = true ↔ Lexer.isName (UInt8.ofNat c.toNat) = true ∨ c = '#' := by
  have h : ∀ n < 128, isContentName (Char.ofNat n) = true ↔
      Lexer.isName (UInt8.ofNat n) = true ∨ Char.ofNat n = '#' := by decide +kernel
  simpa using h c.toNat hc

theorem isContentName_of_space (w : Space) (hc : c ∈ w.text.toList) : isContentName c = false := by
  obtain ⟨hlt, hspace⟩ := lt_and_isSpace_of_mem w hc
  have hnot : ∀ n < 128, Lexer.isSpace (UInt8.ofNat n) = true →
      ¬ (Lexer.isName (UInt8.ofNat n) = true ∨ Char.ofNat n = '#') := by decide +kernel
  rw [Bool.eq_false_iff, Ne, isContentName_iff_of_lt hlt]
  simpa using hnot c.toNat hlt hspace

theorem ne_of_mem_name (n : Name) (hc : c ∈ n.text.toList) : c ≠ '#' := by
  rintro rfl
  exact not_mem_name (by decide) n hc

/-- Of the characters of a name, only those that are not ASCII may be none of a name in a content model. -/
theorem isContentName_iff_of_mem (n : Name) (hc : c ∈ n.text.toList) :
    isContentName c = true ↔ (128 ≤ c.toNat → Text.isAlphanumeric c = true) := by
  by_cases hlt : c.toNat < 128
  · have hbyte : UInt8.ofNat c.toNat ∈ Text.bytesOf n.text :=
      Text.mem_bytesOf_of_mem hc (by rw [Text.utf8EncodeChar_of_lt hlt]; exact List.mem_cons_self)
    rw [isContentName_iff_of_lt hlt]
    exact iff_of_true (.inl (Lexer.isName_of_mem n.valid _ hbyte)) fun hle => absurd hlt (Nat.not_lt.mpr hle)
  · have hascii {d : Char} (hd : d.toNat < 128) : (c == d) = false :=
      beq_eq_false_iff_ne.mpr fun heq => hlt (heq ▸ hd)
    simp only [isContentName, hascii (d := '_') (by decide), hascii (d := ':') (by decide),
      hascii (d := '-') (by decide), hascii (d := '.') (by decide), hascii (d := '#') (by decide), Bool.or_false]
    exact ⟨fun h _ => h, fun h => h (Nat.not_lt.mp hlt)⟩

/-! ## What is read off a content model -/

theorem isContentName_of_mark {p : String} (hp : p.toList = [c]) (hc : isContentName c = false) :
    ∀ d ∈ p.toList, isContentName d = false := by
  rw [hp, List.forall_mem_singleton]
  exact hc

theorem isContentName_of_separator {piece : Particle} {others : Model}
    (h : (Model.particle piece others).parted true = true) : ∀ c ∈ piece.print.toList, isContentName c = false := by
  cases piece with
  | name | characters => cases h
  | space w => exact fun _ => isContentName_of_space w
  | choice | sequence => exact isContentName_of_mark rfl (by decide)
  | occurs o => cases o <;> exact isContentName_of_mark rfl (by decide)

theorem Model.parted_print (h : m.parted true = true) {ds : List Char} (hds : Parted ds) :
    Parted (m.print.toList ++ ds) := by
  induction m with
  | nil => exact hds
  | group inside others =>
    rw [Model.print, String.toList_append]
    rintro _ ⟨⟩
    decide
  | particle piece others ih =>
    rw [Model.print, String.toList_append, List.append_assoc]
    have hpiece := isContentName_of_separator h
    cases hprint : piece.print.toList with
    | cons c cs =>
      rintro _ ⟨⟩
      exact hpiece c (hprint ▸ List.mem_cons_self)
    | nil =>
      -- only white space may be empty, and then the word is still not parted from what follows
      cases piece with
      | name | characters => cases h
      | space w =>
        have hw : w.text = "" := String.toList_eq_nil_iff.mp hprint
        exact ih (by simpa [Model.parted, hw] using h)
      | choice | sequence => cases hprint
      | occurs o => cases o <;> cases hprint

theorem wordsIn_characters : wordsIn offset "#PCDATA".toList = [] := by
  simp [wordsIn, Declaration.nameRuns, isContentName, Text.isAlphanumeric]

theorem Model.wordsIn_print {behindWord : Bool} (h : m.parted behindWord = true) {ds : List Char} (hds : Parted ds) :
    wordsIn offset (m.print.toList ++ ds) =
      ((m.names offset).flatMap fun p => wordsIn p.span.start p.text.toList) ++ wordsIn (offset + size m.print) ds := by
  have hopen : ∀ c ∈ "(".toList, isContentName c = false := isContentName_of_mark rfl (by decide)
  have hclose : ∀ c ∈ ")".toList, isContentName c = false := isContentName_of_mark rfl (by decide)
  induction m generalizing offset behindWord ds with
  | nil => rfl
  | group inside others ihinside ihothers =>
    simp only [Model.parted, Bool.and_eq_true] at h
    have hbehind : Parted (")".toList ++ (others.print.toList ++ ds)) := by
      rintro _ ⟨⟩
      decide
    simp only [Model.print, Model.names, String.toList_append, List.append_assoc, List.flatMap_append, Text.size_append]
    rw [Declaration.wordsIn_of_none hopen, ihinside h.1 hbehind, Declaration.wordsIn_of_none hclose,
      ihothers h.2 hds]
    simp only [Nat.add_assoc]
  | particle piece others ih =>
    rw [Model.print, String.toList_append, List.append_assoc, Text.size_append, ← Nat.add_assoc]
    cases piece with
    | name n =>
      have hothers := (Bool.and_eq_true_iff.mp h).2
      rw [Declaration.wordsIn_append _ (parted_print hothers hds), Particle.print, ih hothers hds, Model.names,
        List.flatMap_cons, List.append_assoc]
    | characters =>
      have hothers := (Bool.and_eq_true_iff.mp h).2
      rw [Declaration.wordsIn_append _ (parted_print hothers hds), Particle.print, wordsIn_characters,
        ih hothers hds]
      rfl
    | space w =>
      rw [Declaration.wordsIn_of_none (p := Particle.print (.space w)) fun _ => isContentName_of_space w, ih h hds]
      rfl
    | choice | sequence =>
      rw [Declaration.wordsIn_of_none (isContentName_of_mark rfl (by decide)), ih h hds]
      rfl
    | occurs o =>
      cases o <;>
      · rw [Declaration.wordsIn_of_none (isContentName_of_mark rfl (by decide)), ih h hds]
        rfl

theorem Model.exists_of_mem_names {p : Parameter} (hp : p ∈ m.names offset) :
    ∃ n : Name, p.text = n.text ∧ p.span.stop = p.span.start + size p.text := by
  induction m generalizing offset with
  | nil => cases hp
  | group inside others ihinside ihothers =>
    rcases List.mem_append.mp hp with hp | hp
    · exact ihinside hp
    · exact ihothers hp
  | particle piece others ih =>
    cases piece with
    | name n =>
      rcases List.mem_cons.mp hp with rfl | hp
      · exact ⟨n, rfl, rfl⟩
      · exact ih hp
    | _ => exact ih hp

/-- The characters of a name that are not ASCII are letters and numbers. -/
def IsPlain (p : Parameter) : Prop := ∀ c ∈ p.text.toList, 128 ≤ c.toNat → Text.isAlphanumeric c = true

theorem isPlain_iff {p : Parameter} {n : Name} (h : p.text = n.text) :
    IsPlain p ↔ ∀ c ∈ p.text.toList, isContentName c = true := by
  refine forall₂_congr fun c hc => ?_
  rw [isContentName_iff_of_mem n (h ▸ hc)]

theorem wordsIn_of_isPlain {p : Parameter} {n : Name} (h : p.text = n.text)
    (hspan : p.span.stop = p.span.start + size p.text) (hplain : IsPlain p) :
    wordsIn p.span.start p.text.toList = [p] := by
  have hall := (isPlain_iff h).mp hplain
  cases hcs : p.text.toList with
  | nil => exact absurd (h ▸ hcs) (name_ne_nil n)
  | cons c cs =>
    rw [hcs] at hall
    have hc : c ∈ n.text.toList := h ▸ hcs ▸ List.mem_cons_self
    rw [Declaration.wordsIn_of_all hall (ne_of_mem_name n hc), ← hcs, String.ofList_toList, ← hspan]

theorem Model.flatMap_wordsIn_eq_iff :
    ((m.names offset).flatMap fun p => wordsIn p.span.start p.text.toList) = m.names offset ↔
      ∀ p ∈ m.names offset, IsPlain p := by
  constructor
  · intro heq p hp
    obtain ⟨n, hn, -⟩ := exists_of_mem_names hp
    rw [← heq] at hp
    obtain ⟨q, -, hp⟩ := List.mem_flatMap.mp hp
    exact (isPlain_iff hn).mpr (Declaration.isContentName_of_mem_wordsIn hp)
  · intro hplain
    have hsingle : ∀ p ∈ m.names offset, wordsIn p.span.start p.text.toList = [p] := fun p hp =>
      have ⟨_, hn, hspan⟩ := exists_of_mem_names hp
      wordsIn_of_isPlain hn hspan (hplain p hp)
    rw [List.flatMap_congr hsingle, List.flatMap_singleton']

/-! ## Declarations that are read back -/

open Document (parse isDtdUri)
open Participant (FromDoctype.references FromDoctype.doctypeChildren FromDoctype.lies_of_mem_stored
  FromDoctype.node_of_kind)

/-- The element that is written at a place among the declarations is read with a content model in which the
names are those that are written, as far as they are names in content models. -/
structure ReadsNames (d : Document) (i : Nat) (inside : Model) (occurs : Option Occurs) (b : Declaration.ElementBody)
    (offset : Nat) : Prop where
  element : ∃ id, (d.children 1)[i]? = some id ∧ (d.node id).elementDecl? = some b
  content : Stands d.text offset (Contents.model inside occurs).print
  names : ∀ p ∈ inside.names (offset + size "("), Stands d.text p.span.start p.text ∧
    p.span.stop = p.span.start + size p.text
  contentNames : b.contentNames =
    (inside.names (offset + size "(")).flatMap fun p => wordsIn p.span.start p.text.toList
  references : ∀ p ∈ b.contentNames, p ∈ FromDoctype.references d

theorem wordsIn_contents {inside : Model} (occurs : Option Occurs) (h : inside.parted false = true) :
    wordsIn offset (Contents.model inside occurs).print.toList =
      (inside.names (offset + size "(")).flatMap fun p => wordsIn p.span.start p.text.toList := by
  have hclose : ∀ c ∈ ")".toList, isContentName c = false := isContentName_of_mark rfl (by decide)
  have hmark : ∀ c ∈ (printOccurs occurs).toList, isContentName c = false := by
    rcases occurs with _ | o
    · exact fun _ hc => absurd hc List.not_mem_nil
    · cases o <;> exact isContentName_of_mark rfl (by decide)
  have hbehind : Parted (")".toList ++ (printOccurs occurs).toList) := by
    rintro _ ⟨⟩
    decide
  rw [Contents.print, String.toList_append, String.toList_append, String.toList_append,
    Declaration.wordsIn_of_none (isContentName_of_mark rfl (by decide)), Model.wordsIn_print h hbehind,
    Declaration.wordsIn_of_none hclose, ← List.append_nil (printOccurs occurs).toList,
    Declaration.wordsIn_of_none hmark]
  exact List.append_nil _

theorem exists_readsNames {text uri : String} {t : Doctype} {w : Dtd} {i : Nat} {x : Decl} {name : Name}
    {gap : Gap} {inside : Model} {occurs : Option Occurs} (h : (parse text uri).ShowsDtd 1 t w)
    (hx : w.declarations[i]? = some x) (hbody : x.body = .element name gap (.model inside occurs))
    (hparted : inside.parted false = true) :
    ∃ b offset, ReadsNames (parse text uri) i inside occurs b offset := by
  obtain ⟨id, hid, hshows⟩ : ∃ id, ((parse text uri).children 1)[i]? = some id ∧
      ((parse text uri).node id).ShowsDecl text 1 x := by
    obtain ⟨hlength, hshows⟩ := List.forall₂_iff_get.mp h.declarations
    obtain ⟨hi, rfl⟩ := List.getElem?_eq_some_iff.mp hx
    exact ⟨_, List.getElem?_eq_getElem (hlength ▸ hi), hshows i (hlength ▸ hi) hi⟩
  obtain ⟨declaration, hkind, hdeclaration⟩ := hshows.kind
  obtain ⟨n, hn, hnkind⟩ := FromDoctype.node_of_kind hkind (by rintro ⟨⟩)
  have hbodyShows := hdeclaration.body
  rw [hbody] at hbodyShows
  obtain ⟨b, hb, hshowsBody⟩ : ∃ b, declaration.body = .element b ∧ b.Shows name (.model inside occurs) := by
    generalize declaration.body = body at hbodyShows
    cases hbodyShows with
    | element hb => exact ⟨_, rfl, hb⟩
  have helement : ((parse text uri).node id).elementDecl? = some b := by
    obtain ⟨body, parameters, unrecognized, closed⟩ := declaration
    obtain rfl : body = .element b := hb
    rw [Node.elementDecl?, hkind]
  obtain ⟨content, hcontent, hprint⟩ := Option.map_eq_some_iff.mp hshowsBody.content
  have hstored : content ∈ declaration.stored := by
    simp [Declaration.stored, Declaration.Body.stored, hb, hcontent]
  have hlies := FromDoctype.lies_of_mem_stored hn hnkind hstored
  have hquotes := Document.quotes_of_mem (Array.mem_of_getElem? hn)
  rw [hnkind] at hquotes
  have hstands : Stands text content.span.start (Contents.model inside occurs).print := by
    rw [← hprint, hquotes content hstored]
    exact (Text.stands_slice hlies.start hlies.stop hlies.start_le).1
  have hinside : Stands text (content.span.start + size "(") (inside.print ++ (")" ++ printOccurs occurs)) :=
    hstands.right
  have hnames : b.contentNames = (inside.names (content.span.start + size "(")).flatMap fun p =>
      wordsIn p.span.start p.text.toList := by
    rw [Declaration.contentNames_eq hcontent, hprint, wordsIn_contents occurs hparted]
  refine ⟨b, content.span.start, ⟨id, hid, helement⟩, hstands, Model.stands_names hinside,
    hnames, fun p hp => ?_⟩
  have hdoctype : (parse text uri).doctype? = some 1 := by
    have hkind : ((parse text uri).node 1).isDoctype = true := by
      rw [Node.isDoctype, Node.doctype?, h.kind]
      rfl
    rw [Document.doctype?, h.children]
    exact List.find?_cons_of_pos hkind
  have hattlist : ((parse text uri).node id).attlistDecl? = none := by
    obtain ⟨body, parameters, unrecognized, closed⟩ := declaration
    obtain rfl : body = .element b := hb
    rw [Node.attlistDecl?, hkind]
  refine List.mem_flatMap.mpr ⟨id, ?_, ?_⟩
  · rw [FromDoctype.doctypeChildren, hdoctype]
    exact List.mem_of_getElem? hid
  · rw [hattlist, helement]
    exact hp

/-- **The names that are read off a content model are the pieces of the names that are written in it**, where a
character that is neither ASCII nor a letter or number ends a piece; they are the names themselves if and only if
these have no such character. It is the same in a file of declarations and in a document. -/
theorem contentNames_parse (w : Dtd) (root : Name) {file uri : String} (hfile : isDtdUri file = true)
    (huri : isDtdUri uri = false) {i : Nat} {x : Decl} {name : Name} {gap : Gap} {inside : Model}
    {occurs : Option Occurs} (hx : w.declarations[i]? = some x)
    (hbody : x.body = .element name gap (.model inside occurs)) (hparted : inside.parted false = true) :
    ∀ d ∈ [parse w.print file, parse (w.printIn root) uri], ∃ b offset, ReadsNames d i inside occurs b offset ∧
      (b.contentNames = inside.names (offset + size "(") ↔
        ∀ p ∈ inside.names (offset + size "("), IsPlain p) := by
  obtain ⟨t, hinFile, -⟩ := Document.showsDtd_file w hfile
  obtain ⟨t', hinDocument, -⟩ := Document.showsDtd_document w root huri
  rw [List.forall_mem_cons, List.forall_mem_singleton]
  constructor
  · obtain ⟨b, offset, hreads⟩ := exists_readsNames hinFile hx hbody hparted
    exact ⟨b, offset, hreads, hreads.contentNames ▸ Model.flatMap_wordsIn_eq_iff⟩
  · obtain ⟨b, offset, hreads⟩ := exists_readsNames hinDocument hx hbody hparted
    exact ⟨b, offset, hreads, hreads.contentNames ▸ Model.flatMap_wordsIn_eq_iff⟩

/-- The name `a·b`, in which the point is neither ASCII nor a letter or number. -/
def dottedName : Name := { text := "a·b" }

def dottedModel : Model :=
  .particle .characters <| .particle (.space blank.toSpace) <| .particle .choice <| .particle (.space blank.toSpace) <|
    .particle (.name dottedName) <| .particle .choice <| .particle (.name { text := "c" }) .nil

def dottedDecl : Decl where
  before := tight
  gap := blank
  body := .element { text := "x" } blank (.model dottedModel (some .many))
  behind := tight

def dotted : Dtd where
  declarations := [dottedDecl]
  space := tight

theorem contentNames_parse_dotted : isDtdUri "file:///a.dtd" = true ∧ isDtdUri "file:///a.xml" = false ∧
    dotted.declarations[0]? = some dottedDecl ∧ dottedModel.parted false = true ∧
    ∃ b offset, ReadsNames (parse dotted.print "file:///a.dtd") 0 dottedModel (some .many) b offset ∧
      b.contentNames ≠ dottedModel.names (offset + size "(") := by
  have hfile : isDtdUri "file:///a.dtd" = true := by decide +kernel
  have huri : isDtdUri "file:///a.xml" = false := by decide +kernel
  have hparted : dottedModel.parted false = true := by decide +kernel
  obtain ⟨b, offset, hreads, hiff⟩ := contentNames_parse dotted { text := "x" } hfile huri
    (i := 0) (x := dottedDecl) rfl rfl hparted _ List.mem_cons_self
  refine ⟨hfile, huri, rfl, hparted, b, offset, hreads, fun heq => ?_⟩
  have hin : '·' ∈ "a·b".toList := by decide +kernel
  have hplain := hiff.mp heq ⟨⟨_, _⟩, "a·b"⟩ List.mem_cons_self '·' hin (by decide)
  exact absurd hplain (by decide +kernel)

/-- The names that are read off a content model are not always those that are written in it. -/
theorem name_split : ¬ ∀ (w : Dtd) (i : Nat) (x : Decl) (name : Name) (gap : Gap) (inside : Model)
    (occurs : Option Occurs), w.declarations[i]? = some x → x.body = .element name gap (.model inside occurs) →
      inside.parted false = true → ∃ id b offset, ((parse w.print "file:///a.dtd").children 1)[i]? = some id ∧
        ((parse w.print "file:///a.dtd").node id).elementDecl? = some b ∧ b.contentNames = inside.names offset := by
  intro h
  obtain ⟨id, b, offset, hid, hb, hnames⟩ := h dotted 0 dottedDecl _ _ dottedModel _ rfl rfl (by decide +kernel)
  have hread : ((((parse dotted.print "file:///a.dtd").children 1)[0]?.bind fun id =>
      ((parse dotted.print "file:///a.dtd").node id).elementDecl?).map fun b => b.contentNames.length) = some 3 := by
    decide +kernel
  rw [hid, Option.bind_some, hb, Option.map_some, hnames] at hread
  cases hread

end Written

end XmlAssist
