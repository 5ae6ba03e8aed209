import XmlAssist.Proofs.Tree.Brackets
import XmlAssist.Proofs.Tree.Tally

/-!
# How many tags are reported

A document has one diagnostic for each element whose start tag lacks its end, and one for each end tag
that stands alone; so their numbers are those that `Builder.tally` counts (`countOf_ofSyntax`).
-/

namespace XmlAssist

open Node

namespace Diagnostics

open Document

variable {d : Document} {id : Nat} {e : Element} {x : Diagnostic} {code : String}

def countOf (code : String) (l : List Diagnostic) : Nat := l.countP (·.code = some code)

theorem countOf_append (l r : List Diagnostic) : countOf code (l ++ r) = countOf code l + countOf code r :=
  List.countP_append

theorem countOf_flatMap {α : Type} {l : List α} {f : α → List Diagnostic} {q : α → Bool}
    (h : ∀ a ∈ l, countOf code (f a) = (q a).toNat) : countOf code (l.flatMap f) = l.countP q := by
  induction l with
  | nil => rfl
  | cons a l ih =>
    obtain ⟨ha, hl⟩ := List.forall_mem_cons.mp h
    rw [List.flatMap_cons, countOf_append, ha, ih hl, List.countP_cons]
    cases q a <;> simp [Nat.add_comm]

theorem countOf_errorAt {rangeOf : Span → Except BadLocation Range} {span : Span} {message : String}
    (h : ∃ r, rangeOf span = .ok r) (code' : String) :
    countOf code (Diagnostic.errorAt rangeOf span code' message) = if code' = code then 1 else 0 := by
  obtain ⟨r, hr⟩ := h
  simp [Diagnostic.errorAt, hr, countOf, List.countP_singleton]

theorem countOf_eq_zero {l : List Diagnostic} (h : ∀ x ∈ l, ¬ IsAboutTag x) :
    countOf unclosedCode l = 0 ∧ countOf unmatchedCode l = 0 := by
  refine ⟨List.countP_eq_zero.mpr fun x hx hcode => ?_, List.countP_eq_zero.mpr fun x hx hcode => ?_⟩
  · exact h x hx (.inl (of_decide_eq_true hcode))
  · exact h x hx (.inr (of_decide_eq_true hcode))

theorem countOf_ofElement (hstart : e.hasStartTag = true → e.tag.isSome = true →
      ∃ r, d.rangeOf (d.startTagSpan id e) = .ok r)
    (hend : ∀ span, e.endTagSpan = some span → ∃ r, d.rangeOf span = .ok r) :
    countOf unclosedCode (ofElement d id e) = e.lacksEnd.toNat ∧
      countOf unmatchedCode (ofElement d id e) = e.lacksStart.toNat := by
  have hne : ¬ unclosedCode = unmatchedCode := by decide
  unfold ofElement
  cases htag : e.tag with
  | none => simp [Element.lacksEnd, Element.lacksStart, htag, countOf]
  | some tag =>
    by_cases hs : e.hasStartTag = true
    · obtain ⟨hzero, hzero'⟩ := countOf_eq_zero (l := ofAttributes d tag [] (d.attributes id))
        fun x hx => not_isAboutTag_of_mem_ofAttributes hx
      simp only [if_pos hs, countOf_append, hzero, hzero', Nat.add_zero]
      have hlacks : e.lacksEnd = (!e.selfClosed && !e.hasEndTag) := by
        simp [Element.lacksEnd, Element.isUnended, htag, hs]
      have hnone : e.lacksStart = false := by simp [Element.lacksStart, hs]
      rw [hlacks, hnone]
      split
      · rename_i hun
        rw [countOf_errorAt (hstart hs (by simp [htag])), countOf_errorAt (hstart hs (by simp [htag])), hun]
        simp [hne]
      · rename_i hun
        rw [Bool.eq_false_iff.mpr hun]
        exact ⟨rfl, rfl⟩
    · have hlacks : e.lacksEnd = false := by simp [Element.lacksEnd, Element.isUnended, hs]
      have hnone : e.lacksStart = e.endTagSpan.isSome := by simp [Element.lacksStart, hs, htag]
      simp only [if_neg hs]
      rw [hlacks, hnone]
      split
      · rename_i span hspan
        rw [countOf_errorAt (hend span hspan), countOf_errorAt (hend span hspan), hspan]
        simp [Ne.symm hne]
      · rename_i hspan
        rw [hspan]
        exact ⟨rfl, rfl⟩

variable {text uri : String} {b : Builder}

theorem countP_elements (hb : b.nodes = (parse text uri).nodes) {P : Element → Bool}
    (hP : ∀ e, P e.core = P e) :
    (parse text uri).elements.countP (fun id => ((parse text uri).element? id).any P) = b.count P := by
  obtain ⟨⟨_, h⟩, -⟩ := Builder.build_spec text (isDtdUri uri)
  have harena : Arena (parse text uri).nodes := h.arena
  have hcore (id : Nat) : (b.core id).any P = ((parse text uri).element? id).any P := by
    rw [core_eq_element? hb, Option.any_map]
    exact congrArg (Option.any · _) (funext hP)
  have hperm : (parse text uri).elements.Perm
      ((List.range b.nodes.size).filter fun id => ((parse text uri).element? id).isSome) := by
    refine (List.perm_ext_iff_of_nodup ?_ (List.nodup_range.filter _)).mpr fun id => ?_
    · exact ((tree_of_arena harena).sorted.imp fun hlt => Nat.ne_of_lt hlt).filter _
    · rw [mem_elements, List.mem_filter, List.mem_range, Option.isSome_iff_exists, hb]
      refine ⟨fun ⟨e, he⟩ => ⟨?_, e, he⟩, And.right⟩
      obtain ⟨n, hn, -⟩ := exists_node_of_element? he
      exact lt_size_of_getElem? hn
  rw [hperm.countP_eq, List.countP_filter, Builder.count]
  refine List.countP_congr fun id _ => ?_
  rw [hcore]
  cases (parse text uri).element? id <;> simp

/-- **The diagnostics about tags** are as many as there are tags without a counterpart. -/
theorem countOf_ofSyntax (hb : b.nodes = (parse text uri).nodes)
    (htagged : ∀ id e, b.core id = some e → e.startOpen.isSome = true → e.tag.isSome = true →
      e.tagSpan.isSome = true) (settings : Settings) :
    countOf unclosedCode (ofSyntax (parse text uri) settings) = b.count Element.lacksEnd ∧
      countOf unmatchedCode (ofSyntax (parse text uri) settings) = b.count Element.lacksStart := by
  obtain ⟨htokens, htokens'⟩ := countOf_eq_zero (l := ofTokens (parse text uri))
    fun x hx => not_isAboutTag_of_mem_ofTokens hx
  obtain ⟨hdoctype, hdoctype'⟩ := countOf_eq_zero (l := ofDoctype (parse text uri) settings)
    fun x hx => not_isAboutTag_of_mem_ofDoctype hx
  have hranges {id : Nat} {e : Element} (he : (parse text uri).element? id = some e) {sp : Span}
      (hsp : sp ∈ e.tagSpan.toList ++ e.endTagSpan.toList) : ∃ r, (parse text uri).rangeOf sp = .ok r :=
    have hlies := lies_tagSpan he sp hsp
    exists_rangeOf hlies.start hlies.stop
  have hofElement {id : Nat} {e : Element} (he : (parse text uri).element? id = some e) :
      countOf unclosedCode (ofElement (parse text uri) id e) = e.lacksEnd.toNat ∧
        countOf unmatchedCode (ofElement (parse text uri) id e) = e.lacksStart.toNat :=
    countOf_ofElement (fun hs htag => by
      obtain ⟨span, hspan⟩ := Option.isSome_iff_exists.mp (htagged id e.core
        (by rw [core_eq_element? hb, he]; rfl) hs htag)
      rw [startTagSpan, show e.tagSpan = some span from hspan]
      exact hranges he (by simp [show e.tagSpan = some span from hspan]))
      fun span hspan => hranges he (by simp [hspan])
  refine ⟨?_, ?_⟩
  · rw [ofSyntax, countOf_append, countOf_append, htokens, hdoctype, ofElements, Nat.zero_add]
    refine (countOf_flatMap (q := fun id => ((parse text uri).element? id).any Element.lacksEnd)
      fun id hid => ?_).trans (countP_elements hb fun _ => rfl)
    obtain ⟨e, he⟩ := mem_elements.mp hid
    simp only [he]
    exact (hofElement he).1
  · rw [ofSyntax, countOf_append, countOf_append, htokens', hdoctype', ofElements, Nat.zero_add]
    refine (countOf_flatMap (q := fun id => ((parse text uri).element? id).any Element.lacksStart)
      fun id hid => ?_).trans (countP_elements hb fun _ => rfl)
    obtain ⟨e, he⟩ := mem_elements.mp hid
    simp only [he]
    exact (hofElement he).2

theorem countOf_parse (huri : isDtdUri uri = false) (settings : Settings) :
    (countOf unclosedCode (ofSyntax (parse text uri) settings) : Int) =
        (({} : Tally).reads text (Lexer.document.tokens text)).unclosed ∧
      (countOf unmatchedCode (ofSyntax (parse text uri) settings) : Int) =
        (({} : Tally).reads text (Lexer.document.tokens text)).unmatched := by
  obtain ⟨y, hy, hend⟩ := Lexer.Leads.exists_end text .document (Text.isBoundary_zero text)
  have hstart := Builder.follows_start text false
  have hf := hstart.behind hy
  have hquiet := hf.fits.quiet_atEnd
  have hnodes := Builder.build_eq_behind hy hend
  -- the end of the text acts like one more token, which opens and closes nothing
  have hacts : Builder.Acts text _ ⟨.eos, Text.size text, Text.size text, none⟩ _ := .quiet rfl hquiet
  have hparse : (Builder.atEnd text (Builder.behind text (Lexer.document.tokens text)
      (Builder.start text false))).nodes = (parse text uri).nodes := by rw [parse, huri, hnodes]
  have hcounts := countOf_ofSyntax hparse (hacts.tagged hf.tagged) settings
  have htally := hquiet.tally.trans (hstart.tally_behind hy)
  rw [Builder.tally_start] at htally
  rw [hcounts.1, hcounts.2, ← htally]
  exact ⟨rfl, rfl⟩

end Diagnostics

end XmlAssist
