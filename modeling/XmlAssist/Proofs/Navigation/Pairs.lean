import XmlAssist.Proofs.Edits.Rename

/-!
# The two tags of an element

A link leads from the name in the one tag of an element to that in the other. Each name is found again where
the link leads (`Document.tagNameAt?_tag`), so the way back is the same link the other way round
(`definitions_back`).
-/

namespace XmlAssist.Navigation

open Document

variable {text uri : String} {d : Document} {id offset : Nat} {e : Element} {sp sp' : Span} {r : Request}
variable {position : Position} {range range' : Range} {links : List LocationLink} {link : LocationLink}
variable {inStartTag : Bool}

theorem exists_ofPosition (h : d.offsetAt position = .ok offset) :
    ∃ r, Request.ofPosition d position = .ok r ∧ r.document = d ∧ r.offset = offset :=
  ⟨_, by rw [Request.ofPosition, h]; rfl, rfl, rfl⟩

theorem pairLink_eq (htag : r.document.tagNameAt? r.offset = some ⟨id, sp, inStartTag⟩)
    (he : r.document.element? id = some e) (hother : nameIn e (!inStartTag) = some sp')
    (hrange : r.document.rangeOf sp = .ok range) (hrange' : r.document.rangeOf sp' = .ok range') :
    pairLink r = .ok [⟨range, r.document.uri, range'⟩] := by
  have htarget : ((r.document.element? id).bind fun e => if inStartTag then e.endTagSpan else e.tagSpan) =
      some sp' := by
    rw [he, Option.bind_some, ← hother]
    cases inStartTag <;> rfl
  simp only [pairLink, htag, htarget, hrange, hrange']
  rfl

theorem exists_of_pairLink (h : pairLink r = .ok links) (hlink : link ∈ links) :
    ∃ id e sp sp' inStartTag, r.document.element? id = some e ∧ nameIn e inStartTag = some sp ∧
      nameIn e (!inStartTag) = some sp' ∧ r.document.rangeOf sp = .ok link.origin ∧
      r.document.rangeOf sp' = .ok link.target ∧ link.targetUri = r.document.uri ∧ links = [link] := by
  cases htag : r.document.tagNameAt? r.offset with
  | none =>
    simp only [pairLink, htag] at h
    obtain rfl := Except.ok.inj h
    cases hlink
  | some name =>
    obtain ⟨id, sp, inStartTag⟩ := name
    obtain ⟨e, he, hspan⟩ := nameIn_of_tagNameAt? htag
    cases hother : nameIn e (!inStartTag) with
    | none =>
      have hnone : ((r.document.element? id).bind fun e => if inStartTag then e.endTagSpan else e.tagSpan) = none := by
        rw [he, Option.bind_some, ← hother]
        cases inStartTag <;> rfl
      simp only [pairLink, htag, hnone] at h
      obtain rfl := Except.ok.inj h
      cases hlink
    | some sp' =>
      have htarget : ((r.document.element? id).bind fun e => if inStartTag then e.endTagSpan else e.tagSpan) =
          some sp' := by
        rw [he, Option.bind_some, ← hother]
        cases inStartTag <;> rfl
      cases horigin : r.document.rangeOf sp with
      | error _ => simp [pairLink, htag, htarget, horigin, bind, Except.bind] at h
      | ok range =>
        cases hrange : r.document.rangeOf sp' with
        | error _ => simp [pairLink, htag, htarget, horigin, hrange, bind, Except.bind] at h
        | ok range' =>
          rw [pairLink_eq htag he hother horigin hrange] at h
          obtain rfl := Except.ok.inj h
          obtain rfl := List.mem_singleton.mp hlink
          exact ⟨id, e, sp, sp', inStartTag, he, hspan, hother, horigin, hrange, rfl, rfl⟩

theorem slice_nameIn (he : (parse text uri).element? id = some e) (hsp : nameIn e inStartTag = some sp)
    (hsp' : nameIn e (!inStartTag) = some sp') : (parse text uri).slice sp = (parse text uri).slice sp' := by
  obtain ⟨n, hn, hne⟩ := exists_node_of_element? he
  have hquotes := quotes_of_mem (Array.mem_of_getElem? hn)
  rw [kind_of_element? hne] at hquotes
  have hname {inStartTag : Bool} {sp : Span} (h : nameIn e inStartTag = some sp) :
      e.tag = some ((parse text uri).slice sp) := by
    cases inStartTag with
    | true => exact hquotes.1 sp h
    | false => exact hquotes.2 sp h
  exact Option.some.inj ((hname hsp).symm.trans (hname hsp'))

/-- **From one tag to the other and back**: where a link leads there is one link, which leads back to where the
first one started; and what stands at both places is the same. -/
theorem definitions_back {cancel : Cancel} (hr : Request.ofPosition (parse text uri) position = .ok r)
    (h : definitions [] r cancel = .ok links) (hlink : link ∈ links) :
    links = [link] ∧ link.targetUri = uri ∧
      (∃ back, Request.ofPosition (parse text uri) link.target.start = .ok back ∧
        ∀ cancel', definitions [] back cancel' = .ok [⟨link.target, uri, link.origin⟩]) ∧
      ∃ sp sp', (parse text uri).spanOf link.origin = .ok sp ∧ (parse text uri).spanOf link.target = .ok sp' ∧
        (parse text uri).slice sp = (parse text uri).slice sp' := by
  have hnone (r : Request) (cancel : Cancel) : definitions [] r cancel = pairLink r := by
    rw [definitions]
    cases pairLink r with
    | error _ => rfl
    | ok links =>
      show Except.ok (links ++ []) = _
      rw [List.append_nil]
  rw [hnone] at h
  obtain ⟨id, e, sp, sp', inStartTag, he, hsp, hsp', horigin, htarget, htargetUri, hlinks⟩ :=
    exists_of_pairLink h hlink
  rw [document_ofPosition hr] at he horigin htarget htargetUri
  obtain ⟨back, hback, hdocument, hoffset⟩ :=
    exists_ofPosition (offsetAt_of_positionAt (positions_of_rangeOf htarget).1)
  refine ⟨hlinks, htargetUri, ⟨back, hback, fun cancel' => ?_⟩, sp, sp', spanOf_of_rangeOf horigin,
    spanOf_of_rangeOf htarget, slice_nameIn he hsp hsp'⟩
  have htag : back.document.tagNameAt? back.offset = some ⟨id, sp', !inStartTag⟩ := by
    rw [hdocument, hoffset]
    exact tagNameAt?_tag he hsp'
  rw [← hdocument] at he horigin htarget
  rw [hnone, pairLink_eq htag he (by rw [Bool.not_not, hsp]) htarget horigin, hdocument]
  rfl

/-- From the end tag behind an unclosed element. -/
theorem definitions_back_end_tag :
    ∃ r links, Request.ofPosition (parse "<a><b></a>" "file:///a.xml") ⟨0, 9⟩ = .ok r ∧
    definitions [] r .never = .ok links ∧
    ⟨⟨⟨0, 8⟩, ⟨0, 9⟩⟩, "file:///a.xml", ⟨⟨0, 1⟩, ⟨0, 2⟩⟩⟩ ∈ links ∧
    ∃ back, Request.ofPosition (parse "<a><b></a>" "file:///a.xml") ⟨0, 1⟩ = .ok back ∧
      definitions [] back .never =
        .ok [⟨⟨⟨0, 1⟩, ⟨0, 2⟩⟩, "file:///a.xml", ⟨⟨0, 8⟩, ⟨0, 9⟩⟩⟩] := by
  have hoffset : (parse "<a><b></a>" "file:///a.xml").offsetAt ⟨0, 9⟩ = .ok 9 := by decide +kernel
  obtain ⟨r, hr, -⟩ := exists_ofPosition hoffset
  have hlinks : ((Request.ofPosition (parse "<a><b></a>" "file:///a.xml") ⟨0, 9⟩).bind fun r =>
      definitions [] r .never) =
        .ok [⟨⟨⟨0, 8⟩, ⟨0, 9⟩⟩, "file:///a.xml", ⟨⟨0, 1⟩, ⟨0, 2⟩⟩⟩] := by decide +kernel
  rw [hr] at hlinks
  refine ⟨r, _, hr, hlinks, List.mem_singleton_self _, ?_⟩
  obtain ⟨-, -, ⟨back, hback, hlink⟩, -⟩ := definitions_back hr hlinks (List.mem_singleton_self _)
  exact ⟨back, hback, hlink .never⟩

end XmlAssist.Navigation
