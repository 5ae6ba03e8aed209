import XmlAssist.Navigation
import XmlAssist.Proofs.Lexer.TagName
import XmlAssist.Proofs.Tree.Inside

/-!
# Renaming an element
-/

namespace XmlAssist

open Node
open Text (size isBoundary)
open Lexer (Leads)

section lists
variable {α β γ : Type} {R : α → β → Prop} {S : β → γ → Prop} {l : List α} {m : List β} {r : List γ}

theorem exists_of_forall₂ (h : List.Forall₂ R l m) {a : α} (ha : a ∈ l) : ∃ b ∈ m, R a b := by
  induction h with
  | nil => cases ha
  | cons hab _ ih =>
    rcases List.mem_cons.mp ha with rfl | ha
    · exact ⟨_, List.mem_cons_self, hab⟩
    · obtain ⟨b, hb, hr⟩ := ih ha
      exact ⟨b, List.mem_cons_of_mem _ hb, hr⟩

theorem forall₂_comp (h : List.Forall₂ R l m) (h' : List.Forall₂ S m r) :
    List.Forall₂ (fun a c => ∃ b, R a b ∧ S b c) l r := by
  induction h generalizing r with
  | nil =>
    cases h'
    exact .nil
  | cons hab _ ih =>
    cases h' with
    | cons hbc hrest => exact .cons ⟨_, hab, hbc⟩ (ih hrest)

end lists

/-- Another tag for one element, if it has one. -/
def Retouch.rename (id : Nat) (name : String) : Retouch :=
  { onTag := fun i t => if i = id then t.map fun _ => name else t }

/-- What is written at a token once the element has another name in both of its tags. -/
def Token.renamed (e : Element) (name : String) (s : String) (t : Token) : String :=
  if (t.kind = .startTagName ∧ e.tagSpan = some t.span) ∨
    (t.kind = .endTagName ∧ e.endTagSpan = some t.span) then name else t.written s

/-- A token, and that of the text with the other name. -/
structure Renamed (e : Element) (name s s' : String) (p p' : Token × Lexer) : Prop where
  kind : p'.1.kind = p.1.kind
  inDtd : p'.2.inDtd = p.2.inDtd
  written : p'.1.written s' = p.1.renamed e name s

namespace Builder

variable {s uri name w : String} {b b' : Builder} {l : List (Token × Lexer)} {y : Lexer}
variable {id c : Nat} {e : Element}

theorem Mirrors.isOpenAs_renamed (h : Mirrors (.rename id name) b b') :
    b'.isOpenAs w id = true ↔ w = name ∧ ∃ v, b.isOpenAs v id = true := by
  have hkind := h.kindOf id
  unfold Builder.isOpenAs
  cases hk : b.kindOf id with
  | element e =>
    obtain ⟨e', hk', he⟩ := (hk ▸ hkind).ofElement
    have htag : e'.tag = (Retouch.rename id name).onTag id e.tag := (Element.mk.inj he).1
    have hclosed : e'.closed = e.closed := (Element.mk.inj he).2.2.2.2.2.2.2.2.1
    rw [hk']
    dsimp only
    rw [htag, hclosed]
    cases e.tag with
    | none => simp [Retouch.rename]
    | some t =>
      simp only [Retouch.rename, if_true, Option.map_some, Bool.and_eq_true, Bool.not_eq_true',
        beq_iff_eq, Option.some.injEq]
      exact ⟨fun ⟨hopen, hw⟩ => ⟨hw.symm, t, hopen, rfl⟩, fun ⟨hw, _, hopen, _⟩ => ⟨hopen, hw.symm⟩⟩
  | _ =>
    have hne := hkind.ne_element (by simp [hk])
    split
    · rename_i e he
      exact absurd he (hne e)
    · simp

section reading
variable (huri : Document.isDtdUri uri = false) (hl : Leads s .document l y)
variable (hfresh : ∀ c e, (Document.parse s uri).element? c = some e → e.tag ≠ some name)
include huri hl hfresh

theorem isOpenAs_fresh : (behind s l (start s false)).isOpenAs name c = false := by
  rw [Bool.eq_false_iff]
  intro hopen
  obtain ⟨e, hkind, -, htag⟩ := element_of_isOpenAs hopen
  obtain ⟨e', he', hbecomes⟩ := exists_element huri hl (core_of_kindOf hkind)
  obtain ⟨hsame, -⟩ := hbecomes.named (by rw [show e.core.tag = _ from htag]; rfl)
  exact hfresh c e' he' (hsame.trans htag)

variable (hlt : y.pos < size s) (he : (Document.parse s uri).element? id = some e)
variable (hm : Mirrors (.rename id name) (behind s l (start s false)) b')
include hlt he hm

/-- End tags belong to the same elements once one of these has another name, in both of its tags. -/
theorem nearest?_renamed (hkind : (y.step s).1.kind = .endTagName) :
    (chain (behind s l (start s false)).nodes (behind s l (start s false)).current).find?
        (b'.isOpenAs (if e.endTagSpan = some (y.step s).1.span then name else (y.step s).1.written s)) =
      (behind s l (start s false)).nearest? ((y.step s).1.written s) := by
  obtain ⟨e₁, he₁, htag, hspan⟩ := ends_of huri hl hlt hkind
  have hother {v : String} {c : Nat} (hc : c ≠ id) :
      b'.isOpenAs v c = (behind s l (start s false)).isOpenAs v c :=
    hm.isOpenAs v c fun _ => if_neg hc
  have hrenamed {v : String} := hm.isOpenAs_renamed (w := v)
  have hnever {c : Nat} := isOpenAs_fresh (c := c) huri hl hfresh
  generalize hb : behind s l (start s false) = b at *
  generalize hw : (y.step s).1.written s = w at *
  rw [nearest?] at he₁ ⊢
  split
  · -- the end tag is that of the renamed element, which is the only one with the new name
    rename_i hown
    have hid := Document.eq_of_endTagSpan he₁ he hspan hown
    cases hfind : (chain b.nodes b.current).find? (b.isOpenAs w) with
    | none =>
      rw [hfind] at hid
      rw [List.find?_eq_none] at hfind ⊢
      intro c hc hopen
      by_cases hne : c = id
      · subst hne
        obtain ⟨-, v, hv⟩ := hrenamed.mp hopen
        obtain ⟨e, hk, -, -⟩ := element_of_isOpenAs hv
        exact absurd (lt_size_of_core (core_of_kindOf hk)) (by rw [← hid]; exact Nat.lt_irrefl _)
      · rw [hother hne, hnever] at hopen
        cases hopen
    | some c =>
      rw [hfind] at hid
      obtain rfl : c = id := hid
      obtain ⟨hopen, inner, outer, hsplit, hinner⟩ := List.find?_eq_some_iff_append.mp hfind
      refine List.find?_eq_some_iff_append.mpr ⟨hrenamed.mpr ⟨rfl, w, hopen⟩, inner, outer, hsplit, ?_⟩
      intro d hd
      have hne : d ≠ c := by
        rintro rfl
        simpa [hopen] using hinner d hd
      rw [hother hne, hnever]
      rfl
  · -- the end tag is that of another element, and so it has another name
    rename_i hown
    have hne : w ≠ name := fun heq => hfresh _ e₁ he₁ (heq ▸ htag)
    have hnot : b'.isOpenAs w id = false := by
      rw [Bool.eq_false_iff, Ne, hrenamed]
      exact fun h => hne h.1
    cases hfind : (chain b.nodes b.current).find? (b.isOpenAs w) with
    | none =>
      rw [List.find?_eq_none] at hfind ⊢
      intro c hc
      by_cases hcid : c = id
      · simp [hcid, hnot]
      · rw [hother hcid]
        exact hfind c hc
    | some c =>
      have hcid : c ≠ id := by
        rintro rfl
        rw [hfind] at he₁
        obtain rfl := Option.some.inj (he.symm.trans he₁)
        exact hown hspan
      obtain ⟨hopen, inner, outer, hsplit, hinner⟩ := List.find?_eq_some_iff_append.mp hfind
      refine List.find?_eq_some_iff_append.mpr ⟨(hother hcid).trans hopen, inner, outer, hsplit, ?_⟩
      intro d hd
      by_cases hdid : d = id
      · rw [hdid, hnot]
        rfl
      · rw [hother hdid]
        exact hinner d hd

theorem suits_renamed : (Retouch.rename id name).Suits (behind s l (start s false)) b' (y.step s).1.kind
    ((y.step s).1.written s) ((y.step s).1.renamed e name s) := by
  have hplain (hs : (y.step s).1.kind ≠ .startTagName) (he : (y.step s).1.kind ≠ .endTagName) :
      (y.step s).1.renamed e name s = (y.step s).1.written s := by
    simp [Token.renamed, hs, he]
  refine ⟨fun i => ?_, fun hkind => ?_, fun hkind => ⟨fun hnone => ?_, ?_⟩, fun hkind => ?_,
    fun hkind => ?_, fun hkind => ?_, fun hkind => ?_⟩
  · simp [Retouch.rename]
  · obtain ⟨e₁, he₁, -, hspan⟩ := names_of huri hl hlt hkind
    simp only [Token.renamed, hkind, Retouch.rename, reduceCtorEq, false_and, or_false, true_and]
    split
    · rename_i hcurrent
      rw [hcurrent, he] at he₁
      obtain rfl := Option.some.inj he₁
      rw [if_pos hspan]
      rfl
    · rename_i hcurrent
      rw [if_neg fun hown => hcurrent (Document.eq_of_tagSpan he₁ he hspan hown)]
  · obtain ⟨e₁, he₁, -, hspan⟩ := ends_of huri hl hlt hkind
    rw [nearest?, hnone] at he₁
    simp only [Token.renamed, hkind, Retouch.rename, reduceCtorEq, false_and, false_or, true_and]
    split
    · rename_i hsize
      rw [Option.getD_none, hsize, he] at he₁
      obtain rfl := Option.some.inj he₁
      rw [if_pos hspan]
      rfl
    · rename_i hsize
      rw [if_neg fun hown => hsize (Document.eq_of_endTagSpan he₁ he hspan hown)]
  · have hnearest := nearest?_renamed huri hl hfresh hlt he hm hkind
    simp only [Token.renamed, hkind, reduceCtorEq, false_and, false_or, true_and]
    exact hnearest
  · exact hplain (by rcases hkind with hkind | hkind <;> simp [hkind])
      (by rcases hkind with hkind | hkind <;> simp [hkind])
  · rw [hplain (by simp [hkind]) (by simp [hkind])]
    rfl
  · intros
    rfl
  · intros
    rw [hplain (by simp [hkind]) (by simp [hkind])]
    rfl

omit hl hlt hm in
theorem outline_renamed {s' : String}
    (hl : List.Forall₂ (Renamed e name s s') (Lexer.document.tokens s) (Lexer.document.tokens s')) (c : Nat) :
    (build s' false)[c]?.map Node.outline =
      (build s false)[c]?.map fun n => (Retouch.rename id name).node c n.outline := by
  obtain ⟨y, hy, hend⟩ := Leads.exists_end s .document (Text.isBoundary_zero s)
  obtain ⟨y', hy', hend'⟩ := Leads.exists_end s' .document (Text.isBoundary_zero s')
  rw [build_eq_behind hy hend, build_eq_behind hy' hend']
  have hm := (mirrored_start (.rename id name) s s').behind hl fun l₁ p l₂ p' b₁' hsplit hp hm => by
    rw [hsplit] at hy
    obtain ⟨z, hz, hrest⟩ := hy.of_append
    cases hrest with
    | next hlt _ =>
      exact ⟨hp.kind, hp.inDtd, hp.written ▸ suits_renamed huri hz hfresh hlt he hm.toMirrors⟩
  exact (hm.toMirrors.atEnd fun i => by simp [Retouch.rename]).node c

end reading

end Builder

namespace Document

variable {text uri name : String} {id : Nat} {e : Element} {sp sp' : Span}

theorem startTagName_iff (h : (parse text uri).element? id = some e) (hsp : e.tagSpan = some sp) {t : Token}
    (ht : t ∈ (parse text uri).tokens) :
    (t.kind = .startTagName ∧ some sp = some t.span) ↔ t.start = sp.start := by
  obtain ⟨t₀, ht₀, hkind, rfl⟩ := exists_startTagName h hsp
  refine ⟨fun ⟨_, hspan⟩ => (congrArg Span.start (Option.some.inj hspan)).symm, fun hstart => ?_⟩
  obtain rfl := eq_of_start ht ht₀ hstart
  exact ⟨hkind, rfl⟩

theorem endTagName_iff (h : (parse text uri).element? id = some e) (hsp : e.endTagSpan = some sp) {t : Token}
    (ht : t ∈ (parse text uri).tokens) :
    (t.kind = .endTagName ∧ some sp = some t.span) ↔ t.start = sp.start := by
  obtain ⟨t₀, ht₀, hkind, rfl⟩ := exists_endTagName h hsp
  refine ⟨fun ⟨_, hspan⟩ => (congrArg Span.start (Option.some.inj hspan)).symm, fun hstart => ?_⟩
  obtain rfl := eq_of_start ht ht₀ hstart
  exact ⟨hkind, rfl⟩

theorem mem_tokens_iff (huri : isDtdUri uri = false) {t : Token} :
    t ∈ (parse text uri).tokens ↔ ∃ p ∈ Lexer.document.tokens text, p.1 = t := by
  rw [tokens_parse, huri]
  exact List.mem_map

theorem renamed_eq (h : (parse text uri).element? id = some e) {t : Token}
    (ht : t ∈ (parse text uri).tokens) : t.renamed e name text =
      if t.start ∈ (e.tagSpan.toList ++ e.endTagSpan.toList).map (·.start) then name
      else t.written text := by
  have hstart : (t.kind = .startTagName ∧ e.tagSpan = some t.span) ↔
      t.start ∈ e.tagSpan.toList.map (·.start) := by
    cases hsp : e.tagSpan with
    | none => simp
    | some sp => simpa [eq_comm] using startTagName_iff h hsp ht
  have hend : (t.kind = .endTagName ∧ e.endTagSpan = some t.span) ↔
      t.start ∈ e.endTagSpan.toList.map (·.start) := by
    cases hsp : e.endTagSpan with
    | none => simp
    | some sp => simpa [eq_comm] using endTagName_iff h hsp ht
  refine if_congr ?_ rfl rfl
  rw [hstart, hend, List.map_append, List.mem_append]

theorem exists_name (h : (parse text uri).element? id = some e)
    (hsp : sp ∈ e.tagSpan.toList ++ e.endTagSpan.toList) : ∃ t ∈ (parse text uri).tokens,
      (t.kind = .startTagName ∨ t.kind = .endTagName) ∧ t.span = sp := by
  rw [List.mem_append, Option.mem_toList, Option.mem_toList] at hsp
  rcases hsp with hsp | hsp
  · obtain ⟨t, ht, hkind, hspan⟩ := exists_startTagName h hsp
    exact ⟨t, ht, .inl hkind, hspan⟩
  · obtain ⟨t, ht, hkind, hspan⟩ := exists_endTagName h hsp
    exact ⟨t, ht, .inr hkind, hspan⟩

section
variable (huri : isDtdUri uri = false) (h : (parse text uri).element? id = some e)
variable (hn : Written.isName name)
include huri h hn

theorem tokens_renamed_one (hspans : e.tagSpan.toList ++ e.endTagSpan.toList = [sp]) :
    List.Forall₂ (Renamed e name text (Text.splice text 0 [(sp, name)])) (Lexer.document.tokens text)
      (Lexer.document.tokens (Text.splice text 0 [(sp, name)])) := by
  have hlies := lies_tagSpan h sp (by simp [hspans])
  obtain ⟨t, ht, hkind, rfl⟩ := exists_name h (show sp ∈ _ by simp [hspans])
  obtain ⟨p, hp, rfl⟩ := (mem_tokens_iff huri).mp ht
  have hrenamed {q : Token × Lexer} (hq : q ∈ Lexer.document.tokens text) :
      q.1.renamed e name text = if q.1.start ∈ (e.tagSpan.toList ++ e.endTagSpan.toList).map (·.start)
        then name else q.1.written text := renamed_eq h ((mem_tokens_iff huri).mpr ⟨q, hq, rfl⟩)
  obtain ⟨u, v, w, rfl, hu, hv⟩ := Text.exists_split hlies.start hlies.stop hlies.start_le
  have hspan : p.1.span = ⟨Text.size u, Text.size u + Text.size v⟩ := congrArg₂ Span.mk hu hv
  have hswap := Lexer.swap_name hp hkind hu hv hn
  rw [hspan, Text.splice_one]
  refine ((List.forall₂_and_left _ _).mpr ⟨fun q hq => hq, hswap⟩).imp fun q q' ⟨hq, hs⟩ => ?_
  refine ⟨hs.kind, hs.inDtd, hs.written.trans ?_⟩
  rw [hrenamed hq, hspans]
  simp [← hu, Token.span]

theorem tokens_renamed_two (hspans : e.tagSpan.toList ++ e.endTagSpan.toList = [sp, sp'])
    (hle : sp.stop ≤ sp'.start) :
    List.Forall₂ (Renamed e name text (Text.splice text 0 [(sp, name), (sp', name)]))
      (Lexer.document.tokens text)
      (Lexer.document.tokens (Text.splice text 0 [(sp, name), (sp', name)])) := by
  have hlies := lies_tagSpan h sp (by simp [hspans])
  have hlies' := lies_tagSpan h sp' (by simp [hspans])
  obtain ⟨t, ht, hkind, rfl⟩ := exists_name h (show sp ∈ _ by simp [hspans])
  obtain ⟨t', ht', hkind', rfl⟩ := exists_name h (show sp' ∈ _ by simp [hspans])
  obtain ⟨p, hp, rfl⟩ := (mem_tokens_iff huri).mp ht
  obtain ⟨p', hp', rfl⟩ := (mem_tokens_iff huri).mp ht'
  have hrenamed {q : Token × Lexer} (hq : q ∈ Lexer.document.tokens text) :
      q.1.renamed e name text = if q.1.start ∈ (e.tagSpan.toList ++ e.endTagSpan.toList).map (·.start)
        then name else q.1.written text := renamed_eq h ((mem_tokens_iff huri).mpr ⟨q, hq, rfl⟩)
  obtain ⟨u, v, w, v', z, rfl, hu, hv, hw, hv'⟩ := Text.exists_split₂ hlies.start hlies.stop hlies'.start
    hlies'.stop hlies.start_le hle hlies'.start_le
  have hlt : p.1.start < p.1.stop := by
    obtain ⟨y, hy, -⟩ := Leads.exists_end _ Lexer.document (Text.isBoundary_zero _)
    exact (hy.bounds (Text.isBoundary_zero _) hp).2.1
  have hspan : p.1.span = ⟨Text.size u, Text.size u + Text.size v⟩ := congrArg₂ Span.mk hu hv
  have hspan' : p'.1.span = ⟨Text.size u + Text.size v + Text.size w,
      Text.size u + Text.size v + Text.size w + Text.size v'⟩ := congrArg₂ Span.mk hw hv'
  have hstart : p.1.start = Text.size u := hu
  have hstop : p.1.stop = Text.size u + Text.size v := hv
  have hsize : Text.size (u ++ (v ++ w)) = Text.size u + Text.size v + Text.size w := by
    rw [Text.size_append, Text.size_append, Nat.add_assoc]
  -- first the name in the end tag, which leaves that in the start tag where it is
  have hfirst := Lexer.swap_name (u := u ++ (v ++ w)) (v := v') (w := z)
    (by simpa only [String.append_assoc] using hp') hkind' (hsize ▸ hw) (hsize ▸ hv') hn
  rw [show u ++ (v ++ w) ++ (v' ++ z) = u ++ (v ++ (w ++ (v' ++ z))) by simp only [String.append_assoc],
    show u ++ (v ++ w) ++ (name ++ z) = u ++ (v ++ (w ++ (name ++ z))) by simp only [String.append_assoc],
    hsize] at hfirst
  obtain ⟨q, hq, hpq⟩ := exists_of_forall₂ hfirst hp
  have hq₁ : q.1 = p.1 := hpq.before (by omega)
  have hsecond := Lexer.swap_name hq (hq₁ ▸ hkind) (hq₁ ▸ hu) (hq₁ ▸ hv) hn
  rw [hspan, hspan', Text.splice_two]
  refine ((List.forall₂_and_left _ _).mpr ⟨fun q hq => hq, forall₂_comp hfirst hsecond⟩).imp ?_
  rintro r r'' ⟨hr, r', h₁, h₂⟩
  refine ⟨h₂.kind.trans h₁.kind, h₂.inDtd.trans h₁.inDtd, h₂.written.trans ?_⟩
  have hplace : r'.1.start = Text.size u ↔ r.1.start = Text.size u := by
    rcases Nat.lt_trichotomy r.1.start (Text.size u + Text.size v + Text.size w) with hr | hr | hr
    · rw [h₁.before hr]
    · have := h₁.there hr
      omega
    · have := h₁.behind hr
      omega
  rw [hrenamed hr, hspans, h₁.written]
  simp only [hplace, hspan, hspan', List.map_cons, List.map_nil, List.mem_cons, List.not_mem_nil, or_false]
  by_cases hr₁ : r.1.start = Text.size u
  · rw [if_pos hr₁, if_pos (.inl hr₁)]
  · by_cases hr₂ : r.1.start = Text.size u + Text.size v + Text.size w
    · rw [if_neg hr₁, if_pos hr₂, if_pos (.inr hr₂)]
    · rw [if_neg hr₁, if_neg hr₂, if_neg (by simp [hr₁, hr₂])]

theorem tokens_renamed (hspans : e.tagSpan.toList ++ e.endTagSpan.toList ≠ []) :
    List.Forall₂ (Renamed e name text
        (Text.splice text 0 ((e.tagSpan.toList ++ e.endTagSpan.toList).map (·, name))))
      (Lexer.document.tokens text)
      (Lexer.document.tokens
        (Text.splice text 0 ((e.tagSpan.toList ++ e.endTagSpan.toList).map (·, name)))) := by
  cases hs : e.tagSpan with
  | none =>
    cases he : e.endTagSpan with
    | none => simp [hs, he] at hspans
    | some sp' => exact tokens_renamed_one huri h hn (by simp [hs, he])
  | some sp =>
    cases he : e.endTagSpan with
    | none => exact tokens_renamed_one huri h hn (by simp [hs, he])
    | some sp' =>
      exact tokens_renamed_two huri h hn (by simp [hs, he]) (tagSpan_before_endTagSpan huri h hs he)

end

theorem element?_of_tagNameAt? {d : Document} {offset : Nat} {tag : TagName}
    (h : d.tagNameAt? offset = some tag) : ∃ e, d.element? tag.element = some e ∧
      tag.span ∈ e.tagSpan.toList ++ e.endTagSpan.toList := by
  obtain ⟨e, he, hspan⟩ := nameIn_of_tagNameAt? h
  refine ⟨e, he, ?_⟩
  generalize tag.inStartTag = inStartTag at hspan
  cases inStartTag with
  | true => exact List.mem_append_left _ (Option.mem_toList.mpr hspan)
  | false => exact List.mem_append_right _ (Option.mem_toList.mpr hspan)

theorem document_ofPosition {d : Document} {position : Position} {r : Request}
    (h : Request.ofPosition d position = .ok r) : r.document = d := by
  unfold Request.ofPosition at h
  cases ho : d.offsetAt position with
  | error _ =>
    rw [ho] at h
    cases h
  | ok offset =>
    rw [ho] at h
    obtain rfl := Except.ok.inj h
    rfl

/-- The ranges of spans that lie in the text. -/
theorem exists_ranges (uri : String) (spans : List Span) (h : ∀ sp ∈ spans, Lies text (Text.size text) sp) :
    ∃ ranges, spans.mapM (parse text uri).rangeOf = .ok ranges ∧
      List.Forall₂ (fun sp r => (parse text uri).rangeOf sp = .ok r) spans ranges := by
  induction spans with
  | nil => exact ⟨[], rfl, .nil⟩
  | cons sp spans ih =>
    obtain ⟨hsp, hspans⟩ := List.forall_mem_cons.mp h
    obtain ⟨r, hr⟩ : ∃ r, (parse text uri).rangeOf sp = .ok r := exists_rangeOf hsp.start hsp.stop
    obtain ⟨ranges, hranges, hall⟩ := ih hspans
    refine ⟨r :: ranges, ?_, .cons hr hall⟩
    rw [List.mapM_cons, hr, hranges]
    rfl

/-- **Renaming an element** keeps the document: the edits give another name to both of its tags, and the
new text has the same nodes with the same parents and children, of the same kinds, closed or
not as before, with the same attributes and the same tags, but for the name of that element. -/
theorem rename_keeps_outline {position : Position} {r : Request} {tag : TagName}
    (huri : isDtdUri uri = false) (hr : Request.ofPosition (parse text uri) position = .ok r)
    (htag : (parse text uri).tagNameAt? r.offset = some tag) (hn : Written.isName name)
    (hfresh : ∀ id e, (parse text uri).element? id = some e → e.tag ≠ some name) :
    ∃ edit text', Navigation.renameEdits [] r name = .ok edit ∧ edit.uri = uri ∧
      (parse text uri).edited edit.edits = .ok text' ∧
      ∀ id, (parse text' uri).nodes[id]?.map Node.outline =
        (parse text uri).nodes[id]?.map fun n => (Retouch.rename tag.element name).node id n.outline := by
  obtain ⟨e, he, hmem⟩ := element?_of_tagNameAt? htag
  have hdocument := document_ofPosition hr
  have hspans : Navigation.tagSpans (parse text uri) tag.element =
      e.tagSpan.toList ++ e.endTagSpan.toList := by
    rw [Navigation.tagSpans, he]
  obtain ⟨ranges, hranges, hall⟩ := exists_ranges uri _ (lies_tagSpan he)
  have hpair : Navigation.pairRanges r = .ok ranges := by
    rw [Navigation.pairRanges, hdocument, htag]
    dsimp only
    rw [hspans, hranges]
  have htokens := tokens_renamed huri he hn (List.ne_nil_of_mem hmem)
  refine ⟨{ uri := (parse text uri).uri, edits := ranges.map fun range => { range, newText := name } }, _,
    ?_, rfl, edited_parse (l := (e.tagSpan.toList ++ e.endTagSpan.toList).map (·, name)) ?_ ?_,
    fun id => ?_⟩
  · rw [Navigation.renameEdits, hpair, hdocument]
    show Except.ok _ = _
    simp [gather]
  · rw [List.forall₂_map_left_iff, List.forall₂_map_right_iff]
    exact hall.imp fun sp range h => ⟨h, rfl⟩
  · rw [List.pairwise_map]
    cases hs : e.tagSpan with
    | none => cases e.endTagSpan <;> simp
    | some sp =>
      cases hs' : e.endTagSpan with
      | none => simp
      | some sp' =>
        have hle := tagSpan_before_endTagSpan huri he hs hs'
        have hlies := lies_tagSpan he sp (by simp [hs])
        simpa using Nat.le_trans hlies.start_le hle
  · have houtline := Builder.outline_renamed huri hfresh he htokens id
    rw [parse, parse, huri]
    exact houtline

/-- Both tags of an element whose child has no end tag. -/
theorem rename_keeps_outline_unclosed : ∃ r,
    Request.ofPosition (parse "<a><c></a>" "file:///a.xml") ⟨0, 8⟩ = .ok r ∧
      (parse "<a><c></a>" "file:///a.xml").tagNameAt? r.offset = some ⟨1, ⟨8, 9⟩, false⟩ ∧
      ∃ edit text', Navigation.renameEdits [] r "long-name" = .ok edit ∧ edit.uri = "file:///a.xml" ∧
        (parse "<a><c></a>" "file:///a.xml").edited edit.edits = .ok text' ∧
        ∀ id, (parse text' "file:///a.xml").nodes[id]?.map Node.outline =
          (parse "<a><c></a>" "file:///a.xml").nodes[id]?.map fun n =>
            (Retouch.rename 1 "long-name").node id n.outline := by
  have hoffset : (parse "<a><c></a>" "file:///a.xml").offsetAt ⟨0, 8⟩ = .ok 8 := by decide +kernel
  have htag : (parse "<a><c></a>" "file:///a.xml").tagNameAt? 8 = some ⟨1, ⟨8, 9⟩, false⟩ := by decide +kernel
  obtain ⟨r, hr, hplace⟩ : ∃ r, Request.ofPosition (parse "<a><c></a>" "file:///a.xml") ⟨0, 8⟩ = .ok r ∧
      r.offset = 8 := by
    rw [Request.ofPosition, hoffset]
    exact ⟨_, rfl, rfl⟩
  have htag : (parse "<a><c></a>" "file:///a.xml").tagNameAt? r.offset = some ⟨1, ⟨8, 9⟩, false⟩ := by
    rw [hplace, htag]
  refine ⟨r, hr, htag, rename_keeps_outline (by decide +kernel) hr htag (by decide) fun id e he => ?_⟩
  have hall : ∀ e ∈ (parse "<a><c></a>" "file:///a.xml").elementRecords, e.tag ≠ some "long-name" := by
    decide +kernel
  exact hall e (mem_elementRecords he)

end Document

end XmlAssist
