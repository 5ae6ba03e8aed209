import XmlAssist.Proofs.Edits.Reading
import XmlAssist.Proofs.Lexer.Extent

/-!
# The name of a tag

Behind the bracket of a tag there is its name, with nothing but white space before it. Another name in
the same place is read in the same way: what comes before it is the same (`Leads.upToName`), and
so is what follows, but for the place (`swap_name`).
-/

namespace XmlAssist

open Text (SameTo byte? size isBoundary rest bytesOf)

namespace Lexer

variable {s s' : String} {x y z : Lexer} {l m : List (Token × Lexer)} {i j k : Nat} {b c : UInt8}

/-- The name of a tag may follow. -/
def AwaitsName (x : Lexer) : Prop := x.mode = .afterStartTagOpen ∨ x.mode = .afterEndTagOpen

/-- The name that ends at `j`. -/
def named (x : Lexer) (j : Nat) : Lexed :=
  if x.mode = .afterEndTagOpen then x.emit .endTagName j .inEndTag
  else { x with spaced := false }.emit .startTagName j .inTag

theorem named_lexer (x : Lexer) (i j : Nat) : (x.named i).lexer.goTo j = (x.named j).lexer := by
  unfold named
  split <;> rfl

theorem named_kind (x : Lexer) (i j : Nat) : (x.named i).kind = (x.named j).kind := by
  unfold named
  split <;> rfl

theorem named_fault (x : Lexer) (j : Nat) : (x.named j).fault = none := by
  unfold named
  split <;> rfl

@[simp] theorem named_pos (x : Lexer) (j : Nat) : (x.named j).lexer.pos = j := by
  unfold named
  split <;> rfl

theorem named_mode (x : Lexer) (j : Nat) : (x.named j).lexer.mode ≠ .afterInstructionOpen := by
  unfold named
  split <;> nofun

theorem lt_size_of_name? (h : name? s i = some j) : i < size s := by
  unfold name? at h
  split at h
  · exact Text.lt_size_of_byte? ‹_›
  · cases h

theorem name?_eq_some (h : name? s i = some j) :
    j = Text.skipWhile isName s i ∧ ∃ b, byte? s i = some b ∧ isNameStart b = true := by
  unfold name? at h
  split at h
  · split at h
    · exact ⟨(Option.some.inj h).symm, _, ‹_›, ‹_›⟩
    · cases h
  · cases h

theorem lex_afterStartTagOpen (hlt : x.pos < size s) (hm : x.mode = .afterStartTagOpen) :
    lex s x = startTag s x := by
  rw [lex, if_neg (Nat.not_le_of_lt hlt), hm]

theorem lex_afterEndTagOpen (hlt : x.pos < size s) (hm : x.mode = .afterEndTagOpen) :
    lex s x = endTag s x := by
  rw [lex, if_neg (Nat.not_le_of_lt hlt), hm]

theorem lex_tagName (hx : x.AwaitsName) (h : name? s x.pos = some j) : lex s x = x.named j := by
  have hlt := lt_size_of_name? h
  rcases hx with hx | hx
  · rw [lex_afterStartTagOpen hlt hx, startTag, h, named, hx]
    rfl
  · rw [lex_afterEndTagOpen hlt hx, endTag, h, named, hx]
    rfl

theorem lex_spaceBeforeName (hx : x.AwaitsName) (hb : byte? s x.pos = some b) (hspace : isSpace b = true) :
    lex s x = x.emitSpace (Text.skipWhile isSpace s x.pos) (some .tagNameMustFollowBracket) := by
  have hname : name? s x.pos = none := by
    have hstart : ¬ isNameStart b = true := fun hstart => by
      rw [isSpace_of_isNameStart b hstart] at hspace
      cases hspace
    rw [name?, hb]
    exact if_neg hstart
  have hlt := Text.lt_size_of_byte? hb
  have hahead : x.pos < Text.skipWhile isSpace s x.pos := by
    have hbyte := hb
    rw [Text.byte?_of_lt hlt, Option.some_inj] at hbyte
    have := Text.le_skipWhile isSpace s (x.pos + 1)
    rw [Text.skipWhile, dif_pos hlt, hbyte, if_pos hspace]
    omega
  have hsp : space? s x.pos = some (Text.skipWhile isSpace s x.pos) := if_pos hahead
  rcases hx with hx | hx
  · rw [lex_afterStartTagOpen hlt hx, startTag, hname, hsp]
  · rw [lex_afterEndTagOpen hlt hx, endTag, hname, hsp]

theorem space_of_blank (hlt : x.pos < (lex s x).lexer.pos) (h : (lex s x).kind = .blank) :
    (lex s x).lexer.pos = Text.skipWhile isSpace s x.pos ∧
      ∃ b, byte? s x.pos = some b ∧ isSpace b = true := by
  have hstop := (extent_lex s x).blank h
  rw [hstop] at hlt
  have hbyte : x.pos < size s := by
    refine Nat.lt_of_not_le fun hle => ?_
    rw [Text.skipWhile, dif_neg (Nat.not_lt_of_le hle)] at hlt
    exact Nat.lt_irrefl _ hlt
  exact ⟨hstop, _, Text.byte?_of_lt hbyte,
    Text.byte_of_lt_skipWhile (Nat.le_refl _) hlt (Text.byte?_of_lt hbyte)⟩

theorem kind_startTag_ne (hc : x.Consistent) (hm : x.mode = .afterStartTagOpen)
    (hnone : name? s x.pos = none) : (startTag s x).kind ≠ .startTagName := by
  intro hkind
  have hc' : ({ x with mode := .inTag, spaced := false } : Lexer).Consistent :=
    hc.of_falls (show Falls x false _ from .startTag hm)
  have hgives : Reads _ _ _ _ _ := gives_insideTag (s := s) hc' (.inl rfl)
  rw [startTag, hnone] at hkind
  cases hsp : space? s x.pos with
  | some j => simp [hsp, emitSpace, emit] at hkind
  | none =>
    rw [hsp] at hkind
    dsimp only at hkind
    rw [hkind] at hgives
    cases hgives.mode_of_startTagName

theorem kind_endTag_ne (hc : x.Consistent) (hm : x.mode = .afterEndTagOpen)
    (hnone : name? s x.pos = none) : (endTag s x).kind ≠ .endTagName := by
  intro hkind
  have hc' : ({ x with mode := .inEndTag } : Lexer).Consistent :=
    hc.of_falls (show Falls x x.spaced _ from .endTag hm)
  have hgives : Reads _ _ _ _ _ := gives_insideEndTag (s := s) hc' rfl
  rw [endTag, hnone] at hkind
  cases hsp : space? s x.pos with
  | some j => simp [hsp, emitSpace, emit] at hkind
  | none =>
    rw [hsp] at hkind
    dsimp only at hkind
    rw [hkind] at hgives
    cases hgives.mode_of_endTagName

theorem exists_name (hc : x.Consistent) (hx : isBoundary s x.pos = true) (hlt : x.pos < size s)
    (hkind : (x.step s).1.kind = .startTagName ∨ (x.step s).1.kind = .endTagName) :
    x.AwaitsName ∧ ∃ j, name? s x.pos = some j := by
  have hmode := mode_of_name hc hx hlt
  have hawaits : x.AwaitsName := hkind.imp hmode.1 hmode.2
  refine ⟨hawaits, Option.ne_none_iff_exists'.mp fun hnone => ?_⟩
  have hlex : (x.step s).1.kind = (lex s x).kind := by rw [step_eq_lex hx hlt]
  rw [hlex] at hkind
  rcases hawaits with hm | hm
  · rw [lex_afterStartTagOpen hlt hm] at hkind
    rcases hkind with hkind | hkind
    · exact kind_startTag_ne hc hm hnone hkind
    · cases hm.symm.trans (hmode.2 (by rw [hlex, lex_afterStartTagOpen hlt hm, hkind]))
  · rw [lex_afterEndTagOpen hlt hm] at hkind
    rcases hkind with hkind | hkind
    · cases hm.symm.trans (hmode.1 (by rw [hlex, lex_afterEndTagOpen hlt hm, hkind]))
    · exact kind_endTag_ne hc hm hnone hkind

/-! ## The bracket in front of a name -/

theorem slash_of_endTagOpen (hc : x.Consistent) (h : (lex s x).kind = .endTagOpen) :
    byte? s (x.pos + 1) = some 0x2F := by
  obtain ⟨o, ho, hopens⟩ := opens_lex hc (by rw [h]; rfl)
  have hlit : ∀ o ∈ contentOpeners ++ dtdOpeners, o.2.1 = .endTagOpen → bytesOf o.1 = [0x3C, 0x2F] := by decide
  have hstands := hopens.stands
  rw [hlit o ho (hopens.kind.symm.trans h)] at hstands
  simp only [Text.startsAt, Bool.and_true, Bool.and_eq_true, beq_iff_eq] at hstands
  exact hstands.2

theorem stop_of_startTagOpen (hc : x.Consistent) (h : (lex s x).kind = .startTagOpen) :
    (lex s x).lexer.pos = x.pos + 1 := by
  obtain ⟨o, ho, hopens⟩ := opens_lex hc (by rw [h]; rfl)
  have hlit : ∀ o ∈ contentOpeners ++ dtdOpeners, o.2.1 = .startTagOpen → size o.1 = 1 := by decide
  rw [hopens.stop, hlit o ho (hopens.kind.symm.trans h)]

theorem stop_of_endTagOpen (hc : x.Consistent) (h : (lex s x).kind = .endTagOpen) :
    (lex s x).lexer.pos = x.pos + 2 := by
  obtain ⟨o, ho, hopens⟩ := opens_lex hc (by rw [h]; rfl)
  have hlit : ∀ o ∈ contentOpeners ++ dtdOpeners, o.2.1 = .endTagOpen → size o.1 = 2 := by decide
  rw [hopens.stop, hlit o ho (hopens.kind.symm.trans h)]

theorem step_of_lex (h : x.pos < (lex s x).lexer.pos) :
    x.step s = (⟨(lex s x).kind, x.pos, (lex s x).lexer.pos, (lex s x).fault⟩, (lex s x).lexer) := by
  rw [step, if_neg fun hstuck => Nat.not_le_of_lt h hstuck.2]

/-- White space or a name starts with the byte. -/
def StartsName (b : UInt8) : Prop := isSpace b = true ∨ isNameStart b = true

theorem StartsName.behindBracket (h : StartsName b) : BehindBracket b ∧ b ≠ 0x2F := by
  have hall : ∀ b, isSpace b || isNameStart b → b != 0x21 && b != 0x3F && b != 0x2F := by
    exact Text.forall_byte (by decide +kernel)
  have hb := hall b (Bool.or_eq_true_iff.mpr h)
  simpa [BehindBracket, and_assoc] using hb

/-- The bracket of a tag is the same in both texts, if a name stands behind it in both of them, or white
space. -/
theorem step_tagOpen_sameTo (h : SameTo s s' k) (hz : isBoundary s z.pos = true) (hc : z.Consistent)
    (hopen : (z.step s).1.kind.isTagOpen = true) (hk : (z.step s).2.pos ≤ k)
    (hb : byte? s (z.step s).2.pos = some b) (hstart : StartsName b)
    (hb' : byte? s' (z.step s).2.pos = some c) (hstart' : StartsName c)
    (hsame : isNameStart c = isNameStart b) : z.step s' = z.step s := by
  have hlt : z.pos < size s := by
    refine Nat.lt_of_not_le fun hle => ?_
    rw [step, lex, if_pos hle] at hopen
    simp [Token.Kind.isTagOpen] at hopen
  have hahead := Leads.pos_lt_step hz hlt
  have hzk : z.pos < k := Nat.lt_of_lt_of_le hahead hk
  rw [step_eq_lex hz hlt] at hopen hk hb hb' hahead ⊢
  have hopen : (lex s z).kind.isTagOpen = true := hopen
  have hbracket := byte?_of_opensMarkup (Token.Kind.opensMarkup_of_isTagOpen hopen)
  have hbracket' := (h.byte hzk).trans hbracket
  -- the byte behind the bracket says what tag it is
  obtain ⟨d, d', hd, hd', hn, hn', hslash, hboth⟩ : ∃ d d', byte? s (z.pos + 1) = some d ∧
      byte? s' (z.pos + 1) = some d' ∧ BehindBracket d ∧ BehindBracket d' ∧ (d' = 0x2F ↔ d = 0x2F) ∧
      (d' == 0x2F || isNameStart d') = (d == 0x2F || isNameStart d) := by
    by_cases hend : (lex s z).kind = .endTagOpen
    · have hd := slash_of_endTagOpen hc hend
      have hne : z.pos + 1 < k := by
        refine Nat.lt_of_le_of_ne (Nat.le_trans hahead hk) fun heq => ?_
        have hpos : (lex s z).lexer.pos = z.pos + 1 := Nat.le_antisymm (heq ▸ hk) hahead
        have hb : byte? s (lex s z).lexer.pos = some b := hb
        rw [hpos, hd] at hb
        exact hstart.behindBracket.2 (Option.some.inj hb).symm
      exact ⟨_, _, hd, (h.byte hne).trans hd, ⟨by decide, by decide⟩, ⟨by decide, by decide⟩, Iff.rfl, rfl⟩
    · have hstartTag : (lex s z).kind = .startTagOpen := by
        generalize (lex s z).kind = kind at hopen hend
        cases kind <;> simp_all [Token.Kind.isTagOpen]
      have hpos : (lex s z).lexer.pos = z.pos + 1 := stop_of_startTagOpen hc hstartTag
      have hb : byte? s (lex s z).lexer.pos = some b := hb
      have hb' : byte? s' (lex s z).lexer.pos = some c := hb'
      rw [hpos] at hb hb'
      obtain ⟨hn, hne⟩ := hstart.behindBracket
      obtain ⟨hn', hne'⟩ := hstart'.behindBracket
      refine ⟨b, c, hb, hb', hn, hn', iff_of_false hne' hne, ?_⟩
      rw [beq_false_of_ne hne, beq_false_of_ne hne', hsame]
  have hlex := lex_tagOpen_again (k := z.pos) hc hopen hd hn hc hbracket hd hn rfl
  have hlex' := lex_tagOpen_again (k := z.pos) hc hopen hd hn hc hbracket' hd' hn' hboth
  rw [goTo_self] at hlex hlex'
  have heq : lex s' z = lex s z := by
    rw [hlex, hlex', tagOpen, tagOpen]
    simp only [hslash]
  rw [step_of_lex (heq ▸ hahead), heq]

/-- White space in front of a name is the same in both texts, if no more of it stands in the other one. -/
theorem step_space_sameTo (h : SameTo s s' k) (hz : isBoundary s z.pos = true) (hlt : z.pos < size s)
    (hx : z.AwaitsName) (hblank : (z.step s).1.kind = .blank) (hk : (z.step s).2.pos ≤ k)
    (hb' : byte? s' k = some c) (hspace : isSpace c = false) : z.step s' = z.step s := by
  have hahead := Leads.pos_lt_step hz hlt
  have hzk : z.pos < k := Nat.lt_of_lt_of_le hahead hk
  rw [step_eq_lex hz hlt] at hblank hk hahead ⊢
  obtain ⟨hstop, b, hb, hsp⟩ := space_of_blank (s := s) hahead hblank
  have hk : (lex s z).lexer.pos ≤ k := hk
  rw [hstop] at hk
  have hskip : Text.skipWhile isSpace s' z.pos = Text.skipWhile isSpace s z.pos := by
    rcases Nat.lt_or_eq_of_le hk with hlt | heq
    · exact h.skipWhile_eq (Nat.le_of_lt hzk) hlt
    · rw [heq]
      exact h.skipWhile_eq_self (Nat.le_of_lt hzk) (Nat.le_of_eq heq.symm) hb' hspace
  have heq : lex s' z = lex s z := by
    rw [lex_spaceBeforeName hx hb hsp, lex_spaceBeforeName hx ((h.byte hzk).trans hb) hsp, hskip]
  rw [step_of_lex (heq ▸ hahead), heq]

theorem Leads.spaces_sameTo (h : Leads s z m x) (hsame : SameTo s s' x.pos)
    (hz : isBoundary s z.pos = true) (hx : x.AwaitsName)
    (hblank : ∀ p ∈ m, p.1.kind = .blank ∧ p.2.mode = x.mode) (hmode : z.mode = x.mode)
    (hb' : byte? s' x.pos = some c) (hspace : isSpace c = false) : Leads s' z m x := by
  induction h with
  | here => exact .here _
  | @next z x m hlt hrest ih =>
    have hahead := pos_lt_step hz hlt
    have hnext := boundary_step hz hlt
    have hle := hrest.pos_le hnext
    obtain ⟨hfirst, hothers⟩ := List.forall_mem_cons.mp hblank
    have hstep := step_space_sameTo hsame hz hlt (by rwa [AwaitsName, hmode]) hfirst.1 hle hb' hspace
    rw [← hstep]
    refine .next (Nat.lt_of_lt_of_le (Nat.lt_of_lt_of_le hahead hle) hsame.le') ?_
    rw [hstep]
    exact ih hsame hnext hx hothers hfirst.2 hb'

/-- All that is read up to the name of a tag is the same in a text with another name there. -/
theorem Leads.upToName (h : Leads s .document l x) (hx : x.AwaitsName) (hsame : SameTo s s' x.pos)
    (hb : byte? s x.pos = some b) (hstart : isNameStart b = true) (hb' : byte? s' x.pos = some c)
    (hstart' : isNameStart c = true) : Leads s' .document l x := by
  have hc : document.Consistent := ⟨nofun, nofun, rfl, rfl⟩
  have hzero := Text.isBoundary_zero s
  obtain ⟨mode, kind, hkinds, hmode⟩ :
      ∃ (mode : Mode) (kind : Token.Kind), ((mode = .afterStartTagOpen ∧ kind = .startTagOpen) ∨
      (mode = .afterEndTagOpen ∧ kind = .endTagOpen)) ∧ x.mode = mode := by
    rcases hx with hx | hx
    · exact ⟨_, _, .inl ⟨rfl, rfl⟩, hx⟩
    · exact ⟨_, _, .inr ⟨rfl, rfl⟩, hx⟩
  have hne : document.mode ≠ mode := by rcases hkinds with ⟨rfl, -⟩ | ⟨rfl, -⟩ <;> nofun
  obtain ⟨l₀, z, m, rfl, hz, hlt, hkind, hfirstMode, hm, hblank⟩ := h.before_name hc hzero hkinds hne hmode
  have hzb := hz.boundary hzero
  have hahead := pos_lt_step hzb hlt
  have hnext := boundary_step hzb hlt
  have hle := hm.pos_le hnext
  have hopen : (z.step s).1.kind.isTagOpen = true := by
    rw [hkind]
    rcases hkinds with ⟨-, rfl⟩ | ⟨-, rfl⟩ <;> rfl
  have hbracket : byte? s z.pos = some 0x3C := by
    rw [step_eq_lex hzb hlt] at hopen
    exact byte?_of_opensMarkup (Token.Kind.opensMarkup_of_isTagOpen hopen)
  have hzx : z.pos < x.pos := Nat.lt_of_lt_of_le hahead hle
  have hprefix := hz.upTo (hsame.mono (Nat.le_of_lt hzx)) hbracket ((hsame.byte hzx).trans hbracket)
  -- behind the bracket there is white space, or the name itself
  have hfirst : z.step s' = z.step s := by
    cases hm with
    | here =>
      exact step_tagOpen_sameTo hsame hzb (hz.consistent hc hzero) hopen hle hb (.inr hstart) hb'
        (.inr hstart') (hstart'.trans hstart.symm)
    | next hlt' hrest =>
      have hahead' := pos_lt_step hnext hlt'
      have hx' : (z.step s).2.pos < x.pos :=
        Nat.lt_of_lt_of_le hahead' (hrest.pos_le (boundary_step hnext hlt'))
      have hkind' := (hblank _ List.mem_cons_self).1
      rw [step_eq_lex hnext hlt'] at hkind' hahead'
      obtain ⟨-, d, hd, hspace⟩ := space_of_blank (s := s) hahead' hkind'
      exact step_tagOpen_sameTo hsame hzb (hz.consistent hc hzero) hopen hle hd (.inl hspace)
        ((hsame.byte hx').trans hd) (.inl hspace) rfl
  have hspaces := hm.spaces_sameTo hsame hnext hx
    (fun p hp => ⟨(hblank p hp).1, (hblank p hp).2.trans hmode.symm⟩)
    (hfirstMode.trans hmode.symm) hb' (isSpace_of_isNameStart c hstart')
  refine hprefix.append ?_
  rw [← hfirst]
  exact .next (Nat.lt_of_lt_of_le hzx hsame.le') (hfirst ▸ hspaces)

/-! ## Another name -/

/-- The token of a text, and that of the text with the name `n` for the one at `a`. -/
structure Swapped (s s' : String) (a : Nat) (n : String) (p p' : Token × Lexer) : Prop where
  kind : p'.1.kind = p.1.kind
  inDtd : p'.2.inDtd = p.2.inDtd
  written : p'.1.written s' = if p.1.start = a then n else p.1.written s
  before : p.1.start < a → p'.1 = p.1
  there : p.1.start = a → p'.1.start = a
  behind : a < p.1.start → a < p'.1.start

variable {u v w n : String}

theorem Leads.pos_pos (h : Leads s .document l x) (hx : x.mode ≠ .content) : 0 < x.pos := by
  cases h with
  | here => exact absurd rfl hx
  | next hlt hrest =>
    have hzero := Text.isBoundary_zero s
    exact Nat.lt_of_lt_of_le (pos_lt_step hzero hlt) (hrest.pos_le (boundary_step hzero hlt))

theorem rest_append (u v : String) : rest (u ++ v) (size u) = bytesOf v := by
  rw [rest, Text.bytesOf_append, ← Text.length_bytesOf, List.drop_left]

theorem rest_append_append (u v w : String) : rest (u ++ (v ++ w)) (size u + size v) = bytesOf w := by
  rw [← String.append_assoc, ← Text.size_append, rest_append]

theorem name?_swap (hj : name? (u ++ (v ++ w)) (size u) = some (size u + size v))
    (hn : Written.isName n) : name? (u ++ (n ++ w)) (size u) = some (size u + size n) := by
  obtain ⟨hend, -⟩ := name?_eq_some hj
  have hrest : rest (u ++ (n ++ w)) (size u) = bytesOf n ++ bytesOf w := by
    rw [rest_append, Text.bytesOf_append]
  refine name?_of_rest hrest hn fun c hc => ?_
  rw [← rest_append_append u v w, ← Text.byte?_eq_head?] at hc
  exact Text.skipWhile_stop (hend ▸ hc)

theorem step_name_swap (hx : x.AwaitsName) (hb : isBoundary (u ++ (v ++ w)) x.pos = true)
    (hpos : x.pos = size u) (hj : name? (u ++ (v ++ w)) (size u) = some (size u + size v))
    (hn : Written.isName n) :
    x.step (u ++ (n ++ w)) =
      (⟨(x.step (u ++ (v ++ w))).1.kind, x.pos, size u + size n, none⟩,
        (x.step (u ++ (v ++ w))).2.goTo (size u + size n)) := by
  have hsize := Text.size_pos (ne_empty_of_isName hn)
  have hlex := lex_tagName (x := x) hx (by rw [hpos]; exact hj)
  have hlex' := lex_tagName (x := x) hx (by rw [hpos]; exact name?_swap hj hn)
  have hlt : x.pos < size (u ++ (v ++ w)) := hpos ▸ lt_size_of_name? hj
  rw [step_eq_lex hb hlt, step_of_lex (by rw [hlex', named_pos]; omega), hlex, hlex', named_pos,
    named_fault, named_lexer, named_kind x (size u + size n) (size u + size v)]

/-- **Another name for a tag** leaves all other tokens as they are, but for the place of those behind
it. -/
theorem swap_name {p : Token × Lexer} (hp : p ∈ document.tokens (u ++ (v ++ w)))
    (hkind : p.1.kind = .startTagName ∨ p.1.kind = .endTagName) (hstart : p.1.start = size u)
    (hstop : p.1.stop = size u + size v) (hn : Written.isName n) :
    List.Forall₂ (Swapped (u ++ (v ++ w)) (u ++ (n ++ w)) (size u) n) (document.tokens (u ++ (v ++ w)))
      (document.tokens (u ++ (n ++ w))) := by
  have hzero := Text.isBoundary_zero (u ++ (v ++ w))
  have hc : document.Consistent := ⟨nofun, nofun, rfl, rfl⟩
  obtain ⟨l, x, hl, hlt, rfl⟩ := Leads.exists_of_mem hzero hp
  have hb := hl.boundary hzero
  have hpos : x.pos = size u := (Leads.start_step hb hlt).symm.trans hstart
  obtain ⟨hx, j, hj⟩ := exists_name (hl.consistent hc hzero) hb hlt hkind
  have hend : j = size u + size v := by
    rw [← hstop, step_eq_lex hb hlt, lex_tagName hx hj, named_pos]
  rw [hend] at hj
  have hj' := hj
  rw [hpos] at hj
  obtain ⟨-, b, hbyte, hname⟩ := name?_eq_some hj
  obtain ⟨-, c, hbyte', hname'⟩ := name?_eq_some (name?_swap hj hn)
  have hsame := Text.sameTo_append u (v ++ w) (n ++ w)
  have hsize := Text.size_pos (ne_empty_of_isName hn)
  -- what is read before the name
  have hl' : Leads (u ++ (n ++ w)) .document l x :=
    hl.upToName hx (hpos ▸ hsame) (hpos ▸ hbyte) hname (hpos ▸ hbyte') hname'
  -- what is read behind the name
  have hb' := Leads.boundary_step hb hlt
  have hnext : (x.step (u ++ (v ++ w))).2.pos = size u + size v :=
    (Leads.stop_step hb hlt).symm.trans hstop
  obtain ⟨y, hr, hy⟩ := Leads.exists_end (u ++ (v ++ w)) (x.step (u ++ (v ++ w))).2 hb'
  have hmode : (x.step (u ++ (v ++ w))).2.mode ≠ .afterInstructionOpen := by
    rw [step_eq_lex hb hlt, lex_tagName hx hj']
    exact named_mode x (size u + size v)
  have hu : 0 < size u := hpos ▸ hl.pos_pos (by rcases hx with hx | hx <;> rw [hx] <;> nofun)
  have hsizeAll : size (u ++ (n ++ w)) = size u + size n + size w := by
    rw [Text.size_append, Text.size_append, Nat.add_assoc]
  have hahead := Leads.pos_lt_step hb hlt
  have hbehind : Text.rest (u ++ (v ++ w)) (size u + size v) = Text.rest (u ++ (n ++ w)) (size u + size n) := by
    rw [rest_append_append, rest_append_append]
  obtain ⟨r', z, hr', hz, hrest, rfl⟩ := hr.behind_change hb' hnext hy hbehind (.inr (by omega)) (by omega) hmode
  have hstep := step_name_swap hx hb hpos hj hn
  have hlt' : x.pos < size (u ++ (n ++ w)) := by omega
  have hname : (x.step (u ++ (n ++ w))).2 = (x.step (u ++ (v ++ w))).2.goTo (size u + size n) := by
    rw [hstep]
  have htokens := (hl.append (.next hlt hr)).tokens_eq hzero
  have htokens' := (hl'.append (.next hlt' (hname ▸ hr'))).tokens_eq (Text.isBoundary_zero _)
  rw [htokens, htokens', tokens_at_end (Nat.le_of_eq hy.symm), tokens_at_end (Nat.le_of_eq hz.symm),
    List.append_nil, List.append_nil]
  have hsameBefore := hl.sameTokens_upTo hl' hsame hzero (Text.isBoundary_zero _) (Nat.le_of_eq hpos)
  refine List.rel_append ?_ (.cons ?_ ?_)
  · rw [List.forall₂_same] at hsameBefore ⊢
    intro p hp
    have hbounds := hl.bounds hzero hp
    refine ⟨rfl, rfl, ?_, fun _ => rfl, fun h => h, fun h => h⟩
    rw [if_neg (by omega)]
    exact (hsameBefore p hp).written
  · have hwritten : Text.slice (u ++ (n ++ w)) x.pos (size u + size n) = n :=
      hpos ▸ (Text.stands_append u n w).slice
    rw [hstep]
    refine ⟨rfl, rfl, ?_, fun h => absurd h (by omega), fun _ => hpos, fun h => absurd h (by omega)⟩
    rw [if_pos hstart]
    exact hwritten
  · rw [List.forall₂_map_right_iff, List.forall₂_same] at hrest ⊢
    intro p hp
    have hbounds := hr.bounds hb' hp
    have hshift : (shiftRead (size u + size v) (size u + size n) p).1.start =
        size u + size n + (p.1.start - (size u + size v)) := rfl
    refine ⟨rfl, rfl, ?_, by omega, by omega, by omega⟩
    rw [if_neg (by omega)]
    exact (hrest p hp).written

end Lexer

end XmlAssist
