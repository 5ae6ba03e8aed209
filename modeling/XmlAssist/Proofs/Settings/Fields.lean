import XmlAssist.Proofs.Service.Coherence

/-!
# Fields that a change leaves alone

A change goes through the written form of the settings, which is changed as a value and read back. So what a
change does to a field depends on how the field is written and read (`Codec.Lawful`): written values are read
back, changing them a second time makes no difference, and what stands at a path in them stays if the change
says nothing about that path. Values that are not objects have these laws since any other value replaces them,
and a record has them if its fields do (`Codec.Lawful.record`). Main statement: `merge_laws`.
-/

namespace XmlAssist

namespace Json

theorem path?_cons (key : String) (keys : List String) (v : Json) :
    path? (key :: keys) v = (v.get? key).bind (path? keys) := by
  have hnone (keys : List String) :
      keys.foldl (fun acc key => acc.bind (get? key)) (none : Option Json) = none := by
    induction keys with
    | nil => rfl
    | cons _ keys ih => exact ih
  show keys.foldl _ ((some v).bind (get? key)) = _
  rw [Option.bind_some]
  cases v.get? key with
  | none => exact hnone keys
  | some w => rfl

theorem lookup_of_mem {key : String} {v : Json} {fields : List (String × Json)}
    (h : (fields.map (·.1)).Nodup) (hmem : (key, v) ∈ fields) : fields.lookup key = some v := by
  induction fields with
  | nil => cases hmem
  | cons field rest ih =>
    obtain ⟨k, w⟩ := field
    rw [List.map_cons, List.nodup_cons] at h
    rw [lookup_cons]
    rcases List.mem_cons.mp hmem with heq | hmem
    · obtain ⟨rfl, rfl⟩ := Prod.mk.inj heq
      rw [if_pos rfl]
    · rw [if_neg, ih h.2 hmem]
      exact fun heq => h.1 (List.mem_map.mpr ⟨_, hmem, heq⟩)

end Json

namespace Settings

variable {σ : Type}

/-! ## What a change says about a path -/

def valuesAt : List String → Json → List Json
  | [], v => [v]
  | key :: keys, .obj fields => (valuesOf key fields).flatMap (valuesAt keys)
  | _ :: _, _ => []

/-- Nothing stands at a path, and what stands on the way to it is an object. -/
def Spares (path : List String) (v : Json) : Prop :=
  valuesAt path v = [] ∧ ∀ outer, outer <+: path → ∀ w ∈ valuesAt outer v, ∃ fields, w = .obj fields

theorem not_spares_nil (v : Json) : ¬ Spares [] v := fun h => List.cons_ne_nil _ _ h.1

theorem Spares.cons {key : String} {keys : List String} {v : Json} (h : Spares (key :: keys) v) :
    ∃ fields, v = .obj fields ∧ ∀ w ∈ valuesOf key fields, Spares keys w := by
  obtain ⟨hnone, hobjects⟩ := h
  obtain ⟨fields, rfl⟩ := hobjects [] List.nil_prefix v (List.mem_singleton_self v)
  refine ⟨fields, rfl, fun w hw => ⟨?_, fun outer houter x hx => ?_⟩⟩
  · exact List.flatMap_eq_nil_iff.mp hnone w hw
  · exact hobjects (key :: outer) ((List.prefix_cons_inj key).mpr houter) x (List.mem_flatMap.mpr ⟨w, hw, hx⟩)

/-! ## Changed objects -/

/-- A change that is no object takes the place of any object. All others change the fields of an object, each by
the values that they give to its name. -/
theorem mergeAll_obj (updates : List Json) :
    ((∃ u ∈ updates, ∀ fields, u ≠ .obj fields) ∧ ∃ w, ∀ fields, mergeAll (.obj fields) updates = w) ∨
    ∃ values : String → List Json,
      (∀ key, ∀ w ∈ values key, ∃ update, .obj update ∈ updates ∧ w ∈ valuesOf key update) ∧
      ∀ fields, ∃ fields', mergeAll (.obj fields) updates = .obj fields' ∧
        ∀ key v, fields.lookup key = some v → fields'.lookup key = some (mergeAll v (values key)) := by
  induction updates with
  | nil => exact .inr ⟨fun _ => [], nofun, fun fields => ⟨fields, rfl, fun _ _ h => h⟩⟩
  | cons u updates ih =>
    by_cases hobj : ∃ update, u = .obj update
    · obtain ⟨update, rfl⟩ := hobj
      rcases ih with ⟨⟨u, hu, hatom⟩, w, hw⟩ | ⟨values, hvalues, hfields⟩
      · exact .inl ⟨⟨u, List.mem_cons_of_mem _ hu, hatom⟩, w, fun fields => hw (mergeFields fields update)⟩
      · refine .inr ⟨fun key => valuesOf key update ++ values key, fun key w hw => ?_, fun fields => ?_⟩
        · rcases List.mem_append.mp hw with hw | hw
          · exact ⟨update, List.mem_cons_self, hw⟩
          · obtain ⟨update', hmem, hw⟩ := hvalues key w hw
            exact ⟨update', List.mem_cons_of_mem _ hmem, hw⟩
        · obtain ⟨fields', heq, hlookup⟩ := hfields (mergeFields fields update)
          refine ⟨fields', heq, fun key v hv => ?_⟩
          rw [hlookup key _ (lookup_mergeFields hv), mergeAll, mergeAll, mergeAll, List.foldl_append]
    · have hatom : ∀ fields, u ≠ .obj fields := fun fields heq => hobj ⟨fields, heq⟩
      have hreplace (fields : List (String × Json)) : mergeValue (.obj fields) u = u := by
        cases u with
        | obj update => exact absurd rfl (hatom update)
        | _ => rfl
      refine .inl ⟨⟨u, List.mem_cons_self, hatom⟩, mergeAll u updates, fun fields => ?_⟩
      rw [mergeAll, List.foldl_cons, hreplace]
      rfl

/-! ## Reading and writing -/

/-- How values of a type are read and written. -/
structure Codec (α : Type) where
  read : Json → Option α
  write : α → Json

/-- What holds of a written value that is changed and read back. -/
structure Codec.Lawful (c : Codec σ) : Prop where
  reads_back (a : σ) : c.read (c.write a) = some a
  settles {updates : List Json} {a b : σ} (h : c.read (mergeAll (c.write a) updates) = some b) :
    c.read (mergeAll (c.write b) updates) = some b
  keeps {updates : List Json} {a b : σ} {path : List String} (hspares : ∀ u ∈ updates, Spares path u)
    (h : c.read (mergeAll (c.write a) updates) = some b) : (c.write b).path? path = (c.write a).path? path

theorem Codec.eq_of_nil {c : Codec σ} (hback : ∀ a, c.read (c.write a) = some a) {a b : σ}
    (h : c.read (mergeAll (c.write a) []) = some b) : b = a :=
  Option.some.inj (h.symm.trans (hback a))

theorem Codec.Lawful.atom {c : Codec σ} (hback : ∀ a, c.read (c.write a) = some a)
    (hatom : ∀ a fields, c.write a ≠ .obj fields) : c.Lawful where
  reads_back := hback
  settles {updates a b} h := by
    cases updates with
    | nil =>
      obtain rfl := eq_of_nil hback h
      exact h
    | cons u updates =>
      rw [mergeAll, List.foldl_cons, mergeValue_of_atom (hatom _)] at h ⊢
      exact h
  keeps {updates a b path} hspares h := by
    cases path with
    | nil =>
      cases updates with
      | nil => rw [eq_of_nil hback h]
      | cons u updates => exact absurd (hspares u List.mem_cons_self) (not_spares_nil u)
    | cons key keys =>
      have hnone (a : σ) : (c.write a).get? key = none := by
        cases hwrite : c.write a with
        | obj fields => exact absurd hwrite (hatom a fields)
        | _ => rfl
      rw [Json.path?_cons, Json.path?_cons, hnone, hnone]

/-! ## Records -/

/-- A field of a record. -/
structure Component (σ : Type) where
  name : String
  Value : Type
  codec : Codec Value
  get : σ → Value

/-- Values are written with all of their fields, and read field by field. -/
structure Codec.IsRecord (c : Codec σ) (components : List (Component σ)) : Prop where
  nodup : (components.map (·.name)).Nodup
  write_eq (a : σ) : c.write a = .mkObj (components.map fun k => (k.name, k.codec.write (k.get a)))
  read_iff {fields : List (String × Json)} (h : ∀ k ∈ components, (fields.lookup k.name).isSome) (a : σ) :
    c.read (.obj fields) = some a ↔ ∀ k ∈ components, (fields.lookup k.name).bind k.codec.read = some (k.get a)

namespace Codec.IsRecord

variable {c : Codec σ} {components : List (Component σ)}

theorem exists_write (h : c.IsRecord components) (a : σ) : ∃ fields, c.write a = .obj fields ∧
    (∀ k ∈ components, fields.lookup k.name = some (k.codec.write (k.get a))) ∧
    ∀ key, (∀ k ∈ components, k.name ≠ key) → fields.lookup key = none := by
  have hnodup : ((components.map fun k => (k.name, k.codec.write (k.get a))).map (·.1)).Nodup := by
    rw [List.map_map]
    exact h.nodup
  obtain ⟨fields, heq, hlookup⟩ := Json.exists_mkObj hnodup
  refine ⟨fields, (h.write_eq a).trans heq, fun k hk => ?_, fun key hkey => ?_⟩
  · rw [hlookup]
    exact Json.lookup_of_mem hnodup (List.mem_map.mpr ⟨k, hk, rfl⟩)
  · rw [hlookup, List.lookup_eq_none_iff]
    rintro _ hmem
    obtain ⟨k, hk, rfl⟩ := List.mem_map.mp hmem
    exact bne_iff_ne.mpr (Ne.symm (hkey k hk))

theorem read_changed (h : c.IsRecord components) {updates : List Json} {values : String → List Json}
    (hvalues : ∀ fields, ∃ fields', mergeAll (.obj fields) updates = .obj fields' ∧
      ∀ key v, fields.lookup key = some v → fields'.lookup key = some (mergeAll v (values key))) (a b : σ) :
    c.read (mergeAll (c.write a) updates) = some b ↔
      ∀ k ∈ components, k.codec.read (mergeAll (k.codec.write (k.get a)) (values k.name)) = some (k.get b) := by
  obtain ⟨fields, hwrite, hfields, -⟩ := h.exists_write a
  obtain ⟨fields', heq, hlookup⟩ := hvalues fields
  have hfields' (k : Component σ) (hk : k ∈ components) :
      fields'.lookup k.name = some (mergeAll (k.codec.write (k.get a)) (values k.name)) :=
    hlookup _ _ (hfields k hk)
  rw [hwrite, heq, h.read_iff fun k hk => by rw [hfields' k hk]; rfl]
  refine forall₂_congr fun k hk => ?_
  rw [hfields' k hk, Option.bind_some]

theorem reads_back (h : c.IsRecord components) (hlawful : ∀ k ∈ components, k.codec.Lawful) (a : σ) :
    c.read (c.write a) = some a := by
  obtain ⟨fields, hwrite, hfields, -⟩ := h.exists_write a
  rw [hwrite, h.read_iff fun k hk => by rw [hfields k hk]; rfl]
  intro k hk
  rw [hfields k hk, Option.bind_some]
  exact (hlawful k hk).reads_back _

end Codec.IsRecord

/-- A record is lawful if its fields are. -/
theorem Codec.Lawful.record {c : Codec σ} {components : List (Component σ)} (h : c.IsRecord components)
    (hlawful : ∀ k ∈ components, k.codec.Lawful) : c.Lawful where
  reads_back := h.reads_back hlawful
  settles {updates a b} hread := by
    rcases mergeAll_obj updates with ⟨-, w, hw⟩ | ⟨values, -, hvalues⟩
    · obtain ⟨fields, hwrite, -⟩ := h.exists_write a
      obtain ⟨fields', hwrite', -⟩ := h.exists_write b
      rw [hwrite, hw] at hread
      rw [hwrite', hw, hread]
    · rw [h.read_changed hvalues] at hread ⊢
      exact fun k hk => (hlawful k hk).settles (hread k hk)
  keeps {updates a b path} hspares hread := by
    cases path with
    | nil =>
      cases updates with
      | nil => rw [eq_of_nil (h.reads_back hlawful) hread]
      | cons u updates => exact absurd (hspares u List.mem_cons_self) (not_spares_nil u)
    | cons key keys =>
      rcases mergeAll_obj updates with ⟨⟨u, hu, hatom⟩, -⟩ | ⟨values, hmem, hvalues⟩
      · obtain ⟨fields, heq, -⟩ := (hspares u hu).cons
        exact absurd heq (hatom fields)
      · obtain ⟨fields, hwrite, hfields, hnone⟩ := h.exists_write a
        obtain ⟨fields', hwrite', hfields', hnone'⟩ := h.exists_write b
        rw [Json.path?_cons, Json.path?_cons, hwrite, hwrite', Json.get?, Json.get?]
        by_cases hkey : ∃ k ∈ components, k.name = key
        · obtain ⟨k, hk, rfl⟩ := hkey
          rw [hfields k hk, hfields' k hk, Option.bind_some, Option.bind_some]
          refine (hlawful k hk).keeps (fun w hw => ?_) ((h.read_changed hvalues a b).mp hread k hk)
          obtain ⟨update, hu, hw⟩ := hmem _ w hw
          obtain ⟨fields, heq, hinner⟩ := (hspares _ hu).cons
          exact hinner w (Json.obj.inj heq ▸ hw)
        · have hno : ∀ k ∈ components, k.name ≠ key := fun k hk heq => hkey ⟨k, hk, heq⟩
          rw [hnone key hno, hnone' key hno]

/-! ## The settings -/

section arity
variable {α β : Type} {c : Codec σ} {name name' : String} {first : Codec α} {second : Codec β}

theorem Codec.Lawful.ofOne (default : α) (get : σ → α) (make : α → σ) (hfirst : first.Lawful)
    (hread : ∀ v, c.read v = (record? [name] v).bind fun
      | [a] => (field first.read default a).bind fun x => some (make x)
      | _ => none)
    (hwrite : ∀ a, c.write a = .mkObj [(name, first.write (get a))])
    (hmake : ∀ x a, make x = a ↔ x = get a) : c.Lawful := by
  have hrecord : c.IsRecord [⟨name, α, first, get⟩] := by
    refine ⟨by simp, hwrite, fun {fields} h a => ?_⟩
    obtain ⟨v, hv⟩ := Option.isSome_iff_exists.mp (h _ List.mem_cons_self)
    rw [hread]
    simp only [record?, List.map_cons, List.map_nil, List.mem_singleton, forall_eq, hv, field, Option.bind_some]
    simp only [Option.bind_eq_some_iff, Option.some.injEq, hmake, exists_eq_right]
  exact .record hrecord fun k hk => List.mem_singleton.mp hk ▸ hfirst

theorem Codec.Lawful.ofTwo (default : α) (default' : β) (get : σ → α) (get' : σ → β) (make : α → β → σ)
    (hfirst : first.Lawful) (hsecond : second.Lawful) (hne : name ≠ name')
    (hread : ∀ v, c.read v = (record? [name, name'] v).bind fun
      | [a, b] => (field first.read default a).bind fun x =>
          (field second.read default' b).bind fun y => some (make x y)
      | _ => none)
    (hwrite : ∀ a, c.write a = .mkObj [(name, first.write (get a)), (name', second.write (get' a))])
    (hmake : ∀ x y a, make x y = a ↔ x = get a ∧ y = get' a) : c.Lawful := by
  have hrecord : c.IsRecord [⟨name, α, first, get⟩, ⟨name', β, second, get'⟩] := by
    refine ⟨by simpa using hne, hwrite, fun {fields} h a => ?_⟩
    obtain ⟨v, hv⟩ := Option.isSome_iff_exists.mp (h _ List.mem_cons_self)
    obtain ⟨w, hw⟩ := Option.isSome_iff_exists.mp (h _ (List.mem_cons_of_mem _ List.mem_cons_self))
    rw [hread]
    simp only [record?, List.map_cons, List.map_nil, List.forall_mem_cons, List.not_mem_nil, false_implies,
      implies_true, and_true, hv, hw, field, Option.bind_some]
    simp only [Option.bind_eq_some_iff, Option.some.injEq, hmake]
    constructor
    · rintro ⟨_, hx, _, hy, rfl, rfl⟩
      exact ⟨hx, hy⟩
    · rintro ⟨hx, hy⟩
      exact ⟨_, hx, _, hy, rfl, rfl⟩
  refine .record hrecord fun k hk => ?_
  rcases List.mem_cons.mp hk with rfl | hk
  · exact hfirst
  · exact List.mem_singleton.mp hk ▸ hsecond

end arity

def boolCodec : Codec Bool := ⟨bool?, .bool⟩

def stringsCodec : Codec (List String) := ⟨list? string?, .ofStrings⟩

def noGrammarCodec : Codec NoGrammar := ⟨choice? noGrammarTable, fun x => .str x.label⟩

def markupCodec : Codec MarkupKind := ⟨choice? markupTable, fun x => .str x.label⟩

def associationsCodec : Codec (List FileAssociation) :=
  ⟨list? associationOfJson?, fun items => .arr (items.map associationToJson)⟩

def completionCodec : Codec Completion :=
  ⟨Completion.ofJson?, fun x => .mkObj [("autoCloseTags", .bool x.autoCloseTags)]⟩

def hoverCodec : Codec Hover := ⟨Hover.ofJson?, fun x => .mkObj [("documentation", .bool x.documentation)]⟩

def validationCodec : Codec Validation :=
  ⟨Validation.ofJson?, fun x => .mkObj [
    ("enabled", .bool x.enabled),
    ("schema", .bool x.schema),
    ("noGrammar", .str x.noGrammar.label),
    ("disallowDocTypeDecl", .bool x.disallowDoctype),
    ("resolveExternalEntities", .bool x.resolveExternalEntities)]⟩

def codeLensCodec : Codec CodeLens :=
  ⟨CodeLens.ofJson?, fun x => .mkObj [
    ("enabled", .bool x.enabled), ("supportedKinds", .ofStrings x.supportedKinds)]⟩

def symbolsCodec : Codec Symbols :=
  ⟨Symbols.ofJson?, fun x => .mkObj [("enabled", .bool x.enabled), ("excluded", .ofStrings x.excluded)]⟩

def foldingsCodec : Codec Foldings :=
  ⟨Foldings.ofJson?, fun x => .mkObj [("includeClosingTagInFold", .bool x.includeClosingTag)]⟩

def codec : Codec Settings := ⟨ofJson?, toJson⟩

theorem lawful_bool : boolCodec.Lawful := .atom (fun _ => rfl) nofun

theorem lawful_strings : stringsCodec.Lawful := .atom list?_strings nofun

theorem lawful_noGrammar : noGrammarCodec.Lawful := .atom choice?_noGrammar nofun

theorem lawful_markup : markupCodec.Lawful := .atom choice?_markup nofun

theorem lawful_associations : associationsCodec.Lawful := .atom list?_associations nofun

theorem lawful_completion : completionCodec.Lawful :=
  .ofOne true (·.autoCloseTags) (fun x => ⟨x⟩) lawful_bool (fun _ => rfl) (fun _ => rfl)
    fun _ a => by cases a; simp

theorem lawful_hover : hoverCodec.Lawful :=
  .ofOne true (·.documentation) (fun x => ⟨x⟩) lawful_bool (fun _ => rfl) (fun _ => rfl)
    fun _ a => by cases a; simp

theorem lawful_validation : validationCodec.Lawful := by
  have hrecord : validationCodec.IsRecord [⟨"enabled", Bool, boolCodec, (·.enabled)⟩,
      ⟨"schema", Bool, boolCodec, (·.schema)⟩,
      ⟨"noGrammar", NoGrammar, noGrammarCodec, (·.noGrammar)⟩,
      ⟨"disallowDocTypeDecl", Bool, boolCodec, (·.disallowDoctype)⟩,
      ⟨"resolveExternalEntities", Bool, boolCodec, (·.resolveExternalEntities)⟩] := by
    refine ⟨by decide, fun _ => rfl, fun {fields} h a => ?_⟩
    simp only [List.forall_mem_cons, List.not_mem_nil, false_implies, implies_true, and_true,
      Option.isSome_iff_exists] at h ⊢
    obtain ⟨⟨_, h0⟩, ⟨_, h1⟩, ⟨_, h2⟩, ⟨_, h3⟩, ⟨_, h4⟩⟩ := h
    simp only [validationCodec, Validation.ofJson?, record?, List.map_cons, List.map_nil, h0, h1, h2, h3, h4, field,
      Option.bind_eq_bind, Option.bind_some, Option.bind_eq_some_iff, Option.pure_def, Option.some.injEq]
    constructor
    · rintro ⟨_, ha, _, hb, _, hc, _, hd, _, he, rfl⟩
      exact ⟨ha, hb, hc, hd, he⟩
    · rintro ⟨ha, hb, hc, hd, he⟩
      exact ⟨_, ha, _, hb, _, hc, _, hd, _, he, rfl⟩
  exact .record hrecord (by simp [lawful_bool, lawful_noGrammar])

theorem lawful_codeLens : codeLensCodec.Lawful :=
  .ofTwo false [] (·.enabled) (·.supportedKinds) (fun x y => ⟨x, y⟩) lawful_bool lawful_strings (by decide)
    (fun _ => rfl) (fun _ => rfl) fun _ _ a => by cases a; simp

theorem lawful_symbols : symbolsCodec.Lawful :=
  .ofTwo true [] (·.enabled) (·.excluded) (fun x y => ⟨x, y⟩) lawful_bool lawful_strings (by decide)
    (fun _ => rfl) (fun _ => rfl) fun _ _ a => by cases a; simp

theorem lawful_foldings : foldingsCodec.Lawful :=
  .ofOne false (·.includeClosingTag) (fun x => ⟨x⟩) lawful_bool (fun _ => rfl) (fun _ => rfl)
    fun _ a => by cases a; simp

theorem lawful : codec.Lawful := by
  have hrecord : codec.IsRecord [⟨"completion", Completion, completionCodec, (·.completion)⟩,
      ⟨"hover", Hover, hoverCodec, (·.hover)⟩,
      ⟨"validation", Validation, validationCodec, (·.validation)⟩,
      ⟨"codeLens", CodeLens, codeLensCodec, (·.codeLens)⟩,
      ⟨"symbols", Symbols, symbolsCodec, (·.symbols)⟩,
      ⟨"foldings", Foldings, foldingsCodec, (·.foldings)⟩,
      ⟨"fileAssociations", List FileAssociation, associationsCodec, (·.fileAssociations)⟩,
      ⟨"markupKind", MarkupKind, markupCodec, (·.markupKind)⟩] := by
    refine ⟨by decide, fun _ => rfl, fun {fields} h a => ?_⟩
    simp only [List.forall_mem_cons, List.not_mem_nil, false_implies, implies_true, and_true,
      Option.isSome_iff_exists] at h ⊢
    obtain ⟨⟨_, h0⟩, ⟨_, h1⟩, ⟨_, h2⟩, ⟨_, h3⟩, ⟨_, h4⟩, ⟨_, h5⟩, ⟨_, h6⟩,
      ⟨_, h7⟩⟩ := h
    simp only [codec, ofJson?, record?, List.map_cons, List.map_nil, h0, h1, h2, h3, h4, h5, h6, h7, field,
      Option.bind_eq_bind, Option.bind_some, Option.bind_eq_some_iff, Option.pure_def, Option.some.injEq]
    constructor
    · rintro ⟨_, ha, _, hb, _, hc, _, hd, _, he, _, hf, _, hg, _, hh, rfl⟩
      exact ⟨ha, hb, hc, hd, he, hf, hg, hh⟩
    · rintro ⟨ha, hb, hc, hd, he, hf, hg, hh⟩
      exact ⟨_, ha, _, hb, _, hc, _, hd, _, he, _, hf, _, hg, _, hh, rfl⟩
  exact .record hrecord (by
    simp [lawful_completion, lawful_hover, lawful_validation, lawful_codeLens, lawful_symbols, lawful_foldings,
      lawful_associations, lawful_markup])

/-! ## Fields -/

/-- A field of the settings, or of one of their parts. -/
inductive Field where
  | completion | autoCloseTags
  | hover | documentation
  | validation | validationEnabled | schema | noGrammar | disallowDoctype | resolveExternalEntities
  | codeLens | codeLensEnabled | supportedKinds
  | symbols | symbolsEnabled | excluded
  | foldings | includeClosingTag
  | fileAssociations
  | markupKind
deriving DecidableEq, Repr

namespace Field

def path : Field → List String
  | completion => ["completion"]
  | autoCloseTags => ["completion", "autoCloseTags"]
  | hover => ["hover"]
  | documentation => ["hover", "documentation"]
  | validation => ["validation"]
  | validationEnabled => ["validation", "enabled"]
  | schema => ["validation", "schema"]
  | noGrammar => ["validation", "noGrammar"]
  | disallowDoctype => ["validation", "disallowDocTypeDecl"]
  | resolveExternalEntities => ["validation", "resolveExternalEntities"]
  | codeLens => ["codeLens"]
  | codeLensEnabled => ["codeLens", "enabled"]
  | supportedKinds => ["codeLens", "supportedKinds"]
  | symbols => ["symbols"]
  | symbolsEnabled => ["symbols", "enabled"]
  | excluded => ["symbols", "excluded"]
  | foldings => ["foldings"]
  | includeClosingTag => ["foldings", "includeClosingTagInFold"]
  | fileAssociations => ["fileAssociations"]
  | markupKind => ["markupKind"]

def Value : Field → Type
  | completion => Completion
  | hover => Hover
  | validation => Validation
  | noGrammar => NoGrammar
  | codeLens => CodeLens
  | symbols => Symbols
  | foldings => Foldings
  | supportedKinds | excluded => List String
  | fileAssociations => List FileAssociation
  | markupKind => MarkupKind
  | autoCloseTags | documentation | validationEnabled | schema | disallowDoctype | resolveExternalEntities
  | codeLensEnabled | symbolsEnabled | includeClosingTag => Bool

def codec : (field : Field) → Codec field.Value
  | completion => completionCodec
  | hover => hoverCodec
  | validation => validationCodec
  | noGrammar => noGrammarCodec
  | codeLens => codeLensCodec
  | symbols => symbolsCodec
  | foldings => foldingsCodec
  | supportedKinds | excluded => stringsCodec
  | fileAssociations => associationsCodec
  | markupKind => markupCodec
  | autoCloseTags | documentation | validationEnabled | schema | disallowDoctype | resolveExternalEntities
  | codeLensEnabled | symbolsEnabled | includeClosingTag => boolCodec

def value (s : Settings) : (field : Field) → field.Value
  | completion => s.completion
  | autoCloseTags => s.completion.autoCloseTags
  | hover => s.hover
  | documentation => s.hover.documentation
  | validation => s.validation
  | validationEnabled => s.validation.enabled
  | schema => s.validation.schema
  | noGrammar => s.validation.noGrammar
  | disallowDoctype => s.validation.disallowDoctype
  | resolveExternalEntities => s.validation.resolveExternalEntities
  | codeLens => s.codeLens
  | codeLensEnabled => s.codeLens.enabled
  | supportedKinds => s.codeLens.supportedKinds
  | symbols => s.symbols
  | symbolsEnabled => s.symbols.enabled
  | excluded => s.symbols.excluded
  | foldings => s.foldings
  | includeClosingTag => s.foldings.includeClosingTag
  | fileAssociations => s.fileAssociations
  | markupKind => s.markupKind

theorem lawful_codec (field : Field) : field.codec.Lawful := by
  cases field
  case completion => exact lawful_completion
  case hover => exact lawful_hover
  case validation => exact lawful_validation
  case noGrammar => exact lawful_noGrammar
  case codeLens => exact lawful_codeLens
  case symbols => exact lawful_symbols
  case foldings => exact lawful_foldings
  case supportedKinds | excluded => exact lawful_strings
  case fileAssociations => exact lawful_associations
  case markupKind => exact lawful_markup
  all_goals exact lawful_bool

theorem path?_toJson (s : Settings) (field : Field) :
    s.toJson.path? field.path = some (field.codec.write (field.value s)) := by
  cases field <;> rfl

theorem value_eq_of_path? {s s' : Settings} {field : Field}
    (h : s'.toJson.path? field.path = s.toJson.path? field.path) : field.value s' = field.value s := by
  rw [path?_toJson, path?_toJson] at h
  have hread := congrArg field.codec.read (Option.some.inj h)
  rw [field.lawful_codec.reads_back, field.lawful_codec.reads_back] at hread
  exact Option.some.inj hread

end Field

/-! ## Changes of settings -/

theorem merge_eq_ok_iff {s s' : Settings} {update : Json} : s.merge update = .ok s' ↔
    ∃ changes, xmlPart update = .obj changes ∧
      codec.read (mergeAll (codec.write s) [xmlPart update]) = some s' := by
  have hok (v : Json) : ofJson v = .ok s' ↔ ofJson? v = some s' := by
    unfold ofJson
    cases ofJson? v <;> simp
  unfold merge
  rw [← xmlPart]
  cases xmlPart update with
  | obj changes =>
    refine (hok _).trans ⟨fun h => ⟨changes, rfl, h⟩, fun ⟨_, _, h⟩ => h⟩
  | _ => exact ⟨nofun, nofun⟩

/-- Refused settings are kept nowhere. Accepted ones may be given again, and they leave every field of which
they say nothing as it was; so does a change without fields. -/
theorem merge_laws (s : Settings) (update : Json) :
    (∀ e, s.merge update = .error e →
      (∀ service : Service, service.settings = s → service.after (.configure update) = service) ∧
      ∀ (registry : Registry) (ext : Nat), (registry.grammarList ext).settings = s →
        registry.configureGrammars ext update = registry) ∧
    (∀ s', s.merge update = .ok s' → s'.merge update = .ok s' ∧
      ∀ field : Field, Spares field.path (xmlPart update) → field.value s' = field.value s) ∧
    s.merge (.obj []) = .ok s := by
  refine ⟨fun e he => ⟨fun service hs => ?_, fun registry ext hs => ?_⟩, fun s' hs' => ?_, ?_⟩
  · subst hs
    rw [Service.after, Service.configure, he]
    rfl
  · subst hs
    rw [Registry.configureGrammars, he]
  · obtain ⟨changes, hchanges, hread⟩ := merge_eq_ok_iff.mp hs'
    refine ⟨merge_eq_ok_iff.mpr ⟨changes, hchanges, lawful.settles hread⟩, fun field hspares => ?_⟩
    exact Field.value_eq_of_path? (lawful.keeps (List.forall_mem_singleton.mpr hspares) hread)
  · exact merge_eq_ok_iff.mpr ⟨[], rfl, lawful.reads_back s⟩

end Settings

end XmlAssist
