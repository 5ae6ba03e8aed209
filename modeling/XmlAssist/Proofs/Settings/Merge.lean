import XmlAssist.Settings

/-!
# What a change of settings does

Whether a change is accepted depends on the change alone (`isOk_merge`): settings are written with
all of their fields, and a value that is not an object is replaced by any other, so what can be read
after a change is the same whatever the settings were. A change that names no file associations
leaves them (`fileAssociations_merge_of_not_names`); one that names some replaces them, whatever
they were (`fileAssociations_merge_of_names`).
-/

namespace XmlAssist

namespace Json

theorem lookup_cons (k key : String) (v : Json) (fields : List (String × Json)) :
    ((key, v) :: fields).lookup k = if k = key then some v else fields.lookup k := by
  by_cases h : k = key
  · simp [h]
  · rw [List.lookup_cons, if_neg h, beq_eq_false_iff_ne.mpr h]

theorem lookup_insertField (key k : String) (v : Json) (fields : List (String × Json)) :
    (insertField key v fields).lookup k = if k = key then some v else fields.lookup k := by
  induction fields with
  | nil => exact lookup_cons k key v []
  | cons field rest ih =>
    obtain ⟨key', v'⟩ := field
    unfold insertField
    split
    · exact lookup_cons ..
    · split
      · rename_i heq
        subst heq
        simp only [lookup_cons]
        split <;> rfl
      · rename_i hne
        rw [lookup_cons, lookup_cons, ih]
        by_cases hk : k = key'
        · subst hk
          rw [if_pos rfl, if_neg (Ne.symm hne), if_pos rfl]
        · rw [if_neg hk, if_neg hk]

theorem lookup_foldl_insertField {k : String} {fields : List (String × Json)}
    (h : (fields.map (·.1)).Nodup) (acc : List (String × Json)) :
    (fields.foldl (fun acc (k, v) => insertField k v acc) acc).lookup k =
      (fields.lookup k).or (acc.lookup k) := by
  induction fields generalizing acc with
  | nil => rfl
  | cons field rest ih =>
    obtain ⟨key, v⟩ := field
    rw [List.map_cons, List.nodup_cons] at h
    rw [List.foldl_cons, ih h.2, lookup_insertField, lookup_cons]
    by_cases hk : k = key
    · have hrest : rest.lookup k = none := by
        rw [List.lookup_eq_none_iff]
        rintro ⟨k', v'⟩ hmem
        simpa [hk] using fun heq => h.1 (List.mem_map.mpr ⟨_, hmem, heq.symm⟩)
      rw [if_pos hk, if_pos hk, hrest]
      rfl
    · rw [if_neg hk, if_neg hk]

theorem exists_mkObj {fields : List (String × Json)} (h : (fields.map (·.1)).Nodup) :
    ∃ sorted, mkObj fields = .obj sorted ∧ ∀ k, sorted.lookup k = fields.lookup k :=
  ⟨_, rfl, fun _ => (lookup_foldl_insertField h []).trans (by simp)⟩

end Json

namespace Settings

variable {ok : Json → Bool} {v w : Json} {key : String} {fields update : List (String × Json)}
  {names : List (String × (Json → Bool))} {vs ws : List (String × Json)}

/-! ## Merging -/

def mergeAll (v : Json) (updates : List Json) : Json := updates.foldl mergeValue v

/-- The values that fields give to a name. -/
def valuesOf (key : String) (fields : List (String × Json)) : List Json :=
  (fields.filter (·.1 == key)).map (·.2)

theorem lookup_mergeFields (h : fields.lookup key = some v) :
    (mergeFields fields update).lookup key = some (mergeAll v (valuesOf key update)) := by
  induction update generalizing fields v with
  | nil =>
    rw [mergeFields, h]
    rfl
  | cons field rest ih =>
    obtain ⟨k, u⟩ := field
    rw [mergeFields]
    by_cases hk : k = key
    · subst hk
      rw [h, ih (v := mergeValue v u) (by simp [Json.lookup_insertField])]
      simp [valuesOf, mergeAll]
    · rw [ih (v := v) (by simp [Json.lookup_insertField, Ne.symm hk, h])]
      simp [valuesOf, hk]

theorem valuesOf_eq_nil : valuesOf key fields = [] ↔ fields.lookup key = none := by
  induction fields with
  | nil => simp [valuesOf]
  | cons field rest ih =>
    obtain ⟨k, u⟩ := field
    rw [Json.lookup_cons]
    by_cases hk : key = k
    · simp [valuesOf, hk]
    · rw [if_neg hk, ← ih]
      simp [valuesOf, Ne.symm hk]

theorem mergeValue_of_atom (hv : ∀ fields, v ≠ .obj fields) (u : Json) : mergeValue v u = u := by
  cases u with
  | obj update =>
    cases v with
    | obj fields => exact absurd rfl (hv fields)
    | _ => rfl
  | _ => rfl

/-! ## Values that no change can tell apart -/

/-- Whatever changes follow, either both values are accepted or none. -/
def Interchangeable (ok : Json → Bool) (v w : Json) : Prop :=
  ∀ updates, ok (mergeAll v updates) = ok (mergeAll w updates)

theorem Interchangeable.mergeAll (h : Interchangeable ok v w) (updates : List Json) :
    Interchangeable ok (mergeAll v updates) (mergeAll w updates) := by
  intro more
  have hboth := h (updates ++ more)
  simpa [Settings.mergeAll] using hboth

theorem interchangeable_atom (hv : ∀ fields, v ≠ .obj fields) (hw : ∀ fields, w ≠ .obj fields)
    (hok : ok v = ok w) : Interchangeable ok v w := by
  rintro (_ | ⟨u, updates⟩)
  · exact hok
  · simp only [mergeAll, List.foldl_cons, mergeValue_of_atom hv, mergeValue_of_atom hw]

/-- The fields of a record are accepted where they are not missing. -/
def takesRecord (fields : List (String × (Json → Bool))) (v : Json) : Bool :=
  match record? (fields.map (·.1)) v with
  | some values => (fields.zip values).all fun (f, v) => (v.map f.2).getD true
  | none => false

theorem takesRecord_obj (names : List (String × (Json → Bool))) (fields : List (String × Json)) :
    takesRecord names (.obj fields) =
      names.all fun f => ((fields.lookup f.1).map f.2).getD true := by
  simp only [takesRecord, record?, List.map_map]
  induction names with
  | nil => rfl
  | cons name names ih =>
    simp only [List.map_cons, List.zip_cons_cons, List.all_cons, ih, Function.comp]

theorem interchangeable_record {fields fields' : List (String × Json)}
    (h : ∀ f ∈ names, ∃ v w, fields.lookup f.1 = some v ∧ fields'.lookup f.1 = some w ∧
      Interchangeable f.2 v w) :
    Interchangeable (takesRecord names) (.obj fields) (.obj fields') := by
  intro updates
  induction updates generalizing fields fields' with
  | nil =>
    show takesRecord names (.obj fields) = takesRecord names (.obj fields')
    rw [takesRecord_obj, takesRecord_obj, Bool.eq_iff_iff, List.all_eq_true, List.all_eq_true]
    refine forall_congr' fun f => forall_congr' fun hf => ?_
    obtain ⟨v, w, hv, hw, hvw⟩ := h f hf
    rw [hv, hw]
    exact Bool.eq_iff_iff.mp (hvw [])
  | cons u updates ih =>
    cases u with
    | obj update =>
      refine ih fun f hf => ?_
      obtain ⟨v, w, hv, hw, hvw⟩ := h f hf
      exact ⟨_, _, lookup_mergeFields hv, lookup_mergeFields hw, hvw.mergeAll _⟩
    -- anything but an object replaces both
    | _ => rfl

/-- Fields of the same names, with values that are interchangeable for what is accepted of each. -/
inductive Agree :
    List (String × (Json → Bool)) → List (String × Json) → List (String × Json) → Prop where
  | nil : Agree [] [] []
  | cons {name : String} {ok : Json → Bool} {names : List (String × (Json → Bool))} {v w : Json}
      {vs ws : List (String × Json)} (head : Interchangeable ok v w) (rest : Agree names vs ws) :
      Agree ((name, ok) :: names) ((name, v) :: vs) ((name, w) :: ws)

theorem Agree.keys (h : Agree names vs ws) :
    vs.map (·.1) = names.map (·.1) ∧ ws.map (·.1) = names.map (·.1) := by
  induction h with
  | nil => exact ⟨rfl, rfl⟩
  | cons _ _ ih => simp [ih]

theorem Agree.lookup (h : Agree names vs ws) (hnodup : (names.map (·.1)).Nodup) :
    ∀ f ∈ names, ∃ v w,
      vs.lookup f.1 = some v ∧ ws.lookup f.1 = some w ∧ Interchangeable f.2 v w := by
  induction h with
  | nil => nofun
  | @cons name ok names v w vs ws head _ ih =>
    rw [List.map_cons, List.nodup_cons] at hnodup
    rintro ⟨k, ok'⟩ hmem
    rcases List.mem_cons.mp hmem with heq | hmem
    · obtain ⟨rfl, rfl⟩ := Prod.mk.inj heq
      exact ⟨v, w, by simp, by simp, head⟩
    · have hne : k ≠ name := fun heq => hnodup.1 (heq ▸ List.mem_map_of_mem (f := (·.1)) hmem)
      simpa [Json.lookup_cons, hne] using ih hnodup.2 (k, ok') hmem

theorem interchangeable_mkObj (h : Agree names vs ws) (hnodup : (names.map (·.1)).Nodup) :
    Interchangeable (takesRecord names) (.mkObj vs) (.mkObj ws) := by
  obtain ⟨vs', hvs, hvsort⟩ := Json.exists_mkObj (h.keys.1 ▸ hnodup)
  obtain ⟨ws', hws, hwsort⟩ := Json.exists_mkObj (h.keys.2 ▸ hnodup)
  rw [hvs, hws]
  refine interchangeable_record fun f hf => ?_
  obtain ⟨v, w, hv, hw, hvw⟩ := h.lookup hnodup f hf
  exact ⟨v, w, (hvsort f.1).trans hv, (hwsort f.1).trans hw, hvw⟩

/-! ## What can be read -/

section read
variable {α β : Type}

/-- The value can be read. -/
def reads (read : Json → Option α) (v : Json) : Bool := (read v).isSome

theorem isSome_bind {x : Option α} {f : α → Option β} {c : Bool} (h : ∀ a, (f a).isSome = c) :
    (x >>= f).isSome = (x.isSome && c) := by
  cases x with
  | none => rfl
  | some a => exact h a

theorem isSome_field (read : Json → Option α) (default : α) (v : Option Json) :
    (field read default v).isSome = (v.map (reads read)).getD true := by
  cases v <;> rfl

theorem length_record? {names : List String} {values : List (Option Json)}
    (h : record? names v = some values) : values.length = names.length := by
  unfold record? at h
  split at h
  · rw [← Option.some.inj h, List.length_map]
  · split at h
    · rw [← Option.some.inj h, List.length_map, List.length_range]
    · cases h
  · cases h

theorem isSome_record (names : List (String × (Json → Bool)))
    {read : List (Option Json) → Option α}
    (h : ∀ values, values.length = names.length →
      (read values).isSome = (names.zip values).all fun (f, v) => (v.map f.2).getD true)
    (v : Json) : (record? (names.map (·.1)) v >>= read).isSome = takesRecord names v := by
  unfold takesRecord
  cases hrecord : record? (names.map (·.1)) v with
  | none => rfl
  | some values => exact h values (by simpa using length_record? hrecord)

end read

theorem reads_completion :
    reads Completion.ofJson? = takesRecord [("autoCloseTags", reads bool?)] :=
  funext <| isSome_record [("autoCloseTags", reads bool?)] fun
    | [a], _ => by
      refine (isSome_bind (c := true) fun _ => rfl).trans ?_
      simp [isSome_field]

theorem reads_hover : reads Hover.ofJson? = takesRecord [("documentation", reads bool?)] :=
  funext <| isSome_record [("documentation", reads bool?)] fun
    | [a], _ => by
      refine (isSome_bind (c := true) fun _ => rfl).trans ?_
      simp [isSome_field]

theorem reads_validation : reads Validation.ofJson? = takesRecord [("enabled", reads bool?),
    ("schema", reads bool?), ("noGrammar", reads (choice? noGrammarTable)),
    ("disallowDocTypeDecl", reads bool?), ("resolveExternalEntities", reads bool?)] :=
  funext <| isSome_record [("enabled", reads bool?), ("schema", reads bool?),
    ("noGrammar", reads (choice? noGrammarTable)), ("disallowDocTypeDecl", reads bool?),
    ("resolveExternalEntities", reads bool?)] fun
    | [a, b, c, d, e], _ => by
      refine (isSome_bind fun _ => isSome_bind fun _ => isSome_bind fun _ =>
        isSome_bind fun _ => isSome_bind (c := true) fun _ => rfl).trans ?_
      simp [isSome_field]

theorem reads_codeLens : reads CodeLens.ofJson? =
    takesRecord [("enabled", reads bool?), ("supportedKinds", reads (list? string?))] :=
  funext <| isSome_record [("enabled", reads bool?), ("supportedKinds", reads (list? string?))] fun
    | [a, b], _ => by
      refine (isSome_bind fun _ => isSome_bind (c := true) fun _ => rfl).trans ?_
      simp [isSome_field]

theorem reads_symbols : reads Symbols.ofJson? =
    takesRecord [("enabled", reads bool?), ("excluded", reads (list? string?))] :=
  funext <| isSome_record [("enabled", reads bool?), ("excluded", reads (list? string?))] fun
    | [a, b], _ => by
      refine (isSome_bind fun _ => isSome_bind (c := true) fun _ => rfl).trans ?_
      simp [isSome_field]

theorem reads_foldings : reads Foldings.ofJson? =
    takesRecord [("includeClosingTagInFold", reads bool?)] :=
  funext <| isSome_record [("includeClosingTagInFold", reads bool?)] fun
    | [a], _ => by
      refine (isSome_bind (c := true) fun _ => rfl).trans ?_
      simp [isSome_field]

/-- The fields of the settings, with what can be read of each. -/
def settingsFields : List (String × (Json → Bool)) := [
  ("completion", reads Completion.ofJson?), ("hover", reads Hover.ofJson?),
  ("validation", reads Validation.ofJson?), ("codeLens", reads CodeLens.ofJson?),
  ("symbols", reads Symbols.ofJson?), ("foldings", reads Foldings.ofJson?),
  ("fileAssociations", reads (list? associationOfJson?)),
  ("markupKind", reads (choice? markupTable))]

theorem reads_settings : reads ofJson? = takesRecord settingsFields :=
  funext <| isSome_record settingsFields fun
    | [a, b, c, d, e, f, g, h], _ => by
      refine (isSome_bind fun _ => isSome_bind fun _ => isSome_bind fun _ => isSome_bind fun _ =>
        isSome_bind fun _ => isSome_bind fun _ => isSome_bind fun _ =>
        isSome_bind (c := true) fun _ => rfl).trans ?_
      simp [isSome_field, settingsFields]

/-! ## Settings as they are written -/

theorem record?_mkObj (names : List String) (h : (fields.map (·.1)).Nodup) :
    record? names (.mkObj fields) = some (names.map fun name => fields.lookup name) := by
  obtain ⟨sorted, hsorted, hlookup⟩ := Json.exists_mkObj h
  simp only [hsorted, record?, hlookup]

theorem mapM_map_eq {α : Type} {read : Json → Option α} {write : α → Json}
    (h : ∀ a, read (write a) = some a) (items : List α) :
    (items.map write).mapM read = some items := by
  induction items with
  | nil => rfl
  | cons a items ih => simp [h, ih]

theorem list?_associations (items : List FileAssociation) :
    list? associationOfJson? (.arr (items.map associationToJson)) = some items := by
  refine mapM_map_eq (fun a => ?_) items
  rw [associationOfJson?, associationToJson, record?_mkObj _ (by simp)]
  rfl

theorem list?_strings (items : List String) :
    list? string? (Json.ofStrings items) = some items := by
  have hread : ∀ a, string? (.str a) = some a := fun _ => rfl
  exact mapM_map_eq hread items

theorem choice?_noGrammar (x : NoGrammar) : choice? noGrammarTable (.str x.label) = some x := by
  cases x <;> rfl

theorem choice?_markup (x : MarkupKind) : choice? markupTable (.str x.label) = some x := by
  cases x <;> rfl

theorem interchangeable_bool (b c : Bool) : Interchangeable (reads bool?) (.bool b) (.bool c) :=
  interchangeable_atom nofun nofun rfl

theorem interchangeable_strings (xs ys : List String) :
    Interchangeable (reads (list? string?)) (.ofStrings xs) (.ofStrings ys) :=
  interchangeable_atom nofun nofun (by simp [reads, list?_strings])

theorem interchangeable_toJson (s t : Settings) :
    Interchangeable (reads ofJson?) s.toJson t.toJson := by
  rw [reads_settings]
  refine interchangeable_mkObj (.cons ?_ <| .cons ?_ <| .cons ?_ <| .cons ?_ <| .cons ?_ <|
    .cons ?_ <| .cons ?_ <| .cons ?_ .nil) (by decide)
  · rw [reads_completion]
    exact interchangeable_mkObj (.cons (interchangeable_bool _ _) .nil) (by decide)
  · rw [reads_hover]
    exact interchangeable_mkObj (.cons (interchangeable_bool _ _) .nil) (by decide)
  · rw [reads_validation]
    refine interchangeable_mkObj (.cons (interchangeable_bool _ _) <|
      .cons (interchangeable_bool _ _) <| .cons ?_ <| .cons (interchangeable_bool _ _) <|
      .cons (interchangeable_bool _ _) .nil) (by decide)
    exact interchangeable_atom nofun nofun (by simp [reads, choice?_noGrammar])
  · rw [reads_codeLens]
    exact interchangeable_mkObj (.cons (interchangeable_bool _ _) <|
      .cons (interchangeable_strings _ _) .nil) (by decide)
  · rw [reads_symbols]
    exact interchangeable_mkObj (.cons (interchangeable_bool _ _) <|
      .cons (interchangeable_strings _ _) .nil) (by decide)
  · rw [reads_foldings]
    exact interchangeable_mkObj (.cons (interchangeable_bool _ _) .nil) (by decide)
  · exact interchangeable_atom nofun nofun (by simp [reads, list?_associations])
  · exact interchangeable_atom nofun nofun (by simp [reads, choice?_markup])

/-! ## Changes -/

def xmlPart (update : Json) : Json := (xmlSection? update).getD update

/-- The change is accepted and says what the file associations are. -/
def namesAssociations (update : Json) : Bool :=
  (merge {} update).toOption.isSome && ((xmlPart update).get? "fileAssociations").isSome

theorem toOption_ofJson (v : Json) : (ofJson v).toOption = ofJson? v := by
  unfold ofJson
  cases ofJson? v <;> rfl

theorem isOk_merge (s t : Settings) (update : Json) :
    (s.merge update).toOption.isSome = (t.merge update).toOption.isSome := by
  unfold merge
  cases (xmlSection? update).getD update with
  | obj fields =>
    simp only [toOption_ofJson]
    exact interchangeable_toJson s t [.obj fields]
  | _ => rfl

theorem list?_of_ofJson? {s : Settings} (hread : ofJson? (.obj fields) = some s)
    (hv : fields.lookup "fileAssociations" = some v) :
    list? associationOfJson? v = some s.fileAssociations := by
  simp only [ofJson?, record?, List.map_cons, List.map_nil, hv, Option.bind_eq_bind,
    Option.bind_some, Option.bind_eq_some_iff, Option.pure_def] at hread
  obtain ⟨_, _, _, _, _, _, _, _, _, _, _, _, associations, hassociations, _, _, hs⟩ := hread
  rw [← Option.some.inj hs]
  exact hassociations

theorem lookup_toJson (s : Settings) : ∃ fields, s.toJson = .obj fields ∧
    fields.lookup "fileAssociations" = some (.arr (s.fileAssociations.map associationToJson)) := by
  refine ⟨_, rfl, ?_⟩
  rw [Json.lookup_foldl_insertField (by simp)]
  rfl

theorem list?_merge {s s' : Settings} {update : Json} (h : s.merge update = .ok s') :
    ∃ changes, xmlPart update = .obj changes ∧
      list? associationOfJson? (mergeAll (.arr (s.fileAssociations.map associationToJson))
        (valuesOf "fileAssociations" changes)) = some s'.fileAssociations := by
  unfold merge at h
  split at h
  · rename_i changes hchanges
    obtain ⟨fields, htext, hfield⟩ := s.lookup_toJson
    have hread : ofJson? (mergeValue s.toJson (.obj changes)) = some s' := by
      rw [← toOption_ofJson, h]
      rfl
    rw [htext] at hread
    exact ⟨changes, hchanges, list?_of_ofJson? hread (lookup_mergeFields hfield)⟩
  · cases h

theorem namesAssociations_eq {s s' : Settings} {update : Json} (h : s.merge update = .ok s')
    (hchanges : xmlPart update = .obj fields) :
    namesAssociations update = (fields.lookup "fileAssociations").isSome := by
  rw [namesAssociations, isOk_merge {} s, h, hchanges]
  rfl

theorem fileAssociations_merge_of_not_names {s s' : Settings} {update : Json}
    (hnames : namesAssociations update = false) (h : s.merge update = .ok s') :
    s'.fileAssociations = s.fileAssociations := by
  obtain ⟨changes, hchanges, hread⟩ := list?_merge h
  rw [namesAssociations_eq h hchanges, Option.isSome_eq_false_iff, Option.isNone_iff_eq_none,
    ← valuesOf_eq_nil] at hnames
  rw [hnames] at hread
  exact Option.some.inj (hread.symm.trans (list?_associations _))

/-- Of the associations before a change that names some nothing is left. -/
theorem fileAssociations_merge_of_names {s s' t t' : Settings} {update : Json}
    (hnames : namesAssociations update = true) (hs : s.merge update = .ok s')
    (ht : t.merge update = .ok t') : s'.fileAssociations = t'.fileAssociations := by
  obtain ⟨changes, hchanges, hsread⟩ := list?_merge hs
  obtain ⟨changes', hchanges', htread⟩ := list?_merge ht
  obtain rfl : changes' = changes := Json.obj.inj (hchanges'.symm.trans hchanges)
  cases hvalues : valuesOf "fileAssociations" changes' with
  | nil =>
    rw [namesAssociations_eq hs hchanges, valuesOf_eq_nil.mp hvalues] at hnames
    cases hnames
  | cons value values =>
    -- a list is not changed field by field, so the first value takes its place
    have hlist (items : List Json) : mergeValue (.arr items) value = value :=
      mergeValue_of_atom (v := .arr items) nofun value
    rw [hvalues, mergeAll, List.foldl_cons, hlist] at hsread htread
    exact Option.some.inj (hsread.symm.trans htread)

end Settings

end XmlAssist
