import SlotQuery.Proofs.Fleet.Candidates

/-!
# Tag fields

The tags of a member are written into one map, under up to four names each. As long as the tags of the
member and of the network have numbers of their own, and no tag is named like the number of another, no
name is that of two tags (`TagsApart.tag_eq`), so no field is written with two texts
(`TagsApart.text_eq`) and the order of the tags does not matter. Main statement:
`tagFields_follow_record`.
-/

namespace SlotQuery

/-! ## Entries written one after the other -/

namespace TextMap

variable {α : Type} {m : TextMap α} {es : List (String × α)} {key : String} {value : α}

/-- The map with the entries, the later ones in place of the earlier ones. -/
def insertAll (m : TextMap α) (es : List (String × α)) : TextMap α :=
  es.foldl (fun m e => m.insert e.1 e.2) m

theorem insertAll_append (m : TextMap α) (es fs : List (String × α)) :
    m.insertAll (es ++ fs) = (m.insertAll es).insertAll fs := List.foldl_append

/-- A key that is not written keeps its value. -/
theorem get?_insertAll_of_notMem (h : ∀ v, (key, v) ∉ es) : (m.insertAll es).get? key = m.get? key := by
  induction es generalizing m with
  | nil => rfl
  | cons e es ih =>
    have hes : ∀ v, (key, v) ∉ es := fun v hv => h v (List.mem_cons_of_mem e hv)
    have hne : key ≠ e.1 := fun he => h e.2 (he ▸ List.mem_cons_self)
    have hcons : m.insertAll (e :: es) = (m.insert e.1 e.2).insertAll es := rfl
    rw [hcons, ih hes, get?_insert, if_neg hne]

/-- A key that is always written with the same value has it. -/
theorem get?_insertAll_of_mem (hmem : (key, value) ∈ es) (h : ∀ v, (key, v) ∈ es → v = value) :
    (m.insertAll es).get? key = some value := by
  induction es generalizing m with
  | nil => cases hmem
  | cons e es ih =>
    have hcons : m.insertAll (e :: es) = (m.insert e.1 e.2).insertAll es := rfl
    rw [hcons]
    by_cases hlater : (key, value) ∈ es
    · exact ih hlater fun v hv => h v (List.mem_cons_of_mem e hv)
    · obtain rfl : (key, value) = e := (List.mem_cons.1 hmem).resolve_right hlater
      have hes : ∀ v, (key, v) ∉ es := fun v hv =>
        hlater (h v (List.mem_cons_of_mem _ hv) ▸ hv)
      rw [get?_insertAll_of_notMem hes, get?_insert, if_pos rfl]

/-- Where a key is written with one value at most, and was not there before, it has what is written. -/
theorem get?_insertAll_eq_some_iff (hkey : m.get? key = none)
    (h : ∀ v w, (key, v) ∈ es → (key, w) ∈ es → v = w) :
    (m.insertAll es).get? key = some value ↔ (key, value) ∈ es := by
  constructor
  · intro hget
    by_contra hnot
    by_cases hex : ∃ v, (key, v) ∈ es
    · obtain ⟨v, hv⟩ := hex
      rw [get?_insertAll_of_mem hv fun w hw => h w v hw hv, Option.some_inj] at hget
      exact hnot (hget ▸ hv)
    · rw [get?_insertAll_of_notMem (not_exists.1 hex), hkey] at hget
      cases hget
  · intro hmem
    exact get?_insertAll_of_mem hmem fun v hv => h v value hv hmem

/-- The entries of a map, if there is one, are in ascending order. -/
theorem pairwise_getD_entries (m : Option (TextMap α)) :
    ((m.map (·.entries)).getD []).Pairwise (·.1 < ·.1) := by
  cases m with
  | none => exact .nil
  | some m => exact m.ordered

/-- Of the ascending entries, the first one that passes a test has the least key. -/
theorem find?_fst_eq_some_iff (h : es.Pairwise (·.1 < ·.1)) {p : String × α → Bool} :
    (es.find? p).map (·.1) = some key ↔
      ∃ v, (key, v) ∈ es ∧ p (key, v) = true ∧ ∀ e ∈ es, p e = true → ¬ e.1 < key := by
  induction es with
  | nil => simp
  | cons e es ih =>
    obtain ⟨hgreater, hes⟩ := List.pairwise_cons.1 h
    by_cases he : p e = true
    · rw [List.find?_cons_of_pos he, Option.map_some, Option.some_inj]
      constructor
      · rintro rfl
        refine ⟨e.2, List.mem_cons_self, he, fun d hd _ hlt => ?_⟩
        rcases List.mem_cons.1 hd with rfl | hd
        · exact String.lt_irrefl _ hlt
        · exact String.lt_asymm hlt (hgreater d hd)
      · rintro ⟨v, hmem, -, hleast⟩
        rcases List.mem_cons.1 hmem with rfl | hmem
        · rfl
        · exact absurd (hgreater _ hmem) (hleast e List.mem_cons_self he)
    · rw [List.find?_cons_of_neg he, ih hes]
      grind

end TextMap

/-! ## Field names -/

theorem tagField_inj {tag other : String} : tagField tag = tagField other ↔ tag = other := by
  rw [tagField, tagField, String.append_right_inj]

theorem tagEnumField_inj {tag other : String} : tagEnumField tag = tagEnumField other ↔ tag = other := by
  rw [tagEnumField, tagEnumField, String.append_right_inj]

/-- Fields of values and of labels never share a name. -/
theorem tagField_ne_tagEnumField (tag other : String) : tagField tag ≠ tagEnumField other := by
  intro h
  have hchars := congrArg String.toList h
  simp [tagField, tagEnumField, String.toList_append] at hchars

theorem repr_injective {m n : ℕ} (h : m.repr = n.repr) : m = n := by
  rw [Nat.repr_eq_ofList_toDigits, Nat.repr_eq_ofList_toDigits, String.ofList_inj] at h
  rw [← Nat.ofDigitChars_ten_toDigits (n := m), h, Nat.ofDigitChars_ten_toDigits]

/-- A sign is no digit, so negative numbers have texts of their own. -/
theorem sign_append_ne_repr (s : String) (n : ℕ) : "-" ++ s ≠ n.repr := by
  intro h
  have hchars : "-".toList ++ s.toList = Nat.toDigits 10 n := by
    rw [← String.toList_append, h, Nat.repr_eq_ofList_toDigits, String.toList_ofList]
  have hsign : '-' ∈ Nat.toDigits 10 n := by
    rw [← hchars]
    exact List.mem_append_left _ (by decide)
  exact absurd (Nat.isDigit_of_mem_toDigits (by decide) (by decide) hsign) (by decide)

/-- Numbers are told apart by their texts. -/
theorem idText_inj {id other : Int64} : idText id = idText other ↔ id = other := by
  constructor
  · intro h
    rw [idText, idText, Int.toString_eq_repr, Int.toString_eq_repr, Int.repr_eq_if, Int.repr_eq_if] at h
    apply Int64.toInt_inj.1
    split at h
    · split at h
      · have hnat := repr_injective h
        omega
      · exact absurd h.symm (sign_append_ne_repr _ _)
    · split at h
      · exact absurd h (sign_append_ne_repr _ _)
      · have hnat := repr_injective ((String.append_right_inj _).1 h)
        omega
  · rintro rfl
    rfl

/-- Only the flag that is false counts as unset. -/
theorem TagValue.isSet_iff {value : TagValue} : value.isSet = true ↔ value ≠ .flag false := bne_iff_ne

/-! ## Labels -/

/-- The labels of a tag's values, in label order. -/
def TagDefinition.labels (definition : TagDefinition) : List (String × Int64) :=
  (definition.enums.map (·.entries)).getD []

/-- The first of the labels, in label order, that the tag has for a number. -/
structure TagDefinition.FirstLabel (definition : TagDefinition) (n : Int64) (label : String) :
    Prop where
  number : (label, n) ∈ definition.labels
  first : ∀ other, (other, n) ∈ definition.labels → ¬ other < label

theorem TagDefinition.pairwise_labels (definition : TagDefinition) :
    definition.labels.Pairwise (·.1 < ·.1) := TextMap.pairwise_getD_entries definition.enums

/-- The label of a value is the first one in label order. -/
theorem MemberRecord.enumLabel?_eq_some_iff {definition : TagDefinition} {value : TagValue}
    {label : String} : enumLabel? definition value = some label ↔
      ∃ n, value = .number n ∧ definition.FirstLabel n label := by
  rw [enumLabel?, ← TagDefinition.labels,
    TextMap.find?_fst_eq_some_iff definition.pairwise_labels]
  cases value with
  | flag b => simp [TagValue.number?]
  | number n =>
    simp only [TagValue.number?, beq_iff_eq, Option.some_inj, TagValue.number.injEq]
    constructor
    · rintro ⟨_, hmem, rfl, hfirst⟩
      exact ⟨_, rfl, hmem, fun other hother => hfirst _ hother rfl⟩
    · rintro ⟨_, rfl, hmem, hfirst⟩
      refine ⟨_, hmem, rfl, ?_⟩
      rintro ⟨other, _⟩ hother rfl
      exact hfirst other hother

/-! ## The entries of the tags -/

/-- The network's tag with the number, the first one in name order. -/
def NetworkInfo.tag? (network : NetworkInfo) (id : Int64) : Option (String × TagDefinition) :=
  network.tags.find? (·.2.id == id)

/-- What the tag with the number is called in field names: by its number, and by its name if the network
has one. -/
def NetworkInfo.callNames (network : NetworkInfo) (id : Int64) : List String :=
  idText id :: ((network.tag? id).map (·.1)).toList

namespace NetworkInfo

variable {network : NetworkInfo} {id : Int64} {name : String} {definition : String × TagDefinition}

theorem mem_tags_of_tag? (h : network.tag? id = some definition) :
    definition ∈ network.tags ∧ definition.2.id = id :=
  ⟨List.mem_of_find?_eq_some h, by simpa using List.find?_some h⟩

theorem tag?_eq_none_iff : network.tag? id = none ↔ id ∉ network.tags.map (·.2.id) := by
  simp [tag?, List.find?_eq_none]

/-- A tag goes by its number, and by its name if it has one. -/
theorem mem_callNames_iff : name ∈ network.callNames id ↔
    name = idText id ∨ ∃ definition, network.tag? id = some (name, definition) := by
  simp [callNames]

end NetworkInfo

namespace MemberRecord

/-- The fields that a tag of the member adds, with their texts. -/
def tagEntries (network : NetworkInfo) (tag : Int64 × TagValue) : List (String × String) :=
  if tag.2.isSet then
    (network.callNames tag.1).map (fun name => (tagField name, tag.2.render)) ++
      ((network.tag? tag.1).bind (enumLabel? ·.2 tag.2)).toList.flatMap fun label =>
        (network.callNames tag.1).map fun name => (tagEnumField name, label)
  else []

theorem addTag_eq (network : NetworkInfo) (a : Attributes) (tag : Int64 × TagValue) :
    addTag network a tag = a.insertAll (tagEntries network tag) := by
  obtain ⟨id, value⟩ := tag
  have htag : network.tags.find? (·.2.id == id) = network.tag? id := rfl
  simp only [addTag, tagEntries, NetworkInfo.callNames, htag]
  by_cases hset : value.isSet = true
  · rw [if_pos hset, if_pos hset]
    cases network.tag? id with
    | none => rfl
    | some tag => cases hlabel : enumLabel? tag.2 value <;> simp [hlabel, TextMap.insertAll]
  · rw [if_neg hset, if_neg hset]
    rfl

/-- Tags are written over the base fields, one after the other. -/
theorem attributes_eq (member : MemberRecord) (network : NetworkInfo) (version : IpVersion) :
    member.attributes network version =
      TextMap.insertAll (member.baseAttributes network version)
        (member.tags.flatMap (tagEntries network)) := by
  rw [attributes]
  generalize member.baseAttributes network version = a
  induction member.tags generalizing a with
  | nil => rfl
  | cons tag tags ih =>
    rw [List.foldl_cons, ih, addTag_eq, List.flatMap_cons, TextMap.insertAll_append]

/-- The tags of the member have numbers of their own, and so have those of the network, and no tag of the
network is named like the number of a tag. -/
structure TagsApart (member : MemberRecord) (network : NetworkInfo) : Prop where
  ids_nodup : (member.tags.map (·.1)).Nodup
  definitions_nodup : (network.tags.map (·.2.id)).Nodup
  name_notMem : ∀ tag ∈ network.tags,
    tag.1 ∉ (member.tags.map (·.1) ++ network.tags.map (·.2.id)).map idText

variable {member : MemberRecord} {network : NetworkInfo} {version : IpVersion}
  {name field text text' : String}
  {tag tag' : Int64 × TagValue} {definition definition' : String × TagDefinition} {id id' : Int64}

/-- What is written for a tag: its value under each of its names, and its label if there is one. -/
theorem mem_tagEntries : (field, text) ∈ tagEntries network tag ↔ tag.2.isSet = true ∧
    ((∃ call ∈ network.callNames tag.1, field = tagField call ∧ text = tag.2.render) ∨
      ∃ call ∈ network.callNames tag.1, field = tagEnumField call ∧
        ∃ definition, network.tag? tag.1 = some definition ∧
          enumLabel? definition.2 tag.2 = some text) := by
  rw [tagEntries]
  split
  · next hset =>
    simp only [List.mem_append, List.mem_map, List.mem_flatMap, Option.mem_toList,
      Option.bind_eq_some_iff, Prod.mk.injEq, hset, true_and]
    constructor
    · rintro (⟨call, hcall, rfl, rfl⟩ | ⟨label, hlabel, call, hcall, rfl, rfl⟩)
      · exact .inl ⟨call, hcall, rfl, rfl⟩
      · exact .inr ⟨call, hcall, rfl, hlabel⟩
    · rintro (⟨call, hcall, rfl, rfl⟩ | ⟨call, hcall, rfl, hlabel⟩)
      · exact .inl ⟨call, hcall, rfl, rfl⟩
      · exact .inr ⟨text, hlabel, call, hcall, rfl, rfl⟩
  · next hset => simp [hset]

/-! ## Numbers and names -/

theorem TagsApart.definition_inj (h : TagsApart member network) (hmem : definition ∈ network.tags)
    (hmem' : definition' ∈ network.tags) (hid : definition.2.id = definition'.2.id) :
    definition = definition' := List.inj_on_of_nodup_map h.definitions_nodup hmem hmem' hid

theorem definition_inj_of_name (hmem : definition ∈ network.tags)
    (hmem' : definition' ∈ network.tags) (hname : definition.1 = definition'.1) :
    definition = definition' := by
  have hordered : network.tags.Pairwise (·.1 < ·.1) := TextMap.pairwise_getD_entries network.tagsByName
  have hnodup : (network.tags.map (·.1)).Nodup := by
    rw [List.Nodup, List.pairwise_map]
    exact hordered.imp Std.ne_of_lt
  exact List.inj_on_of_nodup_map hnodup hmem hmem' hname

theorem TagsApart.tag?_eq_some_iff (h : TagsApart member network) :
    network.tag? id = some definition ↔ definition ∈ network.tags ∧ definition.2.id = id := by
  constructor
  · exact NetworkInfo.mem_tags_of_tag?
  · rintro ⟨hmem, rfl⟩
    cases hfound : network.tag? definition.2.id with
    | none => exact absurd (List.mem_map_of_mem hmem) (NetworkInfo.tag?_eq_none_iff.1 hfound)
    | some found =>
      obtain ⟨hmem', hid⟩ := NetworkInfo.mem_tags_of_tag? hfound
      rw [h.definition_inj hmem' hmem hid]

theorem TagsApart.mem_callNames (h : TagsApart member network) : name ∈ network.callNames id ↔
    name = idText id ∨ ∃ definition ∈ network.tags, definition.2.id = id ∧ name = definition.1 := by
  simp only [NetworkInfo.callNames, List.mem_cons, Option.mem_toList,
    Option.map_eq_some_iff, h.tag?_eq_some_iff, and_assoc, eq_comm (a := name)]

/-- No name is that of two numbers. -/
theorem TagsApart.id_eq (h : TagsApart member network)
    (hid : id ∈ member.tags.map (·.1) ++ network.tags.map (·.2.id))
    (hid' : id' ∈ member.tags.map (·.1) ++ network.tags.map (·.2.id))
    (hname : name ∈ network.callNames id) (hname' : name ∈ network.callNames id') : id = id' := by
  rcases h.mem_callNames.1 hname with rfl | ⟨definition, hmem, rfl, rfl⟩
  · rcases h.mem_callNames.1 hname' with heq | ⟨definition', hmem', rfl, heq⟩
    · exact idText_inj.1 heq
    · exact absurd (heq ▸ List.mem_map_of_mem hid) (h.name_notMem _ hmem')
  · rcases h.mem_callNames.1 hname' with heq | ⟨definition', hmem', rfl, heq⟩
    · exact absurd (heq ▸ List.mem_map_of_mem hid') (h.name_notMem _ hmem)
    · rw [definition_inj_of_name hmem hmem' heq]

/-- No name is that of two tags of the member. -/
theorem TagsApart.tag_eq (h : TagsApart member network) (hmem : tag ∈ member.tags)
    (hmem' : tag' ∈ member.tags) (hname : name ∈ network.callNames tag.1)
    (hname' : name ∈ network.callNames tag'.1) : tag = tag' := by
  have hid : tag.1 = tag'.1 := h.id_eq (List.mem_append_left _ (List.mem_map_of_mem hmem))
    (List.mem_append_left _ (List.mem_map_of_mem hmem')) hname hname'
  exact List.inj_on_of_nodup_map h.ids_nodup hmem hmem' hid

/-! ## What a field holds -/

theorem baseAttributes_get?_eq_none (h : field ∉ baseFields) :
    (member.baseAttributes network version).get? field = none := by
  simp only [baseFields, List.mem_cons, List.not_mem_nil, or_false, not_or] at h
  simp [baseAttributes, TextMap.ofList, h]

/-- A field is written with one text only. -/
theorem TagsApart.text_eq (h : TagsApart member network) (hmem : tag ∈ member.tags)
    (hmem' : tag' ∈ member.tags) (hentry : (field, text) ∈ tagEntries network tag)
    (hentry' : (field, text') ∈ tagEntries network tag') : text = text' := by
  obtain ⟨-, hfield⟩ := mem_tagEntries.1 hentry
  obtain ⟨-, hfield'⟩ := mem_tagEntries.1 hentry'
  rcases hfield with ⟨call, hcall, rfl, rfl⟩ | ⟨call, hcall, rfl, definition, htag, hlabel⟩
  · rcases hfield' with ⟨call', hcall', heq, rfl⟩ | ⟨call', -, heq, -⟩
    · obtain rfl := tagField_inj.1 heq
      rw [h.tag_eq hmem hmem' hcall hcall']
    · exact absurd heq (tagField_ne_tagEnumField call call')
  · rcases hfield' with ⟨call', -, heq, -⟩ | ⟨call', hcall', heq, definition', htag', hlabel'⟩
    · exact absurd heq.symm (tagField_ne_tagEnumField call' call)
    · obtain rfl := tagEnumField_inj.1 heq
      obtain rfl := h.tag_eq hmem hmem' hcall hcall'
      obtain rfl : definition = definition' := Option.some.inj (htag.symm.trans htag')
      exact Option.some.inj (hlabel.symm.trans hlabel')

/-- A field that is no base field has what some tag writes there. -/
theorem TagsApart.get?_attributes (h : TagsApart member network) (version : IpVersion)
    (hbase : field ∉ baseFields) : (member.attributes network version).get? field = some text ↔
      ∃ tag ∈ member.tags, (field, text) ∈ tagEntries network tag := by
  rw [attributes_eq, TextMap.get?_insertAll_eq_some_iff, List.mem_flatMap]
  · exact baseAttributes_get?_eq_none hbase
  · intro v w hv hw
    obtain ⟨tag, hmem, hentry⟩ := List.mem_flatMap.1 hv
    obtain ⟨tag', hmem', hentry'⟩ := List.mem_flatMap.1 hw
    exact h.text_eq hmem hmem' hentry hentry'

theorem TagsApart.get?_tagField (h : TagsApart member network) (version : IpVersion) :
    (member.attributes network version).get? (tagField name) = some text ↔
      ∃ tag ∈ member.tags, tag.2.isSet = true ∧ name ∈ network.callNames tag.1 ∧
        text = tag.2.render := by
  rw [h.get?_attributes version (tagField_notMem_baseFields name)]
  simp [mem_tagEntries, tagField_inj, tagField_ne_tagEnumField]

theorem TagsApart.get?_tagEnumField (h : TagsApart member network) (version : IpVersion) :
    (member.attributes network version).get? (tagEnumField name) = some text ↔
      ∃ tag ∈ member.tags, tag.2.isSet = true ∧ name ∈ network.callNames tag.1 ∧
        ∃ definition, network.tag? tag.1 = some definition ∧
          enumLabel? definition.2 tag.2 = some text := by
  rw [h.get?_attributes version (tagEnumField_notMem_baseFields name)]
  simp [mem_tagEntries, tagEnumField_inj, (tagField_ne_tagEnumField _ _).symm]

/-- A tag of the network, under each of its names. -/
theorem TagsApart.of_definition (h : TagsApart member network) (version : IpVersion)
    (hmem : definition ∈ network.tags) (hname : name ∈ network.callNames definition.2.id) :
    ((member.attributes network version).get? (tagField name) = some text ↔
      ∃ value, (definition.2.id, value) ∈ member.tags ∧ value ≠ .flag false ∧ text = value.render) ∧
    ((member.attributes network version).get? (tagEnumField name) = some text ↔
      ∃ n, (definition.2.id, .number n) ∈ member.tags ∧ definition.2.FirstLabel n text) := by
  have hid : definition.2.id ∈ member.tags.map (·.1) ++ network.tags.map (·.2.id) :=
    List.mem_append_right _ (List.mem_map_of_mem hmem)
  -- the only tag of the member with the name is that of the definition
  have htag : ∀ tag ∈ member.tags, name ∈ network.callNames tag.1 → tag.1 = definition.2.id :=
    fun tag hmem hname' => h.id_eq (List.mem_append_left _ (List.mem_map_of_mem hmem)) hid hname' hname
  have hdefinition : network.tag? definition.2.id = some definition :=
    h.tag?_eq_some_iff.2 ⟨hmem, rfl⟩
  rw [h.get?_tagField, h.get?_tagEnumField]
  refine ⟨⟨?_, ?_⟩, ⟨?_, ?_⟩⟩
  · rintro ⟨⟨id, value⟩, hmem, hset, hname', rfl⟩
    obtain rfl : id = _ := htag _ hmem hname'
    exact ⟨value, hmem, TagValue.isSet_iff.1 hset, rfl⟩
  · rintro ⟨value, hmem, hset, rfl⟩
    exact ⟨_, hmem, TagValue.isSet_iff.2 hset, hname, rfl⟩
  · rintro ⟨⟨id, value⟩, hmem, hset, hname', found, hfound, hlabel⟩
    obtain rfl : id = _ := htag _ hmem hname'
    obtain rfl : definition = found := Option.some.inj (hdefinition.symm.trans hfound)
    obtain ⟨n, rfl, hfirst⟩ := enumLabel?_eq_some_iff.1 hlabel
    exact ⟨n, hmem, hfirst⟩
  · rintro ⟨n, hmem, hfirst⟩
    exact ⟨_, hmem, rfl, hname, definition, hdefinition, enumLabel?_eq_some_iff.2 ⟨n, rfl, hfirst⟩⟩

/-- A field that is there is a base field, the number's field of a set tag, or one of the four fields of a
set tag that the network has. -/
theorem TagsApart.origin (h : TagsApart member network)
    (hfield : (member.attributes network version).get? field ≠ none) :
    field ∈ baseFields ∨ ∃ tag ∈ member.tags, tag.2 ≠ .flag false ∧
      (field = tagField (idText tag.1) ∨
        ∃ definition ∈ network.tags, definition.2.id = tag.1 ∧
          field ∈ tagFields definition.1 tag.1) := by
  by_cases hbase : field ∈ baseFields
  · exact .inl hbase
  refine .inr ?_
  obtain ⟨text, htext⟩ := Option.ne_none_iff_exists'.1 hfield
  obtain ⟨tag, hmem, hentry⟩ := (h.get?_attributes version hbase).1 htext
  obtain ⟨hset, hfields⟩ := mem_tagEntries.1 hentry
  refine ⟨tag, hmem, TagValue.isSet_iff.1 hset, ?_⟩
  rcases hfields with ⟨call, hcall, rfl, -⟩ | ⟨call, hcall, rfl, definition, htag, -⟩
  · rcases h.mem_callNames.1 hcall with rfl | ⟨definition, hdefinition, hid, rfl⟩
    · exact .inl rfl
    · exact .inr ⟨definition, hdefinition, hid, by simp [tagFields]⟩
  · obtain ⟨hdefinition, hid⟩ := h.tag?_eq_some_iff.1 htag
    refine .inr ⟨definition, hdefinition, hid, ?_⟩
    rcases h.mem_callNames.1 hcall with rfl | ⟨definition', hdefinition', hid', rfl⟩
    · simp [tagFields]
    · rw [h.definition_inj hdefinition hdefinition' (hid.trans hid'.symm)]
      simp [tagFields]

end MemberRecord

/-! ## Main statement -/

/-- **Tag fields follow the record.** Where the numbers of the member's tags are distinct, and those of
the network's tags, and no tag is named like the number of another, both fields of a network tag hold the
text of the member's value if that is set, and both of its label fields the first label of the value if
that is a number with a label; otherwise they are missing. Of a set tag that the network does not have
there is the field of its number only, and no field comes from elsewhere. -/
theorem MemberRecord.tagFields_follow_record {member : MemberRecord} {network : NetworkInfo}
    (h : TagsApart member network) (version : IpVersion) :
    (∀ name definition, (name, definition) ∈ network.tags →
      ∀ call ∈ [name, idText definition.id],
        (∀ text, (member.attributes network version).get? (tagField call) = some text ↔
          ∃ value, (definition.id, value) ∈ member.tags ∧ value ≠ .flag false ∧
            text = value.render) ∧
        (∀ label, (member.attributes network version).get? (tagEnumField call) = some label ↔
          ∃ n, (definition.id, .number n) ∈ member.tags ∧ definition.FirstLabel n label)) ∧
    (∀ id value, (id, value) ∈ member.tags → value ≠ .flag false →
      id ∉ network.tags.map (·.2.id) →
        (member.attributes network version).get? (tagField (idText id)) = some value.render ∧
        (member.attributes network version).get? (tagEnumField (idText id)) = none) ∧
    ∀ field, (member.attributes network version).get? field ≠ none →
      field ∈ baseFields ∨ ∃ id value, (id, value) ∈ member.tags ∧ value ≠ .flag false ∧
        (field = tagField (idText id) ∨
          ∃ name definition, (name, definition) ∈ network.tags ∧ definition.id = id ∧
            field ∈ tagFields name id) := by
  refine ⟨fun name definition hmem call hcall => ?_, fun id value hmem hset hnew => ⟨?_, ?_⟩,
    fun field hfield => ?_⟩
  · have hname : call ∈ network.callNames definition.id := by
      rw [h.mem_callNames]
      rcases List.mem_cons.1 hcall with rfl | hcall
      · exact .inr ⟨_, hmem, rfl, rfl⟩
      · exact .inl (List.mem_singleton.1 hcall)
    exact ⟨fun text => (h.of_definition version hmem hname).1,
      fun label => (h.of_definition version hmem hname).2⟩
  · exact (h.get?_tagField version).2
      ⟨_, hmem, TagValue.isSet_iff.2 hset, h.mem_callNames.2 (.inl rfl), rfl⟩
  · rw [Option.eq_none_iff_forall_ne_some]
    intro label hlabel
    obtain ⟨tag, hmem', -, hname, definition, htag, -⟩ := (h.get?_tagEnumField version).1 hlabel
    obtain rfl := h.tag_eq hmem hmem' (h.mem_callNames.2 (.inl rfl)) hname
    obtain ⟨hdefinition, rfl⟩ := h.tag?_eq_some_iff.1 htag
    exact hnew (List.mem_map_of_mem hdefinition)
  · rcases h.origin hfield with hbase | ⟨tag, hmem, hset, hid | ⟨definition, hdefinition, hid, hmem'⟩⟩
    · exact .inl hbase
    · exact .inr ⟨_, _, hmem, hset, .inl hid⟩
    · exact .inr ⟨_, _, hmem, hset, .inr ⟨_, _, hdefinition, hid, hmem'⟩⟩

/-- Two labels for one number, a flag, an unset tag, and a tag that the network does not have. -/
theorem MemberRecord.tagFields_follow_record_two_labels :
    ∃ (member : MemberRecord) (network : NetworkInfo), TagsApart member network ∧
      member.tags = [(9, .number 7), (3, .number 12), (4, .flag true), (-1, .flag false)] ∧
      network.tags.map (·.1) = ["role", "site", "zone"] ∧
      (member.attributes network .v4).get? (tagField "role") = some "12" ∧
      (member.attributes network .v4).get? (tagEnumField (idText 3)) = some "db" ∧
      (member.attributes network .v4).get? (tagField (idText 4)) = some "true" ∧
      (member.attributes network .v4).get? (tagEnumField "site") = none ∧
      (member.attributes network .v4).get? (tagField "zone") = none ∧
      (member.attributes network .v4).get? (tagField (idText 9)) = some "7" ∧
      (member.attributes network .v4).get? (tagEnumField (idText 9)) = none := by
  let member : MemberRecord := ⟨some "n", none, none, none, none, some ⟨some true, none, none,
    some [(9, .number 7), (3, .number 12), (4, .flag true), (-1, .flag false)], none⟩⟩
  let role : TagDefinition := ⟨3, some (TextMap.ofList [("main", 12), ("db", 12), ("web", 13)])⟩
  let site : TagDefinition := ⟨4, none⟩
  let zone : TagDefinition := ⟨-1, some (TextMap.ofList [("eu", 1)])⟩
  let network : NetworkInfo :=
    ⟨none, some (TextMap.ofList [("zone", zone), ("role", role), ("site", site)]), none⟩
  have hapart : TagsApart member network := ⟨by decide +kernel, by decide +kernel, by decide +kernel⟩
  obtain ⟨hdefinitions, hothers, -⟩ := tagFields_follow_record hapart .v4
  have hrole := hdefinitions "role" role (by decide +kernel)
  have hsite := hdefinitions "site" site (by decide +kernel)
  have hzone := hdefinitions "zone" zone (by decide +kernel)
  have hnine := hothers 9 (.number 7) (by decide +kernel) (by decide) (by decide +kernel)
  have hdb : role.FirstLabel 12 "db" := by
    have hlabels : role.labels = [("db", 12), ("main", 12), ("web", 13)] := by decide +kernel
    refine ⟨by decide +kernel, fun other hother => ?_⟩
    simp only [hlabels, List.mem_cons, List.not_mem_nil, Prod.mk.injEq, or_false] at hother
    rcases hother with ⟨rfl, -⟩ | ⟨rfl, -⟩ | ⟨rfl, -⟩ <;> decide +kernel
  have htags : member.tags =
      [(9, .number 7), (3, .number 12), (4, .flag true), (-1, .flag false)] := rfl
  refine ⟨member, network, hapart, htags, by decide +kernel,
    ((hrole "role" (by simp)).1 "12").2 ⟨.number 12, by decide +kernel, by decide, by decide +kernel⟩,
    ((hrole (idText 3) (by simp [role])).2 "db").2 ⟨12, by decide +kernel, hdb⟩,
    ((hsite (idText 4) (by simp [site])).1 "true").2 ⟨.flag true, by decide +kernel, by decide, rfl⟩,
    Option.eq_none_iff_forall_ne_some.2 fun label hlabel => ?_,
    Option.eq_none_iff_forall_ne_some.2 fun text htext => ?_, hnine⟩
  · obtain ⟨n, hmem, -⟩ := ((hsite "site" (by simp)).2 label).1 hlabel
    simp [site, htags] at hmem
  · obtain ⟨value, hmem, hset, -⟩ := ((hzone "zone" (by simp)).1 text).1 htext
    simp [zone, htags, hset] at hmem

end SlotQuery
