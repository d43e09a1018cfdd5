import Mathlib.Data.List.Basic
import SlotQuery.Proofs.Fleet.TagFields

/-!
# Fields and the vocabulary

The fields that a query may refer to come from the network, those that a candidate carries from its member.
A candidate carries nothing that the network does not offer, but for the numbers of tags that the network
does not have, and no tag touches a base field (`attributes_within_vocabulary`). The other way round it is
not so: where tags of the network share a number, all their names are offered, and only the first of them is
carried (`tagField_of_shared_id`).
-/

namespace SlotQuery

theorem TextMap.mem_keys_iff {α : Type} {m : TextMap α} {key : String} :
    key ∈ m.keys ↔ m.get? key ≠ none := by
  simp [keys, get?, Option.map_eq_none_iff, List.find?_eq_none]

/-- The member without its tags. -/
def MemberRecord.untagged (member : MemberRecord) : MemberRecord :=
  { member with config := member.config.map ({ · with tags := none }) }

/-- The network without its tags. -/
def NetworkInfo.untagged (network : NetworkInfo) : NetworkInfo := { network with tagsByName := none }

namespace MemberRecord

variable {member member' : MemberRecord} {network network' : NetworkInfo} {version : IpVersion}
  {name field text : String} {definition : TagDefinition} {value : TagValue} {id : Int64}

/-! ## Fields that are offered -/

theorem mem_knownFields : field ∈ network.knownFields.names ↔
    field ∈ baseFields ∨ ∃ tag ∈ network.tags, field ∈ tagFields tag.1 tag.2.id := by
  rw [NetworkInfo.knownFields, FieldSet.mem_ofList, List.mem_append, List.mem_flatMap]

/-- A field that a tag of the member adds is one that the network offers, or that of a number without a
name. -/
theorem offered_of_mem_tagEntries {tag : Int64 × TagValue} (h : (field, text) ∈ tagEntries network tag) :
    field ∈ network.knownFields.names ∨
      tag.1 ∉ network.tags.map (·.2.id) ∧ field = tagField (idText tag.1) := by
  obtain ⟨-, hfields⟩ := mem_tagEntries.1 h
  cases hfound : network.tag? tag.1 with
  | none =>
    -- no name and no labels are left
    refine .inr ⟨NetworkInfo.tag?_eq_none_iff.1 hfound, ?_⟩
    rcases hfields with ⟨call, hcall, rfl, -⟩ | ⟨-, -, -, definition, htag, -⟩
    · rcases NetworkInfo.mem_callNames_iff.1 hcall with rfl | ⟨definition, htag⟩
      · rfl
      · rw [hfound] at htag
        cases htag
    · rw [hfound] at htag
      cases htag
  | some found =>
    refine .inl (mem_knownFields.2 (.inr ?_))
    obtain ⟨hmem, hid⟩ := NetworkInfo.mem_tags_of_tag? hfound
    have hcalls : ∀ call ∈ network.callNames tag.1, call = found.1 ∨ call = idText found.2.id := by
      intro call hcall
      rcases NetworkInfo.mem_callNames_iff.1 hcall with rfl | ⟨definition, htag⟩
      · exact .inr (by rw [hid])
      · exact .inl (by rw [Option.some.inj (hfound.symm.trans htag)])
    refine ⟨found, hmem, ?_⟩
    rcases hfields with ⟨call, hcall, rfl, -⟩ | ⟨call, hcall, rfl, -⟩
    · rcases hcalls call hcall with rfl | rfl <;> simp [tagFields]
    · rcases hcalls call hcall with rfl | rfl <;> simp [tagFields]

/-! ## Fields that are carried -/

theorem mem_keys_of_notMem_baseFields (hbase : field ∉ baseFields)
    (hfield : field ∈ (member.attributes network version).keys) :
    ∃ tag ∈ member.tags, ∃ text, (field, text) ∈ tagEntries network tag := by
  by_contra hnot
  apply TextMap.mem_keys_iff.1 hfield
  rw [attributes_eq, TextMap.get?_insertAll_of_notMem, baseAttributes_get?_eq_none hbase]
  intro text htext
  obtain ⟨tag, hmem, hentry⟩ := List.mem_flatMap.1 htext
  exact hnot ⟨tag, hmem, text, hentry⟩

theorem isSet_of_mem_tagEntries {tag : Int64 × TagValue} (h : (field, text) ∈ tagEntries network tag) :
    tag.2 ≠ .flag false := TagValue.isSet_iff.1 (mem_tagEntries.1 h).1

theorem baseAttributes_get?_ne_none (h : field ∈ baseFields) :
    (member.baseAttributes network version).get? field ≠ none := by
  simp only [baseFields, List.mem_cons, List.not_mem_nil, or_false] at h
  rcases h with rfl | rfl | rfl | rfl | rfl | rfl | rfl | rfl <;>
    simp [baseAttributes, TextMap.ofList]

theorem baseAttributes_untagged (member : MemberRecord) (network : NetworkInfo) (version : IpVersion) :
    member.untagged.baseAttributes network.untagged version =
      member.baseAttributes network version := by
  obtain ⟨_, _, _, _, _, config⟩ := member
  cases config <;> rfl

theorem attributes_get?_congr (hmember : member'.untagged = member.untagged)
    (hnetwork : network'.untagged = network.untagged) (hbase : field ∈ baseFields) :
    (member'.attributes network' version).get? field =
      (member.attributes network version).get? field := by
  rw [attributes_get? hbase, attributes_get? hbase, ← baseAttributes_untagged member',
    ← baseAttributes_untagged member, hmember, hnetwork]

/-- The three fields of addresses. -/
theorem attributes_get?_addresses (member : MemberRecord) (network : NetworkInfo) (version : IpVersion) :
    (member.attributes network version).get? "address" =
        some (Address.select member.ipAssignments version) ∧
      (member.attributes network version).get? "IPv4Address" =
        some (Address.select member.ipAssignments .v4) ∧
      (member.attributes network version).get? "IPv6Address" =
        some (Address.select member.ipAssignments .v6) := by
  refine ⟨?_, ?_, ?_⟩
  all_goals
    rw [attributes_get? (by decide)]
    simp [baseAttributes, TextMap.ofList]

/-! ## Names of one number -/

/-- The tags of the member have numbers of their own, and no tag of the network is named like the number of
a tag. The tags of the network may share numbers. -/
structure NamesApart (member : MemberRecord) (network : NetworkInfo) : Prop where
  ids_nodup : (member.tags.map (·.1)).Nodup
  name_notMem : ∀ tag ∈ network.tags,
    tag.1 ∉ (member.tags.map (·.1) ++ network.tags.map (·.2.id)).map idText

/-- The name of a tag is called only by the member's tag of its number, and only if it is the first name of
that number. -/
theorem NamesApart.of_mem_callNames (h : NamesApart member network)
    (hname : (name, definition) ∈ network.tags) {tag : Int64 × TagValue} (htag : tag ∈ member.tags)
    (hcall : name ∈ network.callNames tag.1) :
    tag.1 = definition.id ∧ network.tag? definition.id = some (name, definition) := by
  rcases NetworkInfo.mem_callNames_iff.1 hcall with heq | ⟨found, hfound⟩
  · -- it would be the decimal text of a number
    have hnot := h.name_notMem _ hname
    rw [heq] at hnot
    exact absurd (List.mem_map_of_mem (List.mem_append_left _ (List.mem_map_of_mem htag))) hnot
  · obtain ⟨hmem, hid⟩ := NetworkInfo.mem_tags_of_tag? hfound
    obtain rfl : definition = found :=
      congrArg Prod.snd (definition_inj_of_name hname hmem rfl)
    exact ⟨hid.symm, hid ▸ hfound⟩

theorem NamesApart.mem_tagEntries_iff (h : NamesApart member network)
    (hname : (name, definition) ∈ network.tags) (hvalue : (definition.id, value) ∈ member.tags)
    (hset : value ≠ .flag false) :
    (tagField name, text) ∈ member.tags.flatMap (tagEntries network) ↔
      network.tag? definition.id = some (name, definition) ∧ text = value.render := by
  rw [List.mem_flatMap]
  constructor
  · rintro ⟨tag, htag, hentry⟩
    obtain ⟨-, hfield⟩ := mem_tagEntries.1 hentry
    rcases hfield with ⟨call, hcall, heq, rfl⟩ | ⟨call, -, heq, -⟩
    · obtain rfl := tagField_inj.1 heq
      obtain ⟨hid, hfirst⟩ := h.of_mem_callNames hname htag hcall
      obtain rfl : tag = (definition.id, value) :=
        List.inj_on_of_nodup_map h.ids_nodup htag hvalue hid
      exact ⟨hfirst, rfl⟩
    · exact absurd heq (tagField_ne_tagEnumField name call)
  · rintro ⟨hfirst, rfl⟩
    refine ⟨_, hvalue, mem_tagEntries.2 ⟨TagValue.isSet_iff.2 hset, .inl ⟨name, ?_, rfl, rfl⟩⟩⟩
    exact NetworkInfo.mem_callNames_iff.2 (.inr ⟨definition, hfirst⟩)

/-- The tag that is looked up by a number is the one of the first name. -/
theorem tag?_eq_some_iff_first (hname : (name, definition) ∈ network.tags) :
    network.tag? definition.id = some (name, definition) ↔
      ∀ tag ∈ network.tags, tag.2.id = definition.id → ¬ tag.1 < name := by
  have hordered : network.tags.Pairwise (·.1 < ·.1) := TextMap.pairwise_getD_entries network.tagsByName
  have hfirst : (network.tag? definition.id).map (·.1) = some name ↔
      ∀ tag ∈ network.tags, tag.2.id = definition.id → ¬ tag.1 < name := by
    rw [NetworkInfo.tag?, TextMap.find?_fst_eq_some_iff hordered]
    simp only [beq_iff_eq]
    constructor
    · rintro ⟨-, -, -, hleast⟩
      exact hleast
    · intro hleast
      exact ⟨definition, hname, rfl, hleast⟩
  rw [← hfirst, Option.map_eq_some_iff]
  constructor
  · intro hfound
    exact ⟨_, hfound, rfl⟩
  · rintro ⟨⟨_, found⟩, hfound, rfl⟩
    rw [hfound, definition_inj_of_name (NetworkInfo.mem_tags_of_tag? hfound).1 hname rfl]

end MemberRecord

/-! ## Main statements -/

/-- **Attributes stay inside the vocabulary.** Every field that a candidate carries is one that the network
offers, or that of the number of a set tag that the network does not have. All base fields are there; they
are the same for members and networks that differ in tags only, and those of addresses are what is picked
from the assignments for the version, for the older family and for the newer one. -/
theorem MemberRecord.attributes_within_vocabulary (member : MemberRecord) (network : NetworkInfo)
    (version : IpVersion) :
    (∀ field ∈ (member.attributes network version).keys,
      field ∈ network.knownFields.names ∨ ∃ id value, (id, value) ∈ member.tags ∧
        value ≠ .flag false ∧ id ∉ network.tags.map (·.2.id) ∧ field = tagField (idText id)) ∧
    (∀ field ∈ baseFields, field ∈ (member.attributes network version).keys ∧
      ∀ (member' : MemberRecord) (network' : NetworkInfo), member'.untagged = member.untagged →
        network'.untagged = network.untagged →
        (member'.attributes network' version).get? field =
          (member.attributes network version).get? field) ∧
    (member.attributes network version).get? "address" =
      some (Address.select member.ipAssignments version) ∧
    (member.attributes network version).get? "IPv4Address" =
      some (Address.select member.ipAssignments .v4) ∧
    (member.attributes network version).get? "IPv6Address" =
      some (Address.select member.ipAssignments .v6) := by
  refine ⟨fun field hfield => ?_, fun field hbase => ⟨?_, fun member' network' hmember hnetwork => ?_⟩,
    attributes_get?_addresses member network version⟩
  · by_cases hbase : field ∈ baseFields
    · exact .inl (mem_knownFields.2 (.inl hbase))
    · obtain ⟨tag, hmem, text, hentry⟩ := mem_keys_of_notMem_baseFields hbase hfield
      rcases offered_of_mem_tagEntries hentry with hknown | ⟨hnew, heq⟩
      · exact .inl hknown
      · exact .inr ⟨tag.1, tag.2, hmem, isSet_of_mem_tagEntries hentry, hnew, heq⟩
  · rw [TextMap.mem_keys_iff, attributes_get? hbase]
    exact baseAttributes_get?_ne_none hbase
  · exact attributes_get?_congr hmember hnetwork hbase

/-- A tag that is named like a base field, and one that the network does not have: the first one is offered
under its name, the second one is not offered, and the address is the one without tags. -/
theorem MemberRecord.attributes_within_vocabulary_tag_address :
    ∃ (member : MemberRecord) (network : NetworkInfo),
      member.tags = [(1, .number 7), (9, .flag true)] ∧ network.tags.map (·.1) = ["address"] ∧
      tagField "address" ∈ network.knownFields.names ∧
      tagField (idText 9) ∈ (member.attributes network .v6).keys ∧
      tagField (idText 9) ∉ network.knownFields.names ∧
      (∃ id value, (id, value) ∈ member.tags ∧ value ≠ .flag false ∧
        id ∉ network.tags.map (·.2.id) ∧ tagField (idText 9) = tagField (idText id)) ∧
      (member.untagged.attributes network.untagged .v6).get? "address" = some "fd00::1" ∧
      (member.attributes network .v6).get? "IPv4Address" = some "10.0.0.1" := by
  let member : MemberRecord := ⟨some "n", none, none, none, none,
    some ⟨some true, some ["10.0.0.1/24", "FD00::1"], none,
      some [(1, .number 7), (9, .flag true)], none⟩⟩
  let network : NetworkInfo := ⟨none, some (TextMap.ofList [("address", ⟨1, none⟩)]), none⟩
  obtain ⟨hkeys, hbase, haddress, hv4, -⟩ := attributes_within_vocabulary member network .v6
  have hnamed : tagField "address" ∈ (member.attributes network .v6).keys := by decide +kernel
  have hnumber : tagField (idText 9) ∈ (member.attributes network .v6).keys := by decide +kernel
  have hoffered : tagField (idText 9) ∉ network.knownFields.names := by decide +kernel
  have hnot : ¬ ∃ id value, (id, value) ∈ member.tags ∧ value ≠ .flag false ∧
      id ∉ network.tags.map (·.2.id) ∧ tagField "address" = tagField (idText id) := by
    rintro ⟨id, value, hmem, -, -, heq⟩
    have htags : member.tags = [(1, .number 7), (9, .flag true)] := rfl
    rw [htags] at hmem
    have hname := tagField_inj.1 heq
    simp only [List.mem_cons, Prod.mk.injEq, List.not_mem_nil, or_false] at hmem
    rcases hmem with ⟨rfl, -⟩ | ⟨rfl, -⟩ <;> revert hname <;> decide +kernel
  refine ⟨member, network, rfl, by decide +kernel, (hkeys _ hnamed).resolve_right hnot, hnumber,
    hoffered, (hkeys _ hnumber).resolve_left hoffered, ?_, ?_⟩
  · have hsame := (hbase "address" (by decide)).2 member.untagged network.untagged rfl rfl
    rw [hsame, haddress]
    decide +kernel
  · rw [hv4]
    decide +kernel

/-- **Names that share a number.** Of the names that the network has for the number of a set tag, the first
one is carried with the text of the tag's value, and the others are missing although all of them are
offered. -/
theorem MemberRecord.tagField_of_shared_id {member : MemberRecord} {network : NetworkInfo}
    (h : NamesApart member network) (version : IpVersion) {name : String} {definition : TagDefinition}
    {value : TagValue} (hname : (name, definition) ∈ network.tags)
    (hvalue : (definition.id, value) ∈ member.tags) (hset : value ≠ .flag false) :
    tagField name ∈ network.knownFields.names ∧
    ((∀ tag ∈ network.tags, tag.2.id = definition.id → ¬ tag.1 < name) →
      (member.attributes network version).get? (tagField name) = some value.render) ∧
    ((∃ tag ∈ network.tags, tag.2.id = definition.id ∧ tag.1 < name) →
      (member.attributes network version).get? (tagField name) = none) := by
  refine ⟨mem_knownFields.2 (.inr ⟨_, hname, by simp [tagFields]⟩), fun hfirst => ?_, ?_⟩
  · rw [attributes_eq]
    apply TextMap.get?_insertAll_of_mem
    · exact (h.mem_tagEntries_iff hname hvalue hset).2 ⟨(tag?_eq_some_iff_first hname).2 hfirst, rfl⟩
    · intro text htext
      exact ((h.mem_tagEntries_iff hname hvalue hset).1 htext).2
  · rintro ⟨tag, hmem, hid, hlt⟩
    rw [attributes_eq, TextMap.get?_insertAll_of_notMem,
      baseAttributes_get?_eq_none (tagField_notMem_baseFields name)]
    intro text htext
    obtain ⟨hfound, -⟩ := (h.mem_tagEntries_iff hname hvalue hset).1 htext
    exact (tag?_eq_some_iff_first hname).1 hfound tag hmem hid hlt

/-- Two names for one number, and a name of digits that are no number. -/
theorem MemberRecord.tagField_of_shared_id_role_rank :
    ∃ (member : MemberRecord) (network : NetworkInfo), NamesApart member network ∧
      member.tags = [(3, .number 12), (4, .flag true)] ∧
      network.tags.map (·.1) = ["7", "rank", "role"] ∧
      (member.attributes network .v4).get? (tagField "rank") = some "12" ∧
      (member.attributes network .v4).get? (tagField "role") = none ∧
      tagField "role" ∈ network.knownFields.names ∧
      (member.attributes network .v4).get? (tagField "7") = some "true" := by
  let member : MemberRecord := ⟨none, none, none, none, none, some ⟨none, none, none,
    some [(3, .number 12), (4, .flag true)], none⟩⟩
  let network : NetworkInfo :=
    ⟨none, some (TextMap.ofList [("role", ⟨3, none⟩), ("rank", ⟨3, none⟩), ("7", ⟨4, none⟩)]), none⟩
  have hapart : NamesApart member network := ⟨by decide +kernel, by decide +kernel⟩
  have hthree : ((3 : Int64), TagValue.number 12) ∈ member.tags := by decide +kernel
  have hfour : ((4 : Int64), TagValue.flag true) ∈ member.tags := by decide +kernel
  have hname : ("rank", (⟨3, none⟩ : TagDefinition)) ∈ network.tags := by decide +kernel
  have hname' : ("role", (⟨3, none⟩ : TagDefinition)) ∈ network.tags := by decide +kernel
  have hdigits : ("7", (⟨4, none⟩ : TagDefinition)) ∈ network.tags := by decide +kernel
  have hrank := tagField_of_shared_id hapart .v4 hname hthree (by decide)
  have hrole := tagField_of_shared_id hapart .v4 hname' hthree (by decide)
  have hseven := tagField_of_shared_id hapart .v4 hdigits hfour (by decide)
  have htwelve : (TagValue.number 12).render = "12" := by decide +kernel
  refine ⟨member, network, hapart, rfl, by decide +kernel, ?_, hrole.2.2 (by decide +kernel), hrole.1,
    hseven.2.1 (by decide +kernel)⟩
  rw [← htwelve]
  exact hrank.2.1 (by decide +kernel)

/-- The second name of a number is offered, and missing on a member that has the tag. -/
theorem MemberRecord.tagField_second_name_missing :
    let member : MemberRecord :=
      ⟨none, none, none, none, none, some ⟨none, none, none, some [(1, .number 5)], none⟩⟩
    let network : NetworkInfo :=
      ⟨none, some (TextMap.ofList [("a", ⟨1, none⟩), ("b", ⟨1, none⟩)]), none⟩
    NamesApart member network ∧ ("b", ⟨1, none⟩) ∈ network.tags ∧ (1, .number 5) ∈ member.tags ∧
      tagField "b" ∈ network.knownFields.names ∧
      (member.attributes network .v4).get? (tagField "b") = none :=
  ⟨⟨by decide +kernel, by decide +kernel⟩, by decide +kernel, by decide +kernel, by decide +kernel,
    by decide +kernel⟩

end SlotQuery
