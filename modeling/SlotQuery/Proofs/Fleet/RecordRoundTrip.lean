import SlotQuery.Fleet.RecordJson

/-!
# Records written and read back

`Json.ReadsBack` pairs a way of writing with a way of reading: what is written reads back, and is never
the null that stands for nothing. It holds of the scalars and passes on to lists, maps, optional fields
and records; a record is an object of its keys in order, so each key finds the value written under it
(`Json.fields?_zip`). Main statement: `records_read_back`.
-/

namespace SlotQuery

namespace Json

variable {α : Type} {encode : α → Json} {decode? : Json → Option α}

/-- What is written reads back, and is not written as if there were nothing. -/
structure ReadsBack (encode : α → Json) (decode? : Json → Option α) : Prop where
  decode_encode (a : α) : decode? (encode a) = some a
  encode_ne_null (a : α) : encode a ≠ null

/-! ## Values -/

theorem readsBack_text : ReadsBack text asText? where
  decode_encode _ := rfl
  encode_ne_null _ := nofun

theorem readsBack_bool : ReadsBack bool asBool? where
  decode_encode _ := rfl
  encode_ne_null _ := nofun

theorem readsBack_int64 : ReadsBack ofInt64 asInt64? where
  decode_encode n := by
    have hlow : Int64.minValue.toInt ≤ n.toInt := Int64.minValue_le_toInt n
    have hhigh : n.toInt ≤ Int64.maxValue.toInt := Int64.toInt_le n
    have hrange : (Int64.minValue.toInt ≤ n.toInt && n.toInt ≤ Int64.maxValue.toInt) = true := by
      simp only [Bool.and_eq_true, decide_eq_true_eq]
      exact ⟨hlow, hhigh⟩
    rw [ofInt64, asInt64?, if_pos hrange, Int64.ofInt_toInt]
  encode_ne_null _ := nofun

/-! ## Values within values -/

/-- Item by item, a list comes back. -/
theorem ReadsBack.mapM (h : ReadsBack encode decode?) (as : List α) :
    (as.map encode).mapM decode? = some as := by
  induction as with
  | nil => rfl
  | cons a as ih => simp [h.decode_encode, ih]

theorem ReadsBack.list (h : ReadsBack encode decode?) :
    ReadsBack (ofList encode) (asList? decode?) where
  decode_encode as := h.mapM as
  encode_ne_null _ := nofun

/-- The entries of a map come in the order of their keys, each key once, so none is lost. -/
theorem ReadsBack.map (h : ReadsBack encode decode?) :
    ReadsBack (ofMap encode) (asMap? decode?) where
  decode_encode m := by
    have hentries (es : List (String × α)) : (es.map fun e => (e.1, encode e.2)).mapM
        (fun e => (decode? e.2).map fun a => (e.1, a)) = some es := by
      induction es with
      | nil => rfl
      | cons e es ih => simp [h.decode_encode, ih]
    rw [ofMap, asMap?, hentries, Option.map_some, TextMap.ofList_entries]
  encode_ne_null _ := nofun

/-- What is missing is written as null and read as missing. -/
theorem ReadsBack.option (h : ReadsBack encode decode?) (a? : Option α) :
    asOption? decode? (some (ofOption encode a?)) = some a? := by
  cases a? with
  | none => rfl
  | some a =>
    have hne := h.encode_ne_null a
    have hread := h.decode_encode a
    rw [ofOption]
    unfold asOption?
    split
    · next heq => cases heq
    · next heq => exact absurd (Option.some.inj heq) hne
    · next heq =>
      obtain rfl := Option.some.inj heq
      rw [hread]
      rfl

/-! ## Objects -/

/-- A key that stands once among the members has its value. -/
theorem field?_of_mem {ms : List (String × Json)} (hkeys : (ms.map Prod.fst).Nodup)
    {m : String × Json} (hm : m ∈ ms) : field? ms m.1 = some (some m.2) := by
  have hfilter : ms.filter (·.1 == m.1) = [m] := by
    induction ms with
    | nil => cases hm
    | cons d ds ih =>
      rw [List.map_cons, List.nodup_cons] at hkeys
      obtain ⟨hd, hds⟩ := hkeys
      rcases List.mem_cons.1 hm with rfl | hm
      · have hnone : ds.filter (·.1 == m.1) = [] := by
          rw [List.filter_eq_nil_iff]
          intro e he heq
          exact hd (beq_iff_eq.1 heq ▸ List.mem_map_of_mem he)
        rw [List.filter_cons_of_pos (by simp), hnone]
      · have hne : d.1 ≠ m.1 := fun heq => hd (heq ▸ List.mem_map_of_mem hm)
        rw [List.filter_cons_of_neg (by simpa using hne), ih hds hm]
  rw [field?, hfilter]

/-- Every key finds the value it was written with. -/
theorem mapM_field?_zip {ms : List (String × Json)} {keys : List String} {js : List Json}
    (hlen : keys.length = js.length)
    (h : ∀ p ∈ keys.zip js, field? ms p.1 = some (some p.2)) :
    keys.mapM (field? ms) = some (js.map some) := by
  induction keys generalizing js with
  | nil =>
    obtain rfl := List.eq_nil_of_length_eq_zero hlen.symm
    rfl
  | cons key keys ih =>
    cases js with
    | nil => cases hlen
    | cons j js =>
      rw [List.zip_cons_cons, List.forall_mem_cons] at h
      have hkeys := ih (Nat.succ.inj hlen) h.2
      simp [h.1, hkeys]

/-- An object of the keys in order has the values in order. -/
theorem fields?_zip {keys : List String} {js : List Json} (hkeys : keys.Nodup)
    (hlen : keys.length = js.length) :
    fields? keys (object (keys.zip js)) = some (js.map some) := by
  apply mapM_field?_zip hlen
  intro p hp
  apply field?_of_mem _ hp
  rwa [List.map_fst_zip (Nat.le_of_eq hlen)]

end Json

open Json

/-! ## Records -/

/-- Numbers and flags are told apart by their form alone. -/
theorem TagValue.readsBack : ReadsBack toJson ofJson? where
  decode_encode v := by
    cases v with
    | number n =>
      have hread := readsBack_int64.decode_encode n
      rw [toJson, ofJson?]
      · rw [hread]
        rfl
      · nofun
    | flag b => rfl
  encode_ne_null v := by cases v <;> nofun

theorem MemberConfig.readsBack_tag :
    ReadsBack (fun t : Int64 × TagValue => .list [ofInt64 t.1, t.2.toJson]) tagOfJson? where
  decode_encode t := by
    simp only [tagOfJson?, readsBack_int64.decode_encode, TagValue.readsBack.decode_encode]
    rfl
  encode_ne_null _ := nofun

theorem MemberConfig.readsBack : ReadsBack toJson ofJson? where
  decode_encode c := by
    have hfields : fields? keys c.toJson = some _ := @fields?_zip keys [_, _, _, _, _] (by decide) rfl
    simp only [ofJson?, hfields, List.map_cons, List.map_nil, Option.bind_eq_bind, Option.bind_some,
      readsBack_bool.option, readsBack_text.option, readsBack_text.list.option,
      readsBack_int64.list.option, readsBack_tag.list.option, Option.pure_def]
  encode_ne_null _ := nofun

theorem MemberRecord.readsBack : ReadsBack toJson ofJson? where
  decode_encode m := by
    have hfields : fields? keys m.toJson = some _ :=
      @fields?_zip keys [_, _, _, _, _, _] (by decide) rfl
    simp only [ofJson?, hfields, List.map_cons, List.map_nil, Option.bind_eq_bind, Option.bind_some,
      readsBack_text.option, readsBack_int64.option, MemberConfig.readsBack.option, Option.pure_def]
  encode_ne_null _ := nofun

/-- The number of a tag is always written, so it is never taken for a missing one. -/
theorem TagDefinition.readsBack : ReadsBack toJson ofJson? where
  decode_encode d := by
    have hfields : fields? keys d.toJson = some _ := @fields?_zip keys [_, _] (by decide) rfl
    simp only [ofJson?, hfields, List.map_cons, List.map_nil, Option.bind_eq_bind, Option.bind_some,
      readsBack_int64.decode_encode, readsBack_int64.map.option, Option.pure_def]
  encode_ne_null _ := nofun

theorem NetworkConfig.readsBack : ReadsBack toJson ofJson? where
  decode_encode c := by
    have hfields : fields? ["name"] c.toJson = some _ := @fields?_zip ["name"] [_] (by decide) rfl
    simp only [ofJson?, hfields, List.map_cons, List.map_nil, Option.bind_eq_bind, Option.bind_some,
      readsBack_text.option, Option.pure_def]
  encode_ne_null _ := nofun

theorem NetworkInfo.readsBack : ReadsBack toJson ofJson? where
  decode_encode n := by
    have hfields : fields? keys n.toJson = some _ := @fields?_zip keys [_, _, _] (by decide) rfl
    simp only [ofJson?, hfields, List.map_cons, List.map_nil, Option.bind_eq_bind, Option.bind_some,
      readsBack_int64.map.option, TagDefinition.readsBack.map.option, NetworkConfig.readsBack.option,
      Option.pure_def]
  encode_ne_null _ := nofun

/-- **Records survive a write and a read.** Members, networks and attributes read back from the JSON
values that they are written as: fields without a value, tags that are numbers or flags, integers at
either end of their range, and maps with any texts as keys. -/
theorem records_read_back :
    (∀ m : MemberRecord, MemberRecord.ofJson? m.toJson = some m) ∧
    (∀ n : NetworkInfo, NetworkInfo.ofJson? n.toJson = some n) ∧
    ∀ a : Attributes, Attributes.ofJson? a.toJson = some a :=
  ⟨MemberRecord.readsBack.decode_encode, NetworkInfo.readsBack.decode_encode,
    readsBack_text.map.decode_encode⟩

end SlotQuery
