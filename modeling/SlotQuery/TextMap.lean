/-!
# Maps from texts

A map from texts kept in the order of its keys, so that two maps with the same entries are equal.
`get?_insert` says what `insert` does to the view `get?`.
-/

namespace SlotQuery

/-- A finite map from texts, its entries in ascending order of their keys. -/
structure TextMap (α : Type) where
  entries : List (String × α)
  ordered : entries.Pairwise (·.1 < ·.1)
deriving DecidableEq, Repr

namespace TextMap

variable {α : Type}

@[ext] theorem ext {m n : TextMap α} (h : m.entries = n.entries) : m = n := by
  cases m
  cases n
  cases h
  rfl

/-- The ascending entries with one more, or with another value under a key that is there. -/
def put (key : String) (value : α) : List (String × α) → List (String × α)
  | [] => [(key, value)]
  | e :: es =>
    if key < e.1 then (key, value) :: e :: es
    else if key = e.1 then (key, value) :: es
    else e :: put key value es

theorem mem_put {key : String} {value : α} {es : List (String × α)} {e : String × α}
    (h : e ∈ put key value es) : e = (key, value) ∨ e ∈ es := by
  induction es with
  | nil => simpa [put] using h
  | cons d ds ih => grind [put]

theorem pairwise_put {es : List (String × α)} (h : es.Pairwise (·.1 < ·.1)) (key : String)
    (value : α) : (put key value es).Pairwise (·.1 < ·.1) := by
  induction es with
  | nil => simp [put]
  | cons d ds ih =>
    obtain ⟨hd, hds⟩ := List.pairwise_cons.1 h
    unfold put
    split
    · next hlt =>
      refine List.pairwise_cons.2 ⟨fun e he => ?_, h⟩
      rcases List.mem_cons.1 he with rfl | he
      · exact hlt
      · exact String.lt_trans hlt (hd e he)
    · next hge =>
      split
      · next heq =>
        subst heq
        exact List.pairwise_cons.2 ⟨hd, hds⟩
      · next hne =>
        refine List.pairwise_cons.2 ⟨fun e he => ?_, ih hds⟩
        rcases mem_put he with rfl | he
        · have hle : d.1 ≤ key := String.not_lt.1 hge
          exact Std.lt_of_le_of_ne hle fun h => hne h.symm
        · exact hd e he

/-- The map without entries. -/
def empty : TextMap α := ⟨[], .nil⟩

instance : Inhabited (TextMap α) := ⟨empty⟩

/-- The value under the key. -/
def get? (m : TextMap α) (key : String) : Option α :=
  (m.entries.find? (·.1 == key)).map (·.2)

/-- The map with the value under the key, in place of the one that was there. -/
def insert (m : TextMap α) (key : String) (value : α) : TextMap α :=
  ⟨put key value m.entries, pairwise_put m.ordered key value⟩

/-- The map of the entries; the last one under a key counts. -/
def ofList (entries : List (String × α)) : TextMap α :=
  entries.foldl (fun m e => m.insert e.1 e.2) empty

/-- The keys in ascending order. -/
def keys (m : TextMap α) : List String := m.entries.map (·.1)

@[simp] theorem get?_empty (key : String) : (empty : TextMap α).get? key = none := rfl

theorem find?_put {es : List (String × α)} (h : es.Pairwise (·.1 < ·.1)) (key k : String)
    (value : α) : ((put key value es).find? (·.1 == k)).map (·.2) =
      if k = key then some value else (es.find? (·.1 == k)).map (·.2) := by
  induction es with
  | nil => by_cases hk : k = key <;> grind [put]
  | cons d ds ih =>
    obtain ⟨hd, hds⟩ := List.pairwise_cons.1 h
    have := ih hds
    unfold put
    split
    · by_cases hk : k = key <;> grind
    · split
      · by_cases hk : k = key <;> grind
      · by_cases hk : k = key <;> grind

@[simp] theorem get?_insert (m : TextMap α) (key k : String) (value : α) :
    (m.insert key value).get? k = if k = key then some value else m.get? k :=
  find?_put m.ordered key k value

/-- A key beyond all others comes last. -/
theorem put_eq_append {es : List (String × α)} {key : String} (h : ∀ e ∈ es, e.1 < key)
    (value : α) : put key value es = es ++ [(key, value)] := by
  induction es with
  | nil => rfl
  | cons e es ih =>
    obtain ⟨he, hes⟩ := List.forall_mem_cons.1 h
    have hne : key ≠ e.1 := fun heq => String.lt_irrefl _ (heq ▸ he)
    rw [put, if_neg (String.lt_asymm he), if_neg hne, ih hes, List.cons_append]

theorem entries_foldl_insert (m : TextMap α) (es : List (String × α))
    (h : (m.entries ++ es).Pairwise (·.1 < ·.1)) :
    (es.foldl (fun m e => m.insert e.1 e.2) m).entries = m.entries ++ es := by
  induction es generalizing m with
  | nil => simp
  | cons e es ih =>
    have hlast : ∀ d ∈ m.entries, d.1 < e.1 := fun d hd =>
      (List.pairwise_append.1 h).2.2 d hd e List.mem_cons_self
    have hentries : (m.insert e.1 e.2).entries = m.entries ++ [e] := put_eq_append hlast e.2
    rw [List.foldl_cons, ih, hentries, List.append_assoc, List.singleton_append]
    rwa [hentries, List.append_assoc, List.singleton_append]

/-- A map is that of its entries. -/
theorem ofList_entries (m : TextMap α) : ofList m.entries = m :=
  ext (entries_foldl_insert empty m.entries m.ordered)

end TextMap

end SlotQuery
