/-!
# Known fields

The closed vocabulary of field names that a query may refer to. It also decides where a condition
ends, because only a known field can start the next one.
-/

namespace SlotQuery

/-- Field names without repetition, in the order in which they were added. -/
structure FieldSet where
  names : List String
  nodup : names.Nodup
deriving DecidableEq, Repr

namespace FieldSet

/-- The set without names. -/
def empty : FieldSet := ⟨[], .nil⟩

instance : Inhabited FieldSet := ⟨empty⟩

/-- The name is known. -/
def contains (fields : FieldSet) (name : String) : Bool := fields.names.contains name

/-- The set with one more name, behind the others unless it is there. -/
def insert (fields : FieldSet) (name : String) : FieldSet :=
  if h : name ∈ fields.names then fields
  else ⟨fields.names ++ [name], by
    refine List.nodup_append.2 ⟨fields.nodup, by simp, ?_⟩
    intro a ha b hb
    rintro rfl
    simp only [List.mem_singleton] at hb
    exact h (hb ▸ ha)⟩

/-- The set with the names added one by one. -/
def extend (fields : FieldSet) (names : List String) : FieldSet := names.foldl insert fields

/-- The set of the names. -/
def ofList (names : List String) : FieldSet := empty.extend names

/-- The number of names. -/
def size (fields : FieldSet) : Nat := fields.names.length

theorem contains_iff {fields : FieldSet} {name : String} :
    fields.contains name = true ↔ name ∈ fields.names := by
  simp [contains]

theorem mem_insert {fields : FieldSet} {name n : String} :
    n ∈ (fields.insert name).names ↔ n ∈ fields.names ∨ n = name := by
  unfold insert
  split
  · next h => grind
  · simp

theorem mem_extend {fields : FieldSet} {names : List String} {n : String} :
    n ∈ (fields.extend names).names ↔ n ∈ fields.names ∨ n ∈ names := by
  induction names generalizing fields with
  | nil => simp [extend]
  | cons a as ih =>
    have h : fields.extend (a :: as) = (fields.insert a).extend as := rfl
    rw [h, ih, mem_insert, List.mem_cons, or_assoc]

theorem mem_ofList {names : List String} {n : String} :
    n ∈ (ofList names).names ↔ n ∈ names := by
  simp [ofList, mem_extend, empty]

end FieldSet

end SlotQuery
