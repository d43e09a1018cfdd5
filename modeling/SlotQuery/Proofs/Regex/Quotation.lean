import SlotQuery.Regex.Parser

/-!
# Quoted text in patterns

`quote` writes a text so that it stands for itself in a pattern: a backslash goes in front of every
character that may mean something else somewhere in a pattern. `Spells` is a piece of a pattern together
with the items that the parser reads from it, wherever it stands in a group. Main statement:
`spells_quote`.
-/

namespace SlotQuery.Regex

/-- The characters that may mean something in a pattern. -/
def metaChars : List Char :=
  ['\\', '.', '+', '*', '?', '(', ')', '|', '[', ']', '\x7b', '\x7d', '^', '$', '#', '&', '-', '~']

/-- A character, written so that it stands for itself. -/
def quoteChar (c : Char) : List Char := if c ∈ metaChars then ['\\', c] else [c]

/-- A text, written so that it stands for itself. -/
def quote (cs : List Char) : List Char := cs.flatMap quoteChar

namespace Branches

/-- More items of the branch at hand. -/
def pushAll (b : Branches) (rs : List Regex) : Branches := rs.foldl (fun b r => b.push (some r)) b

theorem pushAll_append (b : Branches) (rs ss : List Regex) :
    b.pushAll (rs ++ ss) = (b.pushAll rs).pushAll ss := by
  simp [pushAll]

theorem pushAll_eq (b : Branches) (rs : List Regex) :
    b.pushAll rs = { b with items := (rs.map some).reverse ++ b.items } := by
  induction rs generalizing b with
  | nil => rfl
  | cons r rs ih =>
    rw [show b.pushAll (r :: rs) = (b.push (some r)).pushAll rs from rfl, ih]
    simp [push]

theorem toRegex_pushAll (rs : List Regex) : (pushAll {} rs).toRegex = sequence rs := by
  simp [pushAll_eq, toRegex, current, List.filterMap_map]

end Branches

variable {flags : Flags} {cs ds rest : List Char} {rs ss : List Regex} {c : Char}

/-! ## Pieces that are read as items -/

/-- Wherever it stands in a group, the text is read as the items. Reading an item takes no more steps
than the text has characters, so at least `fuel` of them are left. -/
def Spells (flags : Flags) (cs : List Char) (rs : List Regex) : Prop :=
  ∀ fuel names b rest, ∃ fuel' ≥ fuel,
    groupRest (fuel + cs.length) flags names b (cs ++ rest) =
      groupRest fuel' flags names (b.pushAll rs) rest

theorem spells_nil (flags : Flags) : Spells flags [] [] :=
  fun fuel _ _ _ => ⟨fuel, Nat.le_refl fuel, rfl⟩

theorem Spells.append (h : Spells flags cs rs) (h' : Spells flags ds ss) :
    Spells flags (cs ++ ds) (rs ++ ss) := by
  intro fuel names b rest
  obtain ⟨fuel₁, hle₁, hcs⟩ := h (fuel + ds.length) names b (ds ++ rest)
  obtain ⟨extra, rfl⟩ := Nat.exists_eq_add_of_le hle₁
  obtain ⟨fuel₂, hle₂, hds⟩ := h' (fuel + extra) names (b.pushAll rs) rest
  refine ⟨fuel₂, by omega, ?_⟩
  rw [List.append_assoc, List.length_append, Branches.pushAll_append, ← hds,
    show fuel + (cs.length + ds.length) = fuel + ds.length + cs.length by omega, hcs,
    show fuel + ds.length + extra = fuel + extra + ds.length by omega]

/-- A text that is one item takes one step. -/
theorem spells_item {r : Regex} (hflags : flags.spaced = false) (hcs : cs ≠ [])
    (h : ∀ rest, piece flags (cs ++ rest) = some (.item r, rest)) : Spells flags cs [r] := by
  intro fuel names b rest
  obtain ⟨n, hn⟩ := Nat.exists_eq_succ_of_ne_zero (mt List.eq_nil_of_length_eq_zero hcs)
  refine ⟨fuel + n, Nat.le_add_right fuel n, ?_⟩
  have hskip : flags.skip (cs ++ rest) = cs ++ rest := by simp [Flags.skip, hflags]
  rw [hn, show fuel + n.succ = fuel + n + 1 by omega, groupRest, hskip, h rest]
  rfl

/-- A pattern that is one piece after the other is the sequence of their items. -/
theorem Spells.parse?_eq (h : Spells flags cs rs) (hflags : flags.spaced = false) :
    parse? flags cs = some (sequence rs) := by
  obtain ⟨fuel', hle, hread⟩ := h 1 [] {} []
  obtain ⟨n, rfl⟩ := Nat.exists_eq_add_of_le' hle
  rw [List.append_nil, Nat.add_comm] at hread
  have hend : groupRest (n + 1) flags [] (Branches.pushAll {} rs) [] =
      some (sequence rs, [], []) := by
    rw [groupRest, show flags.skip [] = [] by simp [Flags.skip, hflags], ← Branches.toRegex_pushAll]
    rfl
  rw [parse?, hread, hend]

/-! ## Characters that stand for themselves -/

/-- Behind a backslash, a character with a meaning stands for itself. -/
theorem escape_of_mem (h : c ∈ metaChars) : escape (c :: rest) = some (.char c, rest) := by
  simp only [metaChars, List.mem_cons, List.not_mem_nil, or_false] at h
  rcases h with rfl | rfl | rfl | rfl | rfl | rfl | rfl | rfl | rfl | rfl | rfl | rfl | rfl | rfl |
    rfl | rfl | rfl | rfl <;> rfl

/-- Any other character does so without one. -/
theorem piece_of_notMem (h : c ∉ metaChars) :
    piece flags (c :: rest) = some (.item (chars (.literal flags.foldCase c)), rest) := by
  simp only [metaChars, List.mem_cons, List.not_mem_nil, or_false, not_or] at h
  simp [piece, h]

theorem piece_quoteChar (flags : Flags) (c : Char) (rest : List Char) :
    piece flags (quoteChar c ++ rest) = some (.item (chars (.literal flags.foldCase c)), rest) := by
  unfold quoteChar
  split
  · next h =>
    have hescape : escape (c :: rest) = _ := escape_of_mem h
    simp [piece, hescape, Escape.toRegex]
  · next h => exact piece_of_notMem h

theorem spells_quoteChar (hflags : flags.spaced = false) (c : Char) :
    Spells flags (quoteChar c) [chars (.literal flags.foldCase c)] := by
  refine spells_item hflags ?_ (piece_quoteChar flags c)
  unfold quoteChar
  split <;> exact List.cons_ne_nil _ _

/-- **Quoted text is literal.** Whatever its characters mean in a pattern, a quoted text is read as
these characters one after the other. -/
theorem spells_quote (hflags : flags.spaced = false) (w : List Char) :
    Spells flags (quote w) (w.map fun c => chars (.literal flags.foldCase c)) := by
  induction w with
  | nil => exact spells_nil flags
  | cons c w ih => exact (spells_quoteChar hflags c).append ih

end SlotQuery.Regex
