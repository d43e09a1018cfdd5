import Mathlib.Data.Bool.AllAny
import Mathlib.Data.List.DropRight
import Mathlib.Data.List.Nodup
import SlotQuery.Fleet.Address
import SlotQuery.Proofs.Text.CaseChanges
import SlotQuery.Text.Digit

/-!
# Forms of one address

An address of eight groups has many written forms: digits in either case, leading zeros or none, and one
run of zero groups left out. `Address.Denotes` says which values a form denotes. Every form is spelt out
to the text with eight groups of four lower-case digits that denotes the same values
(`Address.Denotes.expandChars_eq`), and there is one such text for the values (`Address.AllFull.unique`).
Main statement: `Address.same_iff_values`.
-/

namespace SlotQuery

namespace Address

open Text

/-! ## Forms and their values -/

/-- The digits in which an address is spelt out. -/
def lowerHexDigits : List Char :=
  ['0', '1', '2', '3', '4', '5', '6', '7', '8', '9', 'a', 'b', 'c', 'd', 'e', 'f']

/-- The digits of a group. -/
def hexDigits : List Char := lowerHexDigits ++ ['A', 'B', 'C', 'D', 'E', 'F']

/-- One to four digits. -/
structure IsGroup (g : List Char) : Prop where
  ne_nil : g ≠ []
  length_le : g.length ≤ 4
  digits : ∀ c ∈ g, c ∈ hexDigits

/-- Four digits in lower case. -/
structure IsFull (g : List Char) : Prop where
  length_eq : g.length = 4
  digits : ∀ c ∈ g, c ∈ lowerHexDigits

/-- The value of a digit. -/
def digitValue (c : Char) : Nat := (hexDigit? c).getD 0

/-- The number that a group spells. -/
def groupValue (g : List Char) : Nat := g.foldl (fun n c => 16 * n + digitValue c) 0

/-- Groups with a colon between any two of them. -/
def join (gs : List (List Char)) : List Char := [':'].intercalate gs

/-- The zero group, spelt out. -/
def zeroGroup : List Char := ['0', '0', '0', '0']

/-- Whatever may stand between colons. -/
structure IsPiece (g : List Char) : Prop where
  ne_nil : g ≠ []
  colon_notMem : ':' ∉ g

/-- The text consists of the eight pieces, or of fewer and a double colon in place of the zero groups. -/
inductive LaidOut : List Char → List (List Char) → Prop where
  | all {gs : List (List Char)} : gs.length = 8 → (∀ g ∈ gs, IsPiece g) → LaidOut (join gs) gs
  | compressed {front back : List (List Char)} : front.length + back.length < 8 →
      (∀ g ∈ front, IsPiece g) → (∀ g ∈ back, IsPiece g) →
      LaidOut (join front ++ ':' :: ':' :: join back)
        (front ++ List.replicate (8 - (front.length + back.length)) zeroGroup ++ back)

/-- The text is a form of an address with the eight values: all eight groups, or fewer with a double
colon in place of one or more zero groups. -/
inductive Denotes : List Char → List Nat → Prop where
  | all {gs : List (List Char)} : gs.length = 8 → (∀ g ∈ gs, IsGroup g) →
      Denotes (join gs) (gs.map groupValue)
  | compressed {front back : List (List Char)} : front.length + back.length < 8 →
      (∀ g ∈ front, IsGroup g) → (∀ g ∈ back, IsGroup g) →
      Denotes (join front ++ ':' :: ':' :: join back)
        (front.map groupValue ++ List.replicate (8 - (front.length + back.length)) 0 ++
          back.map groupValue)

/-- The text is such a form, perhaps with white space around it. -/
def Writes (text : String) (values : List Nat) : Prop :=
  ∃ before form after, text.toList = before ++ form ++ after ∧
    (∀ c ∈ before, isBlank c = true) ∧ (∀ c ∈ after, isBlank c = true) ∧ Denotes form values

/-- Groups of four lower-case digits, with these values. -/
structure AllFull (gs : List (List Char)) (values : List Nat) : Prop where
  full : ∀ g ∈ gs, IsFull g
  values_eq : gs.map groupValue = values

/-- Eight of them. -/
structure Spelt (gs : List (List Char)) (values : List Nat) : Prop extends AllFull gs values where
  length_eq : gs.length = 8

variable {g : List Char} {gs hs : List (List Char)} {a : List Char} {values : List Nat}

/-! ## Digits -/

theorem hexDigits_ascii : ∀ c ∈ hexDigits, c.toNat < 0x80 :=
  List.all_iff_forall_prop.1 (by decide)

theorem hexDigits_not_isBlank : ∀ c ∈ hexDigits, isBlank c = false :=
  List.all_iff_forall_prop.1 (by decide)

theorem colon_notMem_hexDigits : ':' ∉ hexDigits := by decide

/-- Capital digits have small ones. -/
theorem toLower_mem_lowerHexDigits : ∀ c ∈ hexDigits, c.toLower ∈ lowerHexDigits :=
  List.all_iff_forall_prop.1 (by decide)

/-- A digit is worth the same in either case. -/
theorem digitValue_toLower : ∀ c ∈ hexDigits, digitValue c.toLower = digitValue c :=
  List.all_iff_forall_prop.1 (by decide +kernel)

theorem toLower_of_mem_lowerHexDigits : ∀ c ∈ lowerHexDigits, c.toLower = c :=
  List.all_iff_forall_prop.1 (by decide)

theorem digitValue_lt : ∀ c ∈ lowerHexDigits, digitValue c < 16 :=
  List.all_iff_forall_prop.1 (by decide +kernel)

/-- Small digits are told apart by what they are worth. -/
theorem digitValue_inj :
    ∀ c ∈ lowerHexDigits, ∀ d ∈ lowerHexDigits, digitValue c = digitValue d → c = d := by
  intro c hc d hd
  exact List.inj_on_of_nodup_map (by decide) hc hd

/-! ## Groups -/

theorem IsGroup.isPiece (h : IsGroup g) : IsPiece g where
  ne_nil := h.ne_nil
  colon_notMem hmem := colon_notMem_hexDigits (h.digits ':' hmem)

theorem isGroup_iff : IsGroup g ↔ g ≠ [] ∧ g.length ≤ 4 ∧ g.all (· ∈ hexDigits) = true := by
  rw [List.all_iff_forall_prop]
  constructor
  · intro h
    exact ⟨h.ne_nil, h.length_le, h.digits⟩
  · rintro ⟨hne, hlength, hdigits⟩
    exact ⟨hne, hlength, hdigits⟩

instance : Decidable (IsGroup g) := decidable_of_iff _ isGroup_iff.symm

theorem isGroup_zeroGroup : IsGroup zeroGroup := by decide

theorem IsFull.isGroup (h : IsFull g) : IsGroup g where
  ne_nil := by
    rintro rfl
    cases h.length_eq
  length_le := Nat.le_of_eq h.length_eq
  digits c hc := List.mem_append_left _ (h.digits c hc)

/-- A group stays one in lower case. -/
theorem IsGroup.lower (h : IsGroup g) : IsGroup (g.map Char.toLower) where
  ne_nil := fun hnil => h.ne_nil (List.map_eq_nil_iff.1 hnil)
  length_le := by
    rw [List.length_map]
    exact h.length_le
  digits c hc := by
    obtain ⟨d, hd, rfl⟩ := List.mem_map.1 hc
    exact List.mem_append_left _ (toLower_mem_lowerHexDigits d (h.digits d hd))

theorem groupValue_map_toLower (h : ∀ c ∈ g, c ∈ hexDigits) :
    groupValue (g.map Char.toLower) = groupValue g := by
  rw [groupValue, groupValue, List.foldl_map]
  apply List.foldl_ext
  intro n c hc
  rw [digitValue_toLower c (h c hc)]

theorem mem_lowerHexDigits_of_mem_padded (h : ∀ c ∈ g, c ∈ hexDigits) {n : Nat} :
    ∀ c ∈ List.replicate n '0' ++ g.map Char.toLower, c ∈ lowerHexDigits := by
  intro c hc
  rcases List.mem_append.1 hc with hc | hc
  · rw [List.eq_of_mem_replicate hc]
    decide
  · obtain ⟨d, hd, rfl⟩ := List.mem_map.1 hc
    exact toLower_mem_lowerHexDigits d (h d hd)

/-- Zeros in front are worth nothing. -/
theorem groupValue_zeros (n : Nat) (g : List Char) :
    groupValue (List.replicate n '0' ++ g) = groupValue g := by
  have hzero : digitValue '0' = 0 := rfl
  induction n with
  | zero => rfl
  | succ n ih =>
    rw [← ih, List.replicate_succ, List.cons_append, groupValue, List.foldl_cons, hzero]
    rfl

/-- A padded group has four characters, whatever it was. -/
theorem length_padGroup (g : List Char) : (padGroup g).length = 4 := by
  rw [padGroup, List.length_drop, List.length_append, Nat.add_sub_cancel]
  rfl

/-- Zeros are put in front of the last four characters as far as these are less than four. -/
theorem padGroup_eq (g : List Char) :
    padGroup g = List.replicate (4 - (lowerChars (trimBoth g)).length) '0' ++
      (lowerChars (trimBoth g)).rtake 4 := by
  rw [padGroup, show ['0', '0', '0', '0'] = List.replicate 4 '0' from rfl]
  simp only [List.drop_append, List.drop_replicate, List.length_replicate]
  rfl

/-- A group is padded with zeros in front. -/
theorem IsGroup.padGroup_eq (h : IsGroup g) :
    padGroup g = List.replicate (4 - g.length) '0' ++ g.map Char.toLower := by
  have htrim : trimBoth g = g :=
    trimBoth_eq_self fun c hc => hexDigits_not_isBlank c (h.digits c hc)
  have hlower : lowerChars g = g.map Char.toLower :=
    lowerFrom_of_ascii [] g fun c hc => hexDigits_ascii c (h.digits c hc)
  rw [Address.padGroup_eq, htrim, hlower, List.length_map, List.rtake, List.length_map,
    Nat.sub_eq_zero_of_le h.length_le, List.drop_zero]

theorem IsGroup.isFull_padGroup (h : IsGroup g) : IsFull (padGroup g) where
  length_eq := length_padGroup g
  digits := by
    rw [h.padGroup_eq]
    exact mem_lowerHexDigits_of_mem_padded h.digits

theorem IsGroup.groupValue_padGroup (h : IsGroup g) : groupValue (padGroup g) = groupValue g := by
  rw [h.padGroup_eq, groupValue_zeros, groupValue_map_toLower h.digits]

theorem IsFull.padGroup_eq (h : IsFull g) : padGroup g = g := by
  rw [h.isGroup.padGroup_eq, h.length_eq]
  calc List.replicate (4 - 4) '0' ++ g.map Char.toLower
      = g.map id := List.map_congr_left fun c hc => toLower_of_mem_lowerHexDigits c (h.digits c hc)
    _ = g := List.map_id g

/-- Digits of the same number of places that spell the same number are the same. -/
theorem eq_of_foldl_eq {g h : List Char} {m n : Nat} (hg : ∀ c ∈ g, c ∈ lowerHexDigits)
    (hh : ∀ c ∈ h, c ∈ lowerHexDigits) (hlength : g.length = h.length)
    (heq : g.foldl (fun n c => 16 * n + digitValue c) m =
      h.foldl (fun n c => 16 * n + digitValue c) n) : m = n ∧ g = h := by
  induction g generalizing h m n with
  | nil =>
    obtain rfl := List.eq_nil_of_length_eq_zero hlength.symm
    exact ⟨heq, rfl⟩
  | cons c g ih =>
    obtain ⟨d, h, rfl⟩ := List.exists_cons_of_length_eq_add_one hlength.symm
    obtain ⟨hc, hg⟩ := List.forall_mem_cons.1 hg
    obtain ⟨hd, hh⟩ := List.forall_mem_cons.1 hh
    obtain ⟨hvalue, rfl⟩ := ih hg hh (Nat.succ.inj hlength) heq
    have hvalue : 16 * m + digitValue c = 16 * n + digitValue d := hvalue
    have hclt := digitValue_lt c hc
    have hdlt := digitValue_lt d hd
    have hdigit : digitValue c = digitValue d := by omega
    exact ⟨by omega, by rw [digitValue_inj c hc d hd hdigit]⟩

/-- Full groups are told apart by their values. -/
theorem IsFull.eq_of_groupValue {h : List Char} (hg : IsFull g) (hh : IsFull h)
    (heq : groupValue g = groupValue h) : g = h :=
  (eq_of_foldl_eq hg.digits hh.digits (hg.length_eq.trans hh.length_eq.symm) heq).2

theorem AllFull.unique (hg : AllFull gs values) (hh : AllFull hs values) : gs = hs := by
  induction gs generalizing hs values with
  | nil =>
    have hvalues := hh.values_eq.trans hg.values_eq.symm
    exact (List.map_eq_nil_iff.1 hvalues).symm
  | cons g gs ih =>
    have hvalues := hh.values_eq.trans hg.values_eq.symm
    obtain ⟨h, hs, rfl, hvalue, hrest⟩ := List.map_eq_cons_iff.1 hvalues
    obtain ⟨hgfull, hgs⟩ := List.forall_mem_cons.1 hg.full
    obtain ⟨hhfull, hhs⟩ := List.forall_mem_cons.1 hh.full
    rw [hgfull.eq_of_groupValue hhfull hvalue.symm, ih ⟨hgs, rfl⟩ ⟨hhs, hrest⟩]

theorem allFull_map_padGroup (hgs : ∀ g ∈ gs, IsGroup g) :
    AllFull (gs.map padGroup) (gs.map groupValue) where
  full g hg := by
    obtain ⟨g', hg', rfl⟩ := List.mem_map.1 hg
    exact (hgs g' hg').isFull_padGroup
  values_eq := by
    rw [List.map_map]
    exact List.map_congr_left fun g hg => (hgs g hg).groupValue_padGroup

/-! ## Halves and groups -/

theorem join_cons_cons (g h : List Char) (gs : List (List Char)) :
    join (g :: h :: gs) = g ++ ':' :: join (h :: gs) := by
  rw [join, List.intercalate_cons_cons, List.append_assoc]
  rfl

/-- Between groups stand colons. -/
theorem mem_join {c : Char} (h : c ∈ join gs) : c = ':' ∨ ∃ g ∈ gs, c ∈ g := by
  induction gs with
  | nil => cases h
  | cons g gs ih =>
    cases gs with
    | nil => exact .inr ⟨g, List.mem_cons_self, by simpa [join] using h⟩
    | cons g' gs =>
      rw [join_cons_cons, List.mem_append, List.mem_cons] at h
      rcases h with hg | hcolon | hrest
      · exact .inr ⟨g, List.mem_cons_self, hg⟩
      · exact .inl hcolon
      · rcases ih hrest with hcolon | ⟨g'', hmem, hc⟩
        · exact .inl hcolon
        · exact .inr ⟨g'', List.mem_cons_of_mem g hmem, hc⟩

theorem map_join (f : Char → Char) (hf : f ':' = ':') (gs : List (List Char)) :
    (join gs).map f = join (gs.map (List.map f)) := by
  induction gs with
  | nil => rfl
  | cons g gs ih =>
    cases gs with
    | nil => simp [join]
    | cons g' gs =>
      rw [join_cons_cons, List.map_append, List.map_cons, ih, hf]
      exact (join_cons_cons _ _ _).symm

/-- A text without a colon in front does not take part in the halving. -/
theorem halves_append {cs : List Char} (hg : ':' ∉ g) :
    halves (g ++ cs) = (g ++ (halves cs).1, (halves cs).2) := by
  induction g with
  | nil => rfl
  | cons c g ih =>
    obtain ⟨hc, hg⟩ := not_or.1 (mt List.mem_cons.2 hg)
    rw [List.cons_append, halves, ih hg]
    · rfl
    · intro cs' heq
      exact absurd heq.symm hc

theorem halves_colon {c : Char} {cs : List Char} (hc : c ≠ ':') :
    halves (':' :: c :: cs) = (':' :: (halves (c :: cs)).1, (halves (c :: cs)).2) := by
  rw [halves]
  intro cs' _ heq
  exact absurd (List.cons.inj heq).1 hc

theorem IsPiece.exists_cons (h : IsPiece g) : ∃ c cs, g = c :: cs ∧ c ≠ ':' := by
  obtain ⟨c, cs, rfl⟩ := List.exists_cons_of_ne_nil h.ne_nil
  refine ⟨c, cs, rfl, ?_⟩
  rintro rfl
  exact h.colon_notMem List.mem_cons_self

/-- Nor do pieces that single colons join. -/
theorem halves_join_append (hgs : ∀ g ∈ gs, IsPiece g) (cs : List Char) :
    halves (join gs ++ cs) = (join gs ++ (halves cs).1, (halves cs).2) := by
  induction gs with
  | nil => rfl
  | cons g gs ih =>
    obtain ⟨hg, hrest⟩ := List.forall_mem_cons.1 hgs
    cases gs with
    | nil =>
      rw [show join [g] = g from List.intercalate_singleton]
      exact halves_append hg.colon_notMem
    | cons g' gs =>
      -- the piece behind the colon starts with something else
      obtain ⟨c, cs', hstart, hc⟩ : ∃ c cs', join (g' :: gs) ++ cs = c :: cs' ∧ c ≠ ':' := by
        obtain ⟨c, g'', rfl, hc⟩ := (hrest g' List.mem_cons_self).exists_cons
        cases gs with
        | nil => exact ⟨c, g'' ++ cs, by simp [join], hc⟩
        | cons h hs => exact ⟨c, _, by rw [join_cons_cons]; rfl, hc⟩
      rw [join_cons_cons, List.append_assoc, halves_append hg.colon_notMem, List.cons_append, hstart,
        halves_colon hc, ← hstart, ih hrest]
      simp

/-- Groups come apart where they were joined. -/
theorem groups_join (hgs : ∀ g ∈ gs, ':' ∉ g) (hne : gs ≠ []) : groups (join gs) = gs :=
  List.splitOn_intercalate ':' hgs hne

/-! ## Layouts -/

section Layouts

variable {β : Type} {f : List Char → β}

/-- A text without groups still has one, the empty one, and it is as good as a zero group. -/
theorem map_groups_join (hf : f [] = f zeroGroup) (hgs : ∀ g ∈ gs, IsPiece g) :
    ∃ n, (groups (join gs)).length = gs.length + n ∧ (n = 0 ∨ n = 1 ∧ gs = []) ∧
      (groups (join gs)).map f = gs.map f ++ List.replicate n (f zeroGroup) := by
  by_cases hnil : gs = []
  · subst hnil
    exact ⟨1, rfl, .inr ⟨rfl, rfl⟩, congrArg (fun x => [x]) hf⟩
  · rw [groups_join (fun g hg => (hgs g hg).colon_notMem) hnil]
    exact ⟨0, rfl, .inl rfl, by simp⟩

theorem allGroups_join (hlength : gs.length = 8) (hgs : ∀ g ∈ gs, IsPiece g) :
    allGroups (join gs) = gs := by
  have hne : gs ≠ [] := by
    rintro rfl
    cases hlength
  have hhalves := halves_join_append hgs []
  rw [List.append_nil] at hhalves
  rw [allGroups, hhalves]
  simp [halves, groups_join (fun g hg => (hgs g hg).colon_notMem) hne, hlength]

/-- As many zero groups stand for a double colon as are missing. -/
theorem LaidOut.map_allGroups (hf : f [] = f zeroGroup) (h : LaidOut a gs) :
    (allGroups a).map f = gs.map f := by
  cases h with
  | all hlength hgs => rw [allGroups_join hlength hgs]
  | @compressed front back hlength hfront hback =>
    obtain ⟨m, hm, hm', hfrontMapped⟩ := map_groups_join hf hfront
    obtain ⟨n, hn, hn', hbackMapped⟩ := map_groups_join hf hback
    have hall : allGroups (join front ++ ':' :: ':' :: join back) =
        groups (join front) ++ List.replicate (8 - ((groups (join front)).length +
          (groups (join back)).length)) zeroGroup ++ groups (join back) := by
      rw [allGroups, halves_join_append hfront]
      simp [halves, zeroGroup]
    have hswap : back.map f ++ List.replicate n (f zeroGroup) =
        List.replicate n (f zeroGroup) ++ back.map f := by
      rcases hn' with rfl | ⟨rfl, rfl⟩ <;> simp
    -- an empty half is one of the zero groups
    have hm' := hm'.imp_right fun h => And.intro h.1 (congrArg List.length h.2)
    have hn' := hn'.imp_right fun h => And.intro h.1 (congrArg List.length h.2)
    simp only [List.length_nil] at hm' hn'
    have hcount : m + (8 - (front.length + m + (back.length + n))) + n =
        8 - (front.length + back.length) := by omega
    rw [hall, List.map_append, List.map_append, List.map_replicate, hfrontMapped, hbackMapped,
      hswap, hm, hn, List.map_append, List.map_append, List.map_replicate, ← hcount,
      List.replicate_add, List.replicate_add]
    simp only [List.append_assoc]

end Layouts

/-- Eight groups, the ones left out included. -/
theorem LaidOut.length_eq (h : LaidOut a gs) : gs.length = 8 := by
  cases h with
  | all hlength => exact hlength
  | compressed hlength =>
    simp only [List.length_append, List.length_replicate]
    omega

theorem LaidOut.colon_mem (h : LaidOut a gs) : ':' ∈ a := by
  cases h with
  | all hlength _ =>
    match gs, hlength with
    | g :: h :: gs, _ =>
      rw [join_cons_cons]
      exact List.mem_append_right g List.mem_cons_self
  | compressed _ _ _ => exact List.mem_append_right _ List.mem_cons_self

/-! ## Spelling out -/

/-- A form is laid out as the groups that have its values. -/
theorem Denotes.exists_laidOut (h : Denotes a values) :
    ∃ gs, LaidOut a gs ∧ (∀ g ∈ gs, IsGroup g) ∧ gs.map groupValue = values := by
  cases h with
  | all hlength hgs =>
    exact ⟨_, .all hlength fun g hg => (hgs g hg).isPiece, hgs, rfl⟩
  | compressed hlength hfront hback =>
    refine ⟨_, .compressed hlength (fun g hg => (hfront g hg).isPiece)
      (fun g hg => (hback g hg).isPiece), fun g hg => ?_, ?_⟩
    · rcases List.mem_append.1 hg with hg | hg
      · rcases List.mem_append.1 hg with hg | hg
        · exact hfront g hg
        · exact List.eq_of_mem_replicate hg ▸ isGroup_zeroGroup
      · exact hback g hg
    · rw [List.map_append, List.map_append, List.map_replicate]
      rfl

theorem Denotes.colon_mem (h : Denotes a values) : ':' ∈ a := by
  obtain ⟨gs, hlaid, -⟩ := h.exists_laidOut
  exact hlaid.colon_mem

theorem Spelt.denotes (h : Spelt gs values) : Denotes (join gs) values :=
  h.values_eq ▸ .all h.length_eq fun g hg => (h.full g hg).isGroup

/-- A text with a colon is spelt out group by group. -/
theorem expandChars_of_colon_mem (h : ':' ∈ a) : expandChars a = join ((allGroups a).map padGroup) := by
  rw [expandChars, if_pos (List.contains_iff_mem.2 h)]
  rfl

/-- A form is spelt out to the eight full groups of its values. -/
theorem Denotes.expandChars_eq (h : Denotes a values) :
    ∃ gs, Spelt gs values ∧ expandChars a = join gs := by
  obtain ⟨gs, hlaid, hgs, rfl⟩ := h.exists_laidOut
  refine ⟨gs.map padGroup, ⟨allFull_map_padGroup hgs, by rw [List.length_map, hlaid.length_eq]⟩, ?_⟩
  rw [expandChars_of_colon_mem hlaid.colon_mem, hlaid.map_allGroups (by decide)]

/-- What is spelt out stays as it is. -/
theorem Spelt.expandChars_eq (h : Spelt gs values) : expandChars (join gs) = join gs := by
  obtain ⟨hs, hspelt, heq⟩ := h.denotes.expandChars_eq
  rw [heq, h.unique hspelt.toAllFull]

/-- No text spells out two rows of values. -/
theorem join_inj (hg : Spelt gs values) {values' : List Nat} (hh : Spelt hs values')
    (heq : join gs = join hs) : values = values' := by
  have hgroups {gs values} (h : Spelt gs values) : groups (join gs) = gs := by
    apply groups_join fun g hmem => (h.full g hmem).isGroup.isPiece.colon_notMem
    rintro rfl
    cases h.length_eq
  rw [← hg.values_eq, ← hh.values_eq, ← hgroups hg, heq, hgroups hh]

/-! ## Case and white space -/

/-- A form denotes the same values in lower case. -/
theorem Denotes.lower (h : Denotes a values) : Denotes (a.map Char.toLower) values := by
  have hlower {gs : List (List Char)} (hgs : ∀ g ∈ gs, IsGroup g) :
      (∀ g ∈ gs.map (List.map Char.toLower), IsGroup g) ∧
        (gs.map (List.map Char.toLower)).map groupValue = gs.map groupValue := by
    refine ⟨fun g hg => ?_, ?_⟩
    · obtain ⟨g', hg', rfl⟩ := List.mem_map.1 hg
      exact (hgs g' hg').lower
    · rw [List.map_map]
      exact List.map_congr_left fun g hg => groupValue_map_toLower (hgs g hg).digits
  cases h with
  | all hlength hgs =>
    obtain ⟨hgroups, hvalues⟩ := hlower hgs
    rw [map_join _ rfl, ← hvalues]
    exact .all (by rw [List.length_map, hlength]) hgroups
  | @compressed front back hlength hfront hback =>
    obtain ⟨hfront', hfrontValues⟩ := hlower hfront
    obtain ⟨hback', hbackValues⟩ := hlower hback
    have hcompressed := Denotes.compressed (by simpa using hlength) hfront' hback'
    rw [hfrontValues, hbackValues, List.length_map, List.length_map] at hcompressed
    rw [List.map_append, List.map_cons, List.map_cons, map_join _ rfl, map_join _ rfl]
    exact hcompressed

theorem Denotes.mem (h : Denotes a values) : ∀ c ∈ a, c ∈ ':' :: hexDigits := by
  have hjoin {gs : List (List Char)} (hgs : ∀ g ∈ gs, IsGroup g) {c : Char} (hc : c ∈ join gs) :
      c ∈ ':' :: hexDigits := by
    rcases mem_join hc with rfl | ⟨g, hg, hc⟩
    · exact List.mem_cons_self
    · exact List.mem_cons_of_mem _ ((hgs g hg).digits c hc)
  intro c hc
  cases h with
  | all _ hgs => exact hjoin hgs hc
  | compressed _ hfront hback =>
    rcases List.mem_append.1 hc with hc | hc
    · exact hjoin hfront hc
    · rcases List.mem_cons.1 hc with rfl | hc
      · exact List.mem_cons_self
      · rcases List.mem_cons.1 hc with rfl | hc
        · exact List.mem_cons_self
        · exact hjoin hback hc

/-- A form is compared in lower case and without the white space around it. -/
theorem Writes.denotes {text : String} (h : Writes text values) :
    Denotes (lowerChars (trimBoth text.toList)) values := by
  obtain ⟨before, form, after, htext, hbefore, hafter, hform⟩ := h
  have hblank : ∀ c ∈ ':' :: hexDigits, isBlank c = false :=
    List.forall_mem_cons.2 ⟨rfl, hexDigits_not_isBlank⟩
  have hascii : ∀ c ∈ ':' :: hexDigits, c.toNat < 0x80 :=
    List.forall_mem_cons.2 ⟨by decide, hexDigits_ascii⟩
  have htrim : trimBoth (before ++ form ++ after) = form := by
    rw [trimBoth, List.append_assoc, trimLeft_append hbefore, trimLeft_eq_self, trimRight_append hafter]
    · exact trimRight_eq_self fun c hc => hblank c (hform.mem c (List.mem_of_mem_getLast? hc))
    · intro c hc
      obtain ⟨d, form', rfl⟩ := List.exists_cons_of_ne_nil (List.ne_nil_of_mem hform.colon_mem)
      obtain rfl := Option.some.inj hc
      exact hblank d (hform.mem d List.mem_cons_self)
  rw [htext, htrim, lowerChars, lowerFrom_of_ascii [] form fun c hc => hascii c (hform.mem c hc)]
  exact hform.lower

/-! ## Comparison -/

theorem same_comm (a b : String) : same a b = same b a := by
  rw [same, same, Bool.beq_comm, Bool.beq_comm (a := expandChars _)]

/-- Texts with a colon are compared by what they are spelt out to. -/
theorem same_iff_expandChars {a b : String} :
    same a b = true ↔
      expandChars (lowerChars (trimBoth a.toList)) = expandChars (lowerChars (trimBoth b.toList)) := by
  rw [same, Bool.or_eq_true, beq_iff_eq, beq_iff_eq]
  constructor
  · rintro (heq | heq)
    · rw [heq]
    · exact heq
  · exact .inr

theorem Writes.same_iff {a b : String} {values' : List Nat} (ha : Writes a values)
    (hb : Writes b values') : same a b = true ↔ values = values' := by
  obtain ⟨gs, hgs, ha⟩ := ha.denotes.expandChars_eq
  obtain ⟨hs, hhs, hb⟩ := hb.denotes.expandChars_eq
  rw [same_iff_expandChars, ha, hb]
  constructor
  · exact join_inj hgs hhs
  · rintro rfl
    rw [hgs.unique hhs.toAllFull]

/-- A text without a colon is no form of such an address. -/
theorem Writes.same_eq_false {a b : String} (ha : ':' ∉ a.toList) (hb : Writes b values) :
    same a b = false := by
  obtain ⟨hs, hhs, hb⟩ := hb.denotes.expandChars_eq
  have hlower : ':' ∉ lowerChars (trimBoth a.toList) := fun hmem =>
    ha (mem_of_mem_trimBoth ((lowers_lowerChars _).mem_of_mem (by decide) hmem))
  have hexpand : expandChars (lowerChars (trimBoth a.toList)) = lowerChars (trimBoth a.toList) := by
    rw [expandChars, if_neg (mt List.contains_iff_mem.1 hlower)]
  rw [← Bool.not_eq_true, same_iff_expandChars, hexpand, hb]
  intro heq
  rw [heq] at hlower
  exact hlower hhs.denotes.colon_mem

/-! ## Main statement -/

/-- **Comparison of address forms.** Two forms, whatever the white space around them, are the same
address exactly if they denote the same eight values. A form is spelt out to eight groups of four
lower-case digits with its values, and what is spelt out is left as it is. A text without a colon is the
same as no form. -/
theorem same_iff_values :
    (∀ a b values values', Writes a values → Writes b values' →
      (same a b = true ↔ values = values')) ∧
    (∀ (a : String) (values : List Nat), Denotes a.toList values →
      (∃ gs, gs.length = 8 ∧ (∀ g ∈ gs, g.length = 4 ∧ ∀ c ∈ g, c ∈ lowerHexDigits) ∧
        (expand a).toList = [':'].intercalate gs ∧ gs.map groupValue = values) ∧
      Denotes (expand a).toList values ∧ expand (expand a) = expand a) ∧
    ∀ (a b : String) (values : List Nat), ':' ∉ a.toList → Writes b values →
      same a b = false ∧ same b a = false := by
  refine ⟨fun a b values values' ha hb => ha.same_iff hb, fun a values ha => ?_,
    fun a b values ha hb => ?_⟩
  · obtain ⟨gs, hgs, heq⟩ := ha.expandChars_eq
    have hexpand : (expand a).toList = join gs := by rw [expand, String.toList_ofList, heq]
    refine ⟨⟨gs, hgs.length_eq, fun g hg => ?_, hexpand, hgs.values_eq⟩, hexpand ▸ hgs.denotes, ?_⟩
    · exact ⟨(hgs.full g hg).length_eq, (hgs.full g hg).digits⟩
    · rw [expand, hexpand, hgs.expandChars_eq, ← hexpand, String.ofList_toList]
  · have hsame := hb.same_eq_false ha
    exact ⟨hsame, same_comm a b ▸ hsame⟩

/-- Three groups left out in one form, and all of them written in the other, with white space around it.
-/
theorem same_iff_values_left_out :
    let values := [0xfe80, 0, 0, 0, 0x1ff, 0xfe23, 0x4567, 0x890a]
    Denotes "fe80::1ff:fe23:4567:890a".toList values ∧
      Writes "\tFE80:0:00:0:01Ff:FE23:4567:890A " values ∧
      same "fe80::1ff:fe23:4567:890a" "\tFE80:0:00:0:01Ff:FE23:4567:890A " = true ∧
      expand (expand "fe80::1ff:fe23:4567:890a") = expand "fe80::1ff:fe23:4567:890a" ∧
      same "10.0.0.1" "fe80::1ff:fe23:4567:890a" = false := by
  intro values
  have hcompressed : Denotes "fe80::1ff:fe23:4567:890a".toList values :=
    @Denotes.compressed ["fe80".toList]
      ["1ff".toList, "fe23".toList, "4567".toList, "890a".toList] (by decide)
      (List.all_iff_forall_prop.1 (by decide)) (List.all_iff_forall_prop.1 (by decide))
  have hall : Denotes "FE80:0:00:0:01Ff:FE23:4567:890A".toList values :=
    @Denotes.all ["FE80".toList, "0".toList, "00".toList, "0".toList, "01Ff".toList,
      "FE23".toList, "4567".toList, "890A".toList] rfl (List.all_iff_forall_prop.1 (by decide))
  have hwritten : Writes "fe80::1ff:fe23:4567:890a" values :=
    ⟨[], _, [], by simp, by simp, by simp, hcompressed⟩
  have hspaced : Writes "\tFE80:0:00:0:01Ff:FE23:4567:890A " values :=
    ⟨['\t'], _, [' '], by decide, List.forall_mem_singleton.2 rfl, List.forall_mem_singleton.2 rfl,
      hall⟩
  obtain ⟨hsame, hexpand, hcolon⟩ := same_iff_values
  exact ⟨hcompressed, hspaced, (hsame _ _ _ _ hwritten hspaced).2 rfl, (hexpand _ _ hcompressed).2.2,
    (hcolon _ _ _ (by decide) hwritten).1⟩

end Address

end SlotQuery
