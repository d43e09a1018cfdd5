import Mathlib.Data.List.Forall2
import SlotQuery.Proofs.Fleet.AddressForms

/-!
# What passes for an address

The comparison spells out any text with a colon. Of each group it takes the last four characters, and it
fills the groups up to eight, in place of the first double colon or, without one, at the end. Nothing asks
whether the text is an address, so texts that are no form of an address pass for it; `Passes` says which.
Among the texts that are laid out like a form, with groups that are short but for leading zeros, those that
pass for an address are forms of it (`DenotesLoosely`). Main statement: `Address.same_iff_passes`.
-/

namespace SlotQuery.Address

open Text

/-- The last four characters of the group are digits that spell the number. -/
structure PassesFor (g : List Char) (n : Nat) : Prop where
  digits : ∀ c ∈ (trimBoth g).rtake 4, c ∈ hexDigits
  value_eq : groupValue ((trimBoth g).rtake 4) = n

/-- The text is compared as if it were a form of the address with these values. -/
structure Passes (cs : List Char) (values : List Nat) : Prop where
  colon_mem : ':' ∈ cs
  groups : List.Forall₂ PassesFor (allGroups cs) values

/-- There is something in the group, and no more than four characters behind leading zeros. -/
structure IsShort (g : List Char) : Prop where
  ne_blank : trimBoth g ≠ []
  length_le : ((trimBoth g).dropWhile (· == '0')).length ≤ 4

/-- The text is a form of the address with these values, but for white space around its groups and further
zeros in front of them. -/
def DenotesLoosely (cs : List Char) (values : List Nat) : Prop :=
  ∃ gs, LaidOut cs gs ∧ (∀ g ∈ gs, IsShort g ∧ ∀ c ∈ trimBoth g, c ∈ hexDigits) ∧
    gs.map (fun g => groupValue (trimBoth g)) = values

variable {c : Char} {g h cs ds : List Char} {gs hs : List (List Char)} {n k : Nat} {values : List Nat}

/-! ## Digits at the end of a text -/

/-- The digits end with the letter `f`. -/
theorem le_f_of_mem_hexDigits : ∀ c ∈ hexDigits, c.toNat ≤ 'f'.toNat :=
  List.all_iff_forall_prop.1 (by decide)

theorem mem_hexDigits_of_toLower (h : c.toLower ∈ hexDigits) : c ∈ hexDigits := by
  have hcapital : ∀ d ∈ hexDigits, 'a'.toNat ≤ d.toNat → Char.ofNat (d.toNat - 32) ∈ hexDigits :=
    List.all_iff_forall_prop.1 (by decide)
  rcases toLower_cases c with heq | ⟨hfirst, -, hlower⟩
  · exact heq ▸ h
  · have hletters : 'A'.toNat = 65 ∧ 'a'.toNat = 97 := ⟨rfl, rfl⟩
    have hc := hcapital _ h (by omega)
    rwa [hlower, Nat.add_sub_cancel, Char.ofNat_toNat] at hc

/-- A digit is the lower-case form of a digit and of nothing else. -/
theorem eq_toLower_of_lowersTo (h : LowersTo c ds) (hhex : c ∈ hexDigits ∨ ∃ d ∈ ds, d ∈ hexDigits) :
    ds = [c.toLower] := by
  cases h with
  | ascii => rfl
  | blank hblank =>
    have hc : c ∈ hexDigits := by simpa using hhex
    rw [hexDigits_not_isBlank c hc] at hblank
    cases hblank
  | beyond hbeyond _ _ hds =>
    rcases hhex with hc | ⟨d, hd, hhex⟩
    · exact absurd (hexDigits_ascii c hc) (Nat.not_lt.2 hbeyond)
    · exact absurd (le_f_of_mem_hexDigits d hhex) (Nat.not_le.2 (hds d hd).1)

/-- Lower case changes digits at the end of a text one by one, and makes none of anything else. -/
theorem rtake_of_lowers (h : Lowers cs ds)
    (hhex : (∀ c ∈ cs.rtake k, c ∈ hexDigits) ∨ ∀ d ∈ ds.rtake k, d ∈ hexDigits) :
    ds.rtake k = (cs.rtake k).map Char.toLower := by
  induction cs using List.reverseRecOn generalizing ds k with
  | nil =>
    cases h
    rw [List.rtake_nil, List.map_nil]
  | append_singleton cs c ih =>
    cases k with
    | zero => rw [List.rtake_zero, List.rtake_zero, List.map_nil]
    | succ k =>
      obtain ⟨us, block, rfl, hus, hblock⟩ := lowers_append_iff.1 h
      have hblock := lowers_singleton_iff.1 hblock
      have hlast : block = [c.toLower] := by
        apply eq_toLower_of_lowersTo hblock
        rcases List.eq_nil_or_concat block with rfl | ⟨block, d, rfl⟩
        · exact absurd rfl hblock.ne_nil
        · rw [List.concat_eq_append] at hhex ⊢
          rw [← List.append_assoc, List.rtake_concat_succ, List.rtake_concat_succ] at hhex
          refine hhex.imp (fun hcs => hcs c (by simp)) fun hds => ⟨d, by simp, hds d (by simp)⟩
      subst hlast
      rw [List.rtake_concat_succ, List.rtake_concat_succ] at hhex ⊢
      rw [List.map_append, ih hus]
      · rfl
      · exact hhex.imp (fun hcs d hd => hcs d (List.mem_append_left _ hd))
          fun hds d hd => hds d (List.mem_append_left _ hd)

theorem digits_rtake_iff_of_lowers (h : Lowers cs ds) :
    (∀ d ∈ ds.rtake k, d ∈ hexDigits) ↔ ∀ c ∈ cs.rtake k, c ∈ hexDigits := by
  constructor
  · intro hds c hc
    apply mem_hexDigits_of_toLower
    apply hds
    rw [rtake_of_lowers h (.inr hds)]
    exact List.mem_map_of_mem hc
  · intro hcs d hd
    rw [rtake_of_lowers h (.inl hcs)] at hd
    obtain ⟨c, hc, rfl⟩ := List.mem_map.1 hd
    exact List.mem_append_left _ (toLower_mem_lowerHexDigits c (hcs c hc))

theorem passesFor_iff_of_lowers (hg : Lowers g h) : PassesFor h n ↔ PassesFor g n := by
  have htrim := hg.trimBoth
  have hvalue (hcs : ∀ c ∈ (trimBoth g).rtake 4, c ∈ hexDigits) :
      groupValue ((trimBoth h).rtake 4) = groupValue ((trimBoth g).rtake 4) := by
    rw [rtake_of_lowers htrim (.inl hcs), groupValue_map_toLower hcs]
  constructor
  · rintro ⟨hdigits, rfl⟩
    have hcs := (digits_rtake_iff_of_lowers htrim).1 hdigits
    exact ⟨hcs, (hvalue hcs).symm⟩
  · rintro ⟨hcs, rfl⟩
    exact ⟨(digits_rtake_iff_of_lowers htrim).2 hcs, hvalue hcs⟩

/-! ## Padded groups -/

/-- Padding keeps the last four characters, with zeros in front if there are fewer. -/
theorem PassesFor.padGroup_eq (hg : PassesFor g n) :
    padGroup g = List.replicate (4 - (lowerChars (trimBoth g)).length) '0' ++
      ((trimBoth g).rtake 4).map Char.toLower := by
  rw [Address.padGroup_eq, rtake_of_lowers (lowers_lowerChars _) (.inl hg.digits)]

theorem PassesFor.isFull_padGroup (hg : PassesFor g n) : IsFull (padGroup g) where
  length_eq := length_padGroup g
  digits := by
    rw [hg.padGroup_eq]
    exact mem_lowerHexDigits_of_mem_padded hg.digits

theorem PassesFor.groupValue_padGroup (hg : PassesFor g n) : groupValue (padGroup g) = n := by
  rw [hg.padGroup_eq, groupValue_zeros, groupValue_map_toLower hg.digits, hg.value_eq]

/-- A group that is spelt out in full passes for its number. -/
theorem passesFor_of_isFull (h : IsFull (padGroup g)) : PassesFor g (groupValue (padGroup g)) := by
  have hdigits : ∀ d ∈ (lowerChars (trimBoth g)).rtake 4, d ∈ hexDigits := by
    intro d hd
    apply List.mem_append_left
    apply h.digits
    rw [padGroup_eq]
    exact List.mem_append_right _ hd
  have hcs := (digits_rtake_iff_of_lowers (lowers_lowerChars (trimBoth g))).1 hdigits
  have hpasses : PassesFor g (groupValue ((trimBoth g).rtake 4)) := ⟨hcs, rfl⟩
  rw [hpasses.groupValue_padGroup]
  exact hpasses

/-- A group is padded to a full one exactly where it passes for the value of that. -/
theorem padGroup_eq_iff (hh : IsFull h) : padGroup g = h ↔ PassesFor g (groupValue h) := by
  constructor
  · rintro rfl
    exact passesFor_of_isFull hh
  · intro hg
    exact hg.isFull_padGroup.eq_of_groupValue hh hg.groupValue_padGroup

theorem map_padGroup_eq_iff (hhs : ∀ h ∈ hs, IsFull h) :
    gs.map padGroup = hs ↔ List.Forall₂ PassesFor gs (hs.map groupValue) := by
  induction gs generalizing hs with
  | nil => cases hs <;> simp
  | cons g gs ih =>
    cases hs with
    | nil => simp
    | cons h hs =>
      obtain ⟨hh, hhs⟩ := List.forall_mem_cons.1 hhs
      rw [List.map_cons, List.map_cons, List.cons_eq_cons, List.forall₂_cons, padGroup_eq_iff hh, ih hhs]

theorem colon_notMem_padGroup (hg : ':' ∉ g) : ':' ∉ padGroup g := by
  intro hmem
  rw [padGroup_eq] at hmem
  rcases List.mem_append.1 hmem with hmem | hmem
  · cases List.eq_of_mem_replicate hmem
  · have hlower := (lowers_lowerChars (trimBoth g)).mem_of_mem (by decide) (List.mem_of_mem_drop hmem)
    exact hg (mem_of_mem_trimBoth hlower)

/-! ## Groups of a text -/

/-- Without a colon there is one group. -/
theorem groups_of_colon_notMem (hcs : ':' ∉ cs) : groups cs = [cs] := List.splitOn_eq_singleton hcs

/-- A colon ends a group. -/
theorem groups_append_colon (x y : List Char) : groups (x ++ ':' :: y) = groups x ++ groups y :=
  List.splitOn_append_cons_self x y

/-- A text is a group, or a group and a text with a colon between them. -/
@[elab_as_elim]
theorem groups_induction {motive : List Char → Prop} (cs : List Char)
    (group : ∀ g, ':' ∉ g → motive g)
    (colon : ∀ g cs, ':' ∉ g → motive cs → motive (g ++ ':' :: cs)) : motive cs := by
  induction hlength : cs.length using Nat.strong_induction_on generalizing cs with
  | _ n ih =>
    subst hlength
    by_cases hcolon : ':' ∈ cs
    · obtain ⟨g, rest, rfl, hg⟩ := List.eq_append_cons_of_mem hcolon
      exact colon g rest hg (ih rest.length (by simp; omega) rest rfl)
    · exact group cs hcolon

theorem colon_notMem_of_mem_groups (hg : g ∈ groups cs) : ':' ∉ g := by
  induction cs using groups_induction with
  | group cs hcs =>
    rw [groups_of_colon_notMem hcs] at hg
    exact List.mem_singleton.1 hg ▸ hcs
  | colon g' cs hg' ih =>
    rw [groups_append_colon, groups_of_colon_notMem hg'] at hg
    rcases List.mem_append.1 hg with hg | hg
    · exact List.mem_singleton.1 hg ▸ hg'
    · exact ih hg

theorem colon_notMem_of_mem_allGroups (hg : g ∈ allGroups cs) : ':' ∉ g := by
  rw [allGroups] at hg
  rcases List.mem_append.1 hg with hg | hg
  · rcases List.mem_append.1 hg with hg | hg
    · exact colon_notMem_of_mem_groups hg
    · rw [List.eq_of_mem_replicate hg]
      decide
  · cases hback : (halves cs).2 with
    | none =>
      rw [hback] at hg
      cases hg
    | some back =>
      rw [hback] at hg
      exact colon_notMem_of_mem_groups hg

/-! ## Groups of a lower-case form -/

/-- The colon has no lower-case form but itself. -/
theorem eq_colon_of_lowersTo (h : LowersTo ':' ds) : ds = [':'] := by
  cases h with
  | ascii | blank => rfl
  | beyond hbeyond => exact absurd hbeyond (by decide)

/-- The colons of a text stay where they are. -/
theorem exists_of_lowers_append_colon {x y : List Char} (h : Lowers (x ++ ':' :: y) ds) :
    ∃ us vs, ds = us ++ ':' :: vs ∧ Lowers x us ∧ Lowers y vs := by
  obtain ⟨us, vs, rfl, hus, hvs⟩ := lowers_append_iff.1 h
  cases hvs with
  | cons hblock hvs =>
    obtain rfl := eq_colon_of_lowersTo hblock
    exact ⟨us, _, rfl, hus, hvs⟩

theorem colon_notMem_of_lowers (hcs : ':' ∉ cs) (h : Lowers cs ds) : ':' ∉ ds := fun hds =>
  hcs (h.mem_of_mem (by decide) hds)

/-- Lower-case forms are taken group by group. -/
theorem groups_lowers (h : Lowers cs ds) : List.Forall₂ Lowers (groups cs) (groups ds) := by
  induction cs using groups_induction generalizing ds with
  | group cs hcs =>
    rw [groups_of_colon_notMem hcs, groups_of_colon_notMem (colon_notMem_of_lowers hcs h)]
    exact .cons h .nil
  | colon g cs hg ih =>
    obtain ⟨us, vs, rfl, hus, hvs⟩ := exists_of_lowers_append_colon h
    rw [groups_append_colon, groups_append_colon, groups_of_colon_notMem hg,
      groups_of_colon_notMem (colon_notMem_of_lowers hg hus)]
    exact .cons hus (ih hvs)

/-- A text and its lower-case form are cut at the same places. -/
theorem halves_lowers (h : Lowers cs ds) : Lowers (halves cs).1 (halves ds).1 ∧
    Option.Rel Lowers (halves cs).2 (halves ds).2 := by
  induction h with
  | nil => exact ⟨.nil, .none⟩
  | @cons c block cs ds hblock h ih =>
    by_cases hc : c = ':'
    · subst hc
      obtain rfl := eq_colon_of_lowersTo hblock
      cases h with
      | nil => exact ⟨.cons hblock .nil, .none⟩
      | @cons d block' cs ds hblock' h =>
        by_cases hd : d = ':'
        · subst hd
          obtain rfl := eq_colon_of_lowersTo hblock'
          exact ⟨.nil, .some h⟩
        · obtain ⟨e, block', rfl⟩ := List.exists_cons_of_ne_nil hblock'.ne_nil
          have he : e ≠ ':' := by
            rintro rfl
            exact hd (hblock'.eq_of_mem (by decide) List.mem_cons_self).symm
          obtain ⟨hfront, hback⟩ := ih
          rw [List.cons_append] at hfront hback
          rw [List.singleton_append, List.cons_append, halves_colon hd, halves_colon he]
          exact ⟨.cons hblock hfront, hback⟩
    · have hcolon : ':' ∉ [c] := fun hmem => hc (List.mem_singleton.1 hmem).symm
      have hblock' : ':' ∉ block :=
        colon_notMem_of_lowers hcolon (lowers_singleton_iff.2 hblock)
      obtain ⟨hfront, hback⟩ := ih
      rw [halves_append hblock', ← List.singleton_append, halves_append hcolon]
      exact ⟨.cons hblock hfront, hback⟩

theorem lowers_zeroGroup : Lowers zeroGroup zeroGroup := by
  have hzero : LowersTo '0' ['0'] := .ascii (by decide)
  exact .cons hzero (.cons hzero (.cons hzero (.cons hzero .nil)))

theorem allGroups_lowers (h : Lowers cs ds) : List.Forall₂ Lowers (allGroups cs) (allGroups ds) := by
  obtain ⟨hfront, hback⟩ := halves_lowers h
  have hleading := groups_lowers hfront
  have htrailing : List.Forall₂ Lowers (((halves cs).2.map groups).getD [])
      (((halves ds).2.map groups).getD []) := by
    generalize (halves cs).2 = back, (halves ds).2 = back' at hback
    cases hback with
    | none => exact .nil
    | some hback => exact groups_lowers hback
  have homitted (n : Nat) :
      List.Forall₂ Lowers (List.replicate n zeroGroup) (List.replicate n zeroGroup) := by
    induction n with
    | zero => exact .nil
    | succ n ih => exact .cons lowers_zeroGroup ih
  unfold allGroups
  simp only [hleading.length_eq, htrailing.length_eq]
  exact List.rel_append (List.rel_append hleading (homitted _)) htrailing

/-! ## Texts that pass -/

theorem forall₂_passesFor_iff_of_lowers (h : List.Forall₂ Lowers gs hs) :
    List.Forall₂ PassesFor hs values ↔ List.Forall₂ PassesFor gs values := by
  induction h generalizing values with
  | nil => rfl
  | cons hg h ih =>
    cases values with
    | nil => simp
    | cons n values =>
      rw [List.forall₂_cons, List.forall₂_cons, passesFor_iff_of_lowers hg, ih]

/-- What a text passes for does not depend on case. -/
theorem passes_iff_of_lowers (h : Lowers cs ds) : Passes ds values ↔ Passes cs values := by
  have hgroups : List.Forall₂ PassesFor (allGroups ds) values ↔
      List.Forall₂ PassesFor (allGroups cs) values := forall₂_passesFor_iff_of_lowers (allGroups_lowers h)
  constructor
  · rintro ⟨hcolon, hpass⟩
    exact ⟨h.mem_of_mem (by decide) hcolon, hgroups.1 hpass⟩
  · rintro ⟨hcolon, hpass⟩
    refine ⟨?_, hgroups.2 hpass⟩
    obtain ⟨x, y, rfl⟩ := List.append_of_mem hcolon
    obtain ⟨us, vs, rfl, -, -⟩ := exists_of_lowers_append_colon h
    exact List.mem_append_right us List.mem_cons_self

theorem allGroups_ne_nil (cs : List Char) : allGroups cs ≠ [] :=
  List.append_ne_nil_of_left_ne_nil (List.append_ne_nil_of_left_ne_nil (List.splitOn_ne_nil _ _) _) _

/-- A text with a colon is spelt out to the groups that spell the values just if it passes for them. -/
theorem join_map_padGroup_eq_iff (hhs : Spelt hs values) :
    join ((allGroups cs).map padGroup) = join hs ↔ List.Forall₂ PassesFor (allGroups cs) values := by
  have hpadded : ∀ g ∈ (allGroups cs).map padGroup, ':' ∉ g := by
    intro g hg
    obtain ⟨g', hg', rfl⟩ := List.mem_map.1 hg
    exact colon_notMem_padGroup (colon_notMem_of_mem_allGroups hg')
  have hne : hs ≠ [] := List.ne_nil_of_length_pos (by rw [hhs.length_eq]; decide)
  have hspelt : ∀ h ∈ hs, ':' ∉ h := fun h hh => (hhs.full h hh).isGroup.isPiece.colon_notMem
  rw [← hhs.values_eq, ← map_padGroup_eq_iff hhs.full]
  constructor
  · intro heq
    have hgroups := congrArg groups heq
    rwa [groups_join hpadded (mt List.map_eq_nil_iff.1 (allGroups_ne_nil cs)),
      groups_join hspelt hne] at hgroups
  · rintro rfl
    rfl

/-- A text is spelt out to a full form exactly where it passes for its values. -/
theorem expandChars_eq_iff (hhs : Spelt hs values) : expandChars cs = join hs ↔ Passes cs values := by
  by_cases hcolon : ':' ∈ cs
  · rw [expandChars_of_colon_mem hcolon, join_map_padGroup_eq_iff hhs]
    exact ⟨fun hgroups => ⟨hcolon, hgroups⟩, Passes.groups⟩
  · have hexpand : expandChars cs = cs := if_neg (mt List.contains_iff_mem.1 hcolon)
    constructor
    · intro heq
      rw [hexpand] at heq
      exact absurd (heq ▸ hhs.denotes.colon_mem) hcolon
    · intro hpasses
      exact absurd hpasses.colon_mem hcolon

theorem Writes.same_iff_passes_for {a b : String} (hb : Writes b values) :
    same a b = true ↔ Passes (trimBoth a.toList) values := by
  obtain ⟨hs, hhs, hb⟩ := hb.denotes.expandChars_eq
  rw [same_iff_expandChars, hb, expandChars_eq_iff hhs, passes_iff_of_lowers (lowers_lowerChars _)]

/-! ## Loose forms -/

/-- An empty group passes for what the zero group passes for. -/
theorem passesFor_nil : PassesFor [] = PassesFor zeroGroup := by
  have hzero : (trimBoth zeroGroup).rtake 4 = zeroGroup := by decide
  funext n
  apply propext
  constructor
  · rintro ⟨-, rfl⟩
    refine ⟨?_, ?_⟩
    · rw [hzero]
      exact isGroup_zeroGroup.digits
    · rw [hzero]
      rfl
  · rintro ⟨-, rfl⟩
    refine ⟨fun c hc => absurd hc List.not_mem_nil, ?_⟩
    rw [hzero]
    rfl

theorem LaidOut.forall₂_passesFor_iff (h : LaidOut cs gs) :
    List.Forall₂ PassesFor (allGroups cs) values ↔ List.Forall₂ PassesFor gs values := by
  have hmap (gs : List (List Char)) : List.Forall₂ PassesFor gs values ↔
      List.Forall₂ (fun p n => p n) (gs.map PassesFor) values := by rw [List.forall₂_map_left_iff]
  rw [hmap, hmap, h.map_allGroups passesFor_nil]

/-- What the last four characters leave over of a short group are zeros. -/
theorem IsShort.trimBoth_eq (hg : IsShort g) :
    trimBoth g = List.replicate ((trimBoth g).length - 4) '0' ++ (trimBoth g).rtake 4 := by
  have hlength := hg.length_le
  generalize trimBoth g = t at hlength ⊢
  have hsum : (t.takeWhile (· == '0')).length + (t.dropWhile (· == '0')).length = t.length := by
    rw [← List.length_append, List.takeWhile_append_dropWhile]
  have hzeros : t.take (t.length - 4) = List.replicate (t.length - 4) '0' := by
    have hpart : t.take (t.length - 4) <+: t.takeWhile (· == '0') := by
      apply List.prefix_of_prefix_length_le (List.take_prefix _ _) (List.takeWhile_prefix _)
      rw [List.length_take]
      omega
    refine List.eq_replicate_iff.2 ⟨?_, fun c hc => ?_⟩
    · rw [List.length_take]
      omega
    · have hzero := List.mem_takeWhile_imp (hpart.subset hc)
      exact beq_iff_eq.1 hzero
  rw [List.rtake, ← hzeros, List.take_append_drop]

theorem IsShort.passesFor_iff (hg : IsShort g) :
    PassesFor g n ↔ (∀ c ∈ trimBoth g, c ∈ hexDigits) ∧ groupValue (trimBoth g) = n := by
  have hzero : '0' ∈ hexDigits := by decide
  have hvalue : groupValue (trimBoth g) = groupValue ((trimBoth g).rtake 4) :=
    (congrArg groupValue hg.trimBoth_eq).trans (groupValue_zeros _ _)
  constructor
  · rintro ⟨hdigits, rfl⟩
    refine ⟨fun c hc => ?_, hvalue⟩
    rw [hg.trimBoth_eq] at hc
    rcases List.mem_append.1 hc with hc | hc
    · exact List.eq_of_mem_replicate hc ▸ hzero
    · exact hdigits c hc
  · rintro ⟨hdigits, rfl⟩
    exact ⟨fun c hc => hdigits c (List.mem_of_mem_drop hc), hvalue.symm⟩

theorem forall₂_passesFor_iff (hgs : ∀ g ∈ gs, IsShort g) : List.Forall₂ PassesFor gs values ↔
    (∀ g ∈ gs, ∀ c ∈ trimBoth g, c ∈ hexDigits) ∧
      gs.map (fun g => groupValue (trimBoth g)) = values := by
  induction gs generalizing values with
  | nil => simp [eq_comm]
  | cons g gs ih =>
    obtain ⟨hg, hgs⟩ := List.forall_mem_cons.1 hgs
    cases values with
    | nil => simp
    | cons n values =>
      rw [List.forall₂_cons, hg.passesFor_iff, ih hgs, List.forall_mem_cons, List.map_cons,
        List.cons_eq_cons]
      exact and_and_and_comm

/-- Of the texts that pass for the values these are the ones whose groups are short. -/
theorem denotesLoosely_iff_passes : DenotesLoosely cs values ↔
    Passes cs values ∧ ∃ gs, LaidOut cs gs ∧ ∀ g ∈ gs, IsShort g := by
  constructor
  · rintro ⟨gs, hlaid, hgs, hvalues⟩
    have hshort : ∀ g ∈ gs, IsShort g := fun g hg => (hgs g hg).1
    have hpass := (forall₂_passesFor_iff hshort).2 ⟨fun g hg => (hgs g hg).2, hvalues⟩
    exact ⟨⟨hlaid.colon_mem, hlaid.forall₂_passesFor_iff.2 hpass⟩, gs, hlaid, hshort⟩
  · rintro ⟨hpasses, gs, hlaid, hshort⟩
    obtain ⟨hdigits, hvalues⟩ :=
      (forall₂_passesFor_iff hshort).1 (hlaid.forall₂_passesFor_iff.1 hpasses.groups)
    exact ⟨gs, hlaid, fun g hg => ⟨hshort g hg, hdigits g hg⟩, hvalues⟩

/-! ## Requested addresses -/

/-- What is requested counts as assigned just if it passes for one of the addresses that are. -/
theorem holdsAll_iff_passes {assigned requested : List String} {version : IpVersion}
    (hrequested : requested ≠ []) (hassigned : ∀ a ∈ assigned, ∃ values, Writes (bare a) values) :
    holdsAll assigned requested version = true ↔ ∀ wanted ∈ requested, ∃ a ∈ assigned, ∃ values,
      Writes (bare a) values ∧ Passes (trimBoth wanted.toList) values := by
  rw [holdsAll_eq_all hrequested, List.all_eq_true]
  refine forall₂_congr fun wanted hwanted => ?_
  rw [holdsAll_singleton, List.any_eq_true]
  refine exists_congr fun a => and_congr_right fun ha => ?_
  rw [same_comm]
  constructor
  · intro hsame
    obtain ⟨values, ha⟩ := hassigned a ha
    exact ⟨values, ha, ha.same_iff_passes_for.1 hsame⟩
  · rintro ⟨values, ha, hpasses⟩
    exact ha.same_iff_passes_for.2 hpasses

/-! ## Main statement -/

/-- **What passes for an address.** A text is the same address as a form just if it passes for the form's
values. It is a form of the address itself, but for white space and leading zeros in its groups, just if it
passes and is laid out as eight groups, or as fewer with a double colon, none of them longer than four
characters behind its leading zeros. So a requested text counts as assigned just if it passes for an
assigned address. -/
theorem same_iff_passes :
    (∀ a b values, Writes b values →
      (same a b = true ↔ Passes (trimBoth a.toList) values) ∧
      (DenotesLoosely (trimBoth a.toList) values ↔
        same a b = true ∧ ∃ gs, LaidOut (trimBoth a.toList) gs ∧ ∀ g ∈ gs, IsShort g)) ∧
    ∀ (assigned requested : List String) (version : IpVersion), requested ≠ [] →
      (∀ a ∈ assigned, ∃ values, Writes (bare a) values) →
      (holdsAll assigned requested version = true ↔ ∀ wanted ∈ requested, ∃ a ∈ assigned, ∃ values,
        Writes (bare a) values ∧ Passes (trimBoth wanted.toList) values) := by
  refine ⟨fun a b values hb => ⟨hb.same_iff_passes_for, ?_⟩, fun assigned requested version => ?_⟩
  · rw [hb.same_iff_passes_for]
    exact denotesLoosely_iff_passes
  · exact holdsAll_iff_passes

theorem writes_linkLocal : Writes "fe80::1" [0xfe80, 0, 0, 0, 0, 0, 0, 1] := by
  have hform : Denotes "fe80::1".toList [0xfe80, 0, 0, 0, 0, 0, 0, 1] :=
    @Denotes.compressed ["fe80".toList] ["1".toList] (by decide)
      (List.forall_mem_singleton.2 (by decide)) (List.forall_mem_singleton.2 (by decide))
  exact ⟨[], _, [], by simp, by simp, by simp, hform⟩

/-- White space within a requested address and zeros in front of its groups do no harm. -/
theorem same_iff_passes_leading_zeros :
    let values := [0xfe80, 0, 0, 0, 0, 0, 0, 1]
    Writes "fe80::1" values ∧ DenotesLoosely (trimBoth " 00FE80:: 01 ".toList) values ∧
      same " 00FE80:: 01 " "fe80::1" = true ∧ Writes (bare "fe80::1/64") values ∧
      holdsAll ["fe80::1/64"] [" 00FE80:: 01 "] .v6 = true := by
  intro values
  have hbare : bare "fe80::1/64" = "fe80::1" := by decide
  have hloose : DenotesLoosely (trimBoth " 00FE80:: 01 ".toList) values := by
    refine ⟨_, @LaidOut.compressed ["00FE80".toList] [" 01".toList] (by decide)
      (List.forall_mem_singleton.2 ⟨by decide, by decide⟩)
      (List.forall_mem_singleton.2 ⟨by decide, by decide⟩), fun g hg => ?_, by decide +kernel⟩
    have hgroups : g = "00FE80".toList ∨ g = zeroGroup ∨ g = " 01".toList := by simpa using hg
    rcases hgroups with rfl | rfl | rfl
    · exact ⟨⟨by decide, by decide⟩, List.all_iff_forall_prop.1 (by decide)⟩
    · exact ⟨⟨by decide, by decide⟩, List.all_iff_forall_prop.1 (by decide)⟩
    · exact ⟨⟨by decide, by decide⟩, List.all_iff_forall_prop.1 (by decide)⟩
  obtain ⟨hcompared, hrequested⟩ := same_iff_passes
  obtain ⟨hpasses, hlaid⟩ := hcompared " 00FE80:: 01 " "fe80::1" values writes_linkLocal
  have hsame := (hlaid.1 hloose).1
  have hassigned : ∀ a ∈ ["fe80::1/64"], ∃ values, Writes (bare a) values :=
    List.forall_mem_singleton.2 ⟨values, hbare ▸ writes_linkLocal⟩
  refine ⟨writes_linkLocal, hloose, hsame, hbare ▸ writes_linkLocal, ?_⟩
  apply (hrequested _ _ .v6 (List.cons_ne_nil _ _) hassigned).2
  exact List.forall_mem_singleton.2
    ⟨_, List.mem_singleton_self _, values, hbare ▸ writes_linkLocal, hpasses.1 hsame⟩

/-- A digit in front of a group of four makes it no other address. -/
theorem same_of_five_digits : ∃ a b values, Writes b values ∧ same a b = true ∧
    ¬ DenotesLoosely (trimBoth a.toList) values := by
  refine ⟨"1fe80::1", "fe80::1", _, writes_linkLocal, by decide +kernel, ?_⟩
  rintro ⟨gs, hlaid, hgs, -⟩
  -- the length of a group behind its zeros
  let size (g : List Char) : Nat := ((trimBoth g).dropWhile (· == '0')).length
  have hmap : (allGroups (trimBoth "1fe80::1".toList)).map size = gs.map size := hlaid.map_allGroups rfl
  have hfive : 5 ∈ (allGroups (trimBoth "1fe80::1".toList)).map size := by decide
  rw [hmap] at hfive
  obtain ⟨g, hg, hsize⟩ := List.mem_map.1 hfive
  have hshort : size g ≤ 4 := (hgs g hg).1.length_le
  omega

end SlotQuery.Address
