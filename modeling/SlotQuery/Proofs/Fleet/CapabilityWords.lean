import Mathlib.Data.Bool.AllAny
import SlotQuery.Proofs.Fleet.Candidates
import SlotQuery.Proofs.Query.Words

/-!
# Capabilities as words

A candidate carries its capabilities as one text: each number, and behind it the names that the network has
for it. The words of that text are the numbers and the words of the names (`words_capabilityText`), whatever
the names are made of, so that is what a query for a capability finds. Main statement:
`capability_word_iff`.
-/

namespace SlotQuery

open Text

/-! ## Numbers -/

theorem toString_nat_unbroken (n : Nat) :
    (toString n).toList ≠ [] ∧ ∀ c ∈ (toString n).toList, isBlank c = false := by
  have hdigits : (toString n).toList = Nat.toDigits 10 n := String.toList_ofList
  rw [hdigits]
  refine ⟨Nat.toDigits_ne_nil, fun c hc => ?_⟩
  exact isBlank_of_isDigit (Nat.isDigit_of_mem_toDigits (by decide) (by decide) hc)

/-- A number is written without white space. -/
theorem words_idText (id : Int64) : words (idText id).toList = [(idText id).toList] := by
  unfold idText
  cases id.toInt with
  | ofNat n =>
    obtain ⟨hne, hunbroken⟩ := toString_nat_unbroken n
    exact words_of_unbroken hne hunbroken
  | negSucc n =>
    obtain ⟨-, hunbroken⟩ := toString_nat_unbroken (n + 1)
    have hsign : (toString (Int.negSucc n)).toList = '-' :: (toString (n + 1)).toList :=
      String.toList_append
    rw [hsign]
    exact words_of_unbroken (List.cons_ne_nil _ _) (List.forall_mem_cons.2 ⟨rfl, hunbroken⟩)

namespace MemberRecord

variable {member : MemberRecord} {network : NetworkInfo}

/-! ## Words of the text -/

/-- The text of the capabilities is a list of words: each number, and the words of its names. -/
theorem words_capabilityText : words (member.capabilityText network).toList =
    member.capabilities.flatMap fun id => (idText id).toList ::
      (network.capabilities.filter (·.2 == id)).flatMap fun entry => words entry.1.toList := by
  have hspace : " ".toList = [' '] := rfl
  rw [capabilityText, String.toList_intercalate, hspace, words_intercalate, List.map_flatMap,
    List.flatMap_assoc]
  congr 1
  funext id
  rw [List.map_cons, List.flatMap_cons, words_idText, List.map_map, List.flatMap_map]
  rfl

theorem mem_words_capabilityText {w : List Char} :
    w ∈ words (member.capabilityText network).toList ↔
      ∃ id ∈ member.capabilities, w = (idText id).toList ∨
        ∃ name, (name, id) ∈ network.capabilities ∧ w ∈ words name.toList := by
  rw [words_capabilityText, List.mem_flatMap]
  refine exists_congr fun id => and_congr_right fun _ => ?_
  rw [List.mem_cons, List.mem_flatMap]
  refine or_congr_right ⟨?_, ?_⟩
  · rintro ⟨⟨name, other⟩, hentry, hw⟩
    obtain ⟨hmem, hid⟩ := List.mem_filter.1 hentry
    obtain rfl : other = id := beq_iff_eq.1 hid
    exact ⟨name, hmem, hw⟩
  · rintro ⟨name, hmem, hw⟩
    exact ⟨(name, id), List.mem_filter.2 ⟨hmem, beq_self_eq_true id⟩, hw⟩

/-- The tags of a member leave its capabilities as they are. -/
theorem attributes_capabilities (member : MemberRecord) (network : NetworkInfo)
    (version : IpVersion) :
    (member.attributes network version).get? "capabilities" = some (member.capabilityText network) := by
  rw [attributes_get? (by decide)]
  simp [baseAttributes, TextMap.ofList]

/-! ## Main statement -/

/-- **Capabilities by number and by name.** A query for a word among the capabilities of a candidate finds,
up to case, the numbers of its member's capabilities and the words of the names that the network has for
them, and nothing else. -/
theorem capability_word_iff (member : MemberRecord) (network : NetworkInfo) (version : IpVersion)
    {word : String} (hne : word ≠ "") (hword : ∀ c ∈ word.toList, isBlank c = false) :
    ∃ c, Condition.make "capabilities" .word word = .ok c ∧
      (c.accepts (member.attributes network version) = true ↔
        ∃ id ∈ member.capabilities, folded word.toList = folded (idText id).toList ∨
          ∃ name, (name, id) ∈ network.capabilities ∧
            ∃ w ∈ words name.toList, folded word.toList = folded w) := by
  let c : Condition := ⟨"capabilities", .word, word, _, rfl⟩
  have hop : Operator.word ≠ .pattern := by decide
  have hvalue : word.toList ≠ [] := fun hnil => hne (String.toList_eq_nil_iff.1 hnil)
  refine ⟨c, c.make_self, ?_⟩
  rw [Condition.accepts, attributes_capabilities, Option.getD_some,
    Operator.found_iff_means hop c.matcher_eq, Operator.means_word_iff hvalue hword]
  simp only [mem_words_capabilityText]
  constructor
  · rintro ⟨w, ⟨id, hid, rfl | ⟨name, hname, hw⟩⟩, hfolded⟩
    · exact ⟨id, hid, .inl hfolded.symm⟩
    · exact ⟨id, hid, .inr ⟨name, hname, w, hw, hfolded.symm⟩⟩
  · rintro ⟨id, hid, hfolded | ⟨name, hname, w, hw, hfolded⟩⟩
    · exact ⟨_, ⟨id, hid, .inl rfl⟩, hfolded.symm⟩
    · exact ⟨w, ⟨id, hid, .inr ⟨name, hname, hw⟩⟩, hfolded.symm⟩

/-- One of two names of a capability has several words and a Kelvin sign in it, the other one is empty. A
capability that the member lacks is not found by its name. -/
theorem capability_word_iff_kelvin_sign :
    ∃ (member : MemberRecord) (network : NetworkInfo), member.capabilities = [1, 7] ∧
      network.capabilities = [("", 7), ("other", 8), ("run \u212a8s\tnow", 7)] ∧
      (∃ c, Condition.make "capabilities" .word "k8S" = .ok c ∧
        c.accepts (member.attributes network .v4) = true) ∧
      ∃ c, Condition.make "capabilities" .word "OTHER" = .ok c ∧
        c.accepts (member.attributes network .v4) = false := by
  let config : MemberConfig := ⟨none, none, some [1, 7], none, none⟩
  let member : MemberRecord := ⟨none, none, none, none, none, some config⟩
  let network : NetworkInfo :=
    ⟨some (TextMap.ofList [("run \u212a8s\tnow", 7), ("", 7), ("other", 8)]), none, none⟩
  have hnames : network.capabilities = [("", 7), ("other", 8), ("run \u212a8s\tnow", 7)] := by
    decide +kernel
  have hnumbers : ∀ id ∈ member.capabilities, folded "OTHER".toList ≠ folded (idText id).toList :=
    List.all_iff_forall_prop.1 (by decide +kernel)
  have hwords : ∀ w ∈ words "run \u212a8s\tnow".toList, folded "OTHER".toList ≠ folded w :=
    List.all_iff_forall_prop.1 (by decide +kernel)
  obtain ⟨found, hfound, hfoundIff⟩ :=
    @capability_word_iff member network .v4 "k8S" (by decide) (List.all_iff_forall_prop.1 (by decide))
  obtain ⟨missed, hmissed, hmissedIff⟩ :=
    @capability_word_iff member network .v4 "OTHER" (by decide) (List.all_iff_forall_prop.1 (by decide))
  refine ⟨member, network, rfl, hnames, ⟨found, hfound, hfoundIff.2 ?_⟩, missed, hmissed, ?_⟩
  · refine ⟨7, by decide, .inr ⟨"run \u212a8s\tnow", ?_, "\u212a8s".toList, ?_, ?_⟩⟩
    · rw [hnames]
      decide
    · decide +kernel
    · decide +kernel
  · rw [← Bool.not_eq_true, hmissedIff]
    rintro ⟨id, hid, hnumber | ⟨name, hname, w, hw, hfolded⟩⟩
    · exact hnumbers id hid hnumber
    · rw [hnames] at hname
      simp only [List.mem_cons, Prod.mk.injEq, List.not_mem_nil, or_false] at hname
      rcases hname with ⟨rfl, rfl⟩ | ⟨rfl, rfl⟩ | ⟨rfl, rfl⟩
      · cases hw
      · exact absurd hid (by decide)
      · exact hwords w hw hfolded

end MemberRecord

end SlotQuery
