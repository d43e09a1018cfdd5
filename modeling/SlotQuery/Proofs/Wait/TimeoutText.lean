import SlotQuery.Proofs.Decimal.Positional
import SlotQuery.Proofs.Decimal.Seconds
import SlotQuery.Wait.Timeout

/-!
# The text of a timeout

A limit is shown as a binary number of seconds and read as one. Which texts mean a timeout is said by `IsText`,
and these are the ones that are read (`parse_eq_ok_iff`). What a text gives, and what is left of it after some
time, is shown as a text that is read (`exists_reread`); how much of the timeout is still there is said by
`Reread`. No limit and a limit of zero have one text, that of no limit.
-/

namespace SlotQuery

open Text

namespace Timeout

variable {text : String} {t left : Timeout} {d d' : Duration} {x : Binary64} {limit : Option Duration}

/-- What a timeout is read as once it is shown. Its limit is lost if it is zero; it is kept if a text gives it
or it has up to `2 ^ 23` seconds; otherwise it is off by one part in `2 ^ 51` at most. -/
structure Reread (t back : Timeout) : Prop where
  fatal_eq : back.fatal = t.fatal
  limit_eq_none_iff : back.limit = none ↔ t.limit = none ∨ t.limit = some .zero
  limit_ne_zero : back.limit ≠ some .zero
  eq_of_parse : ∀ text, parse text = .ok t → t.limit ≠ some .zero → back = t
  eq_of_le : ∀ d, t.limit = some d → d ≠ .zero → d.nanos ≤ 2 ^ 23 * Duration.perSecond → back = t
  near : ∀ d d', t.limit = some d → back.limit = some d' → |(d'.nanos : ℤ) - d.nanos| * 2 ^ 51 ≤ d.nanos

/-! ## The parts of a text -/

/-- The characters of the number, and whether there is no mark behind them. -/
def parts (text : String) : List Char × Bool :=
  if (trimBoth text.toList).getLast? = some '?' then (trimBoth (trimBoth text.toList).dropLast, false)
  else (trimBoth text.toList, true)

theorem parse_eq (text : String) : parse text =
    if (parts text).1.isEmpty then .ok ⟨none, (parts text).2⟩
    else match (Numeral.parse? (parts text).1).bind limitOf? with
      | none => .error (.invalidTimeout text)
      | some limit => .ok ⟨limit, (parts text).2⟩ := rfl

theorem toList_trim (text : String) : (trim text).toList = trimBoth text.toList := String.toList_ofList

theorem parts_of_mark {number : String} (hmark : trim text = number ++ "?") :
    parts text = ((trim number).toList, false) := by
  have hchars : trimBoth text.toList = number.toList ++ ['?'] := by
    rw [← toList_trim, hmark, String.toList_append]
    rfl
  rw [parts, hchars, List.getLast?_concat, if_pos rfl, List.dropLast_concat, toList_trim]

theorem parts_of_no_mark (hlast : (trim text).toList.getLast? ≠ some '?') :
    parts text = ((trim text).toList, true) := by
  rw [toList_trim] at hlast ⊢
  rw [parts, if_neg hlast]

theorem exists_mark (hlast : (trim text).toList.getLast? = some '?') :
    ∃ number, trim text = number ++ "?" := by
  obtain ⟨cs, hcs⟩ := List.getLast?_eq_some_iff.1 hlast
  refine ⟨String.ofList cs, ?_⟩
  rw [← String.toList_inj, hcs, String.toList_append, String.toList_ofList]
  rfl

/-- The mark at the end is all that is taken off a plain number. -/
theorem parts_append (hplain : ∀ c ∈ text.toList, isBlank c = false ∧ c ≠ '?') (fatal : Bool) :
    parts (text ++ if fatal then "" else "?") = (text.toList, fatal) := by
  have htrim : trim text = text := by
    rw [trim, trimBoth_eq_self fun c hc => (hplain c hc).1, String.ofList_toList]
  cases fatal with
  | true =>
    rw [if_pos rfl, String.append_empty, parts_of_no_mark, htrim]
    intro hmark
    rw [htrim] at hmark
    exact (hplain '?' (List.mem_of_getLast? hmark)).2 rfl
  | false =>
    have htrim' : trim (text ++ "?") = text ++ "?" := by
      rw [trim, trimBoth_eq_self, String.ofList_toList]
      intro c hc
      rw [String.toList_append] at hc
      rcases List.mem_append.1 hc with hc | hc
      · exact (hplain c hc).1
      · rw [List.mem_singleton.1 hc]
        decide
    rw [if_neg Bool.false_ne_true, parts_of_mark htrim', htrim]

/-! ## What a text means -/

/-- The characters ask for the limit. Nothing, zero and negative numbers of seconds ask for none. -/
inductive Asks : List Char → Option Duration → Prop
  | nothing : Asks [] none
  | unlimited {cs : List Char} {number : Numeral} {x : Binary64} (htext : number.IsText cs)
      (hx : number.toBinary64? = some x) (h : number.negative = true ∨ x.toRat = 0) : Asks cs none
  | limited {cs : List Char} {number : Numeral} {x : Binary64} {d : Duration} (htext : number.IsText cs)
      (hx : number.toBinary64? = some x) (hsign : number.negative = false) (hpos : 0 < x.toRat)
      (hd : Duration.ofSeconds? x = some d) : Asks cs (some d)

/-- The text means the timeout: what stands in front of a mark, or the text without one, asks for the limit,
with white space around either. -/
inductive IsText : String → Timeout → Prop
  | fatal {text : String} {limit : Option Duration} (hlast : (trim text).toList.getLast? ≠ some '?')
      (h : Asks (trim text).toList limit) : IsText text ⟨limit, true⟩
  | harmless {text number : String} {limit : Option Duration} (hmark : trim text = number ++ "?")
      (h : Asks (trim number).toList limit) : IsText text ⟨limit, false⟩

/-- Nothing is no number, so it asks for no limit and for nothing else. -/
theorem asks_nil_iff : Asks [] limit ↔ limit = none := by
  constructor
  · intro h
    cases h with
    | nothing | unlimited => rfl
    | limited htext => exact absurd rfl htext.ne_nil
  · rintro rfl
    exact .nothing

/-- A limit is read from characters that ask for it. -/
theorem limit_eq_some_iff_asks {cs : List Char} (hne : cs ≠ []) :
    (Numeral.parse? cs).bind limitOf? = some limit ↔ Asks cs limit := by
  simp only [Option.bind_eq_some_iff, Numeral.parse?_eq_some_iff, limitOf?]
  constructor
  · rintro ⟨number, htext, h⟩
    split at h
    · cases h
    · next x hx =>
      split at h
      · next hnone =>
        obtain rfl := Option.some.inj h
        refine .unlimited htext hx ?_
        rw [Binary64.toRat_eq_zero_iff]
        simpa using hnone
      · next hsome =>
        obtain ⟨d, hd, rfl⟩ := Option.map_eq_some_iff.1 h
        obtain ⟨hsign, hpos⟩ : number.negative = false ∧ x.mantissa ≠ 0 := by simpa using hsome
        exact .limited htext hx hsign (Binary64.toRat_pos_iff.2 hpos) hd
  · intro h
    cases h with
    | nothing => exact absurd rfl hne
    | @unlimited _ number x htext hx h =>
      rw [Binary64.toRat_eq_zero_iff] at h
      exact ⟨number, htext, by simp [hx, h]⟩
    | @limited _ number x d htext hx hsign hpos hd =>
      exact ⟨number, htext, by simp [hx, hsign, Binary64.toRat_pos_iff.1 hpos, hd]⟩

theorem parse_eq_ok_iff_asks : parse text = .ok t ↔ Asks (parts text).1 t.limit ∧ (parts text).2 = t.fatal := by
  obtain ⟨limit, fatal⟩ := t
  rw [parse_eq]
  split
  · next hempty =>
    rw [List.isEmpty_iff.1 hempty, Except.ok.injEq, mk.injEq, asks_nil_iff, eq_comm]
  · next hne =>
    rw [← limit_eq_some_iff_asks (by simpa using hne)]
    split
    · next hnone => simp [hnone]
    · next hsome => simp [hsome]

/-- **A timeout is read from the texts that mean it.** -/
theorem parse_eq_ok_iff : parse text = .ok t ↔ t.IsText text := by
  rw [parse_eq_ok_iff_asks]
  constructor
  · obtain ⟨limit, fatal⟩ := t
    by_cases hlast : (trim text).toList.getLast? = some '?'
    · obtain ⟨number, hmark⟩ := exists_mark hlast
      simp only [parts_of_mark hmark]
      rintro ⟨hasks, rfl⟩
      exact .harmless hmark hasks
    · simp only [parts_of_no_mark hlast]
      rintro ⟨hasks, rfl⟩
      exact .fatal hlast hasks
  · intro h
    cases h with
    | fatal hlast hasks => simpa only [parts_of_no_mark hlast, and_true] using hasks
    | harmless hmark hasks => simpa only [parts_of_mark hmark, and_true] using hasks

/-- A text means one timeout only. -/
theorem IsText.unique {t' : Timeout} (h : t.IsText text) (h' : t'.IsText text) : t = t' :=
  Except.ok.inj ((parse_eq_ok_iff.2 h).symm.trans (parse_eq_ok_iff.2 h'))

/-! ## Seconds that a text gives -/

theorem exists_seconds_of_parse (h : parse text = .ok t) (hd : t.limit = some d) :
    ∃ x : Binary64, x.Canonical ∧ Duration.ofSeconds? x = some d := by
  have hasks : ∃ cs, Asks cs (some d) := by
    cases parse_eq_ok_iff.1 h with
    | fatal _ hasks | harmless _ hasks =>
      obtain rfl := hd
      exact ⟨_, hasks⟩
  obtain ⟨cs, hasks⟩ := hasks
  cases hasks with
  | limited _ hx _ _ hd => exact ⟨_, Numeral.canonical_of_toBinary64? hx, hd⟩

/-- No limit that is read exceeds the longest span of time. -/
theorem nanos_le_longest_of_parse (h : parse text = .ok t) (hd : t.limit = some d) :
    d.nanos ≤ Duration.longest.nanos := by
  obtain ⟨x, hx, hofSeconds⟩ := exists_seconds_of_parse h hd
  exact Duration.nanos_le_longest hx hofSeconds

/-! ## Seconds read back -/

/-- The text of a number has neither white space nor the mark in it. -/
theorem plain_of_mem_render {c : Char} (hc : c ∈ x.render.toList) : isBlank c = false ∧ c ≠ '?' := by
  rcases Binary64.mem_render hc with hdigit | rfl
  · refine ⟨isBlank_of_isDigit hdigit, ?_⟩
    rintro rfl
    cases hdigit
  · decide

theorem limitOf?_of_toBinary64? {number : Numeral} (hsign : number.negative = false)
    (h : number.toBinary64? = some x) :
    limitOf? number = if x.mantissa = 0 then some none else (Duration.ofSeconds? x).map some := by
  simp only [limitOf?, h, hsign, Bool.false_or, decide_eq_true_iff]

/-- A number of seconds, and a mark or none behind it, is read as the limit of that number. -/
theorem parse_render_append (hx : x.Canonical) (fatal : Bool)
    (h : (if x.mantissa = 0 then some none else (Duration.ofSeconds? x).map some) = some limit) :
    parse (x.render ++ if fatal then "" else "?") = .ok ⟨limit, fatal⟩ := by
  obtain ⟨number, hnumber, hsign, hseconds⟩ := Binary64.parse?_render hx
  have hne : x.render.toList.isEmpty = false := List.isEmpty_eq_false_iff.2 x.render_ne_nil
  rw [parse_eq, parts_append (fun _ => plain_of_mem_render), hne, if_neg Bool.false_ne_true, hnumber,
    Option.bind_some, limitOf?_of_toBinary64? hsign hseconds, h]

/-- Zero stands for no limit, so a limit of zero does not survive. -/
theorem parse_render_of_zero (h : t.limit = none ∨ t.limit = some .zero) :
    parse t.render = .ok ⟨none, t.fatal⟩ := by
  have hseconds : (t.limit.getD .zero).toSeconds = .zero := by
    rcases h with h | h
    all_goals
      rw [h]
      exact Duration.toSeconds_zero
  rw [render, hseconds]
  exact parse_render_append Binary64.canonical_zero t.fatal rfl

/-- A limit is read as what its seconds come back to. -/
theorem parse_render_of_ofSeconds? (ht : t.limit = some d) (hd : d.nanos ≤ Duration.longest.nanos)
    (h : Duration.ofSeconds? d.toSeconds = some d') (hd' : d' ≠ .zero) :
    parse t.render = .ok ⟨some d', t.fatal⟩ := by
  rw [render, ht, Option.getD_some]
  apply parse_render_append (Duration.canonical_toSeconds hd)
  rw [if_neg (Duration.mantissa_pos_of_ofSeconds? h hd').ne', h, Option.map_some]

/-! ## Main statement -/

theorem reread_of_zero (h : t.limit = none ∨ t.limit = some .zero) : Reread t ⟨none, t.fatal⟩ := by
  refine ⟨rfl, iff_of_true rfl h, by simp, ?_, ?_, ?_⟩
  · intro text hparse hne
    obtain ⟨limit, fatal⟩ := t
    obtain rfl : limit = none := h.resolve_right hne
    rfl
  · intro d hd hne _
    rcases h with hnone | hzero
    · rw [hnone] at hd
      cases hd
    · rw [hzero] at hd
      exact absurd (Option.some.inj hd).symm hne
  · intro d d' _ hd'
    cases hd'

theorem reread_of_ofSeconds? (ht : t.limit = some d) (hd : d ≠ .zero)
    (h : Duration.ofSeconds? d.toSeconds = some d')
    (hnear : |(d'.nanos : ℤ) - d.nanos| * 2 ^ 51 ≤ d.nanos) : Reread t ⟨some d', t.fatal⟩ := by
  have hsame : Duration.ofSeconds? d.toSeconds = some d → (⟨some d', t.fatal⟩ : Timeout) = t := by
    intro hback
    rw [← h, hback, ← ht]
  refine ⟨rfl, ?_, ?_, ?_, ?_, ?_⟩
  · rw [ht]
    simp [hd]
  · rintro hzero
    exact Duration.ne_zero_of_near hd hnear (Option.some.inj hzero)
  · intro text hparse _
    obtain ⟨x, hx, hofSeconds⟩ := exists_seconds_of_parse hparse ht
    exact hsame (Duration.ofSeconds?_toSeconds_of_ofSeconds? hx hofSeconds)
  · intro e he _ hle
    obtain rfl : d = e := Option.some.inj (ht.symm.trans he)
    exact hsame (Duration.ofSeconds?_toSeconds_of_le hle)
  · intro e e' he he'
    obtain rfl : d = e := Option.some.inj (ht.symm.trans he)
    obtain rfl : d' = e' := Option.some.inj he'
    exact hnear

/-- Every limit within the longest span is read back, but for what seconds cannot tell apart. -/
theorem exists_reread_of_le (hle : ∀ d, t.limit = some d → d.nanos ≤ Duration.longest.nanos) :
    ∃ back, parse t.render = .ok back ∧ Reread t back := by
  by_cases hzero : t.limit = none ∨ t.limit = some .zero
  · exact ⟨_, parse_render_of_zero hzero, reread_of_zero hzero⟩
  · obtain ⟨hnone, hne⟩ := not_or.1 hzero
    obtain ⟨d, ht⟩ := Option.ne_none_iff_exists'.1 hnone
    have hd : d ≠ .zero := fun h => hne (h ▸ ht)
    obtain ⟨d', hd', hnear⟩ := Duration.toSeconds_near (hle d ht)
    have hd'_ne := Duration.ne_zero_of_near hd hnear
    exact ⟨_, parse_render_of_ofSeconds? ht (hle d ht) hd' hd'_ne, reread_of_ofSeconds? ht hd hd' hnear⟩

/-- **What a text gives, and what is left of it, is shown as a text that is read.** -/
theorem exists_reread (h : parse text = .ok t) (hleft : left = t ∨ ∃ elapsed, left = t.remaining elapsed) :
    ∃ back, parse left.render = .ok back ∧ Reread left back := by
  apply exists_reread_of_le
  intro d hd
  rcases hleft with rfl | ⟨elapsed, rfl⟩
  · exact nanos_le_longest_of_parse h hd
  · obtain ⟨whole, hwhole, rfl⟩ := Option.map_eq_some_iff.1 hd
    exact (Nat.sub_le _ _).trans (nanos_le_longest_of_parse h hwhole)

/-- Half a minute that is left of ninety seconds, and the ninety seconds themselves. -/
theorem exists_reread_half_minute :
    parse " 90.0 ?" = .ok ⟨some (.ofSecs 90), false⟩ ∧
      (∃ back, parse (render ⟨some (.ofSecs 90), false⟩) = .ok back ∧
        Reread ⟨some (.ofSecs 90), false⟩ back) ∧
      ∃ back, parse (render ⟨some (.ofSecs 30), false⟩) = .ok back ∧
        Reread ⟨some (.ofSecs 30), false⟩ back := by
  have hparse : parse " 90.0 ?" = .ok ⟨some (.ofSecs 90), false⟩ := by decide +kernel
  exact ⟨hparse, exists_reread hparse (.inl rfl), exists_reread hparse (.inr ⟨.ofSecs 60, rfl⟩)⟩

/-- What is left does not always come back as it was: nothing comes back as no limit, and one nanosecond beyond
`2 ^ 23` seconds as two. -/
theorem render_not_reread :
    (parse "1" = .ok ⟨some (.ofSecs 1), true⟩ ∧
      remaining ⟨some (.ofSecs 1), true⟩ (.ofSecs 1) = ⟨some .zero, true⟩ ∧
      parse (render ⟨some .zero, true⟩) = .ok ⟨none, true⟩) ∧
    (parse "8388609" = .ok ⟨some (.ofSecs 8388609), true⟩ ∧
      remaining ⟨some (.ofSecs 8388609), true⟩ ⟨999999999⟩ = ⟨some (.ofParts 8388608 1), true⟩ ∧
      parse (render ⟨some (.ofParts 8388608 1), true⟩) = .ok ⟨some (.ofParts 8388608 2), true⟩) := by
  decide +kernel

end Timeout

end SlotQuery
