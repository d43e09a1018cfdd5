/-!
# White space

The characters with the property White_Space, and trimming by it. Control characters such as U+001C
and format characters such as U+200B and U+FEFF are not white space.
-/

namespace SlotQuery.Text

/-- The character has the property White_Space. -/
def isBlank (c : Char) : Bool :=
  let n := c.toNat
  n == 0x20 || (0x09 ≤ n && n ≤ 0x0D) || n == 0x85 || n == 0xA0 || n == 0x1680 ||
    (0x2000 ≤ n && n ≤ 0x200A) || n == 0x2028 || n == 0x2029 || n == 0x202F || n == 0x205F ||
    n == 0x3000

/-- The characters without their leading white space. -/
def trimLeft (cs : List Char) : List Char := cs.dropWhile isBlank

/-- The characters without their trailing white space. -/
def trimRight (cs : List Char) : List Char := (cs.reverse.dropWhile isBlank).reverse

/-- The characters without white space at either end. -/
def trimBoth (cs : List Char) : List Char := trimRight (trimLeft cs)

/-- The text without white space at either end. -/
def trim (s : String) : String := String.ofList (trimBoth s.toList)

/-- Digits are no white space. -/
theorem isBlank_of_isDigit {c : Char} (h : c.isDigit = true) : isBlank c = false := by
  obtain ⟨hlow, hhigh⟩ := Char.isDigit_iff_toNat.1 h
  have hbounds : '0'.toNat = 48 ∧ '9'.toNat = 57 := ⟨rfl, rfl⟩
  simp only [isBlank, Bool.or_eq_false_iff, Bool.and_eq_false_iff, beq_eq_false_iff_ne,
    decide_eq_false_iff_not]
  omega

theorem trimLeft_of_not_isBlank {c : Char} {cs : List Char} (h : isBlank c = false) :
    trimLeft (c :: cs) = c :: cs := by
  simp [trimLeft, h]

theorem trimRight_append_of_not_isBlank {c : Char} (cs : List Char) (h : isBlank c = false) :
    trimRight (cs ++ [c]) = cs ++ [c] := by
  simp [trimRight, h]

/-- White space in front is taken off. -/
theorem trimLeft_append {ws : List Char} (h : ∀ c ∈ ws, isBlank c) (cs : List Char) :
    trimLeft (ws ++ cs) = trimLeft cs := by
  induction ws with
  | nil => rfl
  | cons w ws ih =>
    have hw : isBlank w = true := h w (by simp)
    have hws : trimLeft (ws ++ cs) = trimLeft cs := ih fun c hc => h c (by simp [hc])
    simpa [trimLeft, hw] using hws

/-- White space at the end is taken off. -/
theorem trimRight_append {ws : List Char} (h : ∀ c ∈ ws, isBlank c) (cs : List Char) :
    trimRight (cs ++ ws) = trimRight cs := by
  have h' : ∀ c ∈ ws.reverse, isBlank c := fun c hc => h c (by simpa using hc)
  have := trimLeft_append h' cs.reverse
  simp only [trimLeft] at this
  simp [trimRight, this]

theorem trimLeft_eq_self {cs : List Char} (h : ∀ c ∈ cs.head?, isBlank c = false) :
    trimLeft cs = cs := by
  cases cs with
  | nil => rfl
  | cons c cs => exact trimLeft_of_not_isBlank (h c rfl)

theorem trimRight_eq_self {cs : List Char} (h : ∀ c ∈ cs.getLast?, isBlank c = false) :
    trimRight cs = cs := by
  have h' : trimLeft cs.reverse = cs.reverse :=
    trimLeft_eq_self (by rwa [List.head?_reverse])
  rw [trimLeft] at h'
  rw [trimRight, h', List.reverse_reverse]

/-- Nothing is cut off a text without white space. -/
theorem trimBoth_eq_self {cs : List Char} (h : ∀ c ∈ cs, isBlank c = false) : trimBoth cs = cs := by
  rw [trimBoth, trimLeft_eq_self fun c hc => h c (List.mem_of_mem_head? hc)]
  exact trimRight_eq_self fun c hc => h c (List.mem_of_mem_getLast? hc)

theorem trimLeft_suffix (cs : List Char) : trimLeft cs <:+ cs := List.dropWhile_suffix isBlank

theorem trimRight_isPrefix (cs : List Char) : trimRight cs <+: cs := by
  rw [← List.reverse_suffix, trimRight, List.reverse_reverse]
  exact List.dropWhile_suffix isBlank

/-- Trimming adds nothing. -/
theorem mem_of_mem_trimBoth {c : Char} {cs : List Char} (h : c ∈ trimBoth cs) : c ∈ cs :=
  (trimLeft_suffix cs).subset ((trimRight_isPrefix _).subset h)

/-- A trimmed text starts with something other than white space, if with anything. -/
theorem isBlank_head_trimBoth {cs : List Char} : ∀ c ∈ (trimBoth cs).head?, isBlank c = false := by
  intro c hc
  obtain ⟨u, hu⟩ := trimRight_isPrefix (trimLeft cs)
  rw [trimBoth, Option.mem_def] at hc
  have hhead : (cs.dropWhile isBlank).head? = some c := by
    change (trimLeft cs).head? = some c
    rw [← hu, List.head?_append, hc]
    rfl
  simpa [hhead] using List.head?_dropWhile_not isBlank cs

theorem isBlank_getLast_trimBoth {cs : List Char} :
    ∀ c ∈ (trimBoth cs).getLast?, isBlank c = false := by
  intro c hc
  have h := List.head?_dropWhile_not isBlank (trimLeft cs).reverse
  rw [trimBoth, trimRight, List.getLast?_reverse] at hc
  simpa [Option.mem_def.1 hc] using h

/-- A text is trimmed once and for all. -/
theorem trimBoth_trimBoth (cs : List Char) : trimBoth (trimBoth cs) = trimBoth cs := by
  have hleft : trimLeft (trimBoth cs) = trimBoth cs := trimLeft_eq_self isBlank_head_trimBoth
  rw [trimBoth, hleft]
  exact trimRight_eq_self isBlank_getLast_trimBoth

end SlotQuery.Text
