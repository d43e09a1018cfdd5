import SlotQuery.Text.CaseTable
import SlotQuery.Text.SigmaTable

/-!
# Case folding and lower-casing

`fold` is the simple case folding, one character to one character: two characters are equal up to
case exactly when their foldings agree. `lower` is the full lower-casing of a text, which may
lengthen it and which writes a capital sigma at the end of a word as `ς`.
-/

namespace SlotQuery.Text

namespace CaseRun

/-- The code point belongs to the run. -/
def holds (r : CaseRun) (n : Nat) : Bool :=
  r.first ≤ n && n ≤ r.last && (n - r.first) % r.step == 0

/-- The image of a code point of the run. -/
def image? (r : CaseRun) (n : Nat) : Option Nat :=
  if r.holds n then some (n + r.shift).toNat else none

/-- The code point of the run that has the given image. -/
def preimage? (r : CaseRun) (n : Nat) : Option Nat :=
  let m := (n - r.shift).toNat
  if r.image? m = some n then some m else none

end CaseRun

/-- The image of a code point under the first of the runs that holds it. -/
def imageIn? (runs : List CaseRun) (n : Nat) : Option Nat := runs.findSome? (·.image? n)

/-- The lower-case form of a character that has a form of one character. -/
def lowerSimple (c : Char) : Char :=
  if c.toNat < 0x80 then c.toLower
  else (imageIn? lowerRuns c.toNat).elim c Char.ofNat

/-- The simple case folding of a character. -/
def fold (c : Char) : Char :=
  if c.toNat < 0x80 then c.toLower
  else (imageIn? foldRuns c.toNat).elim (lowerSimple c) Char.ofNat

/-- The characters equal to `c` up to case. -/
def alike (c : Char) : List Char :=
  let f := fold c
  let candidates := (lowerRuns ++ foldRuns).filterMap (·.preimage? f.toNat)
  f :: (candidates.map Char.ofNat).filter (fold · == f)

/-- The closed ranges hold the character. -/
def inRanges (ranges : List (Nat × Nat)) (c : Char) : Bool :=
  ranges.any fun r => r.1 ≤ c.toNat && c.toNat ≤ r.2

/-- The first character that is not case-ignorable is a cased one. -/
def startsCased (cs : List Char) : Bool :=
  match cs.dropWhile (inRanges caseIgnorableRanges) with
  | [] => false
  | c :: _ => inRanges casedRanges c

/-- The lower-case form of a character on its own. -/
def lowerChar (c : Char) : List Char :=
  if c = 'İ' then ['i', '\u0307'] else [lowerSimple c]

/-- The lower-case form of `cs` behind the characters `before`, nearest first. A capital sigma is
final when a cased character precedes it and none follows, case-ignorable characters apart. -/
def lowerFrom (before : List Char) : List Char → List Char
  | [] => []
  | c :: cs =>
    let here :=
      if c = 'Σ' then [if startsCased before && !startsCased cs then 'ς' else 'σ']
      else lowerChar c
    here ++ lowerFrom (c :: before) cs

/-- The lower-case form of a run of characters. -/
def lowerChars (cs : List Char) : List Char := lowerFrom [] cs

/-- The lower-case form of a text. -/
def lower (s : String) : String := String.ofList (lowerChars s.toList)

theorem lowerFrom_of_ascii (before cs : List Char) (h : ∀ c ∈ cs, c.toNat < 0x80) :
    lowerFrom before cs = cs.map Char.toLower := by
  induction cs generalizing before with
  | nil => rfl
  | cons c cs ih =>
    have hc : c.toNat < 0x80 := h c (by simp)
    have hsigma : c ≠ 'Σ' := by rintro rfl; exact absurd hc (by decide)
    have hdot : c ≠ 'İ' := by rintro rfl; exact absurd hc (by decide)
    have hcs := ih (c :: before) fun d hd => h d (by simp [hd])
    simp [lowerFrom, lowerChar, lowerSimple, hsigma, hdot, hc, hcs]

end SlotQuery.Text
