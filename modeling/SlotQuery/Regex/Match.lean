import SlotQuery.Regex.Basic

/-!
# Searching a text

A text of `n` characters has the positions `0` to `n`. A set of positions is a number whose bits are
its members, and `reach` takes the positions where a match may start to those where it may end; the
text holds a match when some position is reached from some other. The work is polynomial in the
text, whatever the pattern.
-/

namespace SlotQuery.Regex

/-- The positions in front of a character of the set. -/
def charBits (s : CharSet) : List Char → Nat
  | [] => 0
  | c :: cs => 2 * charBits s cs + (s.contains c).toNat

/-- The positions at which the anchor holds, in a text behind the character `before`. -/
def anchorBits (a : Anchor) (before : Option Char) : List Char → Nat
  | [] => (a.holds before none).toNat
  | c :: cs => 2 * anchorBits a (some c) cs + (a.holds before (some c)).toNat

/-- The `k`-th image of `m`. -/
def iterate (f : Nat → Nat) : Nat → Nat → Nat
  | 0, m => m
  | k + 1, m => iterate f k (f m)

/-- The union of the images of `m` up to the `k`-th. A round that adds nothing is the last. -/
def spread (f : Nat → Nat) : Nat → Nat → Nat
  | 0, m => m
  | k + 1, m =>
    let next := m ||| f m
    if next = m then m else spread f k next

/-- The ends of the matches that start at one of the positions `m`. Every useful round of an
unbounded repetition moves on by a character, so the length of the text bounds their number. -/
def reach (text : List Char) : Regex → Nat → Nat
  | empty, m => m
  | chars s, m => (m &&& charBits s text) <<< 1
  | anchor a, m => m &&& anchorBits a none text
  | seq r s, m => reach text s (reach text r m)
  | alt r s, m => reach text r m ||| reach text s m
  | rep r least most, m =>
    let rounds := match most with
      | none => text.length
      | some most => most - least
    spread (reach text r) rounds (iterate (reach text r) least m)

/-- Every position of the text. -/
def everywhere (text : List Char) : Nat := 1 <<< (text.length + 1) - 1

/-- The text holds a match of the pattern somewhere. -/
def foundIn (r : Regex) (text : List Char) : Bool := reach text r (everywhere text) != 0

end SlotQuery.Regex
