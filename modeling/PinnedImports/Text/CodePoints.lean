/-!
# Sets of code points given by sorted ranges

A character class of the Unicode standard is stored as a sorted table of closed ranges. Membership
halves the part of the table still in question, so a question costs one comparison per bit of the
table's size. ASCII is answered outside the tables, by the classes that use them.
-/

set_option autoImplicit false

namespace PinnedImports.Text

/-- A sorted table of disjoint closed ranges of code points. -/
abbrev CodePoints := Array (Nat × Nat)

namespace CodePoints

/-- Whether one of the ranges `lo, …, hi - 1` of the table holds `n`; the first argument bounds the
number of halvings. -/
def search (table : CodePoints) (n : Nat) : Nat → Nat → Nat → Bool
  | 0, _, _ => false
  | steps + 1, lo, hi =>
    if hi ≤ lo then false
    else
      let middle := (lo + hi) / 2
      match table[middle]? with
      | none => false
      | some (first, last) =>
        if n < first then search table n steps lo middle
        else if last < n then search table n steps (middle + 1) hi
        else true

/-- Whether a range of the table holds the code point `n`. -/
def holds (table : CodePoints) (n : Nat) : Bool :=
  search table n (table.size + 1) 0 table.size

end CodePoints

end PinnedImports.Text
