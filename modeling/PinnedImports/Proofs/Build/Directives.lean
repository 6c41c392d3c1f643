import PinnedImports.Proofs.Build.Tokens
import PinnedImports.Proofs.Repository

/-!
# Which line of a header decides

A `//go:build` line decides alone, whatever `+build` lines stand around it, as long as no line in front
of it begins with the same characters and goes on with others (`firstGoBuild_decides`). Behind such a
line, as `//go:builder` is one, no `//go:build` line is found, and the `+build` lines decide: the first
line that begins with the characters is taken, and only then it is checked to end there.
-/

set_option autoImplicit false

namespace PinnedImports.Build

open Text

/-- How `//go:build` lines begin. -/
def goBuildStart : List Char := "//go:build".toList

/-- Whether a line begins as `//go:build` lines do, and whatever follows. -/
def beginsAsGoBuild (line : List Char) : Bool := goBuildStart.isPrefixOf line

/-- The text of the condition on a line that is a `//go:build` line: behind `//go:build` a blank, a tab
or the end of the line follows. -/
def conditionOf? (line : List Char) : Option (List Char) :=
  (after? goBuildStart line).filter endsDirective

/-- The truth of the condition that a text spells; a text that spells none is false. -/
def Platform.satisfies (p : Platform) (condition : List Char) : Bool :=
  ((Condition.parse? condition).map (Condition.eval p.holds)).getD false

theorem conditionOf?_eq_some {line condition : List Char} :
    conditionOf? line = some condition ↔
      line = goBuildStart ++ condition ∧ endsDirective condition = true := by
  rw [conditionOf?, Option.filter_eq_some_iff, after?_eq_some]

theorem beginsAsGoBuild_iff {line : List Char} :
    beginsAsGoBuild line = true ↔ ∃ rest, after? goBuildStart line = some rest := by
  rw [beginsAsGoBuild, List.isPrefixOf_iff_prefix]
  constructor
  · rintro ⟨rest, rfl⟩
    exact ⟨rest, after?_eq_some.2 rfl⟩
  · rintro ⟨rest, hrest⟩
    exact ⟨rest, (after?_eq_some.1 hrest).symm⟩

theorem goBuildText?_eq (header : List (List Char)) :
    goBuildText? header = (header.findSome? (after? goBuildStart)).filter endsDirective := rfl

/-- Behind lines that begin otherwise the `//go:build` line is found. -/
theorem goBuildText?_of_plain {before : List (List Char)}
    (hbefore : before.any beginsAsGoBuild = false) {line condition : List Char}
    (hline : conditionOf? line = some condition) (after : List (List Char)) :
    goBuildText? (before ++ line :: after) = some condition := by
  obtain ⟨rfl, hends⟩ := conditionOf?_eq_some.1 hline
  have hnone : before.findSome? (after? goBuildStart) = none := by
    rw [List.findSome?_eq_none_iff]
    intro other hother
    rw [Option.eq_none_iff_forall_ne_some]
    intro rest hrest
    have hbegins := List.any_eq_false.1 hbefore other hother
    exact hbegins (beginsAsGoBuild_iff.2 ⟨rest, hrest⟩)
  have hfirst : (before ++ (goBuildStart ++ condition) :: after).findSome? (after? goBuildStart) =
      some condition := by
    rw [List.findSome?_append, hnone, Option.none_or, List.findSome?_cons, after?_eq_some.2 rfl]
  rw [goBuildText?_eq, hfirst, Option.filter_some, if_pos hends]

/-- Behind a line that only begins as one, no `//go:build` line is found. -/
theorem goBuildText?_of_lookalike {before : List (List Char)}
    (hbefore : before.any beginsAsGoBuild = true)
    (hfirst : ∀ line ∈ before, conditionOf? line = none) (others : List (List Char)) :
    goBuildText? (before ++ others) = none := by
  cases hfound : before.findSome? (after? goBuildStart) with
  | none =>
    obtain ⟨line, hline, hbegins⟩ := List.any_eq_true.1 hbefore
    obtain ⟨rest, hrest⟩ := beginsAsGoBuild_iff.1 hbegins
    rw [List.findSome?_eq_none_iff.1 hfound line hline] at hrest
    simp at hrest
  | some rest =>
    -- The line that is found first is none of the `//go:build` lines, so it is dropped again.
    obtain ⟨line, hline, hrest⟩ := List.exists_of_findSome?_eq_some hfound
    have hends := hfirst line hline
    rw [conditionOf?, hrest, Option.filter_eq_none_iff] at hends
    rw [goBuildText?_eq, List.findSome?_append, hfound, Option.some_or,
      Option.filter_eq_none_iff]
    exact hends

/-- **A `//go:build` line decides.** Where the header of a text has one, the condition of the first
decides alone, and the file is left out when it spells none, whatever comment lines and `+build` lines
stand before or behind it. Only a line in front of it that begins with the same characters and goes on
with others keeps it from deciding; then the `+build` lines of the header do. -/
theorem firstGoBuild_decides (p : Platform) {text : String} {before after : List (List Char)}
    {line condition : List Char} (hheader : constraintHeader text = before ++ line :: after)
    (hline : conditionOf? line = some condition)
    (hfirst : ∀ other ∈ before, conditionOf? other = none) :
    (before.any beginsAsGoBuild = false → p.allowsSource text = p.satisfies condition) ∧
    (before.any beginsAsGoBuild = true → p.allowsSource text =
      ((before ++ line :: after).filterMap plusBuildText?).all p.allowsOptions) := by
  rw [Platform.allowsSource, Platform.allowsHeader, hheader]
  constructor
  · intro hplain
    rw [goBuildText?_of_plain hplain hline]
    rfl
  · intro hlookalike
    rw [goBuildText?_of_lookalike hlookalike hfirst]

/-- A `//go:build` line between a `+build` line that does not hold and a line that looks like it. -/
def threeDirectives : String := "// +build ignore\n//go:build linux\n//go:builder x\n\npackage p\n"

/-- The `+build` line above and the line below make no difference. -/
theorem goBuild_among_directives :
    constraintHeader threeDirectives =
        ["// +build ignore".toList] ++ "//go:build linux".toList :: ["//go:builder x".toList] ∧
      conditionOf? "//go:build linux".toList = some " linux".toList ∧
      (∀ other ∈ ["// +build ignore".toList], conditionOf? other = none) ∧
      Platform.host.allowsSource threeDirectives = true := by
  have hheader : constraintHeader threeDirectives =
      ["// +build ignore".toList] ++ "//go:build linux".toList :: ["//go:builder x".toList] := by
    decide +kernel
  have hline : conditionOf? "//go:build linux".toList = some " linux".toList := by decide
  have hfirst : ∀ other ∈ ["// +build ignore".toList], conditionOf? other = none := by decide
  refine ⟨hheader, hline, hfirst, ?_⟩
  obtain ⟨hplain, -⟩ := firstGoBuild_decides Platform.host hheader hline hfirst
  rw [hplain (by decide)]
  decide +kernel

/-- The condition behind a line that looks like its own is not read. -/
example : Platform.host.allowsSource "//go:builder x\n//go:build ignore\n\npackage p\n" = true := by
  decide +kernel

end PinnedImports.Build
