import PinnedImports.Build.Condition
import PinnedImports.Build.Platform

/-!
# Build constraints of a source file

The constraint header of a file is the run of `//` lines at its top, up to the last blank line
before the first line of code. There, a `//go:build` line decides alone; without one, all
`// +build` lines have to hold. `Platform.allowsSource` evaluates the header.
-/

set_option autoImplicit false

namespace PinnedImports.Build

/-- Collects comment lines up to the first line of code. `settled` holds the lines that a blank
line already follows, `pending` the ones after the last blank line. -/
def headerFrom (settled pending : List (List Char)) : List (List Char) → List (List Char)
  | [] => settled
  | line :: rest =>
    match Text.trim line with
    | [] => headerFrom (settled ++ pending) [] rest
    | line =>
      -- Comment lines right above the code are not followed by a blank line and do not count.
      if ['/', '/'].isPrefixOf line then headerFrom settled (pending ++ [line]) rest else settled

/-- The trimmed `//` lines before the last blank line above the first line of code. -/
def constraintHeader (text : String) : List (List Char) :=
  headerFrom [] [] (Text.lines text.toList)

/-- Whether a directive ends where `rest` begins: at a blank, a tab or the end of the line. -/
def endsDirective : List Char → Bool
  | [] => true
  | c :: _ => c == ' ' || c == '\t'

/-- What follows `//go:build` on the first line that begins so, if the directive ends there. -/
def goBuildText? (header : List (List Char)) : Option (List Char) :=
  (header.findSome? (Text.after? "//go:build".toList)).filter endsDirective

/-- What follows `+build` on a comment line that begins so. -/
def plusBuildText? (line : List Char) : Option (List Char) := do
  let comment ← Text.after? ['/', '/'] line
  let rest ← Text.after? "+build".toList (Text.trimStart comment)
  if endsDirective rest then some rest else none

/-- Whether a text can be a tag. -/
def isTag (cs : List Char) : Bool := !cs.isEmpty && cs.all isTagChar

namespace Platform

/-- A term of a `+build` option: a tag that has to hold, or after `!` one that has to fail. -/
def allowsTerm (p : Platform) (term : List Char) : Bool :=
  match Text.after? ['!'] term with
  | some tag => isTag tag && !p.holds (String.ofList tag)
  | none => isTag term && p.holds (String.ofList term)

/-- A `+build` line: one of its options has all of its comma-separated terms satisfied. -/
def allowsOptions (p : Platform) (options : List Char) : Bool :=
  (Text.words options).any fun option =>
    (Text.split (· == ',') option).all p.allowsTerm

/-- Whether the constraint lines of a header hold on the platform. -/
def allowsHeader (p : Platform) (header : List (List Char)) : Bool :=
  match goBuildText? header with
  | some text => ((Condition.parse? text).map (Condition.eval p.holds)).getD false
  | none => (header.filterMap plusBuildText?).all p.allowsOptions

/-- Whether the constraints of a source file hold on the platform. -/
def allowsSource (p : Platform) (text : String) : Bool := p.allowsHeader (constraintHeader text)

end Platform

end PinnedImports.Build
