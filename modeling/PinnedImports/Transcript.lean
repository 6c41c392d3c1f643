import PinnedImports.Text.Paint

/-!
# What a run tells its operator

Results go to standard output; notices go to standard error, each on a line of its own behind a
painted label. A transcript keeps both texts.
-/

set_option autoImplicit false

namespace PinnedImports

/-- The kinds of notices. -/
inductive Severity where
  | info
  | warn
  | error
  | hint
  deriving Repr, DecidableEq

/-- The label in front of a notice. -/
def Severity.label : Severity → String
  | info => "info:"
  | warn => "warn:"
  | error => "error:"
  | hint => "hint:"

/-- The colour of the label. -/
def Severity.colour : Severity → Text.Colour
  | info => .blue
  | warn => .yellow
  | error => .red
  | hint => .cyan

/-- A message for the operator. -/
structure Notice where
  severity : Severity
  text : String
  deriving Repr, DecidableEq

/-- The line of a notice. -/
def Notice.line (n : Notice) (palette : Text.Palette) : String :=
  palette.bold n.severity.colour n.severity.label ++ " " ++ n.text ++ "\n"

/-- The texts written to standard output and standard error. -/
structure Transcript where
  out : String := ""
  err : String := ""
  deriving Repr, DecidableEq

namespace Transcript

/-- One transcript behind another. -/
instance : Append Transcript := ⟨fun a b => ⟨a.out ++ b.out, a.err ++ b.err⟩⟩

instance : EmptyCollection Transcript := ⟨⟨"", ""⟩⟩

/-- The transcript of a text on standard output. -/
def ofOut (text : String) : Transcript := ⟨text, ""⟩

/-- The transcript of a text on standard error. -/
def ofErr (text : String) : Transcript := ⟨"", text⟩

/-- The transcript of some notices. -/
def ofNotices (palette : Text.Palette) (notices : List Notice) : Transcript :=
  ofErr (String.join (notices.map fun n => n.line palette))

end Transcript

end PinnedImports
