import PinnedImports.Text.Blank

/-!
# Build platforms

A file takes part in a build only when the platform allows it. The platform knows its operating
system, its architecture and extra tags; `Platform.holds` says which build tags it satisfies.
`Platform.allowsFileName` reads the `_GOOS`, `_GOARCH` and `_GOOS_GOARCH` endings of file names.
-/

set_option autoImplicit false

namespace PinnedImports.Build

/-- The operating systems that a file name may end in. -/
def operatingSystems : List String :=
  ["aix", "android", "darwin", "dragonfly", "freebsd", "hurd", "illumos", "ios", "js", "linux",
    "nacl", "netbsd", "openbsd", "plan9", "solaris", "wasip1", "windows", "zos"]

/-- The architectures that a file name may end in. -/
def architectures : List String :=
  ["386", "amd64", "arm", "arm64", "loong64", "mips", "mips64", "mips64le", "mipsle", "ppc64",
    "ppc64le", "riscv64", "s390x", "wasm"]

/-- The operating systems on which the tag `unix` holds. -/
def unixSystems : List String :=
  ["aix", "android", "darwin", "dragonfly", "freebsd", "hurd", "illumos", "ios", "linux", "netbsd",
    "openbsd", "solaris"]

/-- The platform that constraints are evaluated against. -/
structure Platform where
  os : String
  arch : String
  /-- Further tags that hold. -/
  tags : List String := []
  deriving Repr, DecidableEq

/-- Whether a tag names a language release, as `go1.18` does. -/
def isReleaseTag (tag : String) : Bool :=
  match Text.after? "go1.".toList tag.toList with
  | some minor => !minor.isEmpty && minor.all Char.isDigit
  | none => false

namespace Platform

/-- The platform of a process, from the names that its compiler has for the operating system and the
architecture. -/
def ofTarget (os arch : String) : Platform where
  os :=
    match os with
    | "macos" => "darwin"
    | other => other
  arch :=
    match arch with
    | "x86_64" => "amd64"
    | "x86" => "386"
    | "aarch64" => "arm64"
    | "powerpc64" => "ppc64"
    | "loongarch64" => "loong64"
    | other => other

/-- The platform on which packages are loaded. It is fixed when the program is built, here for 64-bit
Linux. -/
def host : Platform := ofTarget "linux" "x86_64"

/-- Whether a build tag holds on the platform. -/
def holds (p : Platform) (tag : String) : Bool :=
  tag == p.os || tag == p.arch || (tag == "unix" && unixSystems.contains p.os) ||
    tag == "gc" || tag == "cgo" || isReleaseTag tag || p.tags.contains tag

/-- The parts of a file name that may restrict it, last part first: what stands after the first
underscore, without the endings `.go` and `_test`. -/
def restrictingParts (name : String) : List String :=
  let stem := (Text.before? ".go".toList name.toList).getD name.toList
  let stem := (Text.before? "_test".toList stem).getD stem
  ((Text.split (· == '_') stem).drop 1).reverse.map String.ofList

/-- Whether the platform satisfies the restricting parts of a file name. Only the last two count:
an operating system before an architecture, or one of either at the end. -/
def allowsParts (p : Platform) : List String → Bool
  | last :: before =>
    match before with
    | os :: _ =>
      if operatingSystems.contains os && architectures.contains last then
        p.holds os && p.holds last
      else if operatingSystems.contains last || architectures.contains last then p.holds last
      else true
    | [] =>
      if operatingSystems.contains last || architectures.contains last then p.holds last
      else true
  | [] => true

/-- Whether the endings of a file name allow the file on the platform. -/
def allowsFileName (p : Platform) (name : String) : Bool := p.allowsParts (restrictingParts name)

end Platform

end PinnedImports.Build
