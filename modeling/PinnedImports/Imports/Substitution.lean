import PinnedImports.Dictionary
import PinnedImports.Go.Source
import PinnedImports.Repository

/-!
# Substitutions of import paths

A pass pins repositories: it gives each the path to import instead. What that means for the imports
of one file is its substitutions, a dictionary from import paths to the paths that take their place.
-/

set_option autoImplicit false

namespace PinnedImports.Imports

/-- The path that takes the place of an import path when each repository of `pins` gets the path
that stands for it there. Disabled paths stay. -/
def substitute? (pins : Dictionary String) (disabled : StringSet) (path : String) :
    Option String :=
  if disabled.contains path then none
  else do
    let repository ← Repository.ofImportPath? path
    let replacement ← pins.get? repository.key
    replaceKey? repository.key path replacement

/-- The substitutions of a file's imports. -/
def substitutions (pins : Dictionary String) (disabled : StringSet)
    (imports : List Go.Import) : Dictionary String :=
  .ofList (imports.filterMap fun spec =>
    (substitute? pins disabled spec.path).map (spec.path, ·))

end PinnedImports.Imports
