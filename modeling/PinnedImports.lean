import PinnedImports.Main
import PinnedImports.Proofs.Pass.Substitutions
import PinnedImports.Proofs.TypeIdentity
import PinnedImports.Proofs.Imports.Frame
import PinnedImports.Proofs.Imports.Conservation
import PinnedImports.Proofs.Pass.Atomicity
import PinnedImports.Proofs.Pass.CacheTransparency
import PinnedImports.Proofs.Pass.Downloads
import PinnedImports.Proofs.Pass.Idempotence
import PinnedImports.Proofs.Batches
import PinnedImports.Proofs.Pass.DryRun
import PinnedImports.Proofs.Pass.Noninterference
import PinnedImports.Proofs.Command.Output
import PinnedImports.Proofs.Pass.Libraries
import PinnedImports.Proofs.Imports.Sorting
import PinnedImports.Proofs.Imports.InOrder
import PinnedImports.Proofs.Imports.Comments
import PinnedImports.Proofs.Imports.Ownership
import PinnedImports.Proofs.Partition
import PinnedImports.Proofs.CommentedTypes
import PinnedImports.Proofs.Build.Grammar
import PinnedImports.Proofs.Build.Directives
import PinnedImports.Proofs.Build.Translation
import PinnedImports.Proofs.Build.Preamble
import PinnedImports.Proofs.Pass.Accounting
import PinnedImports.Proofs.Imports.Written
import PinnedImports.Proofs.Alignment
import PinnedImports.Proofs.Majority
import PinnedImports.Proofs.Storage.Walk
import PinnedImports.Proofs.Patterns.Below
import PinnedImports.Proofs.Patterns.Expansion
import PinnedImports.Proofs.Imports.Placement
import PinnedImports.Proofs.Lookups
import PinnedImports.Proofs.Confirm.Answers
import PinnedImports.Proofs.Registry.Decoding
import PinnedImports.Proofs.Build.FileNames
import PinnedImports.Proofs.Confirm.Keystrokes
import PinnedImports.Proofs.Command.Downloads
import PinnedImports.Proofs.Go.Search
import PinnedImports.Proofs.Imports.CommentRun
