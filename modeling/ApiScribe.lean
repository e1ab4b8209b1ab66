import ApiScribe.Main
import ApiScribe.Proofs.Pipeline.FunctionPaths
import ApiScribe.Proofs.Endpoint.ExportNames
import ApiScribe.Proofs.Model.Nullable
import ApiScribe.Proofs.Schema.Reading
import ApiScribe.Proofs.Enum.Directory
import ApiScribe.Proofs.Enum.Patching
import ApiScribe.Proofs.Barrel.Reach
import ApiScribe.Proofs.Pipeline.Kept
import ApiScribe.Proofs.Render.Requests
import ApiScribe.Proofs.Render.ServiceFiles
import ApiScribe.Proofs.Pipeline.Order
import ApiScribe.Proofs.Workspace.Interrupted
import ApiScribe.Proofs.Pipeline.Imports
import ApiScribe.Proofs.Render.TypeImports
import ApiScribe.Proofs.Model.Closed
import ApiScribe.Proofs.Endpoint.Operations
import ApiScribe.Proofs.Enum.Acquired
import ApiScribe.Proofs.Enum.Fetching
import ApiScribe.Proofs.Model.NullKept
import ApiScribe.Proofs.Document.OrderFree
import ApiScribe.Proofs.Endpoint.StatusKeys
import ApiScribe.Proofs.Pipeline.OutputPaths
import ApiScribe.Proofs.Model.FilePaths
import ApiScribe.Proofs.Enum.PatchFile
import ApiScribe.Proofs.Workspace.Settings
import ApiScribe.Proofs.Workspace.Rescan
import ApiScribe.Proofs.Pipeline.Scanned
import ApiScribe.Proofs.FileTree.Halted
import ApiScribe.Proofs.Endpoint.NamedOperations
import ApiScribe.Proofs.Barrel.Contents
import ApiScribe.Proofs.Schema.Pieces
import ApiScribe.Proofs.Model.PlainNames
import ApiScribe.Proofs.Render.Keys
import ApiScribe.Proofs.Endpoint.InputType
import ApiScribe.Proofs.Model.KnownTypes
import ApiScribe.Proofs.Reference
import ApiScribe.Proofs.Enum.Reapplied
import ApiScribe.Proofs.Enum.SchemaFirst
import ApiScribe.Proofs.Enum.Replanned
import ApiScribe.Proofs.TypeText.Nesting
import ApiScribe.Proofs.Render.InputUse
import ApiScribe.Proofs.Endpoint.Merged
import ApiScribe.Proofs.Render.Commented
import ApiScribe.Proofs.Naming.Splitting
