import ClassDeps.Main
import ClassDeps.Archive.Extra
import ClassDeps.File.Path
import ClassDeps.File.Tree
import ClassDeps.Proofs.Arena
import ClassDeps.Proofs.ClassFile.Encoder
import ClassDeps.Proofs.ClassFile.Instruction
import ClassDeps.Proofs.ClassFile.Layout
import ClassDeps.Proofs.ClassFile.SignatureReading
import ClassDeps.Proofs.ClassFile.Uses
import ClassDeps.Proofs.ClassFile.ConstantPool
import ClassDeps.Proofs.ClassFile.Stored
import ClassDeps.Proofs.ClassFile.RoundTrip
import ClassDeps.Proofs.Model.Coherent
import ClassDeps.Proofs.Model.Assembled
import ClassDeps.Proofs.Model.Step
import ClassDeps.Proofs.Model.View
import ClassDeps.Proofs.Model.Define
import ClassDeps.Proofs.Model.Settled
import ClassDeps.Proofs.Model.Merge
import ClassDeps.Proofs.Model.Partition
import ClassDeps.Proofs.Graph.Component
import ClassDeps.Proofs.Graph.Hops
import ClassDeps.Proofs.Graph.Package
import ClassDeps.Proofs.Policy.Build
import ClassDeps.Proofs.Policy.ByName
import ClassDeps.Proofs.Policy.Placement
import ClassDeps.Proofs.Policy.Reordering
import ClassDeps.Proofs.Policy.SubjectCycle
import ClassDeps.Proofs.Policy.Violation
import ClassDeps.Proofs.Text.ByteOrder
import ClassDeps.Proofs.Text.ModifiedUtf8
import ClassDeps.Proofs.Scan.Order
import ClassDeps.Proofs.Scan.Removal
import ClassDeps.Proofs.Scan.Clash
import ClassDeps.Proofs.Report.Findings
import ClassDeps.Proofs.Scan.Catalogue
import ClassDeps.Proofs.Command.ExitCode
import ClassDeps.Proofs.Scan.Gather
import ClassDeps.Proofs.Scan.Packing
import ClassDeps.Proofs.Graph.Chain
import ClassDeps.Proofs.Policy.Unused
import ClassDeps.Proofs.Policy.Failure
import ClassDeps.Proofs.Policy.NumberedCheck
import ClassDeps.Proofs.Pattern.Nested
import ClassDeps.Proofs.ClassFile.Extent
import ClassDeps.Proofs.Model.Redefine
import ClassDeps.Proofs.Model.Union
import ClassDeps.Proofs.ClassFile.Slots
import ClassDeps.Proofs.ClassFile.ArrayTypes
import ClassDeps.Proofs.ClassFile.TextConstant
import ClassDeps.Proofs.ClassFile.ParameterNames
import ClassDeps.Proofs.ClassFile.Descriptors
import ClassDeps.Proofs.Pattern.Language
import ClassDeps.Proofs.Pattern.Queries
import ClassDeps.Proofs.Policy.Loosening
import ClassDeps.Proofs.Policy.Problem
import ClassDeps.Proofs.Json.Keyword
import ClassDeps.Proofs.Policy.Decoding
import ClassDeps.Proofs.Policy.Document
import ClassDeps.Proofs.ClassFile.WalkBounds
import ClassDeps.Proofs.ClassFile.SignatureBounds
import ClassDeps.Proofs.ClassFile.Nesting
