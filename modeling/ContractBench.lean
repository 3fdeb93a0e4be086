import ContractBench.Compiler.Interleaving
import ContractBench.Proofs.Abi.NameOrder
import ContractBench.Proofs.Abi.Overloads
import ContractBench.Proofs.Abi.Partition
import ContractBench.Proofs.Abi.TypeCategories
import ContractBench.Proofs.Argument.Elements
import ContractBench.Proofs.Argument.FieldKeys
import ContractBench.Proofs.Argument.Forms
import ContractBench.Proofs.Argument.Refusals
import ContractBench.Proofs.Argument.Retyping
import ContractBench.Proofs.Argument.Suffixes
import ContractBench.Proofs.Argument.TwoReadings
import ContractBench.Proofs.Argument.TypeReading
import ContractBench.Proofs.AuditLog
import ContractBench.Proofs.Compiler.Containment
import ContractBench.Proofs.Compiler.LongVersions
import ContractBench.Proofs.Compiler.Lookups
import ContractBench.Proofs.Compiler.Sessions
import ContractBench.Proofs.Compiler.SharedLoads
import ContractBench.Proofs.Compiler.SourceNames
import ContractBench.Proofs.Compiler.SourceViews
import ContractBench.Proofs.Compiler.Turns
import ContractBench.Proofs.Display.LeftOut
import ContractBench.Proofs.Display.Structure
import ContractBench.Proofs.Encoding.Descent
import ContractBench.Proofs.Encoding.Layout
import ContractBench.Proofs.Encoding.Nesting
import ContractBench.Proofs.Encoding.ParameterShapes
import ContractBench.Proofs.Encoding.Respelling
import ContractBench.Proofs.Encoding.ShortNames
import ContractBench.Proofs.Encoding.Stopping
import ContractBench.Proofs.Encoding.TextArguments
import ContractBench.Proofs.Encoding.TupleLengths
import ContractBench.Proofs.Encoding.TypeGrammar
import ContractBench.Proofs.Encoding.TypePrinting
import ContractBench.Proofs.Json.Data
import ContractBench.Proofs.Json.Escapes
import ContractBench.Proofs.Json.Numbers
import ContractBench.Proofs.Json.RoundTrip
import ContractBench.Proofs.Json.Signs
import ContractBench.Proofs.Limit.Recovery
import ContractBench.Proofs.Limit.Traffic
import ContractBench.Proofs.Limit.Windows
import ContractBench.Proofs.Service.ArgumentPages
import ContractBench.Proofs.Service.CategoryPages
import ContractBench.Proofs.Service.DisplayPages
import ContractBench.Proofs.Service.Noting
import ContractBench.Proofs.Source.Absence
import ContractBench.Proofs.Source.Addresses
import ContractBench.Proofs.Source.Agreement
import ContractBench.Proofs.Source.CanonicalPaths
import ContractBench.Proofs.Source.Comments
import ContractBench.Proofs.Source.Declarations
import ContractBench.Proofs.Source.Exactness
import ContractBench.Proofs.Source.Forms
import ContractBench.Proofs.Source.Grammar
import ContractBench.Proofs.Source.Header
import ContractBench.Proofs.Source.ImportForms
import ContractBench.Proofs.Source.Names
import ContractBench.Proofs.Source.Parts
import ContractBench.Proofs.Source.ReadBack
import ContractBench.Proofs.Source.RelativePaths
import ContractBench.Proofs.Source.Rows
import ContractBench.Proofs.Source.Scanning
import ContractBench.Proofs.Source.Segments
import ContractBench.Proofs.Source.Shapes
import ContractBench.Proofs.Verification.Containment
import ContractBench.Service.Server
