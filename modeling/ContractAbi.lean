import ContractAbi.Text.Blank
import ContractAbi.Text.Hex
import ContractAbi.Text.Utf8
import ContractAbi.Primitive
import ContractAbi.TypeExpr
import ContractAbi.Json
import ContractAbi.Wire.Basic
import ContractAbi.Wire.Top
import ContractAbi.Wire.Reader
import ContractAbi.Wire.Arg
import ContractAbi.Wire.Layout
import ContractAbi.Binding.Names
import ContractAbi.OrderedMap
import ContractAbi.Resolved
import ContractAbi.Strategy
import ContractAbi.Document
import ContractAbi.Text.Shortest
import ContractAbi.Json.Stream
import ContractAbi.Json.Schema
import ContractAbi.Document.FromJson
import ContractAbi.Document.Load
import ContractAbi.Conversion.Error
import ContractAbi.Binding.RustType
import ContractAbi.Conversion.Resolution
import ContractAbi.Binding.Decode
import ContractAbi.Binding.Encode
import ContractAbi.Value
import ContractAbi.Wire.Slots
import ContractAbi.Wire.Outputs
import ContractAbi.Conversion.Endpoint
import ContractAbi.Conversion.Model
import ContractAbi.Binding.Items
import ContractAbi.Binding.Method
import ContractAbi.Binding.Source
import ContractAbi.Text.Jaro
import ContractAbi.Cli.Grammar
import ContractAbi.Yaml.Basic
import ContractAbi.Yaml.Scanner
import ContractAbi.Yaml.Events
import ContractAbi.Yaml.Scalar
import ContractAbi.Yaml.Read
import ContractAbi.Document.FromYaml
import ContractAbi.Cli.Disk
import ContractAbi.Cli.Config
import ContractAbi.Text.Letters
import ContractAbi.Cli.FieldPattern
import ContractAbi.Cli.LogFilter
import ContractAbi.Cli.Report
import ContractAbi.Cli.Analysis
import ContractAbi.Cli.Run
import ContractAbi.Main
import ContractAbi.Proofs.Resolution
import ContractAbi.Proofs.Transactional
import ContractAbi.Proofs.Registry
import ContractAbi.Proofs.Catalog
import ContractAbi.Proofs.AtomicReads
import ContractAbi.Proofs.DecoderReaders
import ContractAbi.Proofs.Decoding
import ContractAbi.Proofs.Emission
import ContractAbi.Proofs.SlotRanges
import ContractAbi.Proofs.ByteRoundTrip
import ContractAbi.Proofs.NestedRoundTrip
import ContractAbi.Proofs.ItemNames
import ContractAbi.Proofs.BindingText
import ContractAbi.Proofs.References
import ContractAbi.Proofs.WholeSlot
import ContractAbi.Proofs.ForwardReaders
import ContractAbi.Proofs.SelfTerminating
import ContractAbi.Proofs.Deduplication
import ContractAbi.Proofs.ResolvedTypes
import ContractAbi.Proofs.CanonicalNames
import ContractAbi.Proofs.SlotPlan
import ContractAbi.Proofs.SlotStrategies
import ContractAbi.Proofs.TypeGrammar
import ContractAbi.Proofs.DisplayRoundTrip
import ContractAbi.Proofs.EncoderExpansion
import ContractAbi.Proofs.SettledReads
import ContractAbi.Proofs.NestedTermination
