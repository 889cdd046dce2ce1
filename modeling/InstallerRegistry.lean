import InstallerRegistry.Main
import InstallerRegistry.Proofs.Export.Writer
import InstallerRegistry.Proofs.Text.Cutting
import InstallerRegistry.Proofs.Text.Hex
import InstallerRegistry.Proofs.Text.Utf16
import InstallerRegistry.Proofs.Export.Data
import InstallerRegistry.Proofs.Export.Lines
import InstallerRegistry.Proofs.Export.RoundTrip
import InstallerRegistry.Proofs.Except
import InstallerRegistry.Proofs.RegistryPath
import InstallerRegistry.Proofs.Content
import InstallerRegistry.Proofs.Manifest.Import
import InstallerRegistry.Proofs.Xml.Reader
import InstallerRegistry.Proofs.Xml.Escaping
import InstallerRegistry.Proofs.Xml.Reading
import InstallerRegistry.Proofs.RegistryValue.Written
import InstallerRegistry.Proofs.Text.Lines
import InstallerRegistry.Proofs.Component
import InstallerRegistry.Proofs.Fragment.Structure
import InstallerRegistry.Proofs.Manifest.Contents
import InstallerRegistry.Proofs.Fragment.Features
import InstallerRegistry.Proofs.Component.Choice
import InstallerRegistry.Proofs.Fragment.Existence
import InstallerRegistry.Proofs.Command.Validation
import InstallerRegistry.Proofs.Fragment.Identifiers
import InstallerRegistry.Proofs.Xml.Processor
import InstallerRegistry.Proofs.Xml.Processing
import InstallerRegistry.Proofs.Fragment.Strings
import InstallerRegistry.Proofs.Export.Concatenation
import InstallerRegistry.Proofs.Yaml.Source
import InstallerRegistry.Proofs.Yaml.ReadBack
import InstallerRegistry.Proofs.Manifest.RoundTrip
import InstallerRegistry.Proofs.Manifest.Loading
import InstallerRegistry.Proofs.Fragment.Unreferenced
import InstallerRegistry.Proofs.Command.Agreement
import InstallerRegistry.Proofs.Json.Reader
import InstallerRegistry.Proofs.Json.Reading
import InstallerRegistry.Proofs.Listing
import InstallerRegistry.Proofs.Export.Numbering
import InstallerRegistry.Proofs.Export.Sections
import InstallerRegistry.Proofs.Export.Deletions
import InstallerRegistry.Proofs.Pattern
import InstallerRegistry.Proofs.Files.Paths
import InstallerRegistry.Proofs.Files.Relocation
import InstallerRegistry.Proofs.Files.Expansion
import InstallerRegistry.Proofs.Manifest.Relocation
import InstallerRegistry.Proofs.Text.Ascii
import InstallerRegistry.Proofs.Export.Encoding
import InstallerRegistry.Proofs.Command.Execution
import InstallerRegistry.Proofs.Export.Spellings
import InstallerRegistry.Proofs.Fragment.Growth
import InstallerRegistry.Proofs.Text.Utf8
import InstallerRegistry.Proofs.Export.Decoding
import InstallerRegistry.Proofs.Export.Formatting
import InstallerRegistry.Proofs.Export.FirstFault
import InstallerRegistry.Proofs.Manifest.FirstFault
import InstallerRegistry.Proofs.Manifest.Runs
import InstallerRegistry.Proofs.Manifest.Gathering
import InstallerRegistry.Proofs.Fragment.StringLists
import InstallerRegistry.Proofs.RegistryPath.Separators
import InstallerRegistry.Proofs.Fragment.Searches
import InstallerRegistry.Proofs.Yaml.Number
import InstallerRegistry.Proofs.Manifest.ValueNames
import InstallerRegistry.Proofs.RegistryValue.Payload
import InstallerRegistry.Proofs.Export.Quoted
import InstallerRegistry.Proofs.Identifier.Search
import InstallerRegistry.Proofs.Component.Taking
import InstallerRegistry.Proofs.Export.LogicalLines
