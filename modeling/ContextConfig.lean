import ContextConfig.Text.Quoted
import ContextConfig.Encoding
import ContextConfig.Layers
import ContextConfig.Document.Schema
import ContextConfig.Document.Json
import ContextConfig.Json.Reader
import ContextConfig.Json.Printer
import ContextConfig.Yaml.Token.Scalar
import ContextConfig.Yaml.Token
import ContextConfig.Yaml.Token.Lexer
import ContextConfig.Yaml.Tag
import ContextConfig.Yaml.Graph
import ContextConfig.Yaml.Value
import ContextConfig.Yaml.Reader
import ContextConfig.Yaml.Writer
import ContextConfig.Codec
import ContextConfig.Path
import ContextConfig.Disk
import ContextConfig.Session
import ContextConfig.Main
import ContextConfig.Proofs.Encoding
import ContextConfig.Proofs.Pattern
import ContextConfig.Proofs.Document
import ContextConfig.Proofs.Codec
import ContextConfig.Proofs.Document.Grammar
import ContextConfig.Proofs.Document.Relevance
import ContextConfig.Proofs.Json.Strings
import ContextConfig.Proofs.Json.Values
import ContextConfig.Proofs.Json.Codec
import ContextConfig.Proofs.Json.StringLocality
import ContextConfig.Proofs.Json.Numbers
import ContextConfig.Proofs.Json.Steps
import ContextConfig.Proofs.Json.Reading
import ContextConfig.Proofs.Json.LongIntegers
import ContextConfig.Proofs.Json.Nesting
import ContextConfig.Proofs.Search
import ContextConfig.Proofs.Path
import ContextConfig.Proofs.Disk
import ContextConfig.Proofs.Storing
import ContextConfig.Proofs.Writing
import ContextConfig.Proofs.Saving
import ContextConfig.Proofs.Yaml.Cursor
import ContextConfig.Proofs.Yaml.Plain
import ContextConfig.Proofs.Yaml.Quoted
import ContextConfig.Proofs.Yaml.Scalar
import ContextConfig.Proofs.Yaml.Numbers
import ContextConfig.Proofs.Yaml.Hand
import ContextConfig.Proofs.Yaml.Step
import ContextConfig.Proofs.Yaml.Tokens
import ContextConfig.Proofs.Yaml.Graph
import ContextConfig.Proofs.Yaml.Construction
import ContextConfig.Proofs.Yaml.Codec
import ContextConfig.Proofs.Yaml.PlainNumbers
import ContextConfig.Proofs.Yaml.Readers
import ContextConfig.Proofs.Yaml.Tags
import ContextConfig.Proofs.Yaml.Lexing
import ContextConfig.Proofs.Yaml.Building
import ContextConfig.Proofs.Yaml.Visiting
import ContextConfig.Proofs.Yaml.Nesting
import ContextConfig.Proofs.Yaml.Risks
import ContextConfig.Proofs.Yaml.Flow.Strings
import ContextConfig.Proofs.Yaml.Flow.Tokens
import ContextConfig.Proofs.Yaml.Flow.Graph
import ContextConfig.Proofs.Yaml.Flow.Codec
import ContextConfig.Proofs.Detection
import ContextConfig.Proofs.Names
import ContextConfig.Proofs.Faults
import ContextConfig.Proofs.OrderedMap
import ContextConfig.Proofs.Validity
import ContextConfig.Proofs.Removal
import ContextConfig.Proofs.Layers
import ContextConfig.Proofs.Healing
import ContextConfig.Proofs.Precedence
import ContextConfig.Proofs.Reporting
import ContextConfig.Proofs.Normalization
import ContextConfig.Proofs.Address
import ContextConfig.Proofs.Duration
import ContextConfig.Proofs.Secrets
import ContextConfig.Proofs.Session.Operations
import ContextConfig.Proofs.Session.Usable
import ContextConfig.Proofs.Session.Atomicity
import ContextConfig.Proofs.Session.Validation
import ContextConfig.Proofs.CommandLine.Store
import ContextConfig.Proofs.CommandLine.Edits
import ContextConfig.Proofs.CommandLine.Context
import ContextConfig.Proofs.CommandLine.Configure
import ContextConfig.Proofs.CommandLine.Repair
import ContextConfig.Proofs.CommandLine.Failure
import ContextConfig.Proofs.CommandLine.Output
import ContextConfig.Proofs.CommandLine.Secrecy
