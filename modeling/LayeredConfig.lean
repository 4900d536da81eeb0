import LayeredConfig.Main
import LayeredConfig.Proofs.Outcome
import LayeredConfig.Proofs.Loop
import LayeredConfig.Proofs.OrderedMap
import LayeredConfig.Proofs.LastWrite
import LayeredConfig.Proofs.SystemProperties
import LayeredConfig.Proofs.Text.Lines
import LayeredConfig.Proofs.Text.PathList
import LayeredConfig.Proofs.Text.Utf16
import LayeredConfig.Proofs.Placeholder.Recursion
import LayeredConfig.Proofs.Placeholder.Balanced
import LayeredConfig.Proofs.Placeholder.Layout
import LayeredConfig.Proofs.Placeholder.Bare
import LayeredConfig.Proofs.Placeholder.Dependence
import LayeredConfig.Proofs.Placeholder.Plain
import LayeredConfig.Proofs.Placeholder.Memory
import LayeredConfig.Proofs.Placeholder.Transparency
import LayeredConfig.Proofs.Placeholder.Thrift
import LayeredConfig.Proofs.Placeholder.Machine
import LayeredConfig.Proofs.Placeholder.Sourced
import LayeredConfig.Proofs.Placeholder.Template
import LayeredConfig.Proofs.Placeholder.ReferenceRing
import LayeredConfig.Proofs.Placeholder.Scanning
import LayeredConfig.Proofs.Properties.Line
import LayeredConfig.Proofs.Properties.Written
import LayeredConfig.Proofs.Properties.Price
import LayeredConfig.Proofs.Properties.Block
import LayeredConfig.Proofs.Properties.Joint
import LayeredConfig.Proofs.Properties.Escape
import LayeredConfig.Proofs.Properties.EmptyKey
import LayeredConfig.Proofs.Properties.Backslash
import LayeredConfig.Proofs.Session.Loading
import LayeredConfig.Proofs.Session.Lookup
import LayeredConfig.Proofs.Session.History
import LayeredConfig.Proofs.Session.Layers
import LayeredConfig.Proofs.Session.Failures
import LayeredConfig.Proofs.Session.Listed
import LayeredConfig.Proofs.Session.Repetition
import LayeredConfig.Proofs.Session.Provenance
import LayeredConfig.Proofs.Output.Json
import LayeredConfig.Proofs.Output.Lines
import LayeredConfig.Proofs.Yaml.Flattening
import LayeredConfig.Proofs.Yaml.Collision
import LayeredConfig.Proofs.Typed.Dict
import LayeredConfig.Proofs.Typed.Leaves
import LayeredConfig.Proofs.Typed.Reader
import LayeredConfig.Proofs.Typed.Nesting
