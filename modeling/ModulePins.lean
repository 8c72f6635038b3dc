import ModulePins.DirectoryTree.Memory
import ModulePins.Main
import ModulePins.Proofs.Inheritance.FirstCycle
import ModulePins.Proofs.Keyed
import ModulePins.Proofs.Inheritance.Visit
import ModulePins.Proofs.Inheritance.Resolution
import ModulePins.Proofs.Text.Digits
import ModulePins.Proofs.Json.Strings
import ModulePins.Proofs.Json.Numbers
import ModulePins.Proofs.Json.RoundTrip
import ModulePins.Proofs.Stamp
import ModulePins.Proofs.Emission.CacheState
import ModulePins.Proofs.FileStore.Lookup
import ModulePins.Proofs.FileStore.Operations
import ModulePins.Proofs.Emission.Cache
import ModulePins.Proofs.Emission.Emit
import ModulePins.Proofs.Emission.Run
import ModulePins.Proofs.Emission.Invariant
import ModulePins.Proofs.Emission.Incremental
import ModulePins.Proofs.Discovery.Walk
import ModulePins.Proofs.Discovery.Registration
import ModulePins.Proofs.Discovery.Memory
import ModulePins.Proofs.Discovery.Stored
import ModulePins.Proofs.Workspace.Registration
import ModulePins.Proofs.Workspace.Configure
import ModulePins.Proofs.Workspace.Modules
import ModulePins.Proofs.Emission.Interrupted
import ModulePins.Proofs.FileStore.Links
import ModulePins.Proofs.FileStore.Resolved
import ModulePins.Proofs.Json.Members
import ModulePins.Proofs.Emission.Reading
import ModulePins.Proofs.Emission.Saving
import ModulePins.Proofs.Emission.Published
import ModulePins.Proofs.Emission.Series
import ModulePins.Proofs.Workspace.Consistent
import ModulePins.Proofs.Workspace.Publish
import ModulePins.Proofs.Workspace.Finalize
import ModulePins.Proofs.Descriptor.Content
import ModulePins.Proofs.Inheritance.Matching
import ModulePins.Proofs.ModuleFile.Contents
import ModulePins.Proofs.Workspace.Loading
import ModulePins.Proofs.ModuleFile.Replay
import ModulePins.Proofs.Workspace.Dependence
import ModulePins.Proofs.Workspace.SetUp
import ModulePins.Proofs.Workspace.Rendering
import ModulePins.Proofs.Coupling
import ModulePins.Proofs.Secrets.Declared
import ModulePins.Proofs.FileStore.Shape
import ModulePins.Proofs.Secrets.Resolved
import ModulePins.Proofs.Secrets.Files
import ModulePins.Proofs.Secrets.Hosting
import ModulePins.Proofs.Secrets.Shown
import ModulePins.Proofs.FileStore.Directories
import ModulePins.Proofs.Emission.Chain
import ModulePins.Proofs.Emission.Again
import ModulePins.Proofs.Workspace.Rereading
import ModulePins.Proofs.Emission.Additions
import ModulePins.Proofs.Workspace.FirstRun
import ModulePins.Proofs.Workspace.Twice
import ModulePins.Proofs.FileStore.Replacing
import ModulePins.Proofs.Emission.Reload
import ModulePins.Proofs.Emission.AnyContent
import ModulePins.Proofs.Inheritance.Leftovers
import ModulePins.Proofs.ModuleFile.Repeated
import ModulePins.Proofs.Workspace.AnyCache
import ModulePins.Proofs.Workspace.Order
import ModulePins.Proofs.Workspace.Repeated
import ModulePins.Proofs.Workspace.Retry
import ModulePins.Proofs.Workspace.Layout
import ModulePins.Proofs.Discovery.Agreement
import ModulePins.Proofs.MappingFile
import ModulePins.Proofs.Settings.Overrides
import ModulePins.Proofs.Yaml.Tokens
import ModulePins.Proofs.Yaml.Nodes
import ModulePins.Proofs.Yaml.Values
import ModulePins.Proofs.ModuleFile.Outcome
import ModulePins.Proofs.Pin.Declaring
import ModulePins.Proofs.ModuleFile.Pins
import ModulePins.Proofs.ModuleFile.Meaning
import ModulePins.Proofs.Text.Cuts
import ModulePins.Proofs.Address
import ModulePins.Proofs.Workspace.Addresses
import ModulePins.Proofs.Workspace.Ancestors
import ModulePins.Proofs.Value.Merge
import ModulePins.Proofs.Inheritance.Reporting
