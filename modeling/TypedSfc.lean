import TypedSfc.Document.Split
import TypedSfc.File
import TypedSfc.Generate.Script
import TypedSfc.Generate.Style
import TypedSfc.Generate.Template
import TypedSfc.LineIndex
import TypedSfc.Mapping.Builder
import TypedSfc.Mapping.Diagnostic
import TypedSfc.Markup.Template
import TypedSfc.Options.Local
import TypedSfc.Script.References
import TypedSfc.Script.Setup
import TypedSfc.Proofs.Options.Layers
import TypedSfc.Proofs.Options.Comments
import TypedSfc.Proofs.Mapping.Placed
import TypedSfc.Proofs.Mapping.Build
import TypedSfc.Proofs.Mapping.Candidates
import TypedSfc.Proofs.Mapping.Diagnose
import TypedSfc.Proofs.Mapping.Verify
import TypedSfc.Proofs.Mapping.Lookup
import TypedSfc.Proofs.Generate.Buffers
import TypedSfc.Proofs.Generate.Closes
import TypedSfc.Proofs.Generate.Entries
import TypedSfc.Proofs.Generate.Elements
import TypedSfc.Proofs.Generate.Nodes
import TypedSfc.Proofs.Generate.Pieces
import TypedSfc.Proofs.Generate.Scenes
import TypedSfc.Proofs.Generate.Copies
import TypedSfc.Proofs.Generate.Collisions
import TypedSfc.Proofs.Generate.LineEnds
import TypedSfc.Proofs.Generate.Rewriting
import TypedSfc.Proofs.Generate.Waiting
import TypedSfc.Proofs.Generate.Silence
import TypedSfc.Proofs.Markup.Template
import TypedSfc.Proofs.Document.Nesting
import TypedSfc.Proofs.Document.Partition
import TypedSfc.Proofs.TypedFile
import TypedSfc.Proofs.Inside
import TypedSfc.Proofs.Generate.ResolvedTemplates
import TypedSfc.Proofs.Statements
import TypedSfc.Proofs.Verbatim
import TypedSfc.Proofs.Exposed
import TypedSfc.Proofs.Document.Relexing
import TypedSfc.Proofs.Markup.Keeping
import TypedSfc.Proofs.Generate.ChainStatements
import TypedSfc.Proofs.Lines
import TypedSfc.Proofs.Markup.LoopGrammar
import TypedSfc.Proofs.Markup.ClosingOffsets
import TypedSfc.Proofs.Document.ClosedBlocks
import TypedSfc.Proofs.Generate.GuardedNodes
import TypedSfc.Proofs.Generate.ListenerNames
import TypedSfc.Proofs.Generate.ComponentNames
import TypedSfc.Proofs.Generate.AttributeLiterals
import TypedSfc.Proofs.Generate.TypeArguments
import TypedSfc.Proofs.Generate.WalkedPlaces
import TypedSfc.Proofs.Generate.Regrouping
import TypedSfc.Proofs.Generate.Respelling
import TypedSfc.Proofs.Document.Rules
import TypedSfc.Proofs.Document.Bindings
import TypedSfc.Proofs.Script.Attached
import TypedSfc.Proofs.Script.Macros
import TypedSfc.Proofs.Script.FreeNames
import TypedSfc.Proofs.Expectations
