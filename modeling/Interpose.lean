import Interpose.Call.Script
import Interpose.Disk.Tree
import Interpose.Json.Reader
import Interpose.Main
import Interpose.Record.Service
import Interpose.Service.Session
import Interpose.Wrapper.Support
import Interpose.Proofs.Except
import Interpose.Proofs.Service.Registry
import Interpose.Proofs.Wrapper.Assembly
import Interpose.Proofs.Service.Declaration
import Interpose.Proofs.Call.Direct
import Interpose.Proofs.Call.Refinement
import Interpose.Proofs.Wrapper.Names
import Interpose.Proofs.Call.Course
import Interpose.Proofs.Call.Account
import Interpose.Proofs.Definition.Spans
import Interpose.Proofs.Definition.Relocation
import Interpose.Proofs.Source.Terminals
import Interpose.Proofs.Source.Layout
import Interpose.Proofs.Definition.Printer
import Interpose.Proofs.Definition.Feeding
import Interpose.Proofs.Definition.Printed
import Interpose.Proofs.Text.Lines
import Interpose.Proofs.Definition.Cleaning
import Interpose.Proofs.Definition.Parts
import Interpose.Proofs.Definition.Soundness
import Interpose.Proofs.Definition.Cleaned
import Interpose.Proofs.Definition.RoundTrip
import Interpose.Proofs.Service.Collection
import Interpose.Proofs.Wrapper.Lines
import Interpose.Proofs.Wrapper.Single
import Interpose.Proofs.Wrapper.Excerpt
import Interpose.Proofs.Wrapper.Wiring
import Interpose.Proofs.Wrapper.Layout
import Interpose.Proofs.Grammar.Basic
import Interpose.Proofs.Grammar.Image
import Interpose.Proofs.Grammar.Parts
import Interpose.Proofs.Grammar.Imports
import Interpose.Proofs.Grammar.Blocks
import Interpose.Proofs.Grammar.Derivation
import Interpose.Proofs.Grammar.Acceptance
import Interpose.Proofs.Grammar.Expansion
import Interpose.Proofs.Grammar.Constructs
import Interpose.Proofs.Grammar.Parsing
import Interpose.Proofs.Definition.Reserved
import Interpose.Proofs.Service.Accepted
import Interpose.Proofs.Generation
import Interpose.Proofs.Wrapper.Module
import Interpose.Proofs.Wrapper.Bodies
import Interpose.Proofs.Text.Items
import Interpose.Proofs.Wrapper.Calls
import Interpose.Proofs.Source.Lookahead
import Interpose.Proofs.Source.Spacing
import Interpose.Proofs.Source.Cut
import Interpose.Proofs.Definition.Respacing
import Interpose.Proofs.Definition.Modes
import Interpose.Proofs.Definition.Completion
import Interpose.Proofs.Source.Places
import Interpose.Proofs.Grammar.Viable
import Interpose.Proofs.Grammar.Signs
import Interpose.Proofs.Grammar.Marks
import Interpose.Proofs.Grammar.Positions
import Interpose.Proofs.Wrapper.Hygiene
import Interpose.Proofs.Source.Below
import Interpose.Proofs.Definition.Continuation
import Interpose.Proofs.Service.Spans
import Interpose.Proofs.Composition
import Interpose.Proofs.Service.Essence
import Interpose.Proofs.Wrapper.Reordering
import Interpose.Proofs.Call.Exchange
import Interpose.Proofs.Definition.Kept
import Interpose.Proofs.Source.Context
import Interpose.Proofs.Command.Run
import Interpose.Proofs.Command.Caret
import Interpose.Proofs.Json.Reading
import Interpose.Proofs.Record.Normal
import Interpose.Proofs.Record.Decoding
import Interpose.Proofs.Text.Octets
import Interpose.Proofs.Disk.Writing
import Interpose.Proofs.Command.Arguments
import Interpose.Proofs.Command.Generating
import Interpose.Proofs.Text.Returns
import Interpose.Proofs.Source.Returns
import Interpose.Proofs.Definition.Returns
import Interpose.Proofs.Grammar.Advice
import Interpose.Proofs.Wrapper.Namespaces
import Interpose.Proofs.Service.Sessions
import Interpose.Proofs.Service.Resolution
import Interpose.Proofs.Service.Ordering
import Interpose.Proofs.Definition.Canonical
import Interpose.Proofs.Command.Summary
import Interpose.Proofs.Command.Signatures
import Interpose.Proofs.Command.Informing
