import Slate.Text
import Slate.Text.Styled
import Slate.Lexeme
import Slate.Source
import Slate.ParseError
import Slate.Token
import Slate.Word
import Slate.Tree
import Slate.Tree.Parser
import Slate.Id
import Slate.Id.Table
import Slate.Id.Map
import Slate.Ir
import Slate.Ir.Verify
import Slate.Ir.Render
import Slate.Ir.Draft
import Slate.Ir.Assembly
import Slate.Ir.Builder
import Slate.Host
import Slate.Machine
import Slate.Diagnostic
import Slate.NameTable
import Slate.Lowering.Body
import Slate.Lowering
import Slate.Text.Printable
import Slate.Text.Quoted
import Slate.Text.Control
import Slate.Outline
import Slate.Interner
import Slate.Tree.Outline
import Slate.Settings
import Slate.Session
import Slate.CommandLine
import Slate.Main
import Slate.Proofs.Lists
import Slate.Proofs.Construction
import Slate.Proofs.Flow
import Slate.Proofs.Lowering.Actions
import Slate.Proofs.Lowering.Control
import Slate.Proofs.Lowering.Expression
import Slate.Proofs.Lowering.Definition
import Slate.Proofs.Lowering.Program
import Slate.Proofs.Verified
import Slate.Proofs.StrictSsa
import Slate.Proofs.Machine.Frame
import Slate.Proofs.Machine.Safety
import Slate.Proofs.Machine.Outcome
import Slate.Proofs.Machine.Soundness
import Slate.Proofs.Evaluation
import Slate.Proofs.Machine.Run
import Slate.Proofs.Simulation.Basic
import Slate.Proofs.Simulation.Actions
import Slate.Proofs.Simulation.Control
import Slate.Proofs.Simulation.Expression
import Slate.Proofs.Simulation.Call
import Slate.Proofs.Simulation.Program
import Slate.Proofs.Verifier
import Slate.Proofs.Building.Body
import Slate.Proofs.Building.Program
import Slate.Proofs.Scan
import Slate.Proofs.Grammar
import Slate.Proofs.Print
import Slate.Proofs.Parser.Equations
import Slate.Proofs.Parser.Soundness
import Slate.Proofs.Parser.Printed
import Slate.Proofs.Parser.RoundTrip
import Slate.Proofs.Lowering.Reports
import Slate.Proofs.Parser.Places
import Slate.Proofs.Compiling
import Slate.Proofs.Machine.Recursive
import Slate.Proofs.Machine.Phis
import Slate.Proofs.Lowering.Names
import Slate.Proofs.Parser.Reports
import Slate.Proofs.Parser.Openings
import Slate.Proofs.Parser.Viable
import Slate.Proofs.Moved
import Slate.Proofs.Parser.Moved
import Slate.Proofs.Scan.Cut
import Slate.Proofs.Scan.Lookahead
import Slate.Proofs.Scan.Layout
import Slate.Proofs.Scan.Longest
import Slate.Proofs.Scan.Part
import Slate.Proofs.Parser.Earliest
import Slate.Proofs.Machine.Depth
import Slate.Proofs.Machine.Bounded
import Slate.Proofs.Lowering.Additions
import Slate.Proofs.Lowering.Forward
import Slate.Proofs.Lowering.Ownership
import Slate.Proofs.Analysis
import Slate.Proofs.Lowering.Noted
import Slate.Proofs.Lowering.Diagnostics
import Slate.Proofs.Lowering.Items
import Slate.Proofs.Lowering.Moved
import Slate.Proofs.Respaced
import Slate.Proofs.Parser.Nodes
import Slate.Proofs.Spans
import Slate.Proofs.Building.Operations
import Slate.Proofs.Building.Regular
import Slate.Proofs.Building.Linked
import Slate.Proofs.Lowering.Edits
import Slate.Proofs.Lowering.Origins
import Slate.Proofs.Machine.Journal
import Slate.Proofs.Slots
import Slate.Proofs.Parser.Named
import Slate.Proofs.Render.Text
import Slate.Proofs.Render.Instruction
import Slate.Proofs.Render.Lines
import Slate.Proofs.Lowering.Shown
import Slate.Proofs.Render.Unambiguous
import Slate.Proofs.Interning
import Slate.Proofs.Output
import Slate.Proofs.Highlight
