import StackLang.Build
import StackLang.Check
import StackLang.Code.Labels
import StackLang.Code.Line
import StackLang.Code.Text
import StackLang.Event
import StackLang.Fault
import StackLang.Gen.Basic
import StackLang.Gen.Expr
import StackLang.Gen.Stmt
import StackLang.Instr
import StackLang.Machine.Exec
import StackLang.Machine.Input
import StackLang.Machine.Link
import StackLang.Machine.Run
import StackLang.Machine.Sink
import StackLang.Machine.Store
import StackLang.Number.Binary64
import StackLang.Number.Decimal
import StackLang.Number.FloatText
import StackLang.Number.Integer
import StackLang.Number.Shortest
import StackLang.Proofs.Agree
import StackLang.Proofs.Apart
import StackLang.Proofs.Causes
import StackLang.Proofs.Checked
import StackLang.Proofs.Concur
import StackLang.Proofs.Emit
import StackLang.Proofs.Expressible
import StackLang.Proofs.Flow
import StackLang.Proofs.Follow
import StackLang.Proofs.Fragment
import StackLang.Proofs.Fresh
import StackLang.Proofs.Generate
import StackLang.Proofs.Generator
import StackLang.Proofs.Height
import StackLang.Proofs.Label
import StackLang.Proofs.Lead
import StackLang.Proofs.Link
import StackLang.Proofs.Order
import StackLang.Proofs.Place
import StackLang.Proofs.Recode
import StackLang.Proofs.Recovery
import StackLang.Proofs.Relink
import StackLang.Proofs.Replace
import StackLang.Proofs.Sound
import StackLang.Proofs.Step
import StackLang.Proofs.Typed
import StackLang.Proofs.Typing
import StackLang.Proofs.Walk
import StackLang.Scope
import StackLang.Syntax
import StackLang.Text.Blank
import StackLang.Text.Escape
import StackLang.Text.Extending
import StackLang.Text.Invisible
import StackLang.Text.Lines
import StackLang.Text.Quoted
import StackLang.Ty
import StackLang.TypeOf
import StackLang.Value
import StackLang.Proofs.Balance
import StackLang.Proofs.ForWhile
import StackLang.Proofs.Forward
import StackLang.Proofs.Effect
import StackLang.Proofs.Resolve
import StackLang.Proofs.Inputs
import StackLang.Proofs.Constant
import StackLang.Proofs.Wrap
import StackLang.Proofs.Grammar
import StackLang.Proofs.Pieces
import StackLang.Proofs.History
import StackLang.Proofs.Printed
import StackLang.Proofs.Escaped
