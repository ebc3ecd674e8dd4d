import AuthScript.Compiler
import AuthScript.Settings.Limits
import AuthScript.Settings.Loading
import AuthScript.Settings.Logging
import AuthScript.Template
import AuthScript.Proofs.Bytes
import AuthScript.Proofs.Instruction
import AuthScript.Proofs.Serialization
import AuthScript.Proofs.Link
import AuthScript.Proofs.Recursion
import AuthScript.Proofs.Yield
import AuthScript.Proofs.Transfer
import AuthScript.Proofs.Reference
import AuthScript.Proofs.Coverage
import AuthScript.Proofs.Stage
import AuthScript.Proofs.Confined
import AuthScript.Proofs.Cycles
import AuthScript.Proofs.Depth
import AuthScript.Proofs.Expansion
import AuthScript.Proofs.Push
import AuthScript.Proofs.PushRun
import AuthScript.Proofs.Thresholds
import AuthScript.Proofs.Comparison
import AuthScript.Proofs.Waiting
import AuthScript.Proofs.Extension
import AuthScript.Proofs.Noninterference
import AuthScript.Proofs.Component
import AuthScript.Proofs.CoveredComponent
import AuthScript.Proofs.Preimage
import AuthScript.Proofs.Lexeme
import AuthScript.Proofs.Inert
import AuthScript.Proofs.Outcome
import AuthScript.Proofs.Layout
import AuthScript.Proofs.Site
import AuthScript.Proofs.Blame
import AuthScript.Proofs.Unwinding
import AuthScript.Proofs.Path
import AuthScript.Proofs.Pinpoint
import AuthScript.Proofs.Debug
import AuthScript.Proofs.Record
import AuthScript.Proofs.Reading
import AuthScript.Proofs.OpcodeName
import AuthScript.Proofs.Disassembly
import AuthScript.Proofs.ScriptNumber
import AuthScript.Proofs.NumberWord
import AuthScript.Proofs.Minimization
import AuthScript.Proofs.Arithmetic
import AuthScript.Proofs.Definedness
import AuthScript.Proofs.Exactness
import AuthScript.Proofs.NumberWidth
import AuthScript.Proofs.LiteralText
import AuthScript.Proofs.Signature
import AuthScript.Proofs.KeyVariable
import AuthScript.Proofs.Operand
import AuthScript.Proofs.DataSignature
import AuthScript.Proofs.Digest
import AuthScript.Proofs.Supplied
import AuthScript.Proofs.Step
import AuthScript.Proofs.Frame
import AuthScript.Proofs.Concatenation
import AuthScript.Proofs.Conditional
import AuthScript.Proofs.StackBounds
import AuthScript.Proofs.Bounds
import AuthScript.Proofs.Limits
import AuthScript.Proofs.Unfolding
import AuthScript.Proofs.Location
import AuthScript.Proofs.Grammar
import AuthScript.Proofs.StrictDer
import AuthScript.Proofs.LowSignature
import AuthScript.Proofs.Collision
import AuthScript.Settings.Call
import AuthScript.Proofs.Precedence
import AuthScript.Proofs.FileSink
import AuthScript.Proofs.Delivery
