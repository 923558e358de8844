import OnePass.Builder
import OnePass.Bytes
import OnePass.CodeFault
import OnePass.Command.Basic
import OnePass.Command.Failure
import OnePass.Command.Host
import OnePass.Command.Usage
import OnePass.Compile.Compiler
import OnePass.Compile.Emitter
import OnePass.Compile.Error
import OnePass.Compile.Phrase
import OnePass.Cursor
import OnePass.Diagnostic
import OnePass.Event
import OnePass.Listing
import OnePass.Machine.Basic
import OnePass.Machine.Instruction
import OnePass.Machine.State
import OnePass.Main
import OnePass.Opcode
import OnePass.Program
import OnePass.Proofs.Acceptance
import OnePass.Proofs.Backpatching
import OnePass.Proofs.BuilderHistory
import OnePass.Proofs.BuilderRequests
import OnePass.Proofs.ByteFormat
import OnePass.Proofs.CallBudget
import OnePass.Proofs.CallLedger
import OnePass.Proofs.Carets
import OnePass.Proofs.CommandOutcome
import OnePass.Proofs.CommandSources
import OnePass.Proofs.Decoding
import OnePass.Proofs.Emission
import OnePass.Proofs.ErrorPlace
import OnePass.Proofs.ErrorReports
import OnePass.Proofs.ExactArithmetic
import OnePass.Proofs.FinishedCode
import OnePass.Proofs.InstructionCode
import OnePass.Proofs.InstructionEffects
import OnePass.Proofs.JumpDirections
import OnePass.Proofs.Lexemes
import OnePass.Proofs.LineEndings
import OnePass.Proofs.ListingLines
import OnePass.Proofs.ListingText
import OnePass.Proofs.Lookahead
import OnePass.Proofs.MachineRuns
import OnePass.Proofs.MachineUse
import OnePass.Proofs.NamedVariables
import OnePass.Proofs.NearestElse
import OnePass.Proofs.NestingDepth
import OnePass.Proofs.NestingLimit
import OnePass.Proofs.OpcodeTable
import OnePass.Proofs.PhraseCode
import OnePass.Proofs.PlainOutput
import OnePass.Proofs.Positions
import OnePass.Proofs.Preservation
import OnePass.Proofs.ProgramLayout
import OnePass.Proofs.ReaderComplete
import OnePass.Proofs.ReaderSound
import OnePass.Proofs.Relocation
import OnePass.Proofs.RepeatedRuns
import OnePass.Proofs.SessionBlock
import OnePass.Proofs.ShortNumbers
import OnePass.Proofs.Simulation
import OnePass.Proofs.SingleUse
import OnePass.Proofs.Spelling
import OnePass.Proofs.StackLevels
import OnePass.Proofs.StackSafety
import OnePass.Proofs.StepResults
import OnePass.Proofs.Termination
import OnePass.Proofs.TextPieces
import OnePass.Proofs.TokenOutcome
import OnePass.Proofs.TokenStream
import OnePass.Proofs.TreeInstructions
import OnePass.Proofs.TreeReader
import OnePass.Proofs.TreeShape
import OnePass.Proofs.ViablePrefix
import OnePass.Proofs.WatchedRuns
import OnePass.Proofs.WholeText
import OnePass.Run
import OnePass.Text.Blank
import OnePass.Text.Control
import OnePass.Text.Decimal
import OnePass.Text.Field
import OnePass.Text.Lines
import OnePass.Text.Printable
import OnePass.Text.Quoted
import OnePass.Text.Similarity
import OnePass.Text.Uppercase
import OnePass.Text.Utf8
import OnePass.Token
import OnePass.Tree.Basic
import OnePass.Tree.Code
import OnePass.Tree.Depth
import OnePass.Tree.Meaning
import OnePass.Variable
import OnePass.Word
