import HK16.Assembly.Fault
import HK16.Assembly.Listing
import HK16.Assembly.Program
import HK16.Assembly.Source
import HK16.Assembly.Statement
import HK16.Assembly.SymbolTable
import HK16.Bytecode.Code
import HK16.Bytecode.Command
import HK16.Bytecode.Lowering
import HK16.Bytecode.Source
import HK16.Bytecode.Units
import HK16.Console.Assemble
import HK16.Console.Disassemble
import HK16.Console.Emulate
import HK16.Console.Lower
import HK16.Console.Options
import HK16.Console.Tool
import HK16.Diagnostic
import HK16.Files.Disk
import HK16.Files.Fault
import HK16.Files.Path
import HK16.Files.Workspace
import HK16.Instruction.Basic
import HK16.Instruction.Computation
import HK16.Instruction.Destination
import HK16.Instruction.Jump
import HK16.Machine.Disassembly
import HK16.Machine.Fault
import HK16.Machine.Image
import HK16.Machine.Loading
import HK16.Machine.Memory
import HK16.Machine.Monitor
import HK16.Machine.Preset
import HK16.Machine.Run
import HK16.Machine.State
import HK16.Main
import HK16.MemoryMap
import HK16.Proofs.Calls
import HK16.Proofs.Code
import HK16.Proofs.EndlessLoop
import HK16.Proofs.Execution
import HK16.Proofs.Frames
import HK16.Proofs.Instruction
import HK16.Proofs.Layout
import HK16.Proofs.Lowering
import HK16.Proofs.Names
import HK16.Proofs.Placement
import HK16.Proofs.Printing
import HK16.Proofs.Simulation
import HK16.Proofs.StackMachine
import HK16.Proofs.SymbolTable
import HK16.Settings.Cursor
import HK16.Settings.Document
import HK16.Settings.Node
import HK16.Settings.Scalar
import HK16.Settings.Scan
import HK16.Settings.Token
import HK16.Text.Blank
import HK16.Text.Invisible
import HK16.Text.Lines
import HK16.Text.Name
import HK16.Text.Numeral
import HK16.Text.Quoted
import HK16.Text.Style
import HK16.Word
import HK16.Proofs.Image
import HK16.Proofs.Disassembly
import HK16.Proofs.Labels
import HK16.Proofs.Session
import HK16.Proofs.Hygiene
import HK16.Proofs.Requests
import HK16.Proofs.Reassembly
import HK16.Proofs.Writing
import HK16.Proofs.Segments
import HK16.Proofs.UsedAssembler
import HK16.Proofs.Arithmetic
import HK16.Proofs.Refusal
import HK16.Proofs.Aftermath
import HK16.Proofs.CommandText
import HK16.Proofs.Renaming
import HK16.Proofs.StaticVariables
import HK16.Proofs.Mnemonics
import HK16.Proofs.Runs
import HK16.Proofs.Blanks
import HK16.Proofs.CanonicalLines
import HK16.Proofs.ImageFormat
import HK16.Proofs.WrittenFiles
import HK16.Proofs.Loading
import HK16.Proofs.Listing
import HK16.Proofs.Pieces
