import ChipEight.Host.Session
import ChipEight.Instruction.Assembly
import ChipEight.Machine.Action
import ChipEight.Machine.Listing
import ChipEight.Proofs.Arithmetic
import ChipEight.Proofs.Bounds
import ChipEight.Proofs.Bystanders
import ChipEight.Proofs.Calls
import ChipEight.Proofs.Collision
import ChipEight.Proofs.ControlFlow
import ChipEight.Proofs.Decoding
import ChipEight.Proofs.EarlyExit
import ChipEight.Proofs.EarlyPress
import ChipEight.Proofs.Footprint
import ChipEight.Proofs.FrameKeys
import ChipEight.Proofs.Frames
import ChipEight.Proofs.Halting
import ChipEight.Proofs.Invariant
import ChipEight.Proofs.KeyHistory
import ChipEight.Proofs.KeyReports
import ChipEight.Proofs.KeyWait
import ChipEight.Proofs.Likeness
import ChipEight.Proofs.ListingText
import ChipEight.Proofs.Loading
import ChipEight.Proofs.MemoryDump
import ChipEight.Proofs.Mnemonics
import ChipEight.Proofs.Numerals
import ChipEight.Proofs.Obeying
import ChipEight.Proofs.OpcodeTable
import ChipEight.Proofs.Presses
import ChipEight.Proofs.Randomness
import ChipEight.Proofs.Redraw
import ChipEight.Proofs.Reset
import ChipEight.Proofs.RowText
import ChipEight.Proofs.RunLoop
import ChipEight.Proofs.Running
import ChipEight.Proofs.SpriteDrawing
import ChipEight.Proofs.SpriteSum
import ChipEight.Proofs.Stepping
import ChipEight.Proofs.Ticking
import ChipEight.Proofs.Tone
import ChipEight.Proofs.ToneLength
import ChipEight.Proofs.Transfers
import ChipEight.Proofs.WriteSets
import ChipEight.Storage.Archive
import ChipEight.Storage.FileTree
