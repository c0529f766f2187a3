import MipsBlocks.Config.Text
import MipsBlocks.Toml.Reader
import MipsBlocks.Frontend
import MipsBlocks.Instruction.Assembler
import MipsBlocks.Memory
import MipsBlocks.Proofs.Effects
import MipsBlocks.Proofs.Literals
import MipsBlocks.Proofs.WellFormed
import MipsBlocks.Proofs.Branches
import MipsBlocks.Proofs.Levels
import MipsBlocks.Proofs.Assembly
import MipsBlocks.Proofs.Survey.Sites
import MipsBlocks.Proofs.Survey.Closure
import MipsBlocks.Proofs.Survey.Order
import MipsBlocks.Proofs.Survey.Pages
import MipsBlocks.Proofs.Survey.Recast
import MipsBlocks.Proofs.Block.Liveness
import MipsBlocks.Proofs.Block.Outline
import MipsBlocks.Proofs.Block.Exits
import MipsBlocks.Proofs.Block.Recast
import MipsBlocks.Proofs.Pool.Accounts
import MipsBlocks.Proofs.Pool.Chain
import MipsBlocks.Proofs.Pool.Renaming
import MipsBlocks.Proofs.Frontend.Block
import MipsBlocks.Proofs.Frontend.Session
import MipsBlocks.Proofs.Frontend.Ownership
import MipsBlocks.Proofs.Frontend.Reachability
import MipsBlocks.Proofs.Frontend.Sequences
import MipsBlocks.Proofs.Frontend.DelaySlots
import MipsBlocks.Proofs.Frontend.Pages
import MipsBlocks.Proofs.Frontend.Exits
import MipsBlocks.Proofs.Frontend.Fidelity
import MipsBlocks.Proofs.Frontend.Slots
import MipsBlocks.Proofs.Frontend.Budget
import MipsBlocks.Proofs.Frontend.Order
import MipsBlocks.Proofs.Frontend.Mirror
import MipsBlocks.Proofs.Frontend.History
import MipsBlocks.Proofs.Frontend.Footprint
import MipsBlocks.Proofs.Frontend.Arguments
import MipsBlocks.Proofs.Survey.Targets
import MipsBlocks.Proofs.Block.Ends
import MipsBlocks.Proofs.Frontend.Ranges
import MipsBlocks.Proofs.Frontend.Ends
import MipsBlocks.Proofs.Relocation
import MipsBlocks.Proofs.Frontend.Relocation
import MipsBlocks.Proofs.Block.Link
import MipsBlocks.Proofs.Builder.Ranges
import MipsBlocks.Proofs.Frontend.Safety
import MipsBlocks.Proofs.Frontend.CodeWindow
import MipsBlocks.Proofs.Config.RoundTrip
import MipsBlocks.Proofs.Pool.Allocator
