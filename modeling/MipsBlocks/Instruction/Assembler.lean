import MipsBlocks.Instruction.Word

/-!
# Assembling instruction words

One function for a mnemonic, with the operands in the assembler's order. An operand is a word of
its own, of which the format keeps what fits the field; a register operand is so taken modulo 32.
Branch offsets count instructions from the delay slot, as the hardware does; of a jump target the
bits 27 to 2 are kept.
-/

set_option autoImplicit false
set_option relaxedAutoImplicit false

namespace MipsBlocks

namespace Assembler

open Word (iType rType jType fType)

def nop : Word := 0#32

/-! ### Control flow -/

/-- The branches on the sign of a register and the traps, told apart by `selector`. -/
def signType (selector rs : Word) (imm : BitVec 16) : Word := iType 0x01#32 rs selector imm

def beq (rs rt : Word) (offset : BitVec 16) : Word := iType 0x04#32 rs rt offset
def bne (rs rt : Word) (offset : BitVec 16) : Word := iType 0x05#32 rs rt offset
def blez (rs : Word) (offset : BitVec 16) : Word := iType 0x06#32 rs 0#32 offset
def bgtz (rs : Word) (offset : BitVec 16) : Word := iType 0x07#32 rs 0#32 offset
def beql (rs rt : Word) (offset : BitVec 16) : Word := iType 0x14#32 rs rt offset
def bnel (rs rt : Word) (offset : BitVec 16) : Word := iType 0x15#32 rs rt offset
def bltz (rs : Word) (offset : BitVec 16) : Word := signType 0x00#32 rs offset
def bgez (rs : Word) (offset : BitVec 16) : Word := signType 0x01#32 rs offset
def bgezl (rs : Word) (offset : BitVec 16) : Word := signType 0x03#32 rs offset
def bltzal (rs : Word) (offset : BitVec 16) : Word := signType 0x10#32 rs offset
def bgezal (rs : Word) (offset : BitVec 16) : Word := signType 0x11#32 rs offset
def teqi (rs : Word) (imm : BitVec 16) : Word := signType 0x0c#32 rs imm
def j (target : BitVec 64) : Word := jType 0x02#32 target
def jal (target : BitVec 64) : Word := jType 0x03#32 target
def jr (rs : Word) : Word := rType rs 0#32 0#32 0#32 0x08#32
def jalr (rd rs : Word) : Word := rType rs 0#32 rd 0#32 0x09#32
def syscall : Word := rType 0#32 0#32 0#32 0#32 0x0c#32
def breakpoint : Word := rType 0#32 0#32 0#32 0#32 0x0d#32

/-! ### Integer arithmetic -/

def addi (rt rs : Word) (imm : BitVec 16) : Word := iType 0x08#32 rs rt imm
def addiu (rt rs : Word) (imm : BitVec 16) : Word := iType 0x09#32 rs rt imm
def ori (rt rs : Word) (imm : BitVec 16) : Word := iType 0x0d#32 rs rt imm
def lui (rt : Word) (imm : BitVec 16) : Word := iType 0x0f#32 0#32 rt imm
def sll (rd rt sa : Word) : Word := rType 0#32 rt rd sa 0x00#32
def add (rd rs rt : Word) : Word := rType rs rt rd 0#32 0x20#32
def addu (rd rs rt : Word) : Word := rType rs rt rd 0#32 0x21#32
def or (rd rs rt : Word) : Word := rType rs rt rd 0#32 0x25#32
def movz (rd rs rt : Word) : Word := rType rs rt rd 0#32 0x0a#32
def mult (rs rt : Word) : Word := rType rs rt 0#32 0#32 0x18#32
def div (rs rt : Word) : Word := rType rs rt 0#32 0#32 0x1a#32
def dmult (rs rt : Word) : Word := rType rs rt 0#32 0#32 0x1c#32
def ddiv (rs rt : Word) : Word := rType rs rt 0#32 0#32 0x1e#32
def mflo (rd : Word) : Word := rType 0#32 0#32 rd 0#32 0x12#32
def mfhi (rd : Word) : Word := rType 0#32 0#32 rd 0#32 0x10#32

/-! ### Memory -/

def lw (rt base : Word) (offset : BitVec 16) : Word := iType 0x23#32 base rt offset
def ld (rt base : Word) (offset : BitVec 16) : Word := iType 0x37#32 base rt offset
def lwc1 (ft base : Word) (offset : BitVec 16) : Word := iType 0x31#32 base ft offset
def sw (rt base : Word) (offset : BitVec 16) : Word := iType 0x2b#32 base rt offset
def sc (rt base : Word) (offset : BitVec 16) : Word := iType 0x38#32 base rt offset
def cache (op base : Word) (offset : BitVec 16) : Word := iType 0x2f#32 base op offset
def pref (hint base : Word) (offset : BitVec 16) : Word := iType 0x33#32 base hint offset

/-! ### Coprocessors -/

/-- The operations of the system coprocessor without operands. -/
def systemType (operation : BitVec 25) : Word := (0x10#6 ++ 1#1 ++ operation : BitVec (6 + 1 + 25))

def mfc0 (rt rd : Word) : Word := rType 0x00#32 rt rd 0#32 0#32 0x10#32
def mtc0 (rt rd : Word) : Word := rType 0x04#32 rt rd 0#32 0#32 0x10#32
def tlbwi : Word := systemType 0x02#25
def tlbp : Word := systemType 0x08#25
def eret : Word := systemType 0x18#25
def addFmt (fmt : Word) (fd fs ft : Word) : Word := fType fmt ft fs fd 0x00#32
def recipFmt (fmt : Word) (fd fs : Word) : Word := fType fmt 0#32 fs fd 0x15#32
def cEqFmt (fmt : Word) (fs ft : Word) : Word := fType fmt ft fs 0#32 0x32#32
def mtc1 (rt fs : Word) : Word := fType 0x04#32 rt fs 0#32 0#32
def bc1t (offset : BitVec 16) : Word := iType 0x11#32 0x08#32 0x01#32 offset
def bc1tl (offset : BitVec 16) : Word := iType 0x11#32 0x08#32 0x03#32 offset
def maddS (fd fr fs ft : Word) : Word := rType fr ft fs fd 0x20#32 0x13#32
def lwxc1 (fd index base : Word) : Word := rType base index 0#32 fd 0x00#32 0x13#32
def mad (rs rt : Word) : Word := rType rs rt 0#32 0#32 0x00#32 0x1c#32
def mul (rd rs rt : Word) : Word := rType rs rt rd 0#32 0x02#32 0x1c#32

end Assembler

end MipsBlocks
