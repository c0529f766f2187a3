import MipsBlocks.Address

/-!
# Errors

An error belongs to the core (configurations and parameters) or to memory (accesses and
addresses). `Error.inner` words the error itself and `Error.message` puts the part of the machine
it belongs to in front. Guest faults are not errors: they are described by flags.
-/

set_option autoImplicit false
set_option relaxedAutoImplicit false

namespace MipsBlocks

inductive CoreError where
  /-- A configuration text that cannot be read; `path` says where. -/
  | config (message : String) (path : Option String)
  | invalidConfig (field message : String)
  | invalidParameter (name value message : String)
  deriving DecidableEq

inductive MemoryError where
  | accessViolation (addr : VirtAddr) (access : Access) (message : String)
  | invalidAddress (addr : VirtAddr)
  deriving DecidableEq

inductive Error where
  | core (e : CoreError)
  | memory (e : MemoryError)
  deriving DecidableEq

def CoreError.message : CoreError → String
  | config message _ => "configuration error: " ++ message
  | invalidConfig field message =>
    "invalid configuration field `" ++ field ++ "`: " ++ message
  | invalidParameter name value message =>
    "invalid parameter `" ++ name ++ "` = " ++ value ++ ": " ++ message

def MemoryError.message : MemoryError → String
  | accessViolation addr access message =>
    "access violation at " ++ addr.hex ++ " (" ++ access.name ++ "): " ++ message
  | invalidAddress addr => "invalid address " ++ addr.hex

namespace Error

/-- The error without the part of the machine it belongs to. -/
def inner : Error → String
  | core e => e.message
  | memory e => e.message

def message : Error → String
  | core e => "core error: " ++ e.message
  | memory e => "memory error: " ++ e.message

/-- A refused parameter whose value is an address. -/
def invalidAddressParameter (name : String) (value : VirtAddr) (message : String) : Error :=
  .core (.invalidParameter name value.text message)

end Error

end MipsBlocks
