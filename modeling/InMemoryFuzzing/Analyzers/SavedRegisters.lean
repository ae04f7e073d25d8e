import InMemoryFuzzing.Base.Collect
import InMemoryFuzzing.CoreDump.RecordSection

/-!
# `SavedRegisterAnalyzer.Analyze`

The stack frame file of a run says where the registers of the caller were saved.
A memory change that touches such a place is reported.
-/

namespace InMemoryFuzzing.Analyzers

open Base Platform DotNet Utils CoreDump

/-! ## Registers -/

/-- `FindRegisterByName`: the first register with the name, upper and lower case
being the same. -/
def findRegisterByName (registers : Registers) (name : String) : Option Register :=
  registers.find? fun reg => DotNet.toLower reg.name.toList = DotNet.toLower name.toList

inductive RegisterTypeEnum
  | programCounter
  deriving DecidableEq, Repr

/-- `GetRegisterName` of a resolver; `none` is null. -/
abbrev RegisterTypeResolver := RegisterTypeEnum → Option String

/-- `RegisterTypeResolverX86`. -/
def registerTypeResolverX86 : RegisterTypeResolver
  | .programCounter => some "eip"

/-- `RegisterTypeResolverX86_64`. -/
def registerTypeResolverX86_64 : RegisterTypeResolver
  | .programCounter => some "rip"

/-- What the controller knows about the target. -/
structure Target where
  registerTypeResolver : RegisterTypeResolver
  targetRegisters : Registers

/-- The register that `FindProgramCounter` looks for. -/
def Target.pcReg (target : Target) : Option Register :=
  (target.registerTypeResolver .programCounter).bind (findRegisterByName target.targetRegisters)

/-- The loop of `FindProgramCounter`: the number of the register is taken when a
change is compared with it. -/
def findChange (pcReg : Option Register) :
    List RegisterChange → Except NetException (Option UInt64)
  | [] => .ok none
  | regChange :: rest =>
      match pcReg with
      | none => .error .nullReference
      | some reg =>
          if regChange.regnum = reg.num then
            (byteArrayToUInt64 regChange.value 0 regChange.value.length true).map some
          else findChange pcReg rest

/-- `FindProgramCounter`. -/
def findProgramCounter (insn : InstructionDescription) (target : Target) :
    Except NetException (Option UInt64) :=
  findChange target.pcReg insn.registerChanges

/-! ## The stack frame -/

/-- `GDBStackFrameInfo`: a dictionary from names to addresses, which need not be
known. -/
structure StackFrameInfo where
  savedRegisters : List (String × Option UInt64)
  nodup : (savedRegisters.map Prod.fst).Nodup

/-- `GetSavedRegisterAddress` and `ResolveAddress`. -/
def StackFrameInfo.getSavedRegisterAddress (info : StackFrameInfo) (registerName : String) :
    Except NetException (Option UInt64) :=
  match info.savedRegisters.lookup registerName with
  | none => .error .nullReference
  | some address => .ok address

/-! ## Reports -/

/-- A `saved_register` node. Without a program counter it says `[unspecified]`. -/
structure SavedRegisterReport where
  reg : String
  regAddr : UInt64
  at_ : Option UInt64
  targetAddr : UInt64
  targetSize : Nat
  deriving DecidableEq, Repr

/-- `LogSavedRegister`. -/
def logSavedRegister (target : Target) (insn : InstructionDescription) (memChange : MemoryChange)
    (registerName : String) (registerAddress : UInt64) : Except NetException SavedRegisterReport :=
  (findProgramCounter insn target).map fun pc =>
    ⟨registerName, registerAddress, pc, memChange.address, memChange.value.length⟩

/-- The test of `SavedRegistersInRange`, in 64-bit arithmetic. -/
def inRange (savedRegisterAddress regSize address size : UInt64) : Prop :=
  savedRegisterAddress + regSize > address ∧
    (savedRegisterAddress + regSize < address + size ∨
      savedRegisterAddress < address + size ∧ savedRegisterAddress + regSize ≥ address + size)

instance (savedRegisterAddress regSize address size : UInt64) :
    Decidable (inRange savedRegisterAddress regSize address size) :=
  inferInstanceAs (Decidable (_ ∧ _))

/-- One saved register of the loop in `SavedRegistersInRange`. -/
def checkRegister (target : Target) (info : StackFrameInfo) (insn : InstructionDescription)
    (memChange : MemoryChange) (savedRegisterName : String) :
    Except NetException (List SavedRegisterReport) := do
  match ← info.getSavedRegisterAddress savedRegisterName with
  | none => return []
  | some savedRegisterAddress =>
      match findRegisterByName target.targetRegisters savedRegisterName with
      | none => throw .nullReference
      | some reg =>
          if inRange savedRegisterAddress reg.size.toUInt64 memChange.address
              (UInt64.ofNat memChange.value.length) then
            (logSavedRegister target insn memChange savedRegisterName savedRegisterAddress).map
              fun report => [report]
          else return []

/-- `SavedRegistersInRange`. -/
def savedRegistersInRange (target : Target) (info : StackFrameInfo)
    (insn : InstructionDescription) (memChange : MemoryChange) :
    Except NetException (List SavedRegisterReport) :=
  collect (checkRegister target info insn memChange) (info.savedRegisters.map Prod.fst)

/-- The loops over the instructions and their memory changes. -/
def instructionLoop (target : Target) (info : StackFrameInfo)
    (executedInstructions : List InstructionDescription) :
    Except NetException (List SavedRegisterReport) :=
  collect (fun insn => collect (savedRegistersInRange target info insn) insn.memoryChanges)
    executedInstructions

/-- `Analyze`; `none` is a missing stack frame file. The only statement in the
body of the loop over `SavedRegisters` is commented out, so the loops over the
instructions are its body. -/
def analyzeSavedRegisters (target : Target) (stackFrameInfo : Option StackFrameInfo)
    (executedInstructions : List InstructionDescription) :
    Except NetException (List SavedRegisterReport) :=
  match stackFrameInfo with
  | none => .ok []
  | some info =>
      collect (fun _ => instructionLoop target info executedInstructions)
        (info.savedRegisters.map Prod.fst)

end InMemoryFuzzing.Analyzers
