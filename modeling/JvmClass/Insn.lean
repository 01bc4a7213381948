import JvmClass.Opcode.Action

namespace JvmClass

/-!
# Instructions

An instruction is an opcode with its operands.  Positions in a method body are
labels, so that instructions can be inserted without touching a distance, and a
body is a list of instructions, labels and line marks.  Members and string
constants can be named before they have a place in the constant pool.
-/

/-- A position in a method body. -/
abbrev Label := Nat

/-- A field or method, by pool index or by name. -/
inductive MemberRef where
  | index (index : UInt16)
  | named (owner name descriptor : String)
  deriving Repr, DecidableEq

/-- A constant to load, by pool index or as text. -/
inductive LoadedConstant where
  | index (index : UInt16)
  | text (value : String)
  deriving Repr, DecidableEq

/-- An opcode and its operands.  Each form stands for one operand layout. -/
inductive Insn where
  | plain (opcode : Opcode)
  | immediate (opcode : Opcode) (operand : Int32)
  | slot (opcode : Opcode) (index : UInt16)
  | classRef (opcode : Opcode) (index : UInt16)
  | field (opcode : Opcode) (target : MemberRef)
  | method (opcode : Opcode) (target : MemberRef)
  | interfaceMethod (opcode : Opcode) (index : UInt16) (count : UInt8)
  | callSite (opcode : Opcode) (index : UInt16)
  | jump (opcode : Opcode) (target : Label)
  | load (opcode : Opcode) (value : LoadedConstant)
  | increment (opcode : Opcode) (index : UInt16) (amount : Int16)
  | tableSwitch (opcode : Opcode) (default : Label) (low high : Int32) (targets : List Label)
  | lookupSwitch (opcode : Opcode) (default : Label) (pairs : List (Int32 × Label))
  | multiArray (opcode : Opcode) (index : UInt16) (dimensions : UInt8)
  deriving Repr, DecidableEq

/-- An item of a method body. -/
inductive Node where
  | label (label : Label)
  | line (number : UInt16) (start : Label)
  | insn (insn : Insn)
  deriving Repr, DecidableEq

/-- How an instruction touches a local variable. -/
structure SlotAccess where
  index : UInt16
  width : Nat
  isStore : Bool
  deriving Repr, DecidableEq

namespace Insn

/-- The opcode of an instruction. -/
def opcode : Insn → Opcode
  | .plain opcode
  | .immediate opcode _
  | .slot opcode _
  | .classRef opcode _
  | .field opcode _
  | .method opcode _
  | .interfaceMethod opcode _ _
  | .callSite opcode _
  | .jump opcode _
  | .load opcode _
  | .increment opcode _ _
  | .tableSwitch opcode _ _ _ _
  | .lookupSwitch opcode _ _
  | .multiArray opcode _ _ => opcode

/-- The labels that an instruction can transfer control to, the default of a switch first. -/
def targets : Insn → List Label
  | .jump _ target => [target]
  | .tableSwitch _ default _ _ targets => default :: targets
  | .lookupSwitch _ default pairs => default :: pairs.map Prod.snd
  | _ => []

/-- Renames the labels that an instruction refers to. -/
def mapTargets (rename : Label → Label) : Insn → Insn
  | .jump opcode target => .jump opcode (rename target)
  | .tableSwitch opcode default low high targets =>
      .tableSwitch opcode (rename default) low high (targets.map rename)
  | .lookupSwitch opcode default pairs =>
      .lookupSwitch opcode (rename default) (pairs.map fun (key, target) => (key, rename target))
  | other => other

/-- Renaming acts on the targets one by one. -/
@[simp] theorem targets_mapTargets (rename : Label → Label) (insn : Insn) :
    (insn.mapTargets rename).targets = insn.targets.map rename := by
  cases insn <;> simp [mapTargets, targets]

/-- The access of an opcode whose operand is a local variable. -/
def slotAccess? (opcode : Opcode) (index : UInt16) : Option SlotAccess :=
  if Opcode.iload ≤ opcode ∧ opcode ≤ Opcode.aload then
    some ⟨index, (Opcode.kindAt (opcode.toNat - Opcode.iload.toNat)).width, false⟩
  else if Opcode.istore ≤ opcode ∧ opcode ≤ Opcode.astore then
    some ⟨index, (Opcode.kindAt (opcode.toNat - Opcode.istore.toNat)).width, true⟩
  else if opcode = Opcode.ret then
    some ⟨index, 1, false⟩
  else
    none

/-- The local variable that an instruction reads or writes, in any of its forms. -/
def access? : Insn → Option SlotAccess
  | .slot opcode index => slotAccess? opcode index
  | .increment _ index _ => some ⟨index, 1, true⟩
  | .plain opcode =>
      match opcode.action? with
      | some (.load kind index) => some ⟨index, kind.width, false⟩
      | some (.store kind index) => some ⟨index, kind.width, true⟩
      | _ => none
  | _ => none

end Insn

/-- The instructions of a body, without labels and line marks. -/
def Node.insns (nodes : List Node) : List Insn :=
  nodes.filterMap fun
    | .insn item => some item
    | _ => none

/-- The labels placed in a body, in order. -/
def Node.labels (nodes : List Node) : List Label :=
  nodes.filterMap fun
    | .label placed => some placed
    | _ => none

end JvmClass
