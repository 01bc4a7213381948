import JvmClass.Proofs.Descriptor
import JvmClass.Proofs.Frame.Step
import JvmClass.Proofs.Insn.Decode
import JvmClass.Verify.Effect

namespace JvmClass

/-!
# Values and slots

The type analysis counts values and the depth check counts slots, each with a
table of the opcodes of its own.  Where every instruction finds operands of the
widths that it asks for, the two agree: the slots of the stack change by what the
effect of the instruction says.  An effect is counted with sixteen bits, so of a
call that takes 65536 slots or more it says less than is taken.
-/

namespace SlotType

theorem slots_eq_two_iff
    {type : SlotType} :
    type.slots = 2 ↔ type.isWide = true := by
  unfold slots
  split <;> simp_all

theorem slots_eq_one_iff
    {type : SlotType} :
    type.slots = 1 ↔ type.isWide = false := by
  unfold slots
  split <;> simp_all

theorem slots_le
    (type : SlotType) :
    type.slots ≤ 2 := by
  unfold slots
  split <;> decide

/-- The slots of a stack are those of its values together. -/
theorem stackSlots_eq_sum
    (stack : List SlotType) :
    stackSlots stack = (stack.map slots).sum := by
  have counted (total : Nat) :
      stack.foldl (fun total type => total + type.slots) total =
        total + (stack.map slots).sum := by
    induction stack generalizing total with
    | nil => rfl
    | cons type stack inductionHypothesis =>
        rw [List.foldl_cons, inductionHypothesis, List.map_cons, List.sum_cons]
        omega
  simpa [stackSlots] using counted 0

@[simp] theorem stackSlots_nil : stackSlots [] = 0 :=
  rfl

@[simp] theorem stackSlots_cons
    (type : SlotType)
    (stack : List SlotType) :
    stackSlots (type :: stack) = type.slots + stackSlots stack := by
  simp [stackSlots_eq_sum]

@[simp] theorem stackSlots_append
    (above below : List SlotType) :
    stackSlots (above ++ below) = stackSlots above + stackSlots below := by
  simp [stackSlots_eq_sum]

/-- One value takes no more than two slots. -/
theorem stackSlots_le_of_length
    {stack : List SlotType}
    (short : stack.length ≤ 1) :
    stackSlots stack ≤ 2 := by
  match stack, short with
  | [], _ => exact Nat.zero_le 2
  | [type], _ => simpa using type.slots_le

@[simp] theorem slots_integer : integer.slots = 1 :=
  rfl

@[simp] theorem slots_null : null.slots = 1 :=
  rfl

@[simp] theorem slots_object (name : String) : (object name).slots = 1 :=
  rfl

@[simp] theorem slots_uninitialized (offset : UInt16) : (uninitialized offset).slots = 1 :=
  rfl

/-- A value of a kind takes the slots of the kind. -/
@[simp] theorem slots_ofKind
    (kind : ValueKind) :
    (ofKind kind).slots = kind.width := by
  cases kind <;> rfl

/-- A value of a declared type takes the slots of the type. -/
@[simp] theorem slots_ofFieldType
    (type : FieldType) :
    (ofFieldType type).slots = type.size := by
  cases type <;> rfl

/-- An element of an array of references takes one slot. -/
@[simp] theorem slots_elementOf
    (type : SlotType) :
    type.elementOf.slots = 1 := by
  unfold elementOf
  repeat' split
  all_goals rfl

end SlotType

theorem ValueKind.width_le
    (kind : ValueKind) :
    kind.width ≤ 2 := by
  cases kind <;> decide

/-! ## Widths of operands -/

/-- The widths of the values that an action takes off the stack, in each of its forms, top first. -/
def Action.operandForms : Action → List (List Nat)
  | .nothing | .pushNull | .push _ | .load _ _ | .leave none => [[]]
  | .store kind _ | .leave (some kind) | .convert kind _ => [[kind.width]]
  | .loadElement _ | .dupX1 | .swap => [[1, 1]]
  | .storeElement kind => [[kind.width, 1, 1]]
  | .pop | .dup | .arrayLength | .throw | .monitor => [[1]]
  | .pop2 | .dup2 => [[2], [1, 1]]
  | .dupX2 => [[1, 2], [1, 1, 1]]
  | .dup2X1 => [[2, 1], [1, 1, 1]]
  | .dup2X2 => [[2, 2], [2, 1, 1], [1, 1, 2], [1, 1, 1, 1]]
  | .combine kind | .compare kind => [[kind.width, kind.width]]
  | .shift kind => [[1, kind.width]]

namespace Insn

/-- The widths of the arguments of a call, the last one first, and of its receiver. -/
def callWidths (descriptor : String) (receiver : List Nat) : List Nat :=
  match MethodType.ofDescriptor descriptor with
  | .ok type => (type.params.map FieldType.size).reverse ++ receiver
  | .error _ => []

/--
The widths of the values that an instruction takes off the stack, in each of its
forms, top first.  Where a reference does not resolve there is nothing to ask for.
-/
def operandForms (pool : Pool) : Insn → List (List Nat)
  | .plain code => ((code.action?).map Action.operandForms).getD [[]]
  | .immediate code _ => [if code = Opcode.newArray then [1] else []]
  | .slot code index =>
      match slotAccess? code index with
      | some access => [if access.isStore then [access.width] else []]
      | none => [[]]
  | .classRef code _ => [if code = Opcode.newObject then [] else [1]]
  | .field code (.index index) =>
      match pool.member index with
      | .ok member =>
          match FieldType.ofDescriptor member.descriptor with
          | .ok type => [fieldWidths code type.size]
          | .error _ => [[]]
      | .error _ => [[]]
  | .method code (.index index) =>
      match pool.member index with
      | .ok member => [callWidths member.descriptor (if code = Opcode.invokeStatic then [] else [1])]
      | .error _ => [[]]
  | .interfaceMethod _ index _ =>
      match pool.member index with
      | .ok member => [callWidths member.descriptor [1]]
      | .error _ => [[]]
  | .callSite _ index =>
      match pool.dynamic index with
      | .ok (_, descriptor) => [callWidths descriptor []]
      | .error _ => [[]]
  | .jump code _ => [List.replicate ((jumpOperands? code).getD 0) 1]
  | .tableSwitch _ _ _ _ _ | .lookupSwitch _ _ _ => [[1]]
  | .multiArray _ _ dimensions => [List.replicate dimensions.toNat 1]
  | .field _ (.named _ _ _) | .method _ (.named _ _ _) | .load _ _ | .increment _ _ _ => [[]]

/-- What an instruction finds in a state has the widths that its opcode and descriptor ask for. -/
structure WidthsFit
    (pool : Pool)
    (insn : Insn)
    (state : FrameState) : Prop where
  operands :
    ∃ widths ∈ insn.operandForms pool,
      (state.stack.take widths.length).map SlotType.slots = widths
  loaded :
    ∀ access,
      insn.access? = some access →
        access.isStore = false →
          (state.locals.getD access.index.toNat .top).slots = access.width

/-- A constant that an instruction loads has the width that its opcode asks for. -/
def ConstantFits
    (pool : Pool)
    (insn : Insn) : Prop :=
  ∀ code index type,
    insn = .load code (.index index) →
      SlotType.ofConstant pool index = .ok type →
        type.slots = if code = Opcode.ldc2W then 2 else 1

end Insn

/-! ## Slots move as the effect says -/

/-- Slots taken off a stack and slots put on it, however many. -/
structure SlotMove where
  taken : Nat
  put : Nat
  deriving DecidableEq

namespace SlotMove

/-- The effect that counts a move with sixteen bits. -/
def effect (move : SlotMove) : StackEffect :=
  ⟨UInt16.ofNat move.taken, UInt16.ofNat move.put⟩

/-- What a move does to a stack of values. -/
def Moves
    (move : SlotMove)
    (before behind : List SlotType) : Prop :=
  move.taken ≤ SlotType.stackSlots before ∧
    SlotType.stackSlots behind = SlotType.stackSlots before - move.taken + move.put

/-- Taking values off and putting others on moves their slots. -/
theorem moves_of_append
    {move : SlotMove}
    (operands results below : List SlotType)
    (taken : move.taken = SlotType.stackSlots operands)
    (put : move.put = SlotType.stackSlots results) :
    move.Moves (operands ++ below) (results ++ below) := by
  simp only [Moves, SlotType.stackSlots_append]
  omega

/-- A move between stacks that sixteen bits can count changes the count as it changes the stack. -/
theorem Moves.toNat_depth
    {move : SlotMove}
    {before behind : List SlotType}
    {depth : UInt16}
    (moves : move.Moves before behind)
    (counted : depth.toNat = SlotType.stackSlots before)
    (small : SlotType.stackSlots behind < 2 ^ 16) :
    move.effect.pops ≤ depth ∧
      (depth - move.effect.pops + move.effect.pushes).toNat = SlotType.stackSlots behind := by
  obtain ⟨enough, moved⟩ := moves
  have bound := depth.toNat_lt
  have pops : move.effect.pops.toNat = move.taken :=
    UInt16.toNat_ofNat_of_lt' (show move.taken < 2 ^ 16 by omega)
  have pushes : move.effect.pushes.toNat = move.put :=
    UInt16.toNat_ofNat_of_lt' (show move.put < 2 ^ 16 by omega)
  have le : move.effect.pops ≤ depth := by
    rw [UInt16.le_iff_toNat_le]
    omega
  refine ⟨le, ?_⟩
  rw [UInt16.toNat_add, UInt16.toNat_sub_of_le _ _ le, Nat.mod_eq_of_lt (by omega)]
  omega

end SlotMove

/-- The slots that an action takes off the stack and puts on. -/
def Action.move : Action → SlotMove
  | .nothing => ⟨0, 0⟩
  | .pushNull => ⟨0, 1⟩
  | .push kind => ⟨0, kind.width⟩
  | .load kind _ => ⟨0, kind.width⟩
  | .store kind _ => ⟨kind.width, 0⟩
  | .loadElement kind => ⟨2, kind.width⟩
  | .storeElement kind => ⟨2 + kind.width, 0⟩
  | .pop => ⟨1, 0⟩
  | .pop2 => ⟨2, 0⟩
  | .dup => ⟨1, 2⟩
  | .dupX1 => ⟨2, 3⟩
  | .dupX2 => ⟨3, 4⟩
  | .dup2 => ⟨2, 4⟩
  | .dup2X1 => ⟨3, 5⟩
  | .dup2X2 => ⟨4, 6⟩
  | .swap => ⟨2, 2⟩
  | .combine kind => ⟨2 * kind.width, kind.width⟩
  | .shift kind => ⟨kind.width + 1, kind.width⟩
  | .convert source target => ⟨source.width, target.width⟩
  | .compare kind => ⟨2 * kind.width, 1⟩
  | .arrayLength => ⟨1, 1⟩
  | .leave (some kind) => ⟨kind.width, 0⟩
  | .leave none => ⟨0, 0⟩
  | .throw | .monitor => ⟨1, 0⟩

/-- The slots that an access to a local variable takes off the stack or puts on. -/
def SlotAccess.move (access : SlotAccess) : SlotMove :=
  if access.isStore then ⟨access.width, 0⟩ else ⟨0, access.width⟩

namespace Opcode

/-- The table of effects and the table of actions agree on every opcode without operands. -/
theorem plainEffect?_eq
    (code : Opcode) :
    code.plainEffect? = code.action?.map fun action => action.move.effect := by
  obtain ⟨⟨value⟩⟩ := code
  revert value
  decide +kernel

/-- The table of effects and the table of accesses agree on every opcode but `ret`. -/
theorem slotEffect?_eq
    {code : Opcode}
    (goesOn : code ≠ ret)
    (index : UInt16) :
    code.slotEffect? = (Insn.slotAccess? code index).map fun access => access.move.effect := by
  have same :
      (Insn.slotAccess? code index).map SlotAccess.move =
        (Insn.slotAccess? code 0).map SlotAccess.move := by
    unfold Insn.slotAccess?
    repeat' split
    all_goals rfl
  have atZero :
      code = ret ∨
        code.slotEffect? = ((Insn.slotAccess? code 0).map SlotAccess.move).map SlotMove.effect := by
    clear goesOn same
    obtain ⟨⟨value⟩⟩ := code
    revert value
    decide +kernel
  rw [atZero.resolve_left goesOn, ← same, Option.map_map]
  rfl

end Opcode

/-- A stack whose top has given widths splits into values of these widths and the rest. -/
theorem exists_operands
    {stack : List SlotType}
    {widths : List Nat}
    (fit : (stack.take widths.length).map SlotType.slots = widths) :
    ∃ operands below,
      stack = operands ++ below ∧ operands.map SlotType.slots = widths :=
  ⟨_, stack.drop widths.length, (List.take_append_drop _ _).symm, fit⟩

namespace FrameState

open SlotType

/-- An action on operands of fitting widths moves as many slots as the action says. -/
theorem moves_of_applyAction
    {action : Action}
    {operands below result : List SlotType}
    (onStack : ∀ kind slot, action ≠ .load kind slot ∧ action ≠ .store kind slot)
    (form : operands.map slots ∈ action.operandForms)
    (found : applyAction action (operands ++ below) = .ok result) :
    action.move.Moves (operands ++ below) result := by
  cases action with
  | load kind slot => exact absurd rfl (onStack kind slot).1
  | store kind slot => exact absurd rfl (onStack kind slot).2
  | pop | pop2 | dup | dupX1 | dupX2 | dup2 | dup2X1 | dup2X2 | swap =>
      simp only [Action.operandForms, List.mem_cons, List.not_mem_nil, or_false,
        List.map_eq_cons_iff, List.map_eq_nil_iff] at form
      simp only [applyAction, pop2, dupX2, dup2, dup2X1, dup2X2, bind_eq_ok_iff, Prod.exists,
        pop_eq_ok_iff, ite_eq_iff, pure, Except.pure, Except.ok.injEq] at found
      simp only [SlotMove.Moves, Action.move]
      grind [stackSlots_cons, stackSlots_append, slots_eq_one_iff, slots_eq_two_iff]
  | nothing | pushNull | push =>
      cases found
      simp [SlotMove.Moves, Action.move, Nat.add_comm]
  | leave kind =>
      cases kind with
      | none =>
          cases found
          simp [SlotMove.Moves, Action.move]
      | some kind =>
          simp only [Action.operandForms, List.mem_cons, List.not_mem_nil, or_false,
            List.map_eq_cons_iff, List.map_eq_nil_iff] at form
          obtain ⟨first, _, rfl, firstWidth, rfl⟩ := form
          simp only [applyAction, popMany_eq_ok_iff] at found
          simp [SlotMove.Moves, Action.move, found.2, firstWidth]
  | throw | monitor =>
      simp only [Action.operandForms, List.mem_cons, List.not_mem_nil, or_false,
        List.map_eq_cons_iff, List.map_eq_nil_iff] at form
      obtain ⟨first, _, rfl, firstWidth, rfl⟩ := form
      simp only [applyAction, popMany_eq_ok_iff] at found
      simp [SlotMove.Moves, Action.move, found.2, firstWidth]
  | convert | arrayLength =>
      simp only [Action.operandForms, List.mem_cons, List.not_mem_nil, or_false,
        List.map_eq_cons_iff, List.map_eq_nil_iff] at form
      obtain ⟨first, _, rfl, firstWidth, rfl⟩ := form
      simp only [applyAction, replaceTop_eq_ok_iff] at found
      simp [SlotMove.Moves, Action.move, found.2, firstWidth, Nat.add_comm]
  | combine | compare | shift =>
      simp only [Action.operandForms, List.mem_cons, List.not_mem_nil, or_false,
        List.map_eq_cons_iff, List.map_eq_nil_iff] at form
      obtain ⟨first, _, rfl, firstWidth, second, _, rfl, secondWidth, rfl⟩ := form
      simp only [applyAction, replaceTop_eq_ok_iff] at found
      simp [SlotMove.Moves, Action.move, found.2, firstWidth, secondWidth]
      omega
  | loadElement kind =>
      simp only [Action.operandForms, List.mem_cons, List.not_mem_nil, or_false,
        List.map_eq_cons_iff, List.map_eq_nil_iff] at form
      obtain ⟨first, _, rfl, firstWidth, second, _, rfl, secondWidth, rfl⟩ := form
      simp only [SlotMove.Moves, Action.move]
      cases kind with
      | reference =>
          simp only [applyAction, bind_eq_ok_iff, Prod.exists, pop_eq_ok_iff, pure, Except.pure,
            Except.ok.injEq] at found
          obtain ⟨_, _, shape, array, _, rfl, rfl⟩ := found
          cases shape
          simp [firstWidth, secondWidth, ValueKind.width]
          omega
      | int | long | float | double =>
          simp only [applyAction, replaceTop_eq_ok_iff] at found
          simp [found.2, firstWidth, secondWidth]
          omega
  | storeElement kind =>
      simp only [Action.operandForms, List.mem_cons, List.not_mem_nil, or_false,
        List.map_eq_cons_iff, List.map_eq_nil_iff] at form
      obtain ⟨first, _, rfl, firstWidth, second, _, rfl, secondWidth, third, _, rfl, thirdWidth,
        rfl⟩ := form
      simp only [applyAction, popMany_eq_ok_iff] at found
      simp [SlotMove.Moves, Action.move, found.2, firstWidth, secondWidth, thirdWidth]
      omega

/-- Loading or storing a local variable of a fitting width moves its width. -/
theorem moves_of_accessLocal
    {context : StepContext}
    {offset : UInt16}
    {access : SlotAccess}
    {locals operands below : List SlotType}
    {behind : FrameState}
    (form : operands.map slots = if access.isStore then [access.width] else [])
    (loaded :
      access.isStore = false →
        (locals.getD access.index.toNat .top).slots = access.width)
    (found : accessLocal context offset ⟨locals, operands ++ below⟩ access = .ok behind) :
    access.move.Moves (operands ++ below) behind.stack := by
  unfold accessLocal at found
  unfold SlotAccess.move
  cases isStore : access.isStore with
  | true =>
      simp only [isStore, if_true, List.map_eq_cons_iff, List.map_eq_nil_iff] at form
      obtain ⟨value, _, rfl, width, rfl⟩ := form
      simp only [isStore, if_true, bind_eq_ok_iff, mapError_eq_ok_iff, Prod.exists,
        pop_eq_ok_iff, pure, Except.pure, Except.ok.injEq] at found
      obtain ⟨_, _, shape, rfl⟩ := found
      cases shape
      exact SlotMove.moves_of_append _ [] _ (by simp [width]) rfl
  | false =>
      simp only [isStore, Bool.false_eq_true, if_false, List.map_eq_nil_iff] at form
      subst form
      simp only [isStore, Bool.false_eq_true, if_false, bind_eq_ok_iff, pure, Except.pure,
        Except.ok.injEq] at found
      obtain ⟨value, valueFound, rfl⟩ := found
      have width : value.slots = access.width := by
        rw [← loaded isStore]
        unfold loadLocal at valueFound
        rw [List.getD_eq_getElem?_getD]
        split at valueFound
        · rename_i held
          split at valueFound
          · cases valueFound
          · cases valueFound
            rw [held]
            rfl
        · rename_i held
          cases valueFound
          rw [held]
          rfl
        · rename_i missing
          cases valueFound
          rw [missing]
          rfl
      exact SlotMove.moves_of_append [] [value] _ rfl
        (by simp [width])

/-- Turning a value of one slot into an object moves nothing. -/
theorem stackSlots_replaceType
    {receiver : SlotType}
    (owner : String)
    (state : FrameState)
    (width : receiver.slots = 1) :
    stackSlots (replaceType receiver (.object owner) state).stack = stackSlots state.stack := by
  simp only [replaceType, stackSlots_eq_sum, List.map_map]
  congr 1
  refine List.map_congr_left ?_
  intro type _
  simp only [Function.comp_apply]
  split
  · rename_i same
    rw [same, width]
    rfl
  · rfl

theorem stackSlots_resultTypes
    (type : MethodType) :
    stackSlots (resultTypes type) = type.resultSize := by
  unfold resultTypes MethodType.resultSize
  cases type.result <;> simp

/-- A call with arguments of fitting widths moves as many slots as its descriptor says. -/
theorem moves_of_invoke
    {context : StepContext}
    {offset : UInt16}
    {hasReceiver : Bool}
    {member : Member}
    {locals operands below : List SlotType}
    {behind : FrameState}
    (form :
      operands.map slots =
        Insn.callWidths member.descriptor (if hasReceiver then [1] else []))
    (found : invoke context offset hasReceiver member ⟨locals, operands ++ below⟩ = .ok behind) :
    ∃ type,
      MethodType.ofDescriptor member.descriptor = .ok type ∧
        (SlotMove.mk (type.argumentSize !hasReceiver) type.resultSize).Moves
          (operands ++ below) behind.stack := by
  obtain ⟨type, arguments, rest, typeFound, shape, count, called⟩ := called_of_invoke found
  refine ⟨type, typeFound, ?_⟩
  have sizes : (type.params.map FieldType.size).reverse.sum = type.paramSize :=
    List.sum_reverse _
  simp only [Insn.callWidths, typeFound] at form
  rcases called with ⟨rfl, rfl⟩ | ⟨rfl, receiver, rest, rfl, called⟩
  · simp only [Bool.false_eq_true, if_false, List.append_nil] at form
    have lengths := congrArg List.length form
    simp only [List.length_map, List.length_reverse] at lengths
    obtain ⟨rfl, rfl⟩ := List.append_inj shape (by omega)
    refine SlotMove.moves_of_append _ _ _ ?_ (stackSlots_resultTypes type).symm
    simp [stackSlots_eq_sum, form, sizes, MethodType.argumentSize]
  · simp only [if_true] at form
    obtain ⟨passed, last, rfl, passedForm, lastForm⟩ := List.map_eq_append_iff.mp form
    simp only [List.map_eq_cons_iff, List.map_eq_nil_iff] at lastForm
    obtain ⟨object, _, rfl, width, rfl⟩ := lastForm
    have lengths := congrArg List.length passedForm
    simp only [List.length_map, List.length_reverse] at lengths
    rw [List.append_assoc] at shape
    obtain ⟨rfl, receiverShape⟩ := List.append_inj shape (by omega)
    simp only [List.singleton_append, List.cons.injEq] at receiverShape
    obtain ⟨rfl, rfl⟩ := receiverShape
    have taken : stackSlots passed = type.paramSize := by
      simp [stackSlots_eq_sum, passedForm, sizes]
    have put := stackSlots_resultTypes type
    have arguments : type.argumentSize (!true) = type.paramSize + 1 := rfl
    rcases called with rfl | ⟨_, owner, rfl⟩
    · simp only [SlotMove.Moves, stackSlots_append, stackSlots_cons, stackSlots_nil]
      omega
    · have kept := stackSlots_replaceType owner ⟨locals, below⟩ width
      simp only [SlotMove.Moves, stackSlots_append, stackSlots_cons, stackSlots_nil]
      simp only at kept
      omega

end FrameState

namespace Insn

open FrameState SlotType

/-- An opcode that takes a local variable accesses one. -/
theorem exists_slotAccess
    {code : Opcode}
    (index : UInt16)
    (takes : takesSlot code = true) :
    ∃ access, slotAccess? code index = some access := by
  have atZero : takesSlot code = true → (slotAccess? code 0).isSome = true := by
    obtain ⟨⟨value⟩⟩ := code
    revert value
    decide +kernel
  have same : (slotAccess? code index).isSome = (slotAccess? code 0).isSome := by
    unfold slotAccess?
    repeat' split
    all_goals rfl
  exact Option.isSome_iff_exists.mp (same ▸ atZero takes)

/-- A jump that is analysed takes off as many slots as values. -/
theorem jumpEffect_of_operands
    {code : Opcode}
    {count : Nat}
    (counted : jumpOperands? code = some count) :
    jumpEffect code = .ok (SlotMove.mk count 0).effect := by
  have agree :
      ∀ count ∈ jumpOperands? code,
        (jumpEffect code).toOption = some (SlotMove.mk count 0).effect := by
    clear counted
    obtain ⟨⟨value⟩⟩ := code
    revert value
    decide +kernel
  exact toOption_eq_some_iff.mp (agree count counted)

theorem slots_of_ofArrayCode
    {operand : Int32}
    {type : SlotType}
    (found : ofArrayCode? operand = some type) :
    type.slots = 1 := by
  obtain ⟨name, _, rfl⟩ := Option.map_eq_some_iff.mp found
  rfl

/-- The effect of loading a constant of the width that the opcode asks for. -/
theorem effect_of_constant
    {pool : Pool}
    {code : Opcode}
    {index : UInt16}
    {type : SlotType}
    (found : ofConstant pool index = .ok type)
    (width : type.slots = if code = Opcode.ldc2W then 2 else 1) :
    effect pool (.load code (.index index)) = .ok (SlotMove.mk 0 type.slots).effect := by
  by_cases isWide : code = Opcode.ldc2W
  · simp [effect, isWide, width, SlotMove.effect]
  · rw [if_neg isWide] at width
    unfold ofConstant at found
    obtain ⟨entry, entryFound, found⟩ := bind_eq_ok_iff.mp found
    rw [mapError_eq_ok_iff] at entryFound
    have narrow : entry.isWide = false := by
      cases entry with
      | long | double =>
          cases found
          cases width
      | _ => rfl
    simp [effect, isWide, entryFound, narrow, width, SlotMove.effect, Except.mapError, bind,
      Except.bind, pure, Except.pure]

/-! ## What instructions do to slots -/

/-- The widths of the values that an act takes off the stack, in each of its forms, top first. -/
def Act.operandForms : Act → List (List Nat)
  | .transfer access => [if access.isStore then [access.width] else []]
  | .rearrange action => action.operandForms
  | .replace widths _ => [widths]
  | .call hasReceiver member => [callWidths member.descriptor (if hasReceiver then [1] else [])]

/-- The slots that an act takes off the stack and puts on, however many. -/
def Act.move : Act → Except EffectFault SlotMove
  | .transfer access => .ok access.move
  | .rearrange action => .ok action.move
  | .replace widths results => .ok ⟨widths.sum, stackSlots results⟩
  | .call hasReceiver member => do
      let type ← (MethodType.ofDescriptor member.descriptor).mapError .descriptor
      return ⟨type.argumentSize !hasReceiver, type.resultSize⟩

section Acts

variable {context : StepContext} {offset : UInt16} {insn : Insn} {act : Act}

/-- An instruction asks for the operands of what it does. -/
theorem Acts.operandForms_eq (acts : insn.Acts context offset act) :
    insn.operandForms context.pool = act.operandForms := by
  cases acts with
  | plain acts staysOnStack =>
      simp only [operandForms, acts, Act.operandForms, Option.map_some, Option.getD_some]
  | load acts | store acts => simp [operandForms, acts, Act.operandForms, Action.operandForms]
  | slot goesOn accesses => simp only [operandForms, accesses, Act.operandForms]
  | noSlot goesOn accesses => simp only [operandForms, accesses, Act.operandForms]
  | immediate operand other => simp only [operandForms, if_neg other, Act.operandForms]
  | field code found typed => simp only [operandForms, found, typed, Act.operandForms]
  | method code found =>
      by_cases isStatic : code = Opcode.invokeStatic <;>
        simp [operandForms, found, Act.operandForms, isStatic]
  | interfaceMethod code count found => simp [operandForms, found, Act.operandForms]
  | callSite code found => simp [operandForms, found, Act.operandForms]
  | jump target counted => simp only [operandForms, counted, Option.getD_some, Act.operandForms]
  | _ => rfl

/-- No more than six slots are put on the stack at once, by `dup2_x2`. -/
theorem Acts.put_le
    {move : SlotMove}
    (acts : insn.Acts context offset act)
    (moved : act.move = .ok move) :
    move.put ≤ 6 := by
  cases act with
  | transfer access =>
      cases moved
      have width : access.width ≤ 2 := by
        cases acts with
        | load | store => exact ValueKind.width_le _
        | slot _ accesses =>
            unfold slotAccess? at accesses
            repeat' split at accesses
            all_goals cases accesses
            all_goals exact ValueKind.width_le _
      unfold SlotAccess.move
      split <;> simp only <;> omega
  | rearrange action =>
      cases moved
      cases action with
      | push kind | load kind _ | loadElement kind | combine kind | shift kind | convert _ kind =>
          exact Nat.le_trans kind.width_le (show 2 ≤ 6 by decide)
      | leave result => cases result <;> exact Nat.zero_le 6
      | _ => simp [Action.move]
  | replace widths results =>
      cases moved
      have count : results.length ≤ 1 := by
        cases acts with
        | field =>
            unfold fieldResults
            repeat' split
            all_goals simp
        | _ => simp
      exact Nat.le_trans (stackSlots_le_of_length count) (show 2 ≤ 6 by decide)
  | call hasReceiver member =>
      obtain ⟨type, _, returned⟩ := bind_eq_ok_iff.mp moved
      cases returned
      have count : (resultTypes type).length ≤ 1 := by
        unfold resultTypes
        cases type.result <;> simp
      rw [← stackSlots_resultTypes type]
      exact Nat.le_trans (stackSlots_le_of_length count) (show 2 ≤ 6 by decide)

/-- The effect of a call counts the slots of its descriptor. -/
theorem callEffect_eq
    (hasReceiver : Bool)
    (member : Member) :
    callEffect member.descriptor (if hasReceiver then 1 else 0) =
      (Act.call hasReceiver member).move.map SlotMove.effect := by
  simp only [callEffect, Act.move]
  cases MethodType.ofDescriptor member.descriptor with
  | error fault => rfl
  | ok type =>
      have slots := type.argumentSlots_eq !hasReceiver
      have counted (pops : UInt16) (same : type.argumentSlots (!hasReceiver) = pops) :
          (Except.ok ⟨type.argumentSlots !hasReceiver, type.resultSlots⟩ :
              Except EffectFault StackEffect) =
            .ok ⟨pops, type.resultSlots⟩ := by
        rw [same]
      cases hasReceiver <;> exact counted _ slots

/-- Slots that are put on the stack are all counted. -/
theorem Acts.toNat_pushes
    {move : SlotMove}
    (acts : insn.Acts context offset act)
    (moved : act.move = .ok move) :
    move.effect.pushes.toNat = move.put := by
  have few := acts.put_le moved
  exact UInt16.toNat_ofNat_of_lt' (show move.put < 2 ^ 16 by omega)

/-- The effect of an instruction counts the slots of what it does. -/
theorem Acts.effect_eq
    (acts : insn.Acts context offset act)
    (wellFormed : insn.WellFormed)
    (constant : insn.ConstantFits context.pool) :
    insn.effect context.pool = act.move.map SlotMove.effect := by
  cases acts with
  | plain acts | load acts | store acts =>
      simp only [effect, Opcode.plainEffect?_eq, acts, Option.map_some]
      rfl
  | @slot code index access goesOn accesses =>
      simp only [effect, Opcode.slotEffect?_eq goesOn index, accesses, Option.map_some]
      rfl
  | noSlot goesOn accesses =>
      obtain ⟨access, accessed⟩ := exists_slotAccess _ wellFormed
      rw [accesses] at accessed
      cases accessed
  | newArray typed =>
      simp [effect, Act.move, SlotMove.effect, slots_of_ofArrayCode typed, Except.map]
  | immediate operand other =>
      simp [effect, Act.move, SlotMove.effect, other, Except.map]
  | classRef code found =>
      simp only [effect, Act.move, classWidths, classResult, Except.map]
      repeat' split
      all_goals simp [SlotMove.effect]
  | @field index member type code found typed =>
      simp only [effect, found, typed, Act.move, fieldEffect, fieldWidths, fieldResults,
        Except.mapError, Except.map, bind, Except.bind, pure, Except.pure]
      repeat' split
      all_goals simp [SlotMove.effect, UInt16.add_comm]
  | @method index member code found =>
      have called := callEffect_eq (decide (code ≠ Opcode.invokeStatic)) member
      simp only [decide_eq_true_eq, ne_eq, ite_not] at called
      simpa only [effect, found, Except.mapError, bind, Except.bind] using called
  | @interfaceMethod index member code count found =>
      have called := callEffect_eq true member
      rw [if_pos rfl] at called
      simpa only [effect, found, Except.mapError, bind, Except.bind] using called
  | @callSite index name descriptor code found =>
      have called := callEffect_eq false ⟨objectName, name, descriptor⟩
      rw [if_neg Bool.false_ne_true] at called
      simpa only [effect, found, Except.mapError, bind, Except.bind] using called
  | jump target counted =>
      simp [effect, jumpEffect_of_operands counted, Act.move, Except.map]
  | text code value => rcases wellFormed with rfl | rfl <;> rfl
  | constant code found =>
      rw [effect_of_constant found (constant code _ _ rfl found)]
      simp [Act.move, Except.map]
  | multiArray code dimensions found =>
      simp [effect, Act.move, SlotMove.effect, Except.map]
  | _ => rfl

end Acts

/--
Where operands and locals have the widths that they are asked for, stepping through an
instruction moves the slots of what it does.
-/
theorem moves_of_step
    {context : StepContext}
    {offset : UInt16}
    {insn : Insn}
    {state behind : FrameState}
    (fit : insn.WidthsFit context.pool state)
    (found : insn.step context offset state = .ok behind) :
    ∃ act move,
      insn.Acts context offset act ∧
        act.move = .ok move ∧ move.Moves state.stack behind.stack := by
  obtain ⟨act, acts, ran⟩ := exists_run_of_step found
  obtain ⟨locals, stack⟩ := state
  obtain ⟨widths, form, top⟩ := fit.operands
  obtain ⟨operands, below, rfl, rfl⟩ := exists_operands top
  rw [acts.operandForms_eq] at form
  cases act with
  | transfer access =>
      have loaded := fit.loaded access acts.access?_eq
      exact ⟨_, _, acts, rfl, moves_of_accessLocal (List.mem_singleton.mp form) loaded ran⟩
  | rearrange action =>
      obtain ⟨result, applied, rfl⟩ := onStack_eq_ok_iff.mp ran
      exact ⟨_, _, acts, rfl, moves_of_applyAction acts.staysOnStack form applied⟩
  | replace widths results =>
      obtain ⟨_, rfl⟩ := run_replace_eq_ok_iff.mp ran
      obtain rfl := List.mem_singleton.mp form
      refine ⟨_, _, acts, rfl, ?_⟩
      rw [List.length_map, List.drop_left]
      exact SlotMove.moves_of_append operands results below (stackSlots_eq_sum _).symm rfl
  | call hasReceiver member =>
      obtain ⟨type, typed, moves⟩ := moves_of_invoke (List.mem_singleton.mp form) ran
      refine ⟨_, _, acts, ?_, moves⟩
      exact bind_eq_ok_iff.mpr ⟨type, mapError_eq_ok_iff.mpr typed, rfl⟩

end Insn
end JvmClass
