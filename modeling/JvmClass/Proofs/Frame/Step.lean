import JvmClass.Frame.Step
import JvmClass.Proofs.Frame.Fits

namespace JvmClass

/-!
# What steps do

Once what an instruction refers to has been found, its step transfers a local
variable, rearranges the stack, replaces values on top of it or calls a method.
What holds of every step is shown for these four acts, so that the instructions
are gone through once only.

No instruction puts a value on the stack whose class is not known any more: a
local variable that was left unmerged cannot be loaded, or counts as the root
class.
-/

namespace FrameState

/-! ## Taking values off a stack -/

/-- Taking a value off leaves what lies under it. -/
theorem pop_eq_ok_iff
    {stack rest : List SlotType}
    {value : SlotType} :
    pop stack = .ok (value, rest) ↔ stack = value :: rest := by
  cases stack <;> simp [pop]

/-- Taking several values off leaves what lies under them. -/
theorem popMany_eq_ok_iff
    {count : Nat}
    {stack rest : List SlotType} :
    popMany count stack = .ok rest ↔ count ≤ stack.length ∧ rest = stack.drop count := by
  induction count generalizing stack with
  | zero => simp [popMany, eq_comm]
  | succ count inductionHypothesis =>
      cases stack with
      | nil => simp [popMany, pop, bind, Except.bind]
      | cons value below =>
          have popped : popMany (count + 1) (value :: below) = popMany count below := rfl
          rw [popped, inductionHypothesis]
          simp

/-- Replacing the top of a stack puts one value on what lies under it. -/
theorem replaceTop_eq_ok_iff
    {count : Nat}
    {value : SlotType}
    {stack result : List SlotType} :
    replaceTop count value stack = .ok result ↔
      count ≤ stack.length ∧ result = value :: stack.drop count := by
  unfold replaceTop
  simp only [bind_eq_ok_iff, popMany_eq_ok_iff, pure, Except.pure, Except.ok.injEq]
  constructor
  · rintro ⟨_, ⟨enough, rfl⟩, rfl⟩
    exact ⟨enough, rfl⟩
  · rintro ⟨enough, rfl⟩
    exact ⟨_, ⟨enough, rfl⟩, rfl⟩

/-! ## Unknown values -/

/-- The type of a kind is known. -/
theorem ofKind_ne_unmerged
    (kind : ValueKind) :
    SlotType.ofKind kind ≠ .unmerged := by
  cases kind <;> simp [SlotType.ofKind]

/-- The type of a declared type is known. -/
theorem ofFieldType_ne_unmerged
    (type : FieldType) :
    SlotType.ofFieldType type ≠ .unmerged := by
  cases type <;> simp [SlotType.ofFieldType]

/-- An element of an array is known. -/
theorem elementOf_ne_unmerged
    (type : SlotType) :
    type.elementOf ≠ .unmerged := by
  unfold SlotType.elementOf
  repeat' split
  all_goals simp

/-- A value that is not known after taking values off was there before. -/
theorem unmerged_mem_of_mem_drop
    {count : Nat}
    {stack : List SlotType}
    (unknown : .unmerged ∈ stack.drop count) :
    .unmerged ∈ stack :=
  List.mem_of_mem_drop unknown

/-- A value that is not known after rearranging a stack was there before. -/
theorem unmerged_mem_of_rearranged
    {stack result : List SlotType}
    (found :
      pop2 stack = .ok result ∨ dupX2 stack = .ok result ∨ dup2 stack = .ok result ∨
        dup2X1 stack = .ok result ∨ dup2X2 stack = .ok result)
    (unknown : .unmerged ∈ result) :
    .unmerged ∈ stack := by
  simp only [pop2, dupX2, dup2, dup2X1, dup2X2, bind_eq_ok_iff, Prod.exists, pop_eq_ok_iff,
    ite_eq_iff, pure, Except.pure, Except.ok.injEq] at found
  grind

/-- An action leaves no unknown value that was not there before. -/
theorem unmerged_mem_of_applyAction
    {action : Action}
    {stack result : List SlotType}
    (found : applyAction action stack = .ok result)
    (unknown : .unmerged ∈ result) :
    .unmerged ∈ stack := by
  cases action <;>
    simp only [applyAction, replaceTop_eq_ok_iff, popMany_eq_ok_iff, bind_eq_ok_iff,
      Prod.exists, pop_eq_ok_iff, pure, Except.pure, Except.ok.injEq] at found
  case pop2 | dupX2 | dup2 | dup2X1 | dup2X2 =>
    exact unmerged_mem_of_rearranged (by simp [found]) unknown
  case loadElement kind =>
    cases kind <;>
      simp only [replaceTop_eq_ok_iff, bind_eq_ok_iff, Prod.exists, pop_eq_ok_iff,
        Except.ok.injEq] at found
    all_goals grind [ofKind_ne_unmerged, elementOf_ne_unmerged, unmerged_mem_of_mem_drop]
  case leave kind =>
    cases kind <;> simp only [popMany_eq_ok_iff, Except.ok.injEq] at found
    all_goals grind [unmerged_mem_of_mem_drop]
  all_goals grind [ofKind_ne_unmerged, unmerged_mem_of_mem_drop]

/-! ## Steps -/

/-- A local variable that is loaded is known. -/
theorem ne_unmerged_of_loadLocal
    {context : StepContext}
    {offset index : UInt16}
    {locals : List SlotType}
    {value : SlotType}
    (found : loadLocal context offset locals index = .ok value) :
    value ≠ .unmerged := by
  unfold loadLocal at found
  split at found
  · split at found
    · cases found
    · cases found
      simp
  · rename_i type known held
    cases found
    exact fun unknown => known unknown
  · cases found
    simp

/-- Loading or storing a local variable leaves only known values. -/
theorem knownStack_of_accessLocal
    {context : StepContext}
    {offset : UInt16}
    {state behind : FrameState}
    {access : SlotAccess}
    (found : accessLocal context offset state access = .ok behind)
    (known : state.KnownStack) :
    behind.KnownStack := by
  unfold accessLocal at found
  split at found
  · simp only [bind_eq_ok_iff, mapError_eq_ok_iff, Prod.exists, pop_eq_ok_iff, pure,
      Except.pure, Except.ok.injEq] at found
    obtain ⟨value, stack, stackShape, rfl⟩ := found
    intro unknown
    exact known (by rw [stackShape]; exact List.mem_cons_of_mem _ unknown)
  · simp only [bind_eq_ok_iff, pure, Except.pure, Except.ok.injEq] at found
    obtain ⟨value, loaded, rfl⟩ := found
    intro unknown
    rcases List.mem_cons.mp unknown with isValue | inStack
    · exact ne_unmerged_of_loadLocal loaded isValue.symm
    · exact known inStack

/-- Lifting a change of the stack changes nothing else. -/
theorem onStack_eq_ok_iff
    {offset : UInt16}
    {state behind : FrameState}
    {change : List SlotType → Except StackFault (List SlotType)} :
    onStack offset state change = .ok behind ↔
      ∃ stack, change state.stack = .ok stack ∧ behind = { state with stack } := by
  simp only [onStack, bind_eq_ok_iff, mapError_eq_ok_iff, pure, Except.pure, Except.ok.injEq,
    @eq_comm _ _ behind]

/-- Lifting a change of the stack keeps what the change keeps. -/
theorem knownStack_of_onStack
    {offset : UInt16}
    {state behind : FrameState}
    {change : List SlotType → Except StackFault (List SlotType)}
    (found : onStack offset state change = .ok behind)
    (known : state.KnownStack)
    (kept : ∀ result, change state.stack = .ok result →
      .unmerged ∈ result → .unmerged ∈ state.stack) :
    behind.KnownStack := by
  obtain ⟨stack, changed, rfl⟩ := onStack_eq_ok_iff.mp found
  exact fun unknown => known (kept stack changed unknown)

/-- The values that a call leaves on the stack. -/
def resultTypes (type : MethodType) : List SlotType :=
  (type.result.map SlotType.ofFieldType).toList

theorem withResult_eq (type : MethodType) (state : FrameState) :
    (match type.result with
      | some result => ({ state with stack := .ofFieldType result :: state.stack } : FrameState)
      | none => state) =
      { state with stack := resultTypes type ++ state.stack } := by
  unfold resultTypes
  cases type.result <;> rfl

/--
A call takes its arguments and its receiver and leaves its result.  A call of a
constructor replaces its receiver wherever it is held.
-/
theorem called_of_invoke
    {context : StepContext}
    {offset : UInt16}
    {hasReceiver : Bool}
    {member : Member}
    {state behind : FrameState}
    (found : invoke context offset hasReceiver member state = .ok behind) :
    ∃ type arguments below,
      MethodType.ofDescriptor member.descriptor = .ok type ∧
        state.stack = arguments ++ below ∧ arguments.length = type.params.length ∧
        (hasReceiver = false ∧
            behind = ⟨state.locals, resultTypes type ++ below⟩ ∨
          hasReceiver = true ∧
            ∃ receiver rest,
              below = receiver :: rest ∧
                (behind = ⟨state.locals, resultTypes type ++ rest⟩ ∨
                  member.name = "<init>" ∧ ∃ owner,
                    behind =
                      { replaceType receiver (.object owner) ⟨state.locals, rest⟩ with
                        stack :=
                          resultTypes type ++
                            (replaceType receiver (.object owner) ⟨state.locals, rest⟩).stack })) := by
  unfold invoke at found
  simp only [bind_eq_ok_iff, mapError_eq_ok_iff, popMany_eq_ok_iff] at found
  obtain ⟨type, typeFound, below, ⟨enough, rfl⟩, found⟩ := found
  refine
    ⟨type, state.stack.take type.params.length, state.stack.drop type.params.length,
      typeFound, by simp, by simp [enough], ?_⟩
  cases hasReceiver with
  | false =>
      simp only [pure, Except.pure, bind, Except.bind, Except.ok.injEq, Bool.false_eq_true,
        if_false] at found
      exact .inl ⟨rfl, found.symm.trans
        (withResult_eq type ⟨state.locals, state.stack.drop type.params.length⟩)⟩
  | true =>
      simp only [if_true, bind_eq_ok_iff, mapError_eq_ok_iff, Prod.exists,
        pop_eq_ok_iff] at found
      obtain ⟨receiver, rest, belowShape, found⟩ := found
      refine .inr ⟨rfl, receiver, rest, belowShape, ?_⟩
      split at found
      · rename_i isConstructor
        simp only [pure, Except.pure, bind, Except.bind, Except.ok.injEq] at found
        exact .inr ⟨isConstructor, _, found.symm.trans (withResult_eq type _)⟩
      · simp only [pure, Except.pure, bind, Except.bind, Except.ok.injEq] at found
        exact .inl (found.symm.trans (withResult_eq type ⟨state.locals, rest⟩))

/-- A call leaves only known values. -/
theorem knownStack_of_invoke
    {context : StepContext}
    {offset : UInt16}
    {hasReceiver : Bool}
    {member : Member}
    {state behind : FrameState}
    (found : invoke context offset hasReceiver member state = .ok behind)
    (known : state.KnownStack) :
    behind.KnownStack := by
  obtain ⟨type, arguments, below, _, stackShape, _, called⟩ := called_of_invoke found
  have resultKnown : .unmerged ∉ resultTypes type := by
    unfold resultTypes
    cases type.result with
    | none => simp
    | some result => simpa using (ofFieldType_ne_unmerged result).symm
  have belowKnown : .unmerged ∉ below := by
    intro unknown
    exact known (by rw [stackShape]; exact List.mem_append_right _ unknown)
  rcases called with ⟨_, rfl⟩ | ⟨_, receiver, rest, rfl, rfl | ⟨_, owner, rfl⟩⟩
  · simp [KnownStack, resultKnown, belowKnown]
  · simp_all [KnownStack]
  · simp only [KnownStack, replaceType, List.mem_append, List.mem_map, not_or, not_exists,
      not_and]
    refine ⟨resultKnown, ?_⟩
    intro type member
    split
    · simp
    · rintro rfl
      exact belowKnown (List.mem_cons_of_mem _ member)

end FrameState

namespace Insn

open FrameState

/-! ## What an instruction does -/

/-- What is left to do of an instruction once what it refers to has been found. -/
inductive Act where
  | transfer (access : SlotAccess)
  | rearrange (action : Action)
  /-- Values of some widths, listed from the top, give way to others. -/
  | replace (widths : List Nat) (results : List SlotType)
  | call (hasReceiver : Bool) (member : Member)

/-- The state that an act leaves. -/
def Act.run (context : StepContext) (offset : UInt16) (state : FrameState) :
    Act → Except WriteError FrameState
  | .transfer access => accessLocal context offset state access
  | .rearrange action => onStack offset state (applyAction action)
  | .replace widths results =>
      onStack offset state fun stack => do
        let below ← popMany widths.length stack
        return results ++ below
  | .call hasReceiver member => invoke context offset hasReceiver member state

/-- The widths of the operands of an instruction on a class. -/
def classWidths (code : Opcode) : List Nat :=
  if code = Opcode.newObject then [] else [1]

/-- What an instruction on a class puts on the stack, given the name of the class. -/
def classResult (offset : UInt16) (code : Opcode) (name : String) : SlotType :=
  if code = Opcode.newObject then .uninitialized offset
  else if code = Opcode.newReferenceArray then
    .object (String.ofList (ClassName.arrayOf name.toList))
  else if code = Opcode.checkCast then .object name
  else .integer

/-- The widths of the operands of an access to a field of a size. -/
def fieldWidths (code : Opcode) (size : Nat) : List Nat :=
  if code = Opcode.getStatic then []
  else if code = Opcode.putStatic then [size]
  else if code = Opcode.getField then [1]
  else [size, 1]

/-- What an access to a field of a type puts on the stack. -/
def fieldResults (code : Opcode) (type : SlotType) : List SlotType :=
  if code = Opcode.getStatic then [type]
  else if code = Opcode.putStatic then []
  else if code = Opcode.getField then [type]
  else []

/-- What an instruction at an offset does, given the pool that it refers to. -/
inductive Acts (context : StepContext) (offset : UInt16) : Insn → Act → Prop
  | plain
      {code : Opcode}
      {action : Action}
      (acts : code.action? = some action)
      (staysOnStack : ∀ kind slot, action ≠ .load kind slot ∧ action ≠ .store kind slot) :
      Acts context offset (.plain code) (.rearrange action)
  | load
      {code : Opcode}
      {kind : ValueKind}
      {slot : UInt16}
      (acts : code.action? = some (.load kind slot)) :
      Acts context offset (.plain code) (.transfer ⟨slot, kind.width, false⟩)
  | store
      {code : Opcode}
      {kind : ValueKind}
      {slot : UInt16}
      (acts : code.action? = some (.store kind slot)) :
      Acts context offset (.plain code) (.transfer ⟨slot, kind.width, true⟩)
  | slot
      {code : Opcode}
      {index : UInt16}
      {access : SlotAccess}
      (goesOn : code ≠ Opcode.ret)
      (accesses : slotAccess? code index = some access) :
      Acts context offset (.slot code index) (.transfer access)
  | noSlot
      {code : Opcode}
      {index : UInt16}
      (goesOn : code ≠ Opcode.ret)
      (accesses : slotAccess? code index = none) :
      Acts context offset (.slot code index) (.replace [] [])
  | newArray
      {operand : Int32}
      {type : SlotType}
      (typed : SlotType.ofArrayCode? operand = some type) :
      Acts context offset (.immediate Opcode.newArray operand) (.replace [1] [type])
  | immediate
      {code : Opcode}
      (operand : Int32)
      (other : code ≠ Opcode.newArray) :
      Acts context offset (.immediate code operand) (.replace [] [.integer])
  | increment
      (code : Opcode)
      (index : UInt16)
      (amount : Int16) :
      Acts context offset (.increment code index amount) (.replace [] [])
  | classRef
      {index : UInt16}
      {name : String}
      (code : Opcode)
      (found : context.pool.className index = .ok name) :
      Acts context offset (.classRef code index)
        (.replace (classWidths code) [classResult offset code name])
  | field
      {index : UInt16}
      {member : Member}
      {type : FieldType}
      (code : Opcode)
      (found : context.pool.member index = .ok member)
      (typed : FieldType.ofDescriptor member.descriptor = .ok type) :
      Acts context offset (.field code (.index index))
        (.replace (fieldWidths code type.size) (fieldResults code (.ofFieldType type)))
  | method
      {index : UInt16}
      {member : Member}
      (code : Opcode)
      (found : context.pool.member index = .ok member) :
      Acts context offset (.method code (.index index))
        (.call (code ≠ Opcode.invokeStatic) member)
  | interfaceMethod
      {index : UInt16}
      {member : Member}
      (code : Opcode)
      (count : UInt8)
      (found : context.pool.member index = .ok member) :
      Acts context offset (.interfaceMethod code index count) (.call true member)
  | callSite
      {index : UInt16}
      {name descriptor : String}
      (code : Opcode)
      (found : context.pool.dynamic index = .ok (name, descriptor)) :
      Acts context offset (.callSite code index) (.call false ⟨objectName, name, descriptor⟩)
  | jump
      {code : Opcode}
      {count : Nat}
      (target : Label)
      (counted : jumpOperands? code = some count) :
      Acts context offset (.jump code target) (.replace (List.replicate count 1) [])
  | text
      (code : Opcode)
      (value : String) :
      Acts context offset (.load code (.text value)) (.replace [] [.object "java/lang/String"])
  | constant
      {index : UInt16}
      {type : SlotType}
      (code : Opcode)
      (found : SlotType.ofConstant context.pool index = .ok type) :
      Acts context offset (.load code (.index index)) (.replace [] [type])
  | tableSwitch
      (code : Opcode)
      (default : Label)
      (low high : Int32)
      (targets : List Label) :
      Acts context offset (.tableSwitch code default low high targets) (.replace [1] [])
  | lookupSwitch
      (code : Opcode)
      (default : Label)
      (pairs : List (Int32 × Label)) :
      Acts context offset (.lookupSwitch code default pairs) (.replace [1] [])
  | multiArray
      {index : UInt16}
      {name : String}
      (code : Opcode)
      (dimensions : UInt8)
      (found : context.pool.className index = .ok name) :
      Acts context offset (.multiArray code index dimensions)
        (.replace (List.replicate dimensions.toNat 1) [.object name])

section Acts

variable {context : StepContext} {offset : UInt16} {insn : Insn} {state behind : FrameState}

theorem run_replace_eq_ok_iff
    {widths : List Nat}
    {results : List SlotType} :
    (Act.replace widths results).run context offset state = .ok behind ↔
      widths.length ≤ state.stack.length ∧
        behind = { state with stack := results ++ state.stack.drop widths.length } := by
  simp only [Act.run, onStack_eq_ok_iff, bind_eq_ok_iff, popMany_eq_ok_iff, pure, Except.pure,
    Except.ok.injEq]
  constructor
  · rintro ⟨_, ⟨_, ⟨enough, rfl⟩, rfl⟩, rfl⟩
    exact ⟨enough, rfl⟩
  · rintro ⟨enough, rfl⟩
    exact ⟨_, ⟨_, ⟨enough, rfl⟩, rfl⟩, rfl⟩

theorem run_replace_nil (results : List SlotType) :
    (Act.replace [] results).run context offset state =
      .ok { state with stack := results ++ state.stack } :=
  rfl

/-- What transfers a local variable accesses it. -/
theorem Acts.access?_eq
    {access : SlotAccess}
    (acts : insn.Acts context offset (.transfer access)) :
    insn.access? = some access := by
  cases acts with
  | load acts | store acts => rw [access?, acts]
  | slot _ accesses => exact accesses

theorem Acts.staysOnStack
    {action : Action}
    (acts : insn.Acts context offset (.rearrange action)) :
    ∀ kind slot, action ≠ .load kind slot ∧ action ≠ .store kind slot := by
  cases acts with
  | plain _ staysOnStack => exact staysOnStack

/-- An instruction that can be stepped through does something. -/
theorem exists_acts_of_step
    (found : insn.step context offset state = .ok behind) :
    ∃ act, insn.Acts context offset act := by
  cases insn with
  | plain code =>
      simp only [step] at found
      split at found
      · rename_i kind slot acts
        exact ⟨_, .load acts⟩
      · rename_i kind slot acts
        exact ⟨_, .store acts⟩
      · rename_i action notLoad notStore acts
        exact ⟨_, .plain acts fun kind slot => ⟨notLoad kind slot, notStore kind slot⟩⟩
      · cases found
  | immediate code operand =>
      by_cases isArray : code = Opcode.newArray
      · subst isArray
        obtain ⟨rest, _, found⟩ := bind_eq_ok_iff.mp found
        split at found
        · rename_i type typed
          exact ⟨_, .newArray typed⟩
        · cases found
      · exact ⟨_, .immediate operand isArray⟩
  | slot code index =>
      by_cases returns : code = Opcode.ret
      · simp [step, returns] at found
      · cases accesses : slotAccess? code index with
        | none => exact ⟨_, .noSlot returns accesses⟩
        | some access => exact ⟨_, .slot returns accesses⟩
  | classRef code index =>
      obtain ⟨name, named, _⟩ := bind_eq_ok_iff.mp found
      exact ⟨_, .classRef code (mapError_eq_ok_iff.mp named)⟩
  | field code target =>
      obtain ⟨member, resolved, found⟩ := bind_eq_ok_iff.mp found
      obtain ⟨type, typed, _⟩ := bind_eq_ok_iff.mp found
      cases target with
      | named owner name descriptor => cases resolved
      | index index =>
          exact ⟨_, .field code (mapError_eq_ok_iff.mp resolved) (mapError_eq_ok_iff.mp typed)⟩
  | method code target =>
      obtain ⟨member, resolved, _⟩ := bind_eq_ok_iff.mp found
      cases target with
      | named owner name descriptor => cases resolved
      | index index => exact ⟨_, .method code (mapError_eq_ok_iff.mp resolved)⟩
  | interfaceMethod code index count =>
      obtain ⟨member, resolved, _⟩ := bind_eq_ok_iff.mp found
      exact ⟨_, .interfaceMethod code count (mapError_eq_ok_iff.mp resolved)⟩
  | callSite code index =>
      obtain ⟨⟨name, descriptor⟩, resolved, _⟩ := bind_eq_ok_iff.mp found
      exact ⟨_, .callSite code (mapError_eq_ok_iff.mp resolved)⟩
  | jump code target =>
      cases counted : jumpOperands? code with
      | none => simp [step, counted] at found
      | some count => exact ⟨_, .jump target counted⟩
  | load code value =>
      cases value with
      | text value => exact ⟨_, .text code value⟩
      | index index =>
          obtain ⟨type, typed, _⟩ := bind_eq_ok_iff.mp found
          exact ⟨_, .constant code typed⟩
  | increment code index amount => exact ⟨_, .increment code index amount⟩
  | tableSwitch code default low high targets =>
      exact ⟨_, .tableSwitch code default low high targets⟩
  | lookupSwitch code default pairs => exact ⟨_, .lookupSwitch code default pairs⟩
  | multiArray code index dimensions =>
      obtain ⟨rest, _, found⟩ := bind_eq_ok_iff.mp found
      obtain ⟨name, named, _⟩ := bind_eq_ok_iff.mp found
      exact ⟨_, .multiArray code dimensions (mapError_eq_ok_iff.mp named)⟩

/-- What an instruction does to a state is what its step gives. -/
theorem Acts.step_eq_ok_iff
    {act : Act}
    (acts : insn.Acts context offset act) :
    insn.step context offset state = .ok behind ↔ act.run context offset state = .ok behind := by
  cases acts with
  | plain acts staysOnStack =>
      rename_i action
      cases action with
      | load kind slot => exact absurd rfl (staysOnStack kind slot).1
      | store kind slot => exact absurd rfl (staysOnStack kind slot).2
      | _ => simp only [step, acts, Act.run]
  | load acts | store acts => simp only [step, acts, access?, Act.run]
  | slot goesOn accesses => simp only [step, if_neg goesOn, access?, accesses, Act.run]
  | noSlot goesOn accesses =>
      simp only [step, if_neg goesOn, access?, accesses, run_replace_nil, List.nil_append]
  | newArray typed =>
      rw [run_replace_eq_ok_iff]
      simp [step, typed, bind_eq_ok_iff, mapError_eq_ok_iff, popMany_eq_ok_iff, pure, Except.pure,
        @eq_comm _ _ behind, and_assoc]
  | immediate operand other => simp [step, other, run_replace_nil]
  | increment code index amount => rfl
  | classRef code found =>
      rw [run_replace_eq_ok_iff]
      simp only [step, found, Except.mapError, bind, Except.bind, onStack_eq_ok_iff]
      unfold classStep classWidths classResult
      repeat' split
      all_goals simp [replaceTop_eq_ok_iff, and_assoc]
  | field code found typed =>
      rw [run_replace_eq_ok_iff]
      simp only [step, resolveMember, found, typed, Except.mapError, bind, Except.bind,
        onStack_eq_ok_iff]
      unfold fieldStep fieldWidths fieldResults
      repeat' split
      all_goals simp [replaceTop_eq_ok_iff, popMany_eq_ok_iff, and_assoc]
  | method code found =>
      simp only [step, resolveMember, found, Act.run, Except.mapError, bind, Except.bind]
  | interfaceMethod code count found =>
      simp only [step, found, Act.run, Except.mapError, bind, Except.bind]
  | callSite code found => simp only [step, found, Act.run, Except.mapError, bind, Except.bind]
  | jump target counted =>
      rw [run_replace_eq_ok_iff]
      simp [step, counted, onStack_eq_ok_iff, popMany_eq_ok_iff, and_assoc]
  | text code value => rfl
  | constant code found =>
      simp [step, found, run_replace_nil, bind, Except.bind, pure, Except.pure]
  | tableSwitch | lookupSwitch =>
      rw [run_replace_eq_ok_iff]
      simp [step, onStack_eq_ok_iff, popMany_eq_ok_iff, and_assoc]
  | multiArray code dimensions found =>
      rw [run_replace_eq_ok_iff]
      simp [step, found, bind_eq_ok_iff, mapError_eq_ok_iff, popMany_eq_ok_iff, pure, Except.pure,
        @eq_comm _ _ behind, and_assoc]

/-- A step is what its instruction does. -/
theorem exists_run_of_step
    (found : insn.step context offset state = .ok behind) :
    ∃ act, insn.Acts context offset act ∧ act.run context offset state = .ok behind := by
  obtain ⟨act, acts⟩ := exists_acts_of_step found
  exact ⟨act, acts, acts.step_eq_ok_iff.mp found⟩

end Acts

/-! ## Known values -/

/-- A constant that is loaded is known. -/
theorem ne_unmerged_of_ofConstant
    {pool : Pool}
    {index : UInt16}
    {type : SlotType}
    (found : SlotType.ofConstant pool index = .ok type) :
    type ≠ .unmerged := by
  unfold SlotType.ofConstant at found
  obtain ⟨entry, _, found⟩ := bind_eq_ok_iff.mp found
  split at found
  case h_9 =>
    simp only [bind_eq_ok_iff, pure, Except.pure, Except.ok.injEq] at found
    obtain ⟨_, _, declared, _, rfl⟩ := found
    exact ofFieldType_ne_unmerged declared
  all_goals
    cases found
    try simp

/-- Whatever replaces values on the stack is known. -/
theorem Acts.unmerged_notMem
    {context : StepContext}
    {offset : UInt16}
    {insn : Insn}
    {widths : List Nat}
    {results : List SlotType}
    (acts : insn.Acts context offset (.replace widths results)) :
    .unmerged ∉ results := by
  cases acts with
  | newArray typed =>
      obtain ⟨name, _, rfl⟩ := Option.map_eq_some_iff.mp typed
      simp
  | classRef code found =>
      unfold classResult
      repeat' split
      all_goals simp
  | field code found typed =>
      unfold fieldResults
      repeat' split
      all_goals simp [(ofFieldType_ne_unmerged _).symm]
  | constant code found => simpa using (ne_unmerged_of_ofConstant found).symm
  | _ => simp

/-- Every instruction leaves only known values on the stack. -/
theorem knownStack_of_step
    {context : StepContext}
    {offset : UInt16}
    {insn : Insn}
    {state behind : FrameState}
    (found : insn.step context offset state = .ok behind)
    (known : state.KnownStack) :
    behind.KnownStack := by
  obtain ⟨act, acts, ran⟩ := exists_run_of_step found
  cases act with
  | transfer access => exact knownStack_of_accessLocal ran known
  | rearrange action => exact knownStack_of_onStack ran known fun _ => unmerged_mem_of_applyAction
  | replace widths results =>
      obtain ⟨_, rfl⟩ := run_replace_eq_ok_iff.mp ran
      intro unknown
      rcases List.mem_append.mp unknown with among | below
      · exact acts.unmerged_notMem among
      · exact known (unmerged_mem_of_mem_drop below)
  | call hasReceiver member => exact knownStack_of_invoke ran known

/-! ## Failures -/

/-- Why an instruction at an offset cannot be stepped through from a state. -/
inductive StepFailure
    (context : StepContext)
    (offset : UInt16)
    (insn : Insn)
    (state : FrameState) : WriteError → Prop
  | read (error : ReadError) : StepFailure context offset insn state (.ofRead error)
  | descriptor (error : InvalidDescriptor) :
      StepFailure context offset insn state (.ofDescriptor error)
  | stack (fault : StackFault) : StepFailure context offset insn state (fault.at offset)
  | undefinedOpcode (code : Opcode) :
      StepFailure context offset insn state (.undefinedOpcode code offset.toNat)
  | arrayType (operand : Int32) :
      StepFailure context offset insn state (.analysis (.arrayType operand))
  | subroutine : StepFailure context offset insn state (.analysis (.subroutine offset))
  | unresolvedMember : StepFailure context offset insn state (.analysis (.unresolvedMember offset))
  | unresolvedReference (index : UInt16) :
      StepFailure context offset insn state (.unresolvedReference index)
  | unmergedLocal
      {access : SlotAccess}
      (emits : context.emitFrames = true)
      (accessed : insn.access? = some access)
      (isLoad : access.isStore = false)
      (held : state.locals[access.index.toNat]? = some .unmerged) :
      StepFailure context offset insn state
        (.inconsistentFrame offset (.unmergedLocal access.index))

section Failures

variable {context : StepContext} {offset : UInt16} {insn : Insn} {state : FrameState}

theorem failsOnly_read {α : Type} (step : Except ReadError α) :
    FailsOnly (StepFailure context offset insn state) (step.mapError WriteError.ofRead) :=
  failsOnly_mapError .read

theorem failsOnly_descriptor {α : Type} (step : Except InvalidDescriptor α) :
    FailsOnly (StepFailure context offset insn state) (step.mapError WriteError.ofDescriptor) :=
  failsOnly_mapError .descriptor

theorem failsOnly_stack {α : Type} (step : Except StackFault α) :
    FailsOnly (StepFailure context offset insn state) (step.mapError (StackFault.at offset)) :=
  failsOnly_mapError .stack

theorem failsOnly_accessLocal
    {access : SlotAccess}
    (accessed : insn.access? = some access) :
    FailsOnly (StepFailure context offset insn state)
      (accessLocal context offset state access) := by
  unfold accessLocal
  split
  · exact (failsOnly_stack _).bind fun _ => failsOnly_ok _
  · rename_i isLoad
    refine FailsOnly.bind ?_ fun _ => failsOnly_ok _
    unfold loadLocal
    split
    · rename_i held
      split
      · rename_i emits
        exact failsOnly_error (.unmergedLocal emits accessed (by simpa using isLoad) held)
      · exact failsOnly_ok _
    · exact failsOnly_ok _
    · exact failsOnly_ok _

theorem failsOnly_onStack (change : List SlotType → Except StackFault (List SlotType)) :
    FailsOnly (StepFailure context offset insn state) (onStack offset state change) :=
  (failsOnly_stack _).bind fun _ => failsOnly_ok _

theorem failsOnly_invoke
    (hasReceiver : Bool)
    (member : Member) :
    FailsOnly (StepFailure context offset insn state)
      (invoke context offset hasReceiver member state) := by
  unfold invoke
  refine (failsOnly_descriptor _).bind fun type => ?_
  refine (failsOnly_stack _).bind fun stack => ?_
  cases hasReceiver with
  | false => exact failsOnly_ok _
  | true =>
      refine (failsOnly_stack _).bind fun popped => ?_
      dsimp only
      split <;> exact failsOnly_ok _

theorem failsOnly_resolveMember (target : MemberRef) :
    FailsOnly (StepFailure context offset insn state)
      (resolveMember context.pool offset target) := by
  cases target with
  | index index => exact failsOnly_read _
  | named owner name descriptor => exact failsOnly_error .unresolvedMember

theorem failsOnly_ofConstant
    (pool : Pool)
    (index : UInt16) :
    FailsOnly (StepFailure context offset insn state) (SlotType.ofConstant pool index) := by
  unfold SlotType.ofConstant
  refine (failsOnly_read _).bind fun entry => ?_
  cases entry with
  | dynamic bootstrap pair =>
      refine (failsOnly_read _).bind fun names => ?_
      exact (failsOnly_descriptor _).bind fun type => failsOnly_ok _
  | integer | float | long | double | string | classRef | methodType | methodHandle =>
      exact failsOnly_ok _
  | _ => exact failsOnly_error (.unresolvedReference index)

end Failures

/-- A step fails for the listed reasons only. -/
theorem failsOnly_step
    (context : StepContext)
    (offset : UInt16)
    (insn : Insn)
    (state : FrameState) :
    FailsOnly (StepFailure context offset insn state) (insn.step context offset state) := by
  cases insn with
  | plain code =>
      simp only [step]
      split
      · split
        · rename_i accessed
          exact failsOnly_accessLocal accessed
        · exact failsOnly_ok _
      · split
        · rename_i accessed
          exact failsOnly_accessLocal accessed
        · exact failsOnly_ok _
      · exact failsOnly_onStack _
      · exact failsOnly_error (.undefinedOpcode code)
  | immediate code operand =>
      simp only [step]
      split
      · refine (failsOnly_stack _).bind fun rest => ?_
        split
        · exact failsOnly_ok _
        · exact failsOnly_error (.arrayType operand)
      · exact failsOnly_ok _
  | slot code index =>
      simp only [step]
      split
      · exact failsOnly_error .subroutine
      · split
        · rename_i accessed
          exact failsOnly_accessLocal accessed
        · exact failsOnly_ok _
  | increment code index amount => exact failsOnly_ok _
  | classRef code index => exact (failsOnly_read _).bind fun name => failsOnly_onStack _
  | field code target =>
      exact (failsOnly_resolveMember target).bind fun member =>
        (failsOnly_descriptor _).bind fun type => failsOnly_onStack _
  | method code target =>
      exact (failsOnly_resolveMember target).bind fun member => failsOnly_invoke _ member
  | interfaceMethod code index count =>
      exact (failsOnly_read _).bind fun member => failsOnly_invoke true member
  | callSite code index => exact (failsOnly_read _).bind fun names => failsOnly_invoke false _
  | jump code target =>
      simp only [step]
      split
      · exact failsOnly_onStack _
      · exact failsOnly_error .subroutine
  | load code value =>
      cases value with
      | text value => exact failsOnly_ok _
      | index index => exact (failsOnly_ofConstant _ index).bind fun type => failsOnly_ok _
  | tableSwitch | lookupSwitch => exact failsOnly_onStack _
  | multiArray code index dimensions =>
      exact (failsOnly_stack _).bind fun rest => (failsOnly_read _).bind fun name => failsOnly_ok _

end Insn
end JvmClass
