import JvmClass.Proofs.Frame.Alike
import JvmClass.Proofs.Frame.Conflict

namespace JvmClass

/-!
# What steps do to local variables

A step changes local variables in two ways: it stores to one, or it calls a
constructor, which gives the object that it was called on its class wherever the
object is held.  It fails for want of a common superclass only where it loads a
local variable that holds two classes.
-/

namespace Insn

open FrameState

/-- What a step leaves of the local variables. -/
inductive LocalsBehind
    (pool : Pool)
    (insn : Insn)
    (state : FrameState) : List SlotType → Prop
  | same : LocalsBehind pool insn state state.locals
  | stored
      {access : SlotAccess}
      {value : SlotType}
      {rest : List SlotType}
      (accessed : insn.access? = some access)
      (isStore : access.isStore = true)
      (popped : state.stack = value :: rest) :
      LocalsBehind pool insn state (storeLocal state.locals access.index value)
  | constructed
      {count : Nat}
      {receiver : SlotType}
      {owner : String}
      (constructs : Constructs pool insn count)
      (called : state.stack[count]? = some receiver) :
      LocalsBehind pool insn state
        (state.locals.map fun type => if type = receiver then .object owner else type)

variable {context : StepContext} {offset : UInt16} {insn : Insn} {state behind : FrameState}

theorem localsBehind_of_accessLocal
    {access : SlotAccess}
    (accessed : insn.access? = some access)
    (found : accessLocal context offset state access = .ok behind) :
    LocalsBehind context.pool insn state behind.locals := by
  unfold accessLocal at found
  split at found
  · rename_i isStore
    simp only [bind_eq_ok_iff, mapError_eq_ok_iff, Prod.exists, pop_eq_ok_iff, pure, Except.pure,
      Except.ok.injEq] at found
    obtain ⟨value, rest, popped, rfl⟩ := found
    exact .stored accessed isStore popped
  · simp only [bind_eq_ok_iff, pure, Except.pure, Except.ok.injEq] at found
    obtain ⟨value, _, rfl⟩ := found
    exact .same

theorem localsBehind_of_onStack
    {change : List SlotType → Except StackFault (List SlotType)}
    (found : onStack offset state change = .ok behind) :
    LocalsBehind context.pool insn state behind.locals := by
  obtain ⟨stack, _, rfl⟩ := onStack_eq_ok_iff.mp found
  exact .same

theorem localsBehind_of_invoke
    {hasReceiver : Bool}
    {member : Member}
    (constructs :
      hasReceiver = true →
        member.name = "<init>" →
          ∀ type,
            MethodType.ofDescriptor member.descriptor = .ok type →
              Constructs context.pool insn type.params.length)
    (found : invoke context offset hasReceiver member state = .ok behind) :
    LocalsBehind context.pool insn state behind.locals := by
  obtain ⟨type, arguments, below, typed, shape, count, called⟩ := called_of_invoke found
  rcases called with ⟨_, rfl⟩ | ⟨hasReceiver, receiver, rest, rfl, rfl | ⟨isConstructor, owner, rfl⟩⟩
  · exact .same
  · exact .same
  · refine .constructed (constructs hasReceiver isConstructor type typed) ?_
    rw [shape, List.getElem?_append_right (by omega), count, Nat.sub_self]
    rfl

/-- Every step leaves the local variables as they were but for a store or a constructor. -/
theorem localsBehind_of_step
    (found : insn.step context offset state = .ok behind) :
    LocalsBehind context.pool insn state behind.locals := by
  obtain ⟨act, acts, ran⟩ := exists_run_of_step found
  cases act with
  | transfer access => exact localsBehind_of_accessLocal acts.access?_eq ran
  | rearrange action => exact localsBehind_of_onStack ran
  | replace widths results =>
      obtain ⟨_, rfl⟩ := run_replace_eq_ok_iff.mp ran
      exact .same
  | call hasReceiver member =>
      exact localsBehind_of_invoke
        (fun isTrue isConstructor _ typed => acts.constructs isTrue isConstructor typed) ran

/-- No local variable goes away. -/
theorem LocalsBehind.length_le
    {pool : Pool}
    {locals : List SlotType}
    (left : LocalsBehind pool insn state locals) :
    state.locals.length ≤ locals.length := by
  cases left with
  | same => exact Nat.le_refl _
  | stored _ _ _ => exact length_storeLocal ..
  | constructed _ _ => simp

/-! ## Failures -/

/-- A step fails for want of a superclass only where it loads a variable of two classes. -/
theorem spares_step
    (loads :
      context.emitFrames = true →
        ∀ access,
          insn.access? = some access →
            access.isStore = false → state.locals[access.index.toNat]? ≠ some .unmerged) :
    Spares (fun behind => insn.step context offset state = .ok behind)
      (insn.step context offset state) := by
  refine spares_of_error fun error failed => ?_
  cases insn.failsOnly_step context offset state error failed with
  | read error => exact WriteError.isOfClasses_ofRead error
  | stack fault => exact StackFault.isOfClasses_at offset fault
  | unmergedLocal emits accessed isLoad held => exact absurd held (loads emits _ accessed isLoad)
  | _ => rfl

end Insn
end JvmClass
