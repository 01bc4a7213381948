import JvmClass.Proofs.Frame.Flow
import JvmClass.Proofs.Writing

namespace JvmClass

/-!
# Where the length of bytecode matters

Bytecode is refused as too long where it is laid out, and nowhere else: neither
linking, nor the analysis of types, nor the tables of a body look at its length.
So a body that can be laid out is never refused for its length.
-/

/-- The length of bytecode is the cause. -/
def WriteError.isOfLength : WriteError → Bool
  | .codeTooLarge _ => true
  | _ => false

@[simp] theorem WriteError.isOfLength_ofRead (error : ReadError) :
    (ofRead error).isOfLength = false := by
  cases error <;> rfl

@[simp] theorem StackFault.isOfLength_at
    (offset : UInt16)
    (fault : StackFault) :
    (fault.at offset).isOfLength = false := by
  cases fault <;> rfl

/-- A step does not fail for the length of bytecode. -/
abbrev Unlimited
    {α : Type}
    (step : Except WriteError α) : Prop :=
  FailsOnly (fun error => error.isOfLength = false) step

theorem Unlimited.ne_codeTooLarge
    {α : Type}
    {step : Except WriteError α}
    (unlimited : Unlimited step)
    (size : Nat) :
    step ≠ .error (.codeTooLarge size) :=
  fun failed => Bool.noConfusion (unlimited _ failed)

section Renamed

variable {α : Type}

theorem unlimited_of_read (step : Except ReadError α) :
    Unlimited (step.mapError WriteError.ofRead) :=
  failsOnly_mapError WriteError.isOfLength_ofRead

theorem unlimited_of_descriptor (step : Except InvalidDescriptor α) :
    Unlimited (step.mapError WriteError.ofDescriptor) :=
  failsOnly_mapError fun _ => rfl

end Renamed

/-! ## Steps of the analysis of types -/

/-- A state is absorbed unless it conflicts with another one. -/
theorem FrameState.unlimited_absorb
    (rules : TypeRules)
    (offset : UInt16)
    (existing : Option FrameState)
    (incoming : FrameState) :
    Unlimited (absorb rules offset existing incoming) :=
  failsOnly_mapError fun _ => rfl

/-- No reason for which a step fails is the length of the body. -/
theorem Insn.unlimited_step
    (context : StepContext)
    (offset : UInt16)
    (insn : Insn)
    (state : FrameState) :
    Unlimited (insn.step context offset state) := by
  refine (insn.failsOnly_step context offset state).imp fun error failure => ?_
  cases failure with
  | read error => exact WriteError.isOfLength_ofRead error
  | stack fault => exact StackFault.isOfLength_at offset fault
  | _ => rfl

namespace FlowProgress

variable
  {context : StepContext} {rules : TypeRules} {code : LocatedCode} {handlers : List HandlerRange}

theorem unlimited_reach
    (progress : FlowProgress)
    (position : Nat)
    (offset : UInt16)
    (incoming : FrameState) :
    Unlimited (reach rules progress position offset incoming) := by
  refine (FrameState.unlimited_absorb rules offset _ incoming).bind fun merged => ?_
  split <;> exact failsOnly_ok _

theorem unlimited_flowTo
    (progress : FlowProgress)
    (offset : UInt16)
    (incoming : FrameState) :
    Unlimited (flowTo code rules progress offset incoming) := by
  unfold flowTo
  split
  · exact failsOnly_error rfl
  · exact unlimited_reach progress _ offset incoming

/-- Stepping through one instruction does not ask for the length of the body. -/
theorem unlimited_visit
    (progress : FlowProgress)
    (position : Nat) :
    Unlimited (visit context rules code handlers progress position) := by
  unfold visit
  split
  · exact failsOnly_ok _
  · rename_i offset insn _
    split
    · exact failsOnly_error rfl
    · rename_i before _
      refine (insn.unlimited_step context offset before).bind fun behind => ?_
      refine FailsOnly.bind ?_ fun targets => ?_
      · unfold successors
        dsimp only
        split
        · exact failsOnly_ok _
        · split
          · exact failsOnly_ok _
          · exact failsOnly_error rfl
      refine (failsOnly_foldlM fun middle target _ => unlimited_flowTo middle target behind).bind
        fun flowed => ?_
      exact failsOnly_foldlM fun middle range _ =>
        (unlimited_flowTo _ range.handler _).bind fun caught =>
          unlimited_flowTo caught range.handler _

theorem unlimited_run
    (steps : Nat)
    (progress : FlowProgress) :
    Unlimited (run context rules code handlers steps progress) := by
  induction steps generalizing progress with
  | zero =>
      unfold run
      split
      · exact failsOnly_ok _
      · exact failsOnly_error rfl
  | succ steps inductionHypothesis =>
      unfold run
      split
      · exact failsOnly_ok _
      · exact (unlimited_visit _ _).bind fun next => inductionHypothesis next

end FlowProgress

/-- No analysis fails for the length of what it analyses. -/
theorem FrameAnalysis.unlimited_ofCode
    (method : MethodContext)
    (code : Bytes)
    (handlers : List HandlerRange)
    (pool : Pool)
    (rules : TypeRules) :
    Unlimited (ofCode method code handlers pool rules) := by
  refine (unlimited_of_read _).bind fun insns => ?_
  refine (unlimited_of_descriptor _).bind fun initial => ?_
  split
  · exact failsOnly_ok _
  · unfold solve
    dsimp only
    split
    · exact failsOnly_error rfl
    · refine (FlowProgress.unlimited_reach _ _ _ _).bind fun entered => ?_
      refine (FlowProgress.unlimited_run _ entered).bind fun solved => ?_
      refine FailsOnly.bind (failsOnly_mapM fun ⟨⟨offset, insn⟩, state⟩ _ => ?_) fun states => ?_
      · cases state with
        | some state => exact failsOnly_ok _
        | none => exact failsOnly_error rfl
      · split
        · exact failsOnly_error rfl
        · exact failsOnly_ok _

/-! ## Steps of assembling -/

open Writing

theorem PlacedLabels.unlimited_offset
    (labels : PlacedLabels)
    (label : Label) :
    Unlimited (labels.offset label) := by
  unfold offset
  split
  · exact failsOnly_ok _
  · exact failsOnly_error rfl

theorem LaidOut.unlimited_link (laidOut : LaidOut) : Unlimited laidOut.link := by
  refine (failsOnly_mapM fun cell _ => ?_).bind fun _ => failsOnly_ok _
  cases cell with
  | byte value => exact failsOnly_ok _
  | far origin target =>
      exact (laidOut.labels.unlimited_offset target).bind fun _ => failsOnly_ok _
  | near origin target =>
      refine (laidOut.labels.unlimited_offset target).bind fun offset => ?_
      dsimp only
      split
      · exact failsOnly_ok _
      · exact failsOnly_error rfl

namespace Body

variable {pool : Pool} {labels : PlacedLabels}

theorem unlimited_assembleHandler (handler : Handler) :
    Unlimited (assembleHandler labels handler pool) := by
  refine failsOnly_bind (failsOnly_lift (labels.unlimited_offset _)) fun start _ => ?_
  refine failsOnly_bind (failsOnly_lift (labels.unlimited_offset _)) fun stop _ => ?_
  refine failsOnly_bind (failsOnly_lift (labels.unlimited_offset _)) fun target _ => ?_
  split
  · exact failsOnly_pure _
  · cases handler.catchType with
    | none => exact failsOnly_pure _
    | some name => exact failsOnly_bind (failsOnly_intern _) fun _ _ => failsOnly_pure _

theorem unlimited_relocateFrames
    (done : List StackMap.Frame)
    (previous : Option UInt16)
    (frames : List PlacedFrame) :
    Unlimited (relocateFrames labels done previous frames) := by
  induction frames generalizing done previous with
  | nil => exact failsOnly_ok _
  | cons frame frames inductionHypothesis =>
      refine (labels.unlimited_offset frame.label).bind fun offset => ?_
      split
      · exact failsOnly_error rfl
      · exact inductionHypothesis _ _

theorem unlimited_assembleLocal (entry : LocalVariable) :
    Unlimited (assembleLocal labels entry pool) :=
  failsOnly_bind (failsOnly_lift (labels.unlimited_offset _)) fun _ _ =>
    failsOnly_bind (failsOnly_lift (labels.unlimited_offset _)) fun _ _ =>
      failsOnly_bind (failsOnly_intern _) fun _ _ =>
        failsOnly_bind (failsOnly_intern _) fun _ _ => failsOnly_pure _

variable
  {context : WriteContext} {method : MethodContext} {code : Bytes} {ranges : List HandlerRange}
  {body : Body}

theorem unlimited_analysedFrames
    (started : Pool)
    (emitFrames : Bool)
    (declared : Std.TreeMap UInt16 FrameState) :
    Unlimited
      (analysedFrames context method labels code ranges body started emitFrames declared pool) := by
  refine failsOnly_bind (failsOnly_lift (FrameAnalysis.unlimited_ofCode _ _ _ _ _)) fun analysis _ => ?_
  cases emitFrames with
  | true => exact failsOnly_bind (failsOnly_intern _) fun _ _ => failsOnly_pure _
  | false =>
      exact failsOnly_bind (failsOnly_lift (unlimited_relocateFrames _ _ _)) fun _ _ =>
        failsOnly_pure _

theorem unlimited_assembleFrames (plain : body.hints = none) :
    Unlimited (assembleFrames context method labels code ranges body pool) := by
  cases asked : context.options.computeFrames || context.options.computeMaxima with
  | false =>
      rw [assembleFrames_of_nothing asked]
      exact failsOnly_bind (failsOnly_lift (unlimited_relocateFrames _ _ _)) fun _ _ =>
        failsOnly_pure _
  | true =>
      cases needs : body.needsFrames context with
      | false =>
          rw [assembleFrames_of_keeping asked needs]
          exact failsOnly_bind (failsOnly_ok _) fun started _ =>
            unlimited_analysedFrames started false ∅
      | true =>
          rw [assembleFrames_of_needing needs, plain]
          exact failsOnly_bind (failsOnly_ok _) fun started _ =>
            failsOnly_bind (failsOnly_lift (failsOnly_ok _)) fun declared _ =>
              unlimited_analysedFrames started true declared

/-- A body without hints is too long only if it is too long to be laid out. -/
theorem unlimited_assemble
    {access : UInt16}
    {name descriptor : String}
    (plain : body.hints = none)
    (unlimited : Unlimited (LaidOut.ofNodes body.nodes pool)) :
    Unlimited (body.assemble context access name descriptor pool) := by
  refine failsOnly_bind unlimited fun laidOut _ => ?_
  refine failsOnly_bind (failsOnly_lift laidOut.unlimited_link) fun code _ => ?_
  refine failsOnly_bind (Writing.failsOnly_mapM fun handler _ => unlimited_assembleHandler handler)
    fun handlers _ => ?_
  refine failsOnly_bind (unlimited_assembleFrames plain) fun maxima _ => ?_
  refine failsOnly_bind (failsOnly_lift ?_) fun lines _ => ?_
  · exact failsOnly_mapM fun (_, label) _ =>
      (laidOut.labels.unlimited_offset label).bind fun _ => failsOnly_ok _
  · exact failsOnly_bind (Writing.failsOnly_mapM fun entry _ => unlimited_assembleLocal entry)
      fun _ _ => failsOnly_pure _

end Body
end JvmClass
