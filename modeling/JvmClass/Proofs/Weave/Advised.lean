import JvmClass.Proofs.Verify.Computed
import JvmClass.Proofs.Weave.Assembly

namespace JvmClass

/-!
# Analyses of timed bodies

Counting in a field touches no local variable.  Keeping the time in a local variable
stores it once, behind the local variables of the body, and loads it only to subtract
it.  So neither way of timing brings unrelated classes into an analysis, as long as
no constructor takes the time for the object that it initializes.
-/

open FrameState

/-- The instructions of advice touch no local variable and call no constructor. -/
structure Advice.Quiet {Memory : Type} (advice : Advice Memory) : Prop where
  enter : ∀ memory slots, ∀ insn ∈ Node.insns (advice.enter memory slots).1.nodes, insn.isQuiet = true
  exit : ∀ memory opcode, ∀ insn ∈ Node.insns (advice.exit memory opcode).nodes, insn.isQuiet = true

/-- Counting in a field is quiet. -/
theorem Timer.quiet_fieldCounter
    (field : Member)
    (clock : Clock) :
    (fieldCounter field clock).Quiet := by
  have changes {combine : Opcode} (plain : (Insn.plain combine).isQuiet = true) :
      ∀ insn ∈ Node.insns (changeField field clock combine).nodes, insn.isQuiet = true := by
    simp only [changeField, Snippet.ofInsns, Node.insns, List.map_cons, List.map_nil,
      List.filterMap_cons, List.filterMap_nil, List.forall_mem_cons, List.not_mem_nil,
      false_imp_iff, implies_true, and_true]
    exact ⟨rfl, rfl, plain, rfl⟩
  exact ⟨fun _ _ => changes rfl, fun _ _ => changes rfl⟩

/-- What leaves a method is followed by nothing. -/
theorem Opcode.endsFlow_of_isExit
    {opcode : Opcode}
    (isExit : opcode.isExit = true) :
    opcode.endsFlow = true := by
  simp [endsFlow, isExit]

/-- The handler that weaving puts around a body covers all of it. -/
theorem Weaver.guarded_expansion
    {Memory : Type}
    {weaver : Weaver Memory}
    {memory : Memory}
    {body : Body}
    (quiet :
      weaver.detection = .guarded →
        ∀ insn ∈ weaver.exitInsns memory body Opcode.throwReference, insn.isQuiet = true) :
    (weaver.expansion memory body).Guarded (weaver.guards body) := by
  cases detection : weaver.detection with
  | explicit =>
      constructor
      · simp [guards, detection]
      · simp [expansion, closingNodes, detection, Flow.insns]
  | guarded =>
      have quiet := quiet detection
      constructor
      · simp only [guards, detection, List.mem_singleton, forall_eq, expansion, Expansion.core,
          openingNodes, closingNodes]
        exact ⟨rfl, .here, .here, .label .here, by simp [Flow.insns]⟩
      · simp only [expansion, closingNodes, detection, Flow.insns, List.filterMap_cons,
          List.filterMap_nil, List.mem_singleton, forall_eq, true_and, Expansion.ahead, inserted,
          or_true, if_true]
        exact quiet

namespace Assembly

variable {Memory : Type} {weaver : Weaver Memory} {memory : Memory} {assembly : Assembly}

/-- Weaving in what touches no local variable brings no unrelated classes into an analysis. -/
theorem Sound.spares_ofCode_of_quiet
    (sound : assembly.Sound)
    (expands : assembly.expansion = weaver.expansion memory assembly.body)
    (guards : assembly.guards = weaver.guards assembly.body)
    (quiet : weaver.advice.Quiet) :
    Spares (fun _ => True)
      (FrameAnalysis.ofCode assembly.method assembly.bytes assembly.ranges assembly.later
        assembly.rules) := by
  refine sound.spares_ofCode fun written initial lies _ => ⟨none, ?_⟩
  have guarded :=
    @Weaver.guarded_expansion _ weaver memory assembly.body fun _ => quiet.exit _ _
  rw [← expands, ← guards] at guarded
  refine sound.regular_course_of_quiet lies guarded ?_ ?_
  · rw [expands]
    exact quiet.enter _ _
  · rw [expands]
    rintro ⟨origin, node⟩ insn member
    cases node with
    | insn exit =>
        simp only [Weaver.expansion, Weaver.inserted] at member
        split at member
        · exact quiet.exit _ _ insn member
        · cases member
    | label _ | line _ _ => cases member

/-- A body that nothing is added to brings no unrelated classes into an analysis. -/
theorem Sound.spares_ofCode_of_unexpanded
    (sound : assembly.Sound)
    (expands : assembly.expansion = assembly.body.unexpanded)
    (guards : assembly.guards = []) :
    Spares (fun _ => True)
      (FrameAnalysis.ofCode assembly.method assembly.bytes assembly.ranges assembly.later
        assembly.rules) := by
  refine sound.spares_ofCode fun written initial lies _ => ⟨none, ?_⟩
  refine sound.regular_course_of_quiet lies ⟨?_, ?_⟩ ?_ ?_
  · rw [guards]
    exact nofun
  · rw [expands]
    exact nofun
  · rw [expands]
    exact nofun
  · rw [expands]
    exact fun _ => nofun

end Assembly

end JvmClass
