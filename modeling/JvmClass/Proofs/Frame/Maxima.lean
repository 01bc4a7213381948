import JvmClass.Body.Assemble
import JvmClass.Proofs.Frame.Together
import JvmClass.Proofs.Writing

namespace JvmClass

/-!
# Maxima without frames

A body is analysed for its maxima alone more leniently than for its frames: classes
that the hierarchy cannot relate count as the root class.  As long as the analysis
that gives frames goes on, the lenient one does the same step by step; only where
the first one fails the second may go its own way.
-/

/-- Whatever the first step gives, the second one gives as well. -/
structure Refines
    {α ε : Type}
    (first second : Except ε α) : Prop where
  kept : ∀ result, first = .ok result → second = .ok result

section Refines

variable {α β δ ε : Type} {first second : Except ε α}

theorem Refines.refl (step : Except ε α) : Refines step step :=
  ⟨fun _ found => found⟩

theorem refines_error (error : ε) : Refines (.error error) second :=
  ⟨nofun⟩

/-- Refining is following with the same result. -/
theorem refines_iff_follows : Refines first second ↔ Follows (· = ·) first second := by
  constructor
  · exact fun refines result found => ⟨result, refines.kept result found, rfl⟩
  · refine fun follows => ⟨fun result found => ?_⟩
    obtain ⟨_, stepped, rfl⟩ := follows result found
    exact stepped

theorem Refines.bind
    {next other : α → Except ε β}
    (refines : Refines first second)
    (onward : ∀ value, Refines (next value) (other value)) :
    Refines (first >>= next) (second >>= other) := by
  rw [refines_iff_follows] at refines ⊢
  refine refines.bind fun value _ same => ?_
  subst same
  exact refines_iff_follows.mp (onward value)

theorem Refines.mapError
    {rename : ε → δ}
    (refines : Refines first second) :
    Refines (first.mapError rename) (second.mapError rename) :=
  refines_iff_follows.mpr (refines_iff_follows.mp refines).mapError

theorem refines_ite
    {condition : Prop}
    [Decidable condition]
    {third fourth : Except ε α}
    (holds : Refines first second)
    (fails : Refines third fourth) :
    Refines (if condition then first else third) (if condition then second else fourth) := by
  split
  · exact holds
  · exact fails

theorem refines_mapM
    {each other : α → Except ε β}
    (refines : ∀ item, Refines (each item) (other item))
    (items : List α) :
    Refines (items.mapM each) (items.mapM other) := by
  induction items with
  | nil => exact .refl _
  | cons item items inductionHypothesis =>
      rw [List.mapM_cons, List.mapM_cons]
      exact (refines item).bind fun _ => inductionHypothesis.bind fun _ => .refl _

theorem refines_foldlM
    {step other : β → α → Except ε β}
    (refines : ∀ state item, Refines (step state item) (other state item))
    (items : List α)
    (state : β) :
    Refines (items.foldlM step state) (items.foldlM other state) := by
  induction items generalizing state with
  | nil => exact .refl _
  | cons item items inductionHypothesis =>
      rw [List.foldlM_cons, List.foldlM_cons]
      exact (refines state item).bind inductionHypothesis

end Refines

/-- The same rules for an analysis that gives no frames. -/
def TypeRules.lenient (rules : TypeRules) : TypeRules :=
  { rules with emitFrames := false }

/-- The same body, stepped through for an analysis that gives no frames. -/
def StepContext.lenient (context : StepContext) : StepContext :=
  { context with emitFrames := false }

/-! ## Merging -/

/-- Stack values that merge for frames merge to the same for the maxima. -/
theorem SlotType.refines_mergeStackValue
    (rules : TypeRules)
    (left right : SlotType) :
    Refines (mergeStackValue rules left right) (mergeStackValue rules.lenient left right) := by
  unfold mergeStackValue
  split
  · rename_i merged related
    rw [show merge? rules.lenient.hierarchy left right = some merged from related]
    exact .refl _
  · rename_i unrelated
    rw [show merge? rules.lenient.hierarchy left right = none from unrelated]
    dsimp only
    split
    · exact refines_error _
    · exact .refl _

namespace FrameState

theorem refines_mergeStacks
    (rules : TypeRules)
    (fixed : List Bool)
    (left right : List SlotType) :
    Refines (mergeStacks rules fixed left right) (mergeStacks rules.lenient fixed left right) := by
  refine (refines_mapM (fun item => ?_) _).bind fun _ => .refl _
  obtain ⟨⟨left, right⟩, isFixed⟩ := item
  exact refines_ite (.refl _) (SlotType.refines_mergeStackValue rules left right)

theorem refines_merge
    (rules : TypeRules)
    (declared : Option FrameState)
    (left right : FrameState) :
    Refines (merge rules declared left right) (merge rules.lenient declared left right) :=
  refines_ite (.refl _) ((refines_mergeStacks rules _ _ _).bind fun _ => .refl _)

theorem refines_absorb
    (rules : TypeRules)
    (offset : UInt16)
    (existing : Option FrameState)
    (incoming : FrameState) :
    Refines (absorb rules offset existing incoming) (absorb rules.lenient offset existing incoming) := by
  refine Refines.mapError ?_
  cases existing with
  | none => exact .refl _
  | some existing => exact (refines_merge rules _ existing incoming).bind fun _ => .refl _

/-! ## Steps -/

theorem refines_loadLocal
    (context : StepContext)
    (offset : UInt16)
    (locals : List SlotType)
    (index : UInt16) :
    Refines (loadLocal context offset locals index)
      (loadLocal context.lenient offset locals index) := by
  unfold loadLocal
  split
  · rw [if_neg (show ¬ context.lenient.emitFrames = true from Bool.false_ne_true)]
    split
    · exact refines_error _
    · exact .refl _
  · exact .refl _
  · exact .refl _

theorem refines_accessLocal
    (context : StepContext)
    (offset : UInt16)
    (state : FrameState)
    (access : SlotAccess) :
    Refines (accessLocal context offset state access)
      (accessLocal context.lenient offset state access) :=
  refines_ite (.refl _) ((refines_loadLocal context offset _ _).bind fun _ => .refl _)

theorem carries_eq : Carries (· = ·) (· = ·) where
  narrow _ _ same narrow := same ▸ narrow
  stack _ _ same := by rw [same, List.forall₂_eq_eq_eq]
  withStack _ _ _ _ same sameStacks := by
    rw [List.forall₂_eq_eq_eq] at sameStacks
    rw [same, sameStacks]

end FrameState

/-- A step that can be taken for frames leads to the same state for the maxima. -/
theorem Insn.refines_step
    (context : StepContext)
    (offset : UInt16)
    (insn : Insn)
    (state : FrameState) :
    Refines (insn.step context offset state) (insn.step context.lenient offset state) := by
  refine refines_iff_follows.mpr
    (follows_step_of_treats FrameState.carries_eq (.refl _) rfl ?_ rfl)
  constructor
  case introduced | created | widths => intros; rfl
  case element =>
    rintro _ array _ held again
    rw [held] at again
    cases again
    rfl
  case transfers =>
    exact fun access _ =>
      refines_iff_follows.mp (FrameState.refines_accessLocal context offset state access)
  case constructs =>
    rintro count receiver _ _ held again
    rw [held] at again
    cases again
    exact ⟨.rfl, fun owner _ left right same => by rw [same]⟩

/-! ## The analysis -/

namespace FlowProgress

variable
  (context : StepContext) (rules : TypeRules) (code : LocatedCode)
  (handlers : List HandlerRange) (progress : FlowProgress)

theorem refines_reach
    (position : Nat)
    (offset : UInt16)
    (incoming : FrameState) :
    Refines (reach rules progress position offset incoming)
      (reach rules.lenient progress position offset incoming) :=
  (FrameState.refines_absorb rules offset _ incoming).bind fun _ => .refl _

theorem refines_flowTo
    (offset : UInt16)
    (incoming : FrameState) :
    Refines (flowTo code rules progress offset incoming)
      (flowTo code rules.lenient progress offset incoming) := by
  unfold flowTo
  split
  · exact .refl _
  · exact refines_reach ..

theorem refines_flowToHandler
    (before behind : FrameState)
    (range : HandlerRange) :
    Refines (flowToHandler code rules before behind progress range)
      (flowToHandler code rules.lenient before behind progress range) :=
  (refines_flowTo ..).bind fun _ => refines_flowTo ..

/-- An instruction that is visited for frames is visited for the maxima alike. -/
theorem refines_visit (position : Nat) :
    Refines (visit context rules code handlers progress position)
      (visit context.lenient rules.lenient code handlers progress position) := by
  unfold visit
  split
  · exact .refl _
  · split
    · exact .refl _
    · refine (Insn.refines_step ..).bind fun behind => (Refines.refl _).bind fun successors => ?_
      refine (refines_foldlM (fun progress successor => ?_) _ _).bind fun progress =>
        refines_foldlM (fun progress range => ?_) _ _
      · exact refines_flowTo ..
      · exact refines_flowToHandler ..

/-- Both analyses stay together for as many steps as the one for frames takes. -/
theorem refines_run (steps : Nat) :
    Refines (run context rules code handlers steps progress)
      (run context.lenient rules.lenient code handlers steps progress) := by
  induction steps generalizing progress with
  | zero => exact .refl _
  | succ steps inductionHypothesis =>
      unfold run
      split
      · exact .refl _
      · exact (refines_visit ..).bind inductionHypothesis

end FlowProgress

namespace FrameAnalysis

theorem refines_solve
    (method : MethodContext)
    (insns : List (Nat × Insn))
    (initial : FrameState)
    (handlers : List HandlerRange)
    (pool : Pool)
    (rules : TypeRules) :
    Refines (solve method insns initial handlers pool rules)
      (solve method insns initial handlers pool rules.lenient) := by
  refine refines_ite (.refl _) ?_
  refine (FlowProgress.refines_reach ..).bind fun entered => ?_
  exact (FlowProgress.refines_run ..).bind fun _ => .refl _

theorem refines_ofCode
    (method : MethodContext)
    (code : Bytes)
    (handlers : List HandlerRange)
    (pool : Pool)
    (rules : TypeRules) :
    Refines (ofCode method code handlers pool rules)
      (ofCode method code handlers pool rules.lenient) := by
  refine (Refines.refl _).bind fun insns => (Refines.refl _).bind fun initial => ?_
  exact refines_ite (.refl _) (refines_solve ..)

end FrameAnalysis

/-! ## Writing -/

/-- A body whose frames are kept is written with the maxima of its lenient analysis. -/
theorem Body.assembleFrames_of_kept
    {context : WriteContext}
    {method : MethodContext}
    {labels : PlacedLabels}
    {code : Bytes}
    {handlers : List HandlerRange}
    {body : Body}
    {pool : Pool}
    {analysis : FrameAnalysis}
    {frames : List StackMap.Frame}
    (asked : (context.options.computeFrames || context.options.computeMaxima) = true)
    (keeps : body.needsFrames context = false)
    (relocated : relocateFrames labels [] none body.frames = .ok frames)
    (found :
      FrameAnalysis.ofCode method code handlers pool ⟨context.hierarchy, ∅, false⟩ = .ok analysis) :
    body.assembleFrames context method labels code handlers pool =
      .ok ((analysis.maxStack, analysis.maxLocals, frames), pool) := by
  rw [assembleFrames_of_keeping asked keeps]
  refine Writing.bind_eq_ok_iff.mpr ⟨pool, pool, rfl, ?_⟩
  refine Writing.lift_bind_eq_ok_iff.mpr ⟨analysis, found, ?_⟩
  exact Writing.lift_bind_eq_ok_iff.mpr ⟨frames, relocated, rfl⟩

/--
An analysis that gives frames comes to the same maxima, the same states and the
same offsets as one that gives none.  A body that can be given frames is therefore
written with the same maxima when the frames that it has are kept instead.
-/
theorem FrameAnalysis.maxima_of_framed
    {method : MethodContext}
    {code : Bytes}
    {handlers : List HandlerRange}
    {pool : Pool}
    {hierarchy : Hierarchy}
    {declared : Std.TreeMap UInt16 FrameState}
    {analysis : FrameAnalysis}
    (framed : ofCode method code handlers pool ⟨hierarchy, declared, true⟩ = .ok analysis) :
    ofCode method code handlers pool ⟨hierarchy, declared, false⟩ = .ok analysis ∧
      (declared = ∅ →
        ∀ (context : WriteContext) (labels : PlacedLabels) (body : Body) frames,
          context.hierarchy = hierarchy →
            (context.options.computeFrames || context.options.computeMaxima) = true →
              body.needsFrames context = false →
                Body.relocateFrames labels [] none body.frames = .ok frames →
                  body.assembleFrames context method labels code handlers pool =
                    .ok ((analysis.maxStack, analysis.maxLocals, frames), pool)) := by
  have lenient := (refines_ofCode method code handlers pool ⟨hierarchy, declared, true⟩).kept _ framed
  refine ⟨lenient, ?_⟩
  rintro rfl context labels body frames rfl asked keeps relocated
  exact Body.assembleFrames_of_kept asked keeps relocated lenient

/-- A loop has the same maxima with frames and without. -/
theorem FrameAnalysis.maxima_of_loop :
    ∃ analysis,
      ofCode ⟨"A", 0x0008, "m", "()V", 0⟩ [0x03, 0x99, 0xFF, 0xFF, 0xB1] [] ⟨#[], 0, ∅⟩
          ⟨[], ∅, true⟩ =
        .ok analysis ∧
        analysis.maxStack = 1 ∧
          ofCode ⟨"A", 0x0008, "m", "()V", 0⟩ [0x03, 0x99, 0xFF, 0xFF, 0xB1] [] ⟨#[], 0, ∅⟩
              ⟨[], ∅, false⟩ =
            .ok analysis := by
  have outcome :
      ((ofCode ⟨"A", 0x0008, "m", "()V", 0⟩ [0x03, 0x99, 0xFF, 0xFF, 0xB1] [] ⟨#[], 0, ∅⟩
        ⟨[], ∅, true⟩).map (·.maxStack)).toOption = some 1 := by
    decide +kernel
  cases framed :
      ofCode ⟨"A", 0x0008, "m", "()V", 0⟩ [0x03, 0x99, 0xFF, 0xFF, 0xB1] [] ⟨#[], 0, ∅⟩
        ⟨[], ∅, true⟩ with
  | error => simp [framed, Except.map, Except.toOption] at outcome
  | ok analysis =>
      simp only [framed, Except.map, Except.toOption, Option.some.injEq] at outcome
      exact ⟨analysis, rfl, outcome, (maxima_of_framed framed).1⟩

end JvmClass
