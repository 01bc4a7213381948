import JvmClass.Proofs.ClassModel.Growing
import JvmClass.Proofs.Frame.Locals

namespace JvmClass

/-!
# Assembling bodies without meeting unrelated classes

Of all the steps of assembling a body only the analysis of its types and the
relocation of its frames have to do with frames.  Only the analysis can fail for
want of a common superclass, and it can only if it is there to give frames.
-/

/-! ## Analyses that give no frames -/

namespace FrameAnalysis

variable
  {method : MethodContext} {code : Bytes} {handlers : List HandlerRange} {pool : Pool}
  {rules : TypeRules}

theorem spares_ofCode
    (solves :
      ∀ insns initial,
        Insn.decode code = .ok insns →
          FrameState.initial method = .ok initial →
            insns ≠ [] → Spares (fun _ => True) (solve method insns initial handlers pool rules)) :
    Spares (fun _ => True) (ofCode method code handlers pool rules) := by
  refine (spares_mapError WriteError.isOfClasses_ofRead).bind fun insns decoded => ?_
  refine (spares_mapError WriteError.isOfClasses_ofDescriptor).bind fun initial found => ?_
  split
  · trivial
  · rename_i nonempty
    exact solves insns initial decoded found (by simpa using nonempty)

/-- An analysis that gives no frames meets no unrelated classes. -/
theorem spares_ofCode_of_silent (silent : rules.emitFrames = false) :
    Spares (fun _ => True) (ofCode method code handlers pool rules) := by
  refine spares_ofCode fun insns initial decoded _ nonempty => ?_
  refine Spares.imp (@spares_solve _ _ _ _ _ _ (fun _ _ => True) (fun _ _ => True)
    (fun _ _ => True) ?_ nonempty ?_ (fun _ _ _ => trivial) trivial) fun _ _ => trivial
  · have decodes := Insn.decode_eq_ok_iff.mp decoded
    cases insns with
    | nil => exact absurd rfl nonempty
    | cons first rest =>
        rintro offset insn ⟨⟩
        exact congrArg UInt16.ofNat decodes.offset_first
  · refine ⟨fun _ _ _ => FrameState.spares_absorb (by simp [TypeRules.Resolves, silent]), fun _ _ _ => ?_⟩
    refine Spares.imp (Insn.spares_step fun emits => ?_) fun _ _ => ?_
    · simp only [silent, Bool.false_eq_true] at emits
    · exact ⟨fun _ _ => trivial, fun _ _ _ _ _ => ⟨trivial, trivial⟩⟩

end FrameAnalysis

/-! ## Steps without frames -/

/-- A step that fails does not fail because of frames. -/
def Unframed {α : Type} (step : Except WriteError α) : Prop :=
  ∀ offset conflict, step ≠ .error (.inconsistentFrame offset conflict)

section Unframed

variable {α β : Type} {step : Except WriteError α}

theorem unframed_iff :
    Unframed step ↔
      FailsOnly (fun error => ∀ offset conflict, error ≠ .inconsistentFrame offset conflict) step :=
  ⟨fun unframed _ failed offset conflict same => unframed offset conflict (same ▸ failed),
    fun only offset conflict failed => only _ failed offset conflict rfl⟩

theorem unframed_ok (value : α) : Unframed (.ok value) :=
  fun _ _ failed => nomatch failed

theorem Unframed.bind
    {next : α → Except WriteError β}
    (unframed : Unframed step)
    (later : ∀ value, Unframed (next value)) :
    Unframed (step >>= next) :=
  unframed_iff.mpr ((unframed_iff.mp unframed).bind fun value => unframed_iff.mp (later value))

theorem unframed_mapM
    {items : List α}
    {each : α → Except WriteError β}
    (unframed : ∀ item ∈ items, Unframed (each item)) :
    Unframed (items.mapM each) :=
  unframed_iff.mpr (failsOnly_mapM fun item member => unframed_iff.mp (unframed item member))

/-- Unrelated classes are a matter of frames. -/
theorem spares_iff :
    Spares (fun _ => True) step ↔
      ∀ offset conflict,
        step = .error (.inconsistentFrame offset conflict) → conflict.isOfClasses = false := by
  constructor
  · rintro spares offset conflict rfl
    exact spares
  · intro excluded
    cases step with
    | ok value => trivial
    | error error =>
        cases error with
        | inconsistentFrame offset conflict => exact excluded offset conflict rfl
        | _ => exact rfl

theorem Unframed.spares (unframed : Unframed step) : Spares (fun _ => True) step :=
  spares_iff.mpr fun offset conflict failed => absurd failed (unframed offset conflict)

end Unframed

/-! ## Writing -/

namespace Writing

variable {α β : Type} {pool : Pool} {allowed : UInt16 → FrameConflict → Prop}

/-- Writing over a pool fails because of frames only where this is allowed. -/
def Spared
    (allowed : UInt16 → FrameConflict → Prop)
    (action : Writing α)
    (pool : Pool) : Prop :=
  ∀ offset conflict, action pool = .error (.inconsistentFrame offset conflict) → allowed offset conflict

theorem spared_pure (value : α) : Spared allowed (pure value) pool :=
  fun _ _ failed => nomatch failed

theorem spared_get : Spared allowed (get : Writing Pool) pool :=
  fun _ _ failed => nomatch failed

theorem spared_intern (action : StateM Pool α) : Spared allowed (intern action) pool :=
  fun _ _ failed => nomatch failed

theorem spared_lift
    {step : Except WriteError α}
    (spares :
      ∀ offset conflict,
        step = .error (.inconsistentFrame offset conflict) → allowed offset conflict) :
    Spared allowed (liftM step) pool := by
  intro offset conflict failed
  rcases JvmClass.bind_eq_error_iff.mp failed with here | ⟨_, _, behind⟩
  · exact spares offset conflict here
  · cases behind

theorem spared_lift_of_unframed
    {step : Except WriteError α}
    (unframed : Unframed step) :
    Spared allowed (liftM step) pool :=
  spared_lift fun offset conflict failed => absurd failed (unframed offset conflict)

theorem Spared.bind
    {first : Writing α}
    {second : α → Writing β}
    (spared : Spared allowed first pool)
    (later :
      ∀ value middle, first pool = .ok (value, middle) → Spared allowed (second value) middle) :
    Spared allowed (first >>= second) pool := by
  intro offset conflict failed
  rcases JvmClass.bind_eq_error_iff.mp failed with here | ⟨⟨value, middle⟩, found, behind⟩
  · exact spared offset conflict here
  · exact later value middle found offset conflict behind

/-- Unrelated classes are none of the causes. -/
def OtherThanClasses (_offset : UInt16) (conflict : FrameConflict) : Prop :=
  conflict.isOfClasses = false

/-- Each step of a row starts from a pool that the first one leads to. -/
theorem spared_mapM
    {step : α → Writing β}
    {items : List α}
    (growing : ∀ item, Growing (step item))
    (spared :
      ∀ item ∈ items, ∀ before, pool.LeadsTo before → Spared allowed (step item) before) :
    Spared allowed (items.mapM step) pool := by
  induction items generalizing pool with
  | nil => exact spared_pure _
  | cons item items inductionHypothesis =>
      rw [List.mapM_cons]
      refine (spared item (by simp) pool (.refl _)).bind fun first middle found => ?_
      refine Spared.bind ?_ fun _ _ _ => spared_pure _
      exact inductionHypothesis fun other member before leads =>
        spared other (List.mem_cons_of_mem _ member) before
          ((growing item _ _ _ found).trans leads)

end Writing

open Writing

variable {allowed : UInt16 → FrameConflict → Prop}

/-! ## Bodies -/

theorem PlacedLabels.unframed_offset
    (labels : PlacedLabels)
    (label : Label) :
    Unframed (labels.offset label) := by
  unfold offset
  split <;> exact fun _ _ failed => nomatch failed

namespace LaidOut

theorem spared_ofNodes
    (nodes : List Node)
    (pool : Pool) :
    Spared allowed (ofNodes nodes) pool := by
  have folded (laidOut : LaidOut) : Spared allowed (nodes.foldlM add laidOut) pool := by
    induction nodes generalizing laidOut pool with
    | nil => exact spared_pure _
    | cons node nodes inductionHypothesis =>
        rw [List.foldlM_cons]
        refine Spared.bind ?_ fun middle grown _ => inductionHypothesis grown middle
        cases node with
        | label | line => exact spared_pure _
        | insn insn =>
            simp only [Spared, add]
            obtain ⟨cells, grown⟩ := insn.encode laidOut.size pool
            dsimp only
            split <;> rintro _ _ ⟨⟩
  exact folded empty

theorem unframed_link (laidOut : LaidOut) : Unframed laidOut.link := by
  refine (unframed_mapM fun cell _ => ?_).bind fun _ => unframed_ok _
  cases cell with
  | byte value => exact fun _ _ failed => nomatch failed
  | near origin target =>
      refine (laidOut.labels.unframed_offset target).bind fun offset => ?_
      by_cases near : -0x8000 ≤ (offset.toNat : Int) - origin ∧ (offset.toNat : Int) - origin < 0x8000
      · simp only [if_pos near]
        exact fun _ _ failed => nomatch failed
      · simp only [if_neg near]
        exact fun _ _ failed => nomatch failed
  | far origin target =>
      exact (laidOut.labels.unframed_offset target).bind fun _ => unframed_ok _

end LaidOut

namespace Body

theorem spared_assembleHandler
    (labels : PlacedLabels)
    (handler : Handler)
    (pool : Pool) :
    Spared allowed (assembleHandler labels handler) pool := by
  refine (spared_lift_of_unframed (labels.unframed_offset _)).bind fun start _ _ => ?_
  refine (spared_lift_of_unframed (labels.unframed_offset _)).bind fun stop _ _ => ?_
  refine (spared_lift_of_unframed (labels.unframed_offset _)).bind fun target _ _ => ?_
  split
  · exact spared_pure _
  · cases handler.catchType with
    | none => exact spared_pure _
    | some name => exact (spared_intern _).bind fun _ _ _ => spared_pure _

theorem spared_assembleLocal
    (labels : PlacedLabels)
    (entry : LocalVariable)
    (pool : Pool) :
    Spared allowed (assembleLocal labels entry) pool :=
  (spared_lift_of_unframed (labels.unframed_offset _)).bind fun _ _ _ =>
    (spared_lift_of_unframed (labels.unframed_offset _)).bind fun _ _ _ =>
      (spared_intern _).bind fun _ _ _ => (spared_intern _).bind fun _ _ _ => spared_pure _

/-- Frames are relocated unless they are out of order. -/
theorem eq_outOfOrder_of_relocateFrames
    {labels : PlacedLabels}
    {done : List StackMap.Frame}
    {previous : Option UInt16}
    {frames : List PlacedFrame}
    {offset : UInt16}
    {conflict : FrameConflict}
    (failed :
      relocateFrames labels done previous frames = .error (.inconsistentFrame offset conflict)) :
    conflict = .outOfOrder := by
  induction frames generalizing done previous with
  | nil => cases failed
  | cons frame frames inductionHypothesis =>
      rcases JvmClass.bind_eq_error_iff.mp failed with here | ⟨place, _, behind⟩
      · exact absurd here (labels.unframed_offset frame.label offset conflict)
      · split at behind
        · cases behind
          rfl
        · exact inductionHypothesis behind

theorem unframed_assembleLines
    (labels : PlacedLabels)
    (lines : List (UInt16 × Label)) :
    Unframed (assembleLines labels lines) :=
  unframed_mapM fun (_, label) _ => (labels.unframed_offset label).bind fun _ => unframed_ok _

theorem spares_ofTypeInfo
    (pool : Pool)
    (info : StackMap.TypeInfo) :
    Spares (fun _ => True) (SlotType.ofTypeInfo pool info) := by
  cases info with
  | object index =>
      simp only [SlotType.ofTypeInfo]
      split
      · trivial
      · exact rfl
  | _ => trivial

/-- Frames that cannot be expanded are no matter of unrelated classes. -/
theorem spares_hintedStates
    (labels : PlacedLabels)
    (method : MethodContext)
    (hints : FrameHints)
    (pool : Pool) :
    Spares (fun _ => True) (hintedStates labels method hints pool) := by
  have types (infos : List StackMap.TypeInfo) :
      Spares (fun _ => True) (infos.mapM (SlotType.ofTypeInfo pool)) :=
    spares_mapM fun info _ => spares_ofTypeInfo pool info
  refine (spares_mapM fun placed _ => ?_).bind fun frames _ => ?_
  · exact (labels.unframed_offset placed.label).spares.bind fun _ _ => trivial
  refine (spares_mapError WriteError.isOfClasses_ofDescriptor).bind fun initial _ => ?_
  generalize (∅ : Std.TreeMap UInt16 FrameState) = states
  generalize SlotType.compact initial.locals = previous
  induction frames generalizing states previous with
  | nil => trivial
  | cons row frames inductionHypothesis =>
      obtain ⟨offset, frame⟩ := row
      refine @Spares.bind _ _ (fun _ => True) _ _ _ ?_ fun (locals, stack) _ => ?_
      · cases frame with
        | same | sameExtended => trivial
        | oneStack _ value | oneStackExtended _ value =>
            exact (spares_ofTypeInfo pool value).bind fun _ _ => trivial
        | chop _ count =>
            simp only [FrameState.expandFrame]
            split
            · trivial
            · exact rfl
        | append _ added => exact (types added).bind fun _ _ => trivial
        | full _ locals stack =>
            exact (types locals).bind fun _ _ => (types stack).bind fun _ _ => trivial
      · refine @Spares.bind _ _ (fun _ => True) _ _ _ ?_ fun state _ =>
          inductionHypothesis (states.insert offset state) locals
        simp only [FrameState.ofCompact]
        split
        · exact rfl
        · trivial

variable
  {context : WriteContext} {method : MethodContext} {access : UInt16} {name descriptor : String}
  {body : Body} {pool : Pool}

/-- What the analysis of a body goes by once the body has been laid out. -/
structure Prepared
    (method : MethodContext)
    (body : Body)
    (pool grown later : Pool)
    (laidOut : LaidOut)
    (code : Bytes)
    (rows : List (Option (HandlerEntry × HandlerRange)))
    (declared : Std.TreeMap UInt16 FrameState) : Prop where
  laid : LaidOut.ofNodes body.nodes pool = .ok (laidOut, grown)
  linked : laidOut.link = .ok code
  handled : body.handlers.mapM (assembleHandler laidOut.labels) grown = .ok (rows, later)
  hinted :
    match body.hints with
    | some hints => hintedStates laidOut.labels method hints later = .ok declared
    | none => declared = ∅

/-- The maxima and the frames of a body are found without unrelated classes unless frames are needed. -/
theorem spared_assembleFrames
    {labels : PlacedLabels}
    {code : Bytes}
    {ranges : List HandlerRange}
    (analyses :
      body.needsFrames context = true →
        ∀ declared,
          (match body.hints with
            | some hints => hintedStates labels method hints pool = .ok declared
            | none => declared = ∅) →
            Spares (fun _ => True)
              (FrameAnalysis.ofCode method code ranges pool ⟨context.hierarchy, declared, true⟩)) :
    Spared OtherThanClasses (assembleFrames context method labels code ranges body) pool := by
  have relocated {pool : Pool} :
      Spared OtherThanClasses (liftM (relocateFrames labels [] none body.frames)) pool := by
    refine spared_lift fun offset conflict failed => ?_
    rw [eq_outOfOrder_of_relocateFrames failed]
    exact rfl
  have framed
      (emitFrames : Bool)
      (declared : Std.TreeMap UInt16 FrameState)
      (spares :
        Spares (fun _ => True)
          (FrameAnalysis.ofCode method code ranges pool
            ⟨context.hierarchy, declared, emitFrames⟩)) :
      Spared OtherThanClasses
        (analysedFrames context method labels code ranges body pool emitFrames declared) pool := by
    refine (spared_lift (spares_iff.mp spares)).bind fun analysis _ _ => ?_
    cases emitFrames with
    | true => exact (spared_intern _).bind fun _ _ _ => spared_pure _
    | false => exact relocated.bind fun _ _ _ => spared_pure _
  cases asked : context.options.computeFrames || context.options.computeMaxima with
  | false =>
      rw [assembleFrames_of_nothing asked]
      exact relocated.bind fun _ _ _ => spared_pure _
  | true =>
      cases needs : body.needsFrames context with
      | false =>
          rw [assembleFrames_of_keeping asked needs]
          refine spared_get.bind fun middle after got => ?_
          cases got
          exact framed false ∅ (FrameAnalysis.spares_ofCode_of_silent rfl)
      | true =>
          rw [assembleFrames_of_needing needs]
          refine spared_get.bind fun middle after got => ?_
          cases got
          cases hinted : body.hints with
          | none => exact framed true ∅ (analyses needs ∅ (by rw [hinted]))
          | some hints =>
              refine (spared_lift (spares_iff.mp (spares_hintedStates _ _ hints pool))).bind
                fun declared after lifted => ?_
              obtain ⟨_, found, same⟩ := JvmClass.bind_eq_ok_iff.mp lifted
              cases same
              exact framed true declared (analyses needs declared (by rwa [hinted]))

/-- Assembling a body fails because of frames where its maxima and its frames do. -/
theorem spared_assemble_of_frames
    (framed :
      ∀ grown later laidOut code rows,
        LaidOut.ofNodes body.nodes pool = .ok (laidOut, grown) →
          laidOut.link = .ok code →
            body.handlers.mapM (assembleHandler laidOut.labels) grown = .ok (rows, later) →
              Spared allowed
                (assembleFrames context
                  ⟨context.className, access, name, descriptor, body.maxLocals⟩ laidOut.labels code
                  ((rows.filterMap id).map Prod.snd) body) later) :
    Spared allowed (body.assemble context access name descriptor) pool := by
  refine (LaidOut.spared_ofNodes body.nodes pool).bind fun laidOut grown laid => ?_
  refine (spared_lift_of_unframed laidOut.unframed_link).bind fun code middle lifted => ?_
  obtain ⟨_, linked, same⟩ := JvmClass.bind_eq_ok_iff.mp lifted
  cases same
  refine Spared.bind ?_ fun rows later handled => ?_
  · exact spared_mapM (growing_assembleHandler laidOut.labels) fun handler _ before _ =>
      spared_assembleHandler laidOut.labels handler before
  refine (framed grown later laidOut code rows laid linked handled).bind fun maxima middle _ => ?_
  refine (spared_lift_of_unframed (unframed_assembleLines _ _)).bind fun _ _ _ => ?_
  refine Spared.bind ?_ fun _ _ _ => spared_pure _
  exact spared_mapM (growing_assembleLocal laidOut.labels) fun entry _ before _ =>
    spared_assembleLocal laidOut.labels entry before

/-- Assembling a body meets no unrelated classes unless the analysis for its frames does. -/
theorem spared_assemble
    (analyses :
      body.needsFrames context = true →
        ∀ grown later laidOut code rows declared,
          Prepared ⟨context.className, access, name, descriptor, body.maxLocals⟩ body pool grown
              later laidOut code rows declared →
            Spares (fun _ => True)
              (FrameAnalysis.ofCode ⟨context.className, access, name, descriptor, body.maxLocals⟩
                code ((rows.filterMap id).map Prod.snd) later
                ⟨context.hierarchy, declared, true⟩)) :
    Spared OtherThanClasses (body.assemble context access name descriptor) pool :=
  spared_assemble_of_frames fun grown later laidOut code rows laid linked handled =>
    spared_assembleFrames fun emits declared hinted =>
      analyses emits grown later laidOut code rows declared ⟨laid, linked, handled, hinted⟩

/-- A body that is written as it is fails because of frames only where they are out of order. -/
theorem spared_assemble_of_nothing
    (nothing : context.options = ⟨false, false⟩)
    (relocates :
      ∀ grown laidOut,
        LaidOut.ofNodes body.nodes pool = .ok (laidOut, grown) →
          ∀ offset conflict,
            relocateFrames laidOut.labels [] none body.frames =
                .error (.inconsistentFrame offset conflict) →
              allowed offset conflict) :
    Spared allowed (body.assemble context access name descriptor) pool := by
  refine spared_assemble_of_frames fun grown later laidOut code rows laid _ _ => ?_
  rw [assembleFrames_of_nothing (by rw [nothing]; rfl)]
  exact (spared_lift (relocates grown laidOut laid)).bind fun _ _ _ => spared_pure _

end Body
end JvmClass
