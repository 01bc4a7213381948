import JvmClass.Attribute.Writer
import JvmClass.Frame.Encode
import JvmClass.Proofs.Pool.Intern

namespace JvmClass

/-!
# Writing adds to the pool

Whatever writing interns, what stood in the pool before stays where it was.  As
long as there are numbers for all entries, a pool that holds together goes on to,
and one that was sound stays sound.
-/

namespace Pool

/-- The second pool holds what the first does, and holds together if its entries can be numbered. -/
structure LeadsTo
    (pool after : Pool) : Prop where
  kept : Entry.Extends pool.entries after.entries
  advances : pool.Coherent → after.size ≤ 2 ^ 16 → Advances pool after

theorem LeadsTo.refl (pool : Pool) : LeadsTo pool pool :=
  ⟨.refl _, fun coherent _ => .refl coherent⟩

theorem LeadsTo.trans
    {pool middle after : Pool}
    (first : LeadsTo pool middle)
    (second : LeadsTo middle after) :
    LeadsTo pool after := by
  refine ⟨first.kept.trans second.kept, fun coherent fits => ?_⟩
  have firstAdvances := first.advances coherent (Nat.le_trans second.kept.size_le fits)
  exact firstAdvances.trans (second.advances firstAdvances.coherent fits)

/-- A sound pool grows into every pool that it leads to. -/
theorem LeadsTo.grows
    {pool after : Pool}
    (leads : LeadsTo pool after)
    (sound : pool.Sound)
    (fits : after.size ≤ 2 ^ 16) :
    Grows pool after :=
  (leads.advances sound.coherent fits).grows sound

/-- An action that leads from every pool to what it makes of it. -/
def Growing {α : Type} (action : StateM Pool α) : Prop :=
  ∀ pool, LeadsTo pool (action pool).2

variable {α β : Type}

theorem growing_pure (value : α) : Growing (pure value : StateM Pool α) :=
  fun pool => .refl pool

theorem Growing.bind
    {first : StateM Pool α}
    {second : α → StateM Pool β}
    (firstGrowing : Growing first)
    (secondGrowing : ∀ value, Growing (second value)) :
    Growing (first >>= second) :=
  fun pool => (firstGrowing pool).trans (secondGrowing _ _)

theorem growing_mapM
    {items : List α}
    {each : α → StateM Pool β}
    (growing : ∀ item, Growing (each item)) :
    Growing (items.mapM each) := by
  induction items with
  | nil => exact growing_pure []
  | cons item items inductionHypothesis =>
      rw [List.mapM_cons]
      exact (growing item).bind fun first => inductionHypothesis.bind fun rest => growing_pure _

/-! ## Interning -/

theorem growing_internText (text : String) : Growing (internText text) :=
  fun pool =>
    ⟨extends_internText text pool, fun coherent fits => (advances_internText coherent rfl fits).1⟩

theorem growing_internClass (name : String) : Growing (internClass name) :=
  fun pool =>
    ⟨extends_internClass name pool, fun coherent fits => (advances_internClass coherent rfl fits).1⟩

end Pool

/-! ## Attributes -/

namespace Attribute

open Pool

mutual

theorem growing_encode : (item : Attribute) → Growing item.encode
  | .code ⟨_, _, _, _, attributes⟩ => by
      rw [encode]
      exact (growing_internText "Code").bind fun _ =>
        (growing_encodeAll [] attributes).bind fun _ => growing_pure _
  | .constantValue _ | .sourceFile _ | .signature _ | .exceptions _ | .lineNumberTable _
  | .localVariableTable _ | .stackMapTable _ | .deprecated | .synthetic | .innerClasses _
  | .enclosingMethod _ _ | .bootstrapMethods _ | .methodParameters _ | .unknown _ _ => by
      rw [encode]
      · exact (growing_internText _).bind fun _ => growing_pure _
      · exact nofun

theorem growing_encodeAll
    (done : List Bytes) :
    (items : List Attribute) → Growing (encodeAll done items)
  | [] => by
      rw [encodeAll]
      exact growing_pure _
  | first :: rest => by
      rw [encodeAll]
      exact (growing_encode first).bind fun bytes => growing_encodeAll (bytes :: done) rest

end

theorem growing_encodeTable (items : List Attribute) : Growing (encodeTable items) :=
  (growing_encodeAll [] items).bind fun _ => growing_pure _

theorem growing_encodeCode (body : CodeAttribute Attribute) : Growing (encodeCode body) :=
  (growing_encodeTable body.attributes).bind fun _ => growing_pure _

end Attribute

/-! ## Frames -/

theorem SlotType.growing_toTypeInfo (type : SlotType) : Pool.Growing type.toTypeInfo := by
  cases type with
  | object name => exact (Pool.growing_internClass name).bind fun _ => Pool.growing_pure _
  | _ => exact Pool.growing_pure _

theorem SlotType.growing_mapM_toTypeInfo (types : List SlotType) :
    Pool.Growing (types.mapM SlotType.toTypeInfo) :=
  Pool.growing_mapM growing_toTypeInfo

namespace FrameState

theorem growing_encodeFrame
    (delta : UInt16)
    (previous locals stack : List SlotType) :
    Pool.Growing (encodeFrame delta previous locals stack) := by
  have types := SlotType.growing_mapM_toTypeInfo
  unfold encodeFrame
  split
  · exact Pool.growing_pure _
  · exact (SlotType.growing_toTypeInfo _).bind fun _ => Pool.growing_pure _
  · split
    · exact (types _).bind fun _ => Pool.growing_pure _
    · split
      · exact Pool.growing_pure _
      · exact (types _).bind fun _ => (types _).bind fun _ => Pool.growing_pure _

theorem growing_encodeFrames
    (done : List StackMap.Frame)
    (previousOffset : Option UInt16)
    (previousLocals : List SlotType)
    (rows : List (UInt16 × FrameState)) :
    Pool.Growing (encodeFrames done previousOffset previousLocals rows) := by
  induction rows generalizing done previousOffset previousLocals with
  | nil => exact Pool.growing_pure _
  | cons row rows inductionHypothesis =>
      exact (growing_encodeFrame _ _ _ _).bind fun frame => inductionHypothesis _ _ _

end FrameState

theorem FrameAnalysis.growing_stackMapTable (analysis : FrameAnalysis) :
    Pool.Growing analysis.stackMapTable :=
  FrameState.growing_encodeFrames _ _ _ _

end JvmClass
