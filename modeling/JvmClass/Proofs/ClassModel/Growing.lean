import JvmClass.ClassModel.Write
import JvmClass.Proofs.Body.Layout
import JvmClass.Proofs.Pool.Growing
import JvmClass.Proofs.Writing

namespace JvmClass

/-!
# Writing a class adds to its pool

Every step of writing a class only appends to the pool that the step before it
has left, so whatever a class was read with keeps its number.
-/

namespace Writing

variable {α β : Type}

/-- Writing that leads from every pool on which it succeeds to what it makes of it. -/
def Growing (action : Writing α) : Prop :=
  ∀ pool value after, action pool = .ok (value, after) → pool.LeadsTo after

theorem growing_pure (value : α) : Growing (pure value : Writing α) := by
  intro pool result after written
  obtain ⟨rfl, rfl⟩ := pure_eq_ok_iff.mp written
  exact .refl _

theorem growing_intern
    {action : StateM Pool α}
    (growing : Pool.Growing action) :
    Growing (intern action) := by
  intro pool value after written
  obtain ⟨rfl, rfl⟩ := Prod.mk.inj (Except.ok.inj written)
  exact growing pool

theorem growing_lift (step : Except WriteError α) : Growing (liftM step : Writing α) := by
  intro pool value after written
  obtain ⟨_, _, same⟩ := JvmClass.bind_eq_ok_iff.mp written
  cases same
  exact .refl _

theorem growing_get : Growing (get : Writing Pool) := by
  intro pool value after written
  cases written
  exact .refl _

theorem Growing.bind
    {first : Writing α}
    {second : α → Writing β}
    (firstGrowing : Growing first)
    (secondGrowing : ∀ value, Growing (second value)) :
    Growing (first >>= second) := by
  intro pool value after written
  obtain ⟨_, _, firstWritten, secondWritten⟩ := bind_eq_ok_iff.mp written
  exact (firstGrowing _ _ _ firstWritten).trans (secondGrowing _ _ _ _ secondWritten)

theorem growing_mapM
    {items : List α}
    {each : α → Writing β}
    (growing : ∀ item, Growing (each item)) :
    Growing (items.mapM each) := by
  induction items with
  | nil => exact growing_pure []
  | cons item items inductionHypothesis =>
      rw [List.mapM_cons]
      exact (growing item).bind fun first => inductionHypothesis.bind fun rest => growing_pure _

/-- Each step of a row starts from a pool that the first one leads to, and leads on to the last. -/
theorem rows_of_mapM
    {step : α → Writing β}
    {items : List α}
    {results : List β}
    {pool after : Pool}
    (growing : ∀ item, Growing (step item))
    (written : items.mapM step pool = .ok (results, after)) :
    List.Forall₂
      (fun item result =>
        ∃ before next,
          pool.LeadsTo before ∧ step item before = .ok (result, next) ∧ next.LeadsTo after)
      items results := by
  induction items generalizing pool results with
  | nil =>
      obtain ⟨rfl, rfl⟩ := pure_eq_ok_iff.mp written
      exact .nil
  | cons item items inductionHypothesis =>
      rw [List.mapM_cons] at written
      obtain ⟨result, middle, stepped, others⟩ := bind_eq_ok_iff.mp written
      obtain ⟨later, _, restWritten, same⟩ := bind_eq_ok_iff.mp others
      obtain ⟨rfl, rfl⟩ := pure_eq_ok_iff.mp same
      refine .cons ⟨pool, middle, .refl _, stepped, growing_mapM growing _ _ _ restWritten⟩ ?_
      refine (inductionHypothesis restWritten).imp ?_
      rintro _ _ ⟨before, next, reached, itemStepped, leads⟩
      exact ⟨before, next, (growing item _ _ _ stepped).trans reached, itemStepped, leads⟩

theorem growing_table16
    {encode : α → Writing Bytes}
    (growing : ∀ element, Growing (encode element))
    (elements : List α) :
    Growing (table16 encode elements) :=
  (growing_mapM growing).bind fun _ => growing_pure _

theorem growing_text (value : String) : Growing (text value) :=
  (growing_intern (Pool.growing_internText value)).bind fun _ => growing_pure _

theorem growing_className (name : String) : Growing (className name) :=
  (growing_intern (Pool.growing_internClass name)).bind fun _ => growing_pure _

theorem growing_classOrNone (name : Option String) : Growing (classOrNone name) := by
  cases name with
  | none => exact growing_pure _
  | some name => exact growing_className name

theorem growing_attributes (items : List Attribute) : Growing (attributes items) :=
  growing_intern (Attribute.growing_encodeTable items)

end Writing

open Writing

theorem Field.growing_encode (field : Field) : Growing field.encode :=
  (growing_text _).bind fun _ => (growing_text _).bind fun _ =>
    (growing_attributes _).bind fun _ => growing_pure _

/-! ## Bodies -/

theorem LaidOut.growing_ofNodes
    (nodes : List Node) :
    Growing (ofNodes nodes) := by
  intro pool laidOut after laid
  obtain ⟨_, _, _, _, _, _, _, advances⟩ := lays_of_foldlM laid (Nat.zero_le _)
  exact ⟨extends_foldlM laid, advances⟩

namespace Body

theorem growing_assembleHandler
    (labels : PlacedLabels)
    (handler : Handler) :
    Growing (assembleHandler labels handler) := by
  refine (growing_lift _).bind fun start => (growing_lift _).bind fun stop =>
    (growing_lift _).bind fun target => ?_
  split
  · exact growing_pure _
  · cases handler.catchType with
    | none => exact growing_pure _
    | some name =>
        exact (growing_intern (Pool.growing_internClass name)).bind fun _ => growing_pure _

theorem growing_assembleLocal
    (labels : PlacedLabels)
    (entry : LocalVariable) :
    Growing (assembleLocal labels entry) :=
  (growing_lift _).bind fun _ => (growing_lift _).bind fun _ =>
    (growing_intern (Pool.growing_internText _)).bind fun _ =>
      (growing_intern (Pool.growing_internText _)).bind fun _ => growing_pure _

theorem growing_analysedFrames
    {context : WriteContext}
    {method : MethodContext}
    {labels : PlacedLabels}
    {code : Bytes}
    {ranges : List HandlerRange}
    {body : Body}
    {pool : Pool}
    {emitFrames : Bool}
    {declared : Std.TreeMap UInt16 FrameState} :
    Growing (analysedFrames context method labels code ranges body pool emitFrames declared) := by
  refine (growing_lift _).bind fun analysis => ?_
  split
  · exact (growing_intern analysis.growing_stackMapTable).bind fun _ => growing_pure _
  · exact (growing_lift _).bind fun _ => growing_pure _

theorem growing_assembleFrames
    (context : WriteContext)
    (method : MethodContext)
    (labels : PlacedLabels)
    (code : Bytes)
    (ranges : List HandlerRange)
    (body : Body) :
    Growing (assembleFrames context method labels code ranges body) := by
  cases asked : context.options.computeFrames || context.options.computeMaxima with
  | false =>
      rw [assembleFrames_of_nothing asked]
      exact (growing_lift _).bind fun _ => growing_pure _
  | true =>
      cases needs : body.needsFrames context with
      | false =>
          rw [assembleFrames_of_keeping asked needs]
          exact growing_get.bind fun pool => growing_analysedFrames
      | true =>
          rw [assembleFrames_of_needing needs]
          exact growing_get.bind fun pool => (growing_lift _).bind fun _ => growing_analysedFrames

theorem growing_assemble
    (context : WriteContext)
    (access : UInt16)
    (name descriptor : String)
    (body : Body) :
    Growing (body.assemble context access name descriptor) :=
  (LaidOut.growing_ofNodes _).bind fun _ => (growing_lift _).bind fun _ =>
    (growing_mapM (growing_assembleHandler _)).bind fun _ =>
      (growing_assembleFrames _ _ _ _ _ _).bind fun _ => (growing_lift _).bind fun _ =>
        (growing_mapM (growing_assembleLocal _)).bind fun _ => growing_pure _

end Body

/-! ## Members and classes -/

namespace Method

theorem growing_encodeBody
    (context : WriteContext)
    (method : Method)
    (body : Body) :
    Growing (method.encodeBody context body) :=
  (body.growing_assemble _ _ _ _).bind fun assembled =>
    (growing_intern (Attribute.growing_encodeCode assembled)).bind fun _ =>
      (growing_intern (Pool.growing_internText _)).bind fun _ => growing_pure _

theorem growing_encode
    (context : WriteContext)
    (method : Method) :
    Growing (method.encode context) := by
  refine (growing_text _).bind fun name => (growing_text _).bind fun descriptor => ?_
  have attributes (frame : Bytes → Bytes) :=
    (growing_intern (Attribute.growing_encodeAll [] method.attributes)).bind fun attributes =>
      growing_pure (frame attributes)
  cases method.body with
  | none => exact attributes _
  | some body => exact (method.growing_encodeBody context body).bind fun _ => attributes _

end Method

theorem ClassModel.growing_encodeContent
    (model : ClassModel)
    (context : WriteContext) :
    Growing (model.encodeContent context) :=
  (growing_className _).bind fun _ => (growing_classOrNone _).bind fun _ =>
    (growing_table16 growing_className _).bind fun _ =>
      (growing_table16 Field.growing_encode _).bind fun _ =>
        (growing_table16 (Method.growing_encode context) _).bind fun _ =>
          (growing_attributes _).bind fun _ => growing_pure _

end JvmClass
