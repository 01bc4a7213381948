import JvmClass.Proofs.Body.Spared
import JvmClass.Proofs.ClassModel.Written

namespace JvmClass

/-!
# Writing classes without meeting unrelated classes

Writing a class fails because of frames only where assembling one of its bodies
does, from whatever the pool has grown to by then.  So it meets no unrelated
classes if assembling none of its bodies does.
-/

namespace Writing

variable {α β : Type} {pool : Pool} {allowed : UInt16 → FrameConflict → Prop}

/-- Writing over whatever a pool has grown to fails because of frames only where this is allowed. -/
def SparedBehind
    (allowed : UInt16 → FrameConflict → Prop)
    (action : Writing α)
    (pool : Pool) : Prop :=
  ∀ before, pool.LeadsTo before → Spared allowed action before

theorem sparedBehind_pure (value : α) : SparedBehind allowed (pure value) pool :=
  fun _ _ => spared_pure value

theorem sparedBehind_intern (action : StateM Pool α) : SparedBehind allowed (intern action) pool :=
  fun _ _ => spared_intern action

theorem SparedBehind.bind
    {first : Writing α}
    {second : α → Writing β}
    (spared : SparedBehind allowed first pool)
    (growing : Growing first)
    (later : ∀ value, SparedBehind allowed (second value) pool) :
    SparedBehind allowed (first >>= second) pool :=
  fun before leads => (spared before leads).bind fun value middle found =>
    later value middle (leads.trans (growing before value middle found))

theorem sparedBehind_table16
    {encode : α → Writing Bytes}
    {elements : List α}
    (growing : ∀ element, Growing (encode element))
    (spared : ∀ element ∈ elements, SparedBehind allowed (encode element) pool) :
    SparedBehind allowed (table16 encode elements) pool := by
  refine SparedBehind.bind (fun before leads => ?_) (growing_mapM growing)
    fun _ => sparedBehind_pure _
  exact spared_mapM growing fun element member later leadsLater =>
    spared element member later (leads.trans leadsLater)

theorem sparedBehind_text (value : String) : SparedBehind allowed (text value) pool :=
  (sparedBehind_intern _).bind (growing_intern (Pool.growing_internText value))
    fun _ => sparedBehind_pure _

theorem sparedBehind_className (name : String) : SparedBehind allowed (className name) pool :=
  (sparedBehind_intern _).bind (growing_intern (Pool.growing_internClass name))
    fun _ => sparedBehind_pure _

theorem sparedBehind_classOrNone (name : Option String) : SparedBehind allowed (classOrNone name) pool := by
  cases name with
  | none => exact sparedBehind_pure _
  | some name => exact sparedBehind_className name

end Writing

open Writing

variable {pool : Pool} {context : WriteContext} {allowed : UInt16 → FrameConflict → Prop}

theorem Field.sparedBehind_encode (field : Field) : SparedBehind allowed field.encode pool :=
  (sparedBehind_text _).bind (growing_text _) fun _ =>
    (sparedBehind_text _).bind (growing_text _) fun _ =>
      (sparedBehind_intern _).bind (growing_attributes _) fun _ => sparedBehind_pure _

/-- Assembling the body of a method fails because of frames only where this is allowed. -/
def Method.SparesBody
    (allowed : UInt16 → FrameConflict → Prop)
    (method : Method)
    (context : WriteContext)
    (pool : Pool) : Prop :=
  ∀ body,
    method.body = some body →
      SparedBehind allowed (body.assemble context method.access method.name method.descriptor) pool

theorem Method.sparedBehind_encode
    {method : Method}
    (spares : method.SparesBody allowed context pool) :
    SparedBehind allowed (method.encode context) pool := by
  refine (sparedBehind_text _).bind (growing_text _) fun name => ?_
  refine (sparedBehind_text _).bind (growing_text _) fun descriptor => ?_
  have attributes (frame : Bytes → Bytes) :
      SparedBehind allowed (intern (Attribute.encodeAll [] method.attributes) >>= fun attributes =>
        pure (frame attributes)) pool :=
    (sparedBehind_intern _).bind (growing_intern (Attribute.growing_encodeAll _ _))
      fun _ => sparedBehind_pure _
  cases held : method.body with
  | none => exact attributes _
  | some body =>
      refine SparedBehind.bind ?_ (method.growing_encodeBody context body) fun _ => attributes _
      refine (spares body held).bind (body.growing_assemble _ _ _ _) fun assembled => ?_
      refine (sparedBehind_intern _).bind
        (growing_intern (Attribute.growing_encodeCode assembled)) fun _ => ?_
      exact (sparedBehind_intern _).bind (growing_intern (Pool.growing_internText _))
        fun _ => sparedBehind_pure _

theorem Pool.unframed_encode (pool : Pool) : Unframed pool.encode := by
  unfold encode
  split
  · refine (unframed_mapM fun entry _ => ?_).bind fun _ => unframed_ok _
    cases entry with
    | utf8 text =>
        simp only [Entry.encode]
        split <;> exact fun _ _ failed => nomatch failed
    | member kind => cases kind <;> exact fun _ _ failed => nomatch failed
    | _ => exact fun _ _ failed => nomatch failed
  · exact fun _ _ failed => nomatch failed

/-- Writing a class fails because of frames only where assembling one of its bodies does. -/
theorem ClassModel.spared_writeWith
    {model : ClassModel}
    {options : WriteOptions}
    {hierarchy : Hierarchy}
    {offset : UInt16}
    {conflict : FrameConflict}
    (spares :
      ∀ method ∈ model.methods,
        method.SparesBody allowed (model.writeContext options hierarchy) model.pool)
    (failed : model.writeWith options hierarchy = .error (.inconsistentFrame offset conflict)) :
    allowed offset conflict := by
  have content :
      SparedBehind allowed (model.encodeContent (model.writeContext options hierarchy))
        model.pool := by
    refine (sparedBehind_className _).bind (growing_className _) fun _ => ?_
    refine (sparedBehind_classOrNone _).bind (growing_classOrNone _) fun _ => ?_
    refine (sparedBehind_table16 growing_className fun _ _ => sparedBehind_className _).bind
      (growing_table16 growing_className _) fun _ => ?_
    refine (sparedBehind_table16 Field.growing_encode fun _ _ => Field.sparedBehind_encode _).bind
      (growing_table16 Field.growing_encode _) fun _ => ?_
    refine (sparedBehind_table16 (Method.growing_encode _) fun method member =>
        Method.sparedBehind_encode (spares method member)).bind
      (growing_table16 (Method.growing_encode _) _) fun _ => ?_
    exact (sparedBehind_intern _).bind (growing_attributes _) fun _ => sparedBehind_pure _
  rcases bind_eq_error_iff.mp failed with here | ⟨⟨bytes, pool⟩, _, behind⟩
  · exact content model.pool (.refl _) offset conflict here
  · rcases bind_eq_error_iff.mp behind with here | ⟨_, _, last⟩
    · exact absurd here (pool.unframed_encode offset conflict)
    · cases last

/-- Writing a class meets no unrelated classes unless assembling one of its bodies does. -/
theorem ClassModel.spares_writeWith
    {model : ClassModel}
    {options : WriteOptions}
    {hierarchy : Hierarchy}
    (spares :
      ∀ method ∈ model.methods,
        method.SparesBody OtherThanClasses (model.writeContext options hierarchy) model.pool) :
    Spares (fun _ => True) (model.writeWith options hierarchy) :=
  spares_iff.mpr fun _ _ => spared_writeWith spares

end JvmClass
