import JvmClass.Proofs.Body.Linked
import JvmClass.Proofs.Body.Reassembled
import JvmClass.Proofs.ClassModel.Growing
import JvmClass.Proofs.Verify.Declared

namespace JvmClass

/-!
# Bodies assembled as they are

A body for which nothing is computed is assembled to code that is decoded as its
instructions, with its own sizes and with rows where its labels have come to lie.
Whatever it names, the result can be read as long as its tables can be counted.
-/

/-- A range of the analysis is that of a handler. -/
structure HandlerRange.IsOf
    (place : Label → Nat)
    (handler : Handler)
    (range : HandlerRange) : Prop where
  start : range.start = UInt16.ofNat (place handler.start)
  stop : range.stop = UInt16.ofNat (place handler.stop)
  target : range.handler = UInt16.ofNat (place handler.handler)
  catchType : range.catchType = handler.catchType

/-- A row of an exception table is that of a handler. -/
def HandlerEntry.IsOf
    (place : Label → Nat)
    (handler : Handler)
    (row : HandlerEntry) : Prop :=
  HandlerRange.IsOf place handler ⟨row.start, row.stop, row.handler, handler.catchType⟩

namespace Body

/-! ## Handlers -/

/-- A handler that has a row is where its labels are, in the row and for the analysis. -/
theorem isOf_of_assembleHandler
    {labels : PlacedLabels}
    {handler : Handler}
    {entry : HandlerEntry}
    {range : HandlerRange}
    {pool after : Pool}
    (assembled : assembleHandler labels handler pool = .ok (some (entry, range), after)) :
    range.IsOf labels.place handler ∧ entry.IsOf labels.place handler := by
  obtain ⟨start, startPlaced, assembled⟩ := Writing.lift_bind_eq_ok_iff.mp assembled
  obtain ⟨stop, stopPlaced, assembled⟩ := Writing.lift_bind_eq_ok_iff.mp assembled
  obtain ⟨target, targetPlaced, assembled⟩ := Writing.lift_bind_eq_ok_iff.mp assembled
  have numbered {label : Label} {offset : UInt16} (placed : labels.offset label = .ok offset) :
      offset = UInt16.ofNat (labels.place label) := by
    rw [PlacedLabels.place_of_offset placed, UInt16.ofNat_toNat]
  have isOf : HandlerRange.IsOf labels.place handler ⟨start, stop, target, handler.catchType⟩ :=
    ⟨numbered startPlaced, numbered stopPlaced, numbered targetPlaced, rfl⟩
  split at assembled
  · cases (Writing.pure_eq_ok_iff.mp assembled).1
  · have same :
        ∃ number,
          (entry, range) =
            (⟨start, stop, target, number⟩, ⟨start, stop, target, handler.catchType⟩) := by
      cases caught : handler.catchType with
      | none =>
          rw [caught] at assembled
          exact ⟨_, Option.some.inj (Writing.pure_eq_ok_iff.mp assembled).1⟩
      | some name =>
          rw [caught] at assembled
          obtain ⟨_, _, _, ended⟩ := Writing.bind_eq_ok_iff.mp assembled
          exact ⟨_, Option.some.inj (Writing.pure_eq_ok_iff.mp ended).1⟩
    obtain ⟨_, same⟩ := same
    obtain ⟨rfl, rfl⟩ := Prod.mk.inj same
    exact ⟨isOf, isOf⟩

theorem FrameRows.spaced
    {labels : PlacedLabels}
    {base : Nat}
    {placed : List PlacedFrame}
    {frames : List StackMap.Frame}
    {offsets : List (Nat × StackMap.Frame)}
    (rows : FrameRows labels base placed frames offsets) :
    Spaced base frames offsets := by
  induction rows with
  | nil base => exact .nil base
  | @cons base first frame rest frames offsets _ behind _ inductionHypothesis =>
      rw [← behind] at inductionHypothesis ⊢
      exact .cons (behind ▸ (labels.getD first.label 0).toNat_lt) inductionHypothesis

theorem FrameRows.add_length_le
    {labels : PlacedLabels}
    {base bound : Nat}
    {placed : List PlacedFrame}
    {frames : List StackMap.Frame}
    {offsets : List (Nat × StackMap.Frame)}
    (rows : FrameRows labels base placed frames offsets)
    (inside : ∀ first ∈ placed, labels.place first.label < bound)
    (start : base ≤ bound) :
    base + placed.length ≤ bound := by
  induction rows with
  | nil base => exact start
  | cons _ behind _ inductionHypothesis =>
      rw [List.forall_mem_cons] at inside
      have later := inductionHypothesis inside.2 inside.1
      rw [List.length_cons]
      omega

/-! ## Assembled bodies -/

/-- A body was assembled as it is: to instructions at offsets, and to rows. -/
structure Assembled
    (body : Body)
    (start grown after : Pool)
    (labels : PlacedLabels)
    (written : List (Nat × Insn))
    (offsets : List (Nat × StackMap.Frame))
    (raw : CodeAttribute Attribute) : Prop where
  laid : start.LeadsTo grown
  leads : grown.LeadsTo after
  decoded : Insn.decode raw.code = .ok written
  layout : Layout (LaidOut.Finds start grown) body.nodes labels.place written raw.code.length
  packed : Insn.Packed written
  maxStack : raw.maxStack = body.maxStack
  maxLocals : raw.maxLocals = body.maxLocals
  rows : ∀ row ∈ raw.handlers, ∃ handler ∈ body.handlers, row.IsOf labels.place handler
  fewRows : raw.handlers.length ≤ body.handlers.length
  frames : FrameRows labels 0 body.frames (offsets.map Prod.snd) offsets
  attributes :
    ∃ lines locals,
      lines.length = (LaidOut.lineMarks body.nodes).length ∧
        locals.length = body.locals.length ∧
          raw.attributes =
            tableAttribute .lineNumberTable lines ++ tableAttribute .localVariableTable locals ++
              tableAttribute .stackMapTable (offsets.map Prod.snd) ++ body.attributes

/-- A closed body is assembled as it is if nothing is to be computed. -/
theorem exists_assembled
    {body : Body}
    {context : WriteContext}
    {access : UInt16}
    {name descriptor : String}
    {start after : Pool}
    {raw : CodeAttribute Attribute}
    (closed : Node.Closed body.nodes)
    (nothing : context.options = ⟨false, false⟩)
    (assembled : body.assemble context access name descriptor start = .ok (raw, after)) :
    ∃ grown labels written offsets,
      body.Assembled start grown after labels written offsets raw := by
  obtain ⟨⟨laidOut, grown, laid, linked, results, later, handled, handlers, _, _, framed, lines,
    lined, locals, localed, attributes⟩⟩ := nonempty_assembling assembled
  obtain ⟨_, _, _, _, _, linesShape, _⟩ := LaidOut.lays_of_foldlM laid (Nat.zero_le _)
  obtain ⟨written, layout, packed, decoded⟩ := LaidOut.exists_layout_of_link closed laid linked
  obtain ⟨relocated, maxStack, maxLocals, rfl⟩ := relocated_of_nothing nothing framed
  obtain ⟨_, offsets, rfl, frameRows⟩ := frameRows_of_relocateFrames relocated
  have lineRows := lineRows_of_assembleLines lined
  rw [show laidOut.lines.reverse = LaidOut.lineMarks body.nodes from linesShape] at lineRows
  have handlerRows := Writing.rows_of_mapM (growing_assembleHandler laidOut.labels) handled
  have localRows := Writing.rows_of_mapM (growing_assembleLocal laidOut.labels) localed
  have handlersGrow := Writing.growing_mapM (growing_assembleHandler laidOut.labels) _ _ _ handled
  have localsGrow := Writing.growing_mapM (growing_assembleLocal laidOut.labels) _ _ _ localed
  have sameFrames := frameRows.map_snd
  rw [← sameFrames] at frameRows
  refine ⟨grown, laidOut.labels, written, offsets, {
    laid := LaidOut.growing_ofNodes _ _ _ _ laid
    leads := handlersGrow.trans localsGrow
    decoded
    layout
    packed
    maxStack
    maxLocals
    rows := ?_
    fewRows := ?_
    frames := frameRows
    attributes := ?_ }⟩
  · intro row member
    rw [handlers] at member
    obtain ⟨⟨entry, range⟩, listed, rfl⟩ := List.mem_map.mp member
    obtain ⟨result, among, rfl⟩ := List.mem_filterMap.mp listed
    obtain ⟨handler, ofHandler, _, _, _, assembled, _⟩ := exists_of_forall₂ handlerRows among
    exact ⟨handler, ofHandler, (isOf_of_assembleHandler assembled).2⟩
  · rw [handlers, handlerRows.length_eq, List.length_map]
    exact List.length_filterMap_le _ _
  · refine ⟨lines, locals, lineRows.length_eq.symm, localRows.length_eq.symm, ?_⟩
    rw [sameFrames, attributes]

/-- A body can be read once it was assembled: it is not empty, and everything can be counted. -/
structure Writable
    (pool : Pool)
    (body : Body) : Prop where
  nonempty : Node.insns body.nodes ≠ []
  fewLines : (LaidOut.lineMarks body.nodes).length < 2 ^ 16
  fewLocals : body.locals.length < 2 ^ 16
  fewHandlers : body.handlers.length < 2 ^ 16
  fewAttributes : body.tableCount + body.attributes.length < 2 ^ 16
  /-- Frames stand in front of instructions. -/
  anchored :
    ∀ placed ∈ body.frames,
      ∃ position < (Node.insns body.nodes).length, Node.StandsAt placed.label body.nodes position
  shaped : ∀ placed ∈ body.frames, placed.frame.Shaped
  attributes : ∀ item ∈ body.attributes, item.Fits pool ∧ item.isTable = false
  linesKnown : LaidOut.lineMarks body.nodes ≠ [] → pool.Knows (.utf8 "LineNumberTable")
  localsKnown : body.locals ≠ [] → pool.Knows (.utf8 "LocalVariableTable")
  framesKnown : body.frames ≠ [] → pool.Knows (.utf8 "StackMapTable")

/-- A regular body whose rows can be counted can be read once it was assembled. -/
theorem Regular.writable
    {pool : Pool}
    {body : Body}
    {steps : List (Spot × Insn)}
    {last : Option Label}
    (regular : body.Regular pool steps last)
    (fewLines : (LaidOut.lineMarks body.nodes).length < 2 ^ 16)
    (fewLocals : body.locals.length < 2 ^ 16) :
    body.Writable pool where
  nonempty := by
    rw [regular.nodes, Node.insns_ofSteps, ne_eq, List.map_eq_nil_iff]
    exact regular.nonempty
  fewLines
  fewLocals
  fewHandlers := regular.fewHandlers
  fewAttributes := regular.fewAttributes
  anchored placed member := by
    obtain ⟨step, among, labelled⟩ := List.mem_filterMap.mp (regular.frames placed member).1
    obtain ⟨position, listed⟩ := List.mem_iff_getElem?.mp among
    refine ⟨position, ?_, ?_⟩
    · rw [regular.nodes, Node.insns_ofSteps, List.length_map]
      exact (List.getElem?_eq_some_iff.mp listed).1
    · rw [regular.nodes]
      exact Node.standsAt_ofSteps_iff.mpr (.inl ⟨step, listed, labelled⟩)
  shaped placed member := (regular.frames placed member).2
  attributes := regular.attributes
  linesKnown := regular.linesKnown
  localsKnown := regular.localsKnown
  framesKnown := regular.framesKnown

namespace Assembled

variable
  {body : Body} {start grown after pool : Pool} {labels : PlacedLabels}
  {written : List (Nat × Insn)} {offsets : List (Nat × StackMap.Frame)}
  {raw : CodeAttribute Attribute}
  (assembled : body.Assembled start grown after labels written offsets raw)
include assembled

theorem written_ne_nil (nonempty : Node.insns body.nodes ≠ []) : written ≠ [] := by
  intro none
  have length := assembled.layout.length_eq
  rw [none] at length
  exact nonempty (List.eq_nil_of_length_eq_zero length)

/-- No more frames stand in front of instructions than there are offsets. -/
theorem fewFrames (writable : body.Writable pool) : body.frames.length < 2 ^ 16 := by
  have layout := assembled.layout
  have inside (placed : PlacedFrame) (member : placed ∈ body.frames) :
      labels.place placed.label < raw.code.length := by
    obtain ⟨position, short, stands⟩ := writable.anchored placed member
    have last : (written.map Prod.fst ++ [raw.code.length])[written.length]? =
        some raw.code.length := by
      simp
    refine (layout.offset_lt_iff (layout.labels _ _ stands) last).mpr ?_
    rwa [← layout.length_eq]
  have few := assembled.frames.add_length_le inside (Nat.zero_le _)
  have short := layout.short
  omega

theorem headFits (writable : body.Writable pool) : Attribute.HeadFits raw where
  nonempty := by
    have some := assembled.written_ne_nil writable.nonempty
    have decoded := assembled.decoded
    rcases Nat.eq_zero_or_pos raw.code.length with none | positive
    · rw [List.eq_nil_of_length_eq_zero none] at decoded
      cases decoded
      exact absurd rfl some
    · exact positive
  short := Nat.le_of_lt_succ assembled.layout.short
  handlers := Nat.lt_of_le_of_lt assembled.fewRows writable.fewHandlers

theorem length_attributes (writable : body.Writable pool) : raw.attributes.length < 2 ^ 16 := by
  have few := writable.fewAttributes
  obtain ⟨lines, locals, linesLength, localsLength, attributes⟩ := assembled.attributes
  rw [attributes]
  simp only [List.length_append]
  rw [length_tableAttribute linesLength, length_tableAttribute localsLength,
    length_tableAttribute assembled.frames.exists_moved.1]
  exact few

theorem fits
    (writable : body.Writable pool)
    (item : Attribute)
    (member : item ∈ raw.attributes) :
    item.Fits pool := by
  obtain ⟨framesLength, moved⟩ := assembled.frames.exists_moved
  have known {α β : Type} {rows : List α} {sources : List β}
      (length : rows.length = sources.length)
      (some : rows ≠ []) :
      sources ≠ [] := by
    rintro rfl
    exact some (List.eq_nil_of_length_eq_zero length)
  obtain ⟨lines, locals, linesLength, localsLength, attributes⟩ := assembled.attributes
  rw [attributes, List.mem_append, List.mem_append, List.mem_append] at member
  rcases member with ((member | member) | member) | member
  · refine fits_of_mem_tableAttribute member fun some => ?_
    exact .leaf (writable.linesKnown (known linesLength some)) <| by
      show lines.length < 2 ^ 16
      rw [linesLength]
      exact writable.fewLines
  · refine fits_of_mem_tableAttribute member fun some => ?_
    exact .leaf (writable.localsKnown (known localsLength some)) <| by
      show locals.length < 2 ^ 16
      rw [localsLength]
      exact writable.fewLocals
  · refine fits_of_mem_tableAttribute member fun some => ?_
    refine .leaf (writable.framesKnown (known framesLength some)) ⟨?_, ?_⟩
    · rw [framesLength]
      exact assembled.fewFrames writable
    · intro frame listed
      obtain ⟨first, source, same⟩ := moved frame listed
      rw [same]
      exact writable.shaped first source frame.delta
  · exact (writable.attributes item member).1

/-- The frames of a body are declared where their labels have come to lie. -/
theorem mem_declaredOffsets
    {placed : PlacedFrame}
    (member : placed ∈ body.frames) :
    UInt16.ofNat (labels.place placed.label) ∈ Verify.declaredOffsets raw := by
  have declared := @Spaced.tableOffsets_eq 0 none _ _ assembled.frames.spaced rfl
  have listed :
      UInt16.ofNat (labels.place placed.label) ∈
        Verify.tableOffsets none (offsets.map Prod.snd) := by
    have among : labels.place placed.label ∈ offsets.map Prod.fst := by
      rw [assembled.frames.places_eq]
      exact List.mem_map_of_mem (List.mem_map_of_mem member)
    obtain ⟨row, here, same⟩ := List.mem_map.mp among
    rw [declared, ← same]
    exact List.mem_map_of_mem here
  obtain ⟨_, _, _, _, attributes⟩ := assembled.attributes
  rw [Verify.declaredOffsets, Std.TreeSet.mem_ofList, List.contains_iff_mem, attributes]
  refine List.mem_flatMap.mpr ⟨.stackMapTable (offsets.map Prod.snd), ?_, listed⟩
  have some : offsets ≠ [] := by
    rintro rfl
    cases listed
  simp [tableAttribute, some]

end Assembled

end Body
end JvmClass
