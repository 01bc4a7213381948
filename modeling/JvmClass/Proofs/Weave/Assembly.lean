import JvmClass.Proofs.Body.Spared
import JvmClass.Proofs.Weave.Closed
import JvmClass.Proofs.Weave.Renamed
import JvmClass.Proofs.Weave.Steered

namespace JvmClass

/-!
# Assembling expanded bodies

A checked body is expanded and the expanded body is assembled.  The analysis that
gives its frames goes by the frames that the body declared.  It meets no unrelated
classes if nothing that was inserted touches a local variable, or if all of it
agrees on one place behind the local variables of the body.
-/

open FrameState

/-- A body that comes of another one: it is expanded, and keeps the local variables. -/
structure Body.Expands
    (body : Body)
    (expansion : Expansion)
    (guards : List Handler)
    (output : Body) : Prop where
  regular : expansion.Regular
  expands : expansion.nodes = body.nodes
  nodes : output.nodes = expansion.tagged.map Prod.snd
  handlers : output.handlers = body.handlers ++ guards
  room : body.maxLocals.toNat ≤ output.maxLocals.toNat
  closed : Node.Closed output.nodes

/-- A body that comes of another one goes by the frames that were declared. -/
structure Body.ExpandsTo
    (body : Body)
    (expansion : Expansion)
    (guards : List Handler)
    (output : Body) : Prop
    extends body.Expands expansion guards output where
  hints :
    output.hints = if body.frames.isEmpty then none else some ⟨body.maxLocals, body.frames⟩

/-- A body that was expanded lies where what it was expanded to does. -/
theorem Body.Expands.laid
    {pool start grown : Pool}
    {code : CodeAttribute Attribute}
    {body output : Body}
    {decoded : Body.Decoded}
    {tables : Body.Tables}
    {expansion : Expansion}
    {guards : List Handler}
    {place : Label → Nat}
    {written : List (Nat × Insn)}
    {size : Nat}
    (expands : body.Expands expansion guards output)
    (decodes : Body.DecodesTo pool code body decoded tables)
    (short : code.code.length < 2 ^ 16)
    (layout : Layout (LaidOut.Finds start grown) output.nodes place written size) :
    expansion.Laid (LaidOut.Finds start grown) pool code body decoded tables place written size where
  decodes
  short
  regular := expands.regular
  nodes := expands.expands
  numbers _ _ finds := finds.1
  wellFormed := expands.nodes ▸ expands.closed.wellFormed
  layout := expands.nodes ▸ layout

/-- A body comes of itself. -/
theorem Body.expands_self
    {body : Body}
    (closed : Node.Closed body.nodes) :
    body.Expands body.unexpanded [] body where
  regular := body.regular_unexpanded
  expands := rfl
  nodes := body.map_snd_tagged_unexpanded.symm
  handlers := (List.append_nil _).symm
  room := Nat.le_refl _
  closed

/-- A body without frames comes of itself, and goes by none. -/
theorem Body.expandsTo_self
    {body : Body}
    (closed : Node.Closed body.nodes)
    (unframed : body.frames.isEmpty = true)
    (unhinted : body.hints = none) :
    body.ExpandsTo body.unexpanded [] body where
  toExpands := body.expands_self closed
  hints := by rw [unhinted, if_pos unframed]

/-- A woven body comes of the body that it was. -/
theorem Weaver.expandsTo_wovenBody
    {Memory : Type}
    {weaver : Weaver Memory}
    {memory : Memory}
    {body : Body}
    (straight : weaver.advice.Straight)
    (wellFormed : weaver.advice.WellFormed)
    (closed : Node.Closed body.nodes)
    (small : (weaver.enteredState memory body).slots.next < 2 ^ 16) :
    body.ExpandsTo (weaver.expansion memory body) (weaver.guards body)
      (weaver.wovenBody memory body) where
  regular := weaver.regular_expansion memory body straight
  expands := rfl
  nodes := nodes_wovenBody memory body straight
  handlers := rfl
  hints := rfl
  room := maxLocals_le_wovenBody small
  closed := closed_wovenBody memory straight wellFormed closed

/-- The handlers around a body cover all of it, and behind it stands only the throw of one. -/
structure Expansion.Guarded
    (expansion : Expansion)
    (guards : List Handler) : Prop where
  guards :
    ∀ guard ∈ guards,
      guard.catchType = none ∧
        Node.StandsAt guard.start (expansion.core.map Prod.snd) 0 ∧
        Node.StandsAt guard.stop (expansion.closing.map Prod.snd) 0 ∧
        Node.StandsAt guard.handler (expansion.closing.map Prod.snd) 0 ∧
        Flow.insns expansion.closing ≠ []
  closing :
    ∀ item ∈ Flow.insns expansion.closing,
      item.2 = .plain Opcode.throwReference ∧
        ∀ insn ∈ expansion.ahead item, insn.isQuiet = true

/-- A checked body that was expanded, and what it is written for. -/
structure Expanded where
  context : WriteContext
  access : UInt16
  name : String
  descriptor : String
  type : MethodType
  /-- The pool of the class that the body was read from. -/
  pool : Pool
  code : CodeAttribute Attribute
  body : Body
  decoded : Body.Decoded
  tables : Body.Tables
  expansion : Expansion
  /-- The handlers around the body. -/
  guards : List Handler
  output : Body

/-- How far an expanded body was assembled. -/
structure Assembly extends Expanded where
  /-- The pools before and behind laying out the instructions, and behind the handlers. -/
  start : Pool
  grown : Pool
  later : Pool
  laidOut : LaidOut
  bytes : Bytes
  rows : List (Option (HandlerEntry × HandlerRange))
  declared : Std.TreeMap UInt16 FrameState

namespace Assembly

section Definitions

variable (assembly : Assembly)

/-- The method that is analysed. -/
def method : MethodContext :=
  ⟨assembly.context.className, assembly.access, assembly.name, assembly.descriptor,
    assembly.output.maxLocals⟩

/-- The handlers that the analysis goes by. -/
def ranges : List HandlerRange :=
  (assembly.rows.filterMap id).map Prod.snd

def rules : TypeRules :=
  ⟨assembly.context.hierarchy, assembly.declared, true⟩

/-- The course of the analysis, which goes by the type of a value that is kept. -/
def course
    (written : List (Nat × Insn))
    (initial : FrameState)
    (keeps : Option SlotType) : Course where
  expansion := assembly.expansion
  pool := assembly.pool
  isStatic := Access.isStatic assembly.access
  type := assembly.type
  code := assembly.code
  decoded := assembly.decoded
  written
  context := ⟨assembly.method, assembly.later, true⟩
  rules := assembly.rules
  entry :=
    ⟨SlotType.padTo
        (FrameAnalysis.localsNeeded (max assembly.method.maxLocals.toNat initial.locals.length)
          written) initial.locals, []⟩
  keeps

/-- The expanded body is one of a checked body, and was assembled as it stands. -/
structure Sound : Prop where
  typed : MethodType.ofDescriptor assembly.descriptor = .ok assembly.type
  decodes :
    Body.DecodesTo assembly.pool assembly.code assembly.body assembly.decoded assembly.tables
  checked :
    Verify.Checked assembly.pool (Access.isStatic assembly.access) assembly.type assembly.code true
      assembly.decoded.insns
  expands : assembly.body.ExpandsTo assembly.expansion assembly.guards assembly.output
  settled : ∀ row ∈ assembly.tables.frames, row.2.IsSettled
  leads : assembly.pool.LeadsTo assembly.start
  prepared :
    Body.Prepared assembly.method assembly.output assembly.start assembly.grown assembly.later
      assembly.laidOut assembly.bytes assembly.rows assembly.declared

end Definitions

namespace Sound

variable {assembly : Assembly} (sound : assembly.Sound)
include sound

theorem maxLocals_eq : assembly.body.maxLocals = assembly.code.maxLocals :=
  congrArg Body.maxLocals sound.decodes.shape

theorem kept : Entry.Extends assembly.pool.entries assembly.later.entries := by
  have laid := LaidOut.growing_ofNodes _ _ _ _ sound.prepared.laid
  have handled := Writing.growing_mapM (Body.growing_assembleHandler _) _ _ _ sound.prepared.handled
  exact (sound.leads.trans (laid.trans handled)).kept

/-- The frames that the body declared are those that the analysis goes by. -/
theorem declares :
    Body.Declares assembly.laidOut.labels.place assembly.code.maxLocals.toNat assembly.body.frames
      assembly.declared := by
  have hinted := sound.prepared.hinted
  rw [sound.expands.hints] at hinted
  cases frames : assembly.body.frames with
  | nil =>
      rw [frames] at hinted
      simp only [List.isEmpty_nil, if_true] at hinted
      rw [hinted]
      exact Body.declares_empty _ _
  | cons frame rest =>
      rw [frames] at hinted
      simp only [List.isEmpty_cons, Bool.false_eq_true, if_false] at hinted
      have settled : ∀ placed ∈ frame :: rest, placed.frame.IsSettled := by
        rw [← frames, sound.decodes.shape]
        intro placed member
        obtain ⟨row, listed, rfl⟩ := List.mem_map.mp member
        exact sound.settled row listed
      rw [← sound.maxLocals_eq]
      exact Body.declares_of_hintedStates settled hinted

/-- The expanded body lies where it is decoded. -/
theorem exists_lies :
    ∃ written,
      Insn.decode assembly.bytes = .ok written ∧
        assembly.expansion.Lies (LaidOut.Finds assembly.start assembly.grown) assembly.pool
          (Access.isStatic assembly.access) assembly.type assembly.code assembly.body
          assembly.decoded assembly.tables assembly.laidOut.labels.place written
          assembly.bytes.length := by
  obtain ⟨written, layout, _, decoded⟩ :=
    LaidOut.exists_layout_of_link sound.expands.closed sound.prepared.laid sound.prepared.linked
  exact ⟨written, decoded, sound.expands.laid sound.decodes sound.checked.short layout,
    sound.checked⟩

/-- Each range of the analysis is that of a handler. -/
theorem exists_handler
    {range : HandlerRange}
    (member : range ∈ assembly.ranges) :
    ∃ handler ∈ assembly.body.handlers ++ assembly.guards,
      range.IsOf assembly.laidOut.labels.place handler := by
  obtain ⟨⟨entry, range⟩, kept, rfl⟩ := List.mem_map.mp member
  obtain ⟨row, listed, rfl⟩ := List.mem_filterMap.mp kept
  have handled :=
    Writing.rows_of_mapM (Body.growing_assembleHandler assembly.laidOut.labels)
      sound.prepared.handled
  obtain ⟨handler, among, before, next, _, assembled, _⟩ := exists_of_forall₂ handled listed
  refine ⟨handler, sound.expands.handlers ▸ among, ?_⟩
  exact (Body.isOf_of_assembleHandler assembled).1

/-- An analysis whose course is regular meets no unrelated classes. -/
theorem spares_ofCode
    (regular :
      ∀ written initial,
        assembly.expansion.Lies (LaidOut.Finds assembly.start assembly.grown) assembly.pool
            (Access.isStatic assembly.access) assembly.type assembly.code assembly.body
            assembly.decoded assembly.tables assembly.laidOut.labels.place written
            assembly.bytes.length →
          FrameState.initial assembly.method = .ok initial →
            ∃ keeps,
              (assembly.course written initial keeps).Regular
                (LaidOut.Finds assembly.start assembly.grown) assembly.body assembly.tables
                assembly.laidOut.labels.place assembly.bytes.length assembly.guards
                assembly.ranges) :
    Spares (fun _ => True)
      (FrameAnalysis.ofCode assembly.method assembly.bytes assembly.ranges assembly.later
        assembly.rules) := by
  refine FrameAnalysis.spares_ofCode fun insns initial decoded initialFound nonempty => ?_
  obtain ⟨written, writtenDecoded, lies⟩ := sound.exists_lies
  rw [decoded] at writtenDecoded
  cases writtenDecoded
  obtain ⟨keeps, regular⟩ := regular insns initial lies initialFound
  refine regular.spares_solve rfl rfl ?_ ?_ ?_
  · have decodes := Insn.decode_eq_ok_iff.mp decoded
    cases insns with
    | nil => exact absurd rfl nonempty
    | cons first rest =>
        rintro offset insn ⟨⟩
        exact decodes.offset_first
  · exact fun type member =>
      (SlotType.isFixed_of_isPlain (isPlain_of_initial initialFound type member)).2
  · show assembly.code.maxLocals.toNat ≤ assembly.output.maxLocals.toNat
    rw [← sound.maxLocals_eq]
    exact sound.expands.room

/-! ## Regular courses -/

variable
  {written : List (Nat × Insn)} {initial : FrameState} {keeps : Option SlotType}
  (lies :
    assembly.expansion.Lies (LaidOut.Finds assembly.start assembly.grown) assembly.pool
      (Access.isStatic assembly.access) assembly.type assembly.code assembly.body assembly.decoded
      assembly.tables assembly.laidOut.labels.place written assembly.bytes.length)
include lies

/-- The length of a course is that of the body. -/
theorem length_eq :
    (assembly.course written initial keeps).length =
      (Node.insns assembly.expansion.nodes).length := by
  rw [sound.expands.expands, lies.rawLayout.length_eq]
  rfl

/-- The course of an analysis is regular if what was inserted agrees on the place of a value. -/
theorem regular_course
    (guarded : assembly.expansion.Guarded assembly.guards)
    (enters : (assembly.course written initial keeps).Enters)
    (snippets :
      ∀ (index : Nat) (item : Origin × Insn),
        assembly.expansion.items[index]? = some item →
          (assembly.course written initial keeps).Snippet (assembly.expansion.ahead item))
    (known : ∀ type ∈ keeps, type.isUninitialized = false ∧ type ≠ .unmerged)
    (constructs :
      keeps.isSome = true →
        ∀ (index : Nat) (item : Origin × Insn) (state : FrameState) (count : Nat),
          Verify.Visited assembly.pool (Access.isStatic assembly.access) assembly.type assembly.code
              assembly.decoded.insns index →
            assembly.expansion.items[index]? = some item →
              (assembly.course written initial keeps).types
                  (assembly.expansion.start index + (assembly.expansion.ahead item).length) =
                  some state →
                Insn.Constructs assembly.later item.2 count →
                  ∃ receiver,
                    state.stack[count]? = some receiver ∧ receiver.isUninitialized = true) :
    (assembly.course written initial keeps).Regular
      (LaidOut.Finds assembly.start assembly.grown) assembly.body assembly.tables
      assembly.laidOut.labels.place assembly.bytes.length assembly.guards assembly.ranges where
  lies := lies
  declared _ _ found := lies.fixes_of_declaredAt sound.declares found
  anchored _ _ _ placed anchored := lies.exists_declaredAt sound.declares placed anchored
  ranges _ member := sound.exists_handler member
  guards := by
    intro guard member
    obtain ⟨caught, starts, stops, lands, nonempty⟩ := guarded.guards guard member
    have length := @length_eq _ sound _ initial keeps lies
    refine ⟨caught, Expansion.standsAt_of_core sound.expands.regular starts, ?_, ?_, ?_⟩
    · rw [length]
      exact Expansion.standsAt_closing sound.expands.regular stops
    · rw [length]
      exact Expansion.standsAt_closing sound.expands.regular lands
    · show _ < assembly.expansion.items.length
      rw [length, Expansion.items_eq sound.expands.regular, List.length_append, List.length_map]
      have := List.length_pos_iff.mpr nonempty
      omega
  closing := by
    intro index item behind listed
    have length := @length_eq _ sound _ initial keeps lies
    have listed : assembly.expansion.items[index]? = some item := listed
    rw [Expansion.items_eq sound.expands.regular,
      List.getElem?_append_right (by rw [List.length_map]; omega)] at listed
    obtain ⟨throws, quiet⟩ := guarded.closing item (List.mem_of_getElem? listed)
    rw [throws]
    exact ⟨rfl, rfl, rfl, quiet⟩
  enters
  snippets
  known
  constructs

/-- Where nothing that was inserted touches a local variable, the course is regular. -/
theorem regular_course_of_quiet
    (guarded : assembly.expansion.Guarded assembly.guards)
    (entry : ∀ insn ∈ assembly.expansion.entry, insn.isQuiet = true)
    (snippets : ∀ node, ∀ insn ∈ assembly.expansion.snippet node, insn.isQuiet = true) :
    (assembly.course written initial none).Regular
      (LaidOut.Finds assembly.start assembly.grown) assembly.body assembly.tables
      assembly.laidOut.labels.place assembly.bytes.length assembly.guards assembly.ranges :=
  sound.regular_course lies guarded
    ⟨nofun, fun _ insn listed => .inl ⟨entry insn (List.mem_of_getElem? listed), .inr rfl⟩⟩
    (fun _ _ _ => ⟨fun _ insn listed => .inl (snippets _ insn (List.mem_of_getElem? listed))⟩)
    nofun nofun

end Sound

end Assembly

end JvmClass
