import JvmClass.Proofs.Weave.ControlFlow
import JvmClass.Timer

namespace JvmClass

/-!
# What runs on the way out of a woven body

A handler around a body makes every exit run its snippet once.  Telling exits by
their opcode does so too, except that the snippet also runs in front of a throw
that the body catches itself.
-/

/-! ## The advice of the timer -/

namespace Timer

theorem straight_changeField
    (field : Member)
    (clock : Clock)
    {combine : Opcode}
    (continues : combine.endsFlow = false) :
    (changeField field clock combine).Straight := by
  simp only [Snippet.Straight, changeField, Snippet.ofInsns, List.map_cons, List.map_nil,
    List.forall_mem_cons, Node.insn.injEq, exists_eq_left', List.not_mem_nil, false_imp_iff,
    implies_true, and_true]
  exact ⟨⟨rfl, rfl⟩, ⟨rfl, rfl⟩, ⟨rfl, continues⟩, rfl, rfl⟩

/-- Counting in a field goes straight on. -/
theorem straight_fieldCounter
    (field : Member)
    (clock : Clock) :
    (fieldCounter field clock).Straight :=
  ⟨fun _ _ => straight_changeField field clock (by decide),
    fun _ _ => straight_changeField field clock (by decide)⟩

/-- Keeping the time in a local variable goes straight on. -/
theorem straight_localScoped
    (field : Member)
    (clock : Clock) :
    (localScoped field clock).Straight := by
  have nothing (error : Option RunError) : Snippet.Straight ⟨[], error⟩ := by
    simp [Snippet.Straight]
  constructor
  · intro memory slots
    simp only [localScoped]
    rcases slots.allot 2 with ⟨_ | slot, behind⟩
    · exact nothing _
    · simp only [Snippet.Straight, Snippet.ofInsns, List.map_cons, List.map_nil,
        List.forall_mem_cons, Node.insn.injEq, exists_eq_left', List.not_mem_nil, false_imp_iff,
        implies_true, and_true]
      exact ⟨⟨rfl, rfl⟩, rfl, rfl⟩
  · intro memory opcode
    cases memory with
    | none => exact nothing none
    | some slot =>
        simp only [localScoped, addElapsed, Snippet.Straight, Snippet.ofInsns, List.map_cons,
          List.map_nil, List.forall_mem_cons, Node.insn.injEq, exists_eq_left', List.not_mem_nil,
          false_imp_iff, implies_true, and_true]
        exact ⟨⟨rfl, rfl⟩, ⟨rfl, rfl⟩, ⟨rfl, rfl⟩, ⟨rfl, rfl⟩, ⟨rfl, rfl⟩, rfl, rfl⟩

end Timer

/-! ## Woven bodies -/

namespace Weaver

variable {Memory : Type} (weaver : Weaver Memory)

/-- The instructions that run at the start of a body. -/
def entryInsns (memory : Memory) (body : Body) : List Insn :=
  Node.insns (weaver.advice.enter memory (weaver.begun memory body).slots).1.nodes

/-- The instructions that run in front of an exit of a body. -/
def exitInsns (memory : Memory) (body : Body) (opcode : Opcode) : List Insn :=
  Node.insns (weaver.advice.exit (weaver.enteredState memory body).memory opcode).nodes

/-- The instructions that are inserted in front of a node. -/
def inserted (memory : Memory) (body : Body) : Origin × Node → List Insn
  | (origin, .insn insn) =>
      if weaver.detection.isExit insn.opcode ∨ origin = .guard then
        weaver.exitInsns memory body insn.opcode
      else
        []
  | _ => []

/-- The label where the handler around a body begins. -/
def openingNodes (body : Body) : List (Origin × Node) :=
  match weaver.detection with
  | .explicit => []
  | .guarded => [(.guard, .label (guardAt body.nextLabel).start)]

/-- The nodes behind a body: the labels of the handler around it, and its throw. -/
def closingNodes (body : Body) : List (Origin × Node) :=
  match weaver.detection with
  | .explicit => []
  | .guarded =>
      [(.guard, .label (guardAt body.nextLabel).stop),
        (.guard, .label (guardAt body.nextLabel).handler),
        (.guard, .insn (.plain Opcode.throwReference))]

/-- The nodes of a woven body apart from the snippets. -/
def core (body : Body) : List (Origin × Node) :=
  weaver.openingNodes body ++ body.nodes.map (fun node => (.original, node)) ++
    weaver.closingNodes body

section Woven

variable {weaver} (memory : Memory) (body : Body)

/-- The nodes of a straight snippet are instructions of one origin. -/
theorem tagged_of_straight
    {snippet : Snippet}
    {origin : Origin}
    {part : WovenPart}
    (straight : snippet.Straight)
    (comes : part.origin = origin)
    (events : part.events = snippet.nodes.map .node) :
    part.tagged = (Node.insns snippet.nodes).map fun insn => (origin, .insn insn) := by
  have nodes : part.events.filterMap BodyEvent.node? = snippet.nodes := by
    simp [events, List.filterMap_map, Function.comp_def, BodyEvent.node?]
  rw [WovenPart.tagged, nodes, comes]
  conv_lhs => rw [straight.nodes_eq]
  simp

theorem tagged_entering
    (straight : weaver.advice.Straight) :
    (weaver.entering memory body).flatMap WovenPart.tagged =
      (weaver.entryInsns memory body).map (fun insn => (.entry, .insn insn)) ++
        weaver.openingNodes body := by
  have entry (reserved : List (Nat × Nat)) :
      (WovenPart.entry reserved
          (weaver.advice.enter memory (weaver.begun memory body).slots).1.nodes).tagged =
        (weaver.entryInsns memory body).map fun insn => (.entry, .insn insn) :=
    tagged_of_straight (straight.enter memory (weaver.begun memory body).slots) rfl rfl
  unfold entering enter openingNodes
  cases weaver.detection with
  | explicit => simp [entry]
  | guarded =>
      simp [entry]
      rfl

theorem tagged_exit
    (straight : weaver.advice.Straight)
    (opcode : Opcode) :
    (WovenPart.exit opcode
        (weaver.advice.exit (weaver.enteredState memory body).memory opcode).nodes).tagged =
      (weaver.exitInsns memory body opcode).map fun insn => (.exit, .insn insn) :=
  tagged_of_straight (straight.exit (weaver.enteredState memory body).memory opcode) rfl rfl

theorem tagged_wovenNode
    (straight : weaver.advice.Straight)
    (node : Node) :
    (weaver.wovenNode (weaver.enteredState memory body).memory node).flatMap WovenPart.tagged =
      (weaver.inserted memory body (.original, node)).map (fun insn => (.exit, .insn insn)) ++
        [(.original, node)] := by
  have kept (node : Node) : (WovenPart.kept (.node node)).tagged = [(.original, node)] := rfl
  cases node with
  | insn insn =>
      have exiting := tagged_exit memory body straight insn.opcode
      simp only [wovenNode, inserted, reduceCtorEq, or_false]
      split <;> simp [exiting, kept]
  | _ => simp [wovenNode, inserted, kept]

theorem tagged_closing
    (straight : weaver.advice.Straight) :
    (weaver.closing (weaver.enteredState memory body)).flatMap WovenPart.tagged =
      Flow.blocks (weaver.inserted memory body) (weaver.closingNodes body) := by
  have exiting := tagged_exit memory body straight Opcode.throwReference
  simp only [closing, guard_enteredState, closingNodes]
  cases weaver.detection with
  | explicit => rfl
  | guarded =>
      simp only [List.flatMap_cons, exiting, List.flatMap_nil, Flow.blocks_cons, inserted,
        Flow.blocks_nil, List.map_nil, List.nil_append, or_true, if_true, List.append_nil]
      rfl

/-- The nodes of a woven body are its blocks behind the entry. -/
theorem tagged_weave
    (straight : weaver.advice.Straight) :
    (weaver.weave memory body.events).tagged =
      Flow.assembled (weaver.inserted memory body) (weaver.entryInsns memory body)
        (weaver.core body) := by
  have opening : Flow.blocks (weaver.inserted memory body) (weaver.openingNodes body) =
      weaver.openingNodes body := by
    unfold openingNodes
    cases weaver.detection <;> rfl
  have nodes :
      (body.nodes.flatMap (weaver.wovenNode (weaver.enteredState memory body).memory)).flatMap
          WovenPart.tagged =
        Flow.blocks (weaver.inserted memory body)
          (body.nodes.map fun node => (.original, node)) := by
    rw [List.flatMap_assoc, Flow.blocks, List.flatMap_map]
    exact congrArg (body.nodes.flatMap ·) (funext fun node => tagged_wovenNode memory body straight node)
  have handlers : (body.handlers.map (.kept ∘ .handler)).flatMap WovenPart.tagged = [] :=
    List.flatMap_eq_nil_iff.mpr (by simp [WovenPart.tagged, WovenPart.events, BodyEvent.node?])
  have locals : (body.locals.map (.kept ∘ .localVariable)).flatMap WovenPart.tagged = [] :=
    List.flatMap_eq_nil_iff.mpr (by simp [WovenPart.tagged, WovenPart.events, BodyEvent.node?])
  have declared : (declaredParts body).flatMap WovenPart.tagged = [] := by
    unfold declaredParts
    split <;> rfl
  have front :
      [WovenPart.kept (.code body.maxStack body.maxLocals (weaver.labelAfter body.nextLabel))].flatMap
        WovenPart.tagged = [] :=
    rfl
  have sizes (state : WeaveState Memory) :
      [raisedSizes state body.maxStack body.maxLocals].flatMap WovenPart.tagged = [] :=
    rfl
  have entering := tagged_entering memory body straight
  rw [weave_events, WovenBody.tagged]
  simp only [List.flatMap_append, nodes, tagged_closing memory body straight, declared, sizes,
    handlers, locals, front]
  cases empty : body.nodes.isEmpty with
  | true =>
      simp [entering, Flow.assembled, core, Flow.blocks_append, opening, List.isEmpty_iff.mp empty]
  | false => simp [entering, Flow.assembled, core, Flow.blocks_append, opening]

/-- The handler around a body comes behind those of the body. -/
theorem handlers_weave :
    (weaver.weave memory body.events).handlers =
      body.handlers ++
        match weaver.detection with
        | .explicit => []
        | .guarded => [guardAt body.nextLabel] := by
  let handlersOf (part : WovenPart) : List Handler := part.events.filterMap BodyEvent.handler?
  have snippets (nodes : List Node) : (nodes.map .node).filterMap BodyEvent.handler? = [] := by
    simp [List.filterMap_map, Function.comp_def, BodyEvent.handler?]
  have handlers :
      (body.handlers.map (.kept ∘ .handler)).flatMap handlersOf = body.handlers := by
    simp [handlersOf, WovenPart.events, BodyEvent.handler?, List.flatMap_map]
  have nodes :
      (body.nodes.flatMap (weaver.wovenNode (weaver.enteredState memory body).memory)).flatMap
          handlersOf = [] := by
    refine List.flatMap_eq_nil_iff.mpr fun part member => ?_
    obtain ⟨node, _, listed⟩ := List.mem_flatMap.mp member
    cases node with
    | insn insn =>
        simp only [wovenNode] at listed
        split at listed
        · rcases List.mem_pair.mp listed with rfl | rfl
          · exact snippets _
          · rfl
        · obtain rfl := List.mem_singleton.mp listed
          rfl
    | _ =>
        obtain rfl := List.mem_singleton.mp listed
        rfl
  have locals : (body.locals.map (.kept ∘ .localVariable)).flatMap handlersOf = [] :=
    List.flatMap_eq_nil_iff.mpr (by simp [handlersOf, WovenPart.events, BodyEvent.handler?])
  have declared : (declaredParts body).flatMap handlersOf = [] := by
    unfold declaredParts
    split <;> rfl
  have front :
      handlersOf
        (.kept (.code body.maxStack body.maxLocals (weaver.labelAfter body.nextLabel))) = [] :=
    rfl
  have sizes (state : WeaveState Memory) :
      handlersOf (raisedSizes state body.maxStack body.maxLocals) = [] :=
    rfl
  have entering :
      (weaver.entering memory body).flatMap handlersOf =
        match weaver.detection with
        | .explicit => []
        | .guarded => [guardAt body.nextLabel] := by
    unfold entering enter
    cases weaver.detection <;>
      simp [handlersOf, WovenPart.events, snippets, BodyEvent.handler?]
  have closing : (weaver.closing (weaver.enteredState memory body)).flatMap handlersOf = [] := by
    simp only [closing, guard_enteredState]
    cases weaver.detection <;>
      simp [handlersOf, WovenPart.events, snippets, BodyEvent.handler?]
  rw [weave_events, WovenBody.handlers, WovenBody.events, List.filterMap_flatMap]
  change List.flatMap handlersOf _ = _
  simp only [List.flatMap_append, List.flatMap_singleton, nodes, closing, declared, sizes, handlers,
    locals, front]
  cases empty : body.nodes.isEmpty <;> simp [entering]

/-- What is inserted into a body is straight, and stands in front of instructions only. -/
theorem regular_weave
    (straight : weaver.advice.Straight) :
    Flow.Regular (weaver.inserted memory body) (weaver.entryInsns memory body)
      (weaver.core body) := by
  refine ⟨fun insn member => ?_, fun node insn member => ?_, fun origin node silent => ?_,
    fun origin insn member => ?_⟩
  · exact (straight.enter _ _).of_mem_insns member
  · obtain ⟨origin, node⟩ := node
    cases node with
    | insn _ =>
        simp only [inserted] at member
        split at member
        · exact (straight.exit _ _).of_mem_insns member
        · cases member
    | _ => cases member
  · cases node with
    | insn insn => exact absurd rfl (silent insn)
    | _ => rfl
  · simp only [core, openingNodes, closingNodes, List.mem_append, List.mem_map] at member
    rcases member with (opening | ⟨node, _, same⟩) | closing
    · cases detected : weaver.detection <;> simp [detected] at opening
    · cases same
      exact .inl rfl
    · cases detected : weaver.detection <;> simp [detected] at closing
      exact .inr (by simp [closing])

/-- The handler around a body covers every instruction of the body. -/
theorem covered_of_guarded
    {insn : Insn}
    {after : List (Origin × Node)}
    (guarded : weaver.detection = .guarded)
    (place : (.original, .insn insn) :: after <:+ weaver.core body) :
    Flow.Covered (weaver.weave memory body.events).handlers
      (Flow.assembled (weaver.inserted memory body) (weaver.entryInsns memory body)
        (weaver.core body))
      ((.original, .insn insn) :: Flow.blocks (weaver.inserted memory body) after) := by
  obtain ⟨before, split⟩ := place
  have opening : weaver.openingNodes body = [(.guard, .label (guardAt body.nextLabel).start)] := by
    simp [openingNodes, guarded]
  have closing : (Origin.guard, Node.label (guardAt body.nextLabel).stop) ∈ weaver.closingNodes body := by
    simp [closingNodes, guarded]
  have foreign : ∀ node ∈ weaver.closingNodes body, node.1 ≠ .original := by
    simp [closingNodes, guarded]
  -- The range begins in front of the body and ends behind it.
  have begins : (Origin.guard, Node.label (guardAt body.nextLabel).start) ∈ before := by
    rw [core, opening] at split
    cases before with
    | nil => simp at split
    | cons first before =>
        simp only [List.cons_append, List.nil_append, List.cons.injEq] at split
        simp [split.1]
  have ends : (Origin.guard, Node.label (guardAt body.nextLabel).stop) ∈ after := by
    have suffix : weaver.closingNodes body <:+ weaver.core body := List.suffix_append _ _
    have other : (.original, .insn insn) :: after <:+ weaver.core body := ⟨before, split⟩
    rcases List.suffix_or_suffix_of_suffix suffix other with shorter | longer
    · rcases List.suffix_cons_iff.mp shorter with same | inside
      · exact absurd rfl (foreign (.original, .insn insn) (by simp [same]))
      · exact inside.mem closing
    · exact absurd rfl (foreign _ (longer.mem (List.mem_cons_self ..)))
  have labelled {origin : Origin} {label : Label} {nodes : List (Origin × Node)}
      (member : (origin, Node.label label) ∈ nodes) :
      label ∈ Node.labels (nodes.map Prod.snd) :=
    List.mem_filterMap.mpr ⟨.label label, List.mem_map_of_mem member, rfl⟩
  refine ⟨_, Flow.assembled_split split.symm, guardAt body.nextLabel, ?_, ?_, ?_⟩
  · simp [handlers_weave, guarded]
  · exact labelled (List.mem_append_left _ (List.mem_append_right _ (Flow.mem_blocks begins)))
  · exact labelled (List.mem_cons_of_mem _ (Flow.mem_blocks ends))

end Woven

/-! ## A body that catches what it throws -/

/-- A body that throws null and returns from its own handler. -/
def catcher : Body where
  maxStack := 1
  maxLocals := 0
  nodes :=
    [.label 0, .insn (.plain 0x01), .insn (.plain Opcode.throwReference), .label 1,
      .insn (.plain Opcode.pop), .insn (.plain Opcode.voidReturn)]
  handlers := [⟨0, 1, 1, none⟩]
  locals := []
  frames := []
  hints := none
  attributes := []

/-- A weaver that counts in a field. -/
def counting (detection : ExitDetection) : Weaver Unit where
  advice := Timer.fieldCounter ⟨"A", "timer", "J"⟩ .milliseconds
  detection := detection
  access := Access.staticFlag
  descriptor := "()V"

/-- The body throws, catches and returns, whichever exits are told. -/
theorem exists_leaves_of_catcher
    (detection : ExitDetection) :
    ∃ trace,
      Flow.Leaves ((counting detection).weave () catcher.events).handlers
          ((counting detection).weave () catcher.events).tagged trace
          (.original, .plain Opcode.voidReturn) ∧
        trace.countP (fun item => item.1 = .exit) =
          match detection with
          | .explicit => 8
          | .guarded => 4 := by
  cases detection with
  | explicit =>
      let nodes := ((counting .explicit).weave () catcher.events).tagged
      refine ⟨_, Flow.leaves_of_caught ⟨0, 1, 1, none⟩ (nodes.take 10) ((nodes.drop 12).take 5)
        (nodes.drop 18) (show nodes = _ ++ _ :: ((.original, _) :: _ ++ _ :: _) from ?_)
        ?_ ?_ ?_ ?_ ?_ ?_, ?_⟩ <;> decide +kernel
  | guarded =>
      let nodes := ((counting .guarded).weave () catcher.events).tagged
      refine ⟨_, Flow.leaves_of_caught ⟨0, 1, 1, none⟩ (nodes.take 7) ((nodes.drop 9).take 5)
        (nodes.drop 15) (show nodes = _ ++ _ :: ((.original, _) :: _ ++ _ :: _) from ?_)
        ?_ ?_ ?_ ?_ ?_ ?_, ?_⟩ <;> decide +kernel

/-! ## What runs until a method is left -/

/--
Where every exit is told by a handler around the body, a path that leaves has
performed the entry, instructions of the body, and the exit right before the
instruction that it leaves by.
-/
theorem trace_of_guarded
    {weaver : Weaver Memory}
    {memory : Memory}
    {body : Body}
    {trace : List (Origin × Insn)}
    {last : Origin × Insn}
    (guarded : weaver.detection = .guarded)
    (straight : weaver.advice.Straight)
    (leaves :
      Flow.Leaves (weaver.weave memory body.events).handlers
        (weaver.weave memory body.events).tagged trace last) :
    ∃ ran : List Insn,
      trace =
          (weaver.entryInsns memory body).map (fun insn => (.entry, insn)) ++
            ran.map (fun insn => (.original, insn)) ++
            (weaver.exitInsns memory body last.2.opcode).map (fun insn => (.exit, insn)) ∧
        (∀ insn ∈ ran, insn.opcode.isReturn = false) ∧
          (last.1 = .original ∧ last.2.opcode.isReturn = true ∨
            last = (.guard, .plain Opcode.throwReference)) := by
  rw [tagged_weave memory body straight] at leaves
  obtain ⟨origin, insn⟩ := last
  have regular := regular_weave memory body straight
  obtain ⟨ran, after, gone, place, shape, out⟩ := Flow.trace_of_leaves regular leaves
  have returns : ∀ insn ∈ ran, insn.opcode.isReturn = false :=
    fun insn member => (gone insn member).noReturn
  have kept :
      ran.flatMap (Flow.block (weaver.inserted memory body)) =
        ran.map fun insn => (.original, insn) := by
    rw [← List.flatMap_singleton' (ran.map _), List.flatMap_map]
    refine List.flatMap_congr fun insn member => ?_
    simp [Flow.block, inserted, guarded, ExitDetection.isExit, returns insn member]
  have leaving :
      origin = .original ∧ insn.opcode.isReturn = true ∨
        (origin, insn) = (.guard, .plain Opcode.throwReference) := by
    rcases regular.original origin insn (place.mem (List.mem_cons_self ..)) with rfl | isThrow
    · rcases out with isReturn | ⟨_, uncovered⟩
      · exact .inl ⟨rfl, isReturn⟩
      · exact absurd (covered_of_guarded memory body guarded place) uncovered
    · exact .inr isThrow
  refine ⟨ran, ?_, returns, leaving⟩
  rw [shape, kept]
  congr 2
  rcases leaving with ⟨_, isReturn⟩ | isThrow
  · simp [inserted, guarded, ExitDetection.isExit, isReturn]
  · cases isThrow
    simp [inserted]

/-- The body that catches its throw runs the exit once, when it returns. -/
theorem trace_of_catcher_guarded :
    ∃ (trace : List (Origin × Insn)) (ran : List Insn),
      Flow.Leaves ((counting .guarded).weave () catcher.events).handlers
          ((counting .guarded).weave () catcher.events).tagged trace
          (.original, .plain Opcode.voidReturn) ∧
        trace =
          ((counting .guarded).entryInsns () catcher).map (fun insn => (.entry, insn)) ++
            ran.map (fun insn => (.original, insn)) ++
            ((counting .guarded).exitInsns () catcher Opcode.voidReturn).map
              fun insn => (.exit, insn) := by
  obtain ⟨trace, leaves, _⟩ := exists_leaves_of_catcher .guarded
  obtain ⟨ran, shape, _⟩ := trace_of_guarded rfl (Timer.straight_fieldCounter _ _) leaves
  exact ⟨trace, ran, leaves, shape⟩

/--
Where exits are told by their opcode, the exit also runs before every throw that
the body catches itself.  A path that leaves has performed the entry, and the exit
right before the instruction that it leaves by and before each throw that was
caught on the way.
-/
theorem trace_of_explicit
    {weaver : Weaver Memory}
    {memory : Memory}
    {body : Body}
    {trace : List (Origin × Insn)}
    {last : Origin × Insn}
    (explicit : weaver.detection = .explicit)
    (straight : weaver.advice.Straight)
    (leaves :
      Flow.Leaves (weaver.weave memory body.events).handlers
        (weaver.weave memory body.events).tagged trace last) :
    ∃ ran : List Insn,
      trace =
          (weaver.entryInsns memory body).map (fun insn => (.entry, insn)) ++
            ran.flatMap (fun insn =>
              (if insn.opcode = Opcode.throwReference then
                (weaver.exitInsns memory body insn.opcode).map fun insn => (.exit, insn)
              else
                []) ++ [(.original, insn)]) ++
            (weaver.exitInsns memory body last.2.opcode).map (fun insn => (.exit, insn)) ∧
        (∀ insn ∈ ran,
          Flow.Stayed body.handlers (weaver.weave memory body.events).tagged insn) ∧
          last.1 = .original := by
  have handlers : (weaver.weave memory body.events).handlers = body.handlers := by
    simp [handlers_weave, explicit]
  rw [tagged_weave memory body straight, handlers] at leaves
  rw [tagged_weave memory body straight]
  obtain ⟨origin, insn⟩ := last
  obtain ⟨ran, after, gone, place, shape, out⟩ :=
    Flow.trace_of_leaves (regular_weave memory body straight) leaves
  have isOriginal : origin = .original := by
    have member := place.mem (List.mem_cons_self ..)
    simp only [core, openingNodes, closingNodes, explicit, List.nil_append, List.append_nil,
      List.mem_map] at member
    obtain ⟨node, _, same⟩ := member
    exact (Prod.mk.inj same).1.symm
  refine ⟨ran, ?_, gone, isOriginal⟩
  rw [shape]
  congr 1
  · congr 1
    refine List.flatMap_congr fun insn member => ?_
    have noReturn := (gone insn member).noReturn
    simp only [Flow.block, inserted, explicit, ExitDetection.isExit, Opcode.isExit, noReturn,
      Bool.false_or, decide_eq_true_eq, reduceCtorEq, or_false]
    split <;> simp
  · have isExit : insn.opcode.isExit = true := by
      simp only [Opcode.isExit, Bool.or_eq_true, decide_eq_true_eq]
      exact out.imp_right And.left
    simp [inserted, explicit, ExitDetection.isExit, isExit]

/-- The body that catches its throw runs the exit in front of the throw, and when it returns. -/
theorem trace_of_catcher_explicit :
    ∃ (trace : List (Origin × Insn)) (ran : List Insn),
      Flow.Leaves ((counting .explicit).weave () catcher.events).handlers
          ((counting .explicit).weave () catcher.events).tagged trace
          (.original, .plain Opcode.voidReturn) ∧
        trace =
            ((counting .explicit).entryInsns () catcher).map (fun insn => (.entry, insn)) ++
              ran.flatMap (fun insn =>
                (if insn.opcode = Opcode.throwReference then
                  ((counting .explicit).exitInsns () catcher insn.opcode).map
                    fun insn => (.exit, insn)
                else
                  []) ++ [(.original, insn)]) ++
              ((counting .explicit).exitInsns () catcher Opcode.voidReturn).map
                (fun insn => (.exit, insn)) ∧
          ∀ insn ∈ ran,
            Flow.Stayed catcher.handlers ((counting .explicit).weave () catcher.events).tagged
              insn := by
  obtain ⟨trace, leaves, _⟩ := exists_leaves_of_catcher .explicit
  obtain ⟨ran, shape, stayed, _⟩ :=
    trace_of_explicit rfl (Timer.straight_fieldCounter _ _) leaves
  exact ⟨trace, ran, leaves, shape, stayed⟩

/-- The body that catches its throw runs the exit twice: in front of the throw and of the return. -/
theorem exists_repeated_exit :
    ∃ trace : List (Origin × Insn),
      Flow.Leaves ((counting .explicit).weave () catcher.events).handlers
          ((counting .explicit).weave () catcher.events).tagged trace
          (.original, .plain Opcode.voidReturn) ∧
        ¬ ∃ ran : List Insn,
            trace =
              ((counting .explicit).entryInsns () catcher).map (fun insn => (.entry, insn)) ++
                ran.map (fun insn => (.original, insn)) ++
                ((counting .explicit).exitInsns () catcher Opcode.voidReturn).map
                  fun insn => (.exit, insn) := by
  obtain ⟨trace, leaves, exits⟩ := exists_leaves_of_catcher .explicit
  refine ⟨trace, leaves, ?_⟩
  rintro ⟨ran, shape⟩
  have once : ((counting .explicit).exitInsns () catcher Opcode.voidReturn).length = 4 := by
    decide +kernel
  have counted := congrArg (List.countP fun item => item.1 = .exit) shape
  simp [exits, List.countP_map, Function.comp_def, once] at counted

end Weaver
end JvmClass
