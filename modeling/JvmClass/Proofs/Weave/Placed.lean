import JvmClass.Proofs.Body.Assembled
import JvmClass.Proofs.Verify.Visited
import JvmClass.Proofs.Weave.Expansion

namespace JvmClass

/-!
# Expanded bodies at offsets

A checked body was expanded and laid out again.  Control goes from a spot of the
expanded body to the next one, or as it went in the body: to the block of a target
that paths through the body visit, or to that of a handler.
-/

namespace Body.DecodesTo

variable
  {pool : Pool} {raw : CodeAttribute Attribute} {body : Body} {decoded : Decoded} {tables : Tables}

/-- The label of an offset that something refers to stands in front of what lies there. -/
theorem exists_standsAt
    {offset : Nat}
    (decodes : DecodesTo pool raw body decoded tables)
    (member : offset ∈ references decoded raw.handlers tables) :
    ∃ position,
      Node.StandsAt ((labelingOf decoded raw.handlers tables).labelAt offset) body.nodes position ∧
        (decoded.insns.map Prod.fst ++ [decoded.size])[position]? = some offset := by
  have decodedFrom := Decoded.decodedFrom_of_ofCode decodes.code
  have labelled := decodes.label?_eq_some member
  have placed := (decodedFrom.boundary offset).mp (decodes.boundaries offset member)
  rw [decodes.nodes_eq]
  simp only [Node.standsAt_ofSteps_iff, readSteps, stepsOf, List.length_map]
  rcases List.mem_append.mp placed with inside | last
  · obtain ⟨⟨_, insn⟩, listed, rfl⟩ := List.mem_map.mp inside
    obtain ⟨position, found⟩ := List.mem_iff_getElem?.mp listed
    refine ⟨position, .inl ⟨_, by rw [List.getElem?_map, found]; rfl, labelled⟩, ?_⟩
    exact Layout.getElem?_offsets found
  · obtain rfl := List.mem_singleton.mp last
    exact ⟨decoded.insns.length, .inr ⟨rfl, labelled⟩, by simp⟩

/-- An offset inside a body that something refers to is that of an instruction. -/
theorem exists_standsAt_inside
    {offset : Nat}
    (decodes : DecodesTo pool raw body decoded tables)
    (member : offset ∈ references decoded raw.handlers tables)
    (inside : offset < decoded.size) :
    ∃ position insn,
      Node.StandsAt ((labelingOf decoded raw.handlers tables).labelAt offset) body.nodes position ∧
        decoded.insns[position]? = some (offset, insn) := by
  obtain ⟨position, stands, placed⟩ := decodes.exists_standsAt member
  cases found : decoded.insns[position]? with
  | some item =>
      rw [Layout.getElem?_offsets found] at placed
      exact
        ⟨position, item.2, stands,
          found.trans (congrArg (fun offset => some (offset, item.2)) (Option.some.inj placed))⟩
  | none =>
      rw [List.getElem?_append_right (by simpa using found), List.getElem?_singleton] at placed
      split at placed
      · have last := Option.some.inj placed
        omega
      · cases placed

/-- A handler of a body was read from a row of the exception table. -/
theorem exists_entry
    {handler : Handler}
    (decodes : DecodesTo pool raw body decoded tables)
    (member : handler ∈ body.handlers) :
    ∃ entry ∈ raw.handlers,
      handler.start = (labelingOf decoded raw.handlers tables).labelAt entry.start.toNat ∧
        handler.stop = (labelingOf decoded raw.handlers tables).labelAt entry.stop.toNat ∧
        handler.handler = (labelingOf decoded raw.handlers tables).labelAt entry.handler.toNat := by
  obtain ⟨entry, listed, row⟩ := exists_of_forall₂ decodes.handlersOf member
  obtain ⟨_, start, stop, target⟩ := handlerOf_eq_ok_iff.mp row
  exact ⟨entry, listed, start, stop, target⟩

end Body.DecodesTo

theorem Insn.Numbered.endsFlow_eq
    {insn resolved : Insn}
    (numbered : insn.Numbered resolved)
    (wellFormed : insn.WellFormed) :
    resolved.opcode.endsFlow = insn.opcode.endsFlow := by
  cases numbered with
  | indexed _ | field | method => rfl
  | @text code value index =>
      have narrow : (loadOpcode code index).endsFlow = false := by
        unfold loadOpcode
        repeat' split
        · rename_i wide
          rcases wide with rfl | rfl <;> rfl
        · rfl
        · rfl
      have plain : code.endsFlow = false := by
        rcases wellFormed with rfl | rfl <;> rfl
      exact narrow.trans plain.symm

/-- A range covers the instructions between those that its labels stand in front of. -/
theorem Layout.covers_iff
    {resolves : Insn → Insn → Prop}
    {nodes : List Node}
    {place : Label → Nat}
    {insns : List (Nat × Insn)}
    {size position offset first last : Nat}
    {located : Insn}
    {handler : Handler}
    {range : HandlerRange}
    (layout : Layout resolves nodes place insns size)
    (isOf : range.IsOf place handler)
    (starts : Node.StandsAt handler.start nodes first)
    (stops : Node.StandsAt handler.stop nodes last)
    (placed : insns[position]? = some (offset, located)) :
    range.covers (UInt16.ofNat offset) = true ↔ first ≤ position ∧ position < last := by
  have number {value : Nat} (short : value < 2 ^ 16) : (UInt16.ofNat value).toNat = value :=
    UInt16.toNat_ofNat_of_lt' short
  simp only [HandlerRange.covers, isOf.start, isOf.stop, Bool.and_eq_true, decide_eq_true_eq,
    UInt16.le_iff_toNat_le, UInt16.lt_iff_toNat_lt, number (layout.place_lt starts),
    number (layout.place_lt stops), number (layout.offset_lt placed)]
  rw [layout.place_le_iff placed starts, layout.lt_place_iff placed stops]

namespace Expansion

/-- Paths through a body visit the instruction at an index, or it lies behind the body. -/
def Among
    (pool : Pool)
    (isStatic : Bool)
    (type : MethodType)
    (code : CodeAttribute Attribute)
    (insns : List (Nat × Insn))
    (index : Nat) : Prop :=
  Verify.Visited pool isStatic type code insns index ∨ insns.length ≤ index

/-- A body that was decoded was expanded, and the expanded body lies at offsets. -/
structure Laid
    (expansion : Expansion)
    (resolves : Insn → Insn → Prop)
    (pool : Pool)
    (code : CodeAttribute Attribute)
    (body : Body)
    (decoded : Body.Decoded)
    (tables : Body.Tables)
    (place : Label → Nat)
    (written : List (Nat × Insn))
    (size : Nat) : Prop where
  decodes : Body.DecodesTo pool code body decoded tables
  short : code.code.length < 2 ^ 16
  regular : expansion.Regular
  nodes : expansion.nodes = body.nodes
  numbers : ∀ insn resolved, resolves insn resolved → insn.Numbered resolved
  wellFormed : ∀ insn ∈ Node.insns (expansion.tagged.map Prod.snd), insn.WellFormed
  layout : Layout resolves (expansion.tagged.map Prod.snd) place written size

/-- A checked body was expanded, and the expanded body lies at offsets. -/
structure Lies
    (expansion : Expansion)
    (resolves : Insn → Insn → Prop)
    (pool : Pool)
    (isStatic : Bool)
    (type : MethodType)
    (code : CodeAttribute Attribute)
    (body : Body)
    (decoded : Body.Decoded)
    (tables : Body.Tables)
    (place : Label → Nat)
    (written : List (Nat × Insn))
    (size : Nat) : Prop
    extends expansion.Laid resolves pool code body decoded tables place written size where
  checked : Verify.Checked pool isStatic type code true decoded.insns

namespace Laid

variable
  {expansion : Expansion} {resolves : Insn → Insn → Prop} {pool : Pool}
  {code : CodeAttribute Attribute} {body : Body} {decoded : Body.Decoded}
  {tables : Body.Tables} {place : Label → Nat} {written : List (Nat × Insn)} {size : Nat}
  {among : Nat → Prop} {index position next offset : Nat} {insn item : Insn} {label : Label}
  {handler : Handler}
  (laid : expansion.Laid resolves pool code body decoded tables place written size)
include laid

theorem size_lt : decoded.size < 2 ^ 16 := by
  obtain ⟨insns, _, same⟩ := bind_eq_ok_iff.mp laid.decodes.code
  cases same
  exact laid.short

theorem rawLayout :
    Layout (· = ·) body.nodes (Body.originOf decoded code.handlers tables) decoded.insns
      decoded.size :=
  laid.decodes.layout laid.size_lt

/-- What lies at a spot is its instruction. -/
theorem exists_item (spot : expansion.Spot among position insn) :
    ∃ offset resolved,
      written[position]? = some (offset, resolved.mapTargets place) ∧ resolves insn resolved ∧
        resolved.targets = insn.targets ∧ resolved.opcode.endsFlow = insn.opcode.endsFlow := by
  have listed := getElem?_of_spot laid.regular spot
  obtain ⟨offset, resolved, placed, related⟩ := laid.layout.exists_placed listed
  have numbered := laid.numbers insn resolved related
  exact ⟨offset, resolved, placed, related, numbered.targets_eq,
    numbered.endsFlow_eq (laid.wellFormed insn (List.mem_of_getElem? listed))⟩

/-- An instruction of the body begins no block of another one. -/
theorem exists_original (placed : decoded.insns[index]? = some (offset, item)) :
    ∃ insn,
      expansion.items[index]? = some (.original, insn) ∧
        item = insn.mapTargets (Body.originOf decoded code.handlers tables) ∧ insn.Indexed ∧
        ∀ label ∈ insn.targets, ∃ target, Node.StandsAt label body.nodes target := by
  obtain ⟨insn, _, listed, rfl, shape⟩ := laid.rawLayout.exists_listed placed
  refine ⟨insn, getElem?_items laid.regular (laid.nodes ▸ listed), shape, ?_⟩
  rw [laid.decodes.nodes_eq, Node.insns_ofSteps] at listed
  obtain ⟨step, found, rfl⟩ := List.mem_map.mp (List.mem_of_getElem? listed)
  obtain ⟨_, indexed, _, targets⟩ := laid.decodes.regular_insns step found
  refine ⟨indexed, fun label member => Node.exists_standsAt ?_⟩
  rw [laid.decodes.nodes_eq, Node.labels_ofSteps]
  exact List.mem_append_left _ (targets label member)

theorem exists_item_of_lt (inside : index < decoded.insns.length) :
    ∃ item, expansion.items[index]? = some item := by
  obtain ⟨insn, listed, _⟩ := laid.exists_original (List.getElem?_eq_getElem inside)
  exact ⟨_, listed⟩

/-- Instructions behind a block are still instructions of the expanded body. -/
theorem length_le_items : decoded.insns.length ≤ expansion.items.length := by
  rcases Nat.eq_zero_or_pos decoded.insns.length with none | some
  · omega
  · obtain ⟨item, listed⟩ := laid.exists_item_of_lt (show decoded.insns.length - 1 < _ by omega)
    have := (List.getElem?_eq_some_iff.mp listed).1
    omega

/-- A label of the body means the beginning of the block that it stands in front of. -/
theorem positions_place_eq
    {located : Insn}
    (stands : Node.StandsAt label body.nodes position)
    (placed : decoded.insns[position]? = some (offset, located)) :
    (LocatedCode.ofInsns written).positions[UInt16.ofNat (place label)]? =
      some (expansion.start position) := by
  obtain ⟨item, listed⟩ := laid.exists_item_of_lt (List.getElem?_eq_some_iff.mp placed).1
  obtain ⟨insn, spot⟩ := @exists_spot_start _ (fun _ => True) _ _ trivial listed
  have inside := (List.getElem?_eq_some_iff.mp (getElem?_of_spot laid.regular spot)).1
  exact laid.layout.positions_place_eq (standsAt_tagged laid.regular (laid.nodes ▸ stands)) inside

/-- Control goes on to the next position, or to a label among the targets. -/
theorem onward_cases
    {offset : UInt16}
    (spot : expansion.Spot among position insn)
    (located : (LocatedCode.ofInsns written).insns[position]? = some (offset, item))
    (onward : (LocatedCode.ofInsns written).Onward position item next) :
    insn.opcode.endsFlow = false ∧ next = position + 1 ∨
      ∃ label ∈ insn.targets,
        (LocatedCode.ofInsns written).positions[UInt16.ofNat (place label)]? = some next := by
  obtain ⟨_, resolved, placed, _, targets, endsFlow⟩ := laid.exists_item spot
  rw [LocatedCode.located_of_placed placed] at located
  cases located
  obtain ⟨behind, means, ⟨target, member, rfl⟩ | ⟨continues, placedBehind⟩⟩ := onward
  · rw [Insn.targets_mapTargets, targets] at member
    obtain ⟨label, listed, rfl⟩ := List.mem_map.mp member
    exact .inr ⟨label, listed, means⟩
  · refine .inl ⟨?_, laid.layout.eq_of_offsetAfter placedBehind means⟩
    rw [← endsFlow]
    cases resolved <;> exact continues

/-! ### Handlers of spots -/

section Caught

variable {range : HandlerRange} {first last : Nat}

/-- The labels of a handler of the body stand in front of instructions of the body, or behind it. -/
theorem exists_stands (member : handler ∈ body.handlers) :
    ∃ entry ∈ code.handlers, ∃ first last target other,
      Node.StandsAt handler.start body.nodes first ∧
        Node.StandsAt handler.stop body.nodes last ∧
        Node.StandsAt handler.handler body.nodes target ∧
        (decoded.insns.map Prod.fst ++ [decoded.size])[first]? = some entry.start.toNat ∧
        (decoded.insns.map Prod.fst ++ [decoded.size])[last]? = some entry.stop.toNat ∧
        decoded.insns[target]? = some (entry.handler.toNat, other) := by
  obtain ⟨entry, listed, start, stop, goal⟩ := laid.decodes.exists_entry member
  have refers (offset : Nat)
      (among : offset ∈ [entry.start.toNat, entry.stop.toNat, entry.handler.toNat]) :
      offset ∈ Body.references decoded code.handlers tables := by
    simp only [Body.references, List.mem_append, List.mem_flatMap]
    exact .inl (.inl (.inl (.inr ⟨entry, listed, among⟩)))
  obtain ⟨first, starts, startPlaced⟩ :=
    laid.decodes.exists_standsAt (refers entry.start.toNat (by simp))
  obtain ⟨last, stops, stopPlaced⟩ :=
    laid.decodes.exists_standsAt (refers entry.stop.toNat (by simp))
  have inside : entry.handler.toNat < decoded.size :=
    (Body.Decoded.checkHandler_eq_ok_iff.mp (laid.decodes.handlers entry listed)).2.2.2.2
  obtain ⟨target, other, lands, targetPlaced⟩ :=
    laid.decodes.exists_standsAt_inside (refers _ (by simp)) inside
  exact ⟨entry, listed, first, last, target, other, start ▸ starts, stop ▸ stops, goal ▸ lands,
    startPlaced, stopPlaced, targetPlaced⟩

/-- A label of the body stands in front of a block, or behind all blocks of the body. -/
theorem start_le_start_length
    (stands : Node.StandsAt label body.nodes position) :
    position ≤ decoded.insns.length := by
  rw [← laid.rawLayout.length_eq]
  exact stands.le_length

/-- What a handler of the body covers lies in a block of the body. -/
theorem covered_iff
    {located : Insn}
    (isOf : range.IsOf place handler)
    (starts : Node.StandsAt handler.start body.nodes first)
    (stops : Node.StandsAt handler.stop body.nodes last)
    (placed : written[position]? = some (offset, located)) :
    range.covers (UInt16.ofNat offset) = true ↔
      expansion.start first ≤ position ∧ position < expansion.start last :=
  laid.layout.covers_iff isOf (standsAt_tagged laid.regular (laid.nodes ▸ starts))
    (standsAt_tagged laid.regular (laid.nodes ▸ stops)) placed

/-- Handlers of the body cover nothing in front of its blocks and nothing behind them. -/
theorem within_of_covered
    {located : Insn}
    (member : handler ∈ body.handlers)
    (isOf : range.IsOf place handler)
    (placed : written[position]? = some (offset, located))
    (covers : range.covers (UInt16.ofNat offset) = true) :
    expansion.entry.length ≤ position ∧ position < expansion.start decoded.insns.length := by
  obtain ⟨_, _, first, last, _, _, starts, stops, _⟩ := laid.exists_stands member
  obtain ⟨notBefore, before⟩ := (laid.covered_iff isOf starts stops placed).mp covers
  have mono := start_mono (laid.start_le_start_length stops) laid.length_le_items
  have := @le_start expansion first
  omega

/-- A row of the body covers an instruction where its handler covers something of the block. -/
theorem exists_covering
    {ahead rawOffset : Nat}
    {located rawInsn : Insn}
    {listedItem : Origin × Insn}
    (member : handler ∈ body.handlers)
    (isOf : range.IsOf place handler)
    (listed : expansion.items[index]? = some listedItem)
    (inside : ahead ≤ (expansion.ahead listedItem).length)
    (placed : written[expansion.start index + ahead]? = some (offset, located))
    (covers : range.covers (UInt16.ofNat offset) = true)
    (here : decoded.insns[index]? = some (rawOffset, rawInsn)) :
    ∃ entry ∈ code.handlers, ∃ target other,
      entry.start.toNat ≤ rawOffset ∧
        rawOffset < entry.stop.toNat ∧
        Node.StandsAt handler.handler body.nodes target ∧
        decoded.insns[target]? = some (entry.handler.toNat, other) := by
  obtain ⟨entry, entryListed, first, last, target, other, starts, stops, lands, startPlaced,
    stopPlaced, targetPlaced⟩ := laid.exists_stands member
  obtain ⟨notBefore, before⟩ := (laid.covered_iff isOf starts stops placed).mp covers
  have items := laid.length_le_items
  have firstInside := laid.start_le_start_length starts
  have lastInside := laid.start_le_start_length stops
  have firstBefore : first ≤ index := (start_le_iff listed inside (by omega)).mp notBefore
  have lastBehind : ¬ last ≤ index := fun reversed =>
    Nat.not_le.mpr before ((start_le_iff listed inside (by omega)).mpr reversed)
  have offsetHere := @Layout.getElem?_offsets _ decoded.size _ _ _ here
  have notBeforeStart := laid.rawLayout.offset_lt_iff offsetHere startPlaced
  have beforeStop := laid.rawLayout.offset_lt_iff offsetHere stopPlaced
  exact ⟨entry, entryListed, target, other, by omega, by omega, lands, targetPlaced⟩

end Caught

end Laid

namespace Lies

variable
  {expansion : Expansion} {resolves : Insn → Insn → Prop} {pool : Pool} {isStatic : Bool}
  {type : MethodType} {code : CodeAttribute Attribute} {body : Body} {decoded : Body.Decoded}
  {tables : Body.Tables} {place : Label → Nat} {written : List (Nat × Insn)} {size : Nat}
  {among : Nat → Prop} {index position next offset : Nat} {insn item : Insn} {label : Label}
  {handler : Handler}

/-! ### Onward from spots -/

section Onward

variable
  (lies : expansion.Lies resolves pool isStatic type code body decoded tables place written size)
include lies

/-- Where the first instruction of a body is, paths are. -/
theorem among_zero :
    Among pool isStatic type code decoded.insns 0 :=
  .inl lies.checked.visited_zero

/-- Where control goes on from an instruction of the body. -/
theorem onward_of_visited
    {offset : UInt16}
    {listedItem : Origin × Insn}
    (visited : Verify.Visited pool isStatic type code decoded.insns index)
    (listed : expansion.items[index]? = some listedItem)
    (located :
      (LocatedCode.ofInsns written).insns[
          expansion.start index + (expansion.ahead listedItem).length]? = some (offset, item))
    (onward :
      (LocatedCode.ofInsns written).Onward
        (expansion.start index + (expansion.ahead listedItem).length) item next) :
    (next = expansion.start (index + 1) ∧
        Verify.Visited pool isStatic type code decoded.insns (index + 1) ∧
        listedItem.2.opcode.endsFlow = false) ∨
      ∃ target targetOffset other,
        next = expansion.start target ∧
          Verify.Visited pool isStatic type code decoded.insns target ∧
          decoded.insns[target]? = some (targetOffset, other) ∧
          UInt16.ofNat targetOffset ∈ Verify.declaredOffsets code := by
  obtain ⟨point, rawItem, _, placed⟩ := id visited
  obtain ⟨insn, listedAgain, shape, _, standing⟩ := lies.exists_original placed
  cases listed.symm.trans listedAgain
  have spot : expansion.Spot (fun _ => True) _ insn := .kept trivial listed
  rcases lies.onward_cases spot located onward with ⟨continues, same⟩ | ⟨label, member, means⟩
  · refine .inl ⟨same.trans (start_succ listed).symm, ?_, continues⟩
    have rawContinues : rawItem.opcode.endsFlow = false := by
      rw [shape]
      cases insn <;> exact continues
    obtain ⟨_, _, visitedNext⟩ := lies.checked.visited_next visited placed rawContinues
    exact visitedNext
  · -- The target is one of the instruction in the body, so paths visit it.
    have rawMember : Body.originOf decoded code.handlers tables label ∈ rawItem.targets := by
      rw [shape, Insn.targets_mapTargets]
      exact List.mem_map_of_mem member
    obtain ⟨target, other, targetPlaced, targetVisited⟩ :=
      lies.checked.visited_of_target visited placed rawMember
    have declared := lies.checked.declared_of_target visited placed rawMember
    obtain ⟨stood, stands⟩ := standing label member
    have here :=
      lies.rawLayout.position_eq (lies.rawLayout.labels label stood stands)
        (Layout.getElem?_offsets targetPlaced)
    subst here
    have start := lies.positions_place_eq stands targetPlaced
    exact .inr
      ⟨stood, _, other, Option.some.inj (means.symm.trans start), targetVisited, targetPlaced, declared⟩

end Onward

/-! ### Handlers of spots -/

section Caught

variable
  (lies : expansion.Lies resolves pool isStatic type code body decoded tables place written size)
  {range : HandlerRange} {first last target : Nat}
include lies

/-- An exception thrown in a block goes to the block of a handler, which paths visit. -/
theorem caught_of_visited
    {ahead : Nat}
    {located : Insn}
    {listedItem : Origin × Insn}
    (member : handler ∈ body.handlers)
    (isOf : range.IsOf place handler)
    (visited : Verify.Visited pool isStatic type code decoded.insns index)
    (listed : expansion.items[index]? = some listedItem)
    (inside : ahead ≤ (expansion.ahead listedItem).length)
    (placed : written[expansion.start index + ahead]? = some (offset, located))
    (covers : range.covers (UInt16.ofNat offset) = true) :
    ∃ target targetOffset other,
      (LocatedCode.ofInsns written).positions[range.handler]? = some (expansion.start target) ∧
        Verify.Visited pool isStatic type code decoded.insns target ∧
        decoded.insns[target]? = some (targetOffset, other) ∧
        UInt16.ofNat targetOffset ∈ Verify.declaredOffsets code := by
  obtain ⟨point, item, _, here⟩ := id visited
  obtain ⟨entry, entryListed, target, other, startsHere, stopsBehind, lands, targetPlaced⟩ :=
    lies.exists_covering member isOf listed inside placed covers here
  obtain ⟨next, _, nextPlaced, nextVisited⟩ :=
    lies.checked.visited_of_caught visited here entryListed startsHere stopsBehind
  obtain rfl :=
    lies.rawLayout.position_eq (Layout.getElem?_offsets nextPlaced)
      (Layout.getElem?_offsets targetPlaced)
  have declared := lies.checked.declared_of_caught visited here entryListed startsHere stopsBehind
  refine ⟨next, _, other, ?_, nextVisited, targetPlaced, ?_⟩
  · rw [isOf.target]
    exact lies.positions_place_eq lands targetPlaced
  · rwa [UInt16.ofNat_toNat]

end Caught

end Lies

end Expansion
end JvmClass
