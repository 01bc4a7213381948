import JvmClass.Proofs.Weave.Balanced

namespace JvmClass

/-!
# Depths that are carried over

The depth check found states along a body.  If what was inserted leaves the stack as it
found it, the expanded body is balanced with the same states, apart from local variables
that were added behind those of the body.
-/

namespace Depths

/--
The state in front of each block.  Behind the body, that is what the handler around it
is entered with: an exception on the stack, and none of the local variables of the body.
-/
def carry
    (original : Array (Option DepthState))
    (count maxLocals : Nat)
    (extra : List Bool)
    (index : Nat) : Option DepthState :=
  if index < count then
    (original.getD index none).map (DepthState.widened extra)
  else
    some ⟨1, List.replicate maxLocals false ++ extra⟩

/-- An expanded body is run with the states that were found along the body. -/
structure Carried
    (depths : Depths)
    (resolves : Insn → Insn → Prop)
    (pool : Pool)
    (type : MethodType)
    (code : CodeAttribute Attribute)
    (body : Body)
    (decoded : Body.Decoded)
    (tables : Body.Tables)
    (place : Label → Nat)
    (size : Nat)
    (original : Array (Option DepthState))
    (extra : List Bool)
    (guards : List Handler) : Prop where
  laid : depths.expansion.Laid resolves pool code body decoded tables place depths.written size
  settled :
    ∀ position held,
      original.getD position none = some held →
        DepthProgress.Settled ⟨pool, code.maxStack, type.result⟩ (.ofInsns decoded.insns)
          code.handlers original position held
  states : depths.states = carry original decoded.insns.length code.maxLocals.toNat extra
  grown : Entry.Extends pool.entries depths.context.pool.entries
  result : depths.context.result = type.result
  /-- The stack is as large as it was, or larger while no state is too deep. -/
  room :
    depths.context.maxStack = code.maxStack ∨
      (∀ position held,
          original.getD position none = some held → held.depth ≤ code.maxStack) ∧
        code.maxStack ≤ depths.context.maxStack
  rows : ∀ row ∈ depths.handlers, ∃ handler ∈ body.handlers ++ guards, row.IsOf place handler
  /-- The handlers around the body cover all of it, and stand behind it. -/
  guarded :
    ∀ guard ∈ guards,
      Node.StandsAt guard.start (depths.expansion.core.map Prod.snd) 0 ∧
        Node.StandsAt guard.stop (depths.expansion.closing.map Prod.snd) 0 ∧
        Node.StandsAt guard.handler (depths.expansion.closing.map Prod.snd) 0 ∧
        Flow.insns depths.expansion.closing ≠ [] ∧
        ∀ position held,
          original.getD position none = some held →
            held.assigned.length = code.maxLocals.toNat
  closing :
    ∀ item ∈ Flow.insns depths.expansion.closing, item.2 = .plain Opcode.throwReference
  enters : depths.Enters
  /-- What is inserted in front of an instruction takes nothing from the state there. -/
  snippets :
    ∀ index item state,
      depths.expansion.items[index]? = some item →
        depths.states index = some state →
          state.RunsClean depths.context
              (depths.row (depths.expansion.start index) (depths.expansion.ahead item).length) ∧
            (depths.behind (depths.expansion.start index) (depths.expansion.ahead item).length
              state).Weakens state

namespace Carried

variable
  {depths : Depths} {resolves : Insn → Insn → Prop} {pool : Pool} {type : MethodType}
  {code : CodeAttribute Attribute} {body : Body} {decoded : Body.Decoded} {tables : Body.Tables}
  {place : Label → Nat} {size : Nat} {original : Array (Option DepthState)} {extra : List Bool}
  {guards : List Handler}
  (carried :
    depths.Carried resolves pool type code body decoded tables place size original extra guards)
  {index : Nat} {item : Origin × Insn} {state held : DepthState}
include carried

/-- A block of the body begins with the state that was found there. -/
theorem exists_held
    (begins : depths.states index = some state)
    (inside : index < decoded.insns.length) :
    ∃ held, original.getD index none = some held ∧ state = held.widened extra := by
  rw [carried.states, carry, if_pos inside] at begins
  obtain ⟨held, found, rfl⟩ := Option.map_eq_some_iff.mp begins
  exact ⟨held, found, rfl⟩

/-- Behind the body the handler around it is entered. -/
theorem states_eq_of_behind
    (begins : depths.states index = some state)
    (behind : decoded.insns.length ≤ index) :
    state = ⟨1, List.replicate code.maxLocals.toNat false ++ extra⟩ := by
  rw [carried.states, carry, if_neg (Nat.not_lt.mpr behind)] at begins
  exact (Option.some.inj begins).symm

/-- A state was found at an instruction of the body only. -/
theorem lt_of_held (found : original.getD index none = some held) :
    index < decoded.insns.length := by
  obtain ⟨_, _, located, _⟩ := carried.settled index held found
  have inside := (Array.getElem?_eq_some_iff.mp located).1
  rwa [LocatedCode.size_insns_ofInsns] at inside

/-- A block begins with no more than the state that was found there. -/
theorem begins_of_held
    (found : original.getD index none = some held)
    (weakens : state.Weakens (held.widened extra)) :
    depths.Begins index state := by
  have inside := carried.lt_of_held found
  obtain ⟨item, listed⟩ := carried.laid.exists_item_of_lt inside
  refine ⟨item, held.widened extra, listed, ?_, weakens⟩
  rw [carried.states, carry, if_pos inside, found]
  rfl

/-- Where a label of the body led to, its place leads in the expanded body. -/
theorem lands_of_leads
    {label : Label}
    {stood : Nat}
    (stands : Node.StandsAt label body.nodes stood)
    (leads :
      DepthProgress.Leads (.ofInsns decoded.insns) original
        (UInt16.ofNat (Body.originOf decoded code.handlers tables label)) held)
    (weakens : state.Weakens (held.widened extra)) :
    depths.Lands (UInt16.ofNat (place label)) state := by
  obtain ⟨position, target, means, found, weaker⟩ := leads
  obtain ⟨rfl, offset, located, placed⟩ :=
    carried.laid.rawLayout.eq_of_positions_place stands means
  exact ⟨position, carried.laid.positions_place_eq stands placed,
    carried.begins_of_held found (weakens.trans (weaker.widened extra))⟩

/-- In front of an instruction its snippet has left the state as it was. -/
theorem weakens_behind
    (listed : depths.expansion.items[index]? = some item)
    (begins : depths.states index = some state) :
    (depths.behind (depths.expansion.start index) (depths.expansion.ahead item).length
      state).Weakens state :=
  (carried.snippets index item state listed begins).2

/-- A block runs through if its instruction does behind what is inserted. -/
theorem runsClean_block
    {offset : Nat}
    {insn : Insn}
    (listed : depths.expansion.items[index]? = some item)
    (begins : depths.states index = some state)
    (placed :
      depths.written[depths.expansion.start index + (depths.expansion.ahead item).length]? =
        some (offset, insn))
    (clean :
      ((depths.behind (depths.expansion.start index) (depths.expansion.ahead item).length
        state).step depths.context insn).2 = []) :
    state.RunsClean depths.context
      (depths.row (depths.expansion.start index) ((depths.expansion.ahead item).length + 1)) := by
  intro at_ other found
  have short : at_ < (depths.expansion.ahead item).length + 1 := by
    have inside := (List.getElem?_eq_some_iff.mp found).1
    rw [row, List.length_take] at inside
    omega
  rw [take_row (Nat.le_of_lt short)]
  rcases Nat.lt_or_eq_of_le (Nat.le_of_lt_succ short) with before | rfl
  · have inSnippet := (carried.snippets index item state listed begins).1 at_ other
    rw [take_row (Nat.le_of_lt before)] at inSnippet
    refine inSnippet ?_
    rw [row, List.getElem?_take_of_lt before]
    rwa [row, List.getElem?_take_of_lt short] at found
  · rw [getElem?_row short placed] at found
    cases found
    exact clean

/-- The block of an instruction of the body passes from the state that was found there. -/
theorem passes_of_held
    (listed : depths.expansion.items[index]? = some item)
    (found : original.getD index none = some held)
    (begins : depths.states index = some (held.widened extra)) :
    depths.Passes index item (held.widened extra) := by
  have laid := carried.laid
  obtain ⟨_, rawInsn, located, clean, _, targets, falls⟩ := carried.settled index held found
  obtain ⟨rawOffset, rawPlaced, _⟩ := LocatedCode.placed_of_located located
  obtain ⟨insn, listedAgain, rfl, indexed, standing⟩ := laid.exists_original rawPlaced
  cases listed.symm.trans listedAgain
  have spot : depths.expansion.Spot (fun _ => True) _ _ := .kept trivial listed
  obtain ⟨offset, resolved, placed, related, _⟩ := laid.exists_item spot
  obtain rfl := (laid.numbers insn resolved related).eq_of_indexed indexed
  rw [DepthState.step_mapTargets] at clean targets falls
  have room :
      depths.context.maxStack = code.maxStack ∨
        held.depth ≤ code.maxStack ∧ code.maxStack ≤ depths.context.maxStack :=
    carried.room.imp_right fun ⟨fits, larger⟩ => ⟨fits index held found, larger⟩
  have stepped :=
    @DepthState.step_widened _ _ ⟨pool, code.maxStack, type.result⟩ depths.context extra
      carried.grown carried.result room clean
  have weakens := carried.weakens_behind listed begins
  obtain ⟨blockClean, blockWeakens⟩ :=
    @DepthState.step_of_weakens depths.context resolved _ _ weakens (by rw [stepped])
  rw [stepped] at blockWeakens
  rw [← DepthState.step_mapTargets _ place] at blockClean blockWeakens
  have behind := behind_succ (held.widened extra) placed
  refine ⟨carried.runsClean_block listed begins placed blockClean, ?_, fun continues => ?_⟩
  · intro otherOffset other otherPlaced target member
    cases placed.symm.trans otherPlaced
    rw [Insn.targets_mapTargets] at member
    obtain ⟨label, among, rfl⟩ := List.mem_map.mp member
    obtain ⟨stood, stands⟩ := standing label among
    have rawMember :
        Body.originOf decoded code.handlers tables label ∈
          (resolved.mapTargets (Body.originOf decoded code.handlers tables)).targets := by
      rw [Insn.targets_mapTargets]
      exact List.mem_map_of_mem among
    rw [behind]
    exact carried.lands_of_leads stands (targets _ rawMember) blockWeakens
  · obtain ⟨next, goesOn, position, target, means, heldNext, weaker⟩ :=
      falls (by rwa [Insn.opcode_mapTargets])
    obtain rfl := laid.rawLayout.eq_of_offsetAfter goesOn means
    rw [behind]
    exact carried.begins_of_held heldNext (blockWeakens.trans (weaker.widened extra))

/-- Behind the body stands the throw of the handler around it. -/
theorem eq_throw
    (listed : depths.expansion.items[index]? = some item)
    (behind : decoded.insns.length ≤ index) :
    item.2 = .plain Opcode.throwReference := by
  refine carried.closing item ?_
  have length := carried.laid.rawLayout.length_eq
  rw [Expansion.items_eq carried.laid.regular, List.getElem?_append_right] at listed
  · exact List.mem_of_getElem? listed
  · rw [List.length_map, carried.laid.nodes, length]
    exact behind

/-- The block behind the body throws what the handler was entered with. -/
theorem passes_behind
    (listed : depths.expansion.items[index]? = some item)
    (begins : depths.states index = some state)
    (behind : decoded.insns.length ≤ index) :
    depths.Passes index item state := by
  have laid := carried.laid
  have throws := carried.eq_throw listed behind
  have spot : depths.expansion.Spot (fun _ => True) _ _ := .kept trivial listed
  obtain ⟨offset, resolved, placed, related, targets, endsFlow⟩ := laid.exists_item spot
  rw [throws] at related targets endsFlow
  obtain rfl := (laid.numbers _ resolved related).eq_of_indexed trivial
  have depth := (carried.weakens_behind listed begins).depth
  obtain rfl := carried.states_eq_of_behind begins behind
  have clean :
      ((depths.behind (depths.expansion.start index) (depths.expansion.ahead item).length
          ⟨1, List.replicate code.maxLocals.toNat false ++ extra⟩).step depths.context
        (.plain Opcode.throwReference)).2 = [] := by
    simp only [DepthState.step, List.append_eq_nil_iff]
    refine ⟨⟨rfl, rfl⟩, DepthState.moveStack_eq_nil_iff.mpr ⟨⟨1, 0⟩, rfl, ?_, fun _ => ?_⟩⟩
    · rw [DepthState.depth_touchLocal, ← depth]
      exact UInt16.le_refl 1
    · rw [DepthState.depth_touchLocal, ← depth]
      simp
  refine ⟨carried.runsClean_block listed begins placed clean, ?_, fun continues => ?_⟩
  · intro otherOffset other otherPlaced target member
    cases placed.symm.trans otherPlaced
    cases member
  · rw [throws] at continues
    cases continues

/-! ## Exceptions -/

/-- Where a handler of the body led to, its row leads in the expanded body. -/
theorem lands_of_caught
    {handler : Handler}
    {row : HandlerEntry}
    {at_ offset : Nat}
    {located : Insn}
    (member : handler ∈ body.handlers)
    (isOf : row.IsOf place handler)
    (listed : depths.expansion.items[index]? = some item)
    (found : original.getD index none = some held)
    (inside : at_ ≤ (depths.expansion.ahead item).length)
    (placed : depths.written[depths.expansion.start index + at_]? = some (offset, located))
    (covers : row.covers (UInt16.ofNat offset) = true) :
    depths.Lands row.handler ⟨1, (held.widened extra).assigned⟩ := by
  have laid := carried.laid
  obtain ⟨_, rawInsn, located, _, caught, _⟩ := carried.settled index held found
  obtain ⟨rawOffset, rawPlaced, rfl⟩ := LocatedCode.placed_of_located located
  obtain ⟨entry, entryListed, target, other, starts, stops, lands, targetPlaced⟩ :=
    laid.exists_covering member isOf listed inside placed covers rawPlaced
  have rawCovers : entry.covers (UInt16.ofNat rawOffset) = true :=
    (HandlerEntry.covers_ofNat_iff (laid.rawLayout.offset_lt rawPlaced)).mpr ⟨starts, stops⟩
  obtain ⟨position, stronger, means, heldThere, weaker⟩ := caught entry entryListed rawCovers
  have here := laid.rawLayout.positions_eq targetPlaced
  rw [UInt16.ofNat_toNat] at here
  obtain rfl := Option.some.inj (means.symm.trans here)
  refine ⟨position, ?_, carried.begins_of_held heldThere (weaker.widened extra)⟩
  have goal : row.handler = UInt16.ofNat (place handler.handler) := isOf.target
  rw [goal]
  exact laid.positions_place_eq lands targetPlaced

/-- A handler around the body covers the blocks of the body, and nothing else. -/
theorem covered_by_guard_iff
    {guard : Handler}
    {row : HandlerEntry}
    {position offset : Nat}
    {located : Insn}
    (member : guard ∈ guards)
    (isOf : row.IsOf place guard)
    (placed : depths.written[position]? = some (offset, located)) :
    row.covers (UInt16.ofNat offset) = true ↔
      depths.expansion.start 0 ≤ position ∧
        position < depths.expansion.start decoded.insns.length := by
  have laid := carried.laid
  obtain ⟨starts, stops, _⟩ := carried.guarded guard member
  have ends := Expansion.standsAt_closing laid.regular stops
  rw [laid.nodes, laid.rawLayout.length_eq, Nat.add_zero] at ends
  exact laid.layout.covers_iff isOf (Expansion.standsAt_of_core laid.regular starts) ends placed

/-- An exception in the body that nothing else catches enters the handler around it. -/
theorem lands_of_guard
    {guard : Handler}
    {row : HandlerEntry}
    (member : guard ∈ guards)
    (isOf : row.IsOf place guard)
    (found : original.getD index none = some held) :
    depths.Lands row.handler ⟨1, (held.widened extra).assigned⟩ := by
  have laid := carried.laid
  obtain ⟨_, _, lands, nonempty, sized⟩ := carried.guarded guard member
  have length := laid.rawLayout.length_eq
  have stands := Expansion.standsAt_closing laid.regular lands
  rw [laid.nodes, length, Nat.add_zero] at stands
  obtain ⟨first, rest, closing⟩ := List.exists_cons_of_ne_nil nonempty
  have listed : depths.expansion.items[decoded.insns.length]? = some first := by
    rw [Expansion.items_eq laid.regular, List.getElem?_append_right] <;>
      simp [laid.nodes, length, closing]
  obtain ⟨insn, spot⟩ := @Expansion.exists_spot_start _ (fun _ => True) _ _ trivial listed
  have inside := (List.getElem?_eq_some_iff.mp (Expansion.getElem?_of_spot laid.regular spot)).1
  have goal : row.handler = UInt16.ofNat (place guard.handler) := isOf.target
  refine ⟨decoded.insns.length, ?_, first,
    ⟨1, List.replicate code.maxLocals.toNat false ++ extra⟩, listed, ?_, ?_⟩
  · rw [goal]
    exact laid.layout.positions_place_eq stands inside
  · rw [carried.states, carry, if_neg (Nat.lt_irrefl _)]
  · have weaker :
        (⟨1, held.assigned⟩ : DepthState).Weakens
          ⟨1, List.replicate code.maxLocals.toNat false⟩ :=
      { depth := rfl
        count := by rw [List.length_replicate]; exact (sized index held found).symm
        assigned := fun slot marked => by
          rw [List.getElem?_replicate] at marked
          split at marked <;> cases marked }
    exact weaker.widened extra

/-- States that are carried over balance the expanded body. -/
theorem balanced : depths.Balanced where
  enters := carried.enters
  passes index item state listed begins := by
    by_cases inside : index < decoded.insns.length
    · obtain ⟨held, found, rfl⟩ := carried.exists_held begins inside
      exact carried.passes_of_held listed found begins
    · exact carried.passes_behind listed begins (Nat.not_lt.mp inside)
  uncaught position offset insn front placed row member := by
    refine Bool.eq_false_iff.mpr fun covers => ?_
    obtain ⟨handler, among, isOf⟩ := carried.rows row member
    rcases List.mem_append.mp among with own | guard
    · have within := carried.laid.within_of_covered own isOf placed covers
      omega
    · have within := (carried.covered_by_guard_iff guard isOf placed).mp covers
      rw [Expansion.start_zero] at within
      omega
  caught index item state position offset insn listed begins inside placed row member covers := by
    obtain ⟨handler, among, isOf⟩ := carried.rows row member
    have behind (notInside : ¬ index < decoded.insns.length) :
        ¬ depths.expansion.start index + position <
          depths.expansion.start decoded.insns.length := by
      have short := (List.getElem?_eq_some_iff.mp listed).1
      have mono :=
        @Expansion.start_mono depths.expansion decoded.insns.length index (Nat.not_lt.mp notInside)
          (Nat.le_of_lt short)
      omega
    by_cases within : index < decoded.insns.length
    · obtain ⟨held, found, rfl⟩ := carried.exists_held begins within
      rcases List.mem_append.mp among with own | guard
      · exact carried.lands_of_caught own isOf listed found inside placed covers
      · exact carried.lands_of_guard guard isOf found
    · rcases List.mem_append.mp among with own | guard
      · exact absurd (carried.laid.within_of_covered own isOf placed covers).2 (behind within)
      · exact absurd ((carried.covered_by_guard_iff guard isOf placed).mp covers).2 (behind within)

end Carried

end Depths

end JvmClass
