import JvmClass.Proofs.Verify.Framed
import JvmClass.Proofs.Verify.Paths

namespace JvmClass.Verify

/-!
# Instructions that paths visit

In a checked body paths go from instructions to instructions, and wherever they
do not just go on to the next one, the body declares a frame.
-/

/-- Some path through a body comes to the instruction at a position. -/
def Visited
    (pool : Pool)
    (isStatic : Bool)
    (type : MethodType)
    (body : CodeAttribute Attribute)
    (insns : List (Nat × Insn))
    (position : Nat) : Prop :=
  ∃ point insn,
    Relation.ReflTransGen (PathStep pool body insns) (.entry type isStatic) point ∧
      insns[position]? = some (point.offset, insn)

namespace Checked

variable
  {pool : Pool} {isStatic framed : Bool} {type : MethodType} {body : CodeAttribute Attribute}
  {insns : List (Nat × Insn)} {position offset : Nat} {insn : Insn}

/-- A path that comes to a place comes to the instruction there. -/
theorem exists_visited
    {point : PathPoint}
    (checked : Checked pool isStatic type body framed insns)
    (path : Relation.ReflTransGen (PathStep pool body insns) (.entry type isStatic) point) :
    ∃ position insn,
      insns[position]? = some (point.offset, insn) ∧
        Visited pool isStatic type body insns position := by
  obtain ⟨position, insn, state, held⟩ := checked.exists_held path
  exact ⟨position, insn, held.placed, point, insn, path, held.placed⟩

theorem visited_zero
    (checked : Checked pool isStatic type body framed insns) :
    Visited pool isStatic type body insns 0 := by
  obtain ⟨position, insn, placed, visited⟩ := checked.exists_visited .refl
  have decodes := checked.decodes
  cases insns with
  | nil => exact absurd rfl checked.nonempty
  | cons first rest =>
      have first : (first :: rest)[0]? = some ((PathPoint.entry type isStatic).offset, first.2) := by
        rw [List.getElem?_cons_zero, PathPoint.entry, ← decodes.offset_first]
      rwa [position_eq_of_offset decodes placed first] at visited

/-- A path that comes to an instruction has a state there and the instruction suits it. -/
theorem exists_held_of_visited
    (checked : Checked pool isStatic type body framed insns)
    (visited : Visited pool isStatic type body insns position)
    (placed : insns[position]? = some (offset, insn)) :
    ∃ point state,
      Relation.ReflTransGen (PathStep pool body insns) (.entry type isStatic) point ∧
        point.offset = offset ∧
          point.Held insns (DepthProgress.solved pool isStatic type body insns).states
            body.maxLocals.toNat position insn state := by
  obtain ⟨point, other, path, otherPlaced⟩ := visited
  cases placed.symm.trans otherPlaced
  obtain ⟨found, held, state, foundHeld⟩ := checked.exists_held path
  obtain rfl := position_eq_of_offset checked.decodes foundHeld.placed otherPlaced
  cases foundHeld.placed.symm.trans otherPlaced
  exact ⟨point, state, path, rfl, foundHeld⟩

theorem reaches_of_visited
    (checked : Checked pool isStatic type body framed insns)
    (visited : Visited pool isStatic type body insns position) :
    (DepthProgress.solved pool isStatic type body insns).Reaches position := by
  obtain ⟨point, insn, _, placed⟩ := id visited
  obtain ⟨_, state, _, _, held⟩ := checked.exists_held_of_visited visited placed
  simp [DepthProgress.Reaches, held.held]

/-- A path that comes to an instruction finds what the instruction needs. -/
theorem exists_allows
    (checked : Checked pool isStatic type body framed insns)
    (visited : Visited pool isStatic type body insns position)
    (placed : insns[position]? = some (offset, insn)) :
    ∃ point,
      Relation.ReflTransGen (PathStep pool body insns) (.entry type isStatic) point ∧
        point.offset = offset ∧ point.Allows pool body.maxLocals insn := by
  obtain ⟨_, fixpoint⟩ := DepthProgress.fixpoint_of_checkInsns checked.nonempty checked.clean
  obtain ⟨point, state, path, here, held⟩ := checked.exists_held_of_visited visited placed
  exact ⟨point, path, here, allows_of_held fixpoint held⟩

/-- The local variables that a visited instruction touches exist. -/
theorem access_le
    {access : SlotAccess}
    (checked : Checked pool isStatic type body framed insns)
    (visited : Visited pool isStatic type body insns position)
    (placed : insns[position]? = some (offset, insn))
    (touched : insn.access? = some access) :
    access.index.toNat + access.width ≤ body.maxLocals.toNat := by
  obtain ⟨_, fixpoint⟩ := DepthProgress.fixpoint_of_checkInsns checked.nonempty checked.clean
  obtain ⟨point, state, _, rfl, held⟩ := checked.exists_held_of_visited visited placed
  obtain ⟨_, _, located, clean, _⟩ := fixpoint.settled position state held.held
  rw [LocatedCode.getElem?_insns_ofInsns, placed, Option.map_some] at located
  cases located
  have inside := (DepthState.cleanStep_of_step clean).inside access touched
  rwa [held.count] at inside

/-! ## Where paths go from an instruction -/

section Onward

/-- The offset of an instruction that a path comes to is reached. -/
theorem reaches_of_placed
    (checked : Checked pool isStatic type body framed insns)
    (visited : Visited pool isStatic type body insns position)
    (placed : insns[position]? = some (offset, insn)) :
    (DepthProgress.solved pool isStatic type body insns).reaches (.ofInsns insns)
      (UInt16.ofNat offset) = true := by
  rw [DepthProgress.reaches, checked.decodes.positions_eq checked.short placed]
  exact checked.reaches_of_visited visited

theorem visited_of_target
    {target : Nat}
    (checked : Checked pool isStatic type body framed insns)
    (visited : Visited pool isStatic type body insns position)
    (placed : insns[position]? = some (offset, insn))
    (member : target ∈ insn.targets) :
    ∃ next item,
      insns[next]? = some (target, item) ∧ Visited pool isStatic type body insns next := by
  obtain ⟨point, path, rfl, allows⟩ := checked.exists_allows visited placed
  obtain ⟨effect, moves, _⟩ := allows.operands
  exact checked.exists_visited
    (path.tail (.branch (List.mem_of_getElem? placed) moves member))

/-- Control that goes on finds the next instruction. -/
theorem visited_next
    (checked : Checked pool isStatic type body framed insns)
    (visited : Visited pool isStatic type body insns position)
    (placed : insns[position]? = some (offset, insn))
    (continues : insn.opcode.endsFlow = false) :
    ∃ item,
      insns[position + 1]? = some item ∧ Visited pool isStatic type body insns (position + 1) := by
  obtain ⟨point, path, rfl, allows⟩ := checked.exists_allows visited placed
  obtain ⟨effect, moves, _⟩ := allows.operands
  obtain ⟨next, item, nextPlaced, nextVisited⟩ :=
    checked.exists_visited (path.tail (.fall placed moves continues))
  cases behind : insns[position + 1]? with
  | none =>
      -- The end of the body is no instruction.
      simp only [behind, Option.map_none, Option.getD_none] at nextPlaced
      have inside :=
        checked.decodes.placed.2 _ (List.mem_map_of_mem (List.mem_of_getElem? nextPlaced))
      simp at inside
  | some found =>
      simp only [behind, Option.map_some, Option.getD_some] at nextPlaced
      rw [position_eq_of_offset checked.decodes nextPlaced behind] at nextVisited
      exact ⟨found, rfl, nextVisited⟩

theorem visited_of_caught
    {entry : HandlerEntry}
    (checked : Checked pool isStatic type body framed insns)
    (visited : Visited pool isStatic type body insns position)
    (placed : insns[position]? = some (offset, insn))
    (member : entry ∈ body.handlers)
    (starts : entry.start.toNat ≤ offset)
    (stops : offset < entry.stop.toNat) :
    ∃ next item,
      insns[next]? = some (entry.handler.toNat, item) ∧
        Visited pool isStatic type body insns next := by
  obtain ⟨point, path, rfl, _⟩ := checked.exists_allows visited placed
  exact checked.exists_visited
    (path.tail (.caught (List.mem_of_getElem? placed) member starts stops))

/-- The body declares a frame at each target of a visited instruction. -/
theorem declared_of_target
    {target : Nat}
    (checked : Checked pool isStatic type body true insns)
    (visited : Visited pool isStatic type body insns position)
    (placed : insns[position]? = some (offset, insn))
    (member : target ∈ insn.targets) :
    UInt16.ofNat target ∈ declaredOffsets body := by
  obtain ⟨next, item, nextPlaced, nextVisited⟩ := checked.visited_of_target visited placed member
  exact
    DepthProgress.declared_of_needs checked.nonempty checked.clean
      (checked.reaches_of_visited visited) (.target (LocatedCode.located_of_placed placed) member)
      (checked.reaches_of_placed nextVisited nextPlaced)

/-- The body declares a frame at each handler that covers a visited instruction. -/
theorem declared_of_caught
    {entry : HandlerEntry}
    (checked : Checked pool isStatic type body true insns)
    (visited : Visited pool isStatic type body insns position)
    (placed : insns[position]? = some (offset, insn))
    (member : entry ∈ body.handlers)
    (starts : entry.start.toNat ≤ offset)
    (stops : offset < entry.stop.toNat) :
    entry.handler ∈ declaredOffsets body := by
  obtain ⟨next, item, nextPlaced, nextVisited⟩ :=
    checked.visited_of_caught visited placed member starts stops
  have lands := checked.reaches_of_placed nextVisited nextPlaced
  rw [UInt16.ofNat_toNat] at lands
  have small := offset_lt_of_decodes checked.decodes checked.short placed
  have covers : entry.covers (UInt16.ofNat offset) = true :=
    (HandlerEntry.covers_ofNat_iff small).mpr ⟨starts, stops⟩
  exact
    DepthProgress.declared_of_needs checked.nonempty checked.clean
      (checked.reaches_of_visited visited)
      (.caught (LocatedCode.located_of_placed placed) member covers) lands

/-- Where no frame is declared, paths come only from the instruction before. -/
theorem visited_before_of_undeclared
    (checked : Checked pool isStatic type body true insns)
    (visited : Visited pool isStatic type body insns (position + 1))
    (placed : insns[position + 1]? = some (offset, insn))
    (undeclared : UInt16.ofNat offset ∉ declaredOffsets body) :
    Visited pool isStatic type body insns position ∧
      ∃ item, insns[position]? = some item ∧ item.2.opcode.endsFlow = false := by
  obtain ⟨point, other, path, here⟩ := visited
  cases placed.symm.trans here
  rcases Relation.ReflTransGen.cases_tail path with same | ⟨before, earlier, step⟩
  · -- At the first instruction nothing comes before.
    obtain ⟨point, other, _, first⟩ := checked.visited_zero
    have offsetFirst : point.offset = 0 := by
      have decodes := checked.decodes
      cases insns with
      | nil => cases first
      | cons head rest =>
          cases first
          exact decodes.offset_first
    rw [offsetFirst] at first
    rw [same] at placed
    cases position_eq_of_offset checked.decodes placed first
  · obtain ⟨found, item, foundPlaced, foundVisited⟩ := checked.exists_visited earlier
    cases step with
    | branch member moves target =>
        obtain ⟨other, otherPlaced⟩ := List.mem_iff_getElem?.mp member
        have same := position_eq_of_offset checked.decodes otherPlaced foundPlaced
        subst same
        exact absurd (checked.declared_of_target foundVisited otherPlaced target) undeclared
    | caught _ member starts stops =>
        have declared := checked.declared_of_caught foundVisited foundPlaced member starts stops
        exact absurd (UInt16.ofNat_toNat ▸ declared) undeclared
    | @fall _ _ other otherPlaced moves continues =>
        have same := position_eq_of_offset checked.decodes otherPlaced foundPlaced
        subst same
        obtain ⟨next, nextPlaced, _⟩ := checked.visited_next foundVisited otherPlaced continues
        simp only [nextPlaced, Option.map_some, Option.getD_some] at placed
        have behind := position_eq_of_offset checked.decodes placed nextPlaced
        obtain rfl : position = other := by omega
        exact ⟨foundVisited, _, otherPlaced, continues⟩

end Onward

end Checked

end JvmClass.Verify
