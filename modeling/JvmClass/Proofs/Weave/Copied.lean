import JvmClass.Proofs.Weave.Emitted

namespace JvmClass

/-!
# Bodies that are written as they were read

Nothing is inserted into the body of a method that is not timed.  Its instructions stay
in their order, and its frames move with their labels.  So frames are needed where they
were needed before, and they are declared there.
-/

namespace Body

@[simp] theorem items_unexpanded (body : Body) :
    body.unexpanded.items = (Node.insns body.nodes).map (Origin.original, ·) := by
  rw [Expansion.items_eq body.regular_unexpanded]
  simp [unexpanded, Flow.insns]

@[simp] theorem ahead_unexpanded
    (body : Body)
    (item : Origin × Insn) :
    body.unexpanded.ahead item = [] :=
  rfl

/-- Where nothing is inserted, each block is one instruction. -/
theorem start_unexpanded
    {body : Body}
    {index : Nat}
    (inside : index ≤ (Node.insns body.nodes).length) :
    body.unexpanded.start index = index := by
  induction index with
  | zero => rfl
  | succ index inductionHypothesis =>
      have listed :
          body.unexpanded.items[index]? = some (.original, (Node.insns body.nodes)[index]) := by
        rw [items_unexpanded, List.getElem?_map, List.getElem?_eq_getElem inside]
        rfl
      rw [Expansion.start_succ listed, inductionHypothesis (Nat.le_of_succ_le inside),
        ahead_unexpanded]
      rfl

end Body

namespace Expansion.Laid

open DepthProgress

variable
  {resolves : Insn → Insn → Prop} {pool : Pool} {code : CodeAttribute Attribute} {body : Body}
  {decoded : Body.Decoded} {tables : Body.Tables} {place : Label → Nat}
  {written : List (Nat × Insn)} {size position offset : Nat} {insn : Insn}
  (laid : body.unexpanded.Laid resolves pool code body decoded tables place written size)
include laid

/-- Where nothing is inserted, an instruction lies at the position that it had. -/
theorem exists_own
    (placed : written[position]? = some (offset, insn)) :
    ∃ (rawOffset : Nat) (own : Insn),
      decoded.insns[position]? =
          some (rawOffset, own.mapTargets (Body.originOf decoded code.handlers tables)) ∧
        insn.targets = own.targets.map place ∧
        insn.opcode.endsFlow = own.opcode.endsFlow ∧
        ∀ label ∈ own.targets, ∃ stood, Node.StandsAt label body.nodes stood := by
  obtain ⟨own, resolved, listed, related, rfl⟩ := laid.layout.exists_listed placed
  have wellFormed := laid.wellFormed own (List.mem_of_getElem? listed)
  rw [body.map_snd_tagged_unexpanded] at listed
  obtain ⟨rawOffset, _, rawPlaced, rfl⟩ := laid.rawLayout.exists_placed listed
  obtain ⟨again, listedAgain, same, _, standing⟩ := laid.exists_original rawPlaced
  rw [Body.items_unexpanded, List.getElem?_map, listed] at listedAgain
  cases listedAgain
  have numbered := laid.numbers own resolved related
  refine ⟨rawOffset, own, rawPlaced, ?_, ?_, standing⟩
  · rw [Insn.targets_mapTargets, numbered.targets_eq]
  · rw [Insn.opcode_mapTargets, numbered.endsFlow_eq wellFormed]

/-- A label of the body stands where its place means that it does. -/
theorem exists_stood
    {label : Label}
    {stood target : Nat}
    (stands : Node.StandsAt label body.nodes stood)
    (means : (LocatedCode.ofInsns written).positions[UInt16.ofNat (place label)]? = some target) :
    ∃ own,
      decoded.insns[target]? = some (Body.originOf decoded code.handlers tables label, own) := by
  have tagged :=
    standsAt_tagged laid.regular (show Node.StandsAt label body.unexpanded.nodes stood from stands)
  rw [Body.start_unexpanded stands.le_length] at tagged
  obtain ⟨rfl, _, _, placed⟩ := laid.layout.eq_of_positions_place tagged means
  obtain ⟨rawOffset, own, rawPlaced, _⟩ := laid.exists_own placed
  rw [laid.rawLayout.place_eq stands rawPlaced]
  exact ⟨_, rawPlaced⟩

/-- A frame is needed in front of an instruction only if it was needed in front of it before. -/
theorem exists_needs
    {handlers : List HandlerEntry}
    {needed : UInt16}
    {target : Nat}
    (rows : ∀ row ∈ handlers, ∃ handler ∈ body.handlers, row.IsOf place handler)
    (needs : Needs written handlers position needed)
    (means : (LocatedCode.ofInsns written).positions[needed]? = some target) :
    ∃ (rawOffset : Nat) (own : Insn),
      decoded.insns[target]? = some (rawOffset, own) ∧
        Needs decoded.insns code.handlers position (UInt16.ofNat rawOffset) := by
  cases needs with
  | target located member =>
      obtain ⟨_, placed, rfl⟩ := LocatedCode.placed_of_located located
      obtain ⟨rawOffset, own, rawPlaced, targets, _, standing⟩ := laid.exists_own placed
      rw [targets] at member
      obtain ⟨label, among, rfl⟩ := List.mem_map.mp member
      obtain ⟨stood, stands⟩ := standing label among
      obtain ⟨other, targetPlaced⟩ := laid.exists_stood stands means
      refine ⟨_, other, targetPlaced, .target (LocatedCode.located_of_placed rawPlaced) ?_⟩
      rw [Insn.targets_mapTargets]
      exact List.mem_map_of_mem among
  | @caught _ _ row located member covers =>
      obtain ⟨number, placed, rfl⟩ := LocatedCode.placed_of_located located
      obtain ⟨rawOffset, own, rawPlaced, _⟩ := laid.exists_own placed
      obtain ⟨handler, among, isOf⟩ := rows row member
      obtain ⟨item, listed⟩ := laid.exists_item_of_lt (List.getElem?_eq_some_iff.mp rawPlaced).1
      have start := @Body.start_unexpanded body position <| by
        rw [laid.rawLayout.length_eq]
        exact Nat.le_of_lt (List.getElem?_eq_some_iff.mp rawPlaced).1
      rw [← start] at placed
      obtain ⟨entry, entryListed, stood, other, starts, stops, stands, targetPlaced⟩ :=
        laid.exists_covering among isOf listed (Nat.zero_le _) placed covers rawPlaced
      have goal : row.handler = UInt16.ofNat (place handler.handler) := isOf.target
      rw [goal] at means
      obtain ⟨again, targetAgain⟩ := laid.exists_stood stands means
      rw [laid.rawLayout.place_eq stands targetPlaced] at targetAgain
      refine ⟨_, again, targetAgain, ?_⟩
      rw [UInt16.ofNat_toNat]
      refine .caught (LocatedCode.located_of_placed rawPlaced) entryListed ?_
      have small := laid.rawLayout.offset_lt rawPlaced
      exact (HandlerEntry.covers_ofNat_iff small).mpr ⟨starts, stops⟩
  | behind located ends follows =>
      obtain ⟨_, placed, rfl⟩ := LocatedCode.placed_of_located located
      obtain ⟨rawOffset, own, rawPlaced, _, endsFlow, _⟩ := laid.exists_own placed
      obtain rfl := laid.layout.eq_of_offsetAfter follows means
      obtain ⟨_, located⟩ := LocatedCode.insn_of_positions means
      obtain ⟨_, placedBehind, _⟩ := LocatedCode.placed_of_located located
      obtain ⟨behindOffset, other, rawBehind, _⟩ := laid.exists_own placedBehind
      refine ⟨behindOffset, _, rawBehind, .behind (LocatedCode.located_of_placed rawPlaced) ?_ ?_⟩
      · rw [Insn.opcode_mapTargets, ← endsFlow]
        exact ends
      · rw [LocatedCode.offsetAfter?, LocatedCode.located_of_placed rawBehind]
        rfl

end Expansion.Laid

namespace Emission.Sound

variable
  {emission : Emission}
  (sound : emission.Sound)
  (unexpanded : emission.expansion = emission.body.unexpanded)
  (copied : emission.output = emission.body)
include sound unexpanded copied

/-- A frame that the body declared is declared at the same instruction. -/
theorem mem_declaredOffsets
    {position offset rawOffset : Nat}
    {insn own : Insn}
    (placed : emission.written[position]? = some (offset, insn))
    (rawPlaced : emission.decoded.insns[position]? = some (rawOffset, own))
    (declared : UInt16.ofNat rawOffset ∈ Verify.declaredOffsets emission.code) :
    UInt16.ofNat offset ∈ Verify.declaredOffsets emission.raw := by
  have laid := sound.laid
  have short := laid.size_lt
  have decodes := sound.decodes
  have rawLayout := laid.rawLayout
  have assembled := sound.assembled
  rw [unexpanded] at laid
  rw [copied] at assembled
  obtain ⟨⟨number, frame⟩, listed, same⟩ :=
    (Body.mem_declaredOffsets_iff short decodes.tablesRead).mp declared
  have inside : number < emission.decoded.size :=
    ((Body.Tables.reflects_of_ofAttributes decodes.tablesRead).frames _ listed).2.1
  have sameNumber : number = rawOffset := by
    have numbers := congrArg UInt16.toNat same
    rwa [UInt16.toNat_ofNat_of_lt' (Nat.lt_trans inside short),
      UInt16.toNat_ofNat_of_lt' (rawLayout.offset_lt rawPlaced)] at numbers
  subst sameNumber
  have refers : number ∈ Body.references emission.decoded emission.code.handlers emission.tables :=
    List.mem_append_right _ (List.mem_map_of_mem listed)
  obtain ⟨stood, _, stands, stoodPlaced⟩ := decodes.exists_standsAt_inside refers inside
  obtain rfl :=
    rawLayout.position_eq (Layout.getElem?_offsets stoodPlaced) (Layout.getElem?_offsets rawPlaced)
  have held :
      (⟨(Body.labelingOf emission.decoded emission.code.handlers emission.tables).labelAt number,
          frame⟩ : PlacedFrame) ∈ emission.body.frames := by
    rw [decodes.shape]
    exact List.mem_map_of_mem listed
  have moved := assembled.mem_declaredOffsets held
  have tagged :=
    Expansion.standsAt_tagged laid.regular
      (show Node.StandsAt _ emission.body.unexpanded.nodes stood from stands)
  rw [Body.start_unexpanded stands.le_length] at tagged
  rwa [laid.layout.place_eq tagged placed] at moved

omit sound copied in
/-- Where nothing is inserted, states lie only where one was found. -/
theorem exists_held_of_holds
    {original : Array (Option DepthState)}
    {position : Nat}
    {state : DepthState}
    (length : (Node.insns emission.body.nodes).length = emission.decoded.insns.length)
    (holds : (emission.depths original []).Holds position state) :
    ∃ held, original.getD position none = some held := by
  cases holds with
  | entry inside =>
      replace inside : position < emission.expansion.entry.length := inside
      rw [unexpanded] at inside
      exact absurd inside (Nat.not_lt_zero _)
  | @block index place item state listed inside begins =>
      replace listed : emission.expansion.items[index]? = some item := listed
      replace inside : place ≤ (emission.expansion.ahead item).length := inside
      replace begins :
        Depths.carry original emission.decoded.insns.length emission.code.maxLocals.toNat [] index =
          some state := begins
      rw [unexpanded] at listed inside
      obtain rfl := Nat.le_zero.mp inside
      rw [Body.items_unexpanded] at listed
      have short := (List.getElem?_eq_some_iff.mp listed).1
      rw [List.length_map] at short
      rw [Depths.carry, if_pos (length ▸ short)] at begins
      obtain ⟨held, found, _⟩ := Option.map_eq_some_iff.mp begins
      refine ⟨held, ?_⟩
      show original.getD (emission.expansion.start index + 0) none = some held
      rw [unexpanded, Body.start_unexpanded (Nat.le_of_lt short)]
      exact found

/-- What the check found along a body is carried over to its copy. -/
theorem carried_copied
    {original : Array (Option DepthState)}
    (nothing : emission.guards = [])
    (finds : emission.Finds original) :
    (emission.depths original []).Carried (LaidOut.Finds emission.start emission.grown)
      emission.pool emission.type emission.code emission.body emission.decoded emission.tables
      emission.labels.place emission.raw.code.length original [] emission.guards := by
  have sameStack : emission.raw.maxStack = emission.code.maxStack := by
    rw [sound.assembled.maxStack, copied, sound.maxStack_eq]
  have sameLocals : emission.raw.maxLocals = emission.code.maxLocals := by
    rw [sound.assembled.maxLocals, copied, sound.maxLocals_eq]
  have noEntry : (emission.depths original []).expansion.entry.length = 0 := by
    rw [expansion_depths, unexpanded]
    rfl
  have enters : (emission.depths original []).Enters := by
    constructor
    · rw [noEntry]
      exact DepthState.runsClean_nil
    · rw [noEntry, Depths.behind_zero]
      refine sound.begins_zero finds ?_
      show (DepthState.onEntry _ _ emission.raw.maxLocals).1.Weakens _
      rw [sameLocals]
      simp only [DepthState.widened, List.append_nil]
      exact .refl _
  refine sound.carried finds (.inl sameStack) ?_ (absurd nothing) enters fun _ item _ _ _ => ?_
  · rw [unexpanded, nothing]
    exact ⟨by simp, by simp [Body.unexpanded, Flow.insns]⟩
  · have noSnippet : (emission.expansion.ahead item).length = 0 := by
      rw [unexpanded]
      rfl
    rw [noSnippet]
    exact .nil _

/-- Nothing is wrong with a checked body that is written as it was read. -/
theorem checkBody_eq_nil
    {descriptor : String}
    (nothing : emission.guards = [])
    (typed : MethodType.ofDescriptor descriptor = .ok emission.type) :
    Verify.checkBody emission.last emission.access descriptor emission.raw emission.framed =
      [] := by
  have laid := sound.laid
  have length := laid.rawLayout.length_eq
  have carried := sound.carried_copied unexpanded copied nothing sound.finds_solved
  obtain ⟨states, fixpoint, represents⟩ := carried.balanced.exists_fixpoint sound.laid
  have reached {position : Nat} (found : (states.getD position none).isSome = true) :
      (DepthProgress.solved emission.pool emission.isStatic emission.type emission.code
        emission.decoded.insns).Reaches position := by
    obtain ⟨state, found⟩ := Option.isSome_iff_exists.mp found
    obtain ⟨held, heldAt⟩ :=
      exists_held_of_holds unexpanded length ((represents position state).mp found)
    exact Option.isSome_iff_exists.mpr ⟨held, heldAt⟩
  refine
    DepthProgress.checkBody_eq_nil_of_fixpoint typed sound.assembled.decoded sound.written_ne_nil
      (Nat.le_trans sound.fits sound.room) fixpoint ?_
  intro framed position needed target reachedHere needs means reachedThere
  have rows (row : HandlerEntry) (member : row ∈ emission.raw.handlers) :
      ∃ handler ∈ emission.body.handlers, row.IsOf emission.labels.place handler := by
    obtain ⟨handler, among, isOf⟩ := sound.assembled.rows row member
    exact ⟨handler, copied ▸ among, isOf⟩
  obtain ⟨offset, located⟩ := LocatedCode.insn_of_positions means
  obtain ⟨number, placed, rfl⟩ := LocatedCode.placed_of_located located
  rw [unexpanded] at laid
  obtain ⟨rawOffset, own, rawPlaced, rawNeeds⟩ := laid.exists_needs rows needs means
  refine sound.mem_declaredOffsets unexpanded copied placed rawPlaced ?_
  have checked := sound.checked
  rw [framed] at checked
  refine
    DepthProgress.declared_of_needs checked.nonempty checked.clean (reached reachedHere) rawNeeds ?_
  rw [DepthProgress.reaches, laid.rawLayout.positions_eq rawPlaced]
  exact reached reachedThere

end Emission.Sound

end JvmClass
