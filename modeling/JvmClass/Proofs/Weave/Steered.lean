import JvmClass.Proofs.Weave.Course

namespace JvmClass

/-!
# Analyses of expanded bodies

Each step of an analysis of an expanded body keeps the states near to the types
along the body.
-/

open FrameState

namespace Course.Regular

variable
  {course : Course} {resolves : Insn → Insn → Prop} {body : Body} {tables : Body.Tables}
  {place : Label → Nat} {size : Nat} {guards : List Handler} {ranges : List HandlerRange}
  {index position offset : Nat} {insn item : Insn} {listedItem : Origin × Insn}
  {state behind expected next : FrameState}

section Caught

variable (regular : course.Regular resolves body tables place size guards ranges)
include regular

/-- An exception goes to a handler whose types are declared, or to the one behind the body. -/
theorem feeds_of_caught
    {range : HandlerRange}
    {target : Nat}
    (member : range ∈ ranges)
    (live : course.Live position)
    (placed : course.written[position]? = some (offset, item))
    (covers : range.covers (UInt16.ofNat offset) = true)
    (means : (LocatedCode.ofInsns course.written).positions[range.handler]? = some target)
    (arrives : Arrives (course.bound position) (course.kept position) state) :
    course.Feeds target ⟨state.locals, [range.caught]⟩ := by
  obtain ⟨handler, listed, isOf⟩ := regular.ranges range member
  rcases List.mem_append.mp listed with ofBody | guard
  · obtain ⟨notBefore, inside⟩ := regular.lies.within_of_covered ofBody isOf placed covers
    rcases cases_of_live live with before | ⟨index, ahead, _, isAmong, itemListed, short, rfl⟩
    · omega
    · have visited : Verify.Visited course.pool course.isStatic course.type course.code
          course.decoded.insns index :=
        isAmong.resolve_right
          (Nat.not_le.mpr ((regular.inside_iff itemListed short).mp inside))
      obtain ⟨goal, _, _, goalMeans, goalVisited, goalPlaced, anchored⟩ :=
        regular.lies.caught_of_visited ofBody isOf visited itemListed short placed covers
      obtain rfl := Option.some.inj (means.symm.trans goalMeans)
      obtain ⟨declared, found⟩ := regular.anchored _ _ _ goalPlaced anchored
      have goalInside : goal < course.length := (List.getElem?_eq_some_iff.mp goalPlaced).1
      obtain ⟨goalItem, goalListed⟩ := regular.lies.exists_item_of_lt goalInside
      have goalBound := regular.start_lt_end goalInside
      refine feeds_of_arrives (Expansion.exists_spot_start (.inl goalVisited) goalListed) found ?_
      rw [bound_eq goalBound, kept_eq (by simpa using Expansion.le_start) goalBound]
      rw [bound_eq inside, kept_eq (by simpa using notBefore) inside] at arrives
      exact ⟨arrives.room, arrives.keeps⟩
  · obtain ⟨caught, _, _, stands, short⟩ := regular.guards handler guard
    obtain ⟨last, lastListed⟩ : ∃ last, course.expansion.items[course.length]? = some last :=
      ⟨_, List.getElem?_eq_getElem short⟩
    have live : course.Live (course.expansion.start course.length) :=
      Expansion.exists_spot_start (.inr (Nat.le_refl _)) lastListed
    obtain ⟨_, spot⟩ := id live
    have inside :=
      (List.getElem?_eq_some_iff.mp (Expansion.getElem?_of_spot regular.lies.regular spot)).1
    have there := regular.lies.layout.positions_place_eq stands inside
    rw [isOf.target] at means
    obtain rfl := Option.some.inj (means.symm.trans there)
    obtain ⟨noBound, noKept⟩ :=
      bound_of_not_lt (Nat.le_refl (course.expansion.start course.length))
    have first := regular.start_lt_end regular.length_pos
    have free : declaredAt course.rules.declared course.written
        (course.expansion.start course.length) = none :=
      regular.declaredAt_eq_none fun index inside =>
        (Nat.ne_of_lt (regular.start_lt_end inside)).symm
    have typed : course.types (course.expansion.start course.length) =
        some ⟨[], [.object throwableName]⟩ := by
      refine typing_of_given ?_
      simp only [given, free, if_neg (show course.expansion.start course.length ≠ 0 by omega),
        if_pos]
    refine feeds_of_near live typed (not_loaded_start lastListed) ?_
    have thrown : range.caught = .object throwableName := by
      rw [HandlerRange.caught, isOf.catchType, caught]
      rfl
    rw [noBound, noKept, thrown]
    have room (state : FrameState) : Arrives 0 none state := ⟨Nat.zero_le _, by simp⟩
    exact
      ⟨⟨.cons (SlotType.expected_self (by simp)) .nil, ⟨Nat.zero_le _, Nat.zero_le _⟩, by simp⟩,
        room _, room _⟩

end Caught

section Absorbing

variable (regular : course.Regular resolves body tables place size guards ranges)
include regular

/-- What is absorbed keeps states near to the types along the body. -/
theorem spares_absorb
    {number : UInt16}
    {existing : Option FrameState}
    (located : (LocatedCode.ofInsns course.written).insns[position]? = some (number, item))
    (held : ∀ state ∈ existing, course.Accepts position state)
    (fed : course.Feeds position state) :
    Spares (course.Accepts position) (absorb course.rules number existing state) := by
  obtain ⟨offset, placed, rfl⟩ := LocatedCode.placed_of_located located
  have declaredHere :
      declaredAt course.rules.declared course.written position =
        course.rules.declared[UInt16.ofNat offset]? :=
    declaredAt_of_placed placed
  cases found : declaredAt course.rules.declared course.written position with
  | some declared =>
      obtain ⟨fixes, index, inside, same⟩ := regular.declared position declared found
      have before : position < course.expansion.start course.length :=
        same ▸ regular.start_lt_end inside
      have unloaded := regular.not_loaded_of_declared found
      have typed : course.types position = some declared :=
        typing_of_given (by simp only [given, found])
      have arrives := fed.arrives declared found
      rw [bound_eq before] at arrives
      refine (spares_absorb_of_fixes (declaredHere.symm.trans found) fixes ?_ arrives).imp
        fun absorbed near => ⟨fed.live, declared, typed, .near unloaded (by rwa [bound_eq before])⟩
      intro other member
      obtain ⟨_, expected, otherTyped, suits⟩ := held other member
      obtain rfl := Option.some.inj (typed.symm.trans otherTyped)
      cases suits with
      | near _ near => rwa [bound_eq before] at near
      | loaded loaded _ _ => exact absurd loaded unloaded
  | none =>
      obtain ⟨live, expected, typed, suits⟩ := fed.accepts found
      have undeclared := declaredHere.symm.trans found
      have same {other : FrameState} (member : other ∈ existing) :
          course.Suits position other expected := by
        obtain ⟨_, otherExpected, otherTyped, suits⟩ := held other member
        obtain rfl := Option.some.inj (typed.symm.trans otherTyped)
        exact suits
      cases suits with
      | near unloaded near =>
          refine (spares_absorb_of_near undeclared (fun other member => ?_) near).imp
            fun absorbed near => ⟨live, expected, typed, .near unloaded near⟩
          cases same member with
          | near _ near => exact near
          | loaded loaded _ _ => exact absurd loaded unloaded
      | @loaded type loaded keeps near =>
          refine (spares_absorb_of_nearLoaded undeclared (fun other member => ?_) near).imp
            fun absorbed near => ⟨live, expected, typed, .loaded loaded keeps near⟩
          cases same member with
          | near unloaded _ => exact absurd loaded unloaded
          | loaded _ otherKeeps near =>
              obtain rfl := Option.some.inj (keeps.symm.trans otherKeeps)
              exact near

end Absorbing

/-! ## Steps -/

section Steps

variable (regular : course.Regular resolves body tables place size guards ranges)
include regular

/-- Positions of one block lie on one side of the end of the body. -/
theorem zone_eq
    {first second : Nat}
    (listed : course.expansion.items[index]? = some listedItem)
    (firstInside : first ≤ (course.expansion.ahead listedItem).length)
    (secondInside : second ≤ (course.expansion.ahead listedItem).length) :
    course.bound (course.expansion.start index + first) =
        course.bound (course.expansion.start index + second) ∧
      course.kept (course.expansion.start index + first) =
        course.kept (course.expansion.start index + second) := by
  have firstIff := regular.inside_iff listed firstInside
  have secondIff := regular.inside_iff listed secondInside
  have front : course.expansion.entry.length ≤ course.expansion.start index := Expansion.le_start
  have before (place : Nat) : course.expansion.start 0 ≤ course.expansion.start index + place := by
    rw [Expansion.start_zero]
    omega
  simp only [bound, kept, firstIff, secondIff, before, true_and, and_self]

/-- A quiet instruction keeps near what is near. -/
theorem spares_of_quiet
    {resolved : Insn}
    (related : resolves insn resolved)
    (quiet : insn.isQuiet = true)
    (near : Near (course.bound position) (course.kept position) state expected) :
    Spares
      (fun behind =>
        ∃ next,
          (resolved.mapTargets place).step course.context (UInt16.ofNat offset) expected = .ok next ∧
            Near (course.bound position) (course.kept position) behind next)
      ((resolved.mapTargets place).step course.context (UInt16.ofNat offset) state) := by
  have quietHere : (resolved.mapTargets place).isQuiet = true := by
    rw [Insn.isQuiet_mapTargets, (regular.lies.numbers insn resolved related).isQuiet_eq, quiet]
  refine Insn.spares_step_of_near near (fun access accessed => ?_) (fun type member => ?_)
    fun _ count constructs => absurd constructs (Insn.not_constructs_of_isQuiet quietHere)
  · rw [Insn.access?_of_isQuiet quietHere] at accessed
    cases accessed
  · unfold kept at member
    split at member
    · exact (regular.known type member).1
    · cases member

/-- What holds of the result of a step at a position. -/
def Leaves (course : Course) (position : Nat) (item : Insn) (behind : FrameState) : Prop :=
  Arrives (course.bound position) (course.kept position) behind ∧
    ∀ next,
      (LocatedCode.ofInsns course.written).Onward position item next → course.Feeds next behind

/-- An instruction that only falls through is left with what its successor accepts. -/
theorem leaves_of_straight
    {among : Nat → Prop}
    (spot : course.expansion.Spot among position insn)
    (straight : insn.targets = [])
    (placed : course.written[position]? = some (offset, item))
    (arrives : Arrives (course.bound position) (course.kept position) behind)
    (typed : course.types position = some expected)
    (stepped : item.step course.context (UInt16.ofNat offset) expected = .ok next)
    (live : insn.opcode.endsFlow = false → course.Live (position + 1))
    (inside :
      insn.opcode.endsFlow = false → position + 1 ≠ course.expansion.start course.length)
    (suits : insn.opcode.endsFlow = false → course.Suits (position + 1) behind next) :
    Leaves course position item behind := by
  refine ⟨arrives, fun target onward => ?_⟩
  rcases regular.lies.onward_cases spot (LocatedCode.located_of_placed placed) onward with
    ⟨continues, rfl⟩ | ⟨label, member, _⟩
  · obtain ⟨_, resolved, placedAgain, _, _, endsFlow⟩ := regular.lies.exists_item spot
    cases placed.symm.trans placedAgain
    refine regular.feeds_behind placed ?_ typed stepped (live continues) (inside continues)
      (suits continues)
    rw [← continues, ← endsFlow]
    cases resolved <;> rfl
  · rw [straight] at member
    cases member

/-- Steps at the start. -/
theorem spares_entry
    {front : Nat}
    (listed : course.expansion.entry[front]? = some insn)
    (accepted : course.Accepts front state)
    (placed : course.written[front]? = some (offset, item)) :
    Spares (Leaves course front item)
      (item.step course.context (UInt16.ofNat offset) state) := by
  have inside := (List.getElem?_eq_some_iff.mp listed).1
  have startZero : course.expansion.start 0 = course.expansion.entry.length :=
    Expansion.start_zero
  have last := regular.start_lt_end regular.length_pos
  have spot : course.expansion.Spot
      (Expansion.Among course.pool course.isStatic course.type course.code course.decoded.insns)
      front insn := .entry listed
  obtain ⟨_, resolved, placedAgain, related, _⟩ := regular.lies.exists_item spot
  cases placed.symm.trans placedAgain
  obtain ⟨_, expected, typed, suits⟩ := accepted
  obtain ⟨first, firstListed⟩ := regular.lies.exists_item_of_lt regular.length_pos
  have live : course.Live (front + 1) :=
    Expansion.exists_spot_behind_entry regular.lies.among_zero firstListed listed
  have unloaded : ¬ course.Loaded (front + 1) := not_loaded_of_le (by omega)
  have straight := (regular.lies.regular.straightEntry insn (List.mem_of_getElem? listed)).1
  have boundHere : course.bound front = course.code.maxLocals.toNat := bound_eq (by omega)
  have boundNext : course.bound (front + 1) = course.code.maxLocals.toNat := bound_eq (by omega)
  have keptHere : course.kept front = none := kept_of_lt (by omega)
  cases suits with
  | loaded loaded _ _ => exact absurd loaded (not_loaded_of_le (by omega))
  | near _ near =>
      rcases regular.enters.each front insn listed with
        ⟨quiet, more⟩ | ⟨slot, type, rfl, slotPlace, isLast, keeps, stored⟩
      · refine (regular.spares_of_quiet related quiet near).imp fun behind found => ?_
        obtain ⟨next, stepped, nearNext⟩ := found
        refine regular.leaves_of_straight spot straight placed nearNext.arrives typed stepped
          (fun _ => live) (fun _ => by omega) fun _ => .near unloaded ?_
        have keptNext : course.kept (front + 1) = none := by
          rcases more with more | nothing
          · exact kept_of_lt (by omega)
          · unfold kept
            rw [nothing, ite_self]
        rwa [boundNext, keptNext, ← boundHere, ← keptHere]
      · obtain rfl := (regular.lies.numbers _ resolved related).eq_of_indexed trivial
        have keptNext : course.kept (front + 1) = some type :=
          (kept_eq (by omega) (by omega)).trans keeps
        rw [boundHere, keptHere] at near
        cases shape : expected.stack with
        | nil =>
            have empty : state.stack = [] := (eq_of_expected near.alike.stack).trans shape
            have step : (Insn.slot Opcode.lstore slot).step course.context (UInt16.ofNat offset)
                state = accessLocal course.context (UInt16.ofNat offset) state ⟨slot, 2, true⟩ :=
              rfl
            show Spares _ ((Insn.slot Opcode.lstore slot).step _ _ _)
            rw [step]
            simp only [accessLocal, empty, pop, if_true]
            exact rfl
        | cons value rest =>
            obtain rfl : value = type := stored expected typed value (by rw [shape]; rfl)
            refine (Insn.spares_step_of_store near rfl slotPlace shape).imp fun behind found => ?_
            obtain ⟨next, stepped, nearNext⟩ := found
            refine regular.leaves_of_straight spot straight placed ?_ typed stepped
              (fun _ => live) (fun _ => by omega) fun _ => .near unloaded ?_
            · rw [boundHere, keptHere]
              exact ⟨nearNext.arrives.room, by simp⟩
            · rwa [boundNext, keptNext]

/-- Where a kept value is loaded the block is one of the body. -/
theorem inside_of_load
    {slot : UInt16}
    (listed : course.expansion.items[index]? = some listedItem)
    (member : .slot Opcode.lload slot ∈ course.expansion.ahead listedItem) :
    index < course.length := by
  by_contra behind
  have quiet := (regular.closing index listedItem (Nat.not_lt.mp behind) listed).2.2.2 _ member
  cases quiet

/-- Steps of what is inserted in front of an instruction. -/
theorem spares_inserted
    {front : Nat}
    (isAmong :
      Expansion.Among course.pool course.isStatic course.type course.code course.decoded.insns
        index)
    (listed : course.expansion.items[index]? = some listedItem)
    (inFront : (course.expansion.ahead listedItem)[front]? = some insn)
    (accepted : course.Accepts (course.expansion.start index + front) state)
    (placed : course.written[course.expansion.start index + front]? = some (offset, item)) :
    Spares (Leaves course (course.expansion.start index + front) item)
      (item.step course.context (UInt16.ofNat offset) state) := by
  have inside := (List.getElem?_eq_some_iff.mp inFront).1
  have spot : course.expansion.Spot
      (Expansion.Among course.pool course.isStatic course.type course.code course.decoded.insns)
      _ insn := .inserted isAmong listed inFront
  obtain ⟨_, resolved, placedAgain, related, _⟩ := regular.lies.exists_item spot
  cases placed.symm.trans placedAgain
  obtain ⟨_, expected, typed, suits⟩ := accepted
  have live : course.Live (course.expansion.start index + front + 1) :=
    Expansion.exists_spot_behind_inserted isAmong listed inFront
  have straight :=
    (regular.lies.regular.straight _ insn (List.mem_of_getElem? inFront)).1
  have notEnd :
      course.expansion.start index + front + 1 ≠ course.expansion.start course.length := by
    have here := regular.inside_iff listed (Nat.le_of_lt inside)
    have behind := regular.inside_iff listed (show front + 1 ≤ _ from inside)
    omega
  obtain ⟨sameBound, sameKept⟩ :=
    regular.zone_eq listed (Nat.le_of_lt inside) (show front + 1 ≤ _ from inside)
  have behindUnloaded (notLoad : ∀ slot, insn ≠ .slot Opcode.lload slot) :
      ¬ course.Loaded (course.expansion.start index + front + 1) := by
    rw [Nat.add_assoc, loaded_iff listed inside]
    rintro ⟨before, slot, same, loads⟩
    obtain rfl : front = before := by omega
    exact notLoad slot (Option.some.inj (inFront.symm.trans loads))
  -- Behind the step the position has the same bound and keeps the same value.
  have near_behind {behind next : FrameState} :=
    @Suits.near course (course.expansion.start index + front + 1) behind next
  simp only [Nat.add_assoc, ← sameBound, ← sameKept] at near_behind
  have zone (slot : UInt16) (member : .slot Opcode.lload slot ∈ course.expansion.ahead listedItem) :
      course.bound (course.expansion.start index + front) = course.code.maxLocals.toNat ∧
        course.kept (course.expansion.start index + front) = course.keeps := by
    have before :=
      (regular.inside_iff listed (Nat.le_of_lt inside)).mpr (regular.inside_of_load listed member)
    have front : course.expansion.entry.length ≤ course.expansion.start index := Expansion.le_start
    exact ⟨bound_eq before, kept_eq (by rw [Expansion.start_zero]; omega) before⟩
  cases suits with
  | near unloaded near =>
      rcases (regular.snippets index listedItem listed).each front insn inFront with
        quiet | ⟨slot, type, rfl, slotPlace, keeps, _⟩
      · refine (regular.spares_of_quiet related quiet near).imp fun behind found => ?_
        obtain ⟨next, stepped, nearNext⟩ := found
        refine regular.leaves_of_straight spot straight placed nearNext.arrives typed stepped
          (fun _ => live) (fun _ => notEnd) fun _ => near_behind (behindUnloaded ?_) nearNext
        rintro slot rfl
        cases quiet
      · obtain rfl := (regular.lies.numbers _ resolved related).eq_of_indexed trivial
        obtain ⟨boundHere, keptHere⟩ := zone slot (List.mem_of_getElem? inFront)
        rw [boundHere, keptHere, keeps] at near
        refine (Insn.spares_step_of_load near (regular.known type keeps).2 rfl slotPlace).imp
          fun behind found => ?_
        obtain ⟨next, stepped, nearNext⟩ := found
        obtain ⟨value, rest, other, expectedRest, _, _, _, nearRest⟩ := id nearNext.loaded
        refine regular.leaves_of_straight spot straight placed ?_ typed stepped
          (fun _ => live) (fun _ => notEnd) fun _ => .loaded (.intro listed inFront) keeps nearNext
        rw [boundHere, keptHere, keeps]
        exact ⟨nearRest.arrives.room, nearRest.arrives.keeps⟩
  | @loaded type loaded keeps near =>
      obtain ⟨before, slot, rfl, loads⟩ := (loaded_iff listed (Nat.le_of_lt inside)).mp loaded
      obtain ⟨boundHere, keptHere⟩ := zone slot (List.mem_of_getElem? loads)
      rcases (regular.snippets index listedItem listed).each before _ loads with
        quiet | ⟨_, _, _, _, _, combines⟩
      · cases quiet
      obtain rfl := Option.some.inj (inFront.symm.trans combines)
      obtain rfl := (regular.lies.numbers _ resolved related).eq_of_indexed trivial
      refine (Insn.spares_step_of_combine near rfl).imp fun behind found => ?_
      obtain ⟨next, stepped, nearNext⟩ := found
      rw [← boundHere, ← keeps, ← keptHere] at nearNext
      exact regular.leaves_of_straight spot straight placed nearNext.arrives typed stepped
        (fun _ => live) (fun _ => notEnd) fun _ => near_behind (behindUnloaded nofun) nearNext

/-- At an instruction itself nothing that was loaded is left. -/
theorem not_loaded_kept
    (listed : course.expansion.items[index]? = some listedItem) :
    ¬ course.Loaded
        (course.expansion.start index + (course.expansion.ahead listedItem).length) := by
  rw [loaded_iff listed (Nat.le_refl _)]
  rintro ⟨before, slot, same, loads⟩
  rcases (regular.snippets index listedItem listed).each before _ loads with
    quiet | ⟨_, _, _, _, _, combines⟩
  · cases quiet
  · have := (List.getElem?_eq_some_iff.mp combines).1
    omega

/-- Steps of the instructions of the body. -/
theorem spares_original
    (visited :
      Verify.Visited course.pool course.isStatic course.type course.code course.decoded.insns
        index)
    (listed : course.expansion.items[index]? = some listedItem)
    (accepted :
      course.Accepts
        (course.expansion.start index + (course.expansion.ahead listedItem).length) state)
    (placed :
      course.written[course.expansion.start index + (course.expansion.ahead listedItem).length]? =
        some (offset, item)) :
    Spares
      (Leaves course (course.expansion.start index + (course.expansion.ahead listedItem).length)
        item)
      (item.step course.context (UInt16.ofNat offset) state) := by
  obtain ⟨point, raw, _, rawPlaced⟩ := id visited
  obtain ⟨insn, listedAgain, shape, indexed, _⟩ := regular.lies.exists_original rawPlaced
  cases listed.symm.trans listedAgain
  have spot : course.expansion.Spot
      (Expansion.Among course.pool course.isStatic course.type course.code course.decoded.insns)
      _ insn := .kept (.inl visited) listed
  obtain ⟨_, resolved, placedAgain, related, _, endsFlow⟩ := regular.lies.exists_item spot
  cases placed.symm.trans placedAgain
  obtain rfl := (regular.lies.numbers _ resolved related).eq_of_indexed indexed
  obtain ⟨_, expected, typed, suits⟩ := accepted
  have indexInside : index < course.length := (List.getElem?_eq_some_iff.mp rawPlaced).1
  have inside := (regular.inside_iff listed (Nat.le_refl _)).mpr indexInside
  have front : course.expansion.entry.length ≤ course.expansion.start index := Expansion.le_start
  have boundHere := bound_eq inside
  have keptHere := kept_eq (by rw [Expansion.start_zero]; omega) inside
  cases suits with
  | loaded loaded _ _ => exact absurd loaded (regular.not_loaded_kept listed)
  | near _ near =>
      rw [boundHere, keptHere] at near
      have touches :
          ∀ access,
            (resolved.mapTargets place).access? = some access →
              access.index.toNat < course.code.maxLocals.toNat := by
        intro access accessed
        rw [Insn.access?_mapTargets] at accessed
        have room := regular.lies.checked.access_le visited rawPlaced
          (show raw.access? = some access by rw [shape, Insn.access?_mapTargets, accessed])
        have := Insn.width_pos_of_access? accessed
        omega
      have stepped :
          Spares _ ((resolved.mapTargets place).step course.context (UInt16.ofNat offset) state) :=
        Insn.spares_step_of_near near touches (fun type member => (regular.known type member).1)
          fun keeps count constructs =>
            regular.constructs keeps index _ expected count visited listed typed
              (Insn.constructs_of_mapTargets constructs)
      refine stepped.imp fun behind found => ?_
      obtain ⟨next, stepped, nearNext⟩ := found
      refine ⟨by rw [boundHere, keptHere]; exact nearNext.arrives, fun target onward => ?_⟩
      have located := LocatedCode.located_of_placed placed
      have live (goal : Nat) (goalVisited : Verify.Visited _ _ _ _ course.decoded.insns goal)
          (goalInside : goal < course.length) : course.Live (course.expansion.start goal) :=
        Expansion.exists_spot_start (.inl goalVisited)
          (regular.lies.exists_item_of_lt goalInside).choose_spec
      rcases regular.lies.onward_of_visited visited listed located onward with
        ⟨rfl, nextVisited, continues⟩ | ⟨goal, _, _, rfl, goalVisited, goalPlaced, anchored⟩
      · obtain ⟨_, _, _, nextPlaced⟩ := id nextVisited
        have nextInside : index + 1 < course.length := (List.getElem?_eq_some_iff.mp nextPlaced).1
        have before := regular.start_lt_end nextInside
        obtain ⟨nextItem, nextListed⟩ := regular.lies.exists_item_of_lt nextInside
        have succ := Expansion.start_succ listed
        have continuesAgain : (resolved.mapTargets place).opcode.endsFlow = false := by
          rw [← continues, ← endsFlow]
          cases resolved <;> rfl
        have step (live) (inside) (suits : course.Suits _ behind next) :=
          regular.feeds_behind placed continuesAgain typed stepped live inside suits
        rw [← succ] at step
        refine step (live _ nextVisited nextInside) (Nat.ne_of_lt before)
          (.near (not_loaded_start nextListed) ?_)
        rwa [bound_eq before, kept_eq (by simpa using Expansion.le_start) before]
      · have goalInside : goal < course.length := (List.getElem?_eq_some_iff.mp goalPlaced).1
        have before := regular.start_lt_end goalInside
        obtain ⟨declared, found⟩ := regular.anchored _ _ _ goalPlaced anchored
        refine feeds_of_arrives (live _ goalVisited goalInside) found ?_
        rw [bound_eq before, kept_eq (by simpa using Expansion.le_start) before]
        exact nearNext.arrives

/-- The steps that leave what stands behind the body. -/
theorem spares_closing
    (behind : course.length ≤ index)
    (listed : course.expansion.items[index]? = some listedItem)
    (accepted :
      course.Accepts
        (course.expansion.start index + (course.expansion.ahead listedItem).length) state)
    (placed :
      course.written[course.expansion.start index + (course.expansion.ahead listedItem).length]? =
        some (offset, item)) :
    Spares
      (Leaves course (course.expansion.start index + (course.expansion.ahead listedItem).length)
        item)
      (item.step course.context (UInt16.ofNat offset) state) := by
  obtain ⟨quiet, straight, ends, _⟩ := regular.closing index listedItem behind listed
  have spot : course.expansion.Spot
      (Expansion.Among course.pool course.isStatic course.type course.code course.decoded.insns)
      _ listedItem.2 := .kept (.inr behind) listed
  obtain ⟨_, resolved, placedAgain, related, _⟩ := regular.lies.exists_item spot
  cases placed.symm.trans placedAgain
  obtain ⟨_, expected, typed, suits⟩ := accepted
  have absurdly {motive : Prop} (continues : listedItem.2.opcode.endsFlow = false) : motive := by
    rw [ends] at continues
    cases continues
  cases suits with
  | loaded loaded _ _ => exact absurd loaded (regular.not_loaded_kept listed)
  | near _ near =>
      refine (regular.spares_of_quiet related quiet near).imp fun behind found => ?_
      obtain ⟨next, stepped, nearNext⟩ := found
      exact regular.leaves_of_straight spot straight placed nearNext.arrives typed stepped absurdly
        absurdly absurdly

end Steps

/-! ## Analyses -/

section Analyses

variable (regular : course.Regular resolves body tables place size guards ranges)
include regular

theorem arrives_of_accepts (accepted : course.Accepts position state) :
    Arrives (course.bound position) (course.kept position) state := by
  obtain ⟨_, expected, _, suits⟩ := accepted
  cases suits with
  | near _ near => exact near.arrives
  | loaded loaded keeps near =>
      obtain ⟨_, _, _, _, _, _, _, nearRest⟩ := near.loaded
      obtain @⟨index, front, loadedItem, slot, listed, inFront⟩ := loaded
      have inside := (List.getElem?_eq_some_iff.mp inFront).1
      have before : course.expansion.start index + (front + 1) <
          course.expansion.start course.length :=
        (regular.inside_iff listed inside).mpr
          (regular.inside_of_load listed (List.mem_of_getElem? inFront))
      have begins : course.expansion.entry.length ≤ course.expansion.start index :=
        Expansion.le_start
      rw [bound_eq before, kept_eq (by rw [Expansion.start_zero]; omega) before, keeps]
      exact ⟨nearRest.arrives.room, nearRest.arrives.keeps⟩

/-- An analysis keeps every state near to the types along the body. -/
theorem steers :
    FlowProgress.Steers course.context course.rules (.ofInsns course.written) ranges
      (fun _ _ => True) course.Accepts course.Feeds where
  absorbs := regular.spares_absorb
  steps := by
    intro position number item before located _ accepted
    obtain ⟨offset, placed, rfl⟩ := LocatedCode.placed_of_located located
    have leaves :
        Spares (Leaves course position item)
          (item.step course.context (UInt16.ofNat offset) before) := by
      obtain ⟨insn, spot⟩ := accepted.live
      cases spot with
      | entry listed => exact regular.spares_entry listed accepted placed
      | inserted isAmong listed inFront =>
          exact regular.spares_inserted isAmong listed inFront accepted placed
      | kept isAmong listed =>
          rcases isAmong with visited | behind
          · exact regular.spares_original visited listed accepted placed
          · exact regular.spares_closing behind listed accepted placed
    refine leaves.imp fun behind leaves => ⟨leaves.2, fun range member covers next means => ?_⟩
    exact
      ⟨regular.feeds_of_caught member accepted.live placed covers means
          (regular.arrives_of_accepts accepted),
        regular.feeds_of_caught member accepted.live placed covers means leaves.1⟩

theorem feeds_entry
    (known : ∀ type ∈ course.entry.locals, type ≠ .unmerged)
    (empty : course.entry.stack = [])
    (room : course.code.maxLocals.toNat ≤ course.entry.locals.length) :
    course.Feeds 0 course.entry := by
  obtain ⟨first, firstListed⟩ := regular.lies.exists_item_of_lt regular.length_pos
  have live : course.Live 0 := Expansion.exists_spot_zero regular.lies.among_zero firstListed
  have inside := regular.start_lt_end regular.length_pos
  have boundHere : course.bound 0 = course.code.maxLocals.toNat := bound_eq (by omega)
  have keptHere : course.kept 0 = none := by
    rcases Nat.eq_zero_or_pos course.expansion.entry.length with none | some
    · have keeps : course.keeps = .none := by
        by_contra keeps
        exact regular.enters.nonempty (Option.isSome_iff_ne_none.mpr keeps)
          (List.eq_nil_of_length_eq_zero none)
      rw [kept, keeps, ite_self]
    · exact kept_of_lt (by rw [Expansion.start_zero]; exact some)
  have arrives : Arrives (course.bound 0) (course.kept 0) course.entry := by
    rw [boundHere, keptHere]
    exact ⟨room, nofun⟩
  refine ⟨live, fun _ _ => arrives, fun free => ⟨live, course.entry, ?_, .near ?_ ?_⟩⟩
  · exact typing_of_given (by simp only [given, free, if_pos])
  · exact not_loaded_of_le (Nat.zero_le _)
  · refine ⟨⟨?_, ⟨arrives.room, arrives.room⟩, fun place below => ?_⟩, arrives, arrives⟩
    · rw [empty]
      exact .nil
    · have short : place < course.entry.locals.length := Nat.lt_of_lt_of_le below arrives.room
      rw [List.getD_eq_getElem?_getD, List.getElem?_eq_getElem short, Option.getD_some]
      exact SlotType.expected_self (known _ (List.getElem_mem short))

/-- An analysis of an expanded body meets no unrelated classes. -/
theorem spares_solve
    {method : MethodContext}
    {initial : FrameState}
    (context : course.context = ⟨method, course.context.pool, course.rules.emitFrames⟩)
    (entry :
      course.entry =
        ⟨SlotType.padTo
            (FrameAnalysis.localsNeeded (max method.maxLocals.toNat initial.locals.length)
              course.written) initial.locals, []⟩)
    (starts : ∀ offset insn, course.written[0]? = some (offset, insn) → offset = 0)
    (known : ∀ type ∈ initial.locals, type ≠ .unmerged)
    (room : course.code.maxLocals.toNat ≤ method.maxLocals.toNat) :
    Spares (fun _ => True)
      (FrameAnalysis.solve method course.written initial ranges course.context.pool
        course.rules) := by
  obtain ⟨first, firstListed⟩ := regular.lies.exists_item_of_lt regular.length_pos
  obtain ⟨_, spot⟩ : course.Live 0 :=
    Expansion.exists_spot_zero regular.lies.among_zero firstListed
  obtain ⟨_, _, placed, _⟩ := regular.lies.exists_item spot
  have steers := regular.steers
  rw [context] at steers
  refine Spares.imp (FrameAnalysis.spares_solve
    (fun offset insn here => by rw [starts offset insn here]; rfl) ?_ steers
    (fun _ _ _ => trivial) ?_) fun _ _ => trivial
  · intro nothing
    rw [nothing] at placed
    cases placed
  · rw [FrameAnalysis.entryState, ← entry]
    refine regular.feeds_entry (fun type member => ?_) (by rw [entry]) ?_
    · rw [entry] at member
      rcases List.mem_append.mp member with declared | filled
      · exact known type declared
      · rw [(List.mem_replicate.mp filled).2]
        exact nofun
    · have needed :=
        FrameAnalysis.le_localsNeeded (max method.maxLocals.toNat initial.locals.length)
          course.written
      rw [entry, length_padTo]
      omega

end Analyses

end Course.Regular

end JvmClass
