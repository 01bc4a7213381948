import JvmClass.Event.Collect
import JvmClass.Proofs.Weave.Parts
import Mathlib.Data.List.Infix

namespace JvmClass

/-!
# Paths through a woven body

What runs along a path through a woven body from its start until the method is
left.  A place in a body is given by the nodes that are ahead of it.
-/

/-- Where a node of a woven body comes from. -/
inductive Origin where
  | entry
  | exit
  | original
  /-- The handler around the body. -/
  | guard
  deriving Repr, DecidableEq

/-- Where the nodes of a part come from. -/
def WovenPart.origin : WovenPart → Origin
  | .entry _ _ => .entry
  | .exit _ _ => .exit
  | .kept _ => .original
  | _ => .guard

/-- The nodes of a part, each with where it comes from. -/
def WovenPart.tagged (part : WovenPart) : List (Origin × Node) :=
  (part.events.filterMap BodyEvent.node?).map fun node => (part.origin, node)

namespace WovenBody

/-- The nodes of a woven body, each with where it comes from. -/
def tagged (woven : WovenBody) : List (Origin × Node) :=
  woven.parts.flatMap WovenPart.tagged

/-- The handlers of a woven body, in order. -/
def handlers (woven : WovenBody) : List Handler :=
  woven.events.filterMap BodyEvent.handler?

/-- Without their origins, these are the nodes that are written. -/
theorem map_snd_tagged
    (woven : WovenBody) :
    woven.tagged.map Prod.snd = woven.events.filterMap BodyEvent.node? := by
  simp only [tagged, events, List.map_flatMap, List.filterMap_flatMap, WovenPart.tagged,
    List.map_map, Function.comp_def, List.map_id']

end WovenBody

/-! ## Control flow -/

namespace Flow

/-- A handler covers a place if its range has begun and has not ended. -/
def Covers (handler : Handler) (behind ahead : List (Origin × Node)) : Prop :=
  handler.start ∈ Node.labels (behind.map Prod.snd) ∧
    handler.stop ∈ Node.labels (ahead.map Prod.snd)

/-- Some handler covers a place. -/
def Covered (handlers : List Handler) (whole ahead : List (Origin × Node)) : Prop :=
  ∃ behind, behind ++ ahead = whole ∧ ∃ handler ∈ handlers, Covers handler behind ahead

/-- One step through a body with these handlers and nodes. -/
inductive Step
    (handlers : List Handler)
    (whole : List (Origin × Node)) : List (Origin × Node) → List (Origin × Node) → Prop
  /-- Labels and line marks do nothing. -/
  | pass
      {origin : Origin}
      {node : Node}
      {rest : List (Origin × Node)}
      (silent : ∀ insn, node ≠ .insn insn) :
      Step handlers whole ((origin, node) :: rest) rest
  | fall
      {origin : Origin}
      {insn : Insn}
      {rest : List (Origin × Node)}
      (continues : insn.opcode.endsFlow = false) :
      Step handlers whole ((origin, .insn insn) :: rest) rest
  | branch
      {origin placed : Origin}
      {insn : Insn}
      {target : Label}
      {rest behind : List (Origin × Node)}
      (stays : insn.opcode.isExit = false)
      (member : target ∈ insn.targets)
      (lands : (placed, .label target) :: behind <:+ whole) :
      Step handlers whole ((origin, .insn insn) :: rest) ((placed, .label target) :: behind)
  /-- A subroutine returns to behind a jump to a subroutine. -/
  | resume
      {origin placed : Origin}
      {insn : Insn}
      {code : Opcode}
      {target : Label}
      {rest behind : List (Origin × Node)}
      (returns : insn.opcode = Opcode.ret)
      (calls : code = Opcode.jsr ∨ code = Opcode.jsrW)
      (called : (placed, .insn (.jump code target)) :: behind <:+ whole) :
      Step handlers whole ((origin, .insn insn) :: rest) behind
  /-- An instruction of the original body other than a return throws. -/
  | caught
      {placed : Origin}
      {insn : Insn}
      {handler : Handler}
      {behind rest landing : List (Origin × Node)}
      (throws : insn.opcode.isReturn = false)
      (place : behind ++ (.original, .insn insn) :: rest = whole)
      (member : handler ∈ handlers)
      (covers : Covers handler behind ((.original, .insn insn) :: rest))
      (lands : (placed, .label handler.handler) :: landing <:+ whole) :
      Step handlers whole ((.original, .insn insn) :: rest)
        ((placed, .label handler.handler) :: landing)

/-- The instruction that a step from a place performs. -/
def performed : List (Origin × Node) → List (Origin × Insn)
  | (origin, .insn insn) :: _ => [(origin, insn)]
  | _ => []

/-- A path from the start has come to a place and has performed some instructions. -/
inductive Runs
    (handlers : List Handler)
    (whole : List (Origin × Node)) : List (Origin × Node) → List (Origin × Insn) → Prop
  | start : Runs handlers whole whole []
  | step
      {ahead next : List (Origin × Node)}
      {trace : List (Origin × Insn)}
      (runs : Runs handlers whole ahead trace)
      (step : Step handlers whole ahead next) :
      Runs handlers whole next (trace ++ performed ahead)

/-- A path from the start has performed some instructions and leaves by another. -/
def Leaves
    (handlers : List Handler)
    (whole : List (Origin × Node))
    (trace : List (Origin × Insn))
    (last : Origin × Insn) : Prop :=
  ∃ rest,
    Runs handlers whole ((last.1, .insn last.2) :: rest) trace ∧
      (last.2.opcode.isReturn = true ∨
        last.2.opcode = Opcode.throwReference ∧
          ¬ Covered handlers whole ((last.1, .insn last.2) :: rest))

section Forward

variable {handlers : List Handler} {whole : List (Origin × Node)}

/-- Control goes on from a node to the one behind it. -/
def goesOn : Origin × Node → Bool
  | (_, .insn insn) => !insn.opcode.endsFlow
  | _ => true

/-- Paths go on over nodes that control goes on from. -/
theorem Runs.forward
    {items rest : List (Origin × Node)}
    {trace : List (Origin × Insn)}
    (runs : Runs handlers whole (items ++ rest) trace)
    (onward : items.all goesOn = true) :
    Runs handlers whole rest (trace ++ items.flatMap fun item => performed [item]) := by
  induction items generalizing trace with
  | nil => simpa using runs
  | cons item items inductionHypothesis =>
      rw [List.all_cons, Bool.and_eq_true] at onward
      obtain ⟨origin, node⟩ := item
      have next : Runs handlers whole (items ++ rest) (trace ++ performed [(origin, node)]) := by
        cases node with
        | insn insn => exact runs.step (.fall (by simpa [goesOn] using onward.1))
        | _ => exact runs.step (.pass (by simp))
      simpa using inductionHypothesis next onward.2

/-- A path that throws, is caught and returns. -/
theorem leaves_of_caught
    (handler : Handler)
    (front behind rest : List (Origin × Node))
    {placed : Origin}
    {opcode : Opcode}
    (shape :
      whole =
        front ++ (.original, .insn (.plain Opcode.throwReference)) ::
          ((placed, .label handler.handler) :: behind ++ (.original, .insn (.plain opcode)) :: rest))
    (frontOnward : front.all goesOn = true)
    (behindOnward : behind.all goesOn = true)
    (member : handler ∈ handlers)
    (starts : handler.start ∈ Node.labels (front.map Prod.snd))
    (stops : handler.stop = handler.handler)
    (returns : opcode.isReturn = true) :
    Leaves handlers whole
      ((front.flatMap fun item => performed [item]) ++
        [(.original, .plain Opcode.throwReference)] ++
        behind.flatMap fun item => performed [item])
      (.original, .plain opcode) := by
  generalize landing :
    (placed, Node.label handler.handler) :: behind ++ (.original, .insn (.plain opcode)) :: rest =
      ahead at shape
  subst shape
  have thrown :
      Runs handlers (front ++ (.original, .insn (.plain Opcode.throwReference)) :: ahead)
        ((.original, .insn (.plain Opcode.throwReference)) :: ahead)
        ([] ++ front.flatMap fun item => performed [item]) :=
    Runs.start.forward frontOnward
  have covers :
      Covers handler front ((.original, .insn (.plain Opcode.throwReference)) :: ahead) := by
    refine ⟨starts, ?_⟩
    rw [stops]
    exact List.mem_filterMap.mpr ⟨.label handler.handler, by simp [← landing], rfl⟩
  have lands : (placed, Node.label handler.handler) :: (behind ++
      (.original, .insn (.plain opcode)) :: rest) <:+
        front ++ (.original, .insn (.plain Opcode.throwReference)) :: ahead :=
    ⟨front ++ [(.original, .insn (.plain Opcode.throwReference))], by simp [← landing]⟩
  have landed := thrown.step (.caught (by decide) rfl member covers lands)
  have left := (landed.step (.pass (by simp))).forward behindOnward
  refine ⟨rest, ?_, .inl returns⟩
  simpa [performed] using left

end Forward

end Flow

/-! ## Straight snippets -/

/-- Control goes through a snippet from its first instruction to behind its last. -/
def Snippet.Straight (snippet : Snippet) : Prop :=
  ∀ node ∈ snippet.nodes,
    ∃ insn, node = .insn insn ∧ insn.targets = [] ∧ insn.opcode.endsFlow = false

/-- All snippets of the advice are straight. -/
structure Advice.Straight {Memory : Type} (advice : Advice Memory) : Prop where
  enter : ∀ memory slots, (advice.enter memory slots).1.Straight
  exit : ∀ memory opcode, (advice.exit memory opcode).Straight

/-- A straight snippet is the row of its instructions. -/
theorem Snippet.Straight.nodes_eq
    {snippet : Snippet}
    (straight : snippet.Straight) :
    snippet.nodes = (Node.insns snippet.nodes).map .insn := by
  obtain ⟨nodes, failure⟩ := snippet
  simp only [Straight] at straight ⊢
  induction nodes with
  | nil => rfl
  | cons node nodes inductionHypothesis =>
      rw [List.forall_mem_cons] at straight
      obtain ⟨⟨insn, rfl, _⟩, rest⟩ := straight
      have shape : Node.insns (.insn insn :: nodes) = insn :: Node.insns nodes := rfl
      rw [shape, List.map_cons, ← inductionHypothesis rest]

theorem Snippet.Straight.of_mem_insns
    {snippet : Snippet}
    {insn : Insn}
    (straight : snippet.Straight)
    (member : insn ∈ Node.insns snippet.nodes) :
    insn.targets = [] ∧ insn.opcode.endsFlow = false := by
  rw [Node.insns, List.mem_filterMap] at member
  obtain ⟨node, listed, isInsn⟩ := member
  obtain ⟨other, rfl, noTargets, continues⟩ := straight node listed
  cases isInsn
  exact ⟨noTargets, continues⟩

/-! ## Blocks -/

namespace Flow

section Blocks

variable (snippet : Origin × Node → List Insn)

/-- Nodes with the instructions that are inserted in front of each. -/
def blocks (core : List (Origin × Node)) : List (Origin × Node) :=
  core.flatMap fun node => (snippet node).map (fun insn => (.exit, .insn insn)) ++ [node]

/-- A body: instructions at the start and the nodes behind them. -/
def assembled (entry : List Insn) (core : List (Origin × Node)) : List (Origin × Node) :=
  entry.map (fun insn => (.entry, .insn insn)) ++ blocks snippet core

/-- An instruction of the original body with what is inserted in front of it. -/
def block (insn : Insn) : List (Origin × Insn) :=
  (snippet (.original, .insn insn)).map (fun insn => (.exit, insn)) ++ [(.original, insn)]

/-- What is inserted is straight, and nothing is inserted in front of labels and line marks. -/
structure Regular
    (entry : List Insn)
    (core : List (Origin × Node)) : Prop where
  straightEntry : ∀ insn ∈ entry, insn.targets = [] ∧ insn.opcode.endsFlow = false
  straight : ∀ node, ∀ insn ∈ snippet node, insn.targets = [] ∧ insn.opcode.endsFlow = false
  silent : ∀ origin node, (∀ insn, node ≠ .insn insn) → snippet (origin, node) = []
  /-- All instructions are of the original body, except for a throw. -/
  original :
    ∀ origin insn,
      (origin, .insn insn) ∈ core →
        origin = .original ∨ (origin, insn) = (.guard, .plain Opcode.throwReference)

variable {snippet} {entry : List Insn} {core : List (Origin × Node)}

@[simp] theorem blocks_nil : blocks snippet [] = [] :=
  rfl

@[simp] theorem blocks_cons
    (node : Origin × Node)
    (core : List (Origin × Node)) :
    blocks snippet (node :: core) =
      (snippet node).map (fun insn => (.exit, .insn insn)) ++ node :: blocks snippet core := by
  simp [blocks]

theorem blocks_append
    (first second : List (Origin × Node)) :
    blocks snippet (first ++ second) = blocks snippet first ++ blocks snippet second :=
  List.flatMap_append

theorem mem_blocks
    {node : Origin × Node}
    (member : node ∈ core) :
    node ∈ blocks snippet core :=
  List.mem_flatMap.mpr ⟨node, member, List.mem_append_right _ (List.mem_singleton.mpr rfl)⟩

/-- A place between two blocks splits the body. -/
theorem assembled_split
    {before after : List (Origin × Node)}
    {node : Origin × Node}
    (split : core = before ++ node :: after) :
    (assembled snippet entry before ++
          (snippet node).map (fun insn => (.exit, .insn insn))) ++ (node :: blocks snippet after) =
      assembled snippet entry core := by
  simp [assembled, split, blocks_append]

/-- A suffix that does not begin in the first of two rows is one of the second. -/
theorem suffix_of_not_mem
    {α : Type}
    {first second rest : List α}
    {item : α}
    (outside : item ∉ first)
    (place : item :: rest <:+ first ++ second) :
    item :: rest <:+ second := by
  induction first with
  | nil => exact place
  | cons other first inductionHypothesis =>
      rw [List.mem_cons, not_or] at outside
      rcases List.suffix_cons_iff.mp place with same | later
      · exact absurd (List.cons.inj same).1 outside.1
      · exact inductionHypothesis outside.2 later

/-- What is inserted has neither a label nor a jump. -/
theorem not_mem_inserted
    {origin : Origin}
    {insns : List Insn}
    {node : Origin × Node}
    (straight : ∀ insn ∈ insns, insn.targets = [] ∧ insn.opcode.endsFlow = false)
    (landmark : ∀ insn, node.2 = .insn insn → insn.targets ≠ []) :
    node ∉ insns.map fun insn => (origin, Node.insn insn) := by
  intro member
  obtain ⟨insn, listed, rfl⟩ := List.mem_map.mp member
  exact landmark insn rfl (straight insn listed).1

/-- Labels and jumps of a body are nodes between what was inserted. -/
theorem exists_suffix_of_landmark
    {node : Origin × Node}
    {rest : List (Origin × Node)}
    (regular : Regular snippet entry core)
    (landmark : ∀ insn, node.2 = .insn insn → insn.targets ≠ [])
    (place : node :: rest <:+ assembled snippet entry core) :
    ∃ after, node :: after <:+ core ∧ rest = blocks snippet after := by
  replace place := suffix_of_not_mem (not_mem_inserted regular.straightEntry landmark) place
  have straight := regular.straight
  clear regular
  induction core with
  | nil => simp at place
  | cons first core inductionHypothesis =>
      rw [blocks_cons] at place
      replace place := suffix_of_not_mem (not_mem_inserted (straight first) landmark) place
      rcases List.suffix_cons_iff.mp place with same | later
      · obtain ⟨rfl, rfl⟩ := List.cons.inj same
        exact ⟨core, List.suffix_rfl, rfl⟩
      · obtain ⟨after, suffix, shape⟩ := inductionHypothesis later
        exact ⟨after, suffix.trans (List.suffix_cons first core), shape⟩

end Blocks

/-! ## Paths block by block -/

/-- An instruction of the original body that a path has gone on from. -/
structure Stayed
    (handlers : List Handler)
    (whole : List (Origin × Node))
    (insn : Insn) : Prop where
  noReturn : insn.opcode.isReturn = false
  /-- A throw was caught. -/
  caught :
    insn.opcode = Opcode.throwReference →
      ∃ rest, Covered handlers whole ((.original, .insn insn) :: rest)

/-- Control does not leave from an instruction that lets it go on, nor from a subroutine. -/
theorem isExit_eq_false
    {code : Opcode}
    (stays : code.endsFlow = false ∨ code = Opcode.ret) :
    code.isExit = false := by
  rcases stays with continues | rfl
  · simp only [Opcode.endsFlow, Bool.or_eq_false_iff] at continues
    exact continues.2
  · decide

theorem ne_throw_of_isExit
    {code : Opcode}
    (stays : code.isExit = false) :
    code ≠ Opcode.throwReference := by
  rintro rfl
  cases stays

/-- From an instruction that does not leave a path goes on. -/
theorem stayed_of_isExit
    {handlers : List Handler}
    {whole : List (Origin × Node)}
    {insn : Insn}
    (stays : insn.opcode.isExit = false) :
    Stayed handlers whole insn := by
  refine ⟨?_, fun throws => absurd throws (ne_throw_of_isExit stays)⟩
  simp only [Opcode.isExit, Bool.or_eq_false_iff] at stays
  exact stays.1

/--
What a path has performed when it has come to a place: the entry up to there, or
all of it, the instructions that it has gone on from, each behind what is
inserted in front of it, and what is inserted up to there.
-/
inductive Follows
    (snippet : Origin × Node → List Insn)
    (entry : List Insn)
    (core : List (Origin × Node))
    (stayed : Insn → Prop) : List (Origin × Node) → List (Origin × Insn) → Prop
  | entering
      {done rest : List Insn}
      {next : Insn}
      (split : entry = done ++ next :: rest) :
      Follows snippet entry core stayed
        ((.entry, .insn next) :: rest.map (fun insn => (.entry, .insn insn)) ++
          blocks snippet core)
        (done.map fun insn => (.entry, insn))
  | inside
      {ran done rest : List Insn}
      {node : Origin × Node}
      {after : List (Origin × Node)}
      (place : node :: after <:+ core)
      (split : snippet node = done ++ rest)
      (gone : ∀ insn ∈ ran, stayed insn) :
      Follows snippet entry core stayed
        (rest.map (fun insn => (.exit, .insn insn)) ++ node :: blocks snippet after)
        (entry.map (fun insn => (.entry, insn)) ++ ran.flatMap (block snippet) ++
          done.map fun insn => (.exit, insn))
  | ended
      {trace : List (Origin × Insn)} :
      Follows snippet entry core stayed [] trace

section Paths

variable
  {snippet : Origin × Node → List Insn}
  {entry : List Insn}
  {core : List (Origin × Node)}
  {handlers : List Handler}

/-- Between two blocks a path stands in front of the next, if there is one. -/
theorem follows_of_boundary
    {stayed : Insn → Prop}
    {after : List (Origin × Node)}
    {ran : List Insn}
    (place : after <:+ core)
    (gone : ∀ insn ∈ ran, stayed insn) :
    Follows snippet entry core stayed (blocks snippet after)
      (entry.map (fun insn => (.entry, insn)) ++ ran.flatMap (block snippet)) := by
  cases after with
  | nil => exact .ended
  | cons node after =>
      have follows :
          Follows snippet entry core stayed
            ((snippet node).map (fun insn => (.exit, .insn insn)) ++
              node :: blocks snippet after)
            (entry.map (fun insn => (.entry, insn)) ++ ran.flatMap (block snippet) ++
              [].map fun insn => (.exit, insn)) :=
        .inside place rfl gone
      simpa using follows

/-- A path comes from the start to the first block. -/
theorem follows_of_entry
    {stayed : Insn → Prop}
    {done rest : List Insn}
    (split : entry = done ++ rest) :
    Follows snippet entry core stayed
      (rest.map (fun insn => (.entry, .insn insn)) ++ blocks snippet core)
      (done.map fun insn => (.entry, insn)) := by
  cases rest with
  | nil =>
      have boundary :
          Follows snippet entry core stayed (blocks snippet core)
            (entry.map (fun insn => (.entry, insn)) ++ [].flatMap (block snippet)) :=
        follows_of_boundary (List.suffix_refl core) (by simp)
      simpa [split] using boundary
  | cons next rest => exact .entering split

/-- From what is inserted a path can only go on. -/
theorem next_eq_of_inserted
    {whole rest next : List (Origin × Node)}
    {origin : Origin}
    {insn : Insn}
    (inserted : origin ≠ .original)
    (straight : insn.targets = [] ∧ insn.opcode.endsFlow = false)
    (step : Step handlers whole ((origin, .insn insn) :: rest) next) :
    next = rest := by
  cases step with
  | pass silent => exact absurd rfl (silent insn)
  | fall _ => rfl
  | branch _ member _ =>
      rw [straight.1] at member
      cases member
  | resume returns _ _ =>
      rw [returns] at straight
      exact absurd straight.2 (by decide)
  | caught _ _ _ _ _ => exact absurd rfl inserted

/-- From a node of the body a path goes to the beginning of a block, or to the end. -/
theorem exists_boundary_of_step
    {node : Origin × Node}
    {after next : List (Origin × Node)}
    (regular : Regular snippet entry core)
    (place : node :: after <:+ core)
    (step : Step handlers (assembled snippet entry core) (node :: blocks snippet after) next) :
    (∃ target, target <:+ core ∧ next = blocks snippet target) ∧
      ((∀ insn, node.2 ≠ .insn insn) ∨
        ∃ insn,
          node = (.original, .insn insn) ∧
            Stayed handlers (assembled snippet entry core) insn) := by
  have onward : ∃ target, target <:+ core ∧ blocks snippet after = blocks snippet target :=
    ⟨after, (List.suffix_cons node after).trans place, rfl⟩
  -- Only a throw stands in the body without being one of its own instructions.
  have isOriginal {origin : Origin} {insn : Insn}
      (same : node = (origin, .insn insn))
      (noThrow : insn.opcode ≠ Opcode.throwReference) :
      origin = .original := by
    rcases regular.original origin insn (same ▸ place.mem (List.mem_cons_self ..)) with
      original | isThrow
    · exact original
    · exact absurd (congrArg (Insn.opcode ∘ Prod.snd) isThrow) noThrow
  have landing {origin : Origin} {target : Label} {behind : List (Origin × Node)}
      (lands : (origin, .label target) :: behind <:+ assembled snippet entry core) :
      ∃ target' , target' <:+ core ∧ (origin, .label target) :: behind = blocks snippet target' := by
    obtain ⟨rest, suffix, shape⟩ := exists_suffix_of_landmark regular (by simp) lands
    refine ⟨_, suffix, ?_⟩
    rw [blocks_cons, regular.silent origin (.label target) (by simp), shape]
    rfl
  have gone {origin : Origin} {insn : Insn}
      (same : node = (origin, .insn insn))
      (stays : insn.opcode.isExit = false) :
      ∃ insn,
        node = (.original, .insn insn) ∧ Stayed handlers (assembled snippet entry core) insn := by
    obtain rfl := isOriginal same (ne_throw_of_isExit stays)
    exact ⟨insn, same, stayed_of_isExit stays⟩
  cases step with
  | pass silent => exact ⟨onward, .inl silent⟩
  | fall continues => exact ⟨onward, .inr (gone rfl (isExit_eq_false (.inl continues)))⟩
  | branch stays _ lands => exact ⟨landing lands, .inr (gone rfl stays)⟩
  | resume returns _ called =>
      obtain ⟨rest, suffix, rfl⟩ :=
        exists_suffix_of_landmark regular (by simp [Insn.targets]) called
      refine ⟨⟨rest, ?_, rfl⟩, .inr (gone rfl (isExit_eq_false (.inr returns)))⟩
      exact (List.suffix_cons ..).trans suffix
  | @caught _ insn handler behind _ _ throws position member covers lands =>
      exact ⟨landing lands, .inr ⟨insn, rfl, throws, fun _ =>
        ⟨_, behind, position, handler, member, covers⟩⟩⟩

/-- A path that has gone on from an instruction has performed its block. -/
theorem trace_of_gone
    {ran : List Insn}
    {insn : Insn} :
    entry.map (fun insn => (Origin.entry, insn)) ++ ran.flatMap (block snippet) ++
          (snippet (.original, .insn insn)).map (fun insn => (.exit, insn)) ++
        [(.original, insn)] =
      entry.map (fun insn => (.entry, insn)) ++ (ran ++ [insn]).flatMap (block snippet) := by
  simp [block]

/-- One step of a path that keeps to the blocks. -/
theorem follows_of_step
    {ahead next : List (Origin × Node)}
    {trace : List (Origin × Insn)}
    (regular : Regular snippet entry core)
    (follows :
      Follows snippet entry core (Stayed handlers (assembled snippet entry core)) ahead trace)
    (step : Step handlers (assembled snippet entry core) ahead next) :
    Follows snippet entry core (Stayed handlers (assembled snippet entry core)) next
      (trace ++ performed ahead) := by
  cases follows with
  | @entering done rest insn split =>
      have straight := regular.straightEntry insn (by simp [split])
      rw [next_eq_of_inserted (by decide) straight step]
      have further :
          Follows snippet entry core (Stayed handlers (assembled snippet entry core))
            (rest.map (fun insn => (.entry, .insn insn)) ++ blocks snippet core)
            ((done ++ [insn]).map fun insn => (.entry, insn)) :=
        follows_of_entry (by simp [split])
      simpa [performed] using further
  | @inside ran done rest node after place split gone =>
      cases rest with
      | cons insn rest =>
          have straight := regular.straight node insn (by simp [split])
          rw [List.map_cons, List.cons_append] at step
          rw [next_eq_of_inserted (by decide) straight step]
          have further :
              Follows snippet entry core (Stayed handlers (assembled snippet entry core))
                (rest.map (fun insn => (.exit, .insn insn)) ++ node :: blocks snippet after)
                (entry.map (fun insn => (.entry, insn)) ++ ran.flatMap (block snippet) ++
                  (done ++ [insn]).map fun insn => (.exit, insn)) :=
            .inside place (by simp [split]) gone
          simpa [performed] using further
      | nil =>
          rw [List.append_nil] at split
          obtain ⟨⟨target, suffix, rfl⟩, silent | ⟨insn, rfl, stayed⟩⟩ :=
            exists_boundary_of_step regular place step
          · obtain ⟨origin, item⟩ := node
            have nothing : done = [] := split.symm.trans (regular.silent origin item silent)
            have further :
                Follows snippet entry core (Stayed handlers (assembled snippet entry core))
                  (blocks snippet target)
                  (entry.map (fun insn => (.entry, insn)) ++ ran.flatMap (block snippet)) :=
              follows_of_boundary suffix gone
            cases item with
            | insn insn => exact absurd rfl (silent insn)
            | _ => simpa [performed, nothing] using further
          · have goneOn :
                ∀ other ∈ ran ++ [insn],
                  Stayed handlers (assembled snippet entry core) other := by
              intro other member
              rcases List.mem_append.mp member with old | new
              · exact gone other old
              · exact List.mem_singleton.mp new ▸ stayed
            have further :
                Follows snippet entry core (Stayed handlers (assembled snippet entry core))
                  (blocks snippet target)
                  (entry.map (fun insn => (.entry, insn)) ++
                    (ran ++ [insn]).flatMap (block snippet)) :=
              follows_of_boundary suffix goneOn
            rw [← trace_of_gone, split] at further
            simpa [performed] using further
  | ended => cases step

/-- Every path keeps to the blocks. -/
theorem follows_of_runs
    {ahead : List (Origin × Node)}
    {trace : List (Origin × Insn)}
    (regular : Regular snippet entry core)
    (runs : Runs handlers (assembled snippet entry core) ahead trace) :
    Follows snippet entry core (Stayed handlers (assembled snippet entry core)) ahead trace := by
  induction runs with
  | start => exact follows_of_entry (List.nil_append entry).symm
  | step _ step inductionHypothesis => exact follows_of_step regular inductionHypothesis step

/--
A path that leaves has performed the entry, blocks that it has gone on from, and
what is inserted in front of the instruction that it leaves by.
-/
theorem trace_of_leaves
    {trace : List (Origin × Insn)}
    {last : Origin × Insn}
    (regular : Regular snippet entry core)
    (leaves : Leaves handlers (assembled snippet entry core) trace last) :
    ∃ (ran : List Insn) (after : List (Origin × Node)),
      (∀ insn ∈ ran, Stayed handlers (assembled snippet entry core) insn) ∧
        (last.1, .insn last.2) :: after <:+ core ∧
          trace =
              entry.map (fun insn => (.entry, insn)) ++ ran.flatMap (block snippet) ++
                (snippet (last.1, .insn last.2)).map (fun insn => (.exit, insn)) ∧
            (last.2.opcode.isReturn = true ∨
              last.2.opcode = Opcode.throwReference ∧
                ¬ Covered handlers (assembled snippet entry core)
                    ((last.1, .insn last.2) :: blocks snippet after)) := by
  obtain ⟨origin, insn⟩ := last
  obtain ⟨rest, runs, out⟩ := leaves
  have follows := follows_of_runs regular runs
  have isExit : insn.opcode.endsFlow = true := by
    simp only [Opcode.endsFlow, Opcode.isExit, Bool.or_eq_true, decide_eq_true_eq]
    rcases out with returns | ⟨throws, _⟩
    · exact .inr (.inl returns)
    · exact .inr (.inr throws)
  generalize place : (origin, Node.insn insn) :: rest = ahead at follows
  cases follows with
  | @entering done others next split =>
      have straight := regular.straightEntry next (by simp [split])
      simp only [List.cons_append, List.cons.injEq, Prod.mk.injEq, Node.insn.injEq] at place
      rw [← place.1.2, isExit] at straight
      cases straight.2
  | @inside ran done others node after suffix split gone =>
      cases others with
      | cons next others =>
          have straight := regular.straight node next (by simp [split])
          simp only [List.map_cons, List.cons_append, List.cons.injEq, Prod.mk.injEq,
            Node.insn.injEq] at place
          rw [← place.1.2, isExit] at straight
          cases straight.2
      | nil =>
          obtain ⟨rfl, rfl⟩ := List.cons.inj place
          rw [List.append_nil] at split
          exact ⟨ran, after, gone, suffix, by rw [split], out⟩
  | ended => cases place

end Paths

end Flow

end JvmClass
