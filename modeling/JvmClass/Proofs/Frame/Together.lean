import JvmClass.Proofs.Frame.Step
import JvmClass.Proofs.Pool.Lookup

namespace JvmClass

/-!
# Steps from two states

An instruction is stepped through from two states at once.  What goes together
before the step goes together behind it, for any relation of types that holds of
the types which the instruction brings in and that does not mistake the width of
a value which the instruction measures.
-/

/-- The first step gives a result only if the second one does, and the results go together. -/
def Follows
    {α β ε ε' : Type}
    (together : α → β → Prop)
    (first : Except ε α)
    (second : Except ε' β) : Prop :=
  ∀ result, first = .ok result → ∃ other, second = .ok other ∧ together result other

section Follows

variable {α β α' β' ε ε' : Type} {together : α → β → Prop} {further : α' → β' → Prop}
  {first : Except ε α} {second : Except ε' β}

theorem follows_ok
    {result : α}
    {other : β}
    (good : together result other) :
    Follows together (.ok result : Except ε α) (.ok other : Except ε' β) := by
  rintro _ ⟨⟩
  exact ⟨other, rfl, good⟩

theorem follows_error (error : ε) : Follows together (.error error) second :=
  nofun

/-- What comes next may depend on what the two steps gave. -/
theorem Follows.bind_of_ok
    {next : α → Except ε α'}
    {other : β → Except ε' β'}
    (follows : Follows together first second)
    (onward :
      ∀ result value,
        first = .ok result →
          second = .ok value → together result value → Follows further (next result) (other value)) :
    Follows further (first >>= next) (second >>= other) := by
  intro result found
  obtain ⟨middle, stepped, found⟩ := bind_eq_ok_iff.mp found
  obtain ⟨value, otherStepped, good⟩ := follows middle stepped
  obtain ⟨last, otherFound, better⟩ := onward middle value stepped otherStepped good result found
  exact ⟨last, bind_eq_ok_iff.mpr ⟨value, otherStepped, otherFound⟩, better⟩

theorem Follows.bind
    {next : α → Except ε α'}
    {other : β → Except ε' β'}
    (follows : Follows together first second)
    (onward : ∀ result value, together result value → Follows further (next result) (other value)) :
    Follows further (first >>= next) (second >>= other) :=
  follows.bind_of_ok fun result value _ _ good => onward result value good

theorem Follows.mapError
    {δ δ' : Type}
    {rename : ε → δ}
    {renameOther : ε' → δ'}
    (follows : Follows together first second) :
    Follows together (first.mapError rename) (second.mapError renameOther) := by
  intro result found
  obtain ⟨value, stepped, good⟩ := follows result (mapError_eq_ok_iff.mp found)
  exact ⟨value, mapError_eq_ok_iff.mpr stepped, good⟩

theorem follows_of_kept
    {second : Except ε' α}
    (kept : ∀ result, first = .ok result → second = .ok result) :
    Follows (fun result other => other = result) first second :=
  fun result found => ⟨result, kept result found, rfl⟩

end Follows

/-! ## What instructions measure and bring in -/

/-- The stack values whose width decides what an action does. -/
def Action.measured (stack : List SlotType) : Action → List SlotType
  | .pop2 | .dup2 | .dup2X1 | .store _ _ => stack.take 1
  | .dupX2 => (stack.drop 1).take 1
  | .dup2X2 =>
      match stack with
      | [] => []
      | first :: rest => first :: if first.isWide then rest.take 1 else (rest.drop 1).take 1
  | _ => []

/-- Stacks of the same widths are measured alike. -/
theorem Action.map_isWide_measured
    {left right : List SlotType}
    (action : Action)
    (widths : left.map SlotType.isWide = right.map SlotType.isWide) :
    (action.measured left).map SlotType.isWide = (action.measured right).map SlotType.isWide := by
  cases action with
  | pop2 | dup2 | dup2X1 | store => simp only [measured, List.map_take, widths]
  | dupX2 => simp only [measured, List.map_take, List.map_drop, widths]
  | dup2X2 =>
      cases left with
      | nil =>
          obtain rfl : right = [] := by simpa using widths.symm
          rfl
      | cons first rest =>
          cases right with
          | nil => simp at widths
          | cons other below =>
              rw [List.map_cons, List.map_cons, List.cons.injEq] at widths
              simp only [measured, List.map_cons, widths.1, List.cons.injEq, true_and]
              split
              · simp only [List.map_take, widths.2]
              · simp only [List.map_take, List.map_drop, widths.2]
  | _ => rfl

namespace Insn

/-- The action of an instruction without operands. -/
def action? : Insn → Option Action
  | .plain code => code.action?
  | _ => none

/-- The local variable that an instruction loads onto the stack or takes from it. -/
def transfer? : Insn → Option SlotAccess
  | .increment _ _ _ => none
  | insn => insn.access?

/-- The stack values whose width decides what an instruction does. -/
def measured (stack : List SlotType) (insn : Insn) : List SlotType :=
  match insn.action?, insn.transfer? with
  | some action, _ => action.measured stack
  | none, some access => if access.isStore then stack.take 1 else []
  | none, none => []

/-- A transfer is an access. -/
theorem access?_of_transfer?
    {insn : Insn}
    {access : SlotAccess}
    (transfers : insn.transfer? = some access) :
    insn.access? = some access := by
  cases insn with
  | increment => cases transfers
  | _ => exact transfers

/-- Stacks of the same widths are measured alike. -/
theorem map_isWide_measured
    {left right : List SlotType}
    (insn : Insn)
    (widths : left.map SlotType.isWide = right.map SlotType.isWide) :
    (insn.measured left).map SlotType.isWide = (insn.measured right).map SlotType.isWide := by
  unfold measured
  split
  · exact Action.map_isWide_measured _ widths
  · split
    · simp only [List.map_take, widths]
    · rfl
  · rfl

/-- An instruction that stores a value measures it. -/
theorem measured_of_store
    {insn : Insn}
    {access : SlotAccess}
    (stack : List SlotType)
    (transfers : insn.transfer? = some access)
    (isStore : access.isStore = true) :
    insn.measured stack = stack.take 1 := by
  cases insn with
  | plain code =>
      simp only [transfer?, access?] at transfers
      split at transfers
      · cases transfers
        cases isStore
      · rename_i acts
        simp [measured, action?, acts, Action.measured]
      · cases transfers
  | slot code index => simp [measured, action?, transfers, isStore]
  | _ => cases transfers

/-- An instruction calls a member. -/
inductive Calls (pool : Pool) : Insn → Member → Prop
  | method
      {code : Opcode}
      {index : UInt16}
      {member : Member}
      (found : pool.member index = .ok member) :
      Calls pool (.method code (.index index)) member
  | interfaceMethod
      {code : Opcode}
      {index : UInt16}
      {count : UInt8}
      {member : Member}
      (found : pool.member index = .ok member) :
      Calls pool (.interfaceMethod code index count) member
  | callSite
      {code : Opcode}
      {index : UInt16}
      {name descriptor : String}
      (found : pool.dynamic index = .ok (name, descriptor)) :
      Calls pool (.callSite code index) ⟨objectName, name, descriptor⟩

/-- The types that an instruction can bring in, whatever is on the stack. -/
inductive Introduces (context : StepContext) : Insn → SlotType → Prop
  | null (code : Opcode) : Introduces context (.plain code) .null
  | kind (insn : Insn) (kind : ValueKind) : Introduces context insn (.ofKind kind)
  | primitives
      {code : Opcode}
      {operand : Int32}
      {type : SlotType}
      (found : SlotType.ofArrayCode? operand = some type) :
      Introduces context (.immediate code operand) type
  | aClass
      {code : Opcode}
      {index : UInt16}
      {name : String}
      (found : context.pool.className index = .ok name) :
      Introduces context (.classRef code index) (.object name)
  | array
      {code : Opcode}
      {index : UInt16}
      {name : String}
      (found : context.pool.className index = .ok name) :
      Introduces context (.classRef code index)
        (.object (String.ofList (ClassName.arrayOf name.toList)))
  | multiArray
      {code : Opcode}
      {index : UInt16}
      {dimensions : UInt8}
      {name : String}
      (found : context.pool.className index = .ok name) :
      Introduces context (.multiArray code index dimensions) (.object name)
  | field
      {code : Opcode}
      {index : UInt16}
      {member : Member}
      {type : FieldType}
      (found : context.pool.member index = .ok member)
      (typed : FieldType.ofDescriptor member.descriptor = .ok type) :
      Introduces context (.field code (.index index)) (.ofFieldType type)
  | result
      {insn : Insn}
      {member : Member}
      {type : MethodType}
      {result : FieldType}
      (calls : insn.Calls context.pool member)
      (typed : MethodType.ofDescriptor member.descriptor = .ok type)
      (returned : type.result = some result) :
      Introduces context insn (.ofFieldType result)
  | constructed
      {insn : Insn}
      {member : Member}
      {owner : String}
      (calls : insn.Calls context.pool member)
      (isOwner : owner = context.method.className ∨ owner = member.owner) :
      Introduces context insn (.object owner)
  | text
      (code : Opcode)
      (value : String) :
      Introduces context (.load code (.text value)) (.object "java/lang/String")
  | constant
      {code : Opcode}
      {index : UInt16}
      {type : SlotType}
      (found : SlotType.ofConstant context.pool index = .ok type) :
      Introduces context (.load code (.index index)) type

/-- An instruction calls a constructor above a number of arguments. -/
inductive Constructs (pool : Pool) : Insn → Nat → Prop
  | method
      {code : Opcode}
      {index : UInt16}
      {member : Member}
      {type : MethodType}
      (hasReceiver : code ≠ Opcode.invokeStatic)
      (found : pool.member index = .ok member)
      (isConstructor : member.name = "<init>")
      (typed : MethodType.ofDescriptor member.descriptor = .ok type) :
      Constructs pool (.method code (.index index)) type.params.length
  | interfaceMethod
      {code : Opcode}
      {index : UInt16}
      {count : UInt8}
      {member : Member}
      {type : MethodType}
      (found : pool.member index = .ok member)
      (isConstructor : member.name = "<init>")
      (typed : MethodType.ofDescriptor member.descriptor = .ok type) :
      Constructs pool (.interfaceMethod code index count) type.params.length

section Acts

variable {context : StepContext} {offset : UInt16} {insn : Insn}

/-- What transfers a local variable is a transfer. -/
theorem Acts.transfer?_eq
    {access : SlotAccess}
    (acts : insn.Acts context offset (.transfer access)) :
    insn.transfer? = some access := by
  cases acts with
  | load acts | store acts => simp only [transfer?, access?, acts]
  | slot _ accesses => exact accesses

theorem Acts.calls
    {hasReceiver : Bool}
    {member : Member}
    (acts : insn.Acts context offset (.call hasReceiver member)) :
    insn.Calls context.pool member := by
  cases acts with
  | method code found => exact .method found
  | interfaceMethod code count found => exact .interfaceMethod found
  | callSite code found => exact .callSite found

/-- What calls a constructor on a receiver constructs an object. -/
theorem Acts.constructs
    {hasReceiver : Bool}
    {member : Member}
    {type : MethodType}
    (acts : insn.Acts context offset (.call hasReceiver member))
    (isTrue : hasReceiver = true)
    (isConstructor : member.name = "<init>")
    (typed : MethodType.ofDescriptor member.descriptor = .ok type) :
    Constructs context.pool insn type.params.length := by
  cases acts with
  | method code found => exact .method (by simpa using isTrue) found isConstructor typed
  | interfaceMethod code count found => exact .interfaceMethod found isConstructor typed
  | callSite code found => cases isTrue

end Acts

/-- The number of arguments of a member that is a constructor. -/
def constructor? (pool : Pool) (index : UInt16) : Option Nat := do
  let member ← (pool.member index).toOption
  guard (member.name = "<init>")
  let type ← (MethodType.ofDescriptor member.descriptor).toOption
  return type.params.length

/-- The number of arguments of the constructor that an instruction calls, if it calls one. -/
def constructs? (pool : Pool) : Insn → Option Nat
  | .method code (.index index) =>
      if code = Opcode.invokeStatic then none else constructor? pool index
  | .interfaceMethod _ index _ => constructor? pool index
  | _ => none

/-- Which constructor is called can be computed. -/
theorem constructs?_of_constructs
    {pool : Pool}
    {insn : Insn}
    {count : Nat}
    (constructs : Constructs pool insn count) :
    insn.constructs? pool = some count := by
  cases constructs with
  | method hasReceiver found isConstructor typed =>
      simp [constructs?, constructor?, hasReceiver, found, isConstructor, typed, Except.toOption, guard]
  | interfaceMethod found isConstructor typed =>
      simp [constructs?, constructor?, found, isConstructor, typed, Except.toOption, guard]

end Insn

namespace SlotType

/-- A pool that has grown gives a constant the type that it had. -/
theorem ofConstant_of_extends
    {pool grown : Pool}
    {index : UInt16}
    {type : SlotType}
    (kept : Entry.Extends pool.entries grown.entries)
    (found : ofConstant pool index = .ok type) :
    ofConstant grown index = .ok type := by
  unfold ofConstant at found ⊢
  obtain ⟨entry, looked, found⟩ := bind_eq_ok_iff.mp found
  have again : (grown.entry index).mapError WriteError.ofRead = .ok entry :=
    mapError_eq_ok_iff.mpr (kept.at? (mapError_eq_ok_iff.mp looked))
  rw [again]
  cases entry with
  | dynamic bootstrap pair =>
      simp only [bind_eq_ok_iff, mapError_eq_ok_iff, pure, Except.pure, Except.ok.injEq,
        Prod.exists] at found
      obtain ⟨name, descriptor, named, field, parsed, rfl⟩ := found
      have namedAgain : (grown.dynamic index).mapError WriteError.ofRead = .ok (name, descriptor) :=
        mapError_eq_ok_iff.mpr (kept.dynamicAt named)
      have parsedAgain :
          (FieldType.ofDescriptor descriptor).mapError WriteError.ofDescriptor = .ok field :=
        mapError_eq_ok_iff.mpr parsed
      exact bind_eq_ok_iff.mpr
        ⟨_, rfl, bind_eq_ok_iff.mpr ⟨_, namedAgain, bind_eq_ok_iff.mpr ⟨field, parsedAgain, rfl⟩⟩⟩
  | _ => exact found

end SlotType

namespace FrameState

/-! ## Stacks -/

section Stacks

variable {related : SlotType → SlotType → Prop} {left right : List SlotType}

/-- Values at one place of two stacks go together. -/
theorem related_of_getElem?
    {place : Nat}
    {type other : SlotType}
    (sameStacks : List.Forall₂ related left right)
    (held : left[place]? = some type)
    (otherHeld : right[place]? = some other) :
    related type other := by
  obtain ⟨inside, rfl⟩ := List.getElem?_eq_some_iff.mp held
  obtain ⟨otherInside, rfl⟩ := List.getElem?_eq_some_iff.mp otherHeld
  exact sameStacks.get inside otherInside

/-- No narrow value goes together with a wide one. -/
def KeepsNarrow (related : SlotType → SlotType → Prop) : Prop :=
  ∀ type other, related type other → type.isWide = false → other.isWide = false

theorem follows_pop (sameStacks : List.Forall₂ related left right) :
    Follows (fun first second => related first.1 second.1 ∧ List.Forall₂ related first.2 second.2)
      (pop left) (pop right) := by
  cases sameStacks with
  | nil => exact follows_error _
  | cons top rest => exact follows_ok ⟨top, rest⟩

/-- What is done with the top of a stack and what lies under it. -/
theorem follows_pop_bind
    {α β : Type}
    {together : α → β → Prop}
    {next : SlotType × List SlotType → Except StackFault α}
    {other : SlotType × List SlotType → Except StackFault β}
    (sameStacks : List.Forall₂ related left right)
    (onward :
      ∀ value otherValue rest otherRest,
        left = value :: rest →
          right = otherValue :: otherRest →
            related value otherValue →
              List.Forall₂ related rest otherRest →
                Follows together (next (value, rest)) (other (otherValue, otherRest))) :
    Follows together (pop left >>= next) (pop right >>= other) :=
  (follows_pop sameStacks).bind_of_ok fun _ _ popped otherPopped goes =>
    onward _ _ _ _ (pop_eq_ok_iff.mp popped) (pop_eq_ok_iff.mp otherPopped) goes.1 goes.2

theorem follows_popMany
    (count : Nat)
    (sameStacks : List.Forall₂ related left right) :
    Follows (List.Forall₂ related) (popMany count left) (popMany count right) := by
  induction count generalizing left right with
  | zero => exact follows_ok sameStacks
  | succ count inductionHypothesis =>
      exact follows_pop_bind sameStacks fun _ _ _ _ _ _ _ rest => inductionHypothesis rest

/-- What is done with values of which none is wide. -/
theorem follows_requireNarrow_bind
    {α β : Type}
    {together : α → β → Prop}
    {next : Unit → Except StackFault α}
    {other : Unit → Except StackFault β}
    {mnemonic : String}
    (narrow : KeepsNarrow related)
    (values : List.Forall₂ related left right)
    (onward : Follows together (next ()) (other ())) :
    Follows together (requireNarrow mnemonic left >>= next)
      (requireNarrow mnemonic right >>= other) := by
  have kept (none : left.any SlotType.isWide = false) : right.any SlotType.isWide = false := by
    induction values with
    | nil => rfl
    | cons first _ inductionHypothesis =>
        simp only [List.any_cons, Bool.or_eq_false_iff] at none ⊢
        exact ⟨narrow _ _ first none.1, inductionHypothesis none.2⟩
  unfold requireNarrow
  split
  · exact follows_error _
  · rename_i none
    rw [if_neg (by rw [kept (by simpa using none)]; exact Bool.false_ne_true)]
    exact onward

theorem follows_replaceTop
    {value other : SlotType}
    (count : Nat)
    (goes : related value other)
    (sameStacks : List.Forall₂ related left right) :
    Follows (List.Forall₂ related) (replaceTop count value left) (replaceTop count other right) :=
  (follows_popMany count sameStacks).bind fun _ _ rest => follows_ok (.cons goes rest)

/-- The widths that an action measures are the same on both stacks. -/
def SameWidths (action : Action) (left right : List SlotType) : Prop :=
  (action.measured left).map SlotType.isWide = (action.measured right).map SlotType.isWide

theorem follows_pop2
    (narrow : KeepsNarrow related)
    (widths : SameWidths .pop2 left right)
    (sameStacks : List.Forall₂ related left right) :
    Follows (List.Forall₂ related) (pop2 left) (pop2 right) := by
  refine follows_pop_bind sameStacks fun first first' rest rest' shape shape' top sameStacks => ?_
  rw [shape, shape'] at widths
  have same : first.isWide = first'.isWide := by simpa [SameWidths, Action.measured] using widths
  dsimp only
  rw [same]
  split
  · exact follows_ok sameStacks
  · refine follows_pop_bind sameStacks fun _ _ _ _ _ _ next sameStacks => ?_
    exact follows_requireNarrow_bind narrow (.cons next .nil) (follows_ok sameStacks)

theorem follows_dupX2
    (narrow : KeepsNarrow related)
    (widths : SameWidths .dupX2 left right)
    (sameStacks : List.Forall₂ related left right) :
    Follows (List.Forall₂ related) (dupX2 left) (dupX2 right) := by
  refine follows_pop_bind sameStacks fun first first' rest rest' shape shape' top sameStacks => ?_
  refine follows_requireNarrow_bind narrow (.cons top .nil) ?_
  refine follows_pop_bind sameStacks fun second second' below below' deeper deeper' next sameStacks => ?_
  rw [shape, shape', deeper, deeper'] at widths
  have same : second.isWide = second'.isWide := by simpa [SameWidths, Action.measured] using widths
  dsimp only
  rw [same]
  split
  · exact follows_ok (.cons top (.cons next (.cons top sameStacks)))
  · refine follows_pop_bind sameStacks fun _ _ _ _ _ _ last sameStacks => ?_
    exact follows_ok (.cons top (.cons next (.cons last (.cons top sameStacks))))

theorem follows_dup2
    (narrow : KeepsNarrow related)
    (widths : SameWidths .dup2 left right)
    (sameStacks : List.Forall₂ related left right) :
    Follows (List.Forall₂ related) (dup2 left) (dup2 right) := by
  refine follows_pop_bind sameStacks fun first first' rest rest' shape shape' top sameStacks => ?_
  rw [shape, shape'] at widths
  have same : first.isWide = first'.isWide := by simpa [SameWidths, Action.measured] using widths
  dsimp only
  rw [same]
  split
  · exact follows_ok (.cons top (.cons top sameStacks))
  · refine follows_pop_bind sameStacks fun _ _ _ _ _ _ next sameStacks => ?_
    refine follows_requireNarrow_bind narrow (.cons next .nil) ?_
    exact follows_ok (.cons top (.cons next (.cons top (.cons next sameStacks))))

theorem follows_dup2X1
    (widths : SameWidths .dup2X1 left right)
    (sameStacks : List.Forall₂ related left right) :
    Follows (List.Forall₂ related) (dup2X1 left) (dup2X1 right) := by
  refine follows_pop_bind sameStacks fun first first' rest rest' shape shape' top sameStacks => ?_
  refine follows_pop_bind sameStacks fun _ _ _ _ _ _ next sameStacks => ?_
  rw [shape, shape'] at widths
  have same : first.isWide = first'.isWide := by simpa [SameWidths, Action.measured] using widths
  dsimp only
  rw [same]
  split
  · exact follows_ok (.cons top (.cons next (.cons top sameStacks)))
  · refine follows_pop_bind sameStacks fun _ _ _ _ _ _ last sameStacks => ?_
    exact follows_ok (.cons top (.cons next (.cons last (.cons top (.cons next sameStacks)))))

theorem follows_dup2X2
    (widths : SameWidths .dup2X2 left right)
    (sameStacks : List.Forall₂ related left right) :
    Follows (List.Forall₂ related) (dup2X2 left) (dup2X2 right) := by
  refine follows_pop_bind sameStacks fun first first' rest rest' shape shape' top sameStacks => ?_
  refine follows_pop_bind sameStacks fun second second' below below' deeper deeper' next sameStacks => ?_
  rw [shape, shape', deeper, deeper'] at widths
  simp only [SameWidths, Action.measured, List.map_cons, List.cons.injEq] at widths
  obtain ⟨same, widths⟩ := widths
  rw [same] at widths
  dsimp only
  rw [same]
  split
  · rename_i wide
    have sameBelow : second.isWide = second'.isWide := by simpa [wide] using widths
    rw [sameBelow]
    split
    · exact follows_ok (.cons top (.cons next (.cons top sameStacks)))
    · refine follows_pop_bind sameStacks fun _ _ _ _ _ _ last sameStacks => ?_
      exact follows_ok (.cons top (.cons next (.cons last (.cons top sameStacks))))
  · rename_i notWide
    refine follows_pop_bind sameStacks fun third third' _ _ deepest deepest' last sameStacks => ?_
    rw [deepest, deepest'] at widths
    have sameBelow : third.isWide = third'.isWide := by simpa [notWide] using widths
    dsimp only
    rw [sameBelow]
    split
    · exact follows_ok (.cons top (.cons next (.cons last (.cons top (.cons next sameStacks)))))
    · refine follows_pop_bind sameStacks fun _ _ _ _ _ _ lowest sameStacks => ?_
      exact follows_ok
        (.cons top (.cons next (.cons last (.cons lowest (.cons top (.cons next sameStacks))))))

theorem follows_applyAction
    {action : Action}
    (narrow : KeepsNarrow related)
    (widths : SameWidths action left right)
    (null : related .null .null)
    (kinds : ∀ kind, related (.ofKind kind) (.ofKind kind))
    (element :
      action = .loadElement .reference →
        ∀ array other,
          left[1]? = some array → right[1]? = some other → related array.elementOf other.elementOf)
    (sameStacks : List.Forall₂ related left right) :
    Follows (List.Forall₂ related) (applyAction action left) (applyAction action right) := by
  cases action with
  | nothing | load _ _ | store _ _ => exact follows_ok sameStacks
  | leave kind =>
      cases kind with
      | none => exact follows_ok sameStacks
      | some kind => exact follows_popMany 1 sameStacks
  | pushNull => exact follows_ok (.cons null sameStacks)
  | push kind => exact follows_ok (.cons (kinds kind) sameStacks)
  | loadElement kind =>
      cases kind with
      | reference =>
          refine follows_pop_bind sameStacks fun _ _ rest rest' shape shape' _ sameStacks => ?_
          refine follows_pop_bind sameStacks fun array array' _ _ deeper deeper' _ sameStacks => ?_
          exact follows_ok
            (.cons (element rfl array array' (by rw [shape, deeper]; rfl) (by rw [shape', deeper']; rfl))
              sameStacks)
      | _ => exact follows_replaceTop 2 (kinds _) sameStacks
  | storeElement kind => exact follows_popMany 3 sameStacks
  | pop =>
      refine follows_pop_bind sameStacks fun _ _ _ _ _ _ top sameStacks => ?_
      exact follows_requireNarrow_bind narrow (.cons top .nil) (follows_ok sameStacks)
  | pop2 => exact follows_pop2 narrow widths sameStacks
  | dup =>
      refine follows_pop_bind sameStacks fun _ _ _ _ _ _ top sameStacks => ?_
      exact follows_requireNarrow_bind narrow (.cons top .nil)
        (follows_ok (.cons top (.cons top sameStacks)))
  | dupX1 =>
      refine follows_pop_bind sameStacks fun _ _ _ _ _ _ top sameStacks => ?_
      refine follows_pop_bind sameStacks fun _ _ _ _ _ _ next sameStacks => ?_
      exact follows_requireNarrow_bind narrow (.cons top (.cons next .nil))
        (follows_ok (.cons top (.cons next (.cons top sameStacks))))
  | dupX2 => exact follows_dupX2 narrow widths sameStacks
  | dup2 => exact follows_dup2 narrow widths sameStacks
  | dup2X1 => exact follows_dup2X1 widths sameStacks
  | dup2X2 => exact follows_dup2X2 widths sameStacks
  | swap =>
      refine follows_pop_bind sameStacks fun _ _ _ _ _ _ top sameStacks => ?_
      refine follows_pop_bind sameStacks fun _ _ _ _ _ _ next sameStacks => ?_
      exact follows_requireNarrow_bind narrow (.cons top (.cons next .nil))
        (follows_ok (.cons next (.cons top sameStacks)))
  | combine kind | shift kind => exact follows_replaceTop 2 (kinds kind) sameStacks
  | convert _ target => exact follows_replaceTop 1 (kinds target) sameStacks
  | compare kind => exact follows_replaceTop 2 (kinds .int) sameStacks
  | arrayLength => exact follows_replaceTop 1 (kinds .int) sameStacks
  | throw | monitor => exact follows_popMany 1 sameStacks

end Stacks

/-- A local variable that is known is loaded as it is. -/
theorem loadLocal_of_known
    {locals : List SlotType}
    {index : UInt16}
    (context : StepContext)
    (offset : UInt16)
    (known : locals.getD index.toNat .top ≠ .unmerged) :
    loadLocal context offset locals index = .ok (locals.getD index.toNat .top) := by
  unfold loadLocal
  rw [List.getD_eq_getElem?_getD] at known ⊢
  split
  · rename_i missing
    exact absurd (by rw [missing]; rfl) known
  · rename_i held
    rw [held, Option.getD_some]
  · rename_i missing
    rw [missing, Option.getD_none]

/-! ## Steps -/

section States

variable {related : SlotType → SlotType → Prop} {together : FrameState → FrameState → Prop}
  {left right : FrameState}

/-- States go together in two parts: their stacks, type by type, and the rest. -/
structure Carries
    (related : SlotType → SlotType → Prop)
    (together : FrameState → FrameState → Prop) : Prop where
  narrow : KeepsNarrow related
  stack :
    ∀ left right, together left right → List.Forall₂ related left.stack right.stack
  withStack :
    ∀ left right first second,
      together left right →
        List.Forall₂ related first second →
          together { left with stack := first } { right with stack := second }

theorem Carries.push
    {type other : SlotType}
    (carries : Carries related together)
    (goes : together left right)
    (relates : related type other) :
    together { left with stack := type :: left.stack } { right with stack := other :: right.stack } :=
  carries.withStack _ _ _ _ goes (.cons relates (carries.stack _ _ goes))

/-- What a call leaves goes on top of both stacks. -/
theorem Carries.withResult
    {type : MethodType}
    (carries : Carries related together)
    (goes : together left right)
    (relates :
      ∀ result, type.result = some result → related (.ofFieldType result) (.ofFieldType result)) :
    together
      (match type.result with
        | some result => { left with stack := .ofFieldType result :: left.stack }
        | none => left)
      (match type.result with
        | some result => { right with stack := .ofFieldType result :: right.stack }
        | none => right) := by
  cases returned : type.result with
  | none => exact goes
  | some result => exact carries.push goes (relates result returned)

theorem follows_onStack
    {offset other : UInt16}
    {change changeOther : List SlotType → Except StackFault (List SlotType)}
    (carries : Carries related together)
    (goes : together left right)
    (follows : Follows (List.Forall₂ related) (change left.stack) (changeOther right.stack)) :
    Follows together (onStack offset left change) (onStack other right changeOther) :=
  follows.mapError.bind fun _ _ sameStacks => follows_ok (carries.withStack _ _ _ _ goes sameStacks)

/-- A receiver is replaced on both sides by the object that a constructor makes of it. -/
def Constructed
    (together : FrameState → FrameState → Prop)
    (receiver other : SlotType)
    (owner : String) : Prop :=
  ∀ left right,
    together left right →
      together (replaceType receiver (.object owner) left) (replaceType other (.object owner) right)

theorem follows_invoke
    {context otherContext : StepContext}
    {offset other : UInt16}
    {hasReceiver : Bool}
    {member : Member}
    (carries : Carries related together)
    (sameClass : otherContext.method.className = context.method.className)
    (result :
      ∀ type result,
        MethodType.ofDescriptor member.descriptor = .ok type →
          type.result = some result → related (.ofFieldType result) (.ofFieldType result))
    (constructed :
      hasReceiver = true →
        member.name = "<init>" →
          ∀ type receiver otherReceiver,
            MethodType.ofDescriptor member.descriptor = .ok type →
              left.stack[type.params.length]? = some receiver →
                right.stack[type.params.length]? = some otherReceiver →
                  (otherReceiver = .uninitializedThis ↔ receiver = .uninitializedThis) ∧
                    ∀ owner,
                      owner = context.method.className ∨ owner = member.owner →
                        Constructed together receiver otherReceiver owner)
    (goes : together left right) :
    Follows together (invoke context offset hasReceiver member left)
      (invoke otherContext other hasReceiver member right) := by
  unfold invoke
  have typed :
      Follows (fun first second : MethodType => second = first)
        ((MethodType.ofDescriptor member.descriptor).mapError WriteError.ofDescriptor)
        ((MethodType.ofDescriptor member.descriptor).mapError WriteError.ofDescriptor) :=
    follows_of_kept fun _ => id
  refine typed.bind_of_ok fun _ type _ found same => ?_
  subst same
  replace found := mapError_eq_ok_iff.mp found
  refine (follows_popMany _ (carries.stack _ _ goes)).mapError.bind_of_ok
    fun stack otherStack popped otherPopped sameStacks => ?_
  have returns (value : FieldType) (returned : type.result = some value) :=
    result type value found returned
  cases hasReceiver with
  | false =>
      exact follows_ok (carries.withResult (carries.withStack _ _ _ _ goes sameStacks) returns)
  | true =>
      -- What is taken off behind the arguments is the value at their number.
      have receiverAt {offset : UInt16} {stack below rest : List SlotType} {receiver : SlotType}
          (popped : (popMany type.params.length stack).mapError (StackFault.at offset) = .ok below)
          (taken : (pop below).mapError (StackFault.at offset) = .ok (receiver, rest)) :
          stack[type.params.length]? = some receiver := by
        obtain ⟨_, rfl⟩ := popMany_eq_ok_iff.mp (mapError_eq_ok_iff.mp popped)
        rw [← Nat.add_zero type.params.length, ← List.getElem?_drop,
          pop_eq_ok_iff.mp (mapError_eq_ok_iff.mp taken), List.getElem?_cons_zero]
      refine (follows_pop sameStacks).mapError.bind_of_ok
        fun first second taken otherTaken both => ?_
      obtain ⟨receiver, rest⟩ := first
      obtain ⟨otherReceiver, otherRest⟩ := second
      have behind := carries.withStack _ _ _ _ goes both.2
      dsimp only
      split
      · rename_i isConstructor
        obtain ⟨same, replaced⟩ :=
          constructed rfl isConstructor type receiver otherReceiver found
            (receiverAt popped taken) (receiverAt otherPopped otherTaken)
        simp only [same, sameClass]
        refine follows_ok (carries.withResult (replaced _ ?_ _ _ behind) returns)
        split
        · exact .inl rfl
        · exact .inr rfl
      · exact follows_ok (carries.withResult behind returns)

end States

end FrameState

namespace Insn

open FrameState

/-- The targets of an instruction play no part in its step. -/
theorem step_mapTargets
    (context : StepContext)
    (offset : UInt16)
    (insn : Insn)
    (rename : Nat → Nat)
    (state : FrameState) :
    (insn.mapTargets rename).step context offset state = insn.step context offset state := by
  cases insn <;> rfl

/-- What an instruction asks of two states that go together for its step to keep them so. -/
structure Treats
    (related : SlotType → SlotType → Prop)
    (together : FrameState → FrameState → Prop)
    (context otherContext : StepContext)
    (offset other : UInt16)
    (insn : Insn)
    (left right : FrameState) : Prop where
  introduced : ∀ type, insn.Introduces context type → related type type
  created : related (.uninitialized offset) (.uninitialized other)
  widths :
    (insn.measured left.stack).map SlotType.isWide =
      (insn.measured right.stack).map SlotType.isWide
  element :
    insn.action? = some (.loadElement .reference) →
      ∀ array otherArray,
        left.stack[1]? = some array →
          right.stack[1]? = some otherArray → related array.elementOf otherArray.elementOf
  transfers :
    ∀ access,
      insn.transfer? = some access →
        Follows together (accessLocal context offset left access)
          (accessLocal otherContext other right access)
  constructs :
    ∀ count receiver otherReceiver,
      Constructs context.pool insn count →
        left.stack[count]? = some receiver →
          right.stack[count]? = some otherReceiver →
            (otherReceiver = .uninitializedThis ↔ receiver = .uninitializedThis) ∧
              ∀ owner,
                insn.Introduces context (.object owner) →
                  Constructed together receiver otherReceiver owner

section Elsewhere

variable
  {related : SlotType → SlotType → Prop} {context otherContext : StepContext}
  {offset other : UInt16} {insn : Insn}

theorem Acts.transfer_elsewhere
    {access : SlotAccess}
    (acts : insn.Acts context offset (.transfer access)) :
    insn.Acts otherContext other (.transfer access) := by
  cases acts with
  | load acts => exact .load acts
  | store acts => exact .store acts
  | slot goesOn accesses => exact .slot goesOn accesses

theorem Acts.rearrange_elsewhere
    {action : Action}
    (acts : insn.Acts context offset (.rearrange action)) :
    insn.Acts otherContext other (.rearrange action) := by
  cases acts with
  | plain acts staysOnStack => exact .plain acts staysOnStack

/-- An instruction calls the same member if the pool has grown. -/
theorem Acts.call_elsewhere
    {hasReceiver : Bool}
    {member : Member}
    (kept : Entry.Extends context.pool.entries otherContext.pool.entries)
    (acts : insn.Acts context offset (.call hasReceiver member)) :
    insn.Acts otherContext other (.call hasReceiver member) := by
  cases acts with
  | method code found => exact .method code (kept.memberAt found)
  | interfaceMethod code count found => exact .interfaceMethod code count (kept.memberAt found)
  | callSite code found => exact .callSite code (kept.dynamicAt found)

/-- An instruction replaces values by related ones if the pool has grown. -/
theorem Acts.replace_elsewhere
    {widths : List Nat}
    {results : List SlotType}
    (kept : Entry.Extends context.pool.entries otherContext.pool.entries)
    (introduced : ∀ type, insn.Introduces context type → related type type)
    (created : related (.uninitialized offset) (.uninitialized other))
    (acts : insn.Acts context offset (.replace widths results)) :
    ∃ others,
      insn.Acts otherContext other (.replace widths others) ∧
        List.Forall₂ related results others := by
  have integer : related .integer .integer := introduced _ (.kind insn .int)
  cases acts with
  | noSlot goesOn accesses => exact ⟨_, .noSlot goesOn accesses, .nil⟩
  | newArray typed => exact ⟨_, .newArray typed, .cons (introduced _ (.primitives typed)) .nil⟩
  | immediate operand isOther => exact ⟨_, .immediate operand isOther, .cons integer .nil⟩
  | increment code index amount => exact ⟨_, .increment code index amount, .nil⟩
  | classRef code found =>
      refine ⟨_, .classRef code (kept.classNameAt found), .cons ?_ .nil⟩
      unfold classResult
      repeat' split
      · exact created
      · exact introduced _ (.array found)
      · exact introduced _ (.aClass found)
      · exact integer
  | field code found typed =>
      have value := introduced _ (.field found typed)
      refine ⟨_, .field code (kept.memberAt found) typed, ?_⟩
      unfold fieldResults
      repeat' split
      · exact .cons value .nil
      · exact .nil
      · exact .cons value .nil
      · exact .nil
  | jump target counted => exact ⟨_, .jump target counted, .nil⟩
  | text code value => exact ⟨_, .text code value, .cons (introduced _ (.text code value)) .nil⟩
  | constant code found =>
      exact ⟨_, .constant code (SlotType.ofConstant_of_extends kept found),
        .cons (introduced _ (.constant found)) .nil⟩
  | tableSwitch code default low high targets =>
      exact ⟨_, .tableSwitch code default low high targets, .nil⟩
  | lookupSwitch code default pairs => exact ⟨_, .lookupSwitch code default pairs, .nil⟩
  | multiArray code dimensions found =>
      exact ⟨_, .multiArray code dimensions (kept.classNameAt found),
        .cons (introduced _ (.multiArray found)) .nil⟩

end Elsewhere

/-- An instruction that treats two states alike keeps them together, also if the pool has grown. -/
theorem follows_step_of_treats
    {related : SlotType → SlotType → Prop}
    {together : FrameState → FrameState → Prop}
    {context otherContext : StepContext}
    {offset other : UInt16}
    {insn : Insn}
    {left right : FrameState}
    (carries : Carries related together)
    (kept : Entry.Extends context.pool.entries otherContext.pool.entries)
    (sameClass : otherContext.method.className = context.method.className)
    (treats : insn.Treats related together context otherContext offset other left right)
    (goes : together left right) :
    Follows together (insn.step context offset left) (insn.step otherContext other right) := by
  intro behind found
  obtain ⟨act, acts, ran⟩ := exists_run_of_step found
  have sameStacks := carries.stack _ _ goes
  suffices follows :
      ∃ otherAct,
        insn.Acts otherContext other otherAct ∧
          Follows together (act.run context offset left) (otherAct.run otherContext other right) by
    obtain ⟨otherAct, otherActs, follows⟩ := follows
    obtain ⟨otherBehind, otherRan, together⟩ := follows behind ran
    exact ⟨otherBehind, otherActs.step_eq_ok_iff.mpr otherRan, together⟩
  cases act with
  | transfer access =>
      exact ⟨_, acts.transfer_elsewhere, treats.transfers access acts.transfer?_eq⟩
  | rearrange action =>
      refine ⟨_, acts.rearrange_elsewhere, follows_onStack carries goes ?_⟩
      cases acts with
      | plain acts staysOnStack =>
          have widths := treats.widths
          simp only [measured, Insn.action?, acts] at widths
          exact follows_applyAction carries.narrow widths (treats.introduced _ (.null _))
            (fun kind => treats.introduced _ (.kind _ kind))
            (fun same => treats.element (same ▸ acts)) sameStacks
  | replace widths results =>
      obtain ⟨others, otherActs, relates⟩ :=
        acts.replace_elsewhere kept treats.introduced treats.created
      refine ⟨_, otherActs, ?_⟩
      simp only [Act.run]
      exact follows_onStack carries goes
        ((follows_popMany widths.length sameStacks).bind fun _ _ below =>
          follows_ok (List.rel_append relates below))
  | call hasReceiver member =>
      refine ⟨_, acts.call_elsewhere kept, follows_invoke carries sameClass ?_ ?_ goes⟩
      · exact fun type result typed returned =>
          treats.introduced _ (.result acts.calls typed returned)
      · intro isTrue isConstructor type receiver otherReceiver typed receiverAt otherAt
        obtain ⟨same, replaced⟩ := treats.constructs _ receiver otherReceiver
          (acts.constructs isTrue isConstructor typed) receiverAt otherAt
        exact ⟨same, fun owner isOwner => replaced owner (.constructed acts.calls isOwner)⟩

end Insn
end JvmClass
