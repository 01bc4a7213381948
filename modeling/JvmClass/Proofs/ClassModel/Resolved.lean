import JvmClass.Proofs.Attribute.Indices
import JvmClass.Proofs.ClassModel.Read

namespace JvmClass

/-!
# References of classes that were read

Reading a class looks up what it needs: names, superclasses, the classes that
handlers catch, local variables, and what instructions refer to.  So the index of
an instruction always leads to an entry of the kind that the instruction takes.
Frames and attributes that are handed on keep their numbers as they are, and nothing
looks at them: a class can be read with any numbers there.
-/

/-! ## Instructions -/

/-- The number leads to an entry that can be used. -/
def Pool.HasEntry (pool : Pool) (index : UInt16) : Prop :=
  ∃ entry, pool.entry index = .ok entry

instance (pool : Pool) (index : UInt16) : Decidable (pool.HasEntry index) :=
  decidable_of_iff ((pool.entry index).toOption.isSome = true) <| by
    rw [Option.isSome_iff_exists]
    exact exists_congr fun _ => toOption_eq_some_iff

/-- Whether an entry is a class. -/
def Entry.isClass : Entry → Bool
  | .classRef _ => true
  | _ => false

namespace Insn

/-- The pool index of an instruction. -/
def index? : Insn → Option UInt16
  | .field _ (.index index) | .method _ (.index index) | .load _ (.index index)
  | .interfaceMethod _ index _ | .callSite _ index | .classRef _ index
  | .multiArray _ index _ => some index
  | _ => none

/-- Whether an instruction takes an entry. -/
def accepts : Insn → Entry → Bool
  | .field _ _ => Entry.isMemberOf [.field]
  | .method _ _ => Entry.isMemberOf [.method, .interfaceMethod]
  | .interfaceMethod _ _ _ => Entry.isMemberOf [.interfaceMethod]
  | .callSite _ _ => Entry.isCallSite
  | .classRef _ _ | .multiArray _ _ _ => Entry.isClass
  | .load opcode _ => if opcode = Opcode.ldc2W then Entry.isWide else Entry.isLoadable
  | _ => fun _ => false

theorem exists_of_expect
    {pool : Pool}
    {index : UInt16}
    {takes : Entry → Bool}
    (expected : pool.expect index takes = .ok ()) :
    ∃ entry, pool.entry index = .ok entry ∧ takes entry = true := by
  obtain ⟨entry, found, taken⟩ := bind_eq_ok_iff.mp expected
  split at taken
  · rename_i isTaken
    exact ⟨entry, found, isTaken⟩
  · cases taken

theorem exists_of_className
    {pool : Pool}
    {index : UInt16}
    {name : String}
    (named : pool.className index = .ok name) :
    ∃ entry, pool.entry index = .ok entry ∧ entry.isClass = true := by
  obtain ⟨entry, found, isNamed⟩ := bind_eq_ok_iff.mp named
  refine ⟨entry, found, ?_⟩
  cases entry with
  | classRef _ => rfl
  | _ => cases isNamed

/-- An instruction that was checked takes the entry that its index leads to. -/
theorem exists_entry_of_checkOperand
    {pool : Pool}
    {insn : Insn}
    {index : UInt16}
    (checked : insn.checkOperand pool = .ok ())
    (refers : insn.index? = some index) :
    ∃ entry, pool.entry index = .ok entry ∧ insn.accepts entry = true := by
  unfold index? at refers
  split at refers
  case h_8 => cases refers
  all_goals cases refers
  case h_6 | h_7 =>
    obtain ⟨name, named, _⟩ := bind_eq_ok_iff.mp checked
    exact exists_of_className named
  all_goals exact exists_of_expect checked

end Insn

/-! ## Bodies -/

/-- The frame at the same place with other pool indices. -/
def PlacedFrame.mapIndices
    (rename : UInt16 → UInt16)
    (placed : PlacedFrame) : PlacedFrame :=
  ⟨placed.label, placed.frame.mapIndices rename⟩

namespace Body

/-- The pool indices that a body keeps apart from those of its instructions. -/
def tableIndices (body : Body) : List UInt16 :=
  body.frames.flatMap (fun placed => placed.frame.indices)
    ++ body.attributes.flatMap Attribute.indices

/-- The body with other pool indices in its frames and attributes. -/
def mapIndices
    (rename : UInt16 → UInt16)
    (body : Body) : Body :=
  { body with
    frames := body.frames.map (PlacedFrame.mapIndices rename)
    attributes := body.attributes.map (Attribute.mapIndices rename) }

/-- What attributes say about a body, with other pool indices in frames and attributes. -/
def Tables.mapIndices
    (rename : UInt16 → UInt16)
    (tables : Tables) : Tables :=
  { tables with
    frames := tables.frames.map (Prod.map id (StackMap.Frame.mapIndices rename))
    attributes := tables.attributes.map (Attribute.mapIndices rename) }

theorem Decoded.FramesAt.mapIndices
    {decoded : Decoded}
    {base : Nat}
    {frames : List StackMap.Frame}
    {placed : List (Nat × StackMap.Frame)}
    (rename : UInt16 → UInt16)
    (framesAt : FramesAt decoded base frames placed) :
    FramesAt decoded base (frames.map (StackMap.Frame.mapIndices rename))
      (placed.map (Prod.map id (StackMap.Frame.mapIndices rename))) := by
  induction framesAt with
  | nil base => exact .nil base
  | @cons base frame frames placed boundary inside _ inductionHypothesis =>
      have same := StackMap.Frame.delta_mapIndices rename frame
      rw [List.map_cons, List.map_cons, Prod.map_apply, id_eq, ← same]
      rw [← same] at boundary inside inductionHypothesis
      exact .cons boundary inside inductionHypothesis

/-- What one attribute says does not depend on the numbers that stand in it. -/
theorem Tables.add_mapIndices
    {decoded : Decoded}
    {tables after : Tables}
    {item : Attribute}
    (rename : UInt16 → UInt16)
    (added : tables.add decoded item = .ok after) :
    (tables.mapIndices rename).add decoded (item.mapBodyIndices rename) =
      .ok (after.mapIndices rename) := by
  cases add_eq_ok_iff.mp added with
  | lines checked =>
      simp only [Attribute.mapBodyIndices, Attribute.mapIndices, Attribute.mapOwnIndices]
      exact add_eq_ok_iff.mpr (.lines checked)
  | locals checked => exact add_eq_ok_iff.mpr (.locals checked)
  | frames located =>
      simp only [Attribute.mapBodyIndices, Attribute.mapIndices, Attribute.mapOwnIndices]
      rw [add_eq_ok_iff.mpr (.frames (located.mapIndices rename))]
      simp [mapIndices]
  | other noTable =>
      cases item with
      | lineNumberTable | localVariableTable | stackMapTable => cases noTable
      | code body =>
          obtain ⟨maxStack, maxLocals, code, handlers, attributes⟩ := body
          simp only [mapIndices, List.map_cons, Attribute.mapBodyIndices, Attribute.mapIndices]
          rfl
      | _ =>
          simp only [mapIndices, List.map_cons, Attribute.mapBodyIndices, Attribute.mapIndices,
            Attribute.mapOwnIndices]
          rfl

theorem Tables.ofAttributes_mapIndices
    {decoded : Decoded}
    {attributes : List Attribute}
    {tables : Tables}
    (rename : UInt16 → UInt16)
    (read : ofAttributes decoded attributes = .ok tables) :
    ofAttributes decoded (attributes.map (Attribute.mapBodyIndices rename)) =
      .ok (tables.mapIndices rename) := by
  obtain ⟨folded, added, same⟩ := bind_eq_ok_iff.mp read
  cases same
  have each (before : Tables) (addedFrom : attributes.foldlM (add decoded) before = .ok folded) :
      (attributes.map (Attribute.mapBodyIndices rename)).foldlM (add decoded)
          (before.mapIndices rename) = .ok (folded.mapIndices rename) := by
    clear added read
    induction attributes generalizing before with
    | nil =>
        cases addedFrom
        rfl
    | cons first rest inductionHypothesis =>
        obtain ⟨next, firstAdded, restAdded⟩ := bind_eq_ok_iff.mp addedFrom
        exact bind_eq_ok_iff.mpr
          ⟨_, add_mapIndices rename firstAdded, inductionHypothesis next restAdded⟩
  refine bind_eq_ok_iff.mpr ⟨_, each _ added, ?_⟩
  simp [mapIndices, pure, Except.pure]

/-- Frames are referred to where they stand, whatever they say. -/
theorem references_mapIndices
    (decoded : Decoded)
    (handlers : List HandlerEntry)
    (tables : Tables)
    (rename : UInt16 → UInt16) :
    references decoded handlers (tables.mapIndices rename) =
      references decoded handlers tables := by
  simp [references, Tables.mapIndices, Function.comp_def]

/-- A body is decoded whatever numbers stand in its frames and attributes. -/
theorem ofAttribute_mapIndices
    {pool : Pool}
    {raw : CodeAttribute Attribute}
    {body : Body}
    (rename : UInt16 → UInt16)
    (read : ofAttribute pool raw = .ok body) :
    ofAttribute pool
        { raw with attributes := raw.attributes.map (Attribute.mapBodyIndices rename) } =
      .ok (body.mapIndices rename) := by
  obtain ⟨decoded, tables, decodes⟩ := ofAttribute_eq_ok_iff.mp read
  have same :
      labelingOf decoded raw.handlers (tables.mapIndices rename) =
        labelingOf decoded raw.handlers tables := by
    rw [labelingOf, references_mapIndices]
  refine ofAttribute_eq_ok_iff.mpr ⟨decoded, tables.mapIndices rename, {
    code := decodes.code
    insns := decodes.insns
    handlers := decodes.handlers
    tablesRead := Tables.ofAttributes_mapIndices rename decodes.tablesRead
    handlersOf := by
      rw [same]
      exact decodes.handlersOf
    localsOf := by
      rw [same]
      exact decodes.localsOf
    shape := ?_ }⟩
  have shape := decodes.shape
  rw [same, mapIndices]
  generalize labelingOf decoded raw.handlers tables = labeling at shape
  rw [shape]
  simp [Tables.mapIndices, PlacedFrame.mapIndices, Function.comp_def]

/-- The numbers in frames and attributes are replaced where they stand. -/
theorem tableIndices_mapIndices
    {rename : UInt16 → UInt16}
    (zero : KeepsZero rename)
    (body : Body) :
    (body.mapIndices rename).tableIndices = body.tableIndices.map rename := by
  simp [tableIndices, mapIndices, PlacedFrame.mapIndices, List.flatMap_map, List.map_flatMap,
    StackMap.Frame.indices_mapIndices, Attribute.indices_mapIndices zero]

end Body

/-! ## Members -/

/-- The field or method with other attributes. -/
def MemberInfo.mapAttributes
    (change : Attribute → Attribute)
    (info : MemberInfo) : MemberInfo :=
  { info with attributes := info.attributes.map change }

theorem MemberInfo.admits_reader
    {pool : Pool}
    {depth : Nat}
    {change : Attribute → Attribute}
    (admits : (Attribute.reader pool depth).Admits change) :
    (reader pool depth).Admits (mapAttributes change) := by
  intro taken info reads
  obtain ⟨behind, rfl, tableReads⟩ := reads_reader_iff.mp reads
  obtain ⟨again, length, readAgain⟩ :=
    admits.table16 (Attribute.local_reader pool depth) _ _ tableReads
  exact ⟨_, by simp [length], reads_reader_iff.mpr ⟨again, rfl, readAgain⟩⟩

/-- The field with other pool indices in its attributes. -/
def Field.mapIndices
    (rename : UInt16 → UInt16)
    (field : Field) : Field :=
  { field with attributes := field.attributes.map (Attribute.mapIndices rename) }

theorem Field.ofInfo_mapIndices
    {pool : Pool}
    {info : MemberInfo}
    {field : Field}
    (rename : UInt16 → UInt16)
    (resolved : ofInfo pool info = .ok field) :
    ofInfo pool (info.mapAttributes (Attribute.mapIndices rename)) =
      .ok (field.mapIndices rename) := by
  obtain ⟨access, named, described, attributes⟩ := ofInfo_eq_ok_iff.mp resolved
  refine ofInfo_eq_ok_iff.mpr ⟨access, named, described, ?_⟩
  exact congrArg (List.map (Attribute.mapIndices rename)) attributes

namespace Method

/-- The method with other pool indices in its attributes and in the tables of its body. -/
def mapIndices
    (rename : UInt16 → UInt16)
    (method : Method) : Method :=
  { method with
    body := method.body.map (Body.mapIndices rename)
    attributes := method.attributes.map (Attribute.mapIndices rename) }

theorem splitBody_mapIndices
    {pool : Pool}
    {body result : Option Body}
    {done attributes others : List Attribute}
    (rename : UInt16 → UInt16)
    (split : splitBody pool body done attributes = .ok (result, others)) :
    splitBody pool (body.map (Body.mapIndices rename)) (done.map (Attribute.mapIndices rename))
        (attributes.map (Attribute.mapMethodIndices rename)) =
      .ok (result.map (Body.mapIndices rename), others.map (Attribute.mapIndices rename)) := by
  induction attributes generalizing body done with
  | nil =>
      cases split
      simp [splitBody]
  | cons first rest inductionHypothesis =>
      cases first with
      | code raw =>
          cases body with
          | some body => cases split
          | none =>
              obtain ⟨decoded, read, later⟩ := bind_eq_ok_iff.mp split
              refine bind_eq_ok_iff.mpr ⟨_, Body.ofAttribute_mapIndices rename read, ?_⟩
              exact inductionHypothesis later
      | _ =>
          refine Eq.trans ?_ (inductionHypothesis split)
          simp only [splitBody, List.map_cons, Attribute.mapMethodIndices, Attribute.mapIndices,
            Attribute.mapOwnIndices]

theorem ofInfo_mapIndices
    {pool : Pool}
    {info : MemberInfo}
    {method : Method}
    (rename : UInt16 → UInt16)
    (resolved : ofInfo pool info = .ok method) :
    ofInfo pool (info.mapAttributes (Attribute.mapMethodIndices rename)) =
      .ok (method.mapIndices rename) := by
  obtain ⟨split, access, named, described⟩ := ofInfo_eq_ok_iff.mp resolved
  exact ofInfo_eq_ok_iff.mpr ⟨splitBody_mapIndices rename split, access, named, described⟩

end Method

/-! ## Classes -/

/-- The class file with other pool indices in its attributes, unless they are looked up. -/
def ClassFile.mapIndices
    (rename : UInt16 → UInt16)
    (file : ClassFile) : ClassFile :=
  { file with
    fields := file.fields.map (MemberInfo.mapAttributes (Attribute.mapIndices rename))
    methods := file.methods.map (MemberInfo.mapAttributes (Attribute.mapMethodIndices rename))
    attributes := file.attributes.map (Attribute.mapIndices rename) }

theorem ClassFile.admits_reader
    (rename : UInt16 → UInt16)
    (depth : Nat) :
    (reader depth).Admits (mapIndices rename) := by
  intro taken file reads
  obtain ⟨old, new, pool, content, rfl, poolRead, short, fields, methods, attributes, rfl,
    fieldsRead, methodsRead, attributesRead⟩ := reads_reader_iff.mp reads
  have admits := Attribute.admits_reader file.pool rename depth
  have membersLocal := MemberInfo.local_reader file.pool depth
  obtain ⟨otherFields, fieldsLength, fieldsAgain⟩ :=
    (MemberInfo.admits_reader admits).table16 membersLocal _ _ fieldsRead
  obtain ⟨otherMethods, methodsLength, methodsAgain⟩ :=
    (MemberInfo.admits_reader
      (Attribute.admits_reader_mapMethodIndices file.pool rename depth)).table16
        membersLocal _ _ methodsRead
  obtain ⟨others, length, attributesAgain⟩ :=
    admits.table16 (Attribute.local_reader file.pool depth) _ _ attributesRead
  refine ⟨_, ?_, reads_reader_iff.mpr ⟨old, new, pool, _, rfl, poolRead, short, otherFields,
    otherMethods, others, rfl, fieldsAgain, methodsAgain, attributesAgain⟩⟩
  simp [mapIndices, fieldsLength, methodsLength, length]

namespace ClassModel

/-- The class with other pool indices, except in what instructions refer to. -/
def mapIndices
    (rename : UInt16 → UInt16)
    (model : ClassModel) : ClassModel :=
  { model with
    fields := model.fields.map (Field.mapIndices rename)
    methods := model.methods.map (Method.mapIndices rename)
    attributes := model.attributes.map (Attribute.mapIndices rename) }

theorem ofClassFile_mapIndices
    {file : ClassFile}
    {model : ClassModel}
    (rename : UInt16 → UInt16)
    (resolved : ofClassFile file = .ok model) :
    ofClassFile (file.mapIndices rename) = .ok (model.mapIndices rename) := by
  have resolves := ofClassFile_eq_ok_iff.mp resolved
  refine ofClassFile_eq_ok_iff.mpr {
    minor := resolves.minor
    major := resolves.major
    access := resolves.access
    pool := resolves.pool
    name := resolves.name
    superName := resolves.superName
    interfaces := resolves.interfaces
    fields := ?_
    methods := ?_
    attributes := congrArg (List.map (Attribute.mapIndices rename)) resolves.attributes }
  · refine List.forall₂_map_left_iff.mpr (List.forall₂_map_right_iff.mpr ?_)
    exact resolves.fields.imp fun info field => Field.ofInfo_mapIndices rename
  · refine List.forall₂_map_left_iff.mpr (List.forall₂_map_right_iff.mpr ?_)
    exact resolves.methods.imp fun info method => Method.ofInfo_mapIndices rename

/-- A class is read whatever numbers stand in its frames and attributes. -/
theorem exists_read_mapIndices
    {bytes : Bytes}
    {model : ClassModel}
    (rename : UInt16 → UInt16)
    (found : read bytes = .ok model) :
    ∃ again, again.length = bytes.length ∧ read again = .ok (model.mapIndices rename) := by
  obtain ⟨small, file, reads, resolves⟩ := read_eq_ok_iff.mp found
  obtain ⟨again, length, readAgain⟩ := ClassFile.admits_reader rename _ _ _ reads
  rw [← length] at small readAgain
  have resolvesAgain :=
    ofClassFile_eq_ok_iff.mp (ofClassFile_mapIndices rename (ofClassFile_eq_ok_iff.mpr resolves))
  exact ⟨again, length, read_eq_ok_iff.mpr ⟨small, _, readAgain, resolvesAgain⟩⟩

/-- The bodies of a class. -/
def bodies (model : ClassModel) : List Body :=
  model.methods.filterMap Method.body

/-- The instructions of a class. -/
def insns (model : ClassModel) : List Insn :=
  model.bodies.flatMap fun body => Node.insns body.nodes

/-- The pool indices that a class keeps in frames and attributes, at every depth. -/
def tableIndices (model : ClassModel) : List UInt16 :=
  model.fields.flatMap (fun field => field.attributes.flatMap Attribute.indices)
    ++ model.methods.flatMap (fun method => method.attributes.flatMap Attribute.indices)
    ++ model.bodies.flatMap Body.tableIndices
    ++ model.attributes.flatMap Attribute.indices

/-- All pool indices that a class keeps. -/
def indices (model : ClassModel) : List UInt16 :=
  model.insns.filterMap Insn.index? ++ model.tableIndices

theorem bodies_mapIndices
    (rename : UInt16 → UInt16)
    (model : ClassModel) :
    (model.mapIndices rename).bodies = model.bodies.map (Body.mapIndices rename) := by
  simp [bodies, mapIndices, List.filterMap_map, List.map_filterMap, Function.comp_def,
    Method.mapIndices]

/-- Instructions keep their numbers. -/
theorem insns_mapIndices
    (rename : UInt16 → UInt16)
    (model : ClassModel) :
    (model.mapIndices rename).insns = model.insns := by
  rw [insns, bodies_mapIndices, List.flatMap_map]
  rfl

/-- The numbers in frames and attributes are replaced where they stand. -/
theorem tableIndices_mapIndices
    {rename : UInt16 → UInt16}
    (zero : KeepsZero rename)
    (model : ClassModel) :
    (model.mapIndices rename).tableIndices = model.tableIndices.map rename := by
  rw [tableIndices, bodies_mapIndices]
  simp [tableIndices, mapIndices, Field.mapIndices, Method.mapIndices, List.flatMap_map,
    List.map_flatMap, Attribute.indices_mapIndices zero, Body.tableIndices_mapIndices zero]

/-- An instruction of a class that was read finds an entry that it takes. -/
theorem exists_entry_of_read
    {bytes : Bytes}
    {model : ClassModel}
    {insn : Insn}
    {index : UInt16}
    (found : read bytes = .ok model)
    (member : insn ∈ model.insns)
    (refers : insn.index? = some index) :
    ∃ entry, model.pool.entry index = .ok entry ∧ insn.accepts entry = true := by
  obtain ⟨body, bodyMember, inBody⟩ := List.mem_flatMap.mp member
  obtain ⟨method, methodMember, held⟩ := List.mem_filterMap.mp bodyMember
  obtain ⟨_, steps, last, regular⟩ :=
    ((regular_of_read found).methods method methodMember).body body held
  rw [regular.nodes, Node.insns_ofSteps] at inBody
  obtain ⟨step, listed, rfl⟩ := List.mem_map.mp inBody
  exact Insn.exists_entry_of_checkOperand (regular.insns step listed).2.2.1 refers

/--
In a class that was read every instruction with an index finds an entry that it takes.
So the class has a dangling index exactly if a frame or an attribute has one, and any
number can stand there: with other numbers the class is read just as well.
-/
theorem references_of_read
    {bytes : Bytes}
    {model : ClassModel}
    (found : read bytes = .ok model) :
    (∀ insn ∈ model.insns, ∀ index, insn.index? = some index →
        ∃ entry, model.pool.entry index = .ok entry ∧ insn.accepts entry = true) ∧
      ((∀ index ∈ model.indices, model.pool.HasEntry index) ↔
        ∀ index ∈ model.tableIndices, model.pool.HasEntry index) ∧
      ∀ rename, KeepsZero rename →
        ∃ again other,
          again.length = bytes.length ∧ read again = .ok other ∧ other.pool = model.pool ∧
            other.insns = model.insns ∧ other.tableIndices = model.tableIndices.map rename := by
  have operands :
      ∀ insn ∈ model.insns, ∀ index, insn.index? = some index →
        ∃ entry, model.pool.entry index = .ok entry ∧ insn.accepts entry = true :=
    fun _ member _ refers => exists_entry_of_read found member refers
  refine ⟨operands, ?_, fun rename zero => ?_⟩
  · rw [indices, List.forall_mem_append]
    refine and_iff_right fun index member => ?_
    obtain ⟨insn, insnMember, refers⟩ := List.mem_filterMap.mp member
    exact (operands insn insnMember index refers).imp fun _ => And.left
  · obtain ⟨again, length, readAgain⟩ := exists_read_mapIndices rename found
    exact ⟨again, _, length, readAgain, rfl, insns_mapIndices rename model,
      tableIndices_mapIndices zero model⟩

/-- A class with a method that creates an object; its source file is entry 99 of a pool of nine. -/
def sourceless : Bytes :=
  [
    0xCA, 0xFE, 0xBA, 0xBE, 0x00, 0x00, 0x00, 0x34, 0x00, 0x09, 0x01, 0x00, 0x01, 0x41, 0x07, 0x00,
    0x01, 0x01, 0x00, 0x10, 0x6A, 0x61, 0x76, 0x61, 0x2F, 0x6C, 0x61, 0x6E, 0x67, 0x2F, 0x4F, 0x62,
    0x6A, 0x65, 0x63, 0x74, 0x07, 0x00, 0x03, 0x01, 0x00, 0x04, 0x43, 0x6F, 0x64, 0x65, 0x01, 0x00,
    0x01, 0x6D, 0x01, 0x00, 0x03, 0x28, 0x29, 0x56, 0x01, 0x00, 0x0A, 0x53, 0x6F, 0x75, 0x72, 0x63,
    0x65, 0x46, 0x69, 0x6C, 0x65, 0x00, 0x21, 0x00, 0x02, 0x00, 0x04, 0x00, 0x00, 0x00, 0x00, 0x00,
    0x01, 0x00, 0x09, 0x00, 0x06, 0x00, 0x07, 0x00, 0x01, 0x00, 0x05, 0x00, 0x00, 0x00, 0x11, 0x00,
    0x01, 0x00, 0x00, 0x00, 0x00, 0x00, 0x05, 0xBB, 0x00, 0x02, 0x57, 0xB1, 0x00, 0x00, 0x00, 0x00,
    0x00, 0x01, 0x00, 0x08, 0x00, 0x00, 0x00, 0x02, 0x00, 0x63 ]

/-- The instruction refers to the class; that of the source file is left over. -/
theorem references_of_sourceless :
    ∃ model,
      read sourceless = .ok model ∧ model.insns = [.classRef 0xBB 2, .plain 0x57, .plain 0xB1] ∧
        model.indices = [2, 99] ∧
          (∃ entry, model.pool.entry 2 = .ok entry ∧ entry.isClass = true) ∧
            ((∀ index ∈ model.indices, model.pool.HasEntry index) ↔ model.pool.HasEntry 99) ∧
              ∃ again other,
                again.length = sourceless.length ∧ read again = .ok other ∧
                  other.pool = model.pool ∧ other.tableIndices = [1] := by
  have outcome :
      (read sourceless).toOption.map (fun model => (model.insns, model.tableIndices)) =
        some ([.classRef 0xBB 2, .plain 0x57, .plain 0xB1], [99]) := by
    decide +kernel
  simp only [Option.map_eq_some_iff, toOption_eq_some_iff, Prod.mk.injEq] at outcome
  obtain ⟨model, found, insns, tables⟩ := outcome
  obtain ⟨operands, dangling, free⟩ := references_of_read found
  obtain ⟨again, other, length, readAgain, pool, _, renamed⟩ :=
    free (fun index => if index = 0 then 0 else 1) (by intro index; by_cases index = 0 <;> simp [*])
  refine ⟨model, found, insns, ?_, ?_, ?_, again, other, length, readAgain, pool, ?_⟩
  · rw [indices, insns, tables]
    rfl
  · exact operands (.classRef 0xBB 2) (by simp [insns]) 2 rfl
  · rw [dangling, tables]
    exact List.forall_mem_singleton
  · rw [renamed, tables]
    rfl

/-- A class was read, and its source file is no entry of the pool. -/
theorem exists_dangling_of_read :
    ∃ model, read sourceless = .ok model ∧ 99 ∈ model.indices ∧ ¬ model.pool.HasEntry 99 := by
  have outcome :
      (read sourceless).toOption.map (fun model =>
          (decide (99 ∈ model.indices), decide (model.pool.HasEntry 99))) =
        some (true, false) := by
    decide +kernel
  simp only [Option.map_eq_some_iff, toOption_eq_some_iff, Prod.mk.injEq, decide_eq_true_eq,
    decide_eq_false_iff_not] at outcome
  exact outcome

end ClassModel
end JvmClass
