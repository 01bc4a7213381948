import JvmClass.Proofs.Attribute.Codec
import JvmClass.Proofs.Frame.Declared

namespace JvmClass

/-!
# Pool indices of attributes

An attribute refers to the pool by number.  Which numbers these are is told here, and
what becomes of an attribute when they are replaced by others.

Taking an attribute apart never follows a number, so a row of attributes can be read
with any other numbers in it.
-/

/-- The indices that name something: where nothing is named there is a zero. -/
def givenIndices (indices : List UInt16) : List UInt16 :=
  indices.filter (· ≠ 0)

/-- Indices are replaced by others, and what names nothing goes on naming nothing. -/
def KeepsZero (rename : UInt16 → UInt16) : Prop :=
  ∀ index, rename index = 0 ↔ index = 0

theorem givenIndices_map
    {rename : UInt16 → UInt16}
    (zero : KeepsZero rename)
    (indices : List UInt16) :
    givenIndices (indices.map rename) = (givenIndices indices).map rename := by
  rw [givenIndices, List.filter_map, givenIndices]
  refine congrArg (List.map rename) (List.filter_congr fun index _ => ?_)
  simp [zero index]

/-- The row with another class. -/
def HandlerEntry.mapIndices (rename : UInt16 → UInt16) (row : HandlerEntry) : HandlerEntry :=
  ⟨row.start, row.stop, row.handler, rename row.catchType⟩

namespace StackMap

/-- The pool index of a type: that of its class. -/
def TypeInfo.index? : TypeInfo → Option UInt16
  | .object index => some index
  | _ => none

/-- The type with another pool index. -/
def TypeInfo.mapIndices (rename : UInt16 → UInt16) : TypeInfo → TypeInfo
  | .object index => .object (rename index)
  | other => other

theorem TypeInfo.length_encode_mapIndices
    (rename : UInt16 → UInt16)
    (info : TypeInfo) :
    (info.mapIndices rename).encode.length = info.encode.length := by
  cases info <;> rfl

namespace Frame

/-- The pool indices of a frame. -/
def indices (frame : Frame) : List UInt16 :=
  frame.types.filterMap TypeInfo.index?

/-- The frame with other pool indices. -/
def mapIndices (rename : UInt16 → UInt16) : Frame → Frame
  | .same delta => .same delta
  | .sameExtended delta => .sameExtended delta
  | .oneStack delta value => .oneStack delta (value.mapIndices rename)
  | .oneStackExtended delta value => .oneStackExtended delta (value.mapIndices rename)
  | .chop delta count => .chop delta count
  | .append delta locals => .append delta (locals.map (TypeInfo.mapIndices rename))
  | .full delta locals stack =>
      .full delta (locals.map (TypeInfo.mapIndices rename))
        (stack.map (TypeInfo.mapIndices rename))

@[simp] theorem delta_mapIndices
    (rename : UInt16 → UInt16)
    (frame : Frame) :
    (frame.mapIndices rename).delta = frame.delta := by
  cases frame <;> rfl

theorem indices_mapIndices
    (rename : UInt16 → UInt16)
    (frame : Frame) :
    (frame.mapIndices rename).indices = frame.indices.map rename := by
  have each (info : TypeInfo) :
      (info.mapIndices rename).index? = info.index?.map rename := by
    cases info <;> rfl
  have types : (frame.mapIndices rename).types = frame.types.map (TypeInfo.mapIndices rename) := by
    cases frame <;> simp [mapIndices, types]
  rw [indices, types, indices, List.filterMap_map, List.map_filterMap]
  exact List.filterMap_congr fun info _ => each info

theorem encodable_mapIndices
    {rename : UInt16 → UInt16}
    {frame : Frame}
    (fits : frame.Encodable) :
    (frame.mapIndices rename).Encodable := by
  cases frame with
  | append | full => simpa [mapIndices, Encodable] using fits
  | _ => exact fits

end Frame
end StackMap

/-! ## Lengths -/

/-- Rows that are replaced by rows of their own length make a table of the same length. -/
theorem Bytes.length_table16_map
    {α : Type}
    {encode : α → Bytes}
    {change : α → α}
    (each : ∀ row, (encode (change row)).length = (encode row).length)
    (rows : List α) :
    (Bytes.table16 encode (rows.map change)).length = (Bytes.table16 encode rows).length := by
  simp [Bytes.table16, Bytes.count16, List.flatMap_map, List.length_flatMap, each]

theorem StackMap.Frame.length_encode_mapIndices
    (rename : UInt16 → UInt16)
    (frame : Frame) :
    (frame.mapIndices rename).encode.length = frame.encode.length := by
  have each := TypeInfo.length_encode_mapIndices rename
  have tables := Bytes.length_table16_map each
  cases frame with
  | append delta locals =>
      simp [mapIndices, encode, List.flatMap_map, List.length_flatMap, each]
  | full delta locals stack => simp [mapIndices, encode, tables]
  | _ => simp [mapIndices, encode, each]

namespace Attribute

/-! ## Indices of one attribute -/

/-- The pool indices of an attribute, apart from those of the attributes that it holds. -/
def ownIndices : Attribute → List UInt16
  | .code body => givenIndices (body.handlers.map HandlerEntry.catchType)
  | .constantValue index | .sourceFile index | .signature index => [index]
  | .exceptions indices => indices
  | .localVariableTable entries => entries.flatMap fun entry => [entry.name, entry.descriptor]
  | .stackMapTable frames => frames.flatMap StackMap.Frame.indices
  | .innerClasses classes =>
      classes.flatMap fun row => givenIndices [row.inner, row.outer, row.name]
  | .enclosingMethod owner method => givenIndices [owner, method]
  | .bootstrapMethods methods => methods.flatMap fun row => row.method :: row.arguments
  | .methodParameters parameters => givenIndices (parameters.map MethodParameter.name)
  | .lineNumberTable _ | .deprecated | .synthetic | .unknown _ _ => []

/-- The attribute with other pool indices, apart from those in the attributes that it holds. -/
def mapOwnIndices (rename : UInt16 → UInt16) : Attribute → Attribute
  | .code body => .code { body with handlers := body.handlers.map (HandlerEntry.mapIndices rename) }
  | .constantValue index => .constantValue (rename index)
  | .exceptions indices => .exceptions (indices.map rename)
  | .sourceFile index => .sourceFile (rename index)
  | .signature index => .signature (rename index)
  | .localVariableTable entries =>
      .localVariableTable (entries.map fun row =>
        ⟨row.start, row.length, rename row.name, rename row.descriptor, row.index⟩)
  | .stackMapTable frames => .stackMapTable (frames.map (StackMap.Frame.mapIndices rename))
  | .innerClasses classes =>
      .innerClasses (classes.map fun row =>
        ⟨rename row.inner, rename row.outer, rename row.name, row.access⟩)
  | .enclosingMethod owner method => .enclosingMethod (rename owner) (rename method)
  | .bootstrapMethods methods =>
      .bootstrapMethods (methods.map fun row => ⟨rename row.method, row.arguments.map rename⟩)
  | .methodParameters parameters =>
      .methodParameters (parameters.map fun row => ⟨rename row.name, row.access⟩)
  | .lineNumberTable entries => .lineNumberTable entries
  | .deprecated => .deprecated
  | .synthetic => .synthetic
  | .unknown name content => .unknown name content

/-- The own indices are replaced where they stand. -/
theorem ownIndices_mapOwnIndices
    {rename : UInt16 → UInt16}
    (zero : KeepsZero rename)
    (item : Attribute) :
    (item.mapOwnIndices rename).ownIndices = item.ownIndices.map rename := by
  have given := givenIndices_map zero
  cases item with
  | code body =>
      simp [mapOwnIndices, ownIndices, ← given, HandlerEntry.mapIndices, Function.comp_def]
  | innerClasses classes =>
      simp [mapOwnIndices, ownIndices, List.flatMap_map, List.map_flatMap, ← given]
  | stackMapTable frames =>
      simp [mapOwnIndices, ownIndices, List.flatMap_map, List.map_flatMap,
        StackMap.Frame.indices_mapIndices]
  | localVariableTable | bootstrapMethods =>
      simp [mapOwnIndices, ownIndices, List.flatMap_map, List.map_flatMap]
  | enclosingMethod | methodParameters =>
      simp [mapOwnIndices, ownIndices, ← given, Function.comp_def]
  | _ => simp [mapOwnIndices, ownIndices]

mutual

/-- The pool indices of an attribute, at every depth. -/
def indices : Attribute → List UInt16
  | .code ⟨maxStack, maxLocals, bytes, handlers, attributes⟩ =>
      ownIndices (.code ⟨maxStack, maxLocals, bytes, handlers, attributes⟩)
        ++ indicesAll attributes
  | other => other.ownIndices

/-- The pool indices of several attributes. -/
def indicesAll : List Attribute → List UInt16
  | [] => []
  | first :: rest => indices first ++ indicesAll rest

end

mutual

/-- The attribute with other pool indices, at every depth. -/
def mapIndices (rename : UInt16 → UInt16) : Attribute → Attribute
  | .code ⟨maxStack, maxLocals, bytes, handlers, attributes⟩ =>
      .code ⟨maxStack, maxLocals, bytes, handlers.map (HandlerEntry.mapIndices rename),
        mapIndicesAll rename attributes⟩
  | other => other.mapOwnIndices rename

/-- Several attributes with other pool indices. -/
def mapIndicesAll (rename : UInt16 → UInt16) : List Attribute → List Attribute
  | [] => []
  | first :: rest => mapIndices rename first :: mapIndicesAll rename rest

end

theorem mapIndicesAll_eq
    (rename : UInt16 → UInt16)
    (attributes : List Attribute) :
    mapIndicesAll rename attributes = attributes.map (mapIndices rename) := by
  induction attributes with
  | nil => simp [mapIndicesAll]
  | cons first rest inductionHypothesis => simp [mapIndicesAll, inductionHypothesis]

mutual

/-- The indices at every depth are replaced where they stand. -/
theorem indices_mapIndices
    {rename : UInt16 → UInt16}
    (zero : KeepsZero rename) :
    ∀ item : Attribute, (item.mapIndices rename).indices = item.indices.map rename
  | .code ⟨maxStack, maxLocals, bytes, handlers, attributes⟩ => by
      have own :=
        ownIndices_mapOwnIndices zero (.code ⟨maxStack, maxLocals, bytes, handlers, attributes⟩)
      rw [mapIndices, indices, indices, List.map_append, ← indicesAll_mapIndicesAll zero attributes,
        ← own]
      rfl
  | .constantValue _ | .exceptions _ | .sourceFile _ | .lineNumberTable _
  | .localVariableTable _ | .signature _ | .stackMapTable _ | .deprecated | .synthetic
  | .innerClasses _ | .enclosingMethod _ _ | .bootstrapMethods _ | .methodParameters _
  | .unknown _ _ => by
      simp only [mapIndices, indices, ← ownIndices_mapOwnIndices zero, mapOwnIndices]

theorem indicesAll_mapIndicesAll
    {rename : UInt16 → UInt16}
    (zero : KeepsZero rename) :
    ∀ attributes : List Attribute,
      indicesAll (mapIndicesAll rename attributes) = (indicesAll attributes).map rename
  | [] => by simp [mapIndicesAll, indicesAll]
  | first :: rest => by
      rw [mapIndicesAll, indicesAll, indicesAll, List.map_append, indices_mapIndices zero first,
        indicesAll_mapIndicesAll zero rest]

end

/-- What holds no other attribute has its own indices only. -/
theorem mapIndices_of_leaf
    {rename : UInt16 → UInt16}
    {item : Attribute}
    (leaf : item.Leaf) :
    item.mapIndices rename = item.mapOwnIndices rename := by
  cases item with
  | code body => exact leaf.elim
  | _ => simp [mapIndices]

@[simp] theorem name_mapOwnIndices
    (rename : UInt16 → UInt16)
    (item : Attribute) :
    (item.mapOwnIndices rename).name = item.name := by
  cases item <;> rfl

theorem leaf_mapOwnIndices
    {rename : UInt16 → UInt16}
    {item : Attribute}
    (leaf : item.Leaf) :
    (item.mapOwnIndices rename).Leaf := by
  cases item with
  | stackMapTable frames =>
      refine ⟨by simpa using leaf.1, fun frame member => ?_⟩
      obtain ⟨before, listed, rfl⟩ := List.mem_map.mp member
      exact StackMap.Frame.encodable_mapIndices (leaf.2 before listed)
  | bootstrapMethods methods =>
      refine ⟨by simpa using leaf.1, fun entry member => ?_⟩
      obtain ⟨before, listed, rfl⟩ := List.mem_map.mp member
      simpa using leaf.2 before listed
  | exceptions | localVariableTable | innerClasses | methodParameters =>
      simpa [mapOwnIndices, Leaf] using leaf
  | _ => exact leaf

/-- The head of a body with other classes in its handlers. -/
theorem length_codeHead_mapIndices
    (rename : UInt16 → UInt16)
    (body : CodeAttribute Attribute) :
    (codeHead { body with handlers := body.handlers.map (HandlerEntry.mapIndices rename) }).length =
      (codeHead body).length := by
  have each (row : HandlerEntry) : (row.mapIndices rename).encode.length = row.encode.length := by
    simp [HandlerEntry.encode]
  simp [codeHead, Bytes.length_table16_map each]

/-- Other numbers take as many bytes. -/
theorem length_flatContent_mapOwnIndices
    (rename : UInt16 → UInt16)
    (item : Attribute) :
    (item.mapOwnIndices rename).flatContent.length = item.flatContent.length := by
  cases item with
  | code body => exact length_codeHead_mapIndices rename body
  | exceptions indices =>
      exact Bytes.length_table16_map (fun _ => by simp) indices
  | localVariableTable entries =>
      exact Bytes.length_table16_map (fun _ => by simp [LocalEntry.encode]) entries
  | stackMapTable frames =>
      exact Bytes.length_table16_map (StackMap.Frame.length_encode_mapIndices rename) frames
  | innerClasses classes =>
      exact Bytes.length_table16_map (fun _ => by simp [InnerClass.encode]) classes
  | bootstrapMethods methods =>
      refine Bytes.length_table16_map (fun row => ?_) methods
      have each (index : UInt16) :
          (Bytes.ofUInt16 (rename index)).length = (Bytes.ofUInt16 index).length := by simp
      simp [BootstrapMethod.encode, Bytes.length_table16_map each]
  | methodParameters parameters =>
      simp [mapOwnIndices, flatContent, List.flatMap_map, List.length_flatMap,
        MethodParameter.encode]
  | _ => simp [mapOwnIndices, flatContent]

end Attribute

/-! ## Reading other numbers -/

namespace Reader

/-- The values that a reader gives can be read in a changed form, from as many bytes. -/
def Admits {α : Type} (reader : Reader α) (change : α → α) : Prop :=
  ∀ taken value, reader.Reads taken value →
    ∃ again, again.length = taken.length ∧ reader.Reads again (change value)

theorem Admits.table16
    {α : Type}
    {item : Reader α}
    {change : α → α}
    (admits : item.Admits change)
    (itemLocal : item.Local) :
    (Reader.table16 item).Admits (List.map change) := by
  intro taken values reads
  obtain ⟨pieces, rows, short, rfl⟩ := (reads_table16_iff itemLocal).mp reads
  have changed :
      ∃ others,
        others.flatten.length = pieces.flatten.length ∧
          List.Forall₂ item.Reads others (values.map change) := by
    clear reads short
    induction rows with
    | nil => exact ⟨[], rfl, .nil⟩
    | cons first _ inductionHypothesis =>
        obtain ⟨others, length, later⟩ := inductionHypothesis
        obtain ⟨again, same, readAgain⟩ := admits _ _ first
        refine ⟨again :: others, ?_, .cons readAgain later⟩
        rw [List.flatten_cons, List.flatten_cons, List.length_append, List.length_append, same,
          length]
  obtain ⟨others, length, later⟩ := changed
  refine ⟨Bytes.count16 (values.map change) ++ others.flatten, ?_,
    (reads_table16_iff itemLocal).mpr ⟨others, later, by simpa using short, rfl⟩⟩
  simp [Bytes.count16, length]

end Reader

namespace Attribute

/-- A body is read with other handlers of the same number and with whatever its attributes admit. -/
theorem exists_reads_code
    {pool : Pool}
    {depth : Nat}
    {taken : Bytes}
    {body : CodeAttribute Attribute}
    {change : Attribute → Attribute}
    {nameIndex : UInt16}
    {handlers : List HandlerEntry}
    (admits : (reader pool depth).Admits change)
    (named : pool.text nameIndex = .ok "Code")
    (small : taken.length < 2 ^ 32)
    (reads : (codeReader (tableReader pool depth)).Reads taken body)
    (sameLength : (codeHead { body with handlers }).length = (codeHead body).length)
    (count : handlers.length = body.handlers.length) :
    ∃ again,
      again.length = (frame nameIndex taken).length ∧
        (reader pool (depth + 1)).Reads again
          (.code { body with handlers, attributes := body.attributes.map change }) := by
  obtain ⟨head, behind, rfl, nestedReads⟩ :=
    (reads_codeReader_iff (local_tableReader pool depth)).mp reads
  obtain ⟨again, length, readAgain⟩ :=
    admits.table16 (local_reader pool depth) _ _ nestedReads
  have lengths :
      (codeHead { body with handlers } ++ again).length = (codeHead body ++ behind).length := by
    rw [List.length_append, List.length_append, sameLength, length]
  refine ⟨frame nameIndex (codeHead { body with handlers } ++ again), ?_, ?_⟩
  · simp only [frame, Bytes.count32, List.length_append, Bytes.length_ofUInt32] at lengths ⊢
    omega
  · have fits : HeadFits { body with handlers, attributes := body.attributes.map change } :=
      ⟨head.nonempty, head.short, count ▸ head.handlers⟩
    exact reads_of_body named fits (lengths ▸ small) readAgain

/-- An attribute is read whatever numbers stand in it. -/
theorem admits_reader
    (pool : Pool)
    (rename : UInt16 → UInt16)
    (depth : Nat) :
    (reader pool depth).Admits (mapIndices rename) := by
  induction depth with
  | zero => exact fun _ _ reads => absurd reads Reader.not_reads_fail
  | succ depth inductionHypothesis =>
      intro taken item reads
      obtain ⟨nameIndex, name, content, rfl, small, named, read⟩ := reads_reader_iff.mp reads
      obtain ⟨rfl, ⟨leaf, rfl⟩ | ⟨body, rfl, bodyReads⟩⟩ :=
        leaf_of_ofContent (local_tableReader pool depth) read
      · have length := length_flatContent_mapOwnIndices rename item
        rw [mapIndices_of_leaf leaf]
        refine ⟨frame nameIndex (item.mapOwnIndices rename).flatContent, ?_, ?_⟩
        · simp [frame, Bytes.count32, length]
        · refine reads_of_leaf ?_ (leaf_mapOwnIndices leaf) (by rwa [length])
          rwa [name_mapOwnIndices]
      · have admitted :=
          exists_reads_code inductionHypothesis named small bodyReads
            (length_codeHead_mapIndices rename body) (List.length_map _)
        obtain ⟨maxStack, maxLocals, code, handlers, attributes⟩ := body
        rwa [mapIndices, mapIndicesAll_eq]

/-! ## Indices of a method

Handlers and local variables of the body of a method are looked up.  Their numbers
stay; those of any other attribute are free.
-/

/-- An attribute of the body of a method with other pool indices, unless they are looked up. -/
def mapBodyIndices (rename : UInt16 → UInt16) : Attribute → Attribute
  | .localVariableTable entries => .localVariableTable entries
  | other => other.mapIndices rename

/-- An attribute of a method with other pool indices, unless they are looked up. -/
def mapMethodIndices (rename : UInt16 → UInt16) : Attribute → Attribute
  | .code body => .code { body with attributes := body.attributes.map (mapBodyIndices rename) }
  | other => other.mapIndices rename

theorem admits_reader_mapBodyIndices
    (pool : Pool)
    (rename : UInt16 → UInt16)
    (depth : Nat) :
    (reader pool depth).Admits (mapBodyIndices rename) := by
  intro taken item reads
  cases item with
  | localVariableTable entries => exact ⟨taken, rfl, reads⟩
  | _ => exact admits_reader pool rename depth taken _ reads

theorem admits_reader_mapMethodIndices
    (pool : Pool)
    (rename : UInt16 → UInt16)
    (depth : Nat) :
    (reader pool depth).Admits (mapMethodIndices rename) := by
  intro taken item reads
  cases item with
  | code body =>
      cases depth with
      | zero => exact absurd reads Reader.not_reads_fail
      | succ depth =>
          obtain ⟨nameIndex, name, content, rfl, small, named, read⟩ := reads_reader_iff.mp reads
          obtain ⟨rfl, ⟨leaf, rfl⟩ | ⟨_, same, bodyReads⟩⟩ :=
            leaf_of_ofContent (local_tableReader pool depth) read
          · exact leaf.elim
          · cases same
            exact exists_reads_code (admits_reader_mapBodyIndices pool rename depth) named small
              bodyReads rfl rfl
  | _ => exact admits_reader pool rename depth taken _ reads

end Attribute
end JvmClass
