import JvmClass.Proofs.Body.Decode
import JvmClass.Proofs.LabelSources

namespace JvmClass

/-!
# Labels of decoded bodies

Decoding places labels where something refers to an offset, numbered from zero
in the order in which they stand.  What has to name an instruction has one
behind its label, and the first number that is left over starts the source from
which further labels are drawn.
-/

namespace Node

/-- A label stands in front of an instruction, with nothing but its lines between them. -/
def Leads (nodes : List Node) (label : Label) : Prop :=
  ∃ front lines insn back,
    nodes = front ++ .label label :: (List.map (Node.line · label) lines ++ .insn insn :: back)

/-- A label stands behind another one with an instruction between them. -/
def Spans (nodes : List Node) (start stop : Label) : Prop :=
  ∃ front between back,
    nodes = front ++ .label start :: (between ++ .label stop :: back) ∧ insns between ≠ []

theorem leads_of_mem_steps
    {steps : List (Spot × Insn)}
    {last : Option Label}
    {label : Label}
    (member : label ∈ steps.filterMap (·.1.label)) :
    Leads (ofSteps steps last) label := by
  obtain ⟨⟨⟨mark, lines⟩, insn⟩, listed, same⟩ := List.mem_filterMap.mp member
  obtain rfl : mark = some label := same
  obtain ⟨before, after, rfl⟩ := List.append_of_mem listed
  refine ⟨before.flatMap (fun step => step.1.nodes ++ [.insn step.2]), lines, insn,
    ofSteps after last, ?_⟩
  simp [ofSteps, Spot.nodes]

/-- With ascending labels, a label that leads an instruction spans up to every larger one. -/
theorem Leads.spans
    {nodes : List Node}
    {start stop : Label}
    (leads : Leads nodes start)
    (ascending : (labels nodes).Pairwise (· < ·))
    (ordered : start < stop)
    (placed : stop ∈ labels nodes) :
    Spans nodes start stop := by
  obtain ⟨front, lines, insn, back, rfl⟩ := leads
  have noLabels : labels (List.map (Node.line · start) lines) = [] := by
    simp [labels, List.filterMap_map]
  have shape :
      labels (front ++ .label start :: (List.map (Node.line · start) lines ++ .insn insn :: back)) =
        labels front ++ start :: labels back := by
    rw [labels_append]
    refine congrArg (labels front ++ start :: ·) ?_
    exact (labels_append _ _).trans (by rw [noLabels]; rfl)
  rw [shape] at ascending placed
  have behind : stop ∈ labels back := by
    rcases List.mem_append.mp placed with inFront | inBack
    · have below := (List.pairwise_append.mp ascending).2.2 stop inFront start (by simp)
      exact absurd ordered (Nat.lt_asymm below)
    · rcases List.mem_cons.mp inBack with same | inBack
      · exact absurd ordered (by simp [same])
      · exact inBack
  obtain ⟨node, listed, isLabel⟩ := List.mem_filterMap.mp behind
  obtain rfl : node = .label stop := by
    cases node with
    | label other => exact congrArg _ (Option.some.inj isLabel)
    | insn _ | line _ _ => cases isLabel
  obtain ⟨between, rest, rfl⟩ := List.append_of_mem listed
  refine ⟨front, List.map (Node.line · start) lines ++ .insn insn :: between, rest, by simp, ?_⟩
  rw [insns_append]
  exact List.append_ne_nil_of_right_ne_nil _ (by simp [insns])

end Node

namespace Body

/-- The labels of a body that have to stand in front of an instruction. -/
def leadingLabels (body : Body) : List Label :=
  (Node.insns body.nodes).flatMap Insn.targets
    ++ body.handlers.flatMap (fun handler => [handler.start, handler.handler])
    ++ (LaidOut.lineMarks body.nodes).map Prod.snd
    ++ body.frames.map PlacedFrame.label

/-- Labels are numbered as they stand, and stand where the body needs them. -/
structure WellPlaced (body : Body) : Prop where
  numbered : Node.labels body.nodes = List.range body.nextLabel
  placed : ∀ label ∈ body.referredLabels, label ∈ Node.labels body.nodes
  leading : ∀ label ∈ body.leadingLabels, Node.Leads body.nodes label
  ranges : ∀ handler ∈ body.handlers, Node.Spans body.nodes handler.start handler.stop

/-- Labels that are numbered from zero leave their count free. -/
theorem nextLabel_of_labels
    {body : Body}
    {count : Nat}
    (numbered : Node.labels body.nodes = List.range count) :
    body.nextLabel = count := by
  suffices counted :
      (List.range count).foldl (fun next label => max next (label + 1)) 0 = count by
    rw [nextLabel, numbered, counted]
  clear numbered
  induction count with
  | zero => rfl
  | succ count inductionHypothesis =>
      rw [List.range_succ, List.foldl_append, inductionHypothesis]
      exact Nat.max_eq_right (Nat.le_succ count)

namespace DecodesTo

variable
  {pool : Pool} {raw : CodeAttribute Attribute} {body : Body} {decoded : Decoded} {tables : Tables}

theorem numbered
    (decodes : DecodesTo pool raw body decoded tables) :
    Node.labels body.nodes = List.range body.nextLabel := by
  have decodedFrom := Decoded.decodedFrom_of_ofCode decodes.code
  have counted := decodes.labels_eq.trans (filterMap_label?_offsets decodedFrom decodes.boundaries)
  rw [nextLabel_of_labels counted, counted]

/-- A label of an offset inside the body leads the instruction at the offset. -/
theorem leads
    (decodes : DecodesTo pool raw body decoded tables)
    {offset : Nat}
    (member : offset ∈ references decoded raw.handlers tables)
    (inside : offset < decoded.size) :
    Node.Leads body.nodes ((labelingOf decoded raw.handlers tables).labelAt offset) := by
  rw [decodes.nodes_eq]
  exact Node.leads_of_mem_steps (decodes.mem_stepLabels member inside)

/-- A handler is made of a checked row: a range with an instruction, and a place in the body. -/
theorem exists_row_of_handler
    (decodes : DecodesTo pool raw body decoded tables)
    {handler : Handler}
    (member : handler ∈ body.handlers) :
    handler.start < handler.stop ∧ Node.Leads body.nodes handler.start ∧
      Node.Leads body.nodes handler.handler := by
  have decodedFrom := Decoded.decodedFrom_of_ofCode decodes.code
  obtain ⟨entry, listed, row⟩ := exists_of_forall₂ decodes.handlersOf member
  obtain ⟨_, stopBoundary, _, ordered, inside⟩ :=
    Decoded.checkHandler_eq_ok_iff.mp (decodes.handlers entry listed)
  obtain ⟨_, start, stop, target⟩ := handlerOf_eq_ok_iff.mp row
  have ordered : entry.start.toNat < entry.stop.toNat := UInt16.lt_iff_toNat_lt.mp ordered
  have bounded := decodedFrom.bounded _ ((decodedFrom.boundary _).mp stopBoundary)
  rw [start, stop, target]
  refine ⟨?_, ?_, ?_⟩
  · exact (labelAt_lt_iff decodedFrom decodes.boundaries (mem_handlers listed (by simp))
      (mem_handlers listed (by simp))).mpr ordered
  · exact decodes.leads (mem_handlers listed (by simp)) (Nat.lt_of_lt_of_le ordered bounded)
  · exact decodes.leads (mem_handlers listed (by simp)) inside

theorem leads_of_target
    (decodes : DecodesTo pool raw body decoded tables)
    {label : Label}
    (member : label ∈ (Node.insns body.nodes).flatMap Insn.targets) :
    Node.Leads body.nodes label := by
  obtain ⟨insn, listed, targeted⟩ := List.mem_flatMap.mp member
  rw [decodes.nodes_eq, Node.insns_ofSteps] at listed
  obtain ⟨step, stepListed, rfl⟩ := List.mem_map.mp listed
  rw [decodes.nodes_eq]
  exact Node.leads_of_mem_steps ((decodes.regular_insns step stepListed).2.2.2 label targeted)

theorem leads_of_line
    (decodes : DecodesTo pool raw body decoded tables)
    {label : Label}
    (member : label ∈ (LaidOut.lineMarks body.nodes).map Prod.snd) :
    Node.Leads body.nodes label := by
  obtain ⟨⟨number, _⟩, listed, rfl⟩ := List.mem_map.mp member
  obtain ⟨entry, row, same⟩ := (decodes.mem_lineMarks_iff _).mp ⟨number, listed⟩
  obtain ⟨_, inside⟩ := (Tables.reflects_of_ofAttributes decodes.tablesRead).lines entry row
  rw [← same]
  refine decodes.leads ?_ inside
  simp only [references, List.mem_append, List.mem_map]
  exact .inl (.inl (.inr ⟨entry, row, rfl⟩))

theorem leads_of_frame
    (decodes : DecodesTo pool raw body decoded tables)
    {label : Label}
    (member : label ∈ body.frames.map PlacedFrame.label) :
    Node.Leads body.nodes label := by
  rw [decodes.frameLabels_eq, List.map_map] at member
  obtain ⟨placed, listed, rfl⟩ := List.mem_map.mp member
  obtain ⟨_, inside, _⟩ :=
    (Tables.reflects_of_ofAttributes decodes.tablesRead).frames placed listed
  exact decodes.leads (mem_frames listed) inside

theorem wellPlaced
    (decodes : DecodesTo pool raw body decoded tables) :
    body.WellPlaced where
  numbered := decodes.numbered
  placed label referred := (decodes.mem_referredLabels_iff label).mp referred
  leading := by
    intro label member
    simp only [leadingLabels, List.mem_append] at member
    rcases member with ((target | handler) | line) | frame
    · exact decodes.leads_of_target target
    · obtain ⟨entry, listed, named⟩ := List.mem_flatMap.mp handler
      obtain ⟨_, start, place⟩ := decodes.exists_row_of_handler listed
      rcases List.mem_cons.mp named with rfl | named
      · exact start
      · rw [List.mem_singleton.mp named]
        exact place
    · exact decodes.leads_of_line line
    · exact decodes.leads_of_frame frame
  ranges := by
    intro handler member
    obtain ⟨ordered, start, _⟩ := decodes.exists_row_of_handler member
    refine start.spans ?_ ordered ?_
    · rw [decodes.numbered]
      exact List.pairwise_lt_range
    · refine (decodes.mem_referredLabels_iff _).mp ?_
      simp only [referredLabels, List.mem_append, List.mem_flatMap]
      exact .inl (.inl (.inl (.inr ⟨handler, member, by simp⟩)))

end DecodesTo

/--
In a decoded body labels are well placed.  What is drawn from the source that a
receiver of the body is handed differs from all labels of the body and from each
other, however often the source is copied and whoever draws.
-/
theorem wellPlaced_of_ofAttribute
    {pool : Pool}
    {raw : CodeAttribute Attribute}
    {body : Body}
    (read : ofAttribute pool raw = .ok body) :
    body.WellPlaced ∧
      ∀ maxStack maxLocals freeLabel, .code maxStack maxLocals freeLabel ∈ body.events →
        ∀ (sources : LabelSources) (requests : List LabelRequest),
          let holder := sources.holders.length
          let asked := (sources.startingAt freeLabel).run requests
          (Node.labels body.nodes ++ asked.1.drawn holder asked.2).Nodup := by
  obtain ⟨decoded, tables, decodes⟩ := ofAttribute_eq_ok_iff.mp read
  refine ⟨decodes.wellPlaced, fun maxStack maxLocals freeLabel sent sources requests => ?_⟩
  obtain rfl : freeLabel = body.nextLabel := by
    simp [events] at sent
    exact sent.2.2
  obtain ⟨count, drawn⟩ := sources.drawn_startingAt body.nextLabel requests
  simp only [drawn, decodes.numbered]
  rw [List.range_eq_range']
  have joined := List.range'_append_1 (s := 0) (m := body.nextLabel) (n := count)
  rw [Nat.zero_add] at joined
  rw [joined]
  exact List.nodup_range'

/-- A branch into a handler whose range ends where the body ends. -/
def guardedBranch : CodeAttribute Attribute where
  maxStack := 1
  maxLocals := 0
  code := [0x03, 0x99, 0x00, 0x04, 0xB1, 0x57, 0xB1]
  handlers := [⟨0, 7, 5, 0⟩]
  attributes := [.lineNumberTable [⟨0, 1⟩, ⟨5, 2⟩], .stackMapTable [.oneStack 5 (.object 2)]]

/-- Two stages share the source of the decoded body, of whose labels the last is at the end. -/
theorem wellPlaced_of_guardedBranch :
    ∃ body,
      ofAttribute .empty guardedBranch = .ok body ∧ body.WellPlaced ∧
        body.handlers = [⟨0, 2, 1, none⟩] ∧
          Node.labels body.nodes = [0, 1, 2] ∧
            let asked :=
              (LabelSources.unheld.startingAt body.nextLabel).run [.draw 0, .copy 0, .draw 1, .draw 0]
            asked.1.drawn 0 asked.2 = [3, 4, 5] ∧
              (Node.labels body.nodes ++ asked.1.drawn 0 asked.2).Nodup := by
  have outcome :
      (ofAttribute .empty guardedBranch).toOption.map (fun body =>
          (body.handlers, Node.labels body.nodes, body.nextLabel)) =
        some ([⟨0, 2, 1, none⟩], [0, 1, 2], 3) := by
    decide +kernel
  simp only [Option.map_eq_some_iff, toOption_eq_some_iff, Prod.mk.injEq] at outcome
  obtain ⟨body, read, handlers, labels, next⟩ := outcome
  obtain ⟨placed, fresh⟩ := wellPlaced_of_ofAttribute read
  have distinct :=
    fresh body.maxStack body.maxLocals body.nextLabel (by simp [events]) .unheld
      [.draw 0, .copy 0, .draw 1, .draw 0]
  refine ⟨body, read, placed, handlers, labels, ?_, distinct⟩
  rw [next]
  decide

end Body
end JvmClass
