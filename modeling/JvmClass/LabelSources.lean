import JvmClass.Insn

namespace JvmClass

/-!
# Label sources

Stages that add to a body draw the labels that they need from a source that
starts above the labels of the body.  A source is shared: who holds a copy of it
draws from the same counter, so the stages that a body passes through are never
handed one label twice.
-/

/-- Who holds a label source, and the counters behind the sources. -/
structure LabelSources where
  /-- The next label of each counter. -/
  counters : List Label
  /-- The number of the counter that each holder draws from. -/
  holders : List Nat
  counted : ∀ counter ∈ holders, counter < counters.length

/-- What someone may ask of the sources there are.  Holders are numbered as they come. -/
inductive LabelRequest where
  /-- A source whose first label is `first`, for a new holder. -/
  | start (first : Label)
  /-- A copy of the source of a holder, for a new holder. -/
  | copy (holder : Nat)
  /-- A label from the source of a holder. -/
  | draw (holder : Nat)
  deriving Repr, DecidableEq

/-- A label, and the holder who drew it. -/
structure Draw where
  holder : Nat
  label : Label
  deriving Repr, DecidableEq

namespace LabelSources

/-- Before anyone holds a source. -/
def unheld : LabelSources :=
  ⟨[], [], by simp⟩

/-- A new holder with a counter of its own. -/
def startingAt (sources : LabelSources) (first : Label) : LabelSources where
  counters := sources.counters ++ [first]
  holders := sources.holders ++ [sources.counters.length]
  counted := by
    intro counter member
    rw [List.length_append, List.length_singleton]
    rcases List.mem_append.mp member with old | new
    · exact Nat.lt_succ_of_lt (sources.counted counter old)
    · rw [List.mem_singleton.mp new]
      exact Nat.lt_succ_self _

/-- A new holder with the counter of another one, if there is that one. -/
def copy (sources : LabelSources) (holder : Nat) : LabelSources where
  counters := sources.counters
  holders := sources.holders ++ sources.holders[holder]?.toList
  counted := by
    intro counter member
    rcases List.mem_append.mp member with old | new
    · exact sources.counted counter old
    · exact sources.counted counter (List.mem_of_getElem? (Option.mem_toList.mp new))

/-- Takes the next label of a counter. -/
def advance (sources : LabelSources) (counter : Nat) : LabelSources where
  counters := sources.counters.modify counter (· + 1)
  holders := sources.holders
  counted := by
    intro other member
    rw [List.length_modify]
    exact sources.counted other member

/-- A label that the source of a holder has not handed out yet. -/
def fresh (sources : LabelSources) (holder : Nat) : LabelSources × Option Label :=
  match sources.holders[holder]? with
  | none => (sources, none)
  | some counter => (sources.advance counter, sources.counters[counter]?)

/-- Does what is asked; the draws are those that this takes, one at most. -/
def answer (sources : LabelSources) : LabelRequest → LabelSources × List Draw
  | .start first => (sources.startingAt first, [])
  | .copy holder => (sources.copy holder, [])
  | .draw holder =>
      let (sources, label) := sources.fresh holder
      (sources, label.toList.map (Draw.mk holder))

/-- Does one thing after the other. -/
def run (sources : LabelSources) : List LabelRequest → LabelSources × List Draw
  | [] => (sources, [])
  | request :: rest =>
      let (next, draws) := sources.answer request
      let (last, later) := next.run rest
      (last, draws ++ later)

/-- The labels among some draws that are from the source of a holder, through whichever copy. -/
def drawn (sources : LabelSources) (holder : Nat) (draws : List Draw) : List Label :=
  (draws.filter fun draw => sources.holders[draw.holder]? == sources.holders[holder]?).map
    Draw.label

end LabelSources
end JvmClass
