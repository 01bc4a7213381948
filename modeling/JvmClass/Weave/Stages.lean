import JvmClass.Event.Collect
import JvmClass.Weave

namespace JvmClass

/-!
# Weaving in stages

What weaving makes of a body is again a row of events, so it can be woven once
more by another stage before it is collected.  All stages rewrite the body of
one method; each has advice of its own and hands out slots on its own.

A stage takes its labels from the first one that the stages before it leave
free.  Labels are names, so all that counts is that no two stages draw the same.
-/

/-- Advice, what it knows before the body comes, and where to put it. -/
structure Stage : Type 1 where
  Memory : Type
  memory : Memory
  advice : Advice Memory
  detection : ExitDetection

namespace Stage

/-- What weaves the advice of a stage into the body of a method. -/
def weaver (stage : Stage) (header : MethodHeader) : Weaver stage.Memory :=
  ⟨stage.advice, stage.detection, header.access, header.descriptor⟩

/-- What a stage makes of the events that it is handed. -/
def weave (stage : Stage) (header : MethodHeader) (events : List BodyEvent) : WovenBody :=
  (stage.weaver header).weave stage.memory events

/-- What comes out behind the last of some stages. -/
def delivered (header : MethodHeader) (stages : List Stage) (events : List BodyEvent) :
    List BodyEvent :=
  stages.foldl (fun events stage => (stage.weave header events).events) events

/-- The body that is collected behind the last of some stages. -/
def collected? (header : MethodHeader) (stages : List Stage) (body : Body) : Option Body :=
  Body.ofEvents? (delivered header stages body.events)

end Stage
end JvmClass
