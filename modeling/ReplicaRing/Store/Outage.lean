import ReplicaRing.Store.Batch

/-! A store that may fail. An outage names the operations of a batch that go wrong, by their
number within the batch, before they reach the store. What is done to a batch in several
steps is done altogether or not at all. -/

namespace ReplicaRing

/-- Which operations fail, each with its cause. -/
structure Outage where
  opening : Option String
  write : Nat → Option String
  read : Nat → Option String
  remove : Nat → Option String
  commit : Option String

namespace Outage

def never : Outage where
  opening := none
  write _ := none
  read _ := none
  remove _ := none
  commit := none

/-- A step that the outage may keep from being taken. -/
def guard {α : Type} (failure : Option String)
    (step : Batch → Except StoreFault α × Batch) (batch : Batch) : Except StoreFault α × Batch :=
  match failure with
  | some cause => (.error (.failing cause), batch)
  | none => step batch

end Outage

/-- Takes a step for each item, the first under number `index`, up to the first that fails. -/
def Batch.each {ρ α : Type} (step : Nat → ρ → Batch → Except StoreFault α × Batch) :
    Nat → List ρ → Batch → Except StoreFault (List α) × Batch
  | _, [], batch => (.ok [], batch)
  | index, item :: rest, batch =>
    match step index item batch with
    | (.error fault, batch) => (.error fault, batch)
    | (.ok answer, batch) =>
      match each step (index + 1) rest batch with
      | (.error fault, batch) => (.error fault, batch)
      | (.ok answers, batch) => (.ok (answer :: answers), batch)

namespace Store

/-- Does some work in a batch and keeps its effects, unless anything on the way fails. -/
def transact {α : Type} (store : Store) (outage : Outage)
    (work : Batch → Except StoreFault α × Batch) : Except StoreFault α × Store :=
  match outage.opening with
  | some cause => (.error (.failing cause), store)
  | none =>
    match work store.openBatch with
    | (.error fault, batch) => (.error fault, batch.drop)
    | (.ok answer, batch) =>
      match outage.commit with
      | some cause => (.error (.failing cause), batch.drop)
      | none => (.ok answer, batch.commit)

/-- Does some work in a batch that is given up afterwards. -/
def consult {α : Type} (store : Store) (outage : Outage)
    (work : Batch → Except StoreFault α × Batch) : Except StoreFault α × Store :=
  match outage.opening with
  | some cause => (.error (.failing cause), store)
  | none =>
    let (answer, batch) := work store.openBatch
    (answer, batch.drop)

end Store
end ReplicaRing
