import ComponentRegistry.Store.Table

/-! # Racing updates

Calls that change the same entry of a table at the same time. A call takes up to three steps: it
reads the row and computes the change, it writes the columns if the row still has the expected
version, and if nothing was written it reads the row again to say why. Each step is one statement,
and between the steps of a call the others may take theirs.
-/

namespace ComponentRegistry

/-- A request to change an entry that is expected to have a certain version. -/
structure UpdateCall where
  patch : EntryPatch
  expected : Int

/-- How far a call has come. -/
inductive CallState where
  /-- It has not looked at the table. -/
  | waiting
  /-- It has read the entry and computed the change, which is still to be written. -/
  | computed (updated : Entry)
  /-- Its statement has written nothing. -/
  | missed
  /-- It is over. -/
  | finished (result : Except Failure Entry)

/-- The next step of a call on the entry at an address. -/
def UpdateCall.step (call : UpdateCall) (i : Identifier) (t : TableStore) :
    CallState → CallState × TableStore
  | .waiting =>
    match t.entryAt? i with
    | none => (.finished (refuse (.missingEntry i.text)), t)
    | some current =>
      match current.patched call.patch call.expected with
      | .ok updated => (.computed updated, t)
      | .error e => (.finished (.error e), t)
  | .computed updated =>
    let (count, t) :=
      t.conditionalUpdate i call.expected (TableStore.patchedFields call.patch) (.ofEntry updated)
    (if count = 0 then .missed else .finished (.ok updated), t)
  | .missed => (.finished (refuse (t.lostUpdate i call.expected)), t)
  | .finished result => (.finished result, t)

/-- A table with some calls on it. -/
structure Race (ι : Type) where
  table : TableStore
  state : ι → CallState

namespace Race

variable {ι : Type} [DecidableEq ι] (calls : ι → UpdateCall) (i : Identifier)

/-- Calls that all have still to begin. -/
def start (t : TableStore) : Race ι := ⟨t, fun _ => .waiting⟩

/-- One of the calls takes its next step. -/
def move (race : Race ι) (k : ι) : Race ι where
  table := ((calls k).step i race.table (race.state k)).2
  state j := if j = k then ((calls k).step i race.table (race.state k)).1 else race.state j

/-- The calls take steps in some order. -/
def run (race : Race ι) (schedule : List ι) : Race ι := schedule.foldl (move calls i) race

end Race

end ComponentRegistry
