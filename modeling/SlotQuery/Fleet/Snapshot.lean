import SlotQuery.Fleet.Error
import SlotQuery.Fleet.Filter
import SlotQuery.Fleet.RecordJson
import SlotQuery.Json.Parser

/-!
# Member snapshots

A snapshot is a file with a member list, read anew on every pass of a wait. Its content is passed in
as it is at that time; a file that is not there has none.
-/

namespace SlotQuery

/-- The records in the content of a file. -/
def decodeFile {α : Type} (path : String) (decode? : Json → Option α) (content : Option String) :
    Except FleetError α :=
  match content with
  | none => .error (.io path)
  | some text =>
    match (Json.parse? text).bind decode? with
    | none => .error (.decode path)
    | some a => .ok a

/-- Whatever is made of the records, what fails is the file, and it may be about to be replaced. -/
theorem isTransient_of_decodeFile {α β : Type} {path : String} {decode? : Json → Option α}
    {content : Option String} {f : α → β} {e : FleetError}
    (h : (decodeFile path decode? content).map f = .error e) : e.isTransient = true := by
  unfold decodeFile at h
  split at h
  · cases h; rfl
  · split at h <;> cases h; rfl

/-- A member file, and how its members become candidates. -/
structure Snapshot where
  path : String
  network : NetworkInfo
  filter : ActiveFilter

namespace Snapshot

/-- The pool of candidates, read at a time in milliseconds. -/
def pool (s : Snapshot) (current : Int64) (content : Option String) :
    Except FleetError (List Attributes) :=
  (decodeFile s.path MemberRecord.listOfJson? content).map fun members =>
    s.filter.candidates current members s.network

/-- The record of the node that waits, whether it is active or not. Without such a node the file is
not looked at. -/
def own (s : Snapshot) (content : Option String) : Except FleetError (Option MemberRecord) :=
  match s.filter.selfId with
  | none => .ok none
  | some id =>
    (decodeFile s.path MemberRecord.listOfJson? content).map fun members =>
      members.find? (·.nodeId == some id)

theorem isTransient_of_pool {s : Snapshot} {current : Int64} {content : Option String} {e : FleetError}
    (h : s.pool current content = .error e) : e.isTransient = true :=
  isTransient_of_decodeFile h

theorem isTransient_of_own {s : Snapshot} {content : Option String} {e : FleetError}
    (h : s.own content = .error e) : e.isTransient = true := by
  unfold own at h
  split at h
  · cases h
  · exact isTransient_of_decodeFile h

end Snapshot

end SlotQuery
