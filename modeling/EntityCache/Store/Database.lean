import EntityCache.Store.Request
import EntityCache.Store.Tables

/-!
# A store in a database

`Store.Database` answers a request by the statements of its `plan`, run as one transaction.  Lists
are cut into chunks of `chunkSize`, so that no statement exceeds the limit of parameters, and an
empty list needs no statement at all.  Once the database is closed every request that needs a
statement fails.
-/

namespace EntityCache

namespace Store

namespace Database

/-- Keys or rows of one statement. -/
def chunkSize : Nat := 400

/-- The list cut into pieces of `chunkSize`, the last of which may be shorter. -/
def chunks {α : Type} : List α → List (List α)
  | [] => []
  | x :: xs => (x :: xs.take (chunkSize - 1)) :: chunks (xs.drop (chunkSize - 1))
termination_by l => l.length
decreasing_by simp only [List.length_drop, List.length_cons]; omega

/-- The statements that answer a request. -/
def plan : Request → List Statement
  | .get key => [.selectString key]
  | .set key value => [.upsertStrings [(key, value)]]
  | .mget keys => (chunks keys).map .selectStrings
  | .mset entries => (chunks entries).map .upsertStrings
  | .del keys => (chunks keys).flatMap fun c => [.countKeys c, .deleteStrings c, .deleteSets c]
  | .sadd key members => (chunks members).map (.insertMembers key)
  | .srem key members => (chunks members).map (.deleteMembers key)
  | .smembers key => [.selectMembers key]

/-- The rows that the outcomes select, in order. -/
def selected (outcomes : List Outcome) : List (String × String) :=
  outcomes.flatMap fun
    | .rows rows => rows
    | _ => []

/-- The sum of the numbers that the outcomes count. -/
def counted : List Outcome → Nat
  | [] => 0
  | .count n :: rest => n + counted rest
  | _ :: rest => counted rest

/-- The number of rows that the outcomes change. -/
def changed : List Outcome → Nat
  | [] => 0
  | .affected n :: rest => n + changed rest
  | _ :: rest => changed rest

/-- The answer to a request, from the outcomes of its statements. -/
def answerOf : (r : Request) → List Outcome → r.Answer
  | .get _, outcomes => (selected outcomes).head?.map (·.2)
  | .set _ _, _ => ()
  | .mget keys, outcomes =>
    let found : Std.ExtTreeMap String String := Std.ExtTreeMap.ofList (selected outcomes)
    keys.map fun key => found[key]?
  | .mset _, _ => ()
  | .del _, outcomes => counted outcomes
  | .sadd _ _, outcomes => changed outcomes
  | .srem _ _, outcomes => changed outcomes
  | .smembers _, outcomes => (selected outcomes).map (·.2)

end Database

/-- A database with the tables of a store, open or closed. -/
structure Database where
  tables : Tables := {}
  isOpen : Bool := true
deriving DecidableEq, Repr

namespace Database

/-- Answers a request from the tables. -/
def answer (r : Request) (t : Tables) : r.Answer × Tables :=
  let (outcomes, t) := t.executeAll (plan r)
  (answerOf r outcomes, t)

/-- Answers a request; a closed database fails unless nothing has to be asked. -/
def serve (r : Request) (d : Database) : r.Reply × Database :=
  if d.isOpen || (plan r).isEmpty then
    let (a, tables) := answer r d.tables
    (.ok a, { d with tables })
  else (.error (.query StoreError.poolClosed), d)

end Database

end Store

end EntityCache
