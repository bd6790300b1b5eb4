import Agentloom.Api.Link
import Agentloom.Event.Catalog

/-! The firehose: one connection that follows many runs for many filtered subscriptions. Each run has
one tail, shared by all subscriptions of the connection. -/

namespace Agentloom.Api

open Event Sequence

abbrev EventEnvelope := Envelope EventType

abbrev Reads := List (Read EventType)

structure RunMeta where
  name : String := ""
  defID : Option Nat := none
deriving DecidableEq, Repr

structure RunListing where
  id : RunID
  createdAt : Int
deriving DecidableEq, Repr

/-- The limits of the endpoint, and what it does not decide itself: how an id is written, the
attributes of the runs, whether the `n`-th lookup of them gets an answer from the cache or the store,
and how fast the client reads. -/
structure Server where
  maxSubscriptions : Nat
  maxCursorRuns : Nat
  maxTrackedRuns : Nat
  parseUUID : String → Option Nat
  metaOf : RunID → RunMeta
  resolves : Nat → Bool
  pace : Nat → Pace

structure Filter where
  runIDs : Option (List RunID) := none
  types : Option (List EventType) := none
  defID : Option Nat := none
  defName : String := ""
deriving DecidableEq, Repr

def Filter.needsMeta (filter : Filter) : Bool := filter.defID.isSome || filter.defName != ""

def Filter.wantsRun (filter : Filter) (runID : RunID) (runMeta : RunMeta) : Bool :=
  if filter.runIDs.any fun ids => !ids.contains runID then false
  else if filter.needsMeta then
    if filter.defID.any fun id => runMeta.defID != some id then false
    else filter.defName == "" || runMeta.name == filter.defName
  else true

def Filter.matches (filter : Filter) (env : EventEnvelope) (runMeta : RunMeta) : Bool :=
  if filter.types.any fun types => !types.contains env.payload then false
  else filter.wantsRun env.runID runMeta

section Compile

variable (server : Server)

def parseRunIDs : List String → Except String (List RunID)
  | [] => .ok []
  | text :: rest =>
    match server.parseUUID text with
    | none => .error ("run_ids: " ++ Dag.quote text ++ " is not a uuid")
    | some id => do
        let ids ← parseRunIDs rest
        return id :: ids

def parseTypes : List String → Except String (List EventType)
  | [] => .ok []
  | text :: rest =>
    match lookup text with
    | none => .error ("types: " ++ Dag.quote text ++ " is not a known event type")
    | some type => do
        let types ← parseTypes rest
        return type :: types

def compileFilter (filter : WSFilter) : Except String Filter := do
  if filter.runIDs.length > server.maxCursorRuns then
    throw ("run_ids exceeds the " ++ toString server.maxCursorRuns ++ "-run limit")
  let runIDs ← if filter.runIDs = [] then pure none
    else some <$> parseRunIDs server filter.runIDs
  if filter.types.length > catalog.length then
    throw ("types exceeds the " ++ toString catalog.length ++ " known event types")
  let types ← if filter.types = [] then pure none else some <$> parseTypes filter.types
  let defID ← if filter.definitionID = "" then pure none
    else match server.parseUUID filter.definitionID with
      | none => throw "definition_id is not a uuid"
      | some id => pure (some id)
  return { runIDs := runIDs, types := types, defID := defID, defName := filter.definitionName }

/-- The cursors, in the order in which the map is walked; two spellings of one run are one cursor. -/
def parseCursorMap : List (String × Int) → Except String (List (RunID × Int))
  | [] => .ok []
  | (text, seq) :: rest =>
    match server.parseUUID text with
    | none => .error ("cursors: " ++ Dag.quote text ++ " is not a uuid")
    | some id =>
      if seq < 0 then .error ("cursors: " ++ Dag.quote text ++ " has a negative seq")
      else do
        let cursors ← parseCursorMap rest
        return if cursors.any fun cursor => cursor.1 == id then cursors else (id, seq) :: cursors

def parseCursors (cursors : List (String × Int)) : Except String (List (RunID × Int)) :=
  if cursors.length > server.maxCursorRuns then
    .error ("cursors exceeds the " ++ toString server.maxCursorRuns ++ "-run limit")
  else parseCursorMap server cursors

end Compile

structure Subscription where
  id : String
  filter : Filter
  cursors : List (RunID × Int)
deriving DecidableEq, Repr

structure RunTail where
  tailer : Tailer
  terminal : Bool := false

/-- The state of a connection. The last three fields are only there to speak about it: they count the
questions about runs, and keep where each dropped tail stood and where each tail began, with where the
tail of its run before it had stood. -/
structure Conn where
  link : Link EventType
  subs : List Subscription := []
  tails : List RunTail := []
  trackOrder : List RunID := []
  highWater : Int
  lookups : Nat := 0
  left : List (RunID × Int) := []
  begun : List (RunID × Int × Option Int) := []

namespace Conn

variable (server : Server)

def tail? (runID : RunID) (conn : Conn) : Option RunTail :=
  conn.tails.find? fun tail => tail.tailer.runID == runID

def send (frame : Frame EventType) (conn : Conn) : Conn :=
  { conn with link := (conn.link.enqueue server.pace frame).2 }

def sendError (id code message : String) (conn : Conn) : Conn :=
  conn.send server (.error code message id)

def runMeta (runID : RunID) (conn : Conn) : RunMeta :=
  if server.resolves conn.lookups then server.metaOf runID else {}

def asked (conn : Conn) : Conn := { conn with lookups := conn.lookups + 1 }

def deliverEvent (env : EventEnvelope) (conn : Conn) : Conn :=
  let runMeta := conn.runMeta server env.runID
  let matched := (conn.subs.filter fun sub => sub.filter.matches env runMeta).map Subscription.id
  if matched = [] then conn.asked
  else conn.asked.send server (.event env (matched.insertionSort (· ≤ ·)))

def setTailer (tailer : Tailer) (conn : Conn) : Conn :=
  { conn with tails := conn.tails.map fun tail =>
      if tail.tailer.runID = tailer.runID then { tail with tailer := tailer } else tail }

def catchup (runID : RunID) (reads : Reads) (conn : Conn) : Conn :=
  match conn.tail? runID with
  | none => conn
  | some tail =>
    let (_, tailer, conn) := Tailer.catchup (deliverEvent server) reads (tail.tailer, conn)
    conn.setTailer tailer

/-- A terminal event ends the tail's resyncs, whether it was delivered or not. -/
def markTerminal (env : EventEnvelope) (conn : Conn) : Conn :=
  if env.payload.terminal then
    { conn with tails := conn.tails.map fun tail =>
        if tail.tailer.runID = env.runID then { tail with terminal := true } else tail }
  else conn

def offer (env : EventEnvelope) (reads : Reads) (conn : Conn) : Conn :=
  match conn.tail? env.runID with
  | none => conn
  | some tail =>
    let (_, tailer, conn) := Tailer.offer (deliverEvent server) env reads (tail.tailer, conn)
    (conn.setTailer tailer).markTerminal env

def drop (runID : RunID) (conn : Conn) : Conn :=
  { conn with
    tails := conn.tails.filter fun tail => tail.tailer.runID != runID
    left := ((conn.tail? runID).map fun tail => (runID, tail.tailer.lastSeq)).toList ++ conn.left }

def lost (conn : Conn) : List RunID := conn.left.map Prod.fst

def evictOne (conn : Conn) : Conn :=
  match conn.trackOrder.find? fun runID => (conn.tail? runID).any RunTail.terminal with
  | some runID => { conn.drop runID with trackOrder := conn.trackOrder.erase runID }
  | none =>
    match conn.trackOrder.find? fun runID => (conn.tail? runID).isSome with
    | some runID => { conn.drop runID with trackOrder := conn.trackOrder.erase runID }
    | none => conn

def makeRoom (conn : Conn) : Conn :=
  if conn.tails.length ≥ server.maxTrackedRuns then conn.evictOne else conn

def track (runID : RunID) (start : Int) (conn : Conn) : Conn :=
  { conn with
    tails := conn.tails ++ [{ tailer := newTailer runID start wsBackfillPageSize }]
    trackOrder := conn.trackOrder ++ [runID]
    begun := (runID, start, conn.left.lookup runID) :: conn.begun }

def startTailAt (runID : RunID) (start : Int) (reads : Reads) (conn : Conn) : Conn :=
  if (conn.tail? runID).isSome then conn
  else ((conn.makeRoom server).track runID (max start 0)).catchup server runID reads

def minCursor (runID : RunID) (conn : Conn) : Option Int :=
  (conn.subs.filterMap fun sub => sub.cursors.lookup runID).min?

def wantsRun (runID : RunID) (runMeta : RunMeta) (conn : Conn) : Bool :=
  conn.subs.any fun sub => sub.filter.wantsRun runID runMeta

def gcTail (conn : Conn) (runID : RunID) : Conn :=
  if conn.wantsRun runID (conn.runMeta server runID) then conn.asked else conn.asked.drop runID

def gcTails (conn : Conn) : Conn :=
  (conn.tails.map fun tail => tail.tailer.runID).foldl (gcTail server) conn

def onLiveEnvelope (env : EventEnvelope) (backfill reads : Reads) (conn : Conn) : Conn :=
  match conn.tail? env.runID with
  | some _ => conn.offer server env reads
  | none =>
    if conn.wantsRun env.runID (conn.runMeta server env.runID) then
      let start := (conn.minCursor env.runID).getD 0
      (conn.asked.startTailAt server env.runID start backfill).offer server env reads
    else conn.asked

/-- One cursor of a subscription: where the run stands is reported, whoever brought its tail there. -/
def resumeRun (reads : RunID → Reads) (state : Conn × List (RunID × Int)) (cursor : RunID × Int) :
    Conn × List (RunID × Int) :=
  let conn := state.1.startTailAt server cursor.1 cursor.2 (reads cursor.1)
  (conn, state.2 ++ ((conn.tail? cursor.1).map fun tail => (cursor.1, tail.tailer.lastSeq)).toList)

def install (sub : Subscription) (conn : Conn) : Conn :=
  { conn with subs := sub :: conn.subs.filter fun other => other.id != sub.id }

def onSubscribe (id : String) (filter : WSFilter) (cursors : List (String × Int))
    (reads : RunID → Reads) (conn : Conn) : Conn :=
  if id = "" ∨ id.utf8ByteSize > 64 then
    conn.sendError server id "filter_invalid" "subscription id must be 1..64 characters"
  else if (!conn.subs.any fun sub => sub.id == id) ∧ conn.subs.length ≥ server.maxSubscriptions then
    conn.sendError server id "subscription_limit"
      ("connection already holds " ++ toString server.maxSubscriptions ++ " subscriptions")
  else match compileFilter server filter with
    | .error message => conn.sendError server id "filter_invalid" message
    | .ok compiled =>
      match parseCursors server cursors with
      | .error message => conn.sendError server id "filter_invalid" message
      | .ok resumed =>
        let conn := (conn.install ⟨id, compiled, resumed⟩).send server (.subscribed id filter)
        let (conn, ack) := resumed.foldl (resumeRun server reads) (conn, [])
        conn.send server (.resumed id ack)

def onUnsubscribe (id : String) (conn : Conn) : Conn :=
  if conn.subs.any fun sub => sub.id == id then
    let conn := { conn with subs := conn.subs.filter fun sub => sub.id != id }
    (conn.send server (.unsubscribed id)).gcTails server
  else conn.sendError server id "unknown_subscription" "no such subscription"

def healOne (reads : RunID → Reads) (conn : Conn) (runID : RunID) : Conn :=
  match conn.tail? runID with
  | some tail => if tail.terminal then conn else conn.catchup server runID (reads runID)
  | none => conn

/-- The tails are walked in no order of their own. -/
def heal (order : List RunID) (reads : RunID → Reads) (conn : Conn) : Conn :=
  order.foldl (healOne server reads) conn

def discoveryPage : Nat := 200

def listPage (visible : List RunListing) (createdAfter : Int) (limit : Nat) : List RunListing :=
  ((visible.filter fun run => run.createdAt ≥ createdAfter).insertionSort fun first second =>
    second.createdAt < first.createdAt ∨
      (second.createdAt = first.createdAt ∧ second.id ≤ first.id)).take limit

def discover (reads : RunID → Reads) (conn : Conn) (run : RunListing) : Conn :=
  let conn := { conn with highWater := max conn.highWater run.createdAt }
  if (conn.tail? run.id).isSome then conn
  else if conn.wantsRun run.id (server.metaOf run.id) then
    conn.startTailAt server run.id ((conn.minCursor run.id).getD 0) (reads run.id)
  else conn

def discoverNewRuns (visible : Option (List RunListing)) (reads : RunID → Reads) (conn : Conn) :
    Conn :=
  match visible with
  | none => conn
  | some visible =>
    (listPage visible conn.highWater discoveryPage).foldl (discover server reads) conn

end Conn

inductive Control where
  | malformed
  | subscribe (id : String) (filter : WSFilter) (cursors : List (String × Int))
  | unsubscribe (id : String)
  | unknown (type id : String)
deriving DecidableEq, Repr

inductive Signal where
  | control (message : Control) (reads : RunID → Reads)
  | live (env : EventEnvelope) (backfill reads : Reads)
  | resync (order : List RunID) (reads : RunID → Reads) (visible : Option (List RunListing))
      (backfill : RunID → Reads)

namespace Conn

variable (server : Server)

def onControl (reads : RunID → Reads) (conn : Conn) : Control → Conn
  | .malformed => conn.sendError server "" "bad_message" "malformed control message"
  | .subscribe id filter cursors => conn.onSubscribe server id filter cursors reads
  | .unsubscribe id => conn.onUnsubscribe server id
  | .unknown type id =>
    conn.sendError server id "bad_message" ("unknown control message type " ++ type)

def resync (polls : Bool) (order : List RunID) (reads : RunID → Reads)
    (visible : Option (List RunListing)) (backfill : RunID → Reads) (conn : Conn) : Conn :=
  let conn := conn.heal server order reads
  if polls then conn.discoverNewRuns server visible backfill else conn

def serve (polls : Bool) (conn : Conn) : Signal → Conn
  | .control message reads => conn.onControl server reads message
  | .live env backfill reads => conn.onLiveEnvelope server env backfill reads
  | .resync order reads visible backfill => conn.resync server polls order reads visible backfill

/-- A client that fell behind is let go before the next signal is looked at. -/
def step (polls : Bool) (conn : Conn) (signal : Signal) : Conn :=
  if conn.link.slow then conn else conn.serve server polls signal

def opened (buffer : Nat) (now : Int) : Conn := { link := { buffer := buffer }, highWater := now }

def run (polls : Bool) (signals : List Signal) (conn : Conn) : Conn :=
  signals.foldl (step server polls) conn

end Conn

end Agentloom.Api
