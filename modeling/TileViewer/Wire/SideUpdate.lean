import TileViewer.DamageNumber
import TileViewer.Json.Printer
import TileViewer.Json.Record

/-! What the server tells beside the frames: events, scores, statistics, hits and the round. -/
namespace TileViewer

namespace Hit

def ofJson? (v : Json) : Option Hit := do
  let r ← Json.Record.ofJson? ["x", "y", "frame", "damage"] v
  let x ← r.required? "x" Json.word?
  let y ← r.required? "y" Json.word?
  let frame ← r.required? "frame" Json.word?
  let damage ← r.required? "damage" Json.word?
  return { x, y, frame, damage }

def toJson (h : Hit) : Json :=
  .ofFields [("x", .ofInt h.x.toInt), ("y", .ofInt h.y.toInt), ("frame", .ofInt h.frame.toNat),
    ("damage", .ofInt h.damage.toInt)]

end Hit

structure Score where
  username : String
  score : Int64
  rank : Int64
  deriving DecidableEq, Repr

namespace Score

def ofJson? (v : Json) : Option Score := do
  let r ← Json.Record.ofJson? ["username", "score", "rank"] v
  let username ← r.required? "username" Json.text?
  let score ← r.required? "score" Json.word?
  let rank ← r.required? "rank" Json.word?
  return { username, score, rank }

def toJson (s : Score) : Json :=
  .ofFields [("username", .ofText s.username), ("score", .ofInt s.score.toInt),
    ("rank", .ofInt s.rank.toInt)]

end Score

/-- How a player's program is doing. -/
structure PlayerStat where
  username : String
  actionsPerSecond : Float
  deaths : Int64
  actionGap : Int64
  healthy : Bool
  deriving Repr

namespace PlayerStat

def ofJson? (v : Json) : Option PlayerStat := do
  let r ← Json.Record.ofJson? ["username", "actionsPerSecond", "numberOfTimesDied",
    "averageTimeBetweenActions", "passLastHealthCheck"] v
  let username ← r.required? "username" Json.text?
  let actionsPerSecond ← r.withDefault? "actionsPerSecond" 0.0 Json.float?
  let deaths ← r.withDefault? "numberOfTimesDied" 0 Json.word?
  let actionGap ← r.withDefault? "averageTimeBetweenActions" 0 Json.word?
  let healthy ← r.withDefault? "passLastHealthCheck" true Json.bool?
  return { username, actionsPerSecond, deaths, actionGap, healthy }

def toJson (s : PlayerStat) : Json :=
  .ofFields [("username", .ofText s.username), ("actionsPerSecond", .ofFloat s.actionsPerSecond),
    ("numberOfTimesDied", .ofInt s.deaths.toInt),
    ("averageTimeBetweenActions", .ofInt s.actionGap.toInt),
    ("passLastHealthCheck", .bool s.healthy)]

end PlayerStat

/-- The round being played, or the next one, with the seconds until it ends or starts. -/
inductive Round
  | active (id : UInt64) (timeLeft : Int64)
  | inactive (nextId : UInt64) (startsIn : Int64)
  deriving DecidableEq, Repr

namespace Round

def activeName : String := "ACTIVE"

def inactiveName : String := "INACTIVE"

def activeOfJson? (v : Json) : Option Round := do
  let r ← Json.Record.ofJson? ["roundId", "timeLeftInSeconds"] v
  let id ← r.required? "roundId" Json.word?
  let timeLeft ← r.withDefault? "timeLeftInSeconds" 0 Json.word?
  return active id timeLeft

def inactiveOfJson? (v : Json) : Option Round := do
  let r ← Json.Record.ofJson? ["nextRoundId", "nextRoundStartInSecs"] v
  let nextId ← r.required? "nextRoundId" Json.word?
  let startsIn ← r.withDefault? "nextRoundStartInSecs" 0 Json.word?
  return inactive nextId startsIn

/-- The kind of round and the record of its other fields. The kind comes under its own key, or
first in an array. -/
def tagged? : Json → Option (String × Json)
  | .array (tag :: rest) => do return (← tag.text?, .array rest)
  | .object members =>
    match members.partition fun (k, _) => k.text? = some "type" with
    | ([(_, tag)], rest) => do return (← tag.text?, .object rest)
    | _ => none
  | _ => none

/-- A round whose values, known or not, all have a meaning and are nested at most `levels` deep. -/
def ofJson? (levels : Nat) (v : Json) : Option Round :=
  if v.isMeaningful levels then do
    let (tag, fields) ← tagged? v
    if tag = activeName then activeOfJson? fields
    else if tag = inactiveName then inactiveOfJson? fields
    else none
  else none

def toJson : Round → Json
  | active id timeLeft =>
    .ofFields [("type", .ofText activeName), ("roundId", .ofInt id.toNat),
      ("timeLeftInSeconds", .ofInt timeLeft.toInt)]
  | inactive nextId startsIn =>
    .ofFields [("type", .ofText inactiveName), ("nextRoundId", .ofInt nextId.toNat),
      ("nextRoundStartInSecs", .ofInt startsIn.toInt)]

end Round

/-- An update; what it leaves out stays as it is. -/
structure SideUpdate where
  events : Option (List String) := none
  score : Option Int64 := none
  rank : Option Int64 := none
  bestScore : Option Int64 := none
  bestRank : Option Int64 := none
  scores : Option (List Score) := none
  stats : Option (List PlayerStat) := none
  hits : Option (List Hit) := none
  round : Option Round := none
  ticks : Option Int64 := none

namespace SideUpdate

/-- How deep the values inside a message may be nested, the message itself included. -/
def maxLevels : Nat := 127

def ofJson? (v : Json) : Option SideUpdate := do
  let r ← Json.Record.ofJson? ["newEventHtml", "currentPlayerScore", "currentPlayerRank",
    "currentPlayerBestTotalScore", "currentPlayerBestTotalRank", "currentRoundScores", "stats",
    "combatEvents", "roundState", "gameTicks"] v
  let events ← r.withDefault? "newEventHtml" none (Json.nullable? (Json.list? Json.text?))
  let score ← r.withDefault? "currentPlayerScore" none (Json.nullable? Json.word?)
  let rank ← r.withDefault? "currentPlayerRank" none (Json.nullable? Json.word?)
  let bestScore ← r.withDefault? "currentPlayerBestTotalScore" none (Json.nullable? Json.word?)
  let bestRank ← r.withDefault? "currentPlayerBestTotalRank" none (Json.nullable? Json.word?)
  let scores ← r.withDefault? "currentRoundScores" none (Json.nullable? (Json.list? Score.ofJson?))
  let stats ← r.withDefault? "stats" none (Json.nullable? (Json.list? PlayerStat.ofJson?))
  let hits ← r.withDefault? "combatEvents" none (Json.nullable? (Json.list? Hit.ofJson?))
  let round ← r.withDefault? "roundState" none (Json.nullable? (Round.ofJson? (maxLevels - 1)))
  let ticks ← r.withDefault? "gameTicks" none (Json.nullable? Json.word?)
  return { events, score, rank, bestScore, bestRank, scores, stats, hits, round, ticks }

/-- A list of values, or null. -/
def listToJson {α : Type} (f : α → Json) : Option (List α) → Json :=
  .ofOption fun xs => .array (xs.map f)

def intToJson : Option Int64 → Json := .ofOption fun n => .ofInt n.toInt

def toJson (u : SideUpdate) : Json :=
  .ofFields [("newEventHtml", listToJson .ofText u.events),
    ("currentPlayerScore", intToJson u.score), ("currentPlayerRank", intToJson u.rank),
    ("currentPlayerBestTotalScore", intToJson u.bestScore),
    ("currentPlayerBestTotalRank", intToJson u.bestRank),
    ("currentRoundScores", listToJson Score.toJson u.scores),
    ("stats", listToJson PlayerStat.toJson u.stats),
    ("combatEvents", listToJson Hit.toJson u.hits),
    ("roundState", .ofOption Round.toJson u.round), ("gameTicks", intToJson u.ticks)]

end SideUpdate

end TileViewer
