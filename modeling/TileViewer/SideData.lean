import TileViewer.Text.Markup
import TileViewer.Wire.SideUpdate

/-! The latest of what the server told beside the frames. Nothing of it is drawn. -/
namespace TileViewer

structure SideData where
  /-- The newest events first, as plain text. -/
  events : List String := []
  score : Option Int64 := none
  rank : Option Int64 := none
  bestScore : Option Int64 := none
  bestRank : Option Int64 := none
  scores : List Score := []
  stats : List PlayerStat := []
  round : Option Round := none
  ticks : Option UInt64 := none

namespace SideData

/-- How many events are kept. -/
def maxEvents : Nat := 8

/-- Adds an event to the newest ones. -/
def pushEvent (events : List String) (markup : String) : List String :=
  (Text.ofMarkup markup :: events).take maxEvents

/-- Takes in an update. What it leaves out stays; negative ticks mean that there are none. -/
def apply (d : SideData) (u : SideUpdate) : SideData where
  events := (u.events.getD []).foldl pushEvent d.events
  score := u.score.or d.score
  rank := u.rank.or d.rank
  bestScore := u.bestScore.or d.bestScore
  bestRank := u.bestRank.or d.bestRank
  scores := u.scores.getD d.scores
  stats := u.stats.getD d.stats
  round := u.round.or d.round
  ticks := ((u.ticks.filter (0 ≤ ·)).map Int64.toUInt64).or d.ticks

end SideData

end TileViewer
