import TileViewer.Text.Plain
import TileViewer.View
import TileViewer.Wire.Hello

/-!
What can be set from outside, by name. A setting that is missing, blank or makes no sense has its
usual value.
-/
namespace TileViewer

/-- The values of settings by their names. -/
abbrev Environment := String → Option String

namespace Environment

/-- The value of a setting without blanks around it, unless nothing is left. -/
def get? (env : Environment) (name : String) : Option String :=
  ((env name).map Text.trim).filter (· ≠ "")

def view? (env : Environment) : Option View := (env.get? "ROGUE_VIEW_VIEW").bind View.ofName?

/-- A number other than zero. -/
def positive? (env : Environment) (name : String) : Option UInt32 :=
  ((env.get? name).bind Text.word?).filter (0 < ·)

end Environment

/-- How to reach the server and as whom. -/
structure ConnectionSettings where
  host : String := "127.0.0.1"
  tcpPort : UInt16 := 29080
  username : Option String := none
  password : Option String := none
  /-- The viewer's identity; without one it is drawn at random. -/
  uuid : Option String := none
  view : View := .follow
  /-- Seconds without a line after which a transport counts as dead. -/
  idleSeconds : UInt64 := 30
  healthCheckMs : Nat := 5000
  backoffMs : Nat := 200
  deriving DecidableEq, Repr

namespace ConnectionSettings

def ofEnvironment (env : Environment) : ConnectionSettings :=
  let usual : ConnectionSettings := {}
  { host := (env.get? "ROGUE_VIEW_HOST").getD usual.host
    tcpPort := ((env.get? "ROGUE_VIEW_PORT").bind Text.word?).getD usual.tcpPort
    username := env.get? "ROGUE_VIEW_USERNAME"
    password := env.get? "ROGUE_VIEW_PASSWORD"
    uuid := env.get? "ROGUE_VIEW_UUID"
    view := env.view?.getD usual.view
    idleSeconds := ((env.get? "ROGUE_VIEW_IDLE_TIMEOUT_SECS").bind Text.word?).getD
      usual.idleSeconds }

def address (s : ConnectionSettings) : String := s!"{s.host}:{s.tcpPort.toNat}"

/-- The first message, for a viewer with this identity. -/
def hello (s : ConnectionSettings) (uuid : String) : Hello :=
  .ofView uuid s.username s.password s.view

end ConnectionSettings

/-- What to show and how large. -/
structure ViewerSettings where
  view : View := .follow
  sprite : UInt32 := 32
  surfaceWidth : UInt32 := 1024
  surfaceHeight : UInt32 := 768
  tilesDir : String := "resources/tiles"
  logPath : String := "rogue-view.log"
  /-- The seed of the directions that damage numbers take. -/
  seed : UInt32 := 0x5eed
  /-- A tracked view to outline in the world view. -/
  tracked : Option TileRect := none
  deriving DecidableEq, Repr

namespace ViewerSettings

/-- Four numbers with commas between them. -/
def rect? (s : String) : Option TileRect :=
  match (s.splitOn ",").map Text.trim with
  | [x, y, width, height] => do
    return ⟨← Text.word? x, ← Text.word? y, ← Text.word? width, ← Text.word? height⟩
  | _ => none

def ofEnvironment (env : Environment) : ViewerSettings :=
  let usual : ViewerSettings := {}
  { view := env.view?.getD usual.view
    sprite := (env.positive? "ROGUE_VIEW_SPRITE_SIZE").getD usual.sprite
    surfaceWidth := (env.positive? "ROGUE_VIEW_SURFACE_WIDTH").getD usual.surfaceWidth
    surfaceHeight := (env.positive? "ROGUE_VIEW_SURFACE_HEIGHT").getD usual.surfaceHeight
    tilesDir := (env.get? "ROGUE_VIEW_TILES_DIR").getD usual.tilesDir
    logPath := (env.get? "ROGUE_VIEW_LOG_PATH").getD usual.logPath
    tracked := (env.get? "ROGUE_VIEW_FOLLOW_BOX").bind rect? }

end ViewerSettings

end TileViewer
