import TileViewer.Camera
import TileViewer.Color
import TileViewer.Connection.Inbox
import TileViewer.Connection.Supervisor
import TileViewer.DamageNumber
import TileViewer.Decimal.Shortest
import TileViewer.DirtyGrid
import TileViewer.Frame
import TileViewer.Frame.Queue
import TileViewer.Image
import TileViewer.Image.Transform
import TileViewer.Json.Basic
import TileViewer.Json.Meaning
import TileViewer.Json.Printer
import TileViewer.Json.Reader
import TileViewer.Json.Record
import TileViewer.Json.Token
import TileViewer.Key
import TileViewer.Pacing
import TileViewer.Painter
import TileViewer.Painter.Overlay
import TileViewer.Painter.Palette
import TileViewer.Painter.Tiles
import TileViewer.Patcher
import TileViewer.Proofs.Camera.Way
import TileViewer.Proofs.Connection.Delivery
import TileViewer.Proofs.Connection.Hearing
import TileViewer.Proofs.Connection.Requests
import TileViewer.Proofs.Connection.Stages
import TileViewer.Proofs.Connection.Trace
import TileViewer.Proofs.Connection.Transcript
import TileViewer.Proofs.Connection.Transport
import TileViewer.Proofs.Damage.Lives
import TileViewer.Proofs.Damage.Numbers
import TileViewer.Proofs.Exact
import TileViewer.Proofs.Frame.History
import TileViewer.Proofs.Frame.LastNumber
import TileViewer.Proofs.Frame.Late
import TileViewer.Proofs.Frame.Ready
import TileViewer.Proofs.Json.Meaning
import TileViewer.Proofs.Json.Objects
import TileViewer.Proofs.Json.Scalars
import TileViewer.Proofs.Json.Tokens
import TileViewer.Proofs.Json.Values
import TileViewer.Proofs.Marks.Bound
import TileViewer.Proofs.Marks.Grid
import TileViewer.Proofs.Marks.Patch
import TileViewer.Proofs.Marks.Rectangles
import TileViewer.Proofs.Picture.Alike
import TileViewer.Proofs.Picture.Bar
import TileViewer.Proofs.Picture.Bare
import TileViewer.Proofs.Picture.Beneath
import TileViewer.Proofs.Picture.Board
import TileViewer.Proofs.Picture.Glide
import TileViewer.Proofs.Picture.Ground
import TileViewer.Proofs.Picture.Keeps
import TileViewer.Proofs.Picture.Overlay
import TileViewer.Proofs.Picture.Pass
import TileViewer.Proofs.Picture.Pixels
import TileViewer.Proofs.Picture.Rings
import TileViewer.Proofs.Picture.Sheet
import TileViewer.Proofs.Random.Period
import TileViewer.Proofs.Reach.Drawing
import TileViewer.Proofs.Reach.Envelope
import TileViewer.Proofs.Session.Arrival
import TileViewer.Proofs.Session.Bounds
import TileViewer.Proofs.Session.CatchUp
import TileViewer.Proofs.Session.Counts
import TileViewer.Proofs.Session.Current
import TileViewer.Proofs.Session.Follow
import TileViewer.Proofs.Session.Glides
import TileViewer.Proofs.Session.InReach
import TileViewer.Proofs.Session.Moves
import TileViewer.Proofs.Session.Pace
import TileViewer.Proofs.Session.Reset
import TileViewer.Proofs.Session.Resized
import TileViewer.Proofs.Session.Run
import TileViewer.Proofs.Session.Setup
import TileViewer.Proofs.Session.Skipped
import TileViewer.Proofs.Session.Steady
import TileViewer.Proofs.Session.World
import TileViewer.Proofs.SideData.Latest
import TileViewer.Proofs.Sprites.Folder
import TileViewer.Proofs.Sprites.Uses
import TileViewer.Proofs.Terminal.Clipping
import TileViewer.Proofs.Terminal.Controls
import TileViewer.Proofs.Terminal.Labels
import TileViewer.Proofs.Terminal.Runs
import TileViewer.Proofs.Terminal.Screen
import TileViewer.Proofs.Terminal.Shown
import TileViewer.Proofs.Terminal.Spans
import TileViewer.Proofs.Text.Lines
import TileViewer.Proofs.Text.Markup
import TileViewer.Proofs.Tile.Coordinates
import TileViewer.Proofs.Tile.Edges
import TileViewer.Proofs.Tile.Writes
import TileViewer.Proofs.Wire.Faults
import TileViewer.Proofs.Wire.Frames
import TileViewer.Proofs.Wire.Greeting
import TileViewer.Proofs.Wire.Members
import TileViewer.Random
import TileViewer.Settings
import TileViewer.SideData
import TileViewer.SpriteSheet
import TileViewer.SpriteSheet.Folder
import TileViewer.Surface
import TileViewer.Terminal.Cell
import TileViewer.Terminal.Command
import TileViewer.Terminal.Display
import TileViewer.Text.Markup
import TileViewer.Text.Plain
import TileViewer.Text.Utf8
import TileViewer.Tile
import TileViewer.Tile.Store
import TileViewer.View
import TileViewer.Viewer
import TileViewer.Window
import TileViewer.Wire.FrameMessage
import TileViewer.Wire.Hello
import TileViewer.Wire.Message
import TileViewer.Wire.SideUpdate
import TileViewer.Word
