import TileViewer.Connection.Inbox
import TileViewer.Settings
import TileViewer.Text.Plain
import TileViewer.Wire.Message

/-!
The keeper of the connection. It connects, says hello once, passes on the messages it reads, and
connects again after any loss until it is told to stop. What happens around it comes in as moves;
a move is possible only at some stages, and which of the possible ones comes next is not its
choice.
-/
namespace TileViewer

/-- The phases that a connection goes through. -/
inductive Phase
  | connecting
  | established
  | closing
  | reconnecting
  deriving DecidableEq, Repr

/-- Whether a connection may go from the first phase straight to the second. An attempt that
fails is closed like any other, and what is closed is always waited for before the next attempt. -/
def Phase.leadsTo : Phase → Phase → Bool
  | .connecting, .established => true
  | .connecting, .closing => true
  | .established, .closing => true
  | .closing, .reconnecting => true
  | .reconnecting, .connecting => true
  | _, _ => false

/-- What the viewer may ask for: to drop the transport, or to stop for good. -/
inductive Request
  | teardown
  | shutdown
  deriving DecidableEq, Repr

/-- Why a transport is gone. -/
inductive Loss
  | closedByServer
  | tornDown
  | silent (seconds : UInt64)
  | unconnected (reason : String)
  | ungreeted (reason : String)
  | unread (reason : String)
  /-- A line was no text. -/
  | garbled (fault : Text.Utf8Fault)
  deriving DecidableEq, Repr

/-- The text of a loss. The reader of lines has its own words for a line that is no text. -/
def Loss.message (loss : Loss) (wording : Text.Utf8Fault → String := fun _ => "") : String :=
  match loss with
  | .closedByServer => "server closed the connection"
  | .tornDown => "torn down"
  | .silent seconds => s!"no data for {seconds.toNat}s"
  | .unconnected reason => "connect failed: " ++ reason
  | .ungreeted reason => "sending connect: " ++ reason
  | .unread reason => "read failed: " ++ reason
  | .garbled fault => "read failed: " ++ wording fault

/-- What the viewer is told. -/
inductive Notice
  | connected
  | message (m : Message)
  | disconnected (loss : Loss)

/-- What the supervisor does to its surroundings. -/
inductive Effect
  | enter (phase : Phase)
  | tell (notice : Notice)
  | write (bytes : List UInt8)

/-- Where the supervisor stands: `greeting` until its first line is written, `waiting` between a
loss and the next attempt. -/
inductive Stage
  | connecting
  | greeting (inbox : Inbox)
  | reading (inbox : Inbox)
  | waiting
  | stopped

/-- What happens around the supervisor. -/
inductive Move
  /-- A request is put at the end of the line. -/
  | request (r : Request)
  /-- No further request can come. -/
  | hangUp
  | connect
  | failConnect (reason : String)
  | greet
  /-- Only so many bytes of the hello get through. -/
  | failGreet (sent : Nat) (reason : String)
  | arrive (bytes : List UInt8)
  /-- The server sends nothing more. -/
  | close
  | readLine
  | failRead (reason : String)
  /-- The transport is looked at, and has been silent for too long or not. -/
  | checkHealth (isSilent : Bool)
  /-- The first request is taken up. -/
  | obey
  | retry

/-- The connection's keeper, with the bytes of the hello that it sends, the silence that it bears,
and the requests that wait for it. -/
structure Supervisor where
  hello : List UInt8
  idleSeconds : UInt64
  stage : Stage := .connecting
  requests : List Request := []
  isHungUp : Bool := false

namespace Supervisor

/-- The supervisor of a viewer with this identity, before its first attempt. -/
def ofSettings (settings : ConnectionSettings) (uuid : String) : Supervisor :=
  { hello := (settings.hello uuid).line.toUTF8.toList, idleSeconds := settings.idleSeconds }

/-- Ends the transport, or the attempt at one. -/
def lose (s : Supervisor) (loss : Loss) : Supervisor × List Effect :=
  ({ s with stage := .waiting },
    [.enter .closing, .tell (.disconnected loss), .enter .reconnecting])

/-- The message of a line, if it has one; a line that is blank or no message is dropped. -/
def notices (line : String) : List Notice :=
  match Text.trim line with
  | "" => []
  | text =>
    match Message.parse text with
    | .error _ => []
    | .ok m => [.message m]

/-- Reads the next line. A line that is no text ends the transport. -/
def readLine (s : Supervisor) (inbox : Inbox) : Option (Supervisor × List Effect) :=
  match inbox.popLine? with
  | none => if inbox.isFinished then some (s.lose .closedByServer) else none
  | some (line, rest) =>
    match Text.ofBytes line with
    | .error fault => some (s.lose (.garbled fault))
    | .ok text => some ({ s with stage := .reading rest }, (notices text).map .tell)

/-- The first request and the others. Once all are taken and none can follow, the supervisor is to
stop. -/
def nextRequest? (s : Supervisor) : Option (Request × List Request) :=
  match s.requests with
  | r :: rest => some (r, rest)
  | [] => if s.isHungUp then some (.shutdown, []) else none

/-- Takes up the first request. While no transport is open there is nothing to tear down. -/
def obey (s : Supervisor) : Option (Supervisor × List Effect) := do
  let (r, rest) ← s.nextRequest?
  let s := { s with requests := rest }
  match s.stage, r with
  | .reading _, .teardown => some (s.lose .tornDown)
  | .reading _, .shutdown => some ({ s with stage := .stopped }, [.enter .closing])
  | .waiting, .teardown => some (s, [])
  | .waiting, .shutdown => some ({ s with stage := .stopped }, [])
  | _, _ => none

/-- What a move leads to, where it is possible. -/
def step (s : Supervisor) (move : Move) : Option (Supervisor × List Effect) :=
  match move, s.stage with
  | .request r, _ =>
    if s.isHungUp then none else some ({ s with requests := s.requests ++ [r] }, [])
  | .hangUp, _ => some ({ s with isHungUp := true }, [])
  | .connect, .connecting =>
    some ({ s with stage := .greeting {} }, [.enter .established, .tell .connected])
  | .failConnect reason, .connecting => some (s.lose (.unconnected reason))
  | .greet, .greeting inbox => some ({ s with stage := .reading inbox }, [.write s.hello])
  | .failGreet sent reason, .greeting _ =>
    let (s', effects) := s.lose (.ungreeted reason)
    some (s', .write (s.hello.take sent) :: effects)
  | .arrive bytes, .greeting inbox =>
    if inbox.isClosed then none else some ({ s with stage := .greeting (inbox.push bytes) }, [])
  | .arrive bytes, .reading inbox =>
    if inbox.isClosed then none else some ({ s with stage := .reading (inbox.push bytes) }, [])
  | .close, .greeting inbox => some ({ s with stage := .greeting inbox.close }, [])
  | .close, .reading inbox => some ({ s with stage := .reading inbox.close }, [])
  | .readLine, .reading inbox => s.readLine inbox
  | .failRead reason, .reading _ => some (s.lose (.unread reason))
  | .checkHealth isSilent, .reading _ =>
    some (if isSilent then s.lose (.silent s.idleSeconds) else (s, []))
  | .obey, .reading _ => s.obey
  | .obey, .waiting => s.obey
  | .retry, .waiting => some ({ s with stage := .connecting }, [.enter .connecting])
  | _, _ => none

/-- What moves lead to one after the other, with all that is done on the way. -/
def run (s : Supervisor) : List Move → Option (Supervisor × List Effect)
  | [] => some (s, [])
  | move :: moves => do
    let (t, effects) ← s.step move
    let (u, more) ← t.run moves
    return (u, effects ++ more)

end Supervisor

end TileViewer
