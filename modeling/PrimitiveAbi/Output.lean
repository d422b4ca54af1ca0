/-!
# Text output

A text is written by write calls on a device, followed by one flush, and failures are passed over.
The device answers writes from one script and flushes from another; behind the scripts it accepts
everything, and its flushes all succeed or all fail. A buffer is offered again, less what was
accepted, until all of it is accepted; an interrupted call is repeated, and a call that fails or
accepts nothing gives the buffer up.
-/

namespace PrimitiveAbi.Output

/-- The bytes of a string in memory: those before the first NUL, and none for a null pointer. -/
def cstring : Option (List UInt8) → List UInt8
  | none => []
  | some bytes => bytes.takeWhile (· ≠ 0)

/-- How a device will answer a write call. -/
inductive Answer where
  /-- At most this many bytes are accepted. -/
  | accepts (limit : Nat)
  | fails
  | interrupted
  deriving DecidableEq, Repr

/-- How a device has answered a write call. -/
inductive Reply where
  | accepted (count : Nat)
  | failed
  | interrupted
  deriving DecidableEq, Repr

/-- One call on the device. -/
inductive Action where
  | write (offered : List UInt8) (reply : Reply)
  | flush (ok : Bool)
  deriving DecidableEq, Repr

/-- A device, by its answers to the calls to come. -/
structure Device where
  script : List Answer := []
  /-- Whether each of the next flushes succeeds. -/
  flushes : List Bool := []
  /-- Whether the flushes behind those fail. -/
  flushFails : Bool := false
  deriving DecidableEq, Repr

/-- Whether the flush with this number succeeds, where the next one is number 0. -/
def Device.flushed (d : Device) (n : Nat) : Bool := d.flushes.getD n !d.flushFails

/-- What came of some calls: the calls, the bytes accepted, and the script that is left. -/
structure Transfer where
  actions : List Action
  sent : List UInt8
  script : List Answer
  deriving DecidableEq, Repr

/-- One more write call in front of a transfer. -/
def Transfer.after (t : Transfer) (offered : List UInt8) (reply : Reply) (sent : List UInt8) :
    Transfer :=
  { t with actions := .write offered reply :: t.actions, sent := sent ++ t.sent }

/-- Offers a buffer until all of it is accepted or a call gives it up. -/
def writeAll : List Answer → List UInt8 → Transfer
  | script, [] => ⟨[], [], script⟩
  | [], buffer => ⟨[.write buffer (.accepted buffer.length)], buffer, []⟩
  | .fails :: script, buffer => ⟨[.write buffer .failed], [], script⟩
  | .interrupted :: script, buffer =>
      (writeAll script buffer).after buffer .interrupted []
  | .accepts limit :: script, buffer =>
      let count := min limit buffer.length
      if count = 0 then ⟨[.write buffer (.accepted 0)], [], script⟩
      else (writeAll script (buffer.drop count)).after buffer (.accepted count) (buffer.take count)

/-- A call for text output. -/
inductive Request where
  | text (bytes : List UInt8)
  | line (bytes : List UInt8)
  | newline
  deriving DecidableEq, Repr

/-- The line feed. -/
def lineFeed : List UInt8 := [10]

/-- The buffers that a request offers, in order. -/
def Request.buffers : Request → List (List UInt8)
  | .text bytes => [bytes]
  | .line bytes => [bytes, lineFeed]
  | .newline => [lineFeed]

/-- The bytes that a request puts out where nothing fails. -/
def Request.bytes (r : Request) : List UInt8 := r.buffers.flatten

/-- Offers buffers one after another, each whether or not the one before was accepted. -/
def writeEach : List Answer → List (List UInt8) → Transfer
  | script, [] => ⟨[], [], script⟩
  | script, buffer :: rest =>
      let first := writeAll script buffer
      let others := writeEach first.script rest
      ⟨first.actions ++ others.actions, first.sent ++ others.sent, others.script⟩

/-- Serves a request: its buffers, then one flush. -/
def Device.serve (d : Device) (r : Request) : Transfer × Device :=
  let t := writeEach d.script r.buffers
  ({ t with actions := t.actions ++ [.flush (d.flushed 0)] },
    { d with script := t.script, flushes := d.flushes.tail })

/-- Serves requests in order; each comes with its calls and all the bytes accepted so far. -/
def Device.serveAll (d : Device) (before : List UInt8) :
    List Request → List (List Action × List UInt8)
  | [] => []
  | r :: rest =>
      let (t, d') := d.serve r
      (t.actions, before ++ t.sent) :: d'.serveAll (before ++ t.sent) rest

end PrimitiveAbi.Output
