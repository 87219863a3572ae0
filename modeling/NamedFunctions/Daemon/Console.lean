import NamedFunctions.Daemon
import NamedFunctions.Text.Octets

/-!
# Daemons that are driven by lines of text

A daemon whose sockets and clock are held elsewhere. What happens to it is told in lines, and it
answers with a line for each datagram that it sends, and with one for the instant at which it has to
be woken. Octets are hexadecimal digits, instants are in microseconds, and what may hold blanks stands
at the end. The loop is the one of `nfnd/src/daemon:102–138`.

    file OCTETS NAME                       a file of the data directory, told before the start
    start
    datagram INSTANT SOCKET OCTETS PEER    a datagram that has arrived
    tick INSTANT
    wakeup INSTANT
    stop
-/

namespace NamedFunctions

/-- What a line tells a daemon. -/
inductive Instruction where
  /-- What a file of the data directory holds. -/
  | file (entry : DirectoryEntry)
  | start
  /-- Something has happened at an instant. -/
  | event (now : Nat) (event : Daemon.Event)
  | stop

namespace Instruction

/-- The instruction that a line spells. -/
def ofLine? (line : String) : Option Instruction :=
  let number (text : String) := Text.numeral? 10 text.toList
  let rest (words : List String) := " ".intercalate words
  match line.splitOn " " with
  | ["start"] => some start
  | ["stop"] => some stop
  | ["tick", now] => (number now).map (event · .tick)
  | ["wakeup", now] => (number now).map (event · .wakeup)
  | "file" :: octets :: name => do
    return file ⟨rest name, some (← Bytes.ofHex? octets)⟩
  | "datagram" :: now :: socket :: octets :: peer => do
    return event (← number now)
      (.datagram (← number socket) (← Peer.ofString? (rest peer)) (← Bytes.ofHex? octets))
  | _ => none

end Instruction

/-- The line for a datagram that is sent. -/
def Transmission.toLine (t : Transmission) : String :=
  " ".intercalate
    ["datagram", toString t.interface, t.datagram.bytes.toHex, t.datagram.peer.toString]

/-- A daemon with the files of its data directory. -/
structure Console where
  daemon : Daemon
  files : List DirectoryEntry := []

namespace Console

/-- Carry out an instruction. Returns the lines that answer it. -/
def carryOut (c : Console) : Instruction → Except StartError (List String × Console)
  | .file entry => .ok ([], { c with files := c.files ++ [entry] })
  | .start =>
    match c.daemon.start (some c.files) with
    | (.ok (), daemon) => .ok ([], { c with daemon })
    | (.error error, _) => .error error
  | .event now event =>
    let (sent, daemon) := c.daemon.handle now event
    let wakeup := daemon.nextWakeup.map fun later => "wakeup " ++ toString later
    .ok (sent.map (·.toLine) ++ wakeup.toList, { c with daemon })
  | .stop => .ok ([], { c with daemon := c.daemon.stop })

end Console

end NamedFunctions
