import NamedFunctions.Name.Uri
import NamedFunctions.Peer.SocketAddress

/-!
# Peers

Whom a relay exchanges packets with: a socket address, or the path of a local socket. Paths are
compared by what they lead through, so doubled slashes, a slash at the end and dots that stay in
place make no difference.
-/

namespace NamedFunctions

/-- The address of a peer. `nfn-relay/src/face:22–28`. -/
inductive Peer where
  | udp (address : SocketAddress)
  | unix (path : String)
deriving Repr

/-- What a path leads through: whether it starts at the root, and its parts. A dot counts only at
the start of a path that does not. -/
def pathParts (path : String) : Bool × List (List Char) :=
  let rooted := path.toList.head? == some '/'
  let parts := (Uri.segments path.toList).filter fun part => !part.isEmpty
  match rooted, parts with
  | false, ['.'] :: rest => (false, ['.'] :: rest.filter (· != ['.']))
  | _, parts => (rooted, parts.filter (· != ['.']))

namespace Peer

/-- Whether two addresses are the same peer. -/
def same : Peer → Peer → Bool
  | udp a, udp b => a == b
  | unix a, unix b => pathParts a == pathParts b
  | _, _ => false

/-- A peer as it is shown. `nfn-relay/src/face:30–37`. -/
def toString : Peer → String
  | udp address => "udp:" ++ address.toString
  | unix path => "unix:" ++ path

/-- The peer that is shown as a text. -/
def ofString? (text : String) : Option Peer :=
  match text.toList with
  | 'u' :: 'd' :: 'p' :: ':' :: address => (SocketAddress.ofString? (String.ofList address)).map udp
  | 'u' :: 'n' :: 'i' :: 'x' :: ':' :: path => some (unix (String.ofList path))
  | _ => none

end Peer

end NamedFunctions
