import NamedFunctions.Packet.Wire
import NamedFunctions.Relay

/-!
# The data directory

Files of encoded data, which go into the content store for good when a daemon starts. Hidden files,
what is no file, and files that hold no data are passed over.
-/

namespace NamedFunctions

/-- What stands in a directory. `nfnd/src/prepopulate:18–34`. -/
structure DirectoryEntry where
  name : String
  /-- What a file holds; none if it is no file. -/
  contents : Option Bytes
deriving Repr

namespace DirectoryEntry

/-- Whether a name starts with a dot. `nfnd/src/prepopulate:19–22`. -/
def isHidden (e : DirectoryEntry) : Bool := e.name.toList.head? == some '.'

/-- The data that a file holds. `nfnd/src/prepopulate:20–50`. -/
def content? (format : WireFormat) (e : DirectoryEntry) : Option Content :=
  match e.contents with
  | none => none
  | some bytes =>
    if e.isHidden || bytes.length < 2 then none
    else
      match format.decode bytes with
      | .ok (.content content) => some content
      | _ => none

end DirectoryEntry

/-- Put data into the content store for good; how much of it was taken. `nfnd/src/prepopulate:52–59`. -/
def Relay.cacheAll (r : Relay) : List Content → Nat × Relay
  | [] => (0, r)
  | content :: rest =>
    match r.cacheContent content true with
    | (.ok _, r) =>
      let (n, r) := r.cacheAll rest
      (n + 1, r)
    | (.error _, r) => r.cacheAll rest

/-- Put the data of a directory into the content store for good; how much of it was taken.
`nfnd/src/prepopulate:8–64`. -/
def Relay.loadDirectory (r : Relay) (format : WireFormat) (listing : List DirectoryEntry) :
    Nat × Relay :=
  r.cacheAll (listing.filterMap (·.content? format))

end NamedFunctions
