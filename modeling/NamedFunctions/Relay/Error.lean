import NamedFunctions.Face
import NamedFunctions.Machine
import NamedFunctions.Relay.Config

/-!
# What a relay refuses
-/

namespace NamedFunctions

/-- Why a relay does not do what it is asked. `nfn-relay/src/error:6–25`. -/
inductive RelayError where
  /-- A name cannot be read. -/
  | invalidName (error : NameError)
  /-- The content store is full of static entries. -/
  | resourceExhausted
  /-- The Interest has come back in a loop. -/
  | duplicateNonce (nonce : UInt32)
  /-- There is no way for the Interest. -/
  | noRoute (name : String)
  /-- The computation fails. -/
  | computation (error : ComputationError)
  /-- No face has this number. -/
  | unknownFace (id : FaceId)
  /-- This setting may not be zero. -/
  | invalidConfig (setting : PositiveSetting)
deriving DecidableEq, Repr

/-- The text of an error. `nfn-relay/src/error:9–24`. -/
def RelayError.message : RelayError → String
  | invalidName error => "invalid name: " ++ error.message
  | resourceExhausted => "content store is full and holds only static entries"
  | duplicateNonce nonce => "duplicate nonce " ++ Text.hexWord nonce
  | noRoute name => "no route for " ++ name
  | computation error => "computation failed: " ++ error.message
  | unknownFace id => "unknown face " ++ id.toString
  | invalidConfig setting => "invalid configuration: " ++ setting.word ++ " must be at least 1"

/-- The texts of an error and of what caused it, the outermost first. `nfn-relay/src/error:9–24`. -/
def RelayError.chain : RelayError → List String
  | invalidName error => [(invalidName error).message, error.message]
  | computation error => [(computation error).message, error.message]
  | error => [error.message]

end NamedFunctions
