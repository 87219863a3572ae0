/-!
# Suites

The families of wire formats that a name or packet can belong to, and their words.
-/

namespace NamedFunctions

/-- A family of wire formats. Names of different suites never match each other. `nfn-core/src/name:11–25`. -/
inductive Suite where
  | ccnb
  | ccnx2014
  | iot2014
  | ndn2013
  | localRpc
deriving DecidableEq, Repr, Hashable

namespace Suite

/-- The suite of a name for which none is given. -/
instance : Inhabited Suite := ⟨.ndn2013⟩

/-- The word by which a suite is shown. `nfn-core/src/name:28–36`. -/
def toString : Suite → String
  | ccnb => "ccnb"
  | ccnx2014 => "ccnx2014"
  | iot2014 => "iot2014"
  | ndn2013 => "ndn2013"
  | localRpc => "localrpc"

/-- A suite is shown by its name. -/
instance : ToString Suite := ⟨toString⟩

/-- Every suite. -/
def all : List Suite := [ccnb, ccnx2014, iot2014, ndn2013, localRpc]

/-- The suite of a word by which suites are shown. `nfn-core/src/name:11–25`. -/
def ofString? (word : String) : Option Suite := all.find? fun suite => suite.toString == word

/-- The suite that a user names, who may also say `ccntlv`, `iottlv` or `ndntlv`.
`nfn-core/src/name:48–57`. -/
def ofWord? : String → Option Suite
  | "ccntlv" => some ccnx2014
  | "iottlv" => some iot2014
  | "ndntlv" => some ndn2013
  | word => ofString? word

/-- A suite's own word names it. -/
theorem ofString?_toString (suite : Suite) : ofString? suite.toString = some suite := by
  cases suite <;> decide

end Suite

end NamedFunctions
