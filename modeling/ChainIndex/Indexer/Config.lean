import ChainIndex.Ledger.Tx
import ChainIndex.Chain.Basic

/-!
# Configuration of the indexer

* `AddressCheck`: on which sides of a transaction addresses are looked for.
* `IndexerConfig`: what the indexer follows and keeps. `IndexerConfig.validate` names the first thing
  wrong with it.
* `IndexerConfig.isRelevant` says which transactions are followed, `IndexerConfig.keepsAddress` which
  outputs go to the store.
-/

namespace ChainIndex

/-- The sides of a transaction on which addresses are looked for: bit 0 for inputs, bit 1 for outputs. -/
structure AddressCheck where
  bits : UInt8
deriving DecidableEq, Inhabited

namespace AddressCheck

/-- Both sides. -/
def both : AddressCheck := ⟨3⟩

/-- Whether a transaction that spends from a watched address is relevant. -/
def inputs (c : AddressCheck) : Bool := c.bits &&& 1 != 0

/-- Whether a transaction that pays to a watched address is relevant. -/
def outputs (c : AddressCheck) : Bool := c.bits &&& 2 != 0

end AddressCheck

/-- What the indexer follows and keeps. -/
structure IndexerConfig where
  /-- Where to begin when nothing has been confirmed. -/
  startingPoint : Option Point := none
  /-- How many successors a block needs before it is confirmed. -/
  confirmationDepth : UInt32 := 10
  /-- The addresses to follow; without any, every transaction is followed. -/
  addressesOfInterest : List String := []
  addressCheck : AddressCheck := .both
  /-- Keep the outputs of all transactions. -/
  keepAllOutputs : Bool := false
  /-- Keep the hashes of all transactions in the record of their block. -/
  keepAllHashes : Bool := false
  /-- Keep spent outputs, marked as used. -/
  softDelete : Bool := false
  /-- How many events may wait for the indexer. -/
  queueSize : UInt64 := 64
deriving DecidableEq, Inhabited

/-- What is wrong with a configuration. -/
inductive ConfigFault where
  | noSideSelected
  | unknownBits (bits : UInt8)
  | zeroDepth
  | zeroQueue
  /-- The configuration cannot be read. -/
  | unreadable (text : String)
deriving DecidableEq, Repr

/-- The text shown for a fault; bits are shown in binary, at least two of them. -/
def ConfigFault.message : ConfigFault → String
  | noSideSelected => "address-check must select inputs, outputs or both"
  | unknownBits bits =>
    let digits := Nat.toDigits 2 bits.toNat
    "address-check has unknown bits set: 0b" ++
      String.ofList (List.replicate (2 - digits.length) '0' ++ digits)
  | zeroDepth => "confirmation-depth must be at least 1"
  | zeroQueue => "queue-size must be at least 1"
  | unreadable text => text

namespace IndexerConfig

/-- The first fault of a configuration. -/
def fault? (c : IndexerConfig) : Option ConfigFault :=
  if c.addressCheck.bits &&& 3 = 0 then some .noSideSelected
  else if c.addressCheck.bits &&& 0xfc ≠ 0 then some (.unknownBits c.addressCheck.bits)
  else if c.confirmationDepth = 0 then some .zeroDepth
  else if c.queueSize = 0 then some .zeroQueue
  else none

/-- Whether only transactions of some addresses are followed. -/
def filtersAddresses (c : IndexerConfig) : Bool := !c.addressesOfInterest.isEmpty

/-- Whether an address is one of those followed. -/
def isOfInterest (c : IndexerConfig) (address : String) : Bool :=
  c.addressesOfInterest.contains address

/-- Whether a transaction, its inputs looked up, is followed. -/
def isRelevant (c : IndexerConfig) (tx : Tx) : Bool :=
  !c.filtersAddresses ||
    (c.addressCheck.inputs && tx.inputs.any fun io => c.isOfInterest io.output.address) ||
    (c.addressCheck.outputs && tx.outputs.any fun o => c.isOfInterest o.address)

/-- Whether outputs to an address are kept in the store. -/
def keepsAddress (c : IndexerConfig) (address : String) : Bool :=
  c.keepAllOutputs || !c.filtersAddresses || c.isOfInterest address

end IndexerConfig

end ChainIndex
