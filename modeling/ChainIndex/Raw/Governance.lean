import ChainIndex.Raw.Form

/-!
# Parameters, certificates and governance

* `Shape.parameterUpdate`: a change of some protocol parameters, each under its number. `Shape.update`: the
  changes that genesis keys propose for an epoch.
* `Shape.certificate`: registrations of keys and pools, delegations, and since Conway those of
  representatives and the committee.
* `Shape.votes`: votes by voter and by action voted on. `Shape.proposal`: an action proposed for a vote.
-/

namespace ChainIndex.Raw.Shape

open Cbor

/-! ## Protocol parameters -/

/-- The costs of the operations of a script language. -/
def costModel : Cbor.Shape := .array (.int64 true)

/-- Cost models by script language: a map of those of one language, then fields for more and more of them. -/
def costModels : Form → Cbor.Shape
  | .shelley => .map (.caseNumber 1) costModel
  | .babbage => .numbered [(0, costModel), (1, costModel)]
  | .conway => .numbered [(0, costModel), (1, costModel), (2, costModel)]

/-- A neutral nonce, or one with a hash. -/
def nonce : Cbor.Shape := .recordWith [.caseNumber 2] [hash]

/-- The parameters that every form knows; plain numbers are as wide as `number`. -/
def commonParameters (form : Form) (number : Cbor.Shape) : List (Nat × Cbor.Shape) :=
  [(0, number), (1, number), (2, number), (3, number), (4, number), (5, .uint64), (6, .uint64),
    (7, .uint64), (8, number), (9, rational), (10, rational), (11, rational), (16, .uint64),
    (17, .uint64), (18, costModels form), (19, .record [rational, rational]), (20, executionUnits),
    (21, executionUnits), (22, number), (23, number), (24, number)]

/-- Fractions in an array whose announced length is not looked at. -/
def rationals (count : Nat) : Cbor.Shape := .headed (List.replicate count rational)

/-- The parameters of a form. -/
def parameters : Form → List (Nat × Cbor.Shape)
  | .shelley =>
    commonParameters .shelley .uint32 ++
      [(12, rational), (13, nonce), (14, protocolVersion)]
  | .babbage => commonParameters .babbage .uint32 ++ [(14, protocolVersion)]
  | .conway =>
    commonParameters .conway .uint64 ++
      [(25, rationals 5), (26, rationals 10), (27, .uint64), (28, .uint64), (29, .uint64),
        (30, .uint64), (31, .uint64), (32, .uint64), (33, rational)]

/-- New values of some of the parameters. -/
def parameterUpdate (form : Form) : Cbor.Shape := .numbered (parameters form)

/-- The new values that each genesis key proposes, and the epoch in which they take effect. -/
def update (form : Form) : Cbor.Shape :=
  .record [.map .bytes (parameterUpdate form), .uint64]

/-! ## Certificates -/

/-- Where something is described: an address on the web and the hash of what stands there. -/
def anchor : Cbor.Shape := .headed [.text, hash]

/-- How a pool can be reached: by address, by name, or by a name of several hosts. -/
def relay : Cbor.Shape :=
  .variant [
    (0, [.nullable .uint32, .nullable .bytes, .nullable .bytes]),
    (1, [.nullable .uint32, .text]),
    (2, [.text])]

/-- Who votes for a stake holder. -/
def representative : Cbor.Shape := .variant [(0, [keyHash]), (1, [keyHash]), (2, []), (3, [])]

/-- The parts of the registration of a pool. -/
def pool (form : Form) : List Cbor.Shape :=
  [keyHash, hash, .uint64, .uint64, rational, .bytes, .of (form.collection keyHash),
    .array relay, .nullable (.record [.text, hash])]

/-- Rewards paid from the reserves or the treasury: to stake holders, or to the other pot. -/
def instantRewards : Cbor.Shape := do
  match ← Reader.nextKind with
  | .map => Cbor.Shape.map credential (.int64 true)
  | _ => Cbor.Shape.uint64

/-- The certificates that every form knows. -/
def commonCertificates (form : Form) : List (Nat × List Cbor.Shape) :=
  [(0, [credential]), (1, [credential]), (2, [credential, keyHash]), (3, pool form),
    (4, [keyHash, .uint64])]

/-- The certificates of a form. -/
def certificates : Form → List (Nat × List Cbor.Shape)
  | .conway =>
    commonCertificates .conway ++
      [(7, [credential, .uint64]),
        (8, [credential, .uint64]),
        (9, [credential, representative]),
        (10, [credential, keyHash, representative]),
        (11, [credential, keyHash, .uint64]),
        (12, [credential, representative, .uint64]),
        (13, [credential, keyHash, representative, .uint64]),
        (14, [credential, credential]),
        (15, [credential, .nullable anchor]),
        (16, [credential, .uint64, .nullable anchor]),
        (17, [credential, .uint64]),
        (18, [credential, .nullable anchor])]
  | form =>
    commonCertificates form ++
      [(5, [.bytes, .bytes, hash]), (6, [.headed [.below 2, instantRewards]])]

/-- One certificate. -/
def certificate (form : Form) : Cbor.Shape := .variant (certificates form)

/-! ## Governance -/

/-- The action that a transaction proposed at an index. -/
def actionId : Cbor.Shape := .headed [hash, .uint32]

/-- A committee member, a representative or a pool. -/
def voter : Cbor.Shape :=
  .variant [(0, [keyHash]), (1, [keyHash]), (2, [keyHash]), (3, [keyHash]), (4, [keyHash])]

/-- Votes by voter and by action voted on. -/
def votes : Cbor.Shape :=
  .map voter (.map actionId (.headed [.below 3, .nullable anchor]))

/-- What is to be done: change parameters, fork, pay from the treasury, dismiss the committee, renew it,
replace the constitution, or nothing. -/
def action : Cbor.Shape :=
  .variant [
    (0, [.nullable actionId, parameterUpdate .conway, .nullable keyHash]),
    (1, [.nullable actionId, protocolVersion]),
    (2, [.map .bytes .uint64, .nullable keyHash]),
    (3, [.nullable actionId]),
    (4, [.nullable actionId, .set credential, .map credential .uint64, rational]),
    (5, [.nullable actionId, .headed [anchor, .nullable keyHash]]),
    (6, [])]

/-- An action with its deposit, the account it is paid back to, and its description. -/
def proposal : Cbor.Shape := .headed [.uint64, .bytes, action, anchor]

end ChainIndex.Raw.Shape
