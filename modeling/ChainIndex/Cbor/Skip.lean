import ChainIndex.Cbor.Reader

/-!
# Skipping CBOR items

* `Reader.skip`: passes over one item of any kind, nested to any depth.

The items still to pass are counted in `Pending`. As long as no indefinite container stands among
further items of a definite one, two numbers do: the items of definite containers that remain, and the
indefinite containers that are open. The first indefinite container with siblings behind it moves the
count to a stack of open containers, innermost first. A break where no container is open passes for an
item.
-/

namespace ChainIndex.Cbor

/-- What remains to be skipped. `open?` frames are innermost first: the items that remain in a
definite container, or none for an indefinite one. -/
structure Pending where
  items : Nat
  breaks : Nat
  frames : List (Option Nat)

namespace Pending

/-- One item remains. -/
def one : Pending := ⟨1, 0, []⟩

/-- Whether nothing remains. -/
def isDone (p : Pending) : Bool := p.items == 0 && p.breaks == 0 && p.frames.isEmpty

/-- Whether the frames are in charge rather than the two counts. -/
def usesFrames (p : Pending) : Bool := p.items == 0 && p.breaks == 0

/-- A definite container of `count` items opens. -/
def openDefinite (count : Nat) (p : Pending) : Pending :=
  if p.usesFrames then { p with frames := some count :: p.frames }
  else { p with items := p.items + count }

/-- An indefinite container opens. -/
def openIndefinite (p : Pending) : Pending :=
  if p.usesFrames then { p with frames := none :: p.frames }
  else if p.items < 2 then { p with breaks := p.breaks + 1 }
  else ⟨0, 0, none :: some (p.items - 1) :: (List.replicate p.breaks none ++ p.frames)⟩

/-- A break was met. -/
def close (p : Pending) : Pending :=
  if p.usesFrames then
    match p.frames with
    | none :: frames => { p with frames }
    | _ => p
  else { p with breaks := p.breaks - 1 }

/-- Counts one item of the innermost container that still has some. -/
def countFrame : List (Option Nat) → List (Option Nat)
  | some 0 :: frames => countFrame frames
  | some (n + 1) :: frames => some n :: frames
  | none :: frames => none :: frames
  | [] => []

/-- An item ended. -/
def count (p : Pending) : Pending :=
  if p.usesFrames then { p with frames := countFrame p.frames }
  else { p with items := p.items - 1 }

end Pending

namespace Reader

/-- The chunks of a string up to the break. -/
def chunks (kind : Major) (check : Bytes → Reader Unit) : Reader Unit := do
  let input ← get
  foldUntilBreak (pure ()) (fun _ => do check (← definiteString kind)) (input.length + 1) ()

/-- Passes a string whose head was taken, definite or in chunks. -/
def skipString (kind : Major) (check : Bytes → Reader Unit) (head : UInt8) : Reader Unit := do
  if info head = 31 then chunks kind check
  else check (← take (← argument (info head)))

/-- Passes one head and what belongs to it. -/
def skipStep (p : Pending) : Reader Pending := do
  let head ← byte
  match Major.ofHead head with
  | .unsigned =>
    if info head < 28 then let _ ← argument (info head) else mismatch head (kindName .unsigned)
    return p.count
  | .negative =>
    if info head < 28 then let _ ← argument (info head) else mismatch head (kindName .negative)
    return p.count
  | .bytes =>
    skipString .bytes (fun _ => return ()) head
    return p.count
  | .text =>
    skipString .text (fun bytes => do let _ ← utf8 bytes) head
    return p.count
  | .array =>
    if info head = 31 then return p.openIndefinite.count
    return (p.openDefinite (← argument (info head))).count
  | .map =>
    if info head = 31 then return p.openIndefinite.count
    return (p.openDefinite (2 * (← argument (info head)))).count
  | .tag =>
    let _ ← argument (info head)
    return p
  | .simple =>
    if head = breakHead then return p.close.count
    let _ ← argument (info head)
    return p.count

/-- Passes heads until nothing remains; each takes an octet, so `fuel` octets bound the steps. -/
def skipPending : Nat → Pending → Reader Unit
  | 0, p => if p.isDone then return () else throw .endOfInput
  | fuel + 1, p => do
    if p.isDone then return ()
    skipPending fuel (← skipStep p)

/-- Passes one item. -/
def skip : Reader Unit := do
  skipPending ((← get).length + 1) .one

end Reader

end ChainIndex.Cbor
