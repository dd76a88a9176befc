import Artbox.Lib.Bytes
import Artbox.Lib.Require
import Mathlib.Data.Nat.Bitwise

/-!
# The text of a packed ELF

`tools/pack_elf.py`, from the image on that `parse_elf` returns. `inspectText` goes over the words of
the text and lists its supervisor calls, `transformed` appends a `veneer` for each of them and puts a
branch to it in its place. Words are unbounded numbers, as the source has them; what may be negative
is an `Int`.
-/

namespace Artbox.Pack

open Bytes Require

/-- What `main` reports: a `ValueError` with its text, or a `struct.error`. -/
inductive Failure where
  | value (message : String)
  | struct
deriving DecidableEq, Repr

/-- `align`. With `-alignment` everything but the bits of `alignment - 1` is kept. -/
def align (value alignment : Nat) : Nat := Nat.ldiff (value + alignment - 1) (alignment - 1)

/-- `signed` -/
def signed (value bits : Nat) : Int := ((value ^^^ 1 <<< (bits - 1) : Nat) : Int) - (1 <<< (bits - 1) : Nat)

/-- `struct.unpack_from` of one word. A negative offset counts from the end. -/
def unpackWord (image : List UInt8) (offset : Int) : Except Failure Nat := do
  let start := if offset < 0 then offset + image.length else offset
  require (0 ≤ start ∧ start + 4 ≤ image.length) .struct
  return field image start.toNat 4

/-- `struct.pack_into` of one word. -/
def packWord (payload : List UInt8) (offset word : Nat) : Except Failure (List UInt8) := do
  require (offset + 4 ≤ payload.length ∧ word < 2 ^ 32) .struct
  return splice payload offset (writeLE 4 word)

/-- `struct.pack` of some words. -/
def packWords (words : List Nat) : Except Failure (List UInt8) := do
  require (∀ word ∈ words, word < 2 ^ 32) .struct
  return words.flatMap (writeLE 4)

/-! ## `inspect_text` -/

/-- `registers` and `target` of a word. -/
structure Operands where
  registers : List Nat := []
  target : Option Int := none
deriving DecidableEq, Repr

/-- The format of a number in hexadecimal, with leading zeros. -/
def hex (width n : Nat) : String :=
  let digits := Nat.toDigits 16 n
  String.ofList (List.replicate (width - digits.length) '0' ++ digits)

/-- The branches for a word that is no supervisor call. -/
def operands (image : List UInt8) (pc word : Nat) : Except Failure Operands := do
  if word = 0xd503201f then return {}
  else if word &&& 0xff800000 = 0xd2800000 ∨ word &&& 0xff800000 = 0x92800000 then
    return { registers := [word &&& 31] }
  else if word &&& 0xffe0ffe0 = 0xaa0003e0 then return { registers := [word &&& 31, word >>> 16 &&& 31] }
  else if word &&& 0xffc0001f = 0xf100001f then return { registers := [word >>> 5 &&& 31] }
  else if word &&& 0xffe0fc1f = 0xeb00001f then return { registers := [word >>> 5 &&& 31, word >>> 16 &&& 31] }
  else if word &&& 0x9f000000 = 0x10000000 then
    let immediate := (word >>> 5 &&& 0x7ffff) <<< 2 ||| (word >>> 29 &&& 3)
    require (0 ≤ pc + signed immediate 21 ∧ pc + signed immediate 21 < image.length) (.value "ADR escapes image")
    return { registers := [word &&& 31] }
  else if word &&& 0xfc000000 = 0x14000000 then return { target := some (pc + signed (word &&& 0x3ffffff) 26 * 4) }
  else if word &&& 0xff000010 = 0x54000000 then
    return { target := some (pc + signed (word >>> 5 &&& 0x7ffff) 19 * 4) }
  else if word &&& 0x7e000000 = 0x34000000 then
    return { registers := [word &&& 31], target := some (pc + signed (word >>> 5 &&& 0x7ffff) 19 * 4) }
  else if word &&& 0xffc00000 = 0xf9400000 ∨ word &&& 0xffc00000 = 0xf9000000 then
    return { registers := [word &&& 31, word >>> 5 &&& 31] }
  else .error (.value s!"unsupported instruction 0x{hex 8 word} at +0x{hex 1 pc}")

/-- The body of the loop over the words. -/
def inspectWord (image : List UInt8) (textSize : Nat) (sites : List Nat) (pc : Nat) : Except Failure (List Nat) := do
  let word ← unpackWord image pc
  -- the two checks ask nothing of a supervisor call
  if word = 0xd4000001 then return sites ++ [pc]
  else
    let o ← operands image pc word
    require (∀ r ∈ o.registers, r ≠ 18 ∧ r ≠ 27 ∧ r ≠ 28) (.value "input uses a reserved host/bridge register")
    require (∀ target ∈ o.target, 0 ≤ target ∧ target < textSize) (.value "branch escapes text")
    return sites

/-- `inspect_text` -/
def inspectText (image : List UInt8) (textSize : Nat) : Except Failure (List Nat) := do
  let last ← unpackWord image ((textSize : Int) - 4)
  require (last &&& 0xfc000000 = 0x14000000)
    (.value "text must end in an unconditional branch, with no fallthrough into constants")
  let sites ← (List.range ((textSize + 3) / 4)).foldlM (fun sites k => inspectWord image textSize sites (4 * k)) []
  require (sites ≠ []) (.value "input has no Linux SVC sites")
  return sites

/-! ## `transformed` -/

/-- `branch` -/
def branch (source target : Nat) : Except Failure Nat := do
  let distance := (target : Int) - source
  require (distance % 4 = 0 ∧ -2 ^ 27 ≤ distance ∧ distance < 2 ^ 27) (.value "veneer out of branch range")
  -- `& 0x3ffffff` is the remainder, also of a negative number
  return 0x14000000 ||| (distance / 4 % 0x4000000).toNat

/-- `pairs` -/
def pairs : List (Nat × Nat) := (List.range' 1 8 2).map (fun reg => (reg, reg + 1)) ++ [(17, 30)]

/-- The words that save the pairs: STP, the first one moving the stack pointer. -/
def saves : List Nat :=
  pairs.zipIdx.map fun ((first, second), index) =>
    let base := if index = 0 then 0xa9800000 else 0xa9000000
    let immediate := if index = 0 then (-160 / 8 % 128 : Int).toNat else index * 2
    base ||| immediate <<< 15 ||| second <<< 10 ||| 31 <<< 5 ||| first

/-- Where the arguments come from. -/
def arguments : List (Nat × Nat) := [(7, 5), (6, 4), (5, 3), (4, 2), (3, 1), (2, 0), (1, 8), (0, 27)]

/-- The words that move the arguments. -/
def moves : List Nat := arguments.map fun (destination, source) => 0xaa0003e0 ||| source <<< 16 ||| destination

/-- The words that restore the pairs but for the first one. -/
def restores : List Nat :=
  pairs.zipIdx.tail.map fun ((first, second), index) =>
    0xa9400000 ||| (index * 2) <<< 15 ||| second <<< 10 ||| 31 <<< 5 ||| first

/-- The words of a veneer before its last branch. -/
def veneerWords : List Nat :=
  saves ++ [0xd53b4209, 0xf9004be9] ++ moves ++ [0xd63f0380, 0xf9404be9, 0xd51b4209] ++ restores ++
    [0xa8c00000 ||| 20 <<< 15 ||| 2 <<< 10 ||| 31 <<< 5 ||| 1]

/-- `veneer` -/
def veneer (address resume : Nat) : Except Failure (List UInt8) := do
  let back ← branch (address + veneerWords.length * 4) resume
  let words := veneerWords ++ [back]
  require (words.length = 32) (.value "internal veneer frame size mismatch")
  packWords words

/-- The body of the loop over the sites. -/
def addVeneer (payload : List UInt8) (site : Nat) : Except Failure (List UInt8) := do
  let address := payload.length
  let code ← veneer address (site + 4)
  let jump ← branch site address
  packWord (payload ++ code) site jump

/-- `transformed` -/
def transformed (image : List UInt8) (textSize : Nat) : Except Failure (List UInt8 × List Nat) := do
  let sites ← inspectText image textSize
  let payload ← sites.foldlM addVeneer (image ++ List.replicate (align image.length 4 - image.length) 0)
  return (payload, sites)

end Artbox.Pack
