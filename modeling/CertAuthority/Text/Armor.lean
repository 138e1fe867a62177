import CertAuthority.Bytes.Base64
import CertAuthority.Text.Basic

/-!
# Armored blocks

Binary data as base64 between a `BEGIN` and an `END` line that carry the same label.

* `Armor.encode` : lines of 64 signs;
* `Armor.first?`, `Armor.all?` : the first block of a text, or all of them. Text around the blocks
  is skipped; headers may stand before a blank line; `all?` refuses the text if a block is broken;
* `StrictArmor` : a stricter form, in which OpenSSH stores private keys. Every line but the last has
  the same width, the text ends with the closing line, and no header is allowed. Text before the
  first line is skipped. A line may end in a line feed, a carriage return or both.
-/

namespace CertAuthority

structure ArmoredBlock where
  label : String
  content : Bytes
deriving DecidableEq, Repr, Inhabited

namespace Armor

def dashes : Bytes := Bytes.ofText "-----"
def beginMark : Bytes := Bytes.ofText "-----BEGIN "
def endMark : Bytes := Bytes.ofText "-----END "

/-! ## Writing -/

/-- Each piece followed by a line feed. -/
def lines (width : Nat) (b : Bytes) : Bytes := (Bytes.chunks width b).flatMap (· ++ [10])

def encode (label : String) (content : Bytes) : Bytes :=
  let name := Bytes.ofText label
  beginMark ++ name ++ dashes ++ [10] ++ lines 64 (Base64.encodeBytes content) ++
    endMark ++ name ++ dashes ++ [10]

/-! ## Reading -/

/-- The parts of a block, undecoded. -/
structure Frame where
  opening : Bytes
  headers : Bytes
  body : Bytes
  closing : Bytes

def isBreak (b : UInt8) : Bool := b == 32 || b == 9 || b == 10 || b == 13

/-- Headers end at the first blank line. -/
def splitHeaders (b : Bytes) : Bytes × Bytes :=
  match Bytes.splitAtInfix? [10, 10] b with
  | some parts => parts
  | none => (Bytes.splitAtInfix? [13, 10, 13, 10] b).getD ([], b)

/-- The first frame and the text after it. -/
def frame? (text : Bytes) : Option (Frame × Bytes) := do
  let (_, text) ← Bytes.splitAtInfix? beginMark text
  let (opening, text) ← Bytes.splitAtInfix? dashes text
  let (body, text) ← Bytes.splitAtInfix? endMark (text.dropWhile isBreak)
  let (closing, text) ← Bytes.splitAtInfix? dashes text
  let (headers, body) := splitHeaders body
  return (⟨opening, headers, body, closing⟩, text.dropWhile isBreak)

/-- Lines of a text, each without a closing carriage return; a last empty line does not count. -/
def textLines (s : String) : List String :=
  let pieces := Text.splitOnChar '\n' s
  let pieces := if pieces.getLast? = some "" then pieces.dropLast else pieces
  pieces.map fun l => if l.endsWith "\r" then (l.dropEnd 1).toString else l

def trimEnd (s : String) : String := String.ofList (Text.trimEndChars s.toList)

def Frame.decode? (f : Frame) : Option ArmoredBlock := do
  let label ← Bytes.text? f.opening
  let closing ← Bytes.text? f.closing
  let body ← Bytes.text? f.body
  let headers ← Bytes.text? f.headers
  if label ≠ "" ∧ label = closing ∧ (textLines headers).all fun l => l.contains ':' then
    let content ← Base64.decodeText? ("".intercalate ((textLines body).map trimEnd))
    return ⟨label, content⟩
  else none

def first? (text : Bytes) : Option ArmoredBlock := do
  let (f, _) ← frame? text
  f.decode?

/-- Frames of a text; `fuel` bounds their number. -/
def frames : Nat → Bytes → List Frame
  | 0, _ => []
  | fuel + 1, text =>
    match frame? text with
    | some (f, rest) => f :: frames fuel rest
    | none => []

def all? (text : Bytes) : Option (List ArmoredBlock) :=
  (frames text.length text).mapM Frame.decode?

end Armor
end CertAuthority

/-! ## Armor by the letter -/

namespace CertAuthority.StrictArmor

open Armor (beginMark endMark dashes)

def encode (label : String) (width : Nat) (content : Bytes) : Bytes :=
  let name := Bytes.ofText label
  beginMark ++ name ++ dashes ++ [10] ++ Armor.lines width (Base64.encodeBytes content) ++
    endMark ++ name ++ dashes ++ [10]

/-- The rest after a line end. -/
def dropBreak? : Bytes → Option Bytes
  | 13 :: 10 :: rest => some rest
  | 10 :: rest => some rest
  | 13 :: rest => some rest
  | _ => none

/-- The text from the first line that opens a block. -/
def openedFrom? : Bytes → Option Bytes
  | [] => none
  | b :: rest =>
    if b = 0 then none
    else if b = 10 ∧ (Bytes.dropPrefix? beginMark rest).isSome then some rest
    else openedFrom? rest

def opened? (b : Bytes) : Option Bytes :=
  if (Bytes.dropPrefix? beginMark b).isSome then some b else openedFrom? b

/-- The text before the last line end. -/
def dropLastBreak? (b : Bytes) : Option Bytes :=
  match b.reverse with
  | 10 :: 13 :: rest => some rest.reverse
  | 10 :: rest => some rest.reverse
  | 13 :: rest => some rest.reverse
  | _ => none

/-- The text before `tail`. -/
def dropSuffix? (tail b : Bytes) : Option Bytes :=
  (Bytes.dropPrefix? tail.reverse b.reverse).map List.reverse

/-- Lines of `width` bytes and a shorter one, joined; `fuel` bounds their number. -/
def joined? (width : Nat) : Nat → Bytes → Option Bytes
  | 0, b => if b = [] then some [] else none
  | fuel + 1, b =>
    if b.length ≤ width then some b
    else do
      let rest ← dropBreak? (b.drop width)
      return b.take width ++ (← joined? width fuel rest)

/-- The content of a block with this label. -/
def decode? (label : String) (width : Nat) (b : Bytes) : Option Bytes := do
  let name := Bytes.ofText label
  let b ← opened? b
  let b ← Bytes.dropPrefix? (beginMark ++ name ++ dashes) b
  let b ← dropBreak? b
  let b ← dropSuffix? dashes ((dropLastBreak? b).getD b)
  let b ← dropSuffix? (endMark ++ name) b
  let b ← dropLastBreak? b
  let text ← joined? width b.length b
  if text = [] then none else Base64.decode? text

end CertAuthority.StrictArmor
