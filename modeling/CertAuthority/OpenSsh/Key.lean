import CertAuthority.Bytes.Base64
import CertAuthority.Certificate.Basic
import CertAuthority.OpenSsh.Wire
import CertAuthority.Text.Basic

/-!
# Public keys of OpenSSH

A key is the name of its family and a few byte strings; on a line it is the name once more, all of
it in base64, and a comment.

* `KeyFamily` : the families that can be read. Those without an `algorithm?` are not supported;
* `SshKey.parser`, `SshKey.encode` : the key itself;
* `KeyLine` : a line of a key or certificate file;
* `SshKey.handle` : the line without comment, as keys are handed around.
-/

namespace CertAuthority.OpenSsh

/-! ## Families -/

inductive NistCurve where
  | p256 | p384 | p521
deriving DecidableEq, Repr, Inhabited

namespace NistCurve

def all : List NistCurve := [.p256, .p384, .p521]

def name : NistCurve → String
  | .p256 => "nistp256"
  | .p384 => "nistp384"
  | .p521 => "nistp521"

/-- Bytes of a coordinate. -/
def size : NistCurve → Nat
  | .p256 => 32
  | .p384 => 48
  | .p521 => 66

/-- A point in one of the two standard forms, whether or not it is on the curve. -/
def isPoint (c : NistCurve) : Bytes → Bool
  | mark :: coordinates =>
    if mark = 4 then coordinates.length == 2 * c.size
    else (mark == 2 || mark == 3) && coordinates.length == c.size
  | [] => false

end NistCurve

inductive KeyFamily where
  | ed25519
  | ecdsa (c : NistCurve)
  | rsa
  | dsa
  | securityKeyEd25519
  | securityKeyEcdsa
deriving DecidableEq, Repr, Inhabited

namespace KeyFamily

def all : List KeyFamily :=
  [.ed25519, .ecdsa .p256, .ecdsa .p384, .ecdsa .p521, .rsa, .dsa, .securityKeyEd25519,
   .securityKeyEcdsa]

/-- Name without what marks security keys. -/
def stem : KeyFamily → String
  | .ed25519 => "ssh-ed25519"
  | .ecdsa c => "ecdsa-sha2-" ++ c.name
  | .rsa => "ssh-rsa"
  | .dsa => "ssh-dss"
  | .securityKeyEd25519 => "sk-ssh-ed25519"
  | .securityKeyEcdsa => "sk-ecdsa-sha2-nistp256"

def isSecurityKey : KeyFamily → Bool
  | .securityKeyEd25519 | .securityKeyEcdsa => true
  | _ => false

def name (f : KeyFamily) : String :=
  if f.isSecurityKey then f.stem ++ "@openssh.com" else f.stem

/-- Name of a certificate for such a key. -/
def certificateName (f : KeyFamily) : String := f.stem ++ "-cert-v01@openssh.com"

/-- Family by its name; RSA also goes by the names of its newer signatures. -/
def ofName? (s : String) : Option KeyFamily :=
  if s = "rsa-sha2-256" ∨ s = "rsa-sha2-512" then some .rsa else all.find? fun f => f.name == s

def ofCertificateName? (s : String) : Option KeyFamily := all.find? fun f => f.certificateName == s

def algorithm? : KeyFamily → Option KeyAlgorithm
  | .ed25519 => some .ed25519
  | .ecdsa .p256 => some .ecdsaP256
  | .ecdsa .p384 => some .ecdsaP384
  | .rsa => some .rsa
  | _ => none

/-- Number of byte strings in a public key. -/
def arity : KeyFamily → Nat
  | .ed25519 => 1
  | .ecdsa _ | .rsa | .securityKeyEd25519 => 2
  | .securityKeyEcdsa => 3
  | .dsa => 4

def isText (b : Bytes) : Bool := (Bytes.text? b).isSome

/-- The byte strings of a public key are well formed. -/
def accepts : KeyFamily → List Bytes → Bool
  | .ed25519, [key] => key.length == 32
  | .ecdsa c, [curve, point] => curve == Bytes.ofText c.name && c.isPoint point
  | .rsa, [e, n] => Wire.isNumber e && Wire.isNumber n
  | .dsa, numbers => numbers.length == 4 && numbers.all Wire.isNumber
  | .securityKeyEd25519, [key, application] => key.length == 32 && isText application
  | .securityKeyEcdsa, [curve, point, application] =>
    curve == Bytes.ofText NistCurve.p256.name && NistCurve.p256.isPoint point && isText application
  | _, _ => false

end KeyFamily

/-! ## Keys -/

structure SshKey where
  family : KeyFamily
  fields : List Bytes
deriving DecidableEq, Repr, Inhabited

namespace SshKey

open Wire

/-- The byte strings of a key of this family. -/
def fieldsParser (f : KeyFamily) : Parser SshKey := do
  let fields ← takeStrings f.arity
  if f.accepts fields then return ⟨f, fields⟩ else fail

def parser : Parser SshKey := do
  let f ← ofOption (KeyFamily.ofName? (← takeText))
  fieldsParser f

def encodeFields (k : SshKey) : Bytes := k.fields.flatMap string

def encode (k : SshKey) : Bytes := text k.family.name ++ k.encodeFields

end SshKey

/-! ## Lines -/

structure KeyLine where
  name : String
  content : Bytes
  comment : String
deriving DecidableEq, Repr

namespace KeyLine

/-- The characters of names and of base64. -/
def isWordChar (c : Char) : Bool :=
  ('a' ≤ c && c ≤ 'z') || ('A' ≤ c && c ≤ 'Z') || ('0' ≤ c && c ≤ '9') ||
    ['+', '-', '/', '=', '@', '.'].contains c

/-- A word and what follows the single space after it. -/
def word? (cs : List Char) : Option (List Char × List Char) :=
  match cs.dropWhile isWordChar with
  | [] => some (cs, [])
  | ' ' :: rest => some (cs.takeWhile isWordChar, rest)
  | _ => none

def parse? (s : String) : Option KeyLine := do
  let (name, rest) ← word? (Text.trimEndChars s.toList)
  let (content, comment) ← word? rest
  if name = [] ∨ content = [] then none
  else
    return { name := String.ofList name, comment := String.ofList comment
             content := ← Base64.decodeText? (String.ofList content) }

/-- The line without a comment. -/
def print (name : String) (content : Bytes) : String := name ++ " " ++ Base64.encode content

/-- The trimmed text of a file. -/
def fileText (what : String) (b : Bytes) : BackendResult String :=
  match Bytes.text? b with
  | some s => .ok (Text.trim s)
  | none => Outcome.fail (.unrecognized what)

end KeyLine

namespace SshKey

def ofLine? (s : String) : Option SshKey := do
  let line ← KeyLine.parse? s
  let k ← Wire.parseAll? parser line.content
  if line.name = k.family.name then some k else none

def line (k : SshKey) : String := KeyLine.print k.family.name k.encode

/-- The supported algorithm of a key. -/
def algorithm (k : SshKey) : BackendResult KeyAlgorithm :=
  Outcome.ofOption (.unrecognized "key") k.family.algorithm?

def handle (k : SshKey) : BackendResult PublicKey := do
  return ⟨.ssh, ← k.algorithm, Bytes.ofText k.line⟩

/-- The key in a file. -/
def load (b : Bytes) : BackendResult SshKey := do
  Outcome.ofOption (.unrecognized "public key") (ofLine? (← KeyLine.fileText "public key" b))

end SshKey
end CertAuthority.OpenSsh
