import CertAuthority.Kind
import CertAuthority.Material
import CertAuthority.Serial

/-!
# Revocations

* `RevocationReason` with the codes of RFC 5280; code 7 is unused;
* `RevokedCertificate` : a certificate to revoke, as requested;
* `Revocation` : one entry of a built or parsed revocation list;
* `RevocationsDiff.between` : the serials gained, changed and dropped, whatever the dates.
-/

namespace CertAuthority

inductive RevocationReason where
  | unspecified | keyCompromise | caCompromise | affiliationChanged | superseded
  | cessationOfOperation | certificateHold | removeFromCrl | privilegeWithdrawn | aaCompromise
deriving DecidableEq, Repr, Inhabited

namespace RevocationReason

/-- In code order. -/
def all : List RevocationReason :=
  [.unspecified, .keyCompromise, .caCompromise, .affiliationChanged, .superseded,
   .cessationOfOperation, .certificateHold, .removeFromCrl, .privilegeWithdrawn, .aaCompromise]

def name : RevocationReason → String
  | .unspecified => "unspecified"
  | .keyCompromise => "keyCompromise"
  | .caCompromise => "CACompromise"
  | .affiliationChanged => "affiliationChanged"
  | .superseded => "superseded"
  | .cessationOfOperation => "cessationOfOperation"
  | .certificateHold => "certificateHold"
  | .removeFromCrl => "removeFromCRL"
  | .privilegeWithdrawn => "privilegeWithdrawn"
  | .aaCompromise => "aACompromise"

def code : RevocationReason → Nat
  | .unspecified => 0
  | .keyCompromise => 1
  | .caCompromise => 2
  | .affiliationChanged => 3
  | .superseded => 4
  | .cessationOfOperation => 5
  | .certificateHold => 6
  | .removeFromCrl => 8
  | .privilegeWithdrawn => 9
  | .aaCompromise => 10

def ofCode? (n : Nat) : Option RevocationReason := all.find? fun r => r.code == n

def read : Json.Reader RevocationReason := Json.asNamed all name

def toJson (r : RevocationReason) : Json := .str r.name

end RevocationReason

/-- Names a certificate by its serial number or by the certificate itself. -/
structure RevokedCertificate where
  serialNumber : Option SerialNumber := none
  certificate : Option Material := none
  /-- The time the list is built, when absent -/
  revocationDate : Option Instant := none
  /-- Expiry of the revoked certificate -/
  notAfter : Option Instant := none
  reason : Option RevocationReason := none
  invalidityDate : Option Instant := none
deriving DecidableEq, Repr, Inhabited

namespace RevokedCertificate

def toJson (r : RevokedCertificate) : Json := .obj <|
  Json.member? "serial_number" SerialNumber.toJson r.serialNumber ++
  Json.member? "certificate" Material.toJson r.certificate ++
  Json.member? "revocation_date" Json.ofInstant r.revocationDate ++
  Json.member? "not_after" Json.ofInstant r.notAfter ++
  Json.member? "reason" RevocationReason.toJson r.reason ++
  Json.member? "invalidity_date" Json.ofInstant r.invalidityDate

def fieldNames : List String :=
  ["serial_number", "certificate", "revocation_date", "not_after", "reason", "invalidity_date"]

/-- Unknown fields are refused. -/
def read : Json.Reader RevokedCertificate := Json.denyUnknown fieldNames <| Json.asRecord do
  let serialNumber ← Json.field? "serial_number" SerialNumber.read
  let certificate ← Json.field? "certificate" Material.read
  let revocationDate ← Json.field? "revocation_date" Json.asInstant
  let notAfter ← Json.field? "not_after" Json.asInstant
  let reason ← Json.field? "reason" RevocationReason.read
  let invalidityDate ← Json.field? "invalidity_date" Json.asInstant
  return { serialNumber, certificate, revocationDate, notAfter, reason, invalidityDate }

end RevokedCertificate

structure Revocation where
  serialNumber : SerialNumber
  revocationDate : Instant
  reason : Option RevocationReason
  invalidityDate : Option Instant
deriving DecidableEq, Repr

namespace Revocation

/-- The same entry apart from the revocation date. -/
def sameEntry (a b : Revocation) : Bool :=
  a.serialNumber == b.serialNumber && a.reason == b.reason && a.invalidityDate == b.invalidityDate

def members (r : Revocation) : List (String × Json) :=
  [("serial_number", r.serialNumber.toJson),
    ("revocation_date", Json.ofInstant r.revocationDate)] ++
  Json.member? "reason" RevocationReason.toJson r.reason ++
  Json.member? "invalidity_date" Json.ofInstant r.invalidityDate

def toJson (r : Revocation) : Json := .obj r.members

instance : Inhabited Instant := ⟨Instant.ofSeconds 0⟩

def read : Json.Reader Revocation := Json.asRecord do
  let serialNumber ← Json.field "serial_number" SerialNumber.read
  let revocationDate ← Json.field "revocation_date" Json.asInstant
  let reason ← Json.field? "reason" RevocationReason.read
  let invalidityDate ← Json.field? "invalidity_date" Json.asInstant
  return { serialNumber, revocationDate, reason, invalidityDate }

end Revocation

structure RevocationsDiff where
  added : List String
  changed : List String
  removed : List String
deriving DecidableEq, Repr

namespace RevocationsDiff

/-- The first entry with that serial number. -/
def firstWith? (s : SerialNumber) (entries : List Revocation) : Option Revocation :=
  entries.find? fun r => r.serialNumber == s

def isEmpty (d : RevocationsDiff) : Bool :=
  d.added.isEmpty && d.changed.isEmpty && d.removed.isEmpty

def of (old want : List Revocation) : RevocationsDiff :=
  let text (rs : List Revocation) := rs.map fun r => r.serialNumber.text
  { added := text (want.filter fun r => (firstWith? r.serialNumber old).isNone)
    changed := text (want.filter fun r =>
      (firstWith? r.serialNumber old).any fun current => !current.sameEntry r)
    removed := text (old.filter fun r => (firstWith? r.serialNumber want).isNone) }

/-- The difference, if there is any. -/
def between (old want : List Revocation) : Option RevocationsDiff :=
  let d := of old want
  if d.isEmpty then none else some d

def toJson (d : RevocationsDiff) : Json :=
  .obj [("added", Json.ofStrings d.added), ("changed", Json.ofStrings d.changed),
    ("removed", Json.ofStrings d.removed)]

def read : Json.Reader RevocationsDiff := Json.asRecord do
  let strings := Json.asList Json.asString
  let added ← Json.field "added" strings
  let changed ← Json.field "changed" strings
  let removed ← Json.field "removed" strings
  return { added, changed, removed }

end RevocationsDiff
end CertAuthority
