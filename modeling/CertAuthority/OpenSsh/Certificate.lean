import CertAuthority.OpenSsh.Signature

/-!
# Certificates of OpenSSH

A certificate is a public key with an identity, a period of validity, principals and options, signed
by an authority's key.

* `SshCertificate.ofLine?`, `SshCertificate.line` : a line of a certificate file;
* `SshCertificate.signedPart` : the bytes under the signature;
* `SshCertificate.isValidFor` : the signature verifies, and the period is not empty;
* `SshCertificate.info` : the view. Options of unknown names are left out of it.
-/

namespace CertAuthority.OpenSsh

open Wire

structure SshCertificate where
  nonce : Bytes
  key : SshKey
  serial : Nat
  certType : CertType
  keyId : String
  /-- None stands for every principal -/
  principals : List String
  /-- Seconds since 1970 -/
  validAfter : Nat
  validBefore : Nat
  options : List (String × String)
  extensions : List (String × String)
  reserved : Bytes := []
  authority : SshKey
  signature : SshSignature
deriving Inhabited

/-! ## Reading -/

def certTypeParser : Parser CertType := do
  match ← takeWord32 with
  | 1 => return .user
  | 2 => return .host
  | _ => fail

/-- Times beyond 63 bits are refused. -/
def timeParser : Parser Nat := do
  let t ← takeWord64
  if t < bitLimit 63 then return t else fail

/-- Value of an option: nothing, or a text. -/
def optionValue : Parser String := do if ← atEnd then return "" else takeText

def optionParser : Parser (String × String) := do
  let name ← takeText
  return (name, ← inside optionValue)

/-- Names in strictly ascending order. -/
def isAscending : List (String × String) → Bool
  | a :: b :: rest => a.1 < b.1 && isAscending (b :: rest)
  | _ => true

def optionsParser : Parser (List (String × String)) := do
  let options ← inside (many optionParser)
  if isAscending options then return options else fail

namespace SshCertificate

def parser : Parser SshCertificate := do
  let family ← ofOption (KeyFamily.ofCertificateName? (← takeText))
  return {
    nonce := ← takeString
    key := ← SshKey.fieldsParser family
    serial := ← takeWord64
    certType := ← certTypeParser
    keyId := ← takeText
    principals := ← inside (many takeText)
    validAfter := ← timeParser
    validBefore := ← timeParser
    options := ← optionsParser
    extensions := ← optionsParser
    reserved := ← takeString
    authority := ← inside SshKey.parser
    signature := ← inside SshSignature.parser }

def ofLine? (s : String) : Option SshCertificate := do
  let l ← KeyLine.parse? s
  let c ← parseAll? parser l.content
  if l.name = c.key.family.certificateName then some c else none

/-! ## Writing -/

def certTypeCode : CertType → Nat
  | .user => 1
  | .host => 2

def optionBytes (o : String × String) : Bytes :=
  text o.1 ++ string (if o.2 = "" then [] else text o.2)

def signedPart (c : SshCertificate) : Bytes :=
  text c.key.family.certificateName ++ string c.nonce ++ c.key.encodeFields ++ word64 c.serial ++
    word32 (certTypeCode c.certType) ++ text c.keyId ++ string (c.principals.flatMap text) ++
    word64 c.validAfter ++ word64 c.validBefore ++ string (c.options.flatMap optionBytes) ++
    string (c.extensions.flatMap optionBytes) ++ string c.reserved ++ string c.authority.encode

def encode (c : SshCertificate) : Bytes := c.signedPart ++ string c.signature.encode

def line (c : SshCertificate) : String :=
  KeyLine.print c.key.family.certificateName c.encode

/-! ## Verification -/

def isValidFor (c : SshCertificate) (authority : SshKey) : Bool :=
  c.authority == authority && authority.verifies c.signedPart c.signature &&
    c.validAfter < c.validBefore

/-! ## View -/

/-- The options of one section that have known names. -/
def sectionView (part : SshSection) (options : List (String × String)) : ExtensionSet :=
  .ofList (options.filterMap fun (name, value) => do
    let k ← ExtensionKind.ofName? name
    if k.section? = some part then
      some (k, ⟨part == .criticalOption, if value = "" then .present else .text value⟩)
    else none)

/-- The date, if dates reach that far. -/
def instant? (seconds : Nat) : Option Instant :=
  let t := Instant.ofSeconds seconds
  if t.representable then some t else none

def info (c : SshCertificate) : BackendResult CertificateInfo := do
  return {
    kind := .ssh
    publicKey := ← c.key.handle
    serialNumber := some ⟨c.serial⟩
    notBefore := instant? c.validAfter
    notAfter := instant? c.validBefore
    extensions := sectionView .extension c.extensions
    options := sectionView .criticalOption c.options
    principals := if c.principals.isEmpty then .all else .list c.principals
    keyId := if c.keyId = "" then none else some c.keyId
    certType := some c.certType
    digest := c.signature.algorithm.digest? }

end SshCertificate
end CertAuthority.OpenSsh
