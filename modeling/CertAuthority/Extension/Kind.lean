import CertAuthority.Attribute
import CertAuthority.Kind
import CertAuthority.Text.Quoted

/-!
# Extension and option names

The closed set of X.509 extensions, OpenSSH critical options and OpenSSH extensions. Each has one
written name; no alias is known here.

* `ExtensionKind.all` : every kind, in the order in which sets list their entries;
* `ExtensionKind.section?` : where an OpenSSH entry lives, `none` for X.509 extensions;
* `ExtensionKind.parseValue` : the compact form of a value, such as `critical,CA:true,pathlen:0`.
-/

namespace CertAuthority

inductive ExtensionKind where
  | basicConstraints | keyUsage | extendedKeyUsage | subjectKeyIdentifier
  | authorityKeyIdentifier | issuerAltName | authorityInfoAccess | subjectAltName
  | crlDistributionPoints | certificatePolicies | policyConstraints | inhibitAnyPolicy
  | nameConstraints | noCheck | tlsFeature | nsComment | nsCertType
  | forceCommand | sourceAddress | verifyRequired
  | noTouchRequired | permitX11Forwarding | permitAgentForwarding | permitPortForwarding
  | permitPty | permitUserRc
deriving DecidableEq, Repr, Inhabited

/-- The part of an OpenSSH certificate that holds an entry. -/
inductive SshSection where
  | criticalOption | extension
deriving DecidableEq, Repr

def SshSection.name : SshSection → String
  | .criticalOption => "critical_option"
  | .extension => "extension"

/-- Criticality and payload of one entry. -/
structure ExtensionValue where
  critical : Bool
  value : AttributeValue
deriving DecidableEq, Repr, Inhabited

namespace ExtensionKind

def all : List ExtensionKind :=
  [.basicConstraints, .keyUsage, .extendedKeyUsage, .subjectKeyIdentifier,
   .authorityKeyIdentifier, .issuerAltName, .authorityInfoAccess, .subjectAltName,
   .crlDistributionPoints, .certificatePolicies, .policyConstraints, .inhibitAnyPolicy,
   .nameConstraints, .noCheck, .tlsFeature, .nsComment, .nsCertType,
   .forceCommand, .sourceAddress, .verifyRequired,
   .noTouchRequired, .permitX11Forwarding, .permitAgentForwarding, .permitPortForwarding,
   .permitPty, .permitUserRc]

theorem mem_all (k : ExtensionKind) : k ∈ all := by cases k <;> decide

def name : ExtensionKind → String
  | .basicConstraints => "basicConstraints"
  | .keyUsage => "keyUsage"
  | .extendedKeyUsage => "extendedKeyUsage"
  | .subjectKeyIdentifier => "subjectKeyIdentifier"
  | .authorityKeyIdentifier => "authorityKeyIdentifier"
  | .issuerAltName => "issuerAltName"
  | .authorityInfoAccess => "authorityInfoAccess"
  | .subjectAltName => "subjectAltName"
  | .crlDistributionPoints => "crlDistributionPoints"
  | .certificatePolicies => "certificatePolicies"
  | .policyConstraints => "policyConstraints"
  | .inhibitAnyPolicy => "inhibitAnyPolicy"
  | .nameConstraints => "nameConstraints"
  | .noCheck => "noCheck"
  | .tlsFeature => "tlsfeature"
  | .nsComment => "nsComment"
  | .nsCertType => "nsCertType"
  | .forceCommand => "force-command"
  | .sourceAddress => "source-address"
  | .verifyRequired => "verify-required"
  | .noTouchRequired => "no-touch-required"
  | .permitX11Forwarding => "permit-X11-forwarding"
  | .permitAgentForwarding => "permit-agent-forwarding"
  | .permitPortForwarding => "permit-port-forwarding"
  | .permitPty => "permit-pty"
  | .permitUserRc => "permit-user-rc"

def ofName? (s : String) : Option ExtensionKind := named? all name s

def section? : ExtensionKind → Option SshSection
  | .forceCommand | .sourceAddress | .verifyRequired => some .criticalOption
  | .noTouchRequired | .permitX11Forwarding | .permitAgentForwarding | .permitPortForwarding
  | .permitPty | .permitUserRc => some .extension
  | _ => none

def certificateKind (k : ExtensionKind) : CertificateKind :=
  if k.section?.isSome then .ssh else .x509

/-- The refusal of a name outside the set. -/
def unknown (s : String) : String := "unknown extension or option " ++ Text.quoted s

def ofName (s : String) : Except Json.Refusal ExtensionKind :=
  match ofName? s with
  | some k => .ok k
  | none => .error (.worded (unknown s))

def read : Json.Reader ExtensionKind
  | .str s => ofName s
  | _ => Json.mismatch

/-! ## Compact values -/

/-- An OpenSSH value is kept whole; empty or `true` is a bare flag. -/
def parseSshValue (part : SshSection) (raw : String) : ExtensionValue :=
  let s := Text.trim raw
  { critical := part == .criticalOption
    value := if s.isEmpty ∨ Text.sameLetters s "true" then .present else .text s }

/-- An X.509 value is a list of comma-separated tokens; a leading `critical` sets the flag. -/
def parseX509Value (raw : String) : ExtensionValue :=
  match Text.commaPieces raw with
  | "critical" :: tokens => ⟨true, .ofTokens tokens⟩
  | tokens => ⟨false, .ofTokens tokens⟩

def parseValue (k : ExtensionKind) (raw : String) : ExtensionValue :=
  match k.section? with
  | some part => parseSshValue part raw
  | none => parseX509Value raw

end ExtensionKind

namespace ExtensionValue

def toJson (v : ExtensionValue) : Json :=
  .obj [("critical", .bool v.critical), ("value", v.value.toJson)]

def read : Json.Reader ExtensionValue := Json.asRecord do
  let critical ← Json.field "critical" Json.asBool
  let value ← Json.field "value" AttributeValue.read
  return { critical, value }

end ExtensionValue
end CertAuthority
