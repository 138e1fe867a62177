import CertAuthority.Certificate.Basic
import CertAuthority.Issue.Signer

/-!
# Issuance

Drafting, signing and the copy of an issued certificate. The copy gets a name of the serial number.
The common name in front of it is chosen by the requester, so nothing in it may act as part of a
path.

* `Certificate.copyName` : the name of the copy;
* `fileSafe` : a common name as part of a file name; one of dots alone is dropped;
* `Site.draft`, `Site.sign` : the two halves of issuance, each with a moment of its own;
* `Site.writeCopy` : the copy in a directory, named by serial number;
* `Site.issue` : a certificate from the material that its request names.
-/

namespace CertAuthority

/-! ## Names of copies -/

/-- A character that cannot stand in a file name, as one that can. -/
def fileSafeChar (c : Char) : Char :=
  if c = '/' ∨ c = '\\' ∨ Text.isControl c then '_' else c

def fileSafe (s : String) : String :=
  let cs := s.toList.map fileSafeChar
  if cs.all (· == '.') then "" else String.ofList cs

/-- Hex digits of a serial number, one or more, without zeros in front. -/
def SerialNumber.shortText (s : SerialNumber) : String :=
  match s.text.toList.dropWhile (· == '0') with
  | [] => "0"
  | digits => String.ofList digits

def CertificateKind.copySuffix : CertificateKind → String
  | .x509 => ".crt"
  | .ssh => ".cert"

namespace Certificate

/-- The common name and a dash, where it is asked for and there is one. -/
def copyLead (c : Certificate) (prependCn : Bool) : String :=
  match c.info.commonName?.map fileSafe with
  | some cn => if prependCn && cn != "" then cn ++ "-" else ""
  | none => ""

def copyName (c : Certificate) (prependCn : Bool) : String :=
  c.copyLead prependCn ++ (c.info.serialNumber.getD ⟨0⟩).shortText ++ c.info.kind.copySuffix

end Certificate

/-! ## Issuing -/

/-- Mode of copies. -/
def copyMode : Nat := 0o644

namespace Site

variable {σ : Type}

def draft (s : Site σ) (artifact : ArtifactKind) (r : CertificateRequest) (subject : PublicKey)
    (signer : SignerIdentity) : Run σ Draft := do
  Run.backendAt .buildingDraft
    ((s.backend r.kind).buildDraft (← Run.moment) artifact r subject signer)

/-- Signs a draft with the digest that its request asks for. -/
def sign (s : Site σ) (d : Draft) (key : PrivateKey) : Run σ Certificate := do
  Run.note (.sign d)
  Run.backendAt .signing
    ((s.backend d.request.kind).sign (← Run.moment) d key d.request.digest)

def encode (s : Site σ) (stage : Stage) (kind : CertificateKind) (c : Certificate)
    (encoding : Encoding) (o : EncodeOptions) : Run σ Bytes := do
  Run.backendAt stage ((s.backend kind).encode (← Run.moment) c encoding o)

/-- The certificate in its backend's default encoding. -/
def encodePlain (s : Site σ) (stage : Stage) (kind : CertificateKind) (c : Certificate) :
    Run σ Bytes :=
  s.encode stage kind c (s.backend kind).defaultEncoding {}

def writeCopy (s : Site σ) (kind : CertificateKind) (dir : String) (c : Certificate)
    (prependCn : Bool) : Run σ String :=
  let name := c.copyName prependCn
  let path := Path.join dir name
  if Path.isPlain name then do
    let data ← s.encodePlain .writingCopy kind c
    Run.atStage .writingCopy (s.replace path data copyMode)
    return path
  else Run.fail (.staged .writingCopy (.file (.unsafeName name)))

/-- Writes the copy that a request asks for. -/
def keepCopy (s : Site σ) (r : CertificateRequest) (c : Certificate) : Run σ Unit :=
  match r.copypath with
  | none => pure ()
  | some dir => do
    let _ ← s.writeCopy r.kind dir c r.prependCn

/-- Signs a certificate and writes its copy. -/
def signCertificate (s : Site σ) (d : Draft) (key : PrivateKey) : Run σ Certificate := do
  let c ← s.sign d key
  s.keepCopy d.request c
  return c

def issue (s : Site σ) (r : CertificateRequest) : Run σ Certificate := do
  let signing ← s.requireSigner r
  let subject ← s.subjectKey r signing.identity.publicKey
  let d ← s.draft .certificate r subject.publicKey signing.identity
  s.signCertificate d signing.key

end Site
end CertAuthority
