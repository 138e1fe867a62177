import CertAuthority.Policy.Table
import CertAuthority.Toml.Document

/-!
# Configuration of a node

* `Config.parse` : reads a TOML document and checks every policy in it;
* `Config.load`, `Config.overrideTables` : the configuration file and the file of policies of this
  node alone, either of which may be missing;
* `Config.renewalThreshold`, `Config.defaultTtl` : settings by certificate family.
-/

namespace CertAuthority

/-- Remote signing. -/
structure PeerConfig where
  /-- Verified identity of this node as a requester -/
  identity : Option String := none
  /-- Seconds to wait for an authority -/
  timeoutSeconds : Nat := 30
deriving Inhabited

/-- Remaining validity below which artifacts are renewed. -/
structure RenewalConfig where
  x509 : Duration := ⟨7 * Duration.day⟩
  sshUser : Duration := ⟨Duration.hour⟩
  sshHost : Duration := ⟨7 * Duration.day⟩
  crl : Duration := ⟨3 * Duration.day⟩
deriving Inhabited

/-- What applies where neither policy nor request decide. -/
structure IssuanceConfig where
  x509Ttl : Duration := ⟨30 * Duration.day⟩
  sshTtl : Duration := ⟨30 * Duration.day⟩
  /-- From one update of a revocation list to the next -/
  crlTtl : Duration := ⟨7 * Duration.day⟩
  /-- The signing key's own digest where none is set -/
  digest : Option Digest := none
deriving Inhabited

structure Config where
  /-- File of policies that come before those below -/
  nodeOverrides : Option String := none
  peer : PeerConfig := {}
  renewal : RenewalConfig := {}
  issuance : IssuanceConfig := {}
  policies : PolicyTables := {}
deriving Inhabited

/-! ## Reading -/

/-- A section with this many fields; as a list, what follows the last of them is not looked at. -/
def Config.part {α : Type} (fields : Nat) (read : Json.FieldReader α) : Json.Reader α
  | .arr items => Json.asRecord read (.arr (items.take fields))
  | j => Json.asRecord read j

def PeerConfig.read : Json.Reader PeerConfig := Config.part 2 do
  let base : PeerConfig := {}
  let identity ← PolicyTable.field? "identity" Json.asString
  let timeoutSeconds ← Json.fieldD "timeout_secs" Json.asU64 base.timeoutSeconds
  return { identity, timeoutSeconds }

def RenewalConfig.read : Json.Reader RenewalConfig := Config.part 4 do
  let base : RenewalConfig := {}
  let x509 ← Json.fieldD "x509_remaining" Duration.read base.x509
  let sshUser ← Json.fieldD "ssh_user_remaining" Duration.read base.sshUser
  let sshHost ← Json.fieldD "ssh_host_remaining" Duration.read base.sshHost
  let crl ← Json.fieldD "crl_remaining" Duration.read base.crl
  return { x509, sshUser, sshHost, crl }

def IssuanceConfig.read : Json.Reader IssuanceConfig := Config.part 4 do
  let base : IssuanceConfig := {}
  let x509Ttl ← Json.fieldD "x509_ttl" Duration.read base.x509Ttl
  let sshTtl ← Json.fieldD "ssh_ttl" Duration.read base.sshTtl
  let crlTtl ← Json.fieldD "crl_ttl" Duration.read base.crlTtl
  let digest ← PolicyTable.field? "digest" Digest.read
  return { x509Ttl, sshTtl, crlTtl, digest }

namespace Config

/-- Everything but the policies. -/
def readSettings : Json.Reader Config := Json.asRecord do
  let nodeOverrides ← PolicyTable.field? "node_overrides" Json.asString
  let peer ← Json.fieldD "peer" PeerConfig.read {}
  let renewal ← Json.fieldD "renewal" RenewalConfig.read {}
  let issuance ← Json.fieldD "issuance" IssuanceConfig.read {}
  return { nodeOverrides, peer, renewal, issuance }

/-- The policies of a document, all of them checked. -/
def checkedTables (document : Toml) : Outcome Error PolicyTables := do
  let tables ← Outcome.ofOption (.config .wrongType) (PolicyTables.ofToml? document)
  tables.check
  return tables

def parse (s : String) : Outcome Error Config := do
  let document ← Outcome.ofOption (.config .notToml) (Toml.parse? s)
  let settings ← (readSettings (document.toJson Toml.dateAsTable)).mapError fun _ =>
    .error (.config .wrongType)
  return { settings with policies := ← checkedTables document }

def text (file : Bytes) : Outcome Error String :=
  Outcome.ofOption (.config .notText) (Bytes.text? file)

/-- The configuration in a file, the default one where there is no file. -/
def load (file : Option Bytes) : Outcome Error Config :=
  match file with
  | none => .ok {}
  | some b => do parse (← text b)

/-- The policies in the override file, where one is named and there; `files` reads a path. -/
def overrideTables (c : Config) (files : String → Option Bytes) :
    Outcome Error (Option PolicyTables) :=
  match c.nodeOverrides.bind files with
  | none => .ok none
  | some b => do
    let document ← Outcome.ofOption (.config .notToml) (Toml.parse? (← text b))
    return some (← checkedTables document)

/-! ## Settings -/

def renewalThreshold (c : Config) (kind : CertificateKind) (certType : Option CertType) : Span :=
  match kind, certType.getD .user with
  | .x509, _ => c.renewal.x509.toSpan
  | .ssh, .user => c.renewal.sshUser.toSpan
  | .ssh, .host => c.renewal.sshHost.toSpan

def crlThreshold (c : Config) : Span := c.renewal.crl.toSpan

def defaultTtl (c : Config) : CertificateKind → Duration
  | .x509 => c.issuance.x509Ttl
  | .ssh => c.issuance.sshTtl

/-! ## Writing -/

/-- The settings without the policies. -/
def toJson (c : Config) : Json := .obj <|
  Json.member? "node_overrides" .str c.nodeOverrides ++
  [("peer", .obj (Json.member? "identity" .str c.peer.identity ++
     [("timeout_secs", Json.ofNat c.peer.timeoutSeconds)])),
   ("renewal", .obj
     [("x509_remaining", c.renewal.x509.toJson), ("ssh_user_remaining", c.renewal.sshUser.toJson),
      ("ssh_host_remaining", c.renewal.sshHost.toJson), ("crl_remaining", c.renewal.crl.toJson)]),
   ("issuance", .obj
     ([("x509_ttl", c.issuance.x509Ttl.toJson), ("ssh_ttl", c.issuance.sshTtl.toJson),
       ("crl_ttl", c.issuance.crlTtl.toJson)] ++
      Json.member? "digest" (fun d => .str d.name) c.issuance.digest))]

end Config
end CertAuthority
