import CertAuthority.Asn1.Outline
import CertAuthority.Cipher.Des
import CertAuthority.KeyDerivation
import CertAuthority.X509.Bundle
import CertAuthority.X509.PrivateKey

/-!
# Key stores

A store of PKCS#12 holds a private key with its certificate, and further certificates, each under an
alias. Its parts are encrypted under a passphrase, which also guards the whole.

* `KeyStore.put` : an alias names one entry, the one stored last;
* `KeyStore.open?` : the entries of an encoded store. A key takes the certificate that carries its
  identifier, and the issuers of that one after another; the other certificates are entries of their
  own;
* `KeyStore.encode` : the encoded store;
* `encodeStore`, `decodeStore` : certificates with a chain as stores. A store that opens with the
  empty passphrase counts as unprotected, even if another one was given.
-/

namespace CertAuthority.X509

open Der

def oidDataBag (n : Nat) : List Nat := [1, 2, 840, 113549, 1, 12, 10, 1, n]
def oidShroudedKeyBag : List Nat := oidDataBag 2
def oidCertificateBag : List Nat := oidDataBag 3
def oidStoredCertificate : List Nat := [1, 2, 840, 113549, 1, 9, 22, 1]
def oidFriendlyName : List Nat := [1, 2, 840, 113549, 1, 9, 20]
def oidLocalKeyId : List Nat := [1, 2, 840, 113549, 1, 9, 21]
def oidTripleDes : List Nat := [1, 2, 840, 113549, 1, 12, 1, 3]

/-- Passphrases and aliases are limited to characters of the first plane. -/
def isFirstPlane (s : String) : Bool := s.toList.all fun c => c.toNat < 0xffff

/-! ## Entries -/

inductive StoreEntry where
  /-- A private key, its identifier, and its certificate followed by issuers -/
  | key (container id : Bytes) (chain : List Bytes)
  | certificate (der : Bytes)
deriving DecidableEq, Repr

structure KeyStore where
  entries : List (String × StoreEntry) := []
deriving DecidableEq, Repr, Inhabited

namespace KeyStore

/-- Stores an entry in place of the one with the same alias. -/
def put (s : KeyStore) (label : String) (e : StoreEntry) : KeyStore :=
  ⟨s.entries.filter (·.1 != label) ++ [(label, e)]⟩

/-- The first key with a certificate. -/
def key? (s : KeyStore) : Option (String × Bytes × List Bytes) :=
  s.entries.findSome? fun (label, e) =>
    match e with
    | .key _ _ (leaf :: chain) => some (label, leaf, chain)
    | _ => none

/-- Certificates that stand alone, by their aliases. -/
def certificates (s : KeyStore) : List Bytes :=
  let alone := s.entries.filterMap fun (label, e) =>
    match e with
    | .certificate der => some (label, der)
    | .key .. => none
  (alone.mergeSort fun a b => Bytes.le (Bytes.ofText a.1) (Bytes.ofText b.1)).map (·.2)

end KeyStore

/-! ## Bags -/

inductive BagContent where
  | key (container : Bytes)
  | certificate (der : Bytes)

structure Bag where
  content : BagContent
  friendlyName : Option String
  keyId : Option Bytes

/-- Text of characters of the first plane, two bytes each. -/
def textOfUnits : Bytes → List Char
  | a :: b :: rest => Char.ofNat (a.toNat * 256 + b.toNat) :: textOfUnits rest
  | _ => []

def friendlyNameParser : Parser String := do
  let content ← tagged tagBmp
  if IssuedName.isBmp content then return String.ofList (textOfUnits content) else Der.fail

namespace Bag

def attributeParser : Parser (List Nat × Bytes) :=
  inWholeSequence do return (← oidValue, ← tagged tagSet)

/-- The named value among a bag's attributes. -/
def value? {α : Type} (attributes : List (List Nat × Bytes)) (o : List Nat) (p : Parser α) :
    Option α := do
  p.parse? .distinguished (← attributes.lookup o)

/-- Decrypts data under the scheme that an identifier describes. -/
def decrypt? (a : AlgorithmIdentifier) (passphrase : String) (data : Bytes) : Option Bytes := do
  if a.oid = oidTripleDes then
    let (salt, iterations) ← Parser.parseAll?
      (do return (← tagged tagOctetString, ← natBelow (bitLimit 31))) .distinguished
      (← a.parameters).content
    if isFirstPlane passphrase then
      let password := Pkcs12Derivation.password passphrase
      let derive := fun (p : Pkcs12Derivation.Purpose) =>
        Pkcs12Derivation.derive .sha1 p password salt iterations
      let keys := Des.tripleKeys (derive .key 24)
      Cipher.decryptChained? (Des.decryptTriple keys) (derive .iv 8) data
    else none
  else
    (← PasswordScheme.ofIdentifier? a).decrypt? (Bytes.ofText passphrase) data

def shroudedKey (passphrase : String) : Parser BagContent := inWholeSequence do
  let a ← AlgorithmIdentifier.parser
  return .key (← ofOption (decrypt? a passphrase (← tagged tagOctetString)))

def storedCertificate : Parser BagContent := inWholeSequence do
  if (← oidValue) = oidStoredCertificate then
    return .certificate (← filling (tagged tagOctetString) (← tagged (tagExplicit 0)))
  else Der.fail

def attributes : Parser (List (List Nat × Bytes)) := do
  match ← taggedIf tagSet with
  | some content => filling (manyToEnd attributeParser) content
  | none => return []

/-- A bag; none for kinds that are not looked into. -/
def parser (passphrase : String) : Parser (Option Bag) := inWholeSequence do
  let type ← oidValue
  let value ← tagged (tagExplicit 0)
  let found ← attributes
  let content ←
    if type = oidShroudedKeyBag then some <$> filling (shroudedKey passphrase) value
    else if type = oidCertificateBag then some <$> filling storedCertificate value
    else pure none
  return content.map fun content =>
    { content
      friendlyName := value? found oidFriendlyName friendlyNameParser
      keyId := value? found oidLocalKeyId (tagged tagOctetString) }

/-- Attributes of a bag to be written. -/
def attributeBytes (label : String) (keyId : Option Bytes) : Bytes :=
  setOf ([seqOf [oid oidFriendlyName,
      element tagSet (element tagBmp (Pkcs12Derivation.utf16 label))]] ++
    (keyId.map fun id => seqOf [oid oidLocalKeyId, element tagSet (octets id)]).toList)

def encode (type : List Nat) (value : Bytes) (label : String) (keyId : Option Bytes) : Bytes :=
  seqOf [oid type, explicit 0 value, attributeBytes label keyId]

end Bag

/-! ## Guard -/

/-- Keyed hash over the content of a store. -/
structure StoreGuard where
  hash : HashAlgorithm
  digest : Bytes
  salt : Bytes
  iterations : Nat

namespace StoreGuard

def hashOids : List (List Nat × HashAlgorithm) :=
  [([1, 3, 14, 3, 2, 26], .sha1), ([2, 16, 840, 1, 101, 3, 4, 2, 1], .sha256),
   ([2, 16, 840, 1, 101, 3, 4, 2, 2], .sha384), ([2, 16, 840, 1, 101, 3, 4, 2, 3], .sha512)]

def parser : Parser StoreGuard := inWholeSequence do
  let (a, digest) ← inWholeSequence do
    return (← AlgorithmIdentifier.parser, ← tagged tagOctetString)
  let hash ← ofOption (hashOids.lookup a.oid)
  let salt ← tagged tagOctetString
  let iterations ← if ← atEnd then pure 1 else natBelow (bitLimit 31)
  return { hash, digest, salt, iterations }

def digestOf (h : HashAlgorithm) (passphrase : String) (salt : Bytes) (iterations : Nat)
    (content : Bytes) : Bytes :=
  let password := Pkcs12Derivation.password passphrase
  hmac h (Pkcs12Derivation.derive h .mac password salt iterations h.size) content

def accepts (g : StoreGuard) (passphrase : String) (content : Bytes) : Bool :=
  isFirstPlane passphrase && digestOf g.hash passphrase g.salt g.iterations content == g.digest

/-- A new guard with SHA-256. -/
def encode (passphrase : String) (salt content : Bytes) : Bytes :=
  let n := PasswordScheme.iterations
  seqOf [
    seqOf [seqOf [oid [2, 16, 840, 1, 101, 3, 4, 2, 1], null],
      octets (digestOf .sha256 passphrase salt n content)],
    octets salt, nat n]

end StoreGuard

/-! ## Opening a store -/

namespace KeyStore

/-- Content that may be encrypted: the list of bags. -/
def safeContent (passphrase : String) : Parser Bytes := do
  let (type, content) ← contentInfoParser
  if type = oidData then filling (tagged tagOctetString) content
  else if type = oidEncryptedData then
    filling (inWholeSequence do
      let _ ← natBelow 6
      inWholeSequence do
        let _ ← oidValue
        let a ← AlgorithmIdentifier.parser
        ofOption (Bag.decrypt? a passphrase (← tagged (tagImplicit 0)))) content
  else Der.fail

def safe (passphrase : String) : Parser (List (Option Bag)) := do
  filling (inWholeSequence (manyToEnd (Bag.parser passphrase))) (← safeContent passphrase)

/-- All bags of a store, once its guard has accepted the passphrase. -/
def bags (passphrase : String) : Parser (List Bag) := inWholeSequence do
  let version ← natBelow 256
  let (type, content) ← contentInfoParser
  let content ← filling (tagged tagOctetString) content
  let guard ← if ← atEnd then pure none else some <$> StoreGuard.parser
  if version = 3 ∧ type = oidData ∧ guard.all (·.accepts passphrase content) then
    let safes ← filling (inWholeSequence (manyToEnd (safe passphrase))) content
    return safes.flatten.filterMap id
  else Der.fail

/-- A certificate of a store with the names that link it to others. -/
structure Stored where
  der : Bytes
  subject : String
  issuer : String
  friendlyName : Option String
  keyId : Option Bytes

def stored? (b : Bag) : Option (Option Stored) :=
  match b.content with
  | .key _ => some none
  | .certificate der => (CertificateForm.parse? der).map fun f =>
    some ⟨der, f.subject.text, f.issuer.text, b.friendlyName, b.keyId⟩

/-- Issuers of `c` one after another, and the certificates left over. -/
def issuers : Nat → Stored → List Stored → List Stored × List Stored
  | 0, _, others => ([], others)
  | fuel + 1, c, others =>
    if c.issuer = c.subject then ([], others)
    else
      match extractFirst? (fun o => o.subject == c.issuer) others with
      | none => ([], others)
      | some (next, rest) =>
        let (path, left) := issuers fuel next rest
        (next :: path, left)

/-- Adds the entries of the keys, each with its certificates taken from `certs`. -/
def addKeys (s : KeyStore) (certs : List Stored) : List Bag → KeyStore × List Stored
  | [] => (s, certs)
  | b :: bags =>
    match b.content, extractFirst? (fun c => b.keyId.isSome && c.keyId == b.keyId) certs with
    | .key container, some (leaf, rest) =>
      let (path, left) := issuers rest.length leaf rest
      let label := b.friendlyName.getD leaf.subject
      let entry := .key container (b.keyId.getD []) ((leaf :: path).map (·.der))
      addKeys (s.put label entry) left bags
    | _, _ => addKeys s certs bags

def ofBags? (bags : List Bag) : Option KeyStore := do
  let certs ← bags.mapM stored?
  let (s, left) := addKeys {} (certs.filterMap id) bags
  return left.foldl (fun s c => s.put (c.friendlyName.getD c.subject) (.certificate c.der)) s

def open? (der : Bytes) (passphrase : String) : Option KeyStore := do
  if der.length < messageLimit then ofBags? (← (bags passphrase).parseAll? .distinguished der)
  else none

/-! ## Writing a store -/

def certificateBag (der : Bytes) : String → Option Bytes → Bytes :=
  Bag.encode oidCertificateBag
    (seqOf [oid oidStoredCertificate, explicit 0 (octets der)])

/-- Bags of certificates and bags of keys, the keys encrypted. -/
def entryBags (scheme : PasswordScheme) (passphrase : Bytes) :
    String × StoreEntry → List Bytes × List Bytes
  | (label, .certificate der) => ([certificateBag der label none], [])
  | (label, .key container id chain) =>
    (chain.map fun der => certificateBag der label (some id),
      [Bag.encode oidShroudedKeyBag
        (seqOf [scheme.encode, octets (scheme.encrypt passphrase container)]) label (some id)])

def encode (s : KeyStore) (m : Moment) (passphrase : String) : Bytes :=
  let random := m.random 80
  let password := Bytes.ofText passphrase
  let scheme := PasswordScheme.fresh (random.take 32)
  let parts := s.entries.map (entryBags (PasswordScheme.fresh ((random.drop 32).take 32)) password)
  let certificates := seqOf (parts.flatMap (·.1))
  let encrypted := seqOf [nat 0, seqOf [oid oidData, scheme.encode,
    implicit 0 (scheme.encrypt password certificates)]]
  let keys := octets (seqOf (parts.flatMap (·.2)))
  let content := seqOf [contentInfo oidEncryptedData encrypted, contentInfo oidData keys]
  seqOf [nat 3, contentInfo oidData (octets content),
    StoreGuard.encode passphrase (random.drop 64) content]

end KeyStore

/-! ## Certificates as stores -/

/-- Alias of the certificate at a place in the chain. -/
def chainLabel (i : Nat) : String := "chain-" ++ Text.padded 3 i

/-- The key and its certificate under the friendly name, else under the subject, and the chain. -/
def storeOf (container leaf : Bytes) (subject : String) (chain : List Bytes) : KeyStore :=
  let first := KeyStore.put {} subject (.key container (Sha1.digest leaf) [leaf])
  (chain.zipIdx).foldl (fun s (der, i) => s.put (chainLabel i) (.certificate der)) first

def subjectText? (der : Bytes) : Option String :=
  (CertificateForm.parse? der).map fun f => f.subject.text

def encodeStore (m : Moment) (leaf : Certificate) (o : EncodeOptions) : BackendResult Bytes :=
  let passphrase := o.passphrase.getD ""
  match o.embedKey with
  | none => Outcome.fail (.invalidSpec "private_key" "PKCS#12 output needs the private key")
  | some key =>
    match (leaf :: o.chain).mapM fun c => subjectText? c.encoded with
    | some (subject :: _) =>
      let s := storeOf key.encoded leaf.encoded (o.friendlyName.getD subject)
        (o.chain.map (·.encoded))
      if isFirstPlane passphrase ∧ s.entries.all fun (label, _) => isFirstPlane label then
        let data := s.encode m passphrase
        if data.length < messageLimit then .ok data else Outcome.fail (.crypto "store is too large")
      else Outcome.fail (.crypto "character outside the first plane")
    | _ => Outcome.fail (.crypto "malformed certificate")

/-- A sequence that begins with version 3 and holds one or two elements more. -/
def isStore (b : Bytes) : Bool :=
  (do
    let (h, b) ← Outline.header? b
    let b ← if h.length.all (· == b.length) then some b else none
    let (version, b) ← Outline.header? b
    let b ← Bytes.dropPrefix? [3] b
    if h.tag = tagSequence ∧ version = ⟨tagInteger, some 1⟩ then
      let b ← Outline.skip? b
      Outline.ended? h ((Outline.skip? b).getD b)
    else none) == some []

/-- The store, and whether the passphrase was needed to open it. -/
def openStore (b : Bytes) (passphrase : Option String) : BackendResult (KeyStore × Bool) :=
  match passphrase with
  | none | some "" =>
    match KeyStore.open? b "" with
    | some s => .ok (s, false)
    | none => Outcome.fail .encrypted
  | some p =>
    match KeyStore.open? b p with
    | some s => .ok (s, true)
    | none => match KeyStore.open? b "" with
      | some s => .ok (s, false)
      | none => Outcome.fail .wrongPassphrase

def decodeStore (b : Bytes) (passphrase : Option String) : BackendResult LoadedArtifact := do
  if !isStore b then Outcome.fail (.unrecognized "pkcs12")
  else
    let (s, isProtected) ← openStore b passphrase
    match s.key? with
    | none => Outcome.fail (.unrecognized "pkcs12")
    | some (label, leaf, chain) =>
      let chain ← (chain ++ s.certificates).mapM loadCertificate
      let certificate ← loadCertificate leaf
      let friendlyName := if subjectText? leaf = some label then none else some label
      return { certificate, encoding := .pkcs12, chain, friendlyName, isProtected }

end CertAuthority.X509
