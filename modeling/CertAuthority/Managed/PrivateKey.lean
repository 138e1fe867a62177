import CertAuthority.Managed.Node

/-!
# Managed private keys

`Node.privateKey` brings the private key at a path in line with what is wanted. A key that cannot be
read, with the passphrase if need be, is an error unless it may be overwritten.
-/

namespace CertAuthority

structure PrivateKeySpec where
  target : Target
  kind : CertificateKind
  algorithm : KeyAlgorithm
  /-- Encrypts the stored key -/
  passphrase : Option String := none
  /-- A fresh key on every run -/
  fresh : Bool := false
  /-- An unusable key is regenerated -/
  overwrite : Bool := false

def PrivateKeySpec.read : Json.Reader PrivateKeySpec := Json.asRecord do
  let target ← Target.read Target.keyMode
  let kind ← Json.field "kind" CertificateKind.read
  let algorithm ← Json.field "algorithm" KeyAlgorithm.read
  let passphrase ← Json.field? "passphrase" Json.asString
  let fresh ← Json.field? "new" Json.asBool
  let overwrite ← Json.field? "overwrite" Json.asBool
  return { target, kind, algorithm, passphrase, fresh := fresh.getD false
           overwrite := overwrite.getD false }

/-- How a stored key differs from the wanted one. -/
structure KeyChanges where
  algorithm : Bool := false
  /-- Encrypted and should not be, or the other way round -/
  passphrase : Bool := false
  /-- Replaced because a fresh key was asked for -/
  rotated : Bool := false
deriving DecidableEq, Repr

namespace KeyChanges

def isEmpty (c : KeyChanges) : Bool := !c.algorithm && !c.passphrase && !c.rotated

def toJson (c : KeyChanges) : Json :=
  .obj [("algorithm", .bool c.algorithm), ("passphrase", .bool c.passphrase),
    ("rotated", .bool c.rotated)]

end KeyChanges

/-- The key in stored bytes, and whether it was encrypted. -/
def Backend.readKey (b : Backend) (data : Bytes) (passphrase : Option String) :
    BackendResult (PrivateKey × Bool) :=
  match b.loadPrivateKey data none, passphrase with
  | .ok key, _ => .ok (key, false)
  | .error (.error .encrypted), some p => do return (← b.loadPrivateKey data (some p), true)
  | .error e, _ => .error e

namespace PrivateKeySpec

def unusable (e : BackendError) : Error :=
  .staged .loadingExisting (.backend (.invalidSpec "overwrite"
    ("existing key is unusable (" ++ e.message ++ "), set overwrite to regenerate it")))

/-- The decision about a key that was read. -/
def decideFor (spec : PrivateKeySpec) (key : PrivateKey) (encrypted : Bool) :
    Decision KeyChanges PrivateKey :=
  let changes : KeyChanges :=
    { algorithm := key.algorithm != spec.algorithm
      passphrase := encrypted != spec.passphrase.isSome }
  if changes.isEmpty then .keep key
  else if changes.algorithm then .issue .changed changes
  else .reEncode key changes

/-- The decision about stored bytes. -/
def decide (spec : PrivateKeySpec) (b : Backend) (data : Bytes) :
    Outcome Error (Decision KeyChanges PrivateKey) :=
  match b.readKey data spec.passphrase with
  | .ok (key, encrypted) => .ok (spec.decideFor key encrypted)
  | .error .abandoned => Outcome.abandon
  | .error (.error e) =>
    if !spec.overwrite then Outcome.fail (unusable e)
    else match e with
      | .encrypted | .wrongPassphrase => .ok (.issue .changed { passphrase := true })
      | _ => .ok (.issue .replaced {})

end PrivateKeySpec

namespace Node

variable {σ : Type}

def decideKey (n : Node σ) (spec : PrivateKeySpec) : Run σ (Decision KeyChanges PrivateKey) := do
  if !(← n.site.has spec.target.path) then return .issue .created {}
  if spec.fresh then return .issue .changed { rotated := true }
  let data ← Run.atStage .loadingExisting (n.site.read spec.target.path)
  Run.ofOutcome (spec.decide (n.site.backend spec.kind) data)

def privateKey (n : Node σ) (spec : PrivateKeySpec) : Run σ (Report KeyChanges PrivateKey) := do
  let b := n.site.backend spec.kind
  let decision ← n.decideKey spec
  n.site.settle spec.target {} decision
    (do Run.backendAt .generatingKey (b.generateKey (← Run.moment) spec.algorithm))
    (fun key => do
      Run.backendAt .encoding (b.encodePrivateKey (← Run.moment) key spec.passphrase))

end Node
end CertAuthority
