import CertAuthority.Kind
import CertAuthority.Text.Quoted

/-!
# Errors

One type per layer, named for causes, and `Error` over all of them. An error may carry the stage of
the workflow it surfaced in; the first stage recorded is kept.

* `Error.message` : the text shown to the user, with the stage in front;
* `Error.root`, `Error.stage?` : the two parts of a staged error;
* `Error.remoteMessages` : what a remote requester may see. Failures whose text can name files of
  this node are replaced by a general one;
* `Fault` : a failure that is either an error or an abandoned computation.
-/

namespace CertAuthority

/-- Lookup and authorization of a signing policy. -/
inductive PolicyError where
  | notFound (name : String)
  | requesterNotPermitted
  | requesterUnidentified
  | matcherUnavailable
deriving DecidableEq, Repr

def PolicyError.message : PolicyError → String
  | .notFound _ => "signing_policy must be specified and defined on signing minion"
  | .requesterNotPermitted => "requester not permitted to use specified signing policy"
  | .requesterUnidentified => "requester sending this request could not be identified"
  | .matcherUnavailable => "compound requester matching is not available on this node"

/-- Keys, certificates and their formats. -/
inductive BackendError where
  | encrypted
  | wrongPassphrase
  | unrecognized (what : String)
  | invalidSpec (field reason : String)
  | unsupportedDigest (digest : String)
  | unsupportedEncoding (encoding : Encoding)
  /-- Failure of a cryptographic or format layer -/
  | crypto (text : String)
deriving DecidableEq, Repr, Inhabited

def BackendError.message : BackendError → String
  | .encrypted => "input is encrypted and no passphrase was supplied"
  | .wrongPassphrase => "wrong passphrase for encrypted input"
  | .unrecognized what => "could not load " ++ what ++ ": unrecognized format"
  | .invalidSpec field reason => "invalid value for " ++ field ++ ": " ++ reason
  | .unsupportedDigest d => Digest.unsupported d
  | .unsupportedEncoding e => "encoding " ++ e.title ++ " is not supported by this backend"
  | .crypto text => "crypto error: " ++ text

/-- Talking to a remote authority. -/
inductive TransportError where
  | noResponse (peer : String)
  | malformedReply (why : String)
  | remoteError (messages : List String)
deriving DecidableEq, Repr

def TransportError.message : TransportError → String
  | .noResponse peer => "ca_server " ++ peer ++
      " did not respond, it might be missing or the request was not authorized"
  | .malformedReply why => "ca_server returned a malformed reply: " ++ why
  | .remoteError messages => "ca_server reported errors:\n" ++ "\n".intercalate messages

/-- Reading and writing files. -/
inductive FileError where
  | symlinkNotAllowed (path : String)
  | unsafeName (name : String)
  | io (path text : String)
deriving DecidableEq, Repr

def FileError.message : FileError → String
  | .symlinkNotAllowed path =>
    path ++ " is a symlink, refusing to replace it without overwrite_symlink"
  | .unsafeName name => "refusing to write " ++ Text.quoted name ++ ": not a plain file name"
  | .io path text => "i/o error on " ++ path ++ ": " ++ text

/-- Reading a configuration and following it. -/
inductive ConfigError where
  | notText
  | notToml
  /-- A setting outside the policies -/
  | wrongType
  /-- A policy is refused; the reason is left out where it is only a wrong type -/
  | policy (name : String) (why : Option String)
  /-- A remote authority is named, and none can be reached -/
  | noChannel (peer : String)
  | other (text : String)
deriving DecidableEq, Repr

def ConfigError.message : ConfigError → String
  | .notText => "not UTF-8 text"
  | .notToml => "not a TOML document"
  | .wrongType => "a setting has the wrong type"
  | .policy name none => "signing policy " ++ Text.quoted name
  | .policy name (some why) => "signing policy " ++ Text.quoted name ++ ": " ++ why
  | .noChannel peer => "ca_server " ++ peer ++ " given but no peer channel configured"
  | .other text => text

/-- Step of the issuance workflow. -/
inductive Stage where
  | loadingPolicy | loadingSigningKey | loadingSigningCert | derivingPublicKey | loadingExisting
  | generatingKey | loadingRevoked | buildingDraft | signing | encoding | writingArtifact
  | writingCopy | requestingPeer
deriving DecidableEq, Repr, Inhabited

namespace Stage

def all : List Stage :=
  [.loadingPolicy, .loadingSigningKey, .loadingSigningCert, .derivingPublicKey, .loadingExisting,
   .generatingKey, .loadingRevoked, .buildingDraft, .signing, .encoding, .writingArtifact,
   .writingCopy, .requestingPeer]

def name : Stage → String
  | .loadingPolicy => "LoadingPolicy"
  | .loadingSigningKey => "LoadingSigningKey"
  | .loadingSigningCert => "LoadingSigningCert"
  | .derivingPublicKey => "DerivingPublicKey"
  | .loadingExisting => "LoadingExisting"
  | .generatingKey => "GeneratingKey"
  | .loadingRevoked => "LoadingRevoked"
  | .buildingDraft => "BuildingDraft"
  | .signing => "Signing"
  | .encoding => "Encoding"
  | .writingArtifact => "WritingArtifact"
  | .writingCopy => "WritingCopy"
  | .requestingPeer => "RequestingPeer"

def read : Json.Reader Stage := Json.asNamed all name

end Stage

def Stage.text : Stage → String
  | .loadingPolicy => "while loading signing policy"
  | .loadingSigningKey => "while loading signing key"
  | .loadingSigningCert => "while loading signing certificate"
  | .derivingPublicKey => "while deriving public key"
  | .loadingExisting => "while loading existing artifact"
  | .generatingKey => "while generating private key"
  | .loadingRevoked => "while loading revoked certificates"
  | .buildingDraft => "while building draft"
  | .signing => "while signing"
  | .encoding => "while encoding"
  | .writingArtifact => "while writing artifact"
  | .writingCopy => "while writing copy"
  | .requestingPeer => "while requesting remote signing"

inductive Error where
  | policy (e : PolicyError)
  | backend (e : BackendError)
  | transport (e : TransportError)
  | file (e : FileError)
  | missingSigningKey
  | config (e : ConfigError)
  /-- A payload that could not be written as JSON or read from it -/
  | json (text : String)
  /-- Another error with the stage it surfaced in -/
  | staged (stage : Stage) (e : Error)
deriving DecidableEq, Repr

namespace Error

/-- Records a stage, unless there is one already. -/
def atStage (s : Stage) : Error → Error
  | .staged t e => .staged t e
  | e => .staged s e

def root : Error → Error
  | .staged _ e => e.root
  | e => e

def stage? : Error → Option Stage
  | .staged s _ => some s
  | _ => none

def message : Error → String
  | .policy e => e.message
  | .backend e => e.message
  | .transport e => e.message
  | .file e => e.message
  | .missingSigningKey => "no signing_private_key configured and no ca_server given"
  | .config e => "configuration error: " ++ e.message
  | .json text => "JSON error: " ++ text
  | .staged s e => s.text ++ ": " ++ e.message

/-- Name of the cause. -/
def name : Error → String
  | .policy (.notFound _) => "NotFound"
  | .policy .requesterNotPermitted => "RequesterNotPermitted"
  | .policy .requesterUnidentified => "RequesterUnidentified"
  | .policy .matcherUnavailable => "MatcherUnavailable"
  | .backend .encrypted => "Encrypted"
  | .backend .wrongPassphrase => "WrongPassphrase"
  | .backend (.unrecognized _) => "Unrecognized"
  | .backend (.invalidSpec _ _) => "InvalidSpec"
  | .backend (.unsupportedDigest _) => "UnsupportedDigest"
  | .backend (.unsupportedEncoding _) => "UnsupportedEncoding"
  | .backend (.crypto _) => "Crypto"
  | .transport (.noResponse _) => "NoResponse"
  | .transport (.malformedReply _) => "MalformedReply"
  | .transport (.remoteError _) => "RemoteError"
  | .file (.symlinkNotAllowed _) => "SymlinkNotAllowed"
  | .file (.unsafeName _) => "UnsafeName"
  | .file (.io _ _) => "Io"
  | .missingSigningKey => "MissingSigningKey"
  | .config _ => "Config"
  | .json _ => "Json"
  | .staged _ e => e.name

/-- The same call may succeed later. -/
def isRetryable (e : Error) : Bool :=
  match e.root with
  | .transport (.noResponse _) | .file (.io _ _) => true
  | _ => false

def isPolicyError (e : Error) : Bool :=
  match e.root with
  | .policy _ => true
  | _ => false

/-- Stands in for a failure whose text may name local paths. -/
def localFailure : String := "failed on the CA server. See CA server log for details."

def remoteMessages (e : Error) : List String :=
  match e.root with
  | .transport (.remoteError messages) => messages
  | .file _ | .config _ | .backend (.crypto _) =>
    match e.stage? with
    | some s => [s.text ++ ": " ++ localFailure]
    | none => [localFailure]
  | _ => [e.message]

end Error

/-! ## Faults -/

/-- A failure: an error, or a computation abandoned at an arithmetic overflow or a broken
assumption. -/
inductive Fault (ε : Type) where
  | error (e : ε)
  | abandoned
deriving DecidableEq, Repr

abbrev Outcome (ε α : Type) := Except (Fault ε) α

namespace Outcome

def fail {ε α : Type} (e : ε) : Outcome ε α := .error (.error e)

def abandon {ε α : Type} : Outcome ε α := .error .abandoned

def mapError {ε δ α : Type} (f : ε → δ) : Outcome ε α → Outcome δ α
  | .ok a => .ok a
  | .error (.error e) => .error (.error (f e))
  | .error .abandoned => .error .abandoned

/-- The value of an optional step, or `e`. -/
def ofOption {ε α : Type} (e : ε) : Option α → Outcome ε α
  | some a => .ok a
  | none => fail e

/-- Refuses with `e` unless the condition holds. -/
def ensure {ε : Type} (condition : Bool) (e : ε) : Outcome ε Unit :=
  if condition then .ok () else fail e

/-! ### When a step succeeds -/

theorem bind_eq_ok_iff {ε α β : Type} {x : Except ε α} {f : α → Except ε β} {b : β} :
    (x >>= f) = .ok b ↔ ∃ a, x = .ok a ∧ f a = .ok b := by
  cases x <;> simp [bind, Except.bind]

theorem map_eq_ok_iff {ε α β : Type} {f : α → β} {x : Except ε α} {b : β} :
    f <$> x = .ok b ↔ ∃ a, x = .ok a ∧ f a = b := by
  cases x <;> simp [Functor.map, Except.map]

theorem except_mapError_eq_ok_iff {ε δ α : Type} {f : ε → δ} {x : Except ε α} {a : α} :
    x.mapError f = .ok a ↔ x = .ok a := by
  cases x with
  | error e => exact ⟨nofun, nofun⟩
  | ok b => exact ⟨fun h => congrArg _ (Except.ok.inj h), fun h => congrArg _ (Except.ok.inj h)⟩

theorem mapError_eq_ok_iff {ε δ α : Type} {f : ε → δ} {x : Outcome ε α} {a : α} :
    mapError f x = .ok a ↔ x = .ok a := by
  obtain (_ | _) | _ := x <;> simp [mapError]

theorem exists_eq_ok_of_isOk {ε α : Type} {x : Except ε α} (h : x.isOk = true) :
    ∃ a, x = .ok a := by
  cases x with
  | ok a => exact ⟨a, rfl⟩
  | error e => cases h

theorem toOption_eq_some_iff {ε α : Type} {x : Except ε α} {a : α} :
    x.toOption = some a ↔ x = .ok a := by
  cases x <;> simp [Except.toOption]

theorem ofOption_eq_ok_iff {ε α : Type} {e : ε} {x : Option α} {a : α} :
    ofOption e x = .ok a ↔ x = some a := by
  cases x <;> simp [ofOption, fail]

theorem ensure_eq_ok_iff {ε : Type} {condition : Bool} {e : ε} {a : Unit} :
    ensure condition e = .ok a ↔ condition = true := by
  cases condition <;> simp [ensure, fail]

section

variable {ε α β γ : Type} {f : α → Except ε β} {xs : List α} {ys : List β}

theorem exists_eq_ok_of_mapM (h : xs.mapM f = .ok ys) : ∀ x ∈ xs, ∃ y, f x = .ok y := by
  induction xs generalizing ys with
  | nil => exact nofun
  | cons x xs ih =>
    simp only [List.mapM_cons, bind_eq_ok_iff] at h
    obtain ⟨y, hy, rest, hrest, -⟩ := h
    exact List.forall_mem_cons.2 ⟨⟨y, hy⟩, ih hrest⟩

theorem mem_iff_of_mapM (h : xs.mapM f = .ok ys) (y : β) : y ∈ ys ↔ ∃ x ∈ xs, f x = .ok y := by
  induction xs generalizing ys with
  | nil =>
    obtain rfl := Except.ok.inj h
    simp
  | cons x xs ih =>
    simp only [List.mapM_cons, bind_eq_ok_iff] at h
    obtain ⟨first, hfirst, rest, hrest, h⟩ := h
    obtain rfl := Except.ok.inj h
    simp only [List.mem_cons, ih hrest, or_and_right, exists_or, exists_eq_left, hfirst,
      Except.ok.injEq]
    exact or_congr_left eq_comm

theorem ne_nil_of_mapM (h : xs.mapM f = .ok ys) (hne : xs ≠ []) : ys ≠ [] := by
  obtain ⟨x, hx⟩ := List.exists_mem_of_ne_nil xs hne
  obtain ⟨y, hy⟩ := exists_eq_ok_of_mapM h x hx
  exact List.ne_nil_of_mem ((mem_iff_of_mapM h y).2 ⟨x, hx, hy⟩)

/-- What holds of each result on its own holds of the results of a run over a list. -/
theorem of_mapM {P : β → Prop} {g : β → γ} {k : α → γ}
    (hf : ∀ x ∈ xs, ∀ y, f x = .ok y → P y ∧ g y = k x) (h : xs.mapM f = .ok ys) :
    (∀ y ∈ ys, P y) ∧ ys.map g = xs.map k := by
  induction xs generalizing ys with
  | nil =>
    obtain rfl := Except.ok.inj h
    exact ⟨nofun, rfl⟩
  | cons x xs ih =>
    simp only [List.mapM_cons, bind_eq_ok_iff] at h
    obtain ⟨y, hy, rest, hrest, h⟩ := h
    obtain rfl := Except.ok.inj h
    obtain ⟨hP, hg⟩ := hf x List.mem_cons_self y hy
    obtain ⟨hall, hmap⟩ := ih (fun z hz => hf z (List.mem_cons_of_mem x hz)) hrest
    exact ⟨List.forall_mem_cons.2 ⟨hP, hall⟩, by rw [List.map_cons, List.map_cons, hg, hmap]⟩

/-- What holds at first and is kept by each step of a fold holds in the end. -/
theorem of_foldlM {f : β → α → Except ε β} {P : β → Prop} {b b' : β}
    (hf : ∀ a ∈ xs, ∀ b b', P b → f b a = .ok b' → P b') (hb : P b)
    (h : xs.foldlM f b = .ok b') : P b' := by
  induction xs generalizing b with
  | nil => exact Except.ok.inj h ▸ hb
  | cons a xs ih =>
    rw [List.foldlM_cons, bind_eq_ok_iff] at h
    obtain ⟨next, hnext, hrest⟩ := h
    rw [List.forall_mem_cons] at hf
    exact ih hf.2 (hf.1 b next hb hnext) hrest

end

/-! ### When a step is abandoned -/

theorem ok_ne_abandon {ε α : Type} (a : α) : (.ok a : Outcome ε α) ≠ abandon := by
  intro h
  cases h

theorem fail_ne_abandon {ε α : Type} (e : ε) : (fail e : Outcome ε α) ≠ abandon := by
  intro h
  cases h

theorem bind_eq_abandon_iff {ε α β : Type} {x : Outcome ε α} {f : α → Outcome ε β} :
    (x >>= f) = abandon ↔ x = abandon ∨ ∃ a, x = .ok a ∧ f a = abandon := by
  cases x <;> simp [bind, Except.bind, abandon]

theorem bind_ne_abandon {ε α β : Type} {x : Outcome ε α} {f : α → Outcome ε β}
    (hx : x ≠ abandon) (hf : ∀ a, f a ≠ abandon) : (x >>= f) ≠ abandon := by
  rw [Ne, bind_eq_abandon_iff]
  rintro (h | ⟨a, -, h⟩)
  · exact hx h
  · exact hf a h

/-! ### When a step fails -/

/-- The step comes to no failures but those `P`. -/
def FailsOnly {ε α : Type} (P : ε → Prop) (x : Except ε α) : Prop := ∀ why, x = .error why → P why

namespace FailsOnly

variable {ε α β : Type} {P Q : ε → Prop} {x : Except ε α} {f : α → Except ε β} {xs : List α}

theorem ok (a : α) : FailsOnly P (.ok a : Except ε α) := fun _ h => by cases h

theorem error {why : ε} (h : P why) : FailsOnly P (.error why : Except ε α) :=
  fun _ hwhy => Except.error.inj hwhy ▸ h

theorem mono (hx : FailsOnly P x) (h : ∀ why, P why → Q why) : FailsOnly Q x :=
  fun why hwhy => h why (hx why hwhy)

theorem bind (hx : FailsOnly P x) (hf : ∀ a, FailsOnly P (f a)) : FailsOnly P (x >>= f) := by
  cases x with
  | error why => exact error (hx why rfl)
  | ok a => exact hf a

theorem map (hx : FailsOnly P x) (g : α → β) : FailsOnly P (Except.map g x) := by
  cases x with
  | error why => exact error (hx why rfl)
  | ok a => exact ok (g a)

theorem mapM (hf : ∀ a, FailsOnly P (f a)) (xs : List α) : FailsOnly P (xs.mapM f) := by
  induction xs with
  | nil => exact ok []
  | cons a rest ih =>
    rw [List.mapM_cons]
    exact (hf a).bind fun b => ih.bind fun bs => ok (b :: bs)

theorem foldlM {g : β → α → Except ε β} (hg : ∀ a ∈ xs, ∀ b, FailsOnly P (g b a)) (b : β) :
    FailsOnly P (xs.foldlM g b) := by
  induction xs generalizing b with
  | nil => exact ok b
  | cons a rest ih =>
    rw [List.foldlM_cons]
    rw [List.forall_mem_cons] at hg
    exact (hg.1 b).bind (ih hg.2)

end FailsOnly

end Outcome

/-- Result of an operation on keys and certificates. -/
abbrev BackendResult (α : Type) := Outcome BackendError α

end CertAuthority
