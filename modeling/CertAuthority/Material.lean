import CertAuthority.Json.Basic
import CertAuthority.Text.Quoted

/-!
# Key material and principals

`Material` is a key, certificate or signing request, on disk or inline. `Principals` are the names
an OpenSSH certificate is valid for.
-/

namespace CertAuthority

inductive Material where
  /-- A path that the node doing the work can read -/
  | path (p : String)
  /-- Encoded bytes -/
  | inline (b : Bytes)
deriving DecidableEq, Repr, Inhabited

namespace Material

def isInline : Material → Bool
  | .inline _ => true
  | .path _ => false

/-- What a debugging view shows; inline bytes may be a private key and are only counted. -/
def debug : Material → String
  | .path p => "Path(" ++ Text.quotedPath p ++ ")"
  | .inline b => "Inline(<" ++ toString b.length ++ " bytes>)"

/-- Text is inline where it looks like PEM or an OpenSSH key line, and a path otherwise. -/
def ofText (s : String) : Material :=
  let t := Text.trimStart s
  if t.startsWith "-----BEGIN" ∨ t.startsWith "ssh-" ∨ t.startsWith "ecdsa-" then
    .inline (Bytes.ofText s)
  else .path s

def toJson : Material → Json
  | .path p => .obj [("path", .str p)]
  | .inline b => .obj [("inline", Json.ofBytes b)]

def read : Json.Reader Material
  | .obj [("path", j)] => .path <$> Json.asString j
  | .obj [("inline", j)] => .inline <$> Json.asBase64 j
  | _ => Json.mismatch

end Material

inductive Principals where
  /-- Nothing requested -/
  | unspecified
  | list (names : List String)
  /-- Valid for every principal -/
  | all
deriving DecidableEq, Repr, Inhabited

namespace Principals

def isUnspecified (p : Principals) : Bool := p == .unspecified

def toJson : Principals → Json
  | .unspecified => .str "unspecified"
  | .list names => .obj [("list", Json.ofStrings names)]
  | .all => .str "all"

def read : Json.Reader Principals
  | .str "unspecified" | .obj [("unspecified", .null)] => .ok .unspecified
  | .str "all" | .obj [("all", .null)] => .ok .all
  | .obj [("list", j)] => .list <$> Json.asList Json.asString j
  | _ => Json.mismatch

end Principals
end CertAuthority
