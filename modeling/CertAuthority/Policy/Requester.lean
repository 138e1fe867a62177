import CertAuthority.Error
import CertAuthority.Text.Glob

/-!
# Requester matching

A policy may restrict who uses it by an expression. A plain expression is a glob over the identity;
one with an `@` is compound and only a trusted matcher answers it, its glob parts included.
-/

namespace CertAuthority

/-- Answers of a trusted matcher to an expression and an identity, where it has one. -/
abbrev TrustedMatcher := String → String → Option Bool

/-- A trusted matcher with a fixed table; the first entry of an expression and identity counts. -/
def TrustedMatcher.ofTable (entries : List (String × String × Bool)) : TrustedMatcher :=
  fun expression identity =>
    (entries.find? fun (e, i, _) => e == expression && i == identity).map (·.2.2)

/-- A fixed table, each entry a list of expression, identity and answer. -/
def TrustedMatcher.read : Json.Reader TrustedMatcher := fun j => do
  let entry : Json.Reader (String × String × Bool)
    | .arr [e, i, b] => do return (← Json.asString e, ← Json.asString i, ← Json.asBool b)
    | _ => Json.mismatch
  return ofTable (← Json.asList entry j)

/-- The expression needs a trusted matcher. -/
def isCompound (expression : String) : Bool := expression.toList.contains '@'

structure RequesterMatcher where
  trusted : Option TrustedMatcher := none

namespace RequesterMatcher

/-- A malformed glob matches nobody. -/
def permits (m : RequesterMatcher) (expression identity : String) : Except PolicyError Bool :=
  if isCompound expression then
    match m.trusted.bind fun answer => answer expression identity with
    | some b => .ok b
    | none => .error .matcherUnavailable
  else
    match Glob.parse? expression with
    | some pattern => .ok (pattern.accepts identity)
    | none => .ok false

end RequesterMatcher
end CertAuthority
