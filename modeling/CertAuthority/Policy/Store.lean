import CertAuthority.Config.Basic
import CertAuthority.Peer.Envelope

/-!
# Where policies are found

* `PolicyCache` : descriptions of remote policies fetched during a run, by peer, family and policy
  name. A description is fetched at most once and never forgotten; a failed fetch leaves no trace;
* `PolicyStore.layered` : stores in which an authority looks up its own policies, consulted in order.
  A policy is taken whole from the first store that has one of its name;
* `PolicyStore.ofConfig` : the policies of this node alone come first.
-/

namespace CertAuthority

/-! ## Policies of remote authorities -/

structure PolicyKey where
  peer : String
  kind : CertificateKind
  policy : String
deriving DecidableEq, Repr

structure PolicyCache where
  entries : List (PolicyKey × PolicyDescription) := []
deriving Inhabited

namespace PolicyCache

def get? (c : PolicyCache) (k : PolicyKey) : Option PolicyDescription := c.entries.lookup k

def insert (c : PolicyCache) (k : PolicyKey) (d : PolicyDescription) : PolicyCache :=
  ⟨c.entries ++ [(k, d)]⟩

def size (c : PolicyCache) : Nat := c.entries.length

/-- The description of a key, fetched where the cache has none, and the cache from then on. -/
def getOrFetch {m : Type → Type} [Monad m] {ε : Type} (c : PolicyCache) (k : PolicyKey)
    (fetch : m (Except ε PolicyDescription)) : m (Except ε PolicyDescription × PolicyCache) :=
  match c.get? k with
  | some d => pure (.ok d, c)
  | none => do
    match ← fetch with
    | .ok d => return (.ok d, c.insert k d)
    | .error e => return (.error e, c)

end PolicyCache

/-! ## Policy stores -/

/-- A policy by family and name, if there is one. -/
abbrev PolicyStore := CertificateKind → String → Outcome Error (Option SigningPolicy)

namespace PolicyStore

def ofTables (t : PolicyTables) : PolicyStore := t.get

def layered : List PolicyStore → PolicyStore
  | [], _, _ => .ok none
  | store :: rest, kind, name => do
    match ← store kind name with
    | some p => return some p
    | none => layered rest kind name

def ofConfig (c : Config) (files : String → Option Bytes) : Outcome Error PolicyStore := do
  let overrides ← c.overrideTables files
  return layered (overrides.toList.map ofTables ++ [ofTables c.policies])

end PolicyStore
end CertAuthority
