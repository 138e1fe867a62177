import CertAuthority.OpenSsh.Backend
import CertAuthority.X509.Backend

/-!
# Backends by family
-/

namespace CertAuthority

def CertificateKind.backend : CertificateKind → Backend
  | .x509 => .x509
  | .ssh => .ssh

end CertAuthority
