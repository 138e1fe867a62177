import CertAuthority.Certificate.Family
import CertAuthority.Certificate.Json
import CertAuthority.Files.Directory
import CertAuthority.Files.Store
import CertAuthority.Managed.Certificate
import CertAuthority.Managed.PrivateKey
import CertAuthority.Managed.RevocationList
import CertAuthority.Managed.SigningRequest
import CertAuthority.Peer.Authority
import CertAuthority.Proofs.Asn1.Reading
import CertAuthority.Proofs.Bytes.Hex
import CertAuthority.Proofs.Certificate.Changes
import CertAuthority.Proofs.Certificate.Drafts
import CertAuthority.Proofs.Issue.Failures
import CertAuthority.Proofs.Issue.Journal
import CertAuthority.Proofs.Issue.Twins
import CertAuthority.Proofs.Json.Members
import CertAuthority.Proofs.Json.Values
import CertAuthority.Proofs.Merge.Extensions
import CertAuthority.Proofs.Merge.Subject
import CertAuthority.Proofs.Merge.Principals
import CertAuthority.Proofs.Merge.Terms
import CertAuthority.Proofs.Merge.Validity
import CertAuthority.Proofs.OpenSsh.Stability
import CertAuthority.Proofs.Peer.Admission
import CertAuthority.Proofs.Peer.Confinement
import CertAuthority.Proofs.Peer.Envelopes
import CertAuthority.Proofs.Peer.Fidelity
import CertAuthority.Proofs.Peer.OwnKey
import CertAuthority.Proofs.Peer.Secrecy
import CertAuthority.Proofs.Time.Calendar
import CertAuthority.Proofs.Time.Rfc3339
import CertAuthority.Proofs.X509.Dates
import CertAuthority.Proofs.X509.Period
import CertAuthority.Proofs.X509.Redrafts
import CertAuthority.Proofs.X509.SubjectKeys
import CertAuthority.Proofs.Text.Armor
import CertAuthority.Proofs.X509.Loading
import CertAuthority.Proofs.Certificate.Handover
import CertAuthority.Proofs.Issue.Steps
import CertAuthority.Proofs.Policy.Lookups
import CertAuthority.Proofs.Managed.Plans
import CertAuthority.Proofs.Peer.Descriptions
import CertAuthority.Proofs.Managed.Remote
import CertAuthority.Proofs.Managed.Stability
import CertAuthority.Proofs.Managed.Atomicity
import CertAuthority.Proofs.Managed.DryRun
import CertAuthority.Proofs.Managed.ReEncoding
import CertAuthority.Proofs.Managed.PrivateKeys
import CertAuthority.Proofs.Managed.ListNumbers
import CertAuthority.Proofs.Managed.RevocationDates
import CertAuthority.Proofs.Managed.Disclosure
import CertAuthority.Proofs.X509.IssuedExtensions
import CertAuthority.Proofs.X509.Bundles
import CertAuthority.Proofs.X509.KeyStores
import CertAuthority.Proofs.Certificate.Principals
import CertAuthority.Proofs.Net.Addresses
import CertAuthority.Proofs.X509.Encodability
import CertAuthority.Proofs.X509.AlternativeNames
import CertAuthority.Proofs.X509.RequestDrift
import CertAuthority.Proofs.Merge.RequestedEnd
import CertAuthority.Proofs.Certificate.SerialNumbers
import CertAuthority.Proofs.X509.Usages
import CertAuthority.Proofs.Name.TextForm
import CertAuthority.Proofs.Config.Durations
import CertAuthority.Proofs.Serial.Spellings
import CertAuthority.Proofs.Certificate.RevocationChanges
import CertAuthority.Proofs.Extension.Differences
import CertAuthority.Proofs.Issue.Copies
import CertAuthority.Proofs.Certificate.Periods
import CertAuthority.Proofs.Certificate.Renewal
import CertAuthority.Proofs.Policy.Restrictions
import CertAuthority.Proofs.Policy.Switches
import CertAuthority.Proofs.Error.Stages
import CertAuthority.Proofs.Certificate.Trials
import CertAuthority.Proofs.Extension.CompactForms
