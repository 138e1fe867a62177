import CertAuthority.Proofs.Issue.Failures
import CertAuthority.Proofs.Issue.Twins
import CertAuthority.Proofs.Peer.Admission
import CertAuthority.Proofs.Peer.Confinement
import CertAuthority.Proofs.Peer.Envelopes

/-!
# What a requester and an authority tell each other

An envelope arrives as it was sent, apart from the identity, and so does the reply. A reply holds
either data or errors, so the requester ends up with the data or with exactly those errors.

* `ReplyEnvelope.IsDecided` : the replies of that form, which are read back (`decodeReply_toJson`);
* `Authority.isDecided_answer` : an authority replies to any arguments so, as long as its policies
  can be written and a failure to find one can be told (`PolicyStore.IsServable`);
* `Channel.run_request`, `Authority.run_request` : what a client makes of such a reply;
* `Authority.messages_arrive` : all of that about calls.
-/

namespace CertAuthority

/-! ## Replies -/

namespace ReplyEnvelope

/-- Either data that can be written, or errors, and not both. -/
inductive IsDecided : ReplyEnvelope → Prop
  | data {d : ReplyData} (h : d.IsWritable) : IsDecided (.ofData d)
  | errors {es : List String} (h : es ≠ []) : IsDecided (.ofErrors es)

/-- What the reply means to the requester. -/
def outcome (r : ReplyEnvelope) : Outcome Error ReplyData :=
  r.result.mapError fun e => .error (.transport e)

theorem result_ofErrors {es : List String} (h : es ≠ []) :
    (ofErrors es).result = .error (.remoteError es) := by
  cases es with
  | nil => exact absurd rfl h
  | cons e es => rfl

namespace IsDecided

variable {r : ReplyEnvelope}

theorem read_toJson (h : r.IsDecided) : read r.toJson = .ok r := by
  refine (codes fun d hd => ?_).read_write
  cases h with
  | data hw =>
    obtain rfl := Option.some.inj hd
    exact hw
  | errors _ => cases hd

theorem decodeReply_toJson (h : r.IsDecided) : Channel.decodeReply r.toJson = r.result := by
  rw [Channel.decodeReply, h.read_toJson]
  rfl

end IsDecided
end ReplyEnvelope

/-! ## Authorities -/

/-- The policies can be written, and a failure to find one can be told. -/
structure PolicyStore.IsServable (store : PolicyStore) : Prop where
  policies {kind : CertificateKind} {name : String} {p : SigningPolicy}
    (h : store kind name = .ok (some p)) : p.IsWritable
  failures (kind : CertificateKind) (name : String) : Outcome.IsTold (store kind name)

namespace Authority

open Run (Ends)

variable {σ : Type} {a : Authority σ} {p : SigningPolicy}

theorem isDecided_refusal {e : Error} (h : e.HasMessages) : (refusal e).IsDecided := by
  unfold refusal
  split
  · exact .errors (List.cons_ne_nil _ _)
  · exact .errors (Error.remoteMessages_ne_nil h)

theorem isDecided_replyTo {o : Outcome Error ReplyData} (hvalue : ∀ d, o = .ok d → d.IsWritable)
    (htold : Outcome.IsTold o) : (replyTo o).IsDecided := by
  obtain (e | _) | d := o
  · exact .errors (Error.remoteMessages_ne_nil (htold e rfl))
  · exact .errors (List.cons_ne_nil _ _)
  · exact .data (hvalue d rfl)

theorem ends_identity (r : CertificateRequest) : Ends (a.identity r) fun _ => True := by
  refine (a.site.ends_signer r).bind fun signing _ => ?_
  split
  · exact .pure trivial
  · exact (a.site.ends_signerIdentity r).bind fun _ _ =>
      .ofOutcome (.ofOption Error.hasMessages_missingSigningKey _)

theorem ends_describe (p : SigningPolicy) :
    Ends (a.describe p) fun d => d.policy = p.redacted := by
  refine (ends_identity _).bind fun identity _ => (Ends.backendAt _ _).bind fun _ _ =>
    Ends.bind (Q := fun _ => True) ?_ fun _ _ => .pure rfl
  cases identity.certificate with
  | none => exact .pure trivial
  | some c => exact (a.site.ends_encodePlain _ _ c).map some fun _ _ => trivial

theorem ends_perform (hp : p.IsWritable) (e : RequestEnvelope) :
    Ends (a.perform p e) ReplyData.IsWritable := by
  unfold perform
  split
  · refine (ends_describe p).map _ fun d hd description hdescription => ?_
    obtain rfl := ReplyData.policy.inj hdescription
    rw [hd]
    exact hp.redacted
  · refine Ends.map (Q := fun _ => True) _ ?_ fun b _ => ReplyData.isWritable_certificate b
    exact (a.site.ends_issue _).bind fun _ _ => a.site.ends_encodePlain _ _ _

variable (hstore : a.store.IsServable)
include hstore

theorem isWritable_of_authorize {e : RequestEnvelope} (h : a.authorize e = .ok p) :
    p.IsWritable := by
  obtain ⟨q, hq, rfl⟩ := (a.authorize_eq_ok_iff e p).1 h
  exact { hstore.policies hq.found with }

theorem isTold_authorize (e : RequestEnvelope) : Outcome.IsTold (a.authorize e) := by
  refine .bind ((hstore.failures _ _).atStage _) fun found => ?_
  refine .bind (.ofOption (Error.hasMessages_policy _) found) fun p => ?_
  split
  · exact .ok p
  · exact (.bind (.ofExcept Error.hasMessages_policy _) fun _ => .ok _)

theorem isDecided_serve (e : RequestEnvelope) (w : World σ) : (a.serve e w).1.IsDecided := by
  cases h : a.authorize e with
  | ok p =>
    have hends := ends_perform (a := a) (isWritable_of_authorize hstore h) e
    rw [serve_of_authorize h]
    exact isDecided_replyTo (fun d hd => hends.value _ d hd) (hends.failure _)
  | error fault =>
    unfold serve
    rw [h]
    cases fault with
    | error why => exact isDecided_refusal (isTold_authorize hstore e why h)
    | abandoned => exact .errors (List.cons_ne_nil _ _)

/-- Whatever the arguments are, the reply has either data or errors. -/
theorem isDecided_answer (identity : Option String) (args : Json) (w : World σ) :
    ((a.answer identity args).run w).1.IsDecided := by
  unfold answer
  split
  · exact isDecided_serve hstore _ w
  · exact .errors (List.cons_ne_nil _ _)

end Authority

/-! ## Clients -/

namespace ReplyData

/-- The certificate, where that was asked for. -/
def certificate? : ReplyData → Outcome Error Bytes
  | .certificate b => .ok b
  | .policy _ => Outcome.fail (.transport .notCertificate)

end ReplyData

namespace Channel

open Run (run_bind run_note run_ofOutcome run_onWorld)

variable {σ : Type} {c : Channel σ} {peer : String}

/-- A client gets what the reply of the peer means. -/
theorem run_request {e : RequestEnvelope} {reply : ReplyEnvelope} {s : RunState σ} {w : World σ}
    (h : reply.IsDecided)
    (hcall : (c peer signProcedure e.toJson).run s.world = (some [(peer, reply.toJson)], w)) :
    (c.request peer e).run.run s =
      (reply.outcome,
        { s with world := w, journal := s.journal ++ [.ask peer signProcedure e.toJson] }) := by
  have hpeer : replyOf? peer [(peer, reply.toJson)] = some reply.toJson := by simp [replyOf?]
  rw [request, run_bind, run_note]
  simp only [run_bind, run_onWorld, hcall, Option.bind_some, hpeer, Run.ofOption, Outcome.ofOption,
    run_ofOutcome, h.decodeReply_toJson]
  rfl

/-- What comes of a call that only takes certificates. -/
theorem run_sign {policy : String} {r : CertificateRequest} {result : Outcome Error ReplyData}
    {s t : RunState σ}
    (h : (c.request peer { policyName := policy, request := r.forRemote }).run.run s =
      (result, t)) :
    (c.sign peer policy r).run.run s = (result >>= ReplyData.certificate?, t) := by
  rw [sign, run_bind, h]
  obtain _ | _ | _ := result <;> rfl

end Channel

/-! ## Calls -/

namespace Authority

variable {σ : Type}

theorem outcome_replyTo_eq_ok_iff {o : Outcome Error ReplyData} {d : ReplyData} :
    (replyTo o).outcome = .ok d ↔ o = .ok d := by
  have herrors (es : List String) : (ReplyEnvelope.ofErrors es).outcome ≠ .ok d := by
    cases es <;> exact nofun
  obtain (e | _) | d' := o
  · exact iff_of_false (herrors _) nofun
  · exact iff_of_false (herrors _) nofun
  · exact Iff.rfl

/-- A client gets what the authority makes of its envelope. -/
theorem run_request {authorities : List (String × Authority σ)} {identity : Option String}
    {peer : String} {a : Authority σ} (ha : authorities.lookup peer = some a)
    (hstore : a.store.IsServable) {e : RequestEnvelope} (he : e.request.IsWritable)
    (s : RunState σ) :
    ((channel authorities identity).request peer e).run.run s =
      (((a.handle { e with identity }).run s.world).1.outcome,
        { s with
          world := ((a.handle { e with identity }).run s.world).2
          journal := s.journal ++ [.ask peer signProcedure e.toJson] }) :=
  Channel.run_request (isDecided_serve hstore _ s.world)
    (channel_of_reads rfl ha (RequestEnvelope.codes he).read_write s.world)

/-- **Messages arrive as they were sent.** An authority reads from an envelope what was put into it,
and serves that as the caller of the channel, so a client that asks for a signature has the request
served that may leave its node. Whatever the arguments of a call are, there is one reply. It is read
as it was made, with either data or errors in it, and the client gets the data or those errors. -/
theorem messages_arrive (authorities : List (String × Authority σ)) (identity : Option String)
    {peer : String} {a : Authority σ} (ha : authorities.lookup peer = some a)
    (hstore : a.store.IsServable) :
    let c := channel authorities identity
    let after (s : RunState σ) (e : RequestEnvelope) : RunState σ :=
      { s with
        world := ((a.handle { e with identity }).run s.world).2
        journal := s.journal ++ [.ask peer signProcedure e.toJson] }
    (∀ e, e.request.IsWritable → RequestEnvelope.read e.toJson = .ok e ∧
      ∀ s, (c.request peer e).run.run s =
        (((a.handle { e with identity }).run s.world).1.outcome, after s e)) ∧
    (∀ policy r, r.forRemote.IsWritable →
      let e : RequestEnvelope := { policyName := policy, request := r.forRemote }
      ∀ s, (c.sign peer policy r).run.run s =
        (((a.handle { e with identity }).run s.world).1.outcome >>= ReplyData.certificate?,
          after s e)) ∧
    ∀ args w, ∃ reply w', (a.answer identity args).run w = (reply, w') ∧
      (c peer signProcedure args).run w = (some [(peer, reply.toJson)], w') ∧
      ReplyEnvelope.read reply.toJson = .ok reply ∧
      ((∃ d, reply = .ofData d ∧ Channel.decodeReply reply.toJson = .ok d) ∨
        ∃ es, es ≠ [] ∧ reply = .ofErrors es ∧
          Channel.decodeReply reply.toJson = .error (.remoteError es)) := by
  intro c after
  refine ⟨fun e he => ⟨(RequestEnvelope.codes he).read_write, run_request ha hstore he⟩, ?_, ?_⟩
  · intro policy r hr e s
    exact Channel.run_sign (run_request ha hstore hr s)
  · intro args w
    have hdecided := isDecided_answer hstore identity args w
    obtain ⟨reply, w', hanswer⟩ : ∃ reply w', (a.answer identity args).run w = (reply, w') :=
      ⟨_, _, rfl⟩
    rw [hanswer] at hdecided
    refine ⟨reply, w', hanswer, ?_, hdecided.read_toJson, ?_⟩
    · simp only [c, channel, ha]
      exact congrArg (fun r => (some [(peer, r.1.toJson)], r.2)) hanswer
    · rw [hdecided.decodeReply_toJson]
      cases hdecided with
      | data _ => exact .inl ⟨_, rfl, rfl⟩
      | errors hes => exact .inr ⟨_, hes, rfl, ReplyEnvelope.result_ofErrors hes⟩

/-! ## A policy for one group of machines, from afar -/

theorem isServable_webAuthority : webAuthority.store.IsServable := by
  refine ⟨fun {kind name p} h => ?_, fun kind name => .ok _⟩
  have hp : webPolicy = p := by
    by_cases hnamed : kind = .x509 ∧ name = "www"
    · simpa [webAuthority, hnamed] using h
    · simp [webAuthority, hnamed] at h
  rw [← hp]
  exact ⟨nofun, nofun, nofun, nofun, nofun, nofun, nofun, nofun⟩

/-- The machine `web01` gets the policy as it is published, `db01` is told why not, and so is a
machine that sends something else. -/
theorem messages_arrive_web :
    let w : World Unit := { files := (), now := .ofSeconds 0, seed := [] }
    let call (identity : String) (args : Json) :=
      (channel [("ca", webAuthority)] (some identity) "ca" signProcedure args).run w
    let asked (identity : String) :=
      ((channel [("ca", webAuthority)] (some identity)).request "ca" (inquiry "")).run.run
        ⟨w, [], {}⟩
    [("ca", webAuthority)].lookup "ca" = some webAuthority ∧ webAuthority.store.IsServable ∧
    (inquiry "").request.IsWritable ∧
    (∃ d, (asked "web01").1 = .ok (.policy d) ∧ d.policy = webPolicy.redacted) ∧
    (asked "db01").1 = Outcome.fail (.transport (.remoteError
      ["requester not permitted to use specified signing policy"])) ∧
    ∃ reply, call "web01" .null = (some [("ca", reply)], w) ∧
      Channel.decodeReply reply = .error (.remoteError ["invalid request: "]) := by
  intro w call asked
  have arrive (identity : String) := @messages_arrive _ [("ca", webAuthority)] (some identity)
    "ca" _ rfl isServable_webAuthority
  have hwritable : (inquiry "").request.IsWritable := CertificateRequest.isWritable_new .x509
  have hasked (identity : String) : asked identity = _ :=
    ((arrive identity).1 _ hwritable).2 ⟨w, [], {}⟩
  refine ⟨rfl, isServable_webAuthority, hwritable, ?_, ?_, ?_⟩
  · rw [hasked]
    exact ⟨_, rfl, rfl⟩
  · rw [hasked]
    rfl
  · obtain ⟨reply, w', hanswer, hcall, -, hdecode⟩ := (arrive "web01").2.2 .null w
    cases hanswer
    exact ⟨_, hcall, rfl⟩

end Authority
end CertAuthority
