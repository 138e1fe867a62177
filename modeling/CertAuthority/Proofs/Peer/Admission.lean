import CertAuthority.Peer.Authority
import CertAuthority.Proofs.Text.GlobMatching

/-!
# Who an authority serves

A call over a channel gets data only from an authority that has the policy it names, and whose
matcher admits the caller. Any other call leaves the world as it was.

* `RequesterMatcher.Admits` : the identities that an expression stands for;
* `Authority.Admits` : the policy under which an envelope may be served;
* `Authority.Reaches` : a call that reaches such an authority;
* `authorize_eq_ok_iff` : the check is exactly that, and hands on the policy without its matcher;
* `channel_gate` : what a call can see and do, by whether it reaches.
-/

namespace CertAuthority

/-! ## Expressions -/

/-- Compound expressions stand for what the trusted matcher confirms, all others are globs. -/
def RequesterMatcher.Admits (m : RequesterMatcher) (expression identity : String) : Prop :=
  if '@' ∈ expression.toList then
    ∃ answer, m.trusted = some answer ∧ answer expression identity = some true
  else ∃ pattern, Glob.parse? expression = some pattern ∧ pattern.Matches identity.toList

theorem RequesterMatcher.permits_eq_ok_true_iff (m : RequesterMatcher)
    (expression identity : String) :
    m.permits expression identity = .ok true ↔ m.Admits expression identity := by
  unfold permits Admits isCompound
  by_cases hc : '@' ∈ expression.toList
  · simp only [List.contains_iff_mem.2 hc, if_pos, hc]
    cases m.trusted with
    | none => simp
    | some answer => cases hb : answer expression identity <;> simp [hb]
  · have hf : expression.toList.contains '@' = false := by simpa using hc
    simp only [hf, hc, Bool.false_eq_true, if_false]
    cases Glob.parse? expression with
    | none => simp
    | some pattern => simp [Glob.accepts_iff_matches]

namespace Authority

variable {σ : Type}

/-! ## Envelopes -/

/-- The store has this policy for the request, and its matcher, if any, admits the requester. -/
structure Admits (a : Authority σ) (identity : Option String) (e : RequestEnvelope)
    (p : SigningPolicy) : Prop where
  found : a.store e.request.kind e.policyName = .ok (some p)
  permitted : ∀ expression, p.requesterMatcher = some expression →
    ∃ i, identity = some i ∧ a.matcher.Admits expression i

/-- The envelope's own claim has no part in it. -/
theorem admits_claim_iff (a : Authority σ) (identity claimed : Option String)
    (e : RequestEnvelope) (p : SigningPolicy) :
    a.Admits identity { e with identity := claimed } p ↔ a.Admits identity e p :=
  ⟨fun h => ⟨h.found, h.permitted⟩, fun h => ⟨h.found, h.permitted⟩⟩

theorem permit_eq_ok_iff (a : Authority σ) (expression : String) (identity : Option String) :
    a.permit expression identity = .ok () ↔
      ∃ i, identity = some i ∧ a.matcher.Admits expression i := by
  cases identity with
  | none => simp [permit]
  | some i =>
    simp only [permit, Option.some.injEq, exists_eq_left', ← a.matcher.permits_eq_ok_true_iff]
    cases a.matcher.permits expression i with
    | error why => simp [bind, Except.bind]
    | ok b => cases b <;> simp [bind, Except.bind]

/-- The check hands on the policy found, which no longer names its matcher. -/
theorem authorize_eq_ok_iff (a : Authority σ) (e : RequestEnvelope) (q : SigningPolicy) :
    a.authorize e = .ok q ↔
      ∃ p, a.Admits e.identity e p ∧ q = { p with requesterMatcher := none } := by
  simp only [authorize, Outcome.bind_eq_ok_iff, Outcome.mapError_eq_ok_iff,
    Outcome.ofOption_eq_ok_iff]
  constructor
  · rintro ⟨_, hf, p, rfl, hq⟩
    refine ⟨p, ?_⟩
    cases hm : p.requesterMatcher with
    | none =>
      simp only [hm] at hq
      refine ⟨⟨hf, by simp [hm]⟩, ?_⟩
      rw [← Except.ok.inj hq, ← hm]
    | some expression =>
      simp only [hm, Outcome.bind_eq_ok_iff, Outcome.except_mapError_eq_ok_iff] at hq
      obtain ⟨_, hp, hq⟩ := hq
      rw [permit_eq_ok_iff] at hp
      exact ⟨⟨hf, by simpa [hm] using hp⟩, (Except.ok.inj hq).symm⟩
  · rintro ⟨p, ⟨hf, hp⟩, rfl⟩
    refine ⟨some p, hf, p, rfl, ?_⟩
    cases hm : p.requesterMatcher with
    | none =>
      show Except.ok p = _
      rw [← hm]
    | some expression =>
      have ho : a.permit expression e.identity = .ok () :=
        (a.permit_eq_ok_iff expression e.identity).2 (hp expression hm)
      simp only [ho]
      rfl

/-- A run of its own that serves the envelope under the policy found for it. -/
def served (a : Authority σ) (p : SigningPolicy) (e : RequestEnvelope) (w : World σ) :
    Outcome Error ReplyData × RunState σ :=
  (a.perform { p with requesterMatcher := none } e).run.run ⟨w, [], {}⟩

theorem serve_of_admits {a : Authority σ} {identity : Option String} {e : RequestEnvelope}
    {p : SigningPolicy} (h : a.Admits identity e p) (w : World σ) :
    a.serve { e with identity } w = (replyTo (a.served p e w).1, (a.served p e w).2) := by
  have ho : a.authorize { e with identity } = .ok { p with requesterMatcher := none } :=
    (a.authorize_eq_ok_iff _ _).2 ⟨p, (a.admits_claim_iff identity identity e p).2 h, rfl⟩
  unfold serve
  rw [ho]
  rfl

/-- An envelope that may not be served leaves no trace: not even its run has done anything. -/
theorem serve_of_not_admits {a : Authority σ} {identity : Option String} {e : RequestEnvelope}
    (h : ∀ p, ¬ a.Admits identity e p) (w : World σ) :
    ∃ errors, a.serve { e with identity } w = (.ofErrors errors, ⟨w, [], {}⟩) := by
  unfold serve
  cases ho : a.authorize { e with identity } with
  | ok q =>
    obtain ⟨p, hp, -⟩ := (a.authorize_eq_ok_iff _ q).1 ho
    exact absurd ((a.admits_claim_iff identity identity e p).1 hp) (h p)
  | error fault =>
    cases fault with
    | error why => exact ⟨_, rfl⟩
    | abandoned => exact ⟨_, rfl⟩

/-! ## Calls -/

/-- The reply has data in it: a certificate or a description of a policy. -/
def CarriesData : Json → Prop
  | .obj members => ∃ d, ("data", d) ∈ members ∧ d ≠ .null
  | _ => False

theorem carriesData_toJson_iff (r : ReplyEnvelope) : CarriesData r.toJson ↔ r.data.isSome := by
  have written (d : ReplyData) : d.toJson ≠ .null := by cases d <;> exact Json.noConfusion
  cases hd : r.data with
  | none => simp [CarriesData, ReplyEnvelope.toJson, hd]
  | some d => simp [CarriesData, ReplyEnvelope.toJson, hd, written]

/-- The call brings an envelope to an authority that may serve it under the policy. -/
structure Reaches (authorities : List (String × Authority σ)) (identity : Option String)
    (peer procedure : String) (args : Json) (a : Authority σ) (e : RequestEnvelope)
    (p : SigningPolicy) : Prop where
  signs : procedure = signProcedure
  atHand : authorities.lookup peer = some a
  reads : RequestEnvelope.read args = .ok e
  admits : a.Admits identity e p

variable {authorities : List (String × Authority σ)} {identity : Option String}
  {peer procedure : String} {args : Json}

/-- An authority at hand serves an envelope as the caller of the channel, whoever it claims. -/
theorem channel_of_reads {a : Authority σ} {e : RequestEnvelope} (hp : procedure = signProcedure)
    (ha : authorities.lookup peer = some a) (he : RequestEnvelope.read args = .ok e)
    (w : World σ) :
    (channel authorities identity peer procedure args).run w =
      (some [(peer, (a.serve { e with identity } w).1.toJson)],
        (a.serve { e with identity } w).2.world) := by
  have hanswer : (a.answer identity args).run w =
      ((a.serve { e with identity } w).1, (a.serve { e with identity } w).2.world) := by
    simp only [answer, he]
    rfl
  simp only [channel, hp, ha]
  exact congrArg (fun r => (some [(peer, r.1.toJson)], r.2)) hanswer

theorem channel_of_reaches {a : Authority σ} {e : RequestEnvelope} {p : SigningPolicy}
    (h : Reaches authorities identity peer procedure args a e p) (w : World σ) :
    (channel authorities identity peer procedure args).run w =
      (some [(peer, (replyTo (a.served p e w).1).toJson)], (a.served p e w).2.world) := by
  rw [channel_of_reads h.signs h.atHand h.reads, serve_of_admits h.admits]

theorem channel_of_not_reaches
    (h : ∀ a e p, ¬ Reaches authorities identity peer procedure args a e p) (w : World σ) :
    ∃ replies, (channel authorities identity peer procedure args).run w = (some replies, w) ∧
      ∀ r ∈ replies, ∃ errors, r.2 = (ReplyEnvelope.ofErrors errors).toJson := by
  by_cases hp : procedure = signProcedure
  · cases ha : authorities.lookup peer with
    | none =>
      refine ⟨[], ?_, by simp⟩
      simp only [channel, hp, ha]
      rfl
    | some a =>
      cases he : RequestEnvelope.read args with
      | error why =>
        refine ⟨[(peer, (ReplyEnvelope.ofErrors [invalidRequest why]).toJson)], ?_, ?_⟩
        · simp only [channel, hp, ha, answer, he]
          rfl
        · exact fun r hr => ⟨_, congrArg Prod.snd (List.mem_singleton.1 hr)⟩
      | ok e =>
        have hn (p : SigningPolicy) : ¬ a.Admits identity e p :=
          fun hadmits => h a e p ⟨hp, ha, he, hadmits⟩
        obtain ⟨errors, hs⟩ := serve_of_not_admits hn w
        refine ⟨_, by rw [channel_of_reads hp ha he, hs], ?_⟩
        exact fun r hr => ⟨errors, congrArg Prod.snd (List.mem_singleton.1 hr)⟩
  · refine ⟨[], ?_, by simp⟩
    simp only [channel, hp, ne_eq, not_false_eq_true, if_true]
    rfl

/-- Two envelopes that differ only in the identity they claim are answered alike. -/
theorem channel_claimed_identity {e : RequestEnvelope} {args' : Json} {claimed : Option String}
    (he : RequestEnvelope.read args = .ok e)
    (he' : RequestEnvelope.read args' = .ok { e with identity := claimed }) (w : World σ) :
    (channel authorities identity peer procedure args').run w =
      (channel authorities identity peer procedure args).run w := by
  by_cases hp : procedure = signProcedure
  · cases ha : authorities.lookup peer with
    | none => simp only [channel, hp, ha]
    | some a => rw [channel_of_reads hp ha he, channel_of_reads hp ha he']
  · simp only [channel, hp, ne_eq, not_false_eq_true, if_true]

/-- **Data comes only from an authority that admits the caller, and only such a call acts.**
A call that reaches an authority gets the outcome of a run under the policy found. Any other call
gets no data and leaves the world alone, and an envelope that may not be served does nothing in its
run. What identity the envelope claims makes no difference. -/
theorem channel_gate (authorities : List (String × Authority σ)) (identity : Option String)
    (peer procedure : String) (args : Json) (w : World σ) :
    (∀ replies, ((channel authorities identity peer procedure args).run w).1 = some replies →
      ∀ r ∈ replies, CarriesData r.2 →
        ∃ a e p, Reaches authorities identity peer procedure args a e p) ∧
    (∀ a e p, Reaches authorities identity peer procedure args a e p →
      (channel authorities identity peer procedure args).run w =
        (some [(peer, (replyTo (a.served p e w).1).toJson)], (a.served p e w).2.world)) ∧
    ((∀ a e p, ¬ Reaches authorities identity peer procedure args a e p) →
      ((channel authorities identity peer procedure args).run w).2 = w) ∧
    (∀ (a : Authority σ) (e : RequestEnvelope), (∀ p, ¬ a.Admits identity e p) →
      (a.serve { e with identity } w).2 = ⟨w, [], {}⟩) ∧
    (∀ e args' claimed, RequestEnvelope.read args = .ok e →
      RequestEnvelope.read args' = .ok { e with identity := claimed } →
      (channel authorities identity peer procedure args').run w =
        (channel authorities identity peer procedure args).run w) := by
  refine ⟨?_, fun a e p h => channel_of_reaches h w, ?_, ?_, ?_⟩
  · intro replies hreplies r hr hd
    refine Classical.byContradiction fun hn => ?_
    have hno (a : Authority σ) (e : RequestEnvelope) (p : SigningPolicy) :
        ¬ Reaches authorities identity peer procedure args a e p :=
      fun h => hn ⟨a, e, p, h⟩
    obtain ⟨given, hrun, herrors⟩ := channel_of_not_reaches hno w
    rw [hrun] at hreplies
    obtain rfl := Option.some.inj hreplies
    obtain ⟨errors, he⟩ := herrors r hr
    rw [he, carriesData_toJson_iff] at hd
    exact absurd hd (by simp [ReplyEnvelope.ofErrors])
  · intro h
    obtain ⟨_, hrun, -⟩ := channel_of_not_reaches h w
    rw [hrun]
  · intro a e h
    obtain ⟨_, hs⟩ := serve_of_not_admits h w
    rw [hs]
  · exact fun e args' claimed he he' => channel_claimed_identity he he' w

/-! ## A policy for one group of machines -/

/-- For the machines named `web…`. -/
def webPolicy : SigningPolicy where
  kind := .x509
  requesterMatcher := some "web*"
  overrides := { signingPrivateKey := some (.inline [7]) }

/-- Has that policy alone, no files, and a backend that takes any bytes for a key. -/
def webAuthority : Authority Unit where
  site.files.has _ _ := false
  site.files.isLink _ _ := false
  site.files.read _ path := Outcome.fail (.missing path)
  site.files.replace files path _ _ := (Outcome.fail (.denied path), files)
  site.files.backUp files path := (Outcome.fail (.denied path), files)
  site.backend kind := { (default : Backend) with
    loadPrivateKey := fun b _ => .ok ⟨kind, .ed25519, b⟩
    derivePublicKey := fun k => .ok ⟨k.kind, k.algorithm, k.encoded⟩
    encodePublicKey := fun k => .ok k.encoded }
  store kind name := .ok (if kind = .x509 ∧ name = "www" then some webPolicy else none)

/-- Asks for a description of that policy. -/
def inquiry (claimed : String) : RequestEnvelope :=
  { policyName := "www", request := .new .x509, policyOnly := true, identity := some claimed }

def inquiryArgs (claimed : String) : Json := .obj
  [("signing_policy_name", .str "www"), ("request_kwargs", .obj [("kind", .str "x509")]),
    ("get_policy_only", .bool true), ("requester_identity", .str claimed)]

theorem read_inquiryArgs (claimed : String) :
    RequestEnvelope.read (inquiryArgs claimed) = .ok (inquiry claimed) := rfl

theorem webAuthority_admits_iff (identity claimed : String) (p : SigningPolicy) :
    webAuthority.Admits (some identity) (inquiry claimed) p ↔
      p = webPolicy ∧ webAuthority.matcher.permits "web*" identity = .ok true := by
  rw [RequesterMatcher.permits_eq_ok_true_iff]
  constructor
  · rintro ⟨hf, hp⟩
    obtain rfl : webPolicy = p := Option.some.inj (Except.ok.inj hf)
    obtain ⟨i, hi, h⟩ := hp "web*" rfl
    obtain rfl := Option.some.inj hi
    exact ⟨rfl, h⟩
  · rintro ⟨rfl, h⟩
    refine ⟨rfl, fun expression he => ?_⟩
    obtain rfl := Option.some.inj he
    exact ⟨identity, rfl, h⟩

/-- The machine `web01` gets the description whatever it claims to be, and `db01` gets nothing done
by claiming to be `web01`. -/
theorem channel_gate_web :
    let w : World Unit := { files := (), now := .ofSeconds 0, seed := [] }
    let call (identity claimed : String) :=
      (channel [("ca", webAuthority)] (some identity) "ca" signProcedure
        (inquiryArgs claimed)).run w
    (∃ replies r, (call "web01" "db01").1 = some replies ∧ r ∈ replies ∧ CarriesData r.2 ∧
      ∃ a e p, Reaches [("ca", webAuthority)] (some "web01") "ca" signProcedure
        (inquiryArgs "db01") a e p) ∧
    call "web01" "web01" = call "web01" "db01" ∧
    (call "db01" "web01").2 = w ∧
    (webAuthority.serve { inquiry "web01" with identity := some "db01" } w).2 = ⟨w, [], {}⟩ := by
  intro w call
  have gate (identity claimed : String) := channel_gate [("ca", webAuthority)] (some identity) "ca"
    signProcedure (inquiryArgs claimed) w
  have hreach : Reaches [("ca", webAuthority)] (some "web01") "ca" signProcedure
      (inquiryArgs "db01") webAuthority (inquiry "db01") webPolicy :=
    ⟨rfl, rfl, read_inquiryArgs "db01", (webAuthority_admits_iff _ _ _).2 ⟨rfl, rfl⟩⟩
  have hno (p : SigningPolicy) : ¬ webAuthority.Admits (some "db01") (inquiry "web01") p := by
    rw [webAuthority_admits_iff]
    rintro ⟨-, h⟩
    have hf : webAuthority.matcher.permits "web*" "db01" = .ok false := rfl
    rw [hf] at h
    cases h
  refine ⟨?_, ?_, ?_, ?_⟩
  · have hrun := (gate "web01" "db01").2.1 _ _ _ hreach
    have hdata : CarriesData
        (replyTo (webAuthority.served webPolicy (inquiry "db01") w).1).toJson :=
      (carriesData_toJson_iff _).2 rfl
    have hfirst := congrArg Prod.fst hrun
    exact ⟨_, _, hfirst, List.mem_singleton.2 rfl, hdata,
      (gate "web01" "db01").1 _ hfirst _ (List.mem_singleton.2 rfl) hdata⟩
  · exact (gate "web01" "db01").2.2.2.2 _ _ (some "web01") (read_inquiryArgs "db01")
      (read_inquiryArgs "web01")
  · refine (gate "db01" "web01").2.2.1 ?_
    rintro a e p ⟨-, ha, he, hadmits⟩
    obtain rfl : webAuthority = a := Option.some.inj ha
    obtain rfl : inquiry "web01" = e := Except.ok.inj he
    exact hno p hadmits
  · exact (gate "db01" "web01").2.2.2.1 webAuthority (inquiry "web01") hno

end Authority
end CertAuthority
