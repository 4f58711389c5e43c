import SmtpClient.SampleSsl
import Mathlib.Data.List.Basic

/-!
# What `validated` says

Behind any calls of the verify callback the flag is set exactly if none of them reported a failure,
and the reason is that of the first that did. A finished handshake has reported every check that was
made and fails, so the flag speaks for these. Without a host name set, the host name is not among
them.
-/

namespace SmtpClient

namespace OpenSsl

variable {O : OpenSsl} {tls tls' : SmtpTls O} {calls calls' : List (VerifyCall O.Cert × Bool)}

/-! ### The callback -/

namespace SmtpTls

/-- What no call on an engine changes but the end of its handshake. -/
structure Alike (tls tls' : SmtpTls O) : Prop where
  trust : tls'.trustWithoutValidation = tls.trustWithoutValidation
  hostname : tls'.hostname = tls.hostname
  handshakeDone : tls'.handshakeDone = tls.handshakeDone

theorem Alike.refl (tls : SmtpTls O) : Alike tls tls := ⟨rfl, rfl, rfl⟩

theorem Alike.trans {tls tls' tls'' : SmtpTls O} (h : Alike tls tls') (h' : Alike tls' tls'') :
    Alike tls tls'' :=
  ⟨h'.trust.trans h.trust, h'.hostname.trans h.hostname, h'.handshakeDone.trans h.handshakeDone⟩

theorem inspect_eq (tls : SmtpTls O) (check : Check O.Cert) :
    ∃ subject issuer notAfter, tls.inspect check = { tls with certInfo := { tls.certInfo with
      subject := subject, issuer := issuer, notAfter := notAfter } } := by
  unfold inspect
  split
  · split
    · exact ⟨_, _, _, rfl⟩
    · exact ⟨_, _, _, rfl⟩
  · exact ⟨_, _, _, rfl⟩

/-- The callback clears the flag at the first failure, and keeps its reason. -/
theorem verifyCallback_eq (tls : SmtpTls O) (call : VerifyCall O.Cert) :
    ∃ certInfo, tls.verifyCallback call
        = (tls.trustWithoutValidation || call.preverifyOk, { tls with certInfo := certInfo })
      ∧ certInfo.validated = (tls.certInfo.validated && call.preverifyOk)
      ∧ certInfo.failureReason = if !call.preverifyOk && tls.certInfo.validated
          then clip certReasonLen (O.errorString call.check.error)
          else tls.certInfo.failureReason := by
  obtain ⟨subject, issuer, notAfter, hinspect⟩ := inspect_eq tls call.check
  unfold verifyCallback
  rw [hinspect]
  obtain ⟨preverifyOk, check⟩ := call
  obtain ⟨ssl, handshakeDone, trust, hostname, ⟨⟨validated, reason, _⟩, _, _⟩, hlt⟩ := tls
  cases trust <;> cases preverifyOk <;> cases validated <;> exact ⟨_, rfl, rfl, rfl⟩

end SmtpTls

open SmtpTls

theorem failing_append (calls calls' : List (VerifyCall O.Cert × Bool)) :
    failing (calls ++ calls') = failing calls ++ failing calls' := by
  simp [failing]

/-- What an engine has from the calls of the verify callback so far. -/
structure Told (calls : List (VerifyCall O.Cert × Bool)) (tls : SmtpTls O) : Prop where
  answers : ∀ c ∈ calls, c.2 = (tls.trustWithoutValidation || c.1.preverifyOk)
  validated : tls.certInfo.validated = (failing calls).isEmpty
  reason : ∀ check, (failing calls).head? = some check →
    tls.certInfo.failureReason = clip certReasonLen (O.errorString check.error)

theorem Told.congr (h : Told calls tls) (hcertInfo : tls'.certInfo = tls.certInfo)
    (htrust : tls'.trustWithoutValidation = tls.trustWithoutValidation) : Told calls tls' where
  answers := by
    rw [htrust]
    exact h.answers
  validated := by
    rw [hcertInfo]
    exact h.validated
  reason := by
    rw [hcertInfo]
    exact h.reason

theorem Told.verifyCallback (h : Told calls tls) (call : VerifyCall O.Cert) :
    Told (calls ++ [(call, (tls.verifyCallback call).1)]) (tls.verifyCallback call).2 := by
  obtain ⟨certInfo, heq, hvalidated, hreason⟩ := verifyCallback_eq tls call
  rw [heq]
  have hlast (answer : Bool) : failing [(call, answer)]
      = if call.preverifyOk then [] else [call.check] := by
    cases hok : call.preverifyOk <;> simp [failing, hok]
  constructor
  · intro c hmem
    rcases List.mem_append.1 hmem with hmem | hmem
    · exact h.answers c hmem
    · rw [List.mem_singleton.1 hmem]
  · rw [failing_append, hlast, hvalidated, h.validated]
    cases hok : call.preverifyOk <;> simp
  · intro check hhead
    rw [failing_append, hlast, List.head?_append] at hhead
    rw [hreason, h.validated]
    cases hfirst : (failing calls).head? with
    | none =>
        have hnone : failing calls = [] := List.head?_eq_none_iff.1 hfirst
        cases hok : call.preverifyOk with
        | true => simp [hfirst, hok] at hhead
        | false =>
            rw [hfirst, hok] at hhead
            rw [← Option.some.inj hhead, hnone]
            rfl
    | some first =>
        rw [hfirst] at hhead
        have hsome : (failing calls).isEmpty = false := by
          cases hfailing : failing calls with
          | nil => simp [hfailing] at hfirst
          | cons => rfl
        rw [hsome, Bool.and_false, if_neg (by simp)]
        exact h.reason check (hfirst.trans hhead)

/-! ### The calls on an engine -/

namespace SmtpTls

theorem alike_run {ρ : Type} (tls : SmtpTls O)
    (computation : Callback (VerifyCall O.Cert) Bool ρ) :
    Alike tls (computation.run verifyCallback tls).2 := by
  have hstep (past : List (VerifyCall O.Cert × Bool)) (tls' : SmtpTls O) (call : VerifyCall O.Cert)
      (h : Alike tls tls') : Alike tls (tls'.verifyCallback call).2 := by
    obtain ⟨certInfo, heq, -, -⟩ := verifyCallback_eq tls' call
    rw [heq]
    exact h.trans ⟨rfl, rfl, rfl⟩
  obtain ⟨-, -, halike⟩ := Callback.run_invariant (I := fun _ => Alike tls) hstep computation [] tls
    (.refl tls)
  exact halike

theorem alike_feedInput (tls : SmtpTls O) (data : Bytes) : Alike tls (tls.feedInput data).2 := by
  unfold feedInput
  split
  · exact .refl tls
  · exact ⟨rfl, rfl, rfl⟩

theorem alike_drainOutput (tls : SmtpTls O) (n : Nat) : Alike tls (tls.drainOutput n).2 :=
  ⟨rfl, rfl, rfl⟩

theorem alike_doHandshake (tls : SmtpTls O) : Alike tls tls.doHandshake.2 :=
  (alike_run tls (O.doHandshake tls.ssl)).trans ⟨rfl, rfl, rfl⟩

theorem alike_sslWrite (tls : SmtpTls O) (plaintext : Bytes) :
    Alike tls (tls.sslWrite plaintext).2 :=
  (alike_run tls (O.sslWrite tls.ssl plaintext)).trans ⟨rfl, rfl, rfl⟩

theorem drainOutput_le (tls : SmtpTls O) (n : Nat) : (tls.drainOutput n).1.length ≤ n :=
  O.bioRead_le tls.ssl n

/-- The exits of `smtp_tls_handshake`. -/
inductive Shakes (tls : SmtpTls O) (input : Bytes) (outSize : Nat) :
    TlsOutcome (SmtpTls O) → Prop where
  | starved : Shakes tls input outSize ⟨.error, [], (tls.feedInput input).2⟩
  | drained (h : ((tls.feedInput input).2.doHandshake.2.drainOutput outSize).1.length > 0) :
      Shakes tls input outSize
        ⟨.wantWrite, ((tls.feedInput input).2.doHandshake.2.drainOutput outSize).1,
          ((tls.feedInput input).2.doHandshake.2.drainOutput outSize).2⟩
  | done (hrc : (tls.feedInput input).2.doHandshake.1.rc = 1) :
      Shakes tls input outSize
        ⟨.ok, [], { ((tls.feedInput input).2.doHandshake.2.drainOutput outSize).2 with
          handshakeDone := true }⟩
  | waits : Shakes tls input outSize
      ⟨.wantRead, [], ((tls.feedInput input).2.doHandshake.2.drainOutput outSize).2⟩
  | fails : Shakes tls input outSize
      ⟨.error, [], ((tls.feedInput input).2.doHandshake.2.drainOutput outSize).2⟩

theorem shakes (tls : SmtpTls O) (input : Bytes) (outSize : Nat) :
    Shakes tls input outSize (tls.handshake input outSize) := by
  unfold handshake
  simp only
  split
  · exact .starved
  split
  · rename_i h
    exact .drained h
  split
  · rename_i hrc
    exact .done hrc
  split
  · exact .waits
  split
  · exact .waits
  · exact .fails

theorem Shakes.out_le {input : Bytes} {n : Nat} {outcome : TlsOutcome (SmtpTls O)}
    (h : Shakes tls input n outcome) : outcome.out.length ≤ n := by
  cases h with
  | drained => exact drainOutput_le _ n
  | starved | done | waits | fails => exact Nat.zero_le n

theorem Shakes.handshakeDone {input : Bytes} {n : Nat} {outcome : TlsOutcome (SmtpTls O)}
    (h : Shakes tls input n outcome) (hok : outcome.status = .ok) :
    outcome.next.handshakeDone = true := by
  cases h with
  | done => rfl
  | starved | drained | waits | fails => cases hok

theorem encrypt_tame (tls : SmtpTls O) (plaintext : Bytes) (n : Nat) :
    (tls.encrypt plaintext n).out.length ≤ n ∧ Alike tls (tls.encrypt plaintext n).next := by
  have hwrite : Alike tls
      (if plaintext.length > 0 then tls.sslWrite plaintext else (false, tls)).2 := by
    split
    · exact alike_sslWrite tls plaintext
    · exact .refl tls
  unfold encrypt
  generalize (if plaintext.length > 0 then tls.sslWrite plaintext else (false, tls)) = write at *
  obtain ⟨failed, tls'⟩ := write
  simp only
  split
  · exact ⟨Nat.zero_le n, hwrite⟩
  split
  · exact ⟨drainOutput_le tls' n, hwrite.trans (alike_drainOutput tls' n)⟩
  · exact ⟨Nat.zero_le n, hwrite.trans (alike_drainOutput tls' n)⟩

theorem decrypt_tame (tls : SmtpTls O) (input : Bytes) (n : Nat) :
    (tls.decrypt input n).out.length ≤ n ∧ Alike tls (tls.decrypt input n).next := by
  have hfed := alike_feedInput tls input
  unfold decrypt
  generalize tls.feedInput input = feed at *
  obtain ⟨fed, tls'⟩ := feed
  have hread := alike_run tls' (O.sslRead tls'.ssl n)
  obtain ⟨trace, htrace, -⟩ := Callback.run_invariant (I := fun _ _ => True)
    (fun _ (tls : SmtpTls O) _ _ => trivial) (O.sslRead tls'.ssl n) [] tls' trivial
  have hle := O.sslRead_le _ _ _ _ htrace
  have halike := hfed.trans hread
  simp only
  split
  · exact ⟨Nat.zero_le n, hfed⟩
  split
  · exact ⟨hle, halike.trans ⟨rfl, rfl, rfl⟩⟩
  split
  · exact ⟨Nat.zero_le n, halike.trans ⟨rfl, rfl, rfl⟩⟩
  split <;> exact ⟨Nat.zero_le n, halike.trans ⟨rfl, rfl, rfl⟩⟩

end SmtpTls

/-- The backend behind the engine interface keeps the laws of the interface. -/
def engine (O : OpenSsl) : TlsEngine where
  Ctx := O.Ctx
  Entropy := Made O
  State := SmtpTls O
  create := create O
  handshakeDone := SmtpTls.handshakeDone
  handshake := SmtpTls.handshake
  encrypt := SmtpTls.encrypt
  decrypt := SmtpTls.decrypt
  certInfo tls := tls.certInfo.toTlsCertInfo
  handshake_out_le tls input n := (shakes tls input n).out_le
  encrypt_out_le tls plaintext n := (encrypt_tame tls plaintext n).1
  decrypt_out_le tls input n := (decrypt_tame tls input n).1
  handshakeDone_of_ok tls input n hok := (shakes tls input n).handshakeDone hok
  handshakeDone_encrypt tls plaintext n hdone :=
    (encrypt_tame tls plaintext n).2.handshakeDone.trans hdone
  handshakeDone_decrypt tls input n hdone :=
    (decrypt_tame tls input n).2.handshakeDone.trans hdone

/-! ### A handshake -/

/-- The host name that is set on a new `SSL`, if any. -/
def hostSet (made : Made O) (hostname : Bytes) (trustWithoutValidation : Bool) : Option Bytes :=
  if trustWithoutValidation = false ∧ made.host = true ∧ hostname ≠ [] then some hostname else none

/-- The books of an engine that was created for this host name. -/
structure Kept (host : Option Bytes) (hostname : Bytes) (trust : Bool) (tls : SmtpTls O) :
    Prop where
  told : ∃ calls, History O host calls tls.ssl ∧ Told calls tls
  hostname : tls.hostname = hostname
  trust : tls.trustWithoutValidation = trust

theorem kept_create {ctx : O.Ctx} {made : Made O} {hostname : Bytes} {trust : Bool}
    (h : create O ctx made hostname trust = some tls) :
    Kept (hostSet made hostname trust) hostname trust tls := by
  unfold create at h
  split at h
  · cases h
  split at h
  swap
  · cases h
  split at h
  · cases h
  rename_i ssl hnew
  split at h
  · cases h
  cases h
  refine ⟨⟨[], ?_, ⟨nofun, rfl, nofun⟩⟩, rfl, rfl⟩
  have hconfigured := History.configured hnew hostname
  have hset := History.set1Host hnew hostname hostname
  unfold hostSet
  cases trust with
  | true => simpa using hconfigured
  | false =>
      cases hhost : made.host with
      | false => simpa [hhost] using hconfigured
      | true =>
          by_cases hempty : hostname = []
          · simpa [hhost, hempty] using hset
          · simpa [hhost, hempty] using hset

theorem Told.doHandshake (h : Told calls tls) :
    ∃ calls', (O.doHandshake tls.ssl).Traces calls' tls.doHandshake.1
      ∧ Told (calls ++ calls') tls.doHandshake.2 := by
  obtain ⟨calls', htrace, htold⟩ := Callback.run_invariant (I := Told)
    (fun past tls call h => h.verifyCallback call) (O.doHandshake tls.ssl) calls tls h
  exact ⟨calls', htrace, htold.congr rfl rfl⟩

section Kept

variable {host : Option Bytes} {hostname : Bytes} {trust : Bool}

theorem Kept.feedInput (h : Kept host hostname trust tls) (data : Bytes) :
    Kept host hostname trust (tls.feedInput data).2 := by
  obtain ⟨⟨calls, hhistory, htold⟩, hhostname, htrust⟩ := h
  unfold SmtpTls.feedInput
  split
  · exact ⟨⟨calls, hhistory, htold⟩, hhostname, htrust⟩
  · exact ⟨⟨calls, hhistory.bioWrite data, htold.congr rfl rfl⟩,
      hhostname, htrust⟩

theorem Kept.drainOutput (h : Kept host hostname trust tls) (n : Nat) :
    Kept host hostname trust (tls.drainOutput n).2 := by
  obtain ⟨⟨calls, hhistory, htold⟩, hhostname, htrust⟩ := h
  exact ⟨⟨calls, hhistory.bioRead n, htold.congr rfl rfl⟩, hhostname,
    htrust⟩

theorem Kept.doHandshake (h : Kept host hostname trust tls) :
    Kept host hostname trust tls.doHandshake.2 := by
  obtain ⟨⟨calls, hhistory, htold⟩, hhostname, htrust⟩ := h
  obtain ⟨calls', htrace, htold'⟩ := htold.doHandshake
  have halike := alike_doHandshake tls
  exact ⟨⟨calls ++ calls', hhistory.doHandshake htrace, htold'⟩, halike.hostname.trans hhostname,
    halike.trust.trans htrust⟩

theorem Kept.handshake (h : Kept host hostname trust tls) (input : Bytes) (outSize : Nat) :
    Kept host hostname trust (tls.handshake input outSize).next := by
  have hfed := h.feedInput input
  have hdrained := hfed.doHandshake.drainOutput outSize
  have hshakes := shakes tls input outSize
  generalize tls.handshake input outSize = outcome at hshakes ⊢
  cases hshakes with
  | starved => exact hfed
  | drained | waits | fails => exact hdrained
  | done =>
      obtain ⟨⟨calls, hhistory, htold⟩, hhostname, htrust⟩ := hdrained
      exact ⟨⟨calls, hhistory, htold.congr rfl rfl⟩, hhostname, htrust⟩

theorem Handshaken.kept {tls₀ : SmtpTls O} (h : Handshaken tls₀ tls)
    (hkept : Kept host hostname trust tls₀) : Kept host hostname trust tls := by
  induction h with
  | created => exact hkept
  | handshake before input outSize ih => exact ih.handshake input outSize

/-- A finished handshake: every check that was made and fails was reported, and no answer was 0. -/
theorem Kept.finished {R : Rules O} (hR : Documented R) (h : Kept host hostname trust tls)
    {input : Bytes} {outSize : Nat} (hok : (tls.handshake input outSize).status = .ok) :
    ∃ calls chain, Told calls (tls.handshake input outSize).next
      ∧ R.peer (tls.handshake input outSize).next.ssl = some chain
      ∧ failing calls = (R.checks host chain).filter (fun check => !check.passes)
      ∧ ∀ c ∈ calls, c.2 = true := by
  obtain ⟨⟨calls, hhistory, htold⟩, -, -⟩ := h.feedInput input
  obtain ⟨calls', htrace, htold'⟩ := htold.doHandshake
  have hshakes := shakes tls input outSize
  generalize tls.handshake input outSize = outcome at hshakes hok ⊢
  cases hshakes with
  | starved | drained | waits | fails => cases hok
  | done hrc =>
      obtain ⟨chain, hpeer, hfailing⟩ := hR.reports _ _ _ _ _ hhistory htrace hrc
      refine ⟨calls ++ calls', chain, htold'.congr rfl rfl, ?_, hfailing, ?_⟩
      · exact (hR.peer_bioRead _ outSize).trans hpeer
      · rintro ⟨call, answer⟩ hmem
        cases answer with
        | true => rfl
        | false => exact absurd hrc (hR.fails _ _ _ _ _ hhistory htrace ⟨call, hmem⟩)

end Kept

/-! ### The verdict -/

/-- What `smtp_tls_cert_info` should say of a chain and a host name, with the checks that were made.
-/
structure Truthful (R : Rules O) (host : Option Bytes) (hostname : Bytes)
    (chain : CertChain O.Cert) (tls : SmtpTls O) : Prop where
  validated : tls.certInfo.validated = true ↔
    (∀ check ∈ R.chainChecks chain, check.passes) ∧ R.checkHost chain.leaf hostname
  reason : tls.certInfo.validated = false →
    ∃ check, (R.checks host chain).find? (fun check => !check.passes) = some check
      ∧ tls.certInfo.failureReason = clip certReasonLen (O.errorString check.error)
  strict : tls.trustWithoutValidation = false → tls.certInfo.validated = true

theorem hostCheck_passes (R : Rules O) (chain : CertChain O.Cert) (name : Bytes) :
    (R.hostCheck chain name).passes = R.checkHost chain.leaf name := by
  unfold Rules.hostCheck Check.passes
  cases R.checkHost chain.leaf name <;> rfl

/-- With the host name set, all checks pass if all those on the certificates do and it matches. -/
theorem checks_pass (R : Rules O) (chain : CertChain O.Cert) (name : Bytes) :
    (∀ check ∈ R.checks (some name) chain, check.passes)
      ↔ (∀ check ∈ R.chainChecks chain, check.passes) ∧ R.checkHost chain.leaf name := by
  rw [← hostCheck_passes]
  constructor
  · intro h
    refine ⟨fun check hmem => h check ?_, h _ (by simp [Rules.checks])⟩
    rw [← List.take_append_drop (R.hostPlace chain) (R.chainChecks chain)] at hmem
    rcases List.mem_append.1 hmem with hmem | hmem
    · exact List.mem_append_left _ hmem
    · exact List.mem_append_right _ (List.mem_cons_of_mem _ hmem)
  · rintro ⟨hchain, hhost⟩ check hmem
    rcases List.mem_append.1 hmem with hmem | hmem
    · exact hchain check (List.mem_of_mem_take hmem)
    rcases List.mem_cons.1 hmem with rfl | hmem
    · exact hhost
    · exact hchain check (List.mem_of_mem_drop hmem)

theorem isEmpty_filter_fails {κ : Type} (checks : List (Check κ)) :
    (checks.filter fun check => !check.passes).isEmpty = true ↔ ∀ check ∈ checks, check.passes := by
  simp [List.isEmpty_iff, List.filter_eq_nil_iff]

/-- **The verdict.** Behind a finished handshake the flag speaks for the checks that were made. -/
theorem Kept.verdict {R : Rules O} (hR : Documented R) {host : Option Bytes} {hostname : Bytes}
    {trust : Bool} (h : Kept host hostname trust tls) {input : Bytes} {outSize : Nat}
    (hok : (tls.handshake input outSize).status = .ok) {chain : CertChain O.Cert}
    (hpeer : R.peer (tls.handshake input outSize).next.ssl = some chain) :
    ((tls.handshake input outSize).next.certInfo.validated = true
        ↔ ∀ check ∈ R.checks host chain, check.passes)
      ∧ ((tls.handshake input outSize).next.certInfo.validated = false →
        ∃ check, (R.checks host chain).find? (fun check => !check.passes) = some check
          ∧ (tls.handshake input outSize).next.certInfo.failureReason
            = clip certReasonLen (O.errorString check.error))
      ∧ ((tls.handshake input outSize).next.trustWithoutValidation = false →
        (tls.handshake input outSize).next.certInfo.validated = true) := by
  obtain ⟨calls, chain', htold, hpeer', hfailing, hanswers⟩ := h.finished hR hok
  obtain rfl := Option.some.inj (hpeer'.symm.trans hpeer)
  generalize (tls.handshake input outSize).next = next at *
  have hvalidated := htold.validated
  rw [hfailing] at hvalidated
  refine ⟨?_, ?_, ?_⟩
  · rw [hvalidated, isEmpty_filter_fails]
  · intro hfalse
    cases hfirst : (R.checks host chain').find? (fun check => !check.passes) with
    | none =>
        rw [← List.head?_filter, List.head?_eq_none_iff] at hfirst
        rw [hfirst, hfalse] at hvalidated
        cases hvalidated
    | some check =>
        refine ⟨check, rfl, htold.reason check ?_⟩
        rw [hfailing, List.head?_filter, hfirst]
  · intro htrust
    -- no answer was 0, and in strict mode the answer is what the callback was told
    have hpassed : failing calls = [] := by
      simp only [failing, List.map_eq_nil_iff, List.filter_eq_nil_iff, List.mem_map]
      rintro call ⟨c, hmem, rfl⟩
      have hanswer := htold.answers c hmem
      rw [htrust, Bool.false_or, hanswers c hmem] at hanswer
      simp [← hanswer]
    rw [htold.validated, hpassed]
    rfl

/-- **The flag tells the truth**, once a handshake has finished, exactly if the host name was
checked or it matches or a certificate is to blame. -/
theorem truthful_iff {R : Rules O} (hR : Documented R) {ctx : O.Ctx} {made : Made O}
    {hostname : Bytes} {trust : Bool} {tls₀ : SmtpTls O}
    (hcreate : create O ctx made hostname trust = some tls₀) (hshaken : Handshaken tls₀ tls)
    {input : Bytes} {outSize : Nat} (hok : (tls.handshake input outSize).status = .ok)
    {chain : CertChain O.Cert}
    (hpeer : R.peer (tls.handshake input outSize).next.ssl = some chain) :
    Truthful R (hostSet made hostname trust) hostname chain (tls.handshake input outSize).next
      ↔ (trust = false ∧ made.host = true ∧ hostname ≠ []) ∨ R.checkHost chain.leaf hostname = true
        ∨ ∃ check ∈ R.chainChecks chain, check.passes = false := by
  have hkept := hshaken.kept (kept_create hcreate)
  obtain ⟨hvalidated, hreason, hstrict⟩ := hkept.verdict hR hok hpeer
  generalize (tls.handshake input outSize).next = next at *
  by_cases hset : trust = false ∧ made.host = true ∧ hostname ≠ []
  · rw [hostSet, if_pos hset] at hvalidated hreason ⊢
    rw [checks_pass] at hvalidated
    exact ⟨fun _ => .inl hset, fun _ => ⟨hvalidated, hreason, hstrict⟩⟩
  · rw [hostSet, if_neg hset] at hvalidated hreason ⊢
    have hmade : R.checks none chain = R.chainChecks chain := rfl
    rw [hmade] at hvalidated
    constructor
    · intro htruthful
      by_cases hpass : ∀ check ∈ R.chainChecks chain, check.passes = true
      · exact .inr (.inl (htruthful.validated.1 (hvalidated.2 hpass)).2)
      · push Not at hpass
        obtain ⟨check, hmem, hfails⟩ := hpass
        exact .inr (.inr ⟨check, hmem, by simpa using hfails⟩)
    · intro hcases
      refine ⟨hvalidated.trans ⟨fun hpass => ⟨hpass, ?_⟩, And.left⟩, hreason, hstrict⟩
      rcases hcases with hset' | hmatches | ⟨check, hmem, hfails⟩
      · exact absurd hset' hset
      · exact hmatches
      · have hpasses := hpass check hmem
        rw [hfails] at hpasses
        cases hpasses

/-- A sample engine for this host, up to the last call of its handshake with a server that has this
certificate. -/
def greet (tls : SmtpTls sampleSsl) (cert : SampleCert) : SmtpTls sampleSsl :=
  (((tls.handshake [] 100).next.handshake [] 100).next.handshake (SampleSsl.flight cert) 100).next

theorem handshaken_greet (tls : SmtpTls sampleSsl) (cert : SampleCert) :
    Handshaken tls (greet tls cert) :=
  ((Handshaken.created.handshake [] 100).handshake [] 100).handshake (SampleSsl.flight cert) 100

def createSample (hostname : Bytes) (trust : Bool) : Option (SmtpTls sampleSsl) :=
  create sampleSsl () ⟨(), true, true, true⟩ hostname trust

theorem truthful_strict : ∃ tls₀, createSample (bytes "mx") false = some tls₀
    ∧ Truthful sampleRules (some (bytes "mx")) (bytes "mx") ⟨⟨false, bytes "mx"⟩, []⟩
      ((greet tls₀ ⟨false, bytes "mx"⟩).handshake [] 100).next := by
  have htruthful := @truthful_iff _ _ sampleRules sample_documented () ⟨(), true, true, true⟩
    (bytes "mx") false _ rfl (handshaken_greet _ ⟨false, bytes "mx"⟩) [] 100 rfl
    ⟨⟨false, bytes "mx"⟩, []⟩ rfl
  exact ⟨_, rfl, htruthful.2 (.inl ⟨rfl, rfl, by decide⟩)⟩

/-- In trust mode a certificate for another host is reported as validated. -/
theorem mismatch_validated : ∃ tls₀ tls, createSample (bytes "mx") true = some tls₀
    ∧ Handshaken tls₀ tls ∧ (tls.handshake [] 100).status = .ok
    ∧ sampleRules.peer (tls.handshake [] 100).next.ssl = some ⟨⟨false, bytes "other"⟩, []⟩
    ∧ (tls.handshake [] 100).next.certInfo.validated = true
    ∧ ¬ Truthful sampleRules none (bytes "mx") ⟨⟨false, bytes "other"⟩, []⟩
      (tls.handshake [] 100).next := by
  refine ⟨_, _, rfl, handshaken_greet _ ⟨false, bytes "other"⟩, rfl, rfl, rfl, fun htruthful => ?_⟩
  have hmatches := (htruthful.validated.1 rfl).2
  exact absurd hmatches (by decide)

end OpenSsl

end SmtpClient
