import SmtpClient.Proof.Conversation

/-!
# What a connection says about the certificate

A backend that vets its peers keeps something of an engine as long as the handshake goes on, and
gives a verdict at its end. No run of a connection passes anything through TLS before the line about
the certificate, there is one such line at most, and over such a backend it tells the verdict.
-/

namespace SmtpClient

/-- A call on the engine that passes application data, or the submission of what came out of it. -/
def Effect.throughTls : Effect → Bool
  | .tlsEncrypt _ _ _ | .tlsDecrypt _ _ _ _ | .submitWrite (.command _ true) _ _ => true
  | _ => false

def Effect.isCertLine : Effect → Bool
  | .log event _ => event.certLine
  | _ => false

variable {E : TlsEngine}

def Tunnel.isEstablished : Tunnel E → Prop
  | .established _ => True
  | _ => False

namespace Conn

/-- What a backend keeps of an engine during the handshake, and its verdict behind it. -/
structure Vets (settings : Settings E) (Shaking Verdict : E.State → Prop) : Prop where
  creates : ∀ ctx entropy tls, settings.tlsCtx = some ctx →
    E.create ctx entropy settings.actor settings.tlsTrustWithoutValidation = some tls → Shaking tls
  shakes : ∀ tls input, Shaking tls → (E.handshake tls input readBufSize).status ≠ .ok →
    Shaking (E.handshake tls input readBufSize).next
  finishes : ∀ tls input, Shaking tls → (E.handshake tls input readBufSize).status = .ok →
    Verdict (E.handshake tls input readBufSize).next

section Paths

variable {settings : Settings E} {Shaking Verdict : E.State → Prop} {trace : List Effect}
  {t u : Tunnel E} {effect : Effect}

/-- What is kept of the engine a tunnel is dug with. -/
def Vetted (Shaking Verdict : E.State → Prop) : Tunnel E → Prop
  | .shaking tls => Shaking tls
  | .shaken tls => Verdict tls
  | _ => True

theorem Vets.vetted (h : Vets settings Shaking Verdict)
    (path : Path (Converses settings) .unbuilt trace t) : Vetted Shaking Verdict t := by
  refine path.invariant trivial fun t effect u hvetted hstep => ?_
  cases hstep with
  | aside | flight => exact hvetted
  | creates ctx entropy hctx hcreate => exact h.creates ctx entropy _ hctx hcreate
  | shakes input hstatus => exact h.shakes _ input hvetted hstatus
  | finishes input hstatus => exact h.finishes _ input hvetted hstatus
  | commands | judges | encrypts | sends | decrypts => trivial

theorem Converses.isEstablished_of_throughTls (h : Converses settings t effect u)
    (hthrough : effect.throughTls = true) : t.isEstablished := by
  cases h with
  | encrypts | sends | decrypts => trivial
  | aside haside => cases effect <;> simp_all [Effect.aside, Effect.throughTls]
  | _ => cases hthrough

theorem Converses.isEstablished (h : Converses settings t effect u) (ht : t.isEstablished) :
    u.isEstablished := by
  cases h with
  | aside => exact ht
  | encrypts | sends | decrypts => trivial
  | _ => exact ht.elim

theorem certLine_certLine (info : TlsCertInfo) : (certLine info).1.certLine = true := by
  unfold certLine
  split <;> rfl

theorem Converses.isCertLine_of_enters (h : Converses settings t effect u)
    (ht : ¬t.isEstablished) (hu : u.isEstablished) : effect.isCertLine = true := by
  cases h with
  | aside => exact absurd hu ht
  | judges => exact certLine_certLine _
  | encrypts | sends | decrypts => exact absurd trivial ht
  | _ => exact hu.elim

theorem Converses.judges_of_isCertLine (h : Converses settings t effect u)
    (hline : effect.isCertLine = true) : ∃ tls, t = .shaken tls ∧ u = .established tls
      ∧ effect = .log (certLine (E.certInfo tls)).1 (certLine (E.certInfo tls)).2 := by
  cases h with
  | judges => exact ⟨_, rfl, rfl, rfl⟩
  | aside haside => cases effect <;> simp_all [Effect.aside, Effect.isCertLine]
  | _ => cases hline

theorem enters_of_isCertLine (h : Converses settings t effect u)
    (hline : effect.isCertLine = true) : ¬t.isEstablished ∧ u.isEstablished := by
  obtain ⟨tls, rfl, rfl, -⟩ := h.judges_of_isCertLine hline
  exact ⟨id, trivial⟩

/-- Nothing passes through TLS before the certificate has been reported on, which is done once. -/
structure Reported (trace : List Effect) : Prop where
  order : AllJustified (fun past effect => effect.throughTls = true →
    ∃ line ∈ past, line.isCertLine = true) trace
  once : (trace.filter Effect.isCertLine).length ≤ 1

theorem reported_of_path (path : Path (Converses settings) .unbuilt trace t) : Reported trace where
  order := path.precedes (Q := Tunnel.isEstablished) id
    (fun _ _ _ h ht hu => h.isCertLine_of_enters ht hu)
    (fun _ _ _ h hthrough => h.isEstablished_of_throughTls hthrough)
  once := path.once (Q := Tunnel.isEstablished) (fun _ _ _ h ht => h.isEstablished ht)
    (fun _ _ _ h hline => enters_of_isCertLine h hline)

/-- The engine the handshake had left when this line was written. -/
def ShakenAt (settings : Settings E) (trace : List Effect) (line : Effect) (tls : E.State) : Prop :=
  ∃ before after, trace = before ++ line :: after
    ∧ Path (Converses settings) .unbuilt before (.shaken tls)

/-- Every line about the certificate tells a verdict. -/
theorem Vets.verdict_of_line (h : Vets settings Shaking Verdict)
    (path : Path (Converses settings) .unbuilt trace t) {event : LogEvent} {detail : Bytes}
    (hmem : .log event detail ∈ trace) (hline : event.certLine = true) :
    ∃ tls, ShakenAt settings trace (.log event detail) tls ∧ Verdict tls
      ∧ (event, detail) = certLine (E.certInfo tls) := by
  obtain ⟨before, after, rfl⟩ := List.append_of_mem hmem
  obtain ⟨t, t', hbefore, hstep⟩ := path.split
  obtain ⟨tls, rfl, -, heq⟩ := hstep.judges_of_isCertLine hline
  obtain ⟨rfl, rfl⟩ := Effect.log.inj heq
  exact ⟨tls, ⟨before, after, rfl, hbefore⟩, h.vetted hbefore, rfl⟩

theorem validated_of_tlsOk {info : TlsCertInfo} {detail : Bytes}
    (h : (LogEvent.tlsOk, detail) = certLine info) :
    info.validated = true ∧ detail = info.subject := by
  unfold certLine at h
  split at h <;> rename_i hvalidated
  · exact ⟨hvalidated, (Prod.mk.inj h).2⟩
  · exact absurd (Prod.mk.inj h).1 (by simp)

theorem not_validated_of_warning {info : TlsCertInfo} {detail : Bytes}
    (h : (LogEvent.tlsCertWarning, detail) = certLine info) :
    info.validated = false ∧ detail = info.failureReason := by
  unfold certLine at h
  split at h <;> rename_i hvalidated
  · exact absurd (Prod.mk.inj h).1 (by simp)
  · exact ⟨by simpa using hvalidated, (Prod.mk.inj h).2⟩

end Paths

/-- A connection that has got past the handshake has reported on the certificate. -/
theorem reported_of_secured {identity : Bytes} {w : World E} (h : Reachable identity w)
    (herror : w.conn.state ≠ .error) (htimedOut : w.conn.state ≠ .timedOut)
    (hstate : w.conn.state ≠ .tlsHandshaking) (htls : w.conn.tls.isSome = true) :
    ∃ line ∈ w.trace, line.isCertLine = true := by
  obtain ⟨tls, htls⟩ := Option.isSome_iff_exists.mp htls
  have hspeaks := (spoken_of_reachable h).live herror htimedOut
  rw [tunnel_of_some htls hstate] at hspeaks
  exact Path.entered (Q := Tunnel.isEstablished) hspeaks id
    (fun _ _ _ hstep ht hu => hstep.isCertLine_of_enters ht hu) trivial

end Conn

end SmtpClient
