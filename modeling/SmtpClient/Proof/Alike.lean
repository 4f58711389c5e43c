import SmtpClient.Proof.ReplyGrammar
import SmtpClient.Proof.Received

/-!
# Connections that are shown the same reply

Every read completion restarts the parser from the front of `read_buf`, and its verdict on a prefix
of the stream stands for every longer one. Two connections in the clear that differ in how they were
read to, and are shown the same reply, return alike: no handler looks at anything else.
-/

namespace SmtpClient

namespace Cap

open Reply

theorem parseLines_append {buf : Bytes} {remaining i offset : Nat} {caps parsed : Capabilities}
    (h : parseLines buf remaining i offset caps = some parsed) (rest : Bytes) :
    parseLines (buf ++ rest) remaining i offset caps = some parsed := by
  induction remaining generalizing i offset caps with
  | zero => simpa [parseLines] using h
  | succ remaining ih =>
      rw [parseLines] at h ⊢
      split at h
      · rename_i line hparse
        obtain ⟨text, tail, hbuf, -, hlen, -⟩ := parseLine_ok hparse
        have hlength := congrArg List.length hbuf
        simp only [List.length_drop, List.length_append, List.length_cons] at hlength
        have hdrop : (buf ++ rest).drop offset = buf.drop offset ++ rest :=
          List.drop_append_of_le_length (by omega)
        have htext : ((buf.drop offset ++ rest).drop line.textOffset).take line.textLen
            = ((buf.drop offset).drop line.textOffset).take line.textLen := by
          rw [List.drop_append_of_le_length (by simp only [List.length_drop]; omega),
            List.take_append_of_le_length (by simp only [List.length_drop]; omega)]
        rw [hdrop, parseLine_append (by simp [hparse]), hparse]
        dsimp only
        rw [htext]
        exact ih h
      · exact absurd h (by simp)

theorem parseEhloResponse_append {buf : Bytes} {maxLines : Nat}
    (h : Reply.read buf maxLines ≠ .incomplete) (caps : Capabilities) (rest : Bytes) :
    parseEhloResponse caps (buf ++ rest) maxLines = parseEhloResponse caps buf maxLines := by
  have hsome := parseEhloResponse_ne_none caps buf maxLines
  unfold parseEhloResponse at hsome ⊢
  rw [read_append h]
  cases hread : Reply.read buf maxLines with
  | ok reply =>
      simp only [hread, ne_eq, Option.map_eq_none_iff] at hsome
      obtain ⟨parsed, hparsed⟩ := Option.ne_none_iff_exists'.mp hsome
      simp only [hparsed, parseLines_append hparsed]
  | _ => rfl

end Cap

variable {E : TlsEngine}

namespace Conn

open World Protocol

/-! ### Two prefixes of one stream -/

/-- A reply that is neither complete nor beyond the buffer: the connection waits for more. -/
def unfinished (text : Bytes) : Bool :=
  decide (Reply.read text maxReplyLines = .incomplete) && decide (text.length < readBufSize)

/-- Two texts the parser takes for the same reply. -/
structure SameReply (p q : Bytes) : Prop where
  read : Reply.read p maxReplyLines = Reply.read q maxReplyLines
  parse : ∀ caps, Cap.parseEhloResponse caps p maxReplyLines
    = Cap.parseEhloResponse caps q maxReplyLines
  full : Reply.read p maxReplyLines = .incomplete →
    readBufSize ≤ p.length ∧ readBufSize ≤ q.length
  front : ∀ reply, Reply.read p maxReplyLines = .ok reply →
    reply.consumed ≤ p.length ∧ p.take reply.consumed = q.take reply.consumed

theorem SameReply.symm {p q : Bytes} (h : SameReply p q) : SameReply q p where
  read := h.read.symm
  parse caps := (h.parse caps).symm
  full hincomplete := (h.full (h.read.trans hincomplete)).symm
  front reply hread := by
    obtain ⟨hlen, htake⟩ := h.front reply (h.read.trans hread)
    have hbounds := Reply.readLoop_bounds hread
    exact ⟨hbounds.2.1, htake.symm⟩

theorem SameReply.of_front {p q : Bytes} (hfront : p <+: q) (hq : q.length ≤ readBufSize)
    (hp : unfinished p = false) : SameReply p q := by
  obtain ⟨rest, rfl⟩ := hfront
  by_cases hread : Reply.read p maxReplyLines = .incomplete
  · have hfull : readBufSize ≤ p.length := by simpa [unfinished, hread] using hp
    obtain rfl : rest = [] := by
      apply List.eq_nil_of_length_eq_zero
      rw [List.length_append] at hq
      omega
    rw [List.append_nil]
    refine ⟨rfl, fun _ => rfl, fun _ => ⟨hfull, hfull⟩, fun reply hok => ?_⟩
    exact absurd (hread.symm.trans hok) (by simp)
  · refine ⟨(Reply.read_append hread rest).symm,
      fun caps => (Cap.parseEhloResponse_append hread caps rest).symm,
      fun hincomplete => absurd hincomplete hread, ?_⟩
    intro reply hok
    obtain ⟨-, hle, -⟩ := Reply.readLoop_bounds hok
    exact ⟨hle, (List.take_append_of_le_length hle).symm⟩

/-- Wherever two readers of a stream stop waiting, they see the same reply. -/
theorem sameReply_of_prefixes {p q stream : Bytes} (hp : p <+: stream) (hq : q <+: stream)
    (hple : p.length ≤ readBufSize) (hqle : q.length ≤ readBufSize)
    (hpdone : unfinished p = false) (hqdone : unfinished q = false) : SameReply p q := by
  rcases List.prefix_or_prefix_of_prefix hp hq with hpq | hqp
  · exact .of_front hpq hqle hpdone
  · exact (SameReply.of_front hqp hple hqdone).symm

theorem unfinished_of_front {p stream : Bytes} (hfront : p <+: stream)
    (h : unfinished stream = true) : unfinished p = true := by
  obtain ⟨rest, rfl⟩ := hfront
  simp only [unfinished, Bool.and_eq_true, decide_eq_true_eq, List.length_append] at h ⊢
  refine ⟨?_, by omega⟩
  by_contra hread
  rw [Reply.read_append hread] at h
  exact hread h.1

/-! ### Worlds that differ in how they were read -/

/-- The writes of a trace. -/
def writes (trace : List Effect) : List (Payload × Bytes) :=
  trace.filterMap fun
    | .submitWrite payload wire _ => some (payload, wire)
    | _ => none

@[simp] theorem writes_append (trace trace' : List Effect) :
    writes (trace ++ trace') = writes trace ++ writes trace' := by simp [writes]

/-- Two worlds that agree in all but the reply buffer, the deadline and the calls for more bytes. -/
structure Alike (u v : World E) : Prop where
  state : u.conn.state = v.conn.state
  greetingCode : u.conn.greetingCode = v.conn.greetingCode
  settings : u.conn.settings = v.conn.settings
  tls : u.conn.tls = v.conn.tls
  bannerSeen : u.conn.bannerSeen = v.conn.bannerSeen
  writeBuf : u.conn.writeBuf = v.conn.writeBuf
  cipherBuf : u.conn.cipherBuf = v.conn.cipherBuf
  caps : u.caps = v.caps
  writes : writes u.trace = writes v.trace
  bounded : u.conn.readLen ≤ readBufSize ∧ v.conn.readLen ≤ readBufSize

/-- Two calls that abort alike, or return alike. -/
inductive AlikeResults : Except Assertion (World E) → Except Assertion (World E) → Prop where
  | ok {u v : World E} (h : Alike u v) : AlikeResults (.ok u) (.ok v)
  | error (e : Assertion) : AlikeResults (.error e) (.error e)

section Alike

variable {env : Env E} {identity : Bytes} {nowMs laterMs : Nat} {u v : World E}

theorem Alike.refl (hbounded : u.conn.readLen ≤ readBufSize) : Alike u u :=
  ⟨rfl, rfl, rfl, rfl, rfl, rfl, rfl, rfl, rfl, hbounded, hbounded⟩

theorem Alike.symm (h : Alike u v) : Alike v u :=
  ⟨h.state.symm, h.greetingCode.symm, h.settings.symm, h.tls.symm, h.bannerSeen.symm,
    h.writeBuf.symm, h.cipherBuf.symm, h.caps.symm, h.writes.symm, h.bounded.symm⟩

theorem Alike.trans {t : World E} (h : Alike u v) (h' : Alike v t) : Alike u t :=
  ⟨h.state.trans h'.state, h.greetingCode.trans h'.greetingCode, h.settings.trans h'.settings,
    h.tls.trans h'.tls, h.bannerSeen.trans h'.bannerSeen, h.writeBuf.trans h'.writeBuf,
    h.cipherBuf.trans h'.cipherBuf, h.caps.trans h'.caps, h.writes.trans h'.writes,
    h.bounded.1, h'.bounded.2⟩

theorem Alike.actor (h : Alike u v) : u.conn.actor = v.conn.actor :=
  congrArg Settings.actor h.settings

theorem Alike.record (h : Alike u v) (effect : Effect) :
    Alike (u.record effect) (v.record effect) :=
  { h with writes := by simp [h.writes] }

theorem Alike.fail (h : Alike u v) : Alike u.fail v.fail := { h with state := rfl }

-- The deadlines are variables here: no proof ever has to look into `addMs`.
theorem Alike.moves (h : Alike u v) (state : ConnState) (deadline deadline' : Nat) :
    Alike (u.modify fun c => { c with state := state, deadlineMs := deadline })
      (v.modify fun c => { c with state := state, deadlineMs := deadline' }) :=
  { h with state := rfl }

theorem Alike.restarts (h : Alike u v) (state : ConnState) (deadline deadline' : Nat) :
    Alike (u.modify fun c => { c with state := state, deadlineMs := deadline, readLen := 0 })
      (v.modify fun c => { c with state := state, deadlineMs := deadline', readLen := 0 }) :=
  { h with state := rfl, bounded := ⟨Nat.zero_le _, Nat.zero_le _⟩ }

theorem Alike.logEmit {event : LogEvent} {detail detail' : Bytes}
    {f g : World E → Except Assertion (World E)} (h : Alike u v) (hdetail : detail = detail')
    (hnext : AlikeResults (f (u.record (.log event detail'))) (g (v.record (.log event detail')))) :
    AlikeResults (u.logEmit event detail >>= f) (v.logEmit event detail' >>= g) := by
  subst hdetail
  unfold World.logEmit
  rw [h.actor]
  by_cases hactor : containsCrOrLf v.conn.actor = true
  · simp only [if_pos hactor]
    exact .error _
  by_cases hdirty : containsCrOrLf detail = true
  · simp only [if_neg hactor, if_pos hdirty]
    exact .error _
  · simp only [if_neg hactor, if_neg hdirty]
    exact hnext

theorem Alike.failWith (h : Alike u v) (event : LogEvent) (detail : String) :
    AlikeResults (u.failWith event detail) (v.failWith event detail) :=
  h.logEmit rfl (.ok (h.record _).fail)

theorem Alike.orFail_submit (h : Alike u v) (op op' : IoOp) {effect effect' : Effect}
    (hwrites : Conn.writes [effect] = Conn.writes [effect']) :
    Alike (orFail (u.submit env op effect)) (orFail (v.submit env op' effect')) where
  state := by simp [h.state]
  greetingCode := by simp [h.greetingCode]
  settings := by simpa [Connection.settings] using h.settings
  tls := by simp [h.tls]
  bannerSeen := by simp [h.bannerSeen]
  writeBuf := by simp [h.writeBuf]
  cipherBuf := by simp [h.cipherBuf]
  caps := by simp [h.caps]
  writes := by rw [orFail_submit_trace, orFail_submit_trace, writes_append, writes_append, h.writes,
    hwrites]
  bounded := by simpa using h.bounded

theorem Alike.reads (h : Alike u v) (haccepted : env.submitRc = 0) :
    Alike u (Conn.reads env v) where
  state := by simp [Conn.reads, haccepted, h.state]
  greetingCode := by simp [Conn.reads, h.greetingCode]
  settings := by simp [h.settings]
  tls := by simp [Conn.reads, h.tls]
  bannerSeen := by simp [Conn.reads, h.bannerSeen]
  writeBuf := by simp [Conn.reads, h.writeBuf]
  cipherBuf := by simp [Conn.reads, h.cipherBuf]
  caps := by simp [Conn.reads, h.caps]
  writes := by
    rw [Conn.reads, orFail_submit_trace, writes_append, h.writes]
    exact (List.append_nil _).symm
  bounded := by simpa [Conn.reads] using h.bounded

theorem Alike.submitWriteBytes (h : Alike u v) (htls : u.conn.tls = none) {len len' : Nat}
    (hlen : len = len') :
    AlikeResults (Conn.submitWriteBytes env u len >>= fun submitted => pure (orFail submitted))
      (Conn.submitWriteBytes env v len' >>= fun submitted => pure (orFail submitted)) := by
  subst hlen
  have htls' : v.conn.tls = none := h.tls.symm.trans htls
  unfold Conn.submitWriteBytes World.submitWrite
  rw [htls, htls']
  refine .ok (Alike.orFail_submit ?_ _ _ ?_)
  · exact { h with }
  · simp [Conn.writes, Connection.contents, h.writeBuf]

theorem Alike.built (h : Alike u v) {f : Buffer writeBufSize → Buffer writeBufSize × Nat} :
    Alike (u.modify fun c => { c with writeBuf := (f c.writeBuf).1, writeLen := (f c.writeBuf).2 })
      (v.modify fun c => { c with writeBuf := (f c.writeBuf).1, writeLen := (f c.writeBuf).2 }) :=
  { h with writeBuf := congrArg (fun buf => (f buf).1) h.writeBuf }

theorem Alike.sendEhlo (h : Alike u v) (htls : u.conn.tls = none) :
    AlikeResults (Conn.sendEhlo env u identity nowMs) (Conn.sendEhlo env v identity laterMs) := by
  have hbuilt := @Alike.built _ _ _ h (buildEhloCommand · identity)
  have hlens := congrArg (fun buf => (buildEhloCommand buf identity).2) h.writeBuf
  unfold Conn.sendEhlo
  by_cases hlen : (buildEhloCommand u.conn.writeBuf identity).2 = 0
  · rw [if_pos (by exact hlen), if_pos (by exact hlens.symm.trans hlen)]
    exact hbuilt.failWith _ _
  · rw [if_neg (by exact hlen), if_neg (by exact fun hzero => hlen (hlens.trans hzero))]
    refine hbuilt.logEmit rfl ?_
    exact ((hbuilt.record _).moves _ _ _).submitWriteBytes htls hlens

theorem Alike.sendStarttls (h : Alike u v) (htls : u.conn.tls = none) :
    AlikeResults (Conn.sendStarttls env u nowMs) (Conn.sendStarttls env v laterMs) := by
  unfold Conn.sendStarttls
  have hbuilt : Alike
      (u.modify fun c => { c with writeBuf := (buildStarttlsCommand c.writeBuf).1 })
      (v.modify fun c => { c with writeBuf := (buildStarttlsCommand c.writeBuf).1 }) :=
    { h with writeBuf := congrArg (fun buf => (buildStarttlsCommand buf).1) h.writeBuf }
  refine hbuilt.logEmit rfl ?_
  exact ((hbuilt.record _).moves _ _ _).submitWriteBytes htls rfl

theorem Alike.driveHandshake (h : Alike u v) (tls : E.State) (input : Bytes) :
    Alike (Conn.driveHandshake u tls input).1 (Conn.driveHandshake v tls input).1 := by
  refine Alike.record ?_ _
  exact { h with
    tls := rfl
    cipherBuf := congrArg (Buffer.blit · 0 (E.handshake tls input readBufSize).out) h.cipherBuf }

/-- The tail of a handshake step that did not finish the handshake. -/
theorem Alike.driven (h : Alike u v) (tls : E.State) (input : Bytes) (detail : String) :
    AlikeResults
      (match (E.handshake tls input readBufSize).status with
        | .wantWrite => .ok (submitHandshakeOutput env (Conn.driveHandshake u tls input).1
            (E.handshake tls input readBufSize).out.length)
        | .wantRead => .ok (orFail
            ((Conn.driveHandshake u tls input).1.submitRead env .cipherBuf readBufSize))
        | _ => (Conn.driveHandshake u tls input).1.failWith .tlsFail detail)
      (match (E.handshake tls input readBufSize).status with
        | .wantWrite => .ok (submitHandshakeOutput env (Conn.driveHandshake v tls input).1
            (E.handshake tls input readBufSize).out.length)
        | .wantRead => .ok (orFail
            ((Conn.driveHandshake v tls input).1.submitRead env .cipherBuf readBufSize))
        | _ => (Conn.driveHandshake v tls input).1.failWith .tlsFail detail) := by
  have hdriven := h.driveHandshake tls input
  cases (E.handshake tls input readBufSize).status with
  | wantWrite =>
      rw [submitHandshakeOutput_eq, submitHandshakeOutput_eq]
      refine .ok (Alike.orFail_submit ?_ _ _ rfl)
      exact { hdriven with }
  | wantRead => exact .ok (hdriven.orFail_submit _ _ rfl)
  | ok | error => exact hdriven.failWith _ _

theorem Alike.beginTlsHandshake (h : Alike u v) (detail : String) :
    AlikeResults (Conn.beginTlsHandshake env u nowMs detail)
      (Conn.beginTlsHandshake env v laterMs detail) := by
  have hctx : u.conn.tlsCtx = v.conn.tlsCtx := congrArg Settings.tlsCtx h.settings
  have htrust : u.conn.tlsTrustWithoutValidation = v.conn.tlsTrustWithoutValidation :=
    congrArg Settings.tlsTrustWithoutValidation h.settings
  unfold Conn.beginTlsHandshake
  rw [hctx, h.actor, htrust]
  cases v.conn.tlsCtx with
  | none => exact .error _
  | some ctx =>
      dsimp only
      cases E.create ctx env.entropy v.conn.actor v.conn.tlsTrustWithoutValidation with
      | none => exact (h.record _).failWith _ _
      | some tls =>
          have hcreated : Alike
              ((u.record (.tlsCreate v.conn.actor v.conn.tlsTrustWithoutValidation true)).modify
                fun c => { c with tls := some tls })
              ((v.record (.tlsCreate v.conn.actor v.conn.tlsTrustWithoutValidation true)).modify
                fun c => { c with tls := some tls }) :=
            { h.record _ with tls := rfl }
          refine hcreated.logEmit rfl ?_
          exact ((hcreated.record _).restarts _ _ _).driven tls [] _

/-! ### The handlers of replies -/

/-- Two alike connections are shown the same reply, in reads of `n` and of `m` bytes. -/
structure Shows (u v : World E) (n m : Nat) : Prop where
  alike : Alike u v
  tls : u.conn.tls = none
  nonempty : n ≠ 0 ∧ m ≠ 0
  fits : u.conn.readLen + n ≤ readBufSize ∧ v.conn.readLen + m ≤ readBufSize
  same : SameReply (offered u n) (offered v m)

section Shows

variable {n m : Nat}

theorem Shows.grown (h : Shows u v n m) : Alike (grown u n) (grown v m) :=
  { h.alike with bounded := h.fits }

theorem length_offered (h : u.conn.readLen + n ≤ readBufSize) :
    (offered u n).length = u.conn.readLen + n := Buffer.length_slice _ h

/-- An unfinished reply that is shown here has filled the buffer on both sides. -/
theorem Shows.full (h : Shows u v n m)
    (hread : Reply.read (offered v m) maxReplyLines = .incomplete) :
    readBufSize ≤ u.conn.readLen + n ∧ readBufSize ≤ v.conn.readLen + m := by
  obtain ⟨hu, hv⟩ := h.same.full (h.same.read.trans hread)
  rw [length_offered h.fits.1] at hu
  rw [length_offered h.fits.2] at hv
  exact ⟨hu, hv⟩

theorem Shows.greetingText_eq (h : Shows u v n m) {reply : Reply}
    (hread : Reply.read (offered v m) maxReplyLines = .ok reply) :
    greetingText u reply = greetingText v reply := by
  have hcut {w : World E} {k : Nat} (hfits : w.conn.readLen + k ≤ readBufSize)
      (hle : reply.consumed ≤ (offered w k).length) :
      greetingText w reply
        = clip 256 (((offered w k).take reply.consumed).take (reply.consumed - 2)) := by
    rw [length_offered hfits] at hle
    simp only [greetingText, copyReplyText, offered, Buffer.slice, List.take_take]
    congr 2
    omega
  obtain ⟨hle, htake⟩ := h.same.front reply (h.same.read.trans hread)
  have hle' := (h.same.symm.front reply hread).1
  rw [hcut h.fits.1 hle, hcut h.fits.2 hle', htake]

theorem Shows.of_incomplete (h : Shows u v n m)
    (hread : Reply.read (offered v m) maxReplyLines = .incomplete) (detail : String)
    (x y : Except Assertion (World E)) :
    AlikeResults
      (if readBufSize ≤ (Conn.grown u n).conn.readLen then
        (Conn.grown u n).failWith .error detail else x)
      (if readBufSize ≤ (Conn.grown v m).conn.readLen then
        (Conn.grown v m).failWith .error detail else y) := by
  obtain ⟨hufull, hvfull⟩ := h.full hread
  rw [if_pos (by exact hufull), if_pos (by exact hvfull)]
  exact h.grown.failWith _ _

theorem Shows.handleBannerRead (h : Shows u v n m) :
    AlikeResults (Conn.handleBannerRead env u ⟨.read, 0, n⟩ identity nowMs)
      (Conn.handleBannerRead env v ⟨.read, 0, m⟩ identity laterMs) := by
  unfold Conn.handleBannerRead
  rw [if_neg (by simp), if_neg (by exact h.nonempty.1), if_neg (by simp),
    if_neg (by exact h.nonempty.2)]
  dsimp only
  rw [slice_grown, slice_grown, h.same.read]
  cases hv : Reply.read (offered v m) maxReplyLines with
  | incomplete => exact h.of_incomplete hv _ _ _
  | ok reply =>
      have hgreeted : Alike
          ((Conn.grown u n).modify fun c =>
            { c with greetingCode := reply.code, bannerSeen := true })
          ((Conn.grown v m).modify fun c =>
            { c with greetingCode := reply.code, bannerSeen := true }) :=
        { h.grown with greetingCode := rfl, bannerSeen := rfl }
      refine hgreeted.logEmit (h.greetingText_eq hv) ?_
      cases Reply.positive reply.code with
      | false => exact (hgreeted.record _).failWith _ _
      | true => exact (hgreeted.record _).sendEhlo h.tls
  | _ => exact h.grown.failWith _ _

theorem Shows.handleEhloRead (h : Shows u v n m) :
    AlikeResults (Conn.handleEhloRead env u ⟨.read, 0, n⟩ nowMs)
      (Conn.handleEhloRead env v ⟨.read, 0, m⟩ laterMs) := by
  unfold Conn.handleEhloRead
  rw [if_neg (by simp), if_neg (by exact h.nonempty.1), if_neg (by simp),
    if_neg (by exact h.nonempty.2)]
  dsimp only
  rw [slice_grown, slice_grown, modify_caps, modify_caps, h.alike.caps, h.same.parse]
  cases hv : Cap.parseEhloResponse v.caps (offered v m) maxReplyLines with
  | none => exact .error _
  | some parsed =>
      obtain ⟨verdict, caps⟩ := parsed
      cases verdict with
      | incomplete => exact h.of_incomplete (Cap.read_of_parseEhloResponse hv) _ _ _
      | ok reply =>
          have hparsed : Alike { Conn.grown u n with caps := caps }
              { Conn.grown v m with caps := caps } := { h.grown with caps := rfl }
          refine hparsed.logEmit rfl ?_
          have hlogged := hparsed.record (.log .capabilities (Cap.formatSummary caps 256))
          have hready : Alike (readied u n caps) (readied v m caps) := { hlogged with state := rfl }
          have htls : v.conn.tls = none := h.alike.tls.symm.trans h.tls
          have hmode : u.conn.tlsMode = v.conn.tlsMode :=
            congrArg Settings.tlsMode h.alike.settings
          change AlikeResults (afterEhlo env u n caps nowMs) (afterEhlo env v m caps laterMs)
          unfold afterEhlo
          rw [h.tls, htls, hmode]
          cases v.conn.tlsMode with
          | none => exact .ok hready
          | opportunistic =>
              cases hoffered : caps.hasStarttls with
              | false => exact .ok hready
              | true => exact hlogged.sendStarttls h.tls
          | explicit =>
              cases hoffered : caps.hasStarttls with
              | false => exact hlogged.failWith _ _
              | true => exact hlogged.sendStarttls h.tls
          | implicit => exact .error _
      | _ => exact h.grown.failWith _ _

theorem Shows.handleStarttlsReply (h : Shows u v n m) :
    AlikeResults (Conn.handleStarttlsReply env u ⟨.read, 0, n⟩ nowMs)
      (Conn.handleStarttlsReply env v ⟨.read, 0, m⟩ laterMs) := by
  unfold Conn.handleStarttlsReply
  rw [if_neg (by simp), if_neg (by exact h.nonempty.1), if_neg (by simp),
    if_neg (by exact h.nonempty.2)]
  dsimp only
  rw [slice_grown, slice_grown, h.same.read]
  cases hv : Reply.read (offered v m) maxReplyLines with
  | incomplete => exact h.of_incomplete hv _ _ _
  | ok reply =>
      dsimp only
      cases Reply.positive reply.code with
      | false => exact h.grown.failWith _ _
      | true => exact h.grown.beginTlsHandshake _
  | _ => exact h.grown.failWith _ _

/-- **What is shown decides.** -/
theorem Shows.onIo (h : Shows u v n m) (hawaits : awaitsReply u.conn.state = true) :
    AlikeResults (Conn.onIo env u ⟨.read, 0, n⟩ identity nowMs)
      (Conn.onIo env v ⟨.read, 0, m⟩ identity laterMs) := by
  have htls : v.conn.tls = none := h.alike.tls.symm.trans h.tls
  unfold Conn.onIo Conn.dispatch
  rw [h.tls, htls, ← h.alike.state]
  cases hstate : u.conn.state <;> rw [hstate] at hawaits
  case waitBanner => exact h.handleBannerRead
  case waitEhlo => exact h.handleEhloRead
  case waitStarttlsReply => exact h.handleStarttlsReply
  all_goals exact absurd hawaits (by decide)

end Shows

end Alike

end Conn

end SmtpClient
