import SmtpClient.SecuredSession
import SmtpClient.Proof.EhloReply

/-!
# A call behind STARTTLS is a step of the session

Every call on a connection that has begun a handshake behind STARTTLS does what the machine of the
secured session does on the same cue, with the answers the engine gave in that call. What the
buffers hold besides, and what the shared capabilities are, has no part in it.
-/

namespace SmtpClient

variable {E : TlsEngine}

namespace Conn

open World Protocol

/-- A connection is in the state a session believes to be in. -/
structure Believes (w : World E) (b : Belief) : Prop where
  state : w.conn.state = b.state
  commands : laterCommands w.trace = b.commands
  secured : w.conn.state.terminal = false → w.conn.tls.isSome = true ∧ w.conn.bannerSeen = true
  text : w.conn.state = .waitEhlo → heard w.conn = b.text

/-- From a session whose engine had given the answers `past`, a call leads where the machine does.
-/
def Follows (identity : Bytes) (b : Belief) (cue : Cue) (past : List EngineAnswer) (w' : World E) :
    Prop :=
  ∃ tape b', answers w'.trace = past ++ tape
    ∧ (∀ rest, Belief.advance identity (b, tape ++ rest) cue = (b', rest))
    ∧ Believes w' b' ∧ (w'.conn.state = .ready → w'.caps = b'.caps)

section Exits

variable {env : Env E} {identity plaintext input : Bytes} {nowMs : Nat} {w w' : World E}
  {tls : E.State} {result : IoResult} {b : Belief}

theorem sinceEngine_logs (trace : List Effect) (logs : List (LogEvent × Bytes)) :
    sinceEngine (trace ++ logs.map fun l => .log l.1 l.2)
      = sinceEngine trace ++ logs.map fun l => .log l.1 l.2 := by
  induction logs generalizing trace with
  | nil => simp
  | cons l logs ih =>
      have hnext := ih (trace ++ [.log l.1 l.2])
      simpa [Effect.since] using hnext

theorem Quits.answers_eq (h : Quits w w') : answers w'.trace = answers w.trace := by
  obtain ⟨logs, htrace⟩ := h.trace
  rw [htrace, answers, sinceEngine_logs, List.filterMap_append, filterMap_logs fun _ _ => rfl,
    List.append_nil]
  rfl

theorem Quits.laterCommands_eq (h : Quits w w') :
    laterCommands w'.trace = laterCommands w.trace := by
  obtain ⟨logs, htrace⟩ := h.trace
  have hnone : commands (logs.map fun l => Effect.log l.1 l.2) = [] :=
    filterMap_logs (fun _ _ => rfl) logs
  rw [htrace, laterCommands, sinceEngine_logs, commands_append, hnone, List.append_nil]
  rfl

theorem Believes.of_error (hstate : w.conn.state = .error)
    (hcommands : laterCommands w.trace = b.commands) : Believes w b.fail where
  state := hstate
  commands := hcommands
  secured hlive := by
    rw [hstate] at hlive
    exact absurd hlive (by decide)
  text hwait := nomatch hstate.symm.trans hwait

theorem Quits.believes (h : Quits w w') (hcommands : laterCommands w.trace = b.commands) :
    Believes w' b.fail := .of_error h.state (h.laterCommands_eq.trans hcommands)

theorem believes_orFail_submit {op : IoOp} {effect : Effect}
    (hb : Believes { w with trace := w.trace ++ [effect] } b) :
    Believes (orFail (w.submit env op effect)) (b.goOn (env.submitRc = 0)) := by
  by_cases hrc : env.submitRc = 0
  · rw [Belief.goOn, if_pos (by simpa using hrc)]
    refine ⟨?_, ?_, ?_, ?_⟩
    · simpa [hrc] using hb.state
    · simpa using hb.commands
    · simpa [hrc] using hb.secured
    · simpa [hrc, heard] using hb.text
  · rw [Belief.goOn, if_neg (by simpa using hrc)]
    exact .of_error (by simp [hrc]) (by simpa using hb.commands)

theorem answers_orFail_submitRead {op : IoOp} :
    answers (orFail (w.submit env op (.submitRead env.submitRc))).trace = answers w.trace := by
  simp [answers, Effect.since, Effect.answer]

theorem believes_reads (hb : Believes w b) :
    Believes (reads env w) (b.goOn (env.submitRc = 0)) := by
  refine believes_orFail_submit ⟨hb.state, ?_, hb.secured, hb.text⟩
  have hcommands := hb.commands
  simpa [laterCommands, commands, Effect.since] using hcommands

theorem answers_reads : answers (reads env w).trace = answers w.trace := answers_orFail_submitRead

theorem Drives.believes (h : Drives env w tls input w') (hstate : w.conn.state = .tlsHandshaking)
    (hsame : b.state = .tlsHandshaking) (hbanner : w.conn.bannerSeen = true)
    (hcommands : laterCommands w.trace = b.commands) :
    answers w'.trace
        = answers w.trace ++ [.handshake (E.handshake tls input readBufSize).status]
      ∧ Believes w' (b.shake (env.submitRc = 0) (E.handshake tls input readBufSize).status) := by
  cases h with
  | wantWrite out hout hstatus =>
      refine ⟨by simp [answers, driveHandshake, Effect.since, Effect.answer], ?_⟩
      rw [hstatus]
      refine believes_orFail_submit ⟨?_, ?_, fun _ => ⟨rfl, hbanner⟩, fun hwait => ?_⟩
      · exact hstate.trans hsame.symm
      · simpa [laterCommands, commands, driveHandshake, Effect.since] using hcommands
      · cases hstate.symm.trans hwait
  | wantRead hstatus =>
      refine ⟨by simp [answers, driveHandshake, Effect.since, Effect.answer], ?_⟩
      rw [hstatus]
      refine believes_orFail_submit ⟨?_, ?_, fun _ => ⟨rfl, hbanner⟩, fun hwait => ?_⟩
      · exact hstate.trans hsame.symm
      · simpa [laterCommands, commands, driveHandshake, Effect.since] using hcommands
      · cases hstate.symm.trans hwait
  | refused hstatus hquits =>
      rw [hquits.answers_eq]
      refine ⟨by simp [answers, driveHandshake, Effect.since, Effect.answer], ?_⟩
      have hfail : b.shake (env.submitRc = 0) (E.handshake tls input readBufSize).status
          = b.fail := by
        cases h : (E.handshake tls input readBufSize).status <;> simp_all [Belief.shake]
      rw [hfail]
      refine hquits.believes ?_
      simpa [laterCommands, commands, driveHandshake, Effect.since] using hcommands

theorem SendsEhlo.believes (h : SendsEhlo env identity nowMs w w')
    (hsome : w.conn.tls.isSome = true) (hbanner : w.conn.bannerSeen = true)
    (hcommands : laterCommands w.trace = b.commands) :
    ∃ tape b', answers w'.trace = answers w.trace ++ tape
      ∧ (∀ rest, Belief.sayEhlo identity b (env.submitRc = 0) (tape ++ rest) = (b', rest))
      ∧ Believes w' b' := by
  cases h with
  | tooLong hlen hquits =>
      have hlong : ¬ (ehloLine identity).length < writeBufSize :=
        Nat.not_lt.mpr (buildEhloCommand_eq_zero_iff.mp hlen)
      refine ⟨[], b.fail, by simp [hquits.answers_eq], ?_, hquits.believes hcommands⟩
      intro rest
      exact if_neg hlong
  | submits hlen _ hsubmits =>
      have hshort : (ehloLine identity).length < writeBufSize := by
        by_contra hlong
        exact hlen (buildEhloCommand_eq_zero_iff.mpr (Nat.le_of_not_lt hlong))
      have hbuilt : answers (ehloBuilt w identity nowMs).trace = answers w.trace := by
        simp [ehloBuilt, answers, Effect.since, Effect.answer]
      have hsilent : laterCommands (ehloBuilt w identity nowMs).trace = b.commands := by
        simpa [ehloBuilt, laterCommands, commands, Effect.since] using hcommands
      cases hsubmits with
      | plain hnone =>
          rw [show w.conn.tls = none from hnone] at hsome
          exact absurd hsome (by simp)
      | encrypted tls' htls' _ out hout hstatus =>
          refine ⟨[.encrypted .wantWrite], _, ?_, fun rest => if_pos hshort,
            believes_orFail_submit ⟨rfl, ?_, fun _ => ⟨rfl, hbanner⟩, fun hwait => ?_⟩⟩
          · rw [← hbuilt]
            simp [encrypting, answers, Effect.since, Effect.answer, hstatus]
          · rw [← hsilent]
            simp [encrypting, laterCommands, commands, Effect.since, ehloLine]
          · cases hwait
      | encryptFailed tls' htls' _ hstatus =>
          refine ⟨[.encrypted (E.encrypt tls' (ehloLine identity) readBufSize).status], b.fail, ?_,
            fun rest => ?_, .of_error rfl ?_⟩
          · rw [← hbuilt]
            simp [encrypting, answers, Effect.since, Effect.answer]
          · refine (if_pos hshort).trans ?_
            cases hs : (E.encrypt tls' (ehloLine identity) readBufSize).status
            case wantWrite => exact absurd hs hstatus
            all_goals rfl
          · rw [← hsilent]
            simp [encrypting, laterCommands, commands, Effect.since]

theorem shake_state_ne_ready {accepted : Bool} {status : TlsStatus} (h : b.state ≠ .ready) :
    (b.shake accepted status).state ≠ .ready := by
  cases status <;> cases accepted <;> simp [Belief.shake, Belief.goOn, Belief.fail, h]

/-! ### One call, state by state -/

theorem answers_deliver {op : IoOp} {result : Int} {data : Bytes} :
    answers (w.deliver op result data).trace = answers w.trace := by
  simp [answers, Effect.since, Effect.answer]

theorem laterCommands_deliver {op : IoOp} {result : Int} {data : Bytes} :
    laterCommands (w.deliver op result data).trace = laterCommands w.trace := by
  simp [laterCommands, commands, Effect.since]

theorem Quits.follows {cue : Cue} (h : Quits w w') (hcommands : laterCommands w.trace = b.commands)
    (hadvance : ∀ tape, Belief.advance identity (b, tape) cue = (b.fail, tape)) :
    Follows identity b cue (answers w.trace) w' :=
  ⟨[], b.fail, by simp [h.answers_eq], fun rest => hadvance rest, h.believes hcommands,
    fun hready => nomatch h.state.symm.trans hready⟩

theorem Handled.follows_begin (h : Handled env identity nowMs w result w')
    (hstate : w.conn.state = .waitStarttlsReply) (htls : w.conn.tls = none)
    (hbanner : w.conn.bannerSeen = true) (hbegins : w'.conn.tls.isSome = true)
    (kind : IoKind) (succeeded moved : Bool) :
    Follows identity .initial (.completion kind succeeded moved (env.submitRc = 0)) [] w' := by
  have hother {state : ConnState} (h : w.conn.state = state) (hne : state ≠ .waitStarttlsReply) :
      False := hne (h.symm.trans hstate)
  cases h with
  | refuses _ hquits => exact absurd hbegins (by simp [hquits.tls, htls])
  | proceeds _ hproceeds =>
      cases hproceeds with
      | waits => exact absurd hbegins (by simp [reads, grown, htls])
      | starttlsAccepted _ _ _ _ _ hbegun =>
          cases hbegun with
          | createFailed _ _ _ hquits =>
              exact absurd hbegins (by simp [hquits.tls, grown, htls])
          | drives ctx _ tls _ detail hdrives =>
              obtain ⟨hanswers, hbelieves⟩ := hdrives.believes
                (b := { Belief.initial with state := .tlsHandshaking }) rfl rfl hbanner (by
                  simp [handshaking, laterCommands, commands, Effect.since, Belief.initial])
              refine ⟨[.handshake _], _, ?_, fun rest => rfl, hbelieves, ?_⟩
              · simpa [handshaking, answers, Effect.since, Effect.answer, List.filterMap_cons]
                  using hanswers
              · intro hready
                exact absurd (hbelieves.state.symm.trans hready)
                  (shake_state_ne_ready (by simp))
      | connected h | connectedImplicit h | ehloSent h | starttlsSent h | greeted h | ready h
      | starttlsWanted h | drives h | securedFirst h | securedAgain h =>
          exact (hother h (by decide)).elim

theorem Handled.follows_handshake (h : Handled env identity nowMs w result w')
    (hb : Believes w b) (hstate : w.conn.state = .tlsHandshaking) :
    Follows identity b (.completion result.kind (result.result = 0)
      (moved w result.kind result.bytesTransferred) (env.submitRc = 0)) (answers w.trace) w' := by
  have hsame : b.state = .tlsHandshaking := hb.state.symm.trans hstate
  obtain ⟨hsome, hbanner⟩ := hb.secured (by rw [hstate]; rfl)
  have hother {state : ConnState} (h : w.conn.state = state) (hne : state ≠ .tlsHandshaking) :
      False := hne (h.symm.trans hstate)
  -- The call reaches the engine.
  have hasks (hresult : result.result = 0)
      (hbytes : result.kind = .read → result.bytesTransferred ≠ 0) :
      (!decide (result.result = 0) || (result.kind == .read
        && !moved w result.kind result.bytesTransferred)) = false := by
    by_cases hkind : result.kind = .read
    · simp [hresult, hkind, moved, hbytes hkind]
    · simp [hresult, hkind]
  cases h with
  | refuses hwhy hquits =>
      apply hquits.follows hb.commands
      intro tape
      simp only [Belief.advance, hsame]
      rw [if_pos]
      cases hwhy with
      | failed hfailed => simp [hfailed]
      | closed hwhere hclosed =>
          rcases hwhere with hawaits | ⟨-, hkind⟩
          · rw [hstate] at hawaits
            exact absurd hawaits (by decide)
          · simp [hkind, hclosed, moved]
      | short h | unfinished h | malformed h =>
          rw [hstate] at h
          exact absurd h (by decide)
      | negative _ _ _ _ hwhere =>
          rcases hwhere with ⟨h, -⟩ | h <;> exact (hother h (by decide)).elim
      | unoffered h => exact (hother h (by decide)).elim
  | proceeds hresult hproceeds =>
      cases hproceeds with
      | waits h =>
          rw [hstate] at h
          exact absurd h (by decide)
      | drives _ tls htls hstatus hbytes hdrives =>
          obtain ⟨hanswers, hbelieves⟩ := hdrives.believes hstate hsame hbanner hb.commands
          refine ⟨_, _, hanswers, ?_, hbelieves, ?_⟩
          · intro rest
            simp only [Belief.advance, hsame, hasks hresult hbytes]
            cases hs : (E.handshake tls (handshakeInput w result) readBufSize).status
            case ok => exact absurd hs hstatus
            all_goals simp
          · intro hready
            exact absurd (hbelieves.state.symm.trans hready)
              (shake_state_ne_ready (by simp [hsame]))
      | securedFirst _ _ _ _ _ _ hunseen => exact absurd hbanner (by simp [hunseen])
      | securedAgain _ tls htls hstatus hbytes _ _ hsends =>
          have hcommands := hb.commands
          obtain ⟨tape, b', hanswers, hadvance, hbelieves⟩ :=
            hsends.believes (b := b) rfl hbanner (by
              simpa [secured, driveHandshake, laterCommands, commands, Effect.since]
                using hcommands)
          refine ⟨.handshake .ok :: tape, b', ?_, ?_, hbelieves, ?_⟩
          · simpa [secured, driveHandshake, answers, Effect.since, Effect.answer, hstatus,
              List.filterMap_cons] using hanswers
          · intro rest
            simp only [Belief.advance, hsame, hasks hresult hbytes]
            exact hadvance rest
          · intro hready
            obtain ⟨hnot, -⟩ := flags_of_phase hsends.phase_eq
              (ne_of_eq_of_ne hready (by decide : ConnState.ready ≠ .error))
            cases hready.symm.trans hnot
      | connected h | connectedImplicit h | ehloSent h | starttlsSent h | greeted h | ready h
      | starttlsWanted h | starttlsAccepted h => exact (hother h (by decide)).elim

theorem Handled.follows_sending (h : Handled env identity nowMs w result w')
    (hb : Believes w b) (hstate : w.conn.state = .sendingEhlo) (hkind : result.kind = .write) :
    Follows identity b (.completion result.kind (result.result = 0)
      (moved w result.kind result.bytesTransferred) (env.submitRc = 0)) (answers w.trace) w' := by
  have hmoved : moved w result.kind result.bytesTransferred
      = decide (result.bytesTransferred = w.conn.wireWriteLen) := by rw [hkind]; rfl
  rw [hmoved]
  have hsame : b.state = .sendingEhlo := hb.state.symm.trans hstate
  have hother {state : ConnState} (h : w.conn.state = state) (hne : state ≠ .sendingEhlo) :
      False := hne (h.symm.trans hstate)
  have hquiet : awaitsReply w.conn.state = false := by rw [hstate]; rfl
  cases h with
  | refuses hwhy hquits =>
      apply hquits.follows hb.commands
      intro tape
      simp only [Belief.advance, hsame]
      rw [if_neg]
      cases hwhy with
      | failed hfailed => simp [hfailed]
      | short _ hbytes => simp [hbytes]
      | closed hwhere =>
          rcases hwhere with h | ⟨h, -⟩
          · exact absurd h (by simp [hquiet])
          · exact (hother h (by decide)).elim
      | unfinished h | malformed h => exact absurd h (by simp [hquiet])
      | negative _ _ _ _ hwhere =>
          rcases hwhere with ⟨h, -⟩ | h <;> exact (hother h (by decide)).elim
      | unoffered h => exact (hother h (by decide)).elim
  | proceeds hresult hproceeds =>
      cases hproceeds with
      | waits h => exact absurd h (by simp [hquiet])
      | ehloSent _ hfull =>
          have hbelieves := @believes_reads _ env
            (w.modify fun c => { c with state := .waitEhlo, readLen := 0 })
            { b with state := .waitEhlo, text := [] }
            ⟨rfl, hb.commands, fun _ => hb.secured (by rw [hstate]; rfl),
              fun _ => by simp [heard, hears]⟩
          refine ⟨[], _, by simp [answers_reads], ?_, hbelieves, ?_⟩
          · intro rest
            simp [Belief.advance, hsame, hresult, hfull]
          · intro hready
            by_cases hrc : env.submitRc = 0 <;> simp [reads, hrc] at hready
      | connected h | connectedImplicit h | starttlsSent h | greeted h | ready h
      | starttlsWanted h | drives h | securedFirst h | securedAgain h | starttlsAccepted h =>
          exact (hother h (by decide)).elim

/-! ### The reply to the EHLO -/

theorem Handled.believes_hear (h : Handled env identity nowMs w result w')
    (hstate : w.conn.state = .waitEhlo) (hsame : b.state = .waitEhlo) (hresult : result.result = 0)
    (hsecured : w.conn.tls.isSome = true ∧ w.conn.bannerSeen = true)
    (hcommands : laterCommands w.trace = b.commands)
    (hroom : w.conn.readLen + result.bytesTransferred ≤ readBufSize)
    {chunk : Bytes} (hchunk : chunk.length = result.bytesTransferred)
    (htext : offered w result.bytesTransferred = b.text ++ chunk) :
    answers w'.trace = answers w.trace ∧ Believes w' (b.hear (env.submitRc = 0) chunk)
      ∧ (w'.conn.state = .ready → w'.caps = (b.hear (env.submitRc = 0) chunk).caps) := by
  have hother {state : ConnState} (h : w.conn.state = state) (hne : state ≠ .waitEhlo) :
      False := hne (h.symm.trans hstate)
  have hsome : w.conn.tls ≠ none := Option.isSome_iff_ne_none.mp hsecured.1
  have hheard (hbytes : result.bytesTransferred ≠ 0) : chunk ≠ [] := fun hnil =>
    hbytes (by rw [← hchunk, hnil]; rfl)
  have hlen : (b.text ++ chunk).length = w.conn.readLen + result.bytesTransferred := by
    rw [← htext, offered, Buffer.length_slice _ hroom]
  have hfails (hquits : Quits w w') (hfail : b.hear (env.submitRc = 0) chunk = b.fail) :
      answers w'.trace = answers w.trace ∧ Believes w' (b.hear (env.submitRc = 0) chunk)
        ∧ (w'.conn.state = .ready → w'.caps = (b.hear (env.submitRc = 0) chunk).caps) := by
    rw [hfail]
    refine ⟨hquits.answers_eq, hquits.believes hcommands, fun hready => ?_⟩
    cases hquits.state.symm.trans hready
  cases h with
  | refuses hwhy hquits =>
      refine hfails hquits ?_
      cases hwhy with
      | failed hfailed => exact absurd hresult hfailed
      | closed _ hclosed =>
          exact if_pos (List.length_eq_zero_iff.mp (hchunk.trans hclosed))
      | short h =>
          rw [hstate] at h
          exact absurd h (by decide)
      | unfinished _ hbytes hread hfull =>
          rw [htext] at hread
          rw [Belief.hear_incomplete (hheard hbytes) hread, if_neg (by omega)]
      | malformed _ hbytes hincomplete hok =>
          rw [htext] at hincomplete hok
          exact Belief.hear_malformed (hheard hbytes) hincomplete hok
      | negative _ _ _ _ hwhere =>
          rcases hwhere with ⟨h, -⟩ | h <;> exact (hother h (by decide)).elim
      | unoffered _ _ _ _ _ htls => exact absurd htls hsome
  | proceeds _ hproceeds =>
      cases hproceeds with
      | waits _ hbytes hread hnotFull =>
          rw [htext] at hread
          rw [Belief.hear_incomplete (hheard hbytes) hread, if_pos (by omega)]
          have hbelieves := @believes_reads _ env (grown w result.bytesTransferred)
            { b with text := b.text ++ chunk } ⟨hstate.trans hsame.symm, hcommands,
              fun _ => hsecured, fun _ => by
                rw [heard, if_pos (by simp [grown, hstate, hears])]
                exact htext⟩
          refine ⟨answers_reads, hbelieves, ?_⟩
          intro hready
          by_cases hrc : env.submitRc = 0 <;> simp [reads, grown, hrc, hstate] at hready
      | ready _ hbytes reply caps hparse =>
          rw [htext] at hparse
          rw [Belief.hear_ok (hheard hbytes) hparse]
          refine ⟨?_, ⟨rfl, ?_, fun hlive => absurd hlive ?_, fun hwait => ?_⟩, fun _ => rfl⟩
          · simp [readied, capabilitiesOf, grown, answers, Effect.since, Effect.answer]
          · simpa [readied, capabilitiesOf, grown, laterCommands, commands, Effect.since]
              using hcommands
          · simp [readied, ConnState.terminal]
          · cases hwait
      | starttlsWanted _ _ _ _ _ htls => exact absurd htls hsome
      | connected h | connectedImplicit h | ehloSent h | starttlsSent h | greeted h
      | drives h | securedFirst h | securedAgain h | starttlsAccepted h =>
          exact (hother h (by decide)).elim

end Exits

section Step

variable {env : Env E} {identity data : Bytes} {nowMs : Nat} {w w' : World E} {op : IoOp}
  {result : Int} {b : Belief}

theorem Believes.deliver (hb : Believes w b) (hstate : w.conn.state ≠ .waitEhlo) :
    Believes (w.deliver op result data) b where
  state := (World.deliver_state w op result data).trans hb.state
  commands := laterCommands_deliver.trans hb.commands
  secured := by simpa using hb.secured
  text hwait := absurd ((World.deliver_state w op result data).symm.trans hwait) hstate

theorem moved_deliver {kind : IoKind} {n : Nat} :
    moved (w.deliver op result data) kind n = moved w kind n := by
  simp [moved]

theorem answers_decrypted {tls : E.State} (n : Nat) : answers (decrypted w tls n).trace
    = answers w.trace ++ [.decrypted (decryption w tls n).status (decryption w tls n).out] := by
  simp [decrypted, answers, Effect.since, Effect.answer]

theorem laterCommands_decrypted {tls : E.State} (n : Nat) :
    laterCommands (decrypted w tls n).trace = laterCommands w.trace := by
  simp [decrypted, laterCommands, commands, Effect.since]

variable (h : Reachable identity w) (hlive : w.conn.state.terminal = false)
  (hdelivers : Delivers w op result data)
  (honIo : OnIo env identity nowMs (w.deliver op result data) ⟨op.kind, result, data.length⟩ w')
  (hb : Believes w b)
include h hlive hdelivers honIo hb

theorem follows_waiting (hstate : w.conn.state = .waitEhlo) (moved : Bool) :
    Follows identity b (.completion op.kind (result = 0) moved (env.submitRc = 0))
      (answers w.trace) w' := by
  have hsame : b.state = .waitEhlo := hb.state.symm.trans hstate
  have hawaits : awaitsReply w.conn.state = true := by rw [hstate]; rfl
  have hsecured := hb.secured hlive
  have htext : heard w.conn = b.text := hb.text hstate
  have hcommands (tls : E.State) : laterCommands
      (decrypted (w.deliver op result data) tls data.length).trace = b.commands := by
    rw [laterCommands_decrypted, laterCommands_deliver, hb.commands]
  have hanswers (tls : E.State) : answers
      (decrypted (w.deliver op result data) tls data.length).trace = answers w.trace
        ++ [.decrypted (decryption (w.deliver op result data) tls data.length).status
          (decryption (w.deliver op result data) tls data.length).out] := by
    rw [answers_decrypted, answers_deliver]
  cases honIo with
  | direct hraw hhandled =>
      -- Over TLS only a failed read gets past the engine.
      have hfailed : result ≠ 0 := by
        intro hzero
        obtain ⟨hnone, -⟩ := eq_plain_read h hlive hdelivers (by simpa using hraw) hawaits hzero
        exact absurd hsecured.1 (by simp [hnone])
      cases hhandled with
      | refuses _ hquits =>
          rw [← @answers_deliver _ w op result data]
          apply hquits.follows (laterCommands_deliver.trans hb.commands)
          intro tape
          simp [Belief.advance, hsame, hfailed]
      | proceeds hresult => exact absurd hresult hfailed
  | full tls _ hfull =>
      have hroom := (hears_of_reachable h).room hawaits
      rw [deliver_readLen] at hfull
      omega
  | undecided tls hdecrypts hroom _ hstatus =>
      have hresult : result = 0 := hdecrypts.result
      have hbelieves := @believes_reads _ env
        (decrypted (w.deliver op result data) tls data.length) b
        ⟨by simpa using hb.state, hcommands tls,
          fun _ => ⟨rfl, by simpa [decrypted] using hsecured.2⟩, fun _ => ?_⟩
      · refine ⟨_, _, by rw [answers_reads, hanswers], ?_, hbelieves, ?_⟩
        · intro rest
          rw [hstatus]
          simp [Belief.advance, hsame, hresult]
        · intro hready
          by_cases hrc : env.submitRc = 0 <;> simp [reads, hrc, hstate] at hready
      · rw [heard_decrypted h hlive hdelivers hdecrypts, htext]
  | broken tls hdecrypts _ _ hstatus hquits =>
      have hresult : result = 0 := hdecrypts.result
      refine ⟨_, b.fail, by rw [hquits.answers_eq, hanswers], fun rest => ?_,
        hquits.believes (hcommands tls), fun hready => ?_⟩
      · rw [hstatus]
        simp [Belief.advance, hsame, hresult]
      · cases hquits.state.symm.trans hready
  | delivered tls hdecrypts hroom _ hstatus hhandled =>
      have hresult : result = 0 := hdecrypts.result
      have hdecryption := decryption_deliver h hlive hdelivers hdecrypts
      have hroom := room_decrypted h hlive hdelivers hdecrypts
      have hoffered := offered_decrypted h hlive hdelivers hdecrypts
      rw [← hdecryption] at hroom hoffered
      rw [htext] at hoffered
      obtain ⟨hkept, hbelieves, hcaps⟩ := hhandled.believes_hear (b := b)
        (by simpa using hstate) hsame hresult ⟨rfl, by simpa [decrypted] using hsecured.2⟩
        (hcommands tls) (by simpa [decrypted, decryptedResult] using hroom) rfl hoffered
      refine ⟨_, _, by rw [hkept, hanswers], ?_, hbelieves, hcaps⟩
      intro rest
      rw [hstatus]
      simp [Belief.advance, hsame, hresult]

/-- **One completion behind STARTTLS.** -/
theorem follows_of_onIo : Follows identity b (.completion op.kind (result = 0)
    (moved w op.kind data.length) (env.submitRc = 0)) (answers w.trace) w' := by
  obtain ⟨hsome, hbanner⟩ := hb.secured hlive
  have hconsistent := consistent_of_sound (sound_of_reachable h) hlive
  -- The engine exists and the greeting is behind us, which leaves three states.
  cases hstate : w.conn.state <;> simp only [phase, hstate, hsome, hbanner] at hconsistent
  case tlsHandshaking =>
    cases honIo with
    | direct _ hhandled =>
        have hfollows := hhandled.follows_handshake (hb.deliver (by simp [hstate]))
          (by simpa using hstate)
        rwa [answers_deliver, moved_deliver] at hfollows
    | full _ hdecrypts | undecided _ hdecrypts | broken _ hdecrypts | delivered _ hdecrypts =>
        exact absurd hdecrypts.state (by simp [hstate])
  case sendingEhlo =>
    cases honIo with
    | direct _ hhandled =>
        obtain ⟨-, -, hexpects⟩ := (flight_of_reachable h).deliver hlive hdelivers
        have hkind : op.kind = .write := by
          rw [hstate] at hexpects
          cases hk : op.kind <;> simp_all [expects]
        have hfollows := hhandled.follows_sending (hb.deliver (by simp [hstate]))
          (by simpa using hstate) hkind
        rwa [answers_deliver, moved_deliver] at hfollows
    | full _ hdecrypts | undecided _ hdecrypts | broken _ hdecrypts | delivered _ hdecrypts =>
        obtain ⟨hawaits, -⟩ := deliver_of_decrypts (hears_of_reachable h) (flight_of_reachable h)
          hlive hdelivers hdecrypts
        rw [hstate] at hawaits
        exact absurd hawaits (by decide)
  case waitEhlo => exact follows_waiting h hlive hdelivers honIo hb hstate _
  all_goals first
    | (rw [hstate] at hlive; exact absurd hlive (by decide))
    | simp [Consistent] at hconsistent

end Step

end Conn

end SmtpClient
