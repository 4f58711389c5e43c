import SmtpClient.Proof.SecuredCall

/-!
# Nothing from before the handshake is believed behind it

A connection that has begun a handshake behind STARTTLS is the machine of the secured session, over
whole runs. The machine keeps an account of the answers it has used, and from it two such
connections are compared.
-/

namespace SmtpClient

variable {E : TlsEngine}

namespace Conn

open World Protocol

/-! ### A whole run -/

theorem Upgraded.reachable {identity : Bytes} {cues : List Cue} {caps : Capabilities} {w : World E}
    (h : Upgraded identity cues caps w) : Reachable identity w := by
  induction h with
  | begins hreach _ hstep => exact hreach.step hstep
  | goesOn _ hstep ih => exact ih.step hstep

/-- A connection has come as far as the session that got its answers and its cues. -/
def Tracks (identity : Bytes) (cues : List Cue) (caps : Capabilities) (w : World E) : Prop :=
  ∃ b, (∀ rest, Belief.after identity (answers w.trace ++ rest) cues = (b, rest))
    ∧ Believes w b ∧ (w.conn.state = .ready → caps = b.caps)

theorem tracks_of_begins {identity : Bytes} {w w' : World E} {event : Event E}
    (h : Reachable identity w) (hstate : w.conn.state = .waitStarttlsReply)
    (hstep : (machine E identity).Steps w event w') (hbegins : w'.conn.tls.isSome = true) :
    Tracks identity (cues w event) w'.caps w' := by
  have hlive : w.conn.state.terminal = false := by rw [hstate]; rfl
  have hconsistent := consistent_of_sound (sound_of_reachable h) hlive
  simp only [phase, hstate] at hconsistent
  have htls : w.conn.tls = none := by simpa using hconsistent.1
  have hnever (hsame : w'.conn.tls = w.conn.tls) : False := by
    rw [hsame, htls] at hbegins
    exact absurd hbegins (by simp)
  cases took_of_steps hstep with
  | completes env op result data nowMs _ hdelivers honIo =>
      cases honIo with
      | direct _ hhandled =>
          obtain ⟨tape, b, hanswers, hadvance, hbelieves, hcaps⟩ :=
            hhandled.follows_begin (by simpa using hstate) (by simpa using htls)
              (by simpa using hconsistent.2) hbegins op.kind (result = 0)
              (moved w op.kind data.length)
          refine ⟨b, ?_, hbelieves, hcaps⟩
          intro rest
          rw [hanswers, List.nil_append]
          exact hadvance rest
      | full _ hdecrypts | undecided _ hdecrypts | broken _ hdecrypts | delivered _ hdecrypts =>
          exact absurd hdecrypts.tls (by simp [htls])
  | inTime => exact (hnever rfl).elim
  | expires => exact (hnever rfl).elim
  | others => exact (hnever rfl).elim

theorem Tracks.step {identity : Bytes} {past : List Cue} {caps : Capabilities} {w w' : World E}
    {event : Event E} (htracks : Tracks identity past caps w) (h : Reachable identity w)
    (hstep : (machine E identity).Steps w event w') :
    Tracks identity (past ++ cues w event) (left caps w' event) w' := by
  obtain ⟨b, hafter, hb, hcaps⟩ := htracks
  cases took_of_steps hstep with
  | completes env op result data nowMs hlive hdelivers honIo =>
      obtain ⟨tape, b', hanswers, hadvance, hb', hcaps'⟩ :=
        follows_of_onIo h hlive hdelivers honIo hb
      refine ⟨b', ?_, hb', hcaps'⟩
      intro rest
      rw [cues, Belief.after_snoc, hanswers, List.append_assoc, hafter]
      exact hadvance rest
  | inTime nowMs hwhy =>
      refine ⟨b, ?_, hb, hcaps⟩
      intro rest
      rw [cues, Belief.after_snoc, hafter, Belief.advance, ← hb.state]
      rcases hwhy with hover | hearly
      · simp [hover]
      · simp [Nat.not_le.mpr hearly]
  | expires nowMs hlive hdeadline =>
      refine ⟨{ b with state := .timedOut }, ?_, ⟨rfl, ?_, ?_, ?_⟩, ?_⟩
      · intro rest
        have hkept : answers (expired w).trace = answers w.trace := by
          simp [expired, answers, Effect.since, Effect.answer]
        rw [cues, Belief.after_snoc, hkept, hafter, Belief.advance, ← hb.state]
        simp [hlive, hdeadline]
      · simpa [expired, laterCommands, commands, Effect.since] using hb.commands
      · intro hlive
        exact absurd hlive (by simp [expired, ConnState.terminal])
      · intro hwait
        cases hwait
      · intro hready
        cases hready
  | others others =>
      refine ⟨b, ?_, ⟨hb.state, hb.commands, hb.secured, hb.text⟩, hcaps⟩
      intro rest
      rw [cues, List.append_nil]
      exact hafter rest

/-- **The session is that machine.** -/
theorem Upgraded.tracks {identity : Bytes} {cues : List Cue} {caps : Capabilities} {w : World E}
    (h : Upgraded identity cues caps w) : Tracks identity cues caps w := by
  induction h with
  | begins hreach hstate hstep hbegins => exact tracks_of_begins hreach hstate hstep hbegins
  | goesOn h hstep ih => exact ih.step h.reachable hstep

end Conn

/-! ### What a session may be made of -/

namespace Belief

/-- The session has asked the engine to encrypt its EHLO. -/
def spoken (used : List EngineAnswer) : Bool :=
  used.any fun
    | .encrypted _ => true
    | _ => false

/-- Where the answers of the engine lead a session that does not fail. -/
def stageOf (used : List EngineAnswer) : ConnState :=
  if used = [] then .waitStarttlsReply
  else if spoken used = false then .tlsHandshaking
  else
    match Reply.read (decryptedText used) maxReplyLines with
    | .ok _ => .ready
    | _ => .sendingEhlo

/-- What a session has come to, from the answers it has used. -/
inductive Accounted (identity : Bytes) (used : List EngineAnswer) (b : Belief) : Prop where
  | begun (hstate : b.state = .waitStarttlsReply) (hsilent : b.commands = []) (hnone : used = [])
  | shaking (hstate : b.state = .tlsHandshaking) (hsilent : b.commands = []) (hsome : used ≠ [])
      (hunspoken : spoken used = false) (hunheard : decryptedText used = [])
  | sending (hstate : b.state = .sendingEhlo) (hsaid : b.commands = [Conn.ehloLine identity])
      (hspoken : spoken used = true) (hunheard : decryptedText used = [])
  | waiting (hstate : b.state = .waitEhlo) (hsaid : b.commands = [Conn.ehloLine identity])
      (hspoken : spoken used = true) (htext : b.text = decryptedText used)
      (hopen : ∀ reply, Reply.read (decryptedText used) maxReplyLines ≠ .ok reply)
  | ready (hstate : b.state = .ready) (hsaid : b.commands = [Conn.ehloLine identity])
      (hspoken : spoken used = true) (reply : Reply)
      (hparse : Cap.parseEhloResponse Cap.init (decryptedText used) maxReplyLines
        = some (.ok reply, b.caps))
  | finished (hstate : Conn.failed b.state = true)
      (hcommands : b.commands = [] ∨ b.commands = [Conn.ehloLine identity])

@[simp] theorem decryptedText_append (tape tape' : List EngineAnswer) :
    decryptedText (tape ++ tape') = decryptedText tape ++ decryptedText tape' :=
  List.flatMap_append

@[simp] theorem spoken_append (tape tape' : List EngineAnswer) :
    spoken (tape ++ tape') = (spoken tape || spoken tape') :=
  List.any_append

theorem ne_nil_of_spoken {used : List EngineAnswer} (h : spoken used = true) : used ≠ [] := by
  intro hnil
  rw [hnil] at h
  exact absurd h (by decide)

section Accounted

variable {identity : Bytes} {used used' tape rest : List EngineAnswer} {b b' : Belief}
  {accepted : Bool} {status : TlsStatus} {chunk : Bytes}

theorem Accounted.commands_eq (h : Accounted identity used b) :
    b.commands = [] ∨ b.commands = [Conn.ehloLine identity] := by
  cases h with
  | begun _ hsilent | shaking _ hsilent => exact .inl hsilent
  | sending _ hsaid | waiting _ hsaid | ready _ hsaid => exact .inr hsaid
  | finished _ hcommands => exact hcommands

/-- **The answers decide** where a session stands that has not failed. -/
theorem Accounted.stage_eq (h : Accounted identity used b) (hgoes : Conn.failed b.state = false) :
    Conn.stage b.state = stageOf used
      ∧ b.commands = if spoken used then [Conn.ehloLine identity] else [] := by
  unfold stageOf
  cases h with
  | begun hstate hsilent hnone =>
      subst hnone
      exact ⟨by rw [hstate]; rfl, hsilent⟩
  | shaking hstate hsilent hsome hunspoken =>
      rw [if_neg hsome, if_pos hunspoken, hunspoken]
      exact ⟨by rw [hstate]; rfl, hsilent⟩
  | sending hstate hsaid hspoken hunheard =>
      rw [if_neg (ne_nil_of_spoken hspoken), if_neg (by simp [hspoken]), hunheard, hspoken]
      exact ⟨by rw [hstate]; rfl, hsaid⟩
  | waiting hstate hsaid hspoken _ hopen =>
      rw [if_neg (ne_nil_of_spoken hspoken), if_neg (by simp [hspoken]), hspoken, hstate]
      refine ⟨?_, hsaid⟩
      cases hread : Reply.read (decryptedText used) maxReplyLines with
      | ok reply => exact absurd hread (hopen reply)
      | _ => rfl
  | ready hstate hsaid hspoken reply hparse =>
      rw [if_neg (ne_nil_of_spoken hspoken), if_neg (by simp [hspoken]), hspoken, hstate,
        Cap.read_of_parseEhloResponse hparse]
      exact ⟨rfl, hsaid⟩
  | finished hstate => exact absurd hstate (by simp [hgoes])

theorem Accounted.fail (h : Accounted identity used b) : Accounted identity used' b.fail :=
  .finished rfl h.commands_eq

theorem Accounted.goOn (h : Accounted identity used b) :
    Accounted identity used (b.goOn accepted) := by
  cases accepted with
  | true => exact h
  | false => exact h.fail

theorem Accounted.shake (h : Accounted identity used b) :
    Accounted identity used (b.shake accepted status) := by
  cases status with
  | wantRead | wantWrite => exact h.goOn
  | ok | error => exact h.fail

/-- An answer to the handshake, from a session that has not spoken yet. -/
theorem accounted_handshake (hstate : b.state = .tlsHandshaking) (hsilent : b.commands = [])
    (hunspoken : spoken used = false) (hunheard : decryptedText used = []) :
    Accounted identity (used ++ [.handshake status]) b := by
  apply Accounted.shaking hstate hsilent (by simp)
  · rw [spoken_append, hunspoken]
    rfl
  · rw [decryptedText_append, hunheard]
    rfl

theorem accounted_sayEhlo (h : Accounted identity used b) (hsilent : b.commands = [])
    (hunheard : decryptedText used = []) (hstep : b.sayEhlo identity accepted tape = (b', rest)) :
    ∃ more, tape = more ++ rest ∧ Accounted identity (used ++ more) b' := by
  have hfails (hstep : (b.fail, tape) = (b', rest)) :
      ∃ more, tape = more ++ rest ∧ Accounted identity (used ++ more) b' := by
    cases hstep
    exact ⟨[], rfl, h.fail⟩
  unfold Belief.sayEhlo at hstep
  dsimp only at hstep
  split at hstep
  swap
  · exact hfails hstep
  split at hstep
  · cases hstep
    refine ⟨[.encrypted .wantWrite], rfl, Accounted.goOn (.sending rfl ?_ ?_ ?_)⟩
    · change b.commands ++ [Conn.ehloLine identity] = _
      rw [hsilent, List.nil_append]
    · rw [spoken_append]
      exact Bool.or_true _
    · rw [decryptedText_append, hunheard]
      rfl
  · cases hstep
    exact ⟨[.encrypted _], rfl, h.fail⟩
  · exact hfails hstep

theorem accounted_hear (hsaid : b.commands = [Conn.ehloLine identity])
    (hstate : b.state = .waitEhlo) (hspoken : spoken used = true)
    (htext : b.text = decryptedText used) :
    Accounted identity (used ++ [.decrypted .ok chunk]) (b.hear accepted chunk) := by
  have htext' : b.text ++ chunk = decryptedText (used ++ [.decrypted .ok chunk]) := by
    rw [decryptedText_append, htext]
    simp [decryptedText]
  have hspoken' : spoken (used ++ [.decrypted .ok chunk]) = true := by
    rw [spoken_append, hspoken]
    rfl
  have hfails : Accounted identity (used ++ [.decrypted .ok chunk]) b.fail :=
    .finished rfl (.inr hsaid)
  unfold Belief.hear
  split
  · exact hfails
  split
  · rename_i reply caps hparse
    rw [htext'] at hparse
    exact .ready rfl hsaid hspoken' reply hparse
  · rename_i hparse
    have hread := Cap.read_of_parseEhloResponse hparse
    split
    · apply Accounted.goOn
      refine .waiting hstate hsaid hspoken' htext' ?_
      intro reply hok
      rw [← htext', hread] at hok
      exact nomatch hok
    · exact hfails
  · exact hfails

/-- One cue uses up a part of the answers. -/
theorem Accounted.advance (h : Accounted identity used b) {cue : Cue}
    (hstep : Belief.advance identity (b, tape) cue = (b', rest)) :
    ∃ more, tape = more ++ rest ∧ Accounted identity (used ++ more) b' := by
  have hstays (hstep : (b, tape) = (b', rest)) :
      ∃ more, tape = more ++ rest ∧ Accounted identity (used ++ more) b' := by
    cases hstep
    exact ⟨[], rfl, by rwa [List.append_nil]⟩
  have hfails (hstep : (b.fail, tape) = (b', rest)) :
      ∃ more, tape = more ++ rest ∧ Accounted identity (used ++ more) b' := by
    cases hstep
    exact ⟨[], rfl, h.fail⟩
  cases cue with
  | timeout expired =>
      simp only [Belief.advance] at hstep
      split at hstep
      · cases hstep
        exact ⟨[], rfl, .finished rfl h.commands_eq⟩
      · exact hstays hstep
  | completion kind succeeded moved accepted =>
      cases h with
      | begun hstate hsilent hnone =>
          simp only [Belief.advance, hstate] at hstep
          subst hnone
          split at hstep
          · cases hstep
            exact ⟨[.handshake _], rfl, Accounted.shake (accounted_handshake rfl hsilent rfl rfl)⟩
          · exact hfails hstep
      | shaking hstate hsilent _ hunspoken hunheard =>
          have hanswered {status : TlsStatus} :
              Accounted identity (used ++ [.handshake status]) b :=
            accounted_handshake hstate hsilent hunspoken hunheard
          simp only [Belief.advance, hstate] at hstep
          split at hstep
          · exact hfails hstep
          split at hstep
          · have hunheard' : decryptedText (used ++ [.handshake .ok]) = [] := by
              rw [decryptedText_append, hunheard]
              rfl
            obtain ⟨more, rfl, haccounted⟩ := accounted_sayEhlo hanswered hsilent hunheard' hstep
            exact ⟨.handshake .ok :: more, rfl, by simpa using haccounted⟩
          · cases hstep
            exact ⟨[.handshake _], rfl, hanswered.shake⟩
          · exact hfails hstep
      | sending hstate hsaid hspoken hunheard =>
          simp only [Belief.advance, hstate] at hstep
          cases hstep
          refine ⟨[], rfl, ?_⟩
          rw [List.append_nil]
          split
          · apply Accounted.goOn
            refine .waiting rfl hsaid hspoken hunheard.symm ?_
            intro reply
            rw [hunheard]
            intro hread
            cases hread
          · exact .finished rfl (.inr hsaid)
      | waiting hstate hsaid hspoken htext hopen =>
          simp only [Belief.advance, hstate] at hstep
          split at hstep
          · exact hfails hstep
          split at hstep
          · cases hstep
            exact ⟨[.decrypted .ok _], rfl, accounted_hear hsaid hstate hspoken htext⟩
          · cases hstep
            have hkept : decryptedText (used ++ [.decrypted .wantRead ‹Bytes›])
                = decryptedText used := by simp [decryptedText]
            refine ⟨[.decrypted .wantRead _], rfl, Accounted.goOn (.waiting hstate hsaid ?_ ?_ ?_)⟩
            · rw [spoken_append, hspoken]
              rfl
            · rw [hkept, htext]
            · rwa [hkept]
          · cases hstep
            exact ⟨[.decrypted _ _], rfl, .finished rfl (.inr hsaid)⟩
          · exact hfails hstep
      | ready hstate =>
          simp only [Belief.advance, hstate] at hstep
          exact hstays hstep
      | finished hstate =>
          cases hs : b.state <;> simp only [hs, Conn.failed] at hstate
          case error | timedOut =>
            simp only [Belief.advance, hs] at hstep
            exact hstays hstep
          all_goals exact absurd hstate (by decide)

theorem Accounted.run (h : Accounted identity used b) {cues : List Cue}
    (hrun : cues.foldl (Belief.advance identity) (b, tape) = (b', rest)) :
    ∃ more, tape = more ++ rest ∧ Accounted identity (used ++ more) b' := by
  induction cues generalizing b used tape with
  | nil =>
      cases hrun
      exact ⟨[], rfl, by rwa [List.append_nil]⟩
  | cons cue cues ih =>
      rw [List.foldl_cons] at hrun
      generalize hstep : Belief.advance identity (b, tape) cue = next at hrun
      obtain ⟨b₁, rest₁⟩ := next
      obtain ⟨more, rfl, hnext⟩ := h.advance hstep
      obtain ⟨more', rfl, hlast⟩ := ih hnext hrun
      exact ⟨more ++ more', (List.append_assoc ..).symm, by rwa [← List.append_assoc]⟩

theorem accounted_initial : Accounted identity [] initial := .begun rfl rfl rfl

end Accounted

end Belief

namespace Conn

section Injection

variable {identity : Bytes} {w : World E} {past : List Cue} {caps : Capabilities}

theorem Upgraded.accounted (h : Upgraded identity past caps w) :
    ∃ b, Believes w b ∧ (w.conn.state = .ready → caps = b.caps)
      ∧ Belief.Accounted identity (answers w.trace) b
      ∧ Belief.after identity (answers w.trace) past = (b, []) := by
  obtain ⟨b, hafter, hb, hcaps⟩ := h.tracks
  have hall : Belief.after identity (answers w.trace) past = (b, []) := by
    simpa using hafter []
  obtain ⟨used, hused, haccounted⟩ := Belief.accounted_initial.run hall
  rw [List.append_nil] at hused
  subst hused
  exact ⟨b, hb, hcaps, haccounted, hall⟩

theorem Upgraded.laterCommands_eq (h : Upgraded identity past caps w) :
    laterCommands w.trace = [] ∨ laterCommands w.trace = [ehloLine identity] := by
  obtain ⟨b, hb, -, haccounted, -⟩ := h.accounted
  rw [hb.commands]
  exact haccounted.commands_eq

theorem Upgraded.eq_ehloLine (h : Upgraded identity past caps w) {line : Bytes}
    (hmem : line ∈ laterCommands w.trace) : line = ehloLine identity := by
  rcases h.laterCommands_eq with hnone | hsaid
  · exact absurd hmem (by simp [hnone])
  · simpa [hsaid] using hmem

theorem Upgraded.stage_eq (h : Upgraded identity past caps w)
    (hgoes : failed w.conn.state = false) :
    stage w.conn.state = Belief.stageOf (answers w.trace)
      ∧ laterCommands w.trace
        = if Belief.spoken (answers w.trace) then [ehloLine identity] else [] := by
  obtain ⟨b, hb, -, haccounted, -⟩ := h.accounted
  rw [hb.commands, hb.state]
  exact haccounted.stage_eq (hb.state ▸ hgoes)

/-- A ready connection believes what the parser makes of the decrypted text and of nothing else. -/
theorem Upgraded.of_ready (h : Upgraded identity past caps w) (hready : w.conn.state = .ready) :
    laterCommands w.trace = [ehloLine identity]
      ∧ ∃ reply, Cap.parseEhloResponse Cap.init (decryptedText (answers w.trace)) maxReplyLines
        = some (.ok reply, caps) := by
  obtain ⟨b, hb, hcaps, haccounted, -⟩ := h.accounted
  have hstate : b.state = .ready := hb.state.symm.trans hready
  rw [hb.commands, hcaps hready]
  cases haccounted with
  | ready _ hsaid _ reply hparse => exact ⟨hsaid, reply, hparse⟩
  | finished hfailed =>
      rw [hstate] at hfailed
      exact absurd hfailed (by decide)
  | begun h | shaking h | sending h | waiting h => exact nomatch hstate.symm.trans h

end Injection

theorem ready_of_stage {state : ConnState} (h : stage state = .ready) : state = .ready := by
  cases state with
  | waitEhlo => exact nomatch h
  | _ => exact h

/-- **Nothing from before the handshake is believed behind it.** Take two connections with the same
identity that have begun a handshake behind STARTTLS, in whatever mode, over whatever engines, after
whatever bytes and whatever in the shared buffer, and with the same answers of the engine since.
Neither having failed, they stand at the same stage, have submitted the same commands and, once
ready, have left the same capabilities; with the same cues of the reactor and the clock they are in
the same state even if it is a failure. Two that are ready have submitted the same commands, and
have left the same capabilities if no more than the decrypted text is the same; and no command
behind the handshake is anything but the EHLO. -/
theorem nothing_injected {E₁ E₂ : TlsEngine} {identity : Bytes} {cues₁ cues₂ : List Cue}
    {left₁ left₂ : Capabilities} {w₁ : World E₁} {w₂ : World E₂}
    (h₁ : Upgraded identity cues₁ left₁ w₁) (h₂ : Upgraded identity cues₂ left₂ w₂) :
    (answers w₁.trace = answers w₂.trace →
        (failed w₁.conn.state = false → failed w₂.conn.state = false →
          stage w₁.conn.state = stage w₂.conn.state
            ∧ laterCommands w₁.trace = laterCommands w₂.trace)
        ∧ (w₁.conn.state = .ready → failed w₂.conn.state = false →
          w₂.conn.state = .ready ∧ left₁ = left₂)
        ∧ (cues₁ = cues₂ →
          w₁.conn.state = w₂.conn.state
            ∧ laterCommands w₁.trace = laterCommands w₂.trace
            ∧ (w₁.conn.state = .ready → left₁ = left₂)))
      ∧ (w₁.conn.state = .ready → w₂.conn.state = .ready →
        laterCommands w₁.trace = laterCommands w₂.trace
          ∧ (decryptedText (answers w₁.trace) = decryptedText (answers w₂.trace) → left₁ = left₂))
      ∧ ∀ line ∈ laterCommands w₁.trace ++ laterCommands w₂.trace, line = ehloLine identity := by
  have hheard (hready₁ : w₁.conn.state = .ready) (hready₂ : w₂.conn.state = .ready)
      (htext : decryptedText (answers w₁.trace) = decryptedText (answers w₂.trace)) :
      left₁ = left₂ := by
    obtain ⟨-, reply₁, hparse₁⟩ := h₁.of_ready hready₁
    obtain ⟨-, reply₂, hparse₂⟩ := h₂.of_ready hready₂
    rw [htext, hparse₂] at hparse₁
    exact congrArg Prod.snd (Option.some.inj hparse₁).symm
  refine ⟨fun hanswers => ⟨?_, ?_, ?_⟩, ?_, ?_⟩
  · intro hgoes₁ hgoes₂
    obtain ⟨hstage₁, hcommands₁⟩ := h₁.stage_eq hgoes₁
    obtain ⟨hstage₂, hcommands₂⟩ := h₂.stage_eq hgoes₂
    rw [hstage₁, hstage₂, hcommands₁, hcommands₂, hanswers]
    exact ⟨rfl, rfl⟩
  · intro hready₁ hgoes₂
    obtain ⟨hstage₁, -⟩ := h₁.stage_eq (by rw [hready₁]; rfl)
    obtain ⟨hstage₂, -⟩ := h₂.stage_eq hgoes₂
    have hstage : stage w₂.conn.state = .ready := by
      calc stage w₂.conn.state = Belief.stageOf (answers w₂.trace) := hstage₂
        _ = Belief.stageOf (answers w₁.trace) := by rw [hanswers]
        _ = stage w₁.conn.state := hstage₁.symm
        _ = .ready := by rw [hready₁]; rfl
    have hready₂ := ready_of_stage hstage
    exact ⟨hready₂, hheard hready₁ hready₂ (by rw [hanswers])⟩
  · intro hcues
    obtain ⟨b₁, hb₁, hcaps₁, -, hafter₁⟩ := h₁.accounted
    obtain ⟨b₂, hb₂, hcaps₂, -, hafter₂⟩ := h₂.accounted
    have hbelief : (b₁, ([] : List EngineAnswer)) = (b₂, []) := by
      calc (b₁, []) = Belief.after identity (answers w₁.trace) cues₁ := hafter₁.symm
        _ = Belief.after identity (answers w₂.trace) cues₂ := by rw [hcues, hanswers]
        _ = (b₂, []) := hafter₂
    obtain rfl : b₁ = b₂ := congrArg Prod.fst hbelief
    have hstate : w₁.conn.state = w₂.conn.state := hb₁.state.trans hb₂.state.symm
    refine ⟨hstate, hb₁.commands.trans hb₂.commands.symm, ?_⟩
    intro hready
    rw [hcaps₁ hready, hcaps₂ (hstate ▸ hready)]
  · intro hready₁ hready₂
    refine ⟨?_, hheard hready₁ hready₂⟩
    rw [(h₁.of_ready hready₁).1, (h₂.of_ready hready₂).1]
  · intro line hline
    rcases List.mem_append.mp hline with hmem | hmem
    · exact h₁.eq_ehloLine hmem
    · exact h₂.eq_ehloLine hmem

/-! ### Two sessions, one of them injected into -/

/-- A session behind STARTTLS, with its cues and what it leaves in the capabilities buffer. -/
abbrev Session := List Cue × Capabilities × World (recordEngine sampleInfo)

/-- The session a script of answers leads to. -/
def goOnSession : Session → List Answer → Option Session
  | session, [] => some session
  | (past, caps, w), answer :: rest =>
      (answer.event (accepts sampleInfo) w).bind fun event =>
        ((machine _ (bytes "me")).exec w [event]).bind fun w' =>
          goOnSession (past ++ cues w event, left caps w' event, w') rest

/-- A sample connection that gets these replies in the clear, the last of them to STARTTLS, and then
what the server answers behind the handshake. -/
def playUpgraded (mode : TlsMode) (inTheClear : List Answer) (reply : Bytes)
    (behind : List Answer) : Option Session :=
  (playSample sampleInfo mode inTheClear).bind fun w =>
    ((Answer.received reply).event (accepts sampleInfo) w).bind fun event =>
      ((machine _ (bytes "me")).exec w [event]).bind fun w' =>
        if w.conn.state = .waitStarttlsReply ∧ w'.conn.tls.isSome = true then
          goOnSession (cues w event, w'.caps, w') behind
        else none

theorem upgraded_goOnSession {session session' : Session} {script : List Answer}
    (h : Upgraded (bytes "me") session.1 session.2.1 session.2.2)
    (hplay : goOnSession session script = some session') :
    Upgraded (bytes "me") session'.1 session'.2.1 session'.2.2 := by
  induction script generalizing session with
  | nil =>
      cases Option.some.inj hplay
      exact h
  | cons answer rest ih =>
      obtain ⟨event, -, hplay⟩ := Option.bind_eq_some_iff.mp hplay
      obtain ⟨w', hexec, hplay⟩ := Option.bind_eq_some_iff.mp hplay
      exact ih (.goesOn h (Machine.steps_of_exec hexec)) hplay

theorem upgraded_of_playUpgraded {mode : TlsMode} {inTheClear behind : List Answer} {reply : Bytes}
    {session : Session} (h : playUpgraded mode inTheClear reply behind = some session) :
    Upgraded (bytes "me") session.1 session.2.1 session.2.2 := by
  obtain ⟨w, hplay, h⟩ := Option.bind_eq_some_iff.mp h
  obtain ⟨event, -, h⟩ := Option.bind_eq_some_iff.mp h
  obtain ⟨w', hexec, h⟩ := Option.bind_eq_some_iff.mp h
  split at h
  · rename_i hbegins
    exact upgraded_goOnSession (.begins (reachable_of_playSample hplay) hbegins.1
      (Machine.steps_of_exec hexec) hbegins.2) h
  · exact absurd h (by simp)

/-- What the server answers behind the handshake. -/
def behindScript : List Answer :=
  [.sentAll, .received (RecordEngine.record RecordEngine.handshakeType (bytes "hello")), .sentAll,
    .received (RecordEngine.record RecordEngine.dataType (bytes "250-mx\r\n250 SIZE 5\r\n"))]

def honestSession : Option Session :=
  playUpgraded .explicit (plainScript ++ [.sentAll]) (bytes "220 go\r\n") behindScript

/-- Other capabilities in the clear, and a reply to the EHLO to come behind that to STARTTLS. -/
def injectedSession : Option Session :=
  playUpgraded .opportunistic
    [.connected, .received (bytes "220 mx\r\n250 AUTH PLAIN\r\n"), .sentAll,
      .received (bytes "250-mx\r\n250-AUTH PLAIN\r\n250 STARTTLS\r\n"), .sentAll]
    (bytes "220 go\r\n250-mx\r\n250 AUTH PLAIN\r\n") behindScript

/-- The injected bytes change nothing. -/
theorem nothing_injected_starttls :
    ∃ honest injected, honestSession = some honest ∧ injectedSession = some injected
      ∧ honest.2.2.conn.state = .ready ∧ injected.2.2.conn.state = .ready
      ∧ honest.2.1 = injected.2.1 := by
  have hhonest : honestSession.map (fun s => (s.1, answers s.2.2.trace, s.2.2.conn.state))
      = injectedSession.map (fun s => (s.1, answers s.2.2.trace, s.2.2.conn.state)) := by
    decide +kernel
  have hready : honestSession.map (fun s => s.2.2.conn.state) = some .ready := by decide +kernel
  obtain ⟨honest, hh, hready⟩ := Option.map_eq_some_iff.mp hready
  rw [hh] at hhonest
  obtain ⟨injected, hi, hsame⟩ := Option.map_eq_some_iff.mp hhonest.symm
  obtain ⟨-, -, hcues⟩ := (nothing_injected (upgraded_of_playUpgraded hh)
    (upgraded_of_playUpgraded hi)).1 (congrArg (fun p => p.2.1) hsame).symm
  obtain ⟨hstate, -, hleft⟩ := hcues (congrArg Prod.fst hsame).symm
  exact ⟨honest, injected, hh, hi, hready, hstate ▸ hready, hleft hready⟩

end Conn

end SmtpClient
