import SmtpClient.Proof.Alike

/-!
# How a stream is cut does not matter

Where the reads happen to end decides when a connection in the clear leaves the state it waits in,
and nothing else: not the state it goes on to, nor the greeting code, the capabilities or the
command.
-/

namespace SmtpClient

variable {E : TlsEngine}

namespace Conn

open World Protocol

/-- A stream, as cut into the data of read completions, each with the time it is handled at. -/
def stream (chunks : List (Bytes × Nat)) : Bytes := chunks.flatMap Prod.fst

/-- Feeds a connection the read completions of a stream until it leaves the state it is in: how the
call returns that leaves it, or the world the connection waits in at the end of the stream; `none`
if a completion is empty, or larger than the space submitted for it. Reads submitted again while the
connection waits are accepted, and `env` answers the call that leaves the state. -/
def feed (identity : Bytes) (env : Env E) :
    World E → List (Bytes × Nat) → Option (Except Assertion (World E))
  | w, [] => some (.ok w)
  | w, (data, nowMs) :: rest =>
      if data ≠ [] ∧ Delivers w w.conn.op 0 data then
        match step identity w (.completion { env with submitRc := 0 } w.conn.op 0 data nowMs) with
        | .ok u =>
            if u.conn.state = w.conn.state then feed identity env u rest
            else some (step identity w (.completion env w.conn.op 0 data nowMs))
        | .error _ => some (step identity w (.completion env w.conn.op 0 data nowMs))
      else none

/-- A connection in the clear that has just come to wait for a reply. -/
def Entered (identity : Bytes) (w : World E) : Prop :=
  ∃ v event, Reachable identity v ∧ (machine E identity).Steps v event w
    ∧ v.conn.state ≠ w.conn.state ∧ awaitsReply w.conn.state = true ∧ w.conn.tls = none

/-- What can be told of a connection when it leaves a state. -/
def departure (w : World E) : ConnState × Nat × Capabilities × List (Payload × Bytes) :=
  (w.conn.state, w.conn.greetingCode, w.caps, writes w.trace)

/-- A world `w` waited on in after `got` was received there. -/
structure Waiting (identity : Bytes) (w : World E) (got : Bytes) (u : World E) : Prop where
  reachable : Reachable identity u
  awaits : awaitsReply u.conn.state = true
  tls : u.conn.tls = none
  alike : Alike w u
  text : u.conn.readBuf.slice 0 u.conn.readLen = got
  unfinished : unfinished got = true

section Feed

variable {identity : Bytes} {env : Env E} {w u v : World E} {got data : Bytes} {nowMs n : Nat}
  {result : IoResult}

theorem Handled.waits_of_same (h : Handled env identity nowMs u result v)
    (hawaits : awaitsReply u.conn.state = true) (hsame : v.conn.state = u.conn.state) :
    Reply.read (offered u result.bytesTransferred) maxReplyLines = .incomplete
      ∧ u.conn.readLen + result.bytesTransferred < readBufSize := by
  have hnot {state : ConnState} (hstate : u.conn.state = state)
      (hno : awaitsReply state = false) : False := by
    rw [hstate, hno] at hawaits
    exact absurd hawaits (by decide)
  have hland {p : Phase} (hphase : phase v.conn = p ∨ (phase v.conn).state = .error)
      (hno : awaitsReply p.state = false) : False := by
    rcases hphase with rfl | herror
    · exact hnot hsame.symm hno
    · exact hnot (hsame.symm.trans herror) rfl
  cases h with
  | refuses _ hquits => exact (hnot (hsame.symm.trans hquits.state) rfl).elim
  | proceeds _ hproceeds =>
      cases hproceeds with
      | waits _ _ hread hroom => exact ⟨hread, hroom⟩
      | connected hstate | connectedImplicit hstate | ehloSent hstate | starttlsSent hstate
      | drives hstate | securedFirst hstate | securedAgain hstate => exact (hnot hstate rfl).elim
      | greeted _ _ _ _ _ _ hsends => exact (hland hsends.phase_eq rfl).elim
      | ready => exact (hnot hsame.symm rfl).elim
      | starttlsWanted _ _ _ _ _ _ _ _ hsubmits => exact (hland hsubmits.phase_eq rfl).elim
      | starttlsAccepted _ _ _ _ _ hbegins => exact (hland hbegins.phase_eq rfl).elim

theorem Handled.readLen_of_entered (h : Handled env identity nowMs u result v)
    (hawaits : awaitsReply v.conn.state = true) (hne : v.conn.state ≠ u.conn.state) :
    v.conn.readLen = 0 := by
  have hland {p : Phase} (hphase : phase v.conn = p ∨ (phase v.conn).state = .error)
      (hno : awaitsReply p.state = false) : v.conn.readLen = 0 := by
    have hstate : awaitsReply v.conn.state = false := by
      rcases hphase with rfl | herror
      · exact hno
      · rw [show v.conn.state = .error from herror]
        rfl
    exact absurd (hawaits.symm.trans hstate) (by decide)
  cases h with
  | refuses _ hquits => exact @hland ⟨.error, false, false⟩ (.inr hquits.state) rfl
  | proceeds _ hproceeds =>
      cases hproceeds with
      | connected | ehloSent | starttlsSent => simp [reads]
      | securedFirst => simp [reads, secured]
      | waits =>
          rcases @phase_reads _ env (grown u result.bytesTransferred) with hsame | herror
          · exact absurd (congrArg Phase.state hsame) hne
          · exact @hland ⟨.error, false, false⟩ (.inr herror) rfl
      | connectedImplicit _ _ hbegins | starttlsAccepted _ _ _ _ _ hbegins =>
          exact hland hbegins.phase_eq rfl
      | greeted _ _ _ _ _ _ hsends | securedAgain _ _ _ _ _ _ _ hsends =>
          exact hland hsends.phase_eq rfl
      | ready => exact hland (.inl rfl) rfl
      | starttlsWanted _ _ _ _ _ _ _ _ hsubmits => exact hland hsubmits.phase_eq rfl
      | drives hstate _ htls _ _ hdrives =>
          refine hland (hdrives.phase_eq (by simp [htls])) ?_
          rw [phase, hstate]
          rfl

theorem onIo_unfinished (hawaits : awaitsReply u.conn.state = true) (htls : u.conn.tls = none)
    (hn : n ≠ 0) (hread : Reply.read (offered u n) maxReplyLines = .incomplete)
    (hroom : u.conn.readLen + n < readBufSize) :
    onIo env u ⟨.read, 0, n⟩ identity nowMs = .ok (reads env (grown u n)) := by
  have hroom' : ¬ readBufSize ≤ u.conn.readLen + n := Nat.not_le_of_lt hroom
  have hparse : Cap.parseEhloResponse u.caps (offered u n) maxReplyLines
      = some (.incomplete, u.caps) := by
    unfold Cap.parseEhloResponse
    rw [hread]
  unfold onIo dispatch
  rw [htls]
  cases hstate : u.conn.state <;> rw [hstate] at hawaits
  case waitBanner =>
    change handleBannerRead env u ⟨.read, 0, n⟩ identity nowMs = _
    unfold handleBannerRead
    rw [if_neg (by simp), if_neg (by exact hn)]
    dsimp only
    rw [slice_grown, hread]
    dsimp only
    rw [if_neg (by exact hroom'), submitReadBytes_eq]
    rfl
  case waitEhlo =>
    change handleEhloRead env u ⟨.read, 0, n⟩ nowMs = _
    unfold handleEhloRead
    rw [if_neg (by simp), if_neg (by exact hn)]
    dsimp only
    rw [slice_grown, modify_caps, hparse]
    dsimp only
    rw [if_neg (by exact hroom'), submitReadBytes_eq]
    rfl
  case waitStarttlsReply =>
    change handleStarttlsReply env u ⟨.read, 0, n⟩ nowMs = _
    unfold handleStarttlsReply
    rw [if_neg (by simp), if_neg (by exact hn)]
    dsimp only
    rw [slice_grown, hread]
    dsimp only
    rw [if_neg (by exact hroom'), submitReadBytes_eq]
    rfl
  all_goals exact absurd hawaits (by decide)

theorem Waiting.room (h : Waiting identity w got u) : u.conn.readLen < readBufSize :=
  (hears_of_reachable h.reachable).room h.awaits

theorem Waiting.length (h : Waiting identity w got u) : got.length = u.conn.readLen := by
  rw [← h.text]
  exact Buffer.length_slice _ (Nat.le_of_lt h.room)

theorem terminal_of_awaitsReply {state : ConnState} (h : awaitsReply state = true) :
    state.terminal = false := by
  cases state <;> simp_all [awaitsReply, ConnState.terminal]

theorem Waiting.op_eq (h : Waiting identity w got u) :
    u.conn.op = ⟨.read, .readBuf u.conn.readLen, readBufSize - u.conn.readLen⟩
      ∧ u.inFlight = [u.conn.op] := by
  obtain ⟨hone, hfits⟩ :=
    (flight_of_reachable h.reachable).live (terminal_of_awaitsReply h.awaits)
  refine ⟨?_, hone⟩
  have hread : u.conn.op = readOp u.conn := by
    unfold OpFits at hfits
    have hawaits := h.awaits
    cases hstate : u.conn.state <;> simp_all [awaitsReply]
  rw [hread, readOp, h.tls]

theorem Waiting.fits (h : Waiting identity w got u)
    (hdelivers : Delivers u u.conn.op 0 data) : u.conn.readLen + data.length ≤ readBufSize := by
  have hfits := hdelivers.fits
  rw [h.op_eq.1] at hfits
  have hroom := h.room
  simp only at hfits
  omega

theorem Waiting.offered_eq (h : Waiting identity w got u)
    (hdelivers : Delivers u u.conn.op 0 data) :
    offered (u.deliver u.conn.op 0 data) data.length = got ++ data := by
  have hslice := u.conn.readBuf.slice_blit (h.fits hdelivers)
  rw [h.text] at hslice
  have hop := h.op_eq.1
  simpa [offered, World.deliver, hop] using hslice

theorem Waiting.deliver_alike (h : Waiting identity w got u) :
    Alike w (u.deliver u.conn.op 0 data) := by
  refine h.alike.trans ?_
  have hop := h.op_eq.1
  have hroom := Nat.le_of_lt h.room
  constructor <;> simp [World.deliver, hop, Connection.settings, writes, hroom]

theorem Waiting.step_eq (h : Waiting identity w got u) (env : Env E) (data : Bytes) (nowMs : Nat) :
    step identity u (.completion env u.conn.op 0 data nowMs)
      = onIo env (u.deliver u.conn.op 0 data) ⟨.read, 0, data.length⟩ identity nowMs := by
  have hkind : u.conn.op.kind = .read := by rw [h.op_eq.1]
  rw [step, hkind]

theorem Waiting.steps (h : Waiting identity w got u) (hdelivers : Delivers u u.conn.op 0 data)
    (hstep : step identity u (.completion env u.conn.op 0 data nowMs) = .ok v) :
    (machine E identity).Steps u (.completion env u.conn.op 0 data nowMs) v :=
  ⟨⟨terminal_of_awaitsReply h.awaits, hdelivers⟩, hstep⟩

/-- A call that leaves a connection waiting has found its reply unfinished. -/
theorem Waiting.unfinished_of_same (h : Waiting identity w got u)
    (hdelivers : Delivers u u.conn.op 0 data)
    (hstep : step identity u (.completion env u.conn.op 0 data nowMs) = .ok v)
    (hsame : v.conn.state = u.conn.state) : Conn.unfinished (got ++ data) = true := by
  have hdelivered : (u.deliver u.conn.op 0 data).conn.tls = none := by simpa using h.tls
  cases took_of_steps (h.steps hdelivers hstep) with
  | completes _ _ _ _ _ _ _ honIo =>
      cases honIo with
      | direct _ hhandled =>
          obtain ⟨hread, hroom⟩ := hhandled.waits_of_same (by simpa using h.awaits)
            (by simpa using hsame)
          rw [h.offered_eq hdelivers] at hread
          simp only [deliver_readLen] at hroom
          simp only [Conn.unfinished, hread, List.length_append, h.length]
          simpa using hroom
      | full _ hdecrypts | undecided _ hdecrypts | broken _ hdecrypts
      | delivered _ hdecrypts => exact absurd (hdelivered.symm.trans hdecrypts.tls) (by simp)

/-- An unfinished reply leaves a connection waiting, if its next read is accepted. -/
theorem Waiting.step (h : Waiting identity w got u) (hdata : data ≠ [])
    (hdelivers : Delivers u u.conn.op 0 data) (hunfinished : Conn.unfinished (got ++ data) = true)
    (haccepted : env.submitRc = 0) :
    ∃ v, Conn.step identity u (.completion env u.conn.op 0 data nowMs) = .ok v
      ∧ v.conn.state = u.conn.state ∧ Waiting identity w (got ++ data) v := by
  have hshown := h.offered_eq hdelivers
  have hdelivered := @Waiting.deliver_alike _ _ _ _ _ data h
  have hsplit := hunfinished
  simp only [Conn.unfinished, Bool.and_eq_true, decide_eq_true_eq, List.length_append,
    h.length] at hsplit
  obtain ⟨hread, hroom⟩ := hsplit
  have hreturns : Conn.step identity u (.completion env u.conn.op 0 data nowMs)
      = .ok (reads env (grown (u.deliver u.conn.op 0 data) data.length)) := by
    rw [h.step_eq]
    refine onIo_unfinished (by simpa using h.awaits) (by simpa using h.tls) ?_ ?_ ?_
    · exact fun hzero => hdata (List.eq_nil_of_length_eq_zero hzero)
    · rw [hshown, hread]
    · simpa using hroom
  have hgrown : Alike w (grown (u.deliver u.conn.op 0 data) data.length) :=
    { hdelivered with bounded := ⟨hdelivered.bounded.1, by
        simpa [grown] using Nat.le_of_lt hroom⟩ }
  have hstate : (reads env (grown (u.deliver u.conn.op 0 data) data.length)).conn.state
      = u.conn.state := by
    simp [reads, grown, haccepted]
  refine ⟨_, hreturns, hstate, ?_, ?_, ?_, ?_, ?_, hunfinished⟩
  · exact h.reachable.step (h.steps hdelivers hreturns)
  · rw [hstate]
    exact h.awaits
  · simpa [reads, grown] using h.tls
  · exact hgrown.reads haccepted
  · rw [← hshown]
    simp [reads, grown, offered]

/-- How feeding a connection ends: it waits still, or some call has left the state over a reply that
was unfinished no longer. -/
theorem Waiting.feed (h : Waiting identity w got u) {chunks : List (Bytes × Nat)}
    {r : Except Assertion (World E)} (hfeed : Conn.feed identity env u chunks = some r) :
    (∃ v, r = .ok v ∧ Waiting identity w (got ++ stream chunks) v)
      ∨ ∃ v front data nowMs, Waiting identity w front v ∧ data ≠ [] ∧ Delivers v v.conn.op 0 data
        ∧ Conn.unfinished (front ++ data) = false ∧ (front ++ data) <+: got ++ stream chunks
        ∧ r = Conn.step identity v (.completion env v.conn.op 0 data nowMs) := by
  induction chunks generalizing u got with
  | nil =>
      cases Option.some.inj hfeed
      exact .inl ⟨u, rfl, by simpa [stream] using h⟩
  | cons chunk rest ih =>
      obtain ⟨data, nowMs⟩ := chunk
      rw [Conn.feed] at hfeed
      split at hfeed
      swap
      · exact absurd hfeed (by simp)
      rename_i hchunk
      obtain ⟨hdata, hdelivers⟩ := hchunk
      have hstream : got ++ stream ((data, nowMs) :: rest) = (got ++ data) ++ stream rest := by
        simp [stream]
      cases hunfinished : Conn.unfinished (got ++ data) with
      | true =>
          obtain ⟨v, hstep, hsame, hwaiting⟩ :=
            @Waiting.step _ _ { env with submitRc := 0 } _ _ _ _ nowMs h hdata hdelivers
              hunfinished rfl
          rw [hstep] at hfeed
          dsimp only at hfeed
          rw [if_pos hsame] at hfeed
          rw [hstream]
          exact ih hwaiting hfeed
      | false =>
          refine .inr ⟨u, got, data, nowMs, h, hdata, hdelivers, hunfinished, ?_, ?_⟩
          · rw [hstream]
            exact List.prefix_append _ _
          · split at hfeed
            · rename_i v hstep
              rw [if_neg] at hfeed
              · exact (Option.some.inj hfeed).symm
              · intro hsame
                have hstill := h.unfinished_of_same hdelivers hstep hsame
                exact absurd (hstill.symm.trans hunfinished) (by decide)
            · exact (Option.some.inj hfeed).symm

theorem OnIo.readLen_of_entered (h : OnIo env identity nowMs u result v)
    (hawaits : awaitsReply v.conn.state = true) (hne : v.conn.state ≠ u.conn.state) :
    v.conn.readLen = 0 := by
  have herror (hstate : v.conn.state = .error) : v.conn.readLen = 0 := by
    rw [hstate] at hawaits
    exact absurd hawaits (by decide)
  cases h with
  | direct _ hhandled => exact hhandled.readLen_of_entered hawaits hne
  | full _ _ _ hquits | broken _ _ _ _ _ hquits => exact herror hquits.state
  | undecided tls =>
      rcases @phase_reads _ env (decrypted u tls result.bytesTransferred) with hsame | hfailed
      · exact absurd (congrArg Phase.state hsame) hne
      · exact herror hfailed
  | delivered _ _ _ _ _ hhandled => exact hhandled.readLen_of_entered hawaits (by simpa using hne)

theorem Entered.waiting (h : Entered identity w) : Waiting identity w [] w := by
  obtain ⟨v, event, hreachable, hstep, hne, hawaits, htls⟩ := h
  have hlen : w.conn.readLen = 0 := by
    cases took_of_steps hstep with
    | completes env op result data nowMs _ _ honIo =>
        exact honIo.readLen_of_entered hawaits (by simpa using hne.symm)
    | inTime | others => exact absurd rfl hne
    | expires => exact absurd hawaits (by simp [expired, awaitsReply])
  refine ⟨hreachable.step hstep, hawaits, htls, .refl ?_, ?_, by decide⟩
  · rw [hlen]
    exact Nat.zero_le _
  · rw [hlen, Buffer.slice_zero_length]

theorem Waiting.shows {front data' : Bytes} (h : Waiting identity w got u)
    (h' : Waiting identity w front v) (hdata : data ≠ []) (hdata' : data' ≠ [])
    (hdelivers : Delivers u u.conn.op 0 data) (hdelivers' : Delivers v v.conn.op 0 data')
    (hsame : SameReply (got ++ data) (front ++ data')) :
    Shows (u.deliver u.conn.op 0 data) (v.deliver v.conn.op 0 data') data.length data'.length where
  alike := h.deliver_alike.symm.trans h'.deliver_alike
  tls := by simpa using h.tls
  nonempty := ⟨fun hzero => hdata (List.eq_nil_of_length_eq_zero hzero),
    fun hzero => hdata' (List.eq_nil_of_length_eq_zero hzero)⟩
  fits := by simpa using ⟨h.fits hdelivers, h'.fits hdelivers'⟩
  same := by
    rw [h.offered_eq hdelivers, h'.offered_eq hdelivers']
    exact hsame

/-- A call that leaves a state over a decided reply leaves it indeed, with the buffer in bounds. -/
theorem Waiting.left (h : Waiting identity w got u) (hdata : data ≠ [])
    (hdelivers : Delivers u u.conn.op 0 data) (hdone : Conn.unfinished (got ++ data) = false)
    (hstep : Conn.step identity u (.completion env u.conn.op 0 data nowMs) = .ok v) :
    v.conn.state ≠ w.conn.state ∧ v.conn.readLen ≤ readBufSize := by
  constructor
  · intro hsame
    have hstill := h.unfinished_of_same hdelivers hstep (hsame.trans h.alike.state)
    exact absurd (hstill.symm.trans hdone) (by decide)
  · have hlen : (got ++ data).length ≤ readBufSize := by
      rw [List.length_append, h.length]
      exact h.fits hdelivers
    have hshows := h.shows h hdata hdata hdelivers hdelivers (.of_front List.prefix_rfl hlen hdone)
    have hresults := @Shows.onIo _ env identity nowMs nowMs _ _ _ _ hshows (by simpa using h.awaits)
    rw [← h.step_eq, hstep] at hresults
    cases hresults with
    | ok halike => exact halike.bounded.1

theorem Alike.departure_eq (h : Alike u v) : departure u = departure v := by
  unfold departure
  rw [h.state, h.greetingCode, h.caps, h.writes]

theorem AlikeResults.departure_eq {r r' : Except Assertion (World E)} (h : AlikeResults r r') :
    r.map departure = r'.map departure := by
  cases h with
  | ok halike => exact congrArg Except.ok halike.departure_eq
  | error => rfl

end Feed

/-- **How the stream is cut does not matter.** While a connection in the clear waits, `read_buf`
holds what it has received since it came to wait, and the read it has submitted has room for more.
It waits as long as the stream is an unfinished reply; otherwise it leaves the state, and however
the stream was cut, it aborts over the same assertion, or goes on to the same state with the same
greeting code, capabilities and command. -/
theorem segmentation_independent {identity : Bytes} {env : Env E} {w : World E}
    {chunks chunks' : List (Bytes × Nat)} {r r' : Except Assertion (World E)}
    (h : Entered identity w) (hfeed : feed identity env w chunks = some r)
    (hfeed' : feed identity env w chunks' = some r') (hstream : stream chunks' = stream chunks) :
    (∀ u, r = .ok u → u.conn.readLen ≤ readBufSize
      ∧ (u.conn.state = w.conn.state → u.conn.readBuf.slice 0 u.conn.readLen = stream chunks
        ∧ u.inFlight = [⟨.read, .readBuf u.conn.readLen, readBufSize - u.conn.readLen⟩]
        ∧ 1 ≤ readBufSize - u.conn.readLen))
      ∧ ((∃ u, r = .ok u ∧ u.conn.state = w.conn.state) ↔ unfinished (stream chunks) = true)
      ∧ r.map departure = r'.map departure := by
  have hends := h.waiting.feed hfeed
  have hends' := h.waiting.feed hfeed'
  rw [List.nil_append] at hends hends'
  rw [hstream] at hends'
  -- Where one cutting leaves the connection waiting, the other cannot have left the state.
  have hexcludes {front data : Bytes} (hfront : (front ++ data) <+: stream chunks)
      (hdone : unfinished (front ++ data) = false) : unfinished (stream chunks) = false := by
    by_contra hstill
    have hstart := unfinished_of_front hfront (Bool.not_eq_false _ ▸ hstill)
    exact absurd (hstart.symm.trans hdone) (by decide)
  refine ⟨?_, ?_, ?_⟩
  · rintro u rfl
    rcases hends with ⟨v, hok, hwaiting⟩
      | ⟨v, front, data, nowMs, hwaiting, hdata, hdelivers, hdone, -, hstep⟩
    · cases Except.ok.inj hok
      have hroom := hwaiting.room
      obtain ⟨hop, hone⟩ := hwaiting.op_eq
      exact ⟨Nat.le_of_lt hroom, fun _ => ⟨hwaiting.text, hop ▸ hone, by omega⟩⟩
    · obtain ⟨hleft, hlen⟩ := hwaiting.left hdata hdelivers hdone hstep.symm
      exact ⟨hlen, fun hsame => absurd hsame hleft⟩
  · rcases hends with ⟨v, rfl, hwaiting⟩
      | ⟨v, front, data, nowMs, hwaiting, hdata, hdelivers, hdone, hfront, hstep⟩
    · exact iff_of_true ⟨v, rfl, hwaiting.alike.state.symm⟩ hwaiting.unfinished
    · refine iff_of_false ?_ (by simp [hexcludes hfront hdone])
      rintro ⟨u, rfl, hsame⟩
      exact (hwaiting.left hdata hdelivers hdone hstep.symm).1 hsame
  · rcases hends with ⟨v, rfl, hwaiting⟩
      | ⟨v, front, data, nowMs, hwaiting, hdata, hdelivers, hdone, hfront, rfl⟩ <;>
    rcases hends' with ⟨v', rfl, hwaiting'⟩ | ⟨v', front', data', laterMs, hwaiting', hdata',
      hdelivers', hdone', hfront', rfl⟩
    · exact congrArg Except.ok (hwaiting.alike.symm.trans hwaiting'.alike).departure_eq
    · exact absurd (hwaiting.unfinished.symm.trans (hexcludes hfront' hdone')) (by decide)
    · exact absurd (hwaiting'.unfinished.symm.trans (hexcludes hfront hdone)) (by decide)
    · have hlen : (front ++ data).length ≤ readBufSize := by
        rw [List.length_append, hwaiting.length]
        exact hwaiting.fits hdelivers
      have hlen' : (front' ++ data').length ≤ readBufSize := by
        rw [List.length_append, hwaiting'.length]
        exact hwaiting'.fits hdelivers'
      have hshows := hwaiting.shows hwaiting' hdata hdata' hdelivers hdelivers'
        (sameReply_of_prefixes hfront hfront' hlen hlen' hdone hdone')
      rw [hwaiting.step_eq, hwaiting'.step_eq]
      exact (hshows.onIo (by simpa using hwaiting.awaits)).departure_eq

/-- A greeting in one read, and in three. -/
theorem segmentation_independent_greeting :
    ∃ w r r', playSample sampleInfo .none [.connected] = some w
      ∧ feed (bytes "me") (accepts sampleInfo) w [(bytes "220 mx\r\n", 0)] = some r
      ∧ feed (bytes "me") (accepts sampleInfo) w
          [(bytes "22", 0), (bytes "0 mx\r", 5), (bytes "\n", 9)] = some r'
      ∧ (r.map fun u => u.conn.state) = .ok .sendingEhlo ∧ r.map departure = r'.map departure := by
  have hplay : (playSample sampleInfo .none [.connected]).map
      (fun w => (w.conn.state, w.conn.tls.isSome,
        (feed (bytes "me") (accepts sampleInfo) w [(bytes "220 mx\r\n", 0)]).map
          fun r => (r.map fun u => u.conn.state).toOption,
        (feed (bytes "me") (accepts sampleInfo) w
          [(bytes "22", 0), (bytes "0 mx\r", 5), (bytes "\n", 9)]).isSome))
      = some (.waitBanner, false, some (some .sendingEhlo), true) := by decide +kernel
  obtain ⟨w, hw, heq⟩ := Option.map_eq_some_iff.mp hplay
  simp only [Prod.mk.injEq] at heq
  obtain ⟨hstate, htls, hfirst, hsecond⟩ := heq
  obtain ⟨r, hr, hleaves⟩ := Option.map_eq_some_iff.mp hfirst
  obtain ⟨r', hr'⟩ := Option.isSome_iff_exists.mp hsecond
  obtain ⟨event, hstep⟩ := steps_of_play hw
  have hentered : Entered (bytes "me") w := by
    refine ⟨sample sampleInfo .none, event, ⟨_, [], started_sample _ _, .nil⟩, hstep, ?_, ?_, ?_⟩
    · rw [hstate]
      exact nofun
    · rw [hstate]
      rfl
    · simpa using htls
  obtain ⟨-, -, hsame⟩ := segmentation_independent hentered hr hr' (by decide)
  refine ⟨w, r, r', hw, hr, hr', ?_, hsame⟩
  cases r with
  | ok u => exact congrArg Except.ok (Option.some.inj hleaves)
  | error e => exact absurd hleaves (by simp [Except.map, Except.toOption])

end Conn

end SmtpClient
