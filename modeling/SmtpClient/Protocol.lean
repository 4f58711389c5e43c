import SmtpClient.Tls

/-!
# The order of a session

What a session is meant to look like from outside: in each mode the actions of a connection spell
one of a few words, and at every point it has spelled a prefix of one. A small automaton walks these
words; its phase is a connection state together with whether the channel is encrypted and whether
the greeting has been seen, which is what tells the two handshakes and the two EHLO rounds apart.
-/

namespace SmtpClient

inductive ConnState where
  | connecting
  | waitBanner
  | sendingEhlo
  | waitEhlo
  | sendingStarttls
  | waitStarttlsReply
  | tlsHandshaking
  | ready
  | error
  | timedOut
  deriving DecidableEq, Repr

/-- The states `smtp_orch_is_terminal` tests for. -/
def ConnState.terminal : ConnState → Bool
  | .ready | .error | .timedOut => true
  | _ => false

/-- A protocol action, in the clear or encrypted. -/
inductive Action where
  | ehlo (encrypted : Bool)
  | starttls (encrypted : Bool)
  | handshake
  deriving DecidableEq, Repr

namespace Protocol

def plainWord : List Action := [.ehlo false]
def upgradeWord : List Action := [.ehlo false, .starttls false, .handshake, .ehlo true]
def implicitWord : List Action := [.handshake, .ehlo true]

/-- The words of a mode. -/
def words : TlsMode → List (List Action)
  | .none => [plainWord]
  | .opportunistic => [plainWord, upgradeWord]
  | .explicit => [upgradeWord]
  | .implicit => [implicitWord]

/-- A session in progress: a prefix of a word of its mode. -/
def Lawful (mode : TlsMode) (acts : List Action) : Prop := ∃ word ∈ words mode, acts <+: word

instance (mode : TlsMode) (acts : List Action) : Decidable (Lawful mode acts) :=
  inferInstanceAs (Decidable (∃ word ∈ words mode, acts <+: word))

structure Phase where
  state : ConnState
  secured : Bool
  greeted : Bool
  deriving DecidableEq, Repr

/-- What a connection in a phase has done so far; `none` if its mode never gets there. -/
def history (mode : TlsMode) : Phase → Option (List Action)
  | ⟨.connecting, false, false⟩ => some []
  | ⟨.waitBanner, false, false⟩ => if mode = .implicit then none else some []
  | ⟨.waitBanner, true, false⟩ => if mode = .implicit then some [.handshake] else none
  | ⟨.sendingEhlo, false, true⟩ | ⟨.waitEhlo, false, true⟩ =>
      if mode = .implicit then none else some plainWord
  | ⟨.sendingEhlo, true, true⟩ | ⟨.waitEhlo, true, true⟩ | ⟨.ready, true, true⟩ =>
      match mode with
      | .none => none
      | .implicit => some implicitWord
      | _ => some upgradeWord
  | ⟨.sendingStarttls, false, true⟩ | ⟨.waitStarttlsReply, false, true⟩ =>
      match mode with
      | .opportunistic | .explicit => some [.ehlo false, .starttls false]
      | _ => none
  | ⟨.tlsHandshaking, true, false⟩ => if mode = .implicit then some [.handshake] else none
  | ⟨.tlsHandshaking, true, true⟩ =>
      match mode with
      | .opportunistic | .explicit => some [.ehlo false, .starttls false, .handshake]
      | _ => none
  | ⟨.ready, false, true⟩ =>
      match mode with
      | .none | .opportunistic => some plainWord
      | _ => none
  | _ => none

/-- What a state says about the two flags of its phase. -/
def Consistent : Phase → Prop
  | ⟨.connecting, secured, greeted⟩ => secured = false ∧ greeted = false
  | ⟨.waitBanner, _, greeted⟩ => greeted = false
  | ⟨.sendingStarttls, secured, greeted⟩ | ⟨.waitStarttlsReply, secured, greeted⟩ =>
      secured = false ∧ greeted = true
  | ⟨.tlsHandshaking, secured, _⟩ => secured = true
  | ⟨.sendingEhlo, _, greeted⟩ | ⟨.waitEhlo, _, greeted⟩ | ⟨.ready, _, greeted⟩ => greeted = true
  | _ => False

/-- One move forward, with the actions it performs. -/
inductive Move (mode : TlsMode) : Phase → List Action → Phase → Prop where
  | connect (hmode : mode ≠ .implicit) :
      Move mode ⟨.connecting, false, false⟩ [] ⟨.waitBanner, false, false⟩
  | connectImplicit (hmode : mode = .implicit) :
      Move mode ⟨.connecting, false, false⟩ [.handshake] ⟨.tlsHandshaking, true, false⟩
  | greet (secured : Bool) :
      Move mode ⟨.waitBanner, secured, false⟩ [.ehlo secured] ⟨.sendingEhlo, secured, true⟩
  | ehloSent (secured : Bool) :
      Move mode ⟨.sendingEhlo, secured, true⟩ [] ⟨.waitEhlo, secured, true⟩
  | finish (secured : Bool)
      (hmode : secured = true ∨ mode = .none ∨ mode = .opportunistic) :
      Move mode ⟨.waitEhlo, secured, true⟩ [] ⟨.ready, secured, true⟩
  | starttls (hmode : mode = .opportunistic ∨ mode = .explicit) :
      Move mode ⟨.waitEhlo, false, true⟩ [.starttls false] ⟨.sendingStarttls, false, true⟩
  | starttlsSent :
      Move mode ⟨.sendingStarttls, false, true⟩ [] ⟨.waitStarttlsReply, false, true⟩
  | upgrade :
      Move mode ⟨.waitStarttlsReply, false, true⟩ [.handshake] ⟨.tlsHandshaking, true, true⟩
  | secureFirst :
      Move mode ⟨.tlsHandshaking, true, false⟩ [] ⟨.waitBanner, true, false⟩
  | secureAgain :
      Move mode ⟨.tlsHandshaking, true, true⟩ [.ehlo true] ⟨.sendingEhlo, true, true⟩

/-- One step of a session: it stays, it moves, or it ends, possibly within a move. -/
inductive Step (mode : TlsMode) (p : Phase) : List Action → Phase → Prop where
  | stays : Step mode p [] p
  | moves {acts : List Action} {q : Phase} (h : Move mode p acts q) : Step mode p acts q
  | ends (q : Phase) (hstate : q.state = .error ∨ q.state = .timedOut) : Step mode p [] q
  | endsMoving {acts : List Action} {q : Phase} (h : Move mode p acts q) (q' : Phase)
      (hstate : q'.state = .error ∨ q'.state = .timedOut) : Step mode p acts q'

/-- A step that starts out on a move, or on none, and gets there unless it fails on the way. -/
theorem Step.lands {mode : TlsMode} {p q q' : Phase} {acts : List Action}
    (h : Move mode p acts q ∨ acts = [] ∧ q = p) (hq : q' = q ∨ q'.state = .error) :
    Step mode p acts q' := by
  rcases h with hmove | ⟨rfl, rfl⟩ <;> rcases hq with rfl | herror
  · exact .moves hmove
  · exact .endsMoving hmove q' (.inl herror)
  · exact .stays
  · exact .ends q' (.inl herror)

/-- What a session has done accounts for the phase it is in, until it has failed. -/
def Sound (mode : TlsMode) (p : Phase) (acts : List Action) : Prop :=
  if p.state = .error ∨ p.state = .timedOut then Lawful mode acts else history mode p = some acts

theorem lawful_of_history {mode : TlsMode} {p : Phase} {acts : List Action}
    (h : history mode p = some acts) : Lawful mode acts := by
  obtain ⟨state, secured, greeted⟩ := p
  cases mode <;> cases state <;> cases secured <;> cases greeted <;> simp [history] at h <;>
    subst h <;> decide

theorem consistent_of_history {mode : TlsMode} {p : Phase} {acts : List Action}
    (h : history mode p = some acts) : Consistent p := by
  obtain ⟨state, secured, greeted⟩ := p
  cases state <;> cases secured <;> cases greeted <;> simp [history] at h <;> simp [Consistent]

theorem Sound.lawful {mode : TlsMode} {p : Phase} {acts : List Action} (h : Sound mode p acts) :
    Lawful mode acts := by
  unfold Sound at h
  split at h
  · exact h
  · exact lawful_of_history h

theorem Sound.history {mode : TlsMode} {p : Phase} {acts : List Action} (h : Sound mode p acts)
    (herror : p.state ≠ .error) (htimedOut : p.state ≠ .timedOut) :
    Protocol.history mode p = some acts := by
  simpa [Sound, herror, htimedOut] using h

/-- A move extends the history of the phase it leaves by what it does. -/
theorem history_move {mode : TlsMode} {p q : Phase} {acts done : List Action}
    (h : Move mode p acts q) (hdone : history mode p = some done) :
    history mode q = some (done ++ acts) := by
  cases h with
  | greet secured | ehloSent secured =>
      cases mode <;> cases secured <;> simp [history] at hdone <;> subst hdone <;> rfl
  | finish secured hmode =>
      cases mode <;> cases secured <;> simp [history] at hdone hmode <;> subst hdone <;> rfl
  | connect hmode | connectImplicit hmode | starttls hmode =>
      cases mode <;> simp [history] at hdone hmode <;> subst hdone <;> rfl
  | starttlsSent | upgrade | secureFirst | secureAgain =>
      cases mode <;> simp [history] at hdone <;> subst hdone <;> rfl

theorem Move.state_ne {mode : TlsMode} {p q : Phase} {acts : List Action} (h : Move mode p acts q) :
    p.state ≠ .error ∧ p.state ≠ .timedOut ∧ q.state ≠ .error ∧ q.state ≠ .timedOut := by
  cases h <;> simp

/-- **Every step keeps a session sound.** -/
theorem Sound.step {mode : TlsMode} {p q : Phase} {acts done : List Action}
    (h : Sound mode p done) (hstep : Step mode p acts q) : Sound mode q (done ++ acts) := by
  cases hstep with
  | stays => simpa using h
  | moves hmove =>
      obtain ⟨herror, htimedOut, herror', htimedOut'⟩ := hmove.state_ne
      have hq := history_move hmove (h.history herror htimedOut)
      simpa [Sound, herror', htimedOut'] using hq
  | ends q hstate => simpa [Sound, hstate] using h.lawful
  | endsMoving hmove q' hstate =>
      obtain ⟨herror, htimedOut, -, -⟩ := hmove.state_ne
      have hlawful := lawful_of_history (history_move hmove (h.history herror htimedOut))
      simpa [Sound, hstate] using hlawful

/-- A session ends well only behind a whole word of its mode. -/
theorem mem_words_of_ready {mode : TlsMode} {secured greeted : Bool} {acts : List Action}
    (h : history mode ⟨.ready, secured, greeted⟩ = some acts) :
    acts ∈ words mode ∧ (.handshake ∈ acts ↔ secured = true) := by
  cases mode <;> cases secured <;> cases greeted <;> simp [history] at h <;> subst h <;> decide

end Protocol

end SmtpClient
