import SmtpClient.OpenSsl

/-!
# A sample OpenSSL

An OpenSSL that does what is documented and no more: it sends a greeting, takes one flight of the
server for its chain, makes all checks on it in one go, and gives up where the callback returns 0. A
flight is a certificate: whether it has expired, and the name it was issued for.
-/

namespace SmtpClient

namespace OpenSsl

structure SampleCert where
  expired : Bool
  name : Bytes
  deriving DecidableEq, Repr

inductive SamplePhase where
  | new
  | greeted
  | received (chain : CertChain SampleCert)
  | established (chain : CertChain SampleCert)
  | failed

structure SampleSsl where
  host : Option Bytes
  phase : SamplePhase
  output : Bytes

namespace SampleSsl

/-- `X509_V_ERR_CERT_HAS_EXPIRED`. -/
def certHasExpired : Nat := 10

def flight (cert : SampleCert) : Bytes := (if cert.expired then 1 else 0) :: cert.name

def receive (ssl : SampleSsl) (data : Bytes) : SampleSsl :=
  match ssl.phase with
  | .greeted => { ssl with phase := .received ⟨⟨data.head? == some 1, data.tail⟩, []⟩ }
  | _ => ssl

def chainChecks (chain : CertChain SampleCert) : List (Check SampleCert) :=
  [⟨0, some chain.leaf, if chain.leaf.expired then certHasExpired else verifyOk⟩]

def checks (host : Option Bytes) (chain : CertChain SampleCert) : List (Check SampleCert) :=
  match host with
  | none => chainChecks chain
  | some name =>
      ⟨0, some chain.leaf, if chain.leaf.name == name then verifyOk else hostnameMismatch⟩
        :: chainChecks chain

/-- Reports the checks, until the callback returns 0. -/
def verify (ssl : SampleSsl) (chain : CertChain SampleCert) :
    List (Check SampleCert) → Callback (VerifyCall SampleCert) Bool (SslResult SampleSsl)
  | [] => .returns ⟨1, .none, { ssl with phase := .established chain, output := bytes "finished" }⟩
  | check :: rest =>
      .calls ⟨check.passes, check⟩ fun answer =>
        if answer then verify ssl chain rest else .returns ⟨-1, .ssl, { ssl with phase := .failed }⟩

def doHandshake (ssl : SampleSsl) :
    Callback (VerifyCall SampleCert) Bool (SslResult SampleSsl) :=
  match ssl.phase with
  | .new => .returns ⟨-1, .wantRead, { ssl with phase := .greeted, output := bytes "hello" }⟩
  | .greeted => .returns ⟨-1, .wantRead, ssl⟩
  | .received chain => verify ssl chain (checks ssl.host chain)
  | .established _ => .returns ⟨1, .none, ssl⟩
  | .failed => .returns ⟨-1, .ssl, ssl⟩

def peer (ssl : SampleSsl) : Option (CertChain SampleCert) :=
  match ssl.phase with
  | .received chain | .established chain => some chain
  | _ => none

end SampleSsl

open SampleSsl

def sampleSsl : OpenSsl where
  Ctx := Unit
  Entropy := Unit
  Ssl := SampleSsl
  Cert := SampleCert
  sslNew _ _ := some ⟨none, .new, []⟩
  setConnectState ssl := ssl
  setTlsextHostName ssl _ := ssl
  setVerify ssl := ssl
  set1Host ssl name := { ssl with host := if name = [] then none else some name }
  bioWrite ssl data := (data.length, ssl.receive data)
  bioRead ssl n := (ssl.output.take n, { ssl with output := ssl.output.drop n })
  doHandshake := SampleSsl.doHandshake
  sslWrite ssl plaintext :=
    .returns ⟨plaintext.length, .none, { ssl with output := ssl.output ++ plaintext }⟩
  sslRead ssl _ := .returns ⟨[], .wantRead, ssl⟩
  subjectOneline cert n := clip n cert.name
  issuerOneline cert n := clip n cert.name
  notAfter _ := some 0
  errorString error :=
    if error = certHasExpired then bytes "certificate has expired" else bytes "hostname mismatch"
  bioRead_le ssl n := by
    rw [List.length_take]
    exact Nat.min_le_left n _
  sslRead_le _ n _ _ htrace := by
    cases htrace
    exact Nat.zero_le n

def sampleRules : Rules sampleSsl where
  peer := SampleSsl.peer
  chainChecks := SampleSsl.chainChecks
  hostPlace _ := 0
  checkHost cert name := cert.name == name

/-! ### It does what is documented -/

theorem sampleRules_checks (host : Option Bytes) (chain : CertChain SampleCert) :
    sampleRules.checks host chain = SampleSsl.checks host chain := by
  cases host <;> rfl

namespace SampleSsl

/-- A verification that succeeds has reported every failure and was never answered 0. -/
theorem verify_traces {ssl : SampleSsl} {chain : CertChain SampleCert}
    {todo : List (Check SampleCert)} {calls : List (VerifyCall SampleCert × Bool)}
    {result : SslResult SampleSsl} (h : (verify ssl chain todo).Traces calls result) :
    (result.rc ≠ 1 ∧ result.ssl.host = ssl.host ∧ result.ssl.phase = .failed)
      ∨ (result.ssl.host = ssl.host ∧ result.ssl.phase = .established chain
        ∧ failing calls = todo.filter (fun check => !check.passes) ∧ ∀ c ∈ calls, c.2 = true) := by
  induction todo generalizing calls with
  | nil =>
      cases h
      exact .inr ⟨rfl, rfl, rfl, nofun⟩
  | cons check rest ih =>
      cases h with
      | @calls _ _ answer trace _ htrace =>
          cases answer with
          | false =>
              cases htrace
              exact .inl ⟨nofun, rfl, rfl⟩
          | true =>
              rcases ih htrace with hfailed | ⟨hhost, hphase, hfailing, hanswers⟩
              · exact .inl hfailed
              · refine .inr ⟨hhost, hphase, ?_, ?_⟩
                · rw [List.filter_cons, ← hfailing]
                  cases check.passes <;> simp [failing]
                · exact List.forall_mem_cons.2 ⟨rfl, hanswers⟩

/-- What a history leaves of its calls. -/
structure Sound (host : Option Bytes) (calls : List (VerifyCall SampleCert × Bool))
    (ssl : SampleSsl) : Prop where
  hostSet : ssl.host = host
  quiet : (∀ chain, ssl.phase ≠ .established chain) → ssl.phase ≠ .failed → calls = []
  established : ∀ chain, ssl.phase = .established chain →
    failing calls = (checks host chain).filter (fun check => !check.passes)
      ∧ ∀ c ∈ calls, c.2 = true

variable {host : Option Bytes} {calls calls' : List (VerifyCall SampleCert × Bool)}
  {ssl : SampleSsl} {result : SslResult SampleSsl}

theorem Sound.doHandshake (h : Sound host calls ssl)
    (htrace : (doHandshake ssl).Traces calls' result) :
    Sound host (calls ++ calls') result.ssl
      ∧ (result.rc = 1 → ∃ chain, result.ssl.phase = .established chain) := by
  obtain ⟨hhost, hquiet, hestablished⟩ := h
  unfold SampleSsl.doHandshake at htrace
  cases hphase : ssl.phase with
  | new | greeted =>
      rw [hphase] at htrace hquiet
      cases htrace
      have hcalls := hquiet nofun nofun
      refine ⟨⟨hhost, fun _ _ => ?_, ?_⟩, nofun⟩
      · rw [hcalls, List.append_nil]
      · simp [hphase]
  | received chain =>
      rw [hphase] at htrace hquiet
      rw [hquiet nofun nofun, List.nil_append]
      rcases verify_traces htrace with ⟨hrc, hhost', hphase'⟩ | ⟨hhost', hphase', hverified⟩
      · refine ⟨⟨hhost'.trans hhost, fun _ hfailed => absurd hphase' hfailed, ?_⟩,
          fun hone => absurd hone hrc⟩
        simp [hphase']
      · refine ⟨⟨hhost'.trans hhost, fun hnone => absurd hphase' (hnone chain), ?_⟩,
          fun _ => ⟨chain, hphase'⟩⟩
        intro chain' hchain
        obtain rfl := SamplePhase.established.inj (hphase'.symm.trans hchain)
        rwa [hhost] at hverified
  | established chain =>
      rw [hphase] at htrace
      cases htrace
      rw [List.append_nil]
      exact ⟨⟨hhost, hquiet, hestablished⟩, fun _ => ⟨chain, hphase⟩⟩
  | failed =>
      rw [hphase] at htrace
      cases htrace
      rw [List.append_nil]
      exact ⟨⟨hhost, hquiet, hestablished⟩, nofun⟩

theorem sound_of_history {calls : List (VerifyCall sampleSsl.Cert × Bool)} {ssl : sampleSsl.Ssl}
    (h : History sampleSsl host calls ssl) : Sound host calls ssl := by
  induction h with
  | configured hnew sni =>
      cases hnew
      exact ⟨rfl, fun _ _ => rfl, nofun⟩
  | set1Host hnew sni name =>
      cases hnew
      exact ⟨rfl, fun _ _ => rfl, nofun⟩
  | @bioWrite host calls ssl before data ih =>
      obtain ⟨hhost, hquiet, hestablished⟩ := ih
      change Sound host calls (receive ssl data)
      unfold receive
      cases hphase : ssl.phase with
      | greeted => exact ⟨hhost, fun _ _ => hquiet (by simp [hphase]) (by simp [hphase]), nofun⟩
      | new | received | established | failed => exact ⟨hhost, hquiet, hestablished⟩
  | bioRead before n ih => exact ⟨ih.hostSet, ih.quiet, ih.established⟩
  | doHandshake before traces ih => exact (ih.doHandshake traces).1

end SampleSsl

theorem sample_documented : Documented sampleRules where
  peer_bioRead _ _ := rfl
  reports host calls ssl calls' result hhistory htrace hrc := by
    obtain ⟨hsound, hdone⟩ := (sound_of_history hhistory).doHandshake htrace
    obtain ⟨chain, hphase⟩ := hdone hrc
    refine ⟨chain, ?_, ?_⟩
    · change SampleSsl.peer result.ssl = some chain
      unfold SampleSsl.peer
      rw [hphase]
    · rw [sampleRules_checks]
      exact (hsound.established chain hphase).1
  fails host calls ssl calls' result hhistory htrace hzero hrc := by
    obtain ⟨hsound, hdone⟩ := (sound_of_history hhistory).doHandshake htrace
    obtain ⟨chain, hphase⟩ := hdone hrc
    obtain ⟨call, hmem⟩ := hzero
    have hanswer := (hsound.established chain hphase).2 _ hmem
    cases hanswer

end OpenSsl

end SmtpClient
