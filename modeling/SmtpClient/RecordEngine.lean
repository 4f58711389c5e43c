import SmtpClient.Orchestrator
import SmtpClient.RecordLayer

/-!
# A record layer to run on

A TLS engine cut down to what the state machine can see of one: a one-flight handshake and records
of at most 255 bytes, one byte of type and one of length in front. It collects input until a record
is complete, hands out at most one record a call, keeps the rest, and asks for more only when
nothing complete is left, as `SSL_read` does.
-/

namespace SmtpClient

namespace RecordEngine

def handshakeType : UInt8 := 22
def dataType : UInt8 := 23
def alertType : UInt8 := 21

structure State where
  started : Bool
  done : Bool
  raw : Bytes
  deriving DecidableEq, Repr

/-- The first complete record: its type, its content and what follows it. -/
def takeRecord : Bytes → Option (UInt8 × Bytes × Bytes)
  | type :: len :: rest =>
      if len.toNat ≤ rest.length then some (type, rest.take len.toNat, rest.drop len.toNat) else none
  | _ => none

def record (type : UInt8) (content : Bytes) : Bytes :=
  type :: UInt8.ofNat content.length :: content

def State.feed (s : State) (input : Bytes) : State := { s with raw := s.raw ++ input }

/-- The client's flight goes out first, then the server's is awaited. -/
def drive (s : State) (outSize : Nat) : TlsOutcome State :=
  if !s.started then
    ⟨.wantWrite, (record handshakeType (bytes "hello")).take outSize, { s with started := true }⟩
  else
    match takeRecord s.raw with
    | some (type, _, rest) =>
        if type = handshakeType then ⟨.ok, [], { s with done := true, raw := rest }⟩
        else ⟨.error, [], s⟩
    | none => ⟨.wantRead, [], s⟩

def encrypt (s : State) (plaintext : Bytes) (outSize : Nat) : TlsOutcome State :=
  if (record dataType plaintext).length ≤ outSize then ⟨.wantWrite, record dataType plaintext, s⟩
  else ⟨.error, [], s⟩

/-- One record is handed out; what does not fit stays behind as a record of its own. -/
def deliver (s : State) (outSize : Nat) : TlsOutcome State :=
  match takeRecord s.raw with
  | some (type, content, rest) =>
      if type = alertType then ⟨.ok, [], { s with raw := rest }⟩
      else if type ≠ dataType then ⟨.error, [], s⟩
      else if content.length ≤ outSize then ⟨.ok, content, { s with raw := rest }⟩
      else ⟨.ok, content.take outSize, { s with raw := record type (content.drop outSize) ++ rest }⟩
  | none => ⟨.wantRead, [], s⟩

theorem length_out_drive (s : State) (n : Nat) : (drive s n).out.length ≤ n := by
  unfold drive
  split
  · exact List.length_take_le ..
  split
  · split <;> simp
  · simp

theorem done_of_drive (s : State) (n : Nat) (h : (drive s n).status = .ok) :
    (drive s n).next.done = true := by
  unfold drive at h ⊢
  split <;> simp_all
  split <;> simp_all
  split <;> simp_all

theorem length_out_deliver (s : State) (n : Nat) : (deliver s n).out.length ≤ n := by
  unfold deliver
  split
  · split
    · simp
    split
    · simp
    split
    · assumption
    · exact List.length_take_le ..
  · simp

theorem done_deliver (s : State) (n : Nat) (h : s.done = true) :
    (deliver s n).next.done = true := by
  unfold deliver
  split
  · split
    · exact h
    split
    · exact h
    split <;> exact h
  · exact h

end RecordEngine

open RecordEngine in
/-- The engine; its certificate is given by the context. -/
def recordEngine (info : TlsCertInfo) : TlsEngine where
  Ctx := Unit
  Entropy := Unit
  State := RecordEngine.State
  create _ _ _ _ := some ⟨false, false, []⟩
  handshakeDone s := s.done
  handshake s input n := drive (s.feed input) n
  encrypt := encrypt
  decrypt s input n := deliver (s.feed input) n
  certInfo _ := info
  handshake_out_le s input n := length_out_drive _ n
  encrypt_out_le s plaintext n := by
    unfold encrypt
    split <;> simp_all
  decrypt_out_le s input n := length_out_deliver _ n
  handshakeDone_of_ok s input n h := done_of_drive _ n h
  handshakeDone_encrypt s plaintext n h := by
    unfold encrypt
    split <;> exact h
  handshakeDone_decrypt s input n h := done_deliver _ n h

open RecordEngine in
/-- No call to `decrypt` asks for a write, as in both backends. -/
theorem recordEngine_decrypt_ne_wantWrite (info : TlsCertInfo) (s : (recordEngine info).State)
    (input : Bytes) (n : Nat) : ((recordEngine info).decrypt s input n).status ≠ .wantWrite := by
  change (deliver (State.feed s input) n).status ≠ .wantWrite
  unfold deliver
  split
  · split
    · simp
    split
    · simp
    split <;> simp
  · simp

/-! ### The records in it -/

namespace RecordEngine

theorem takeRecord_eq_some {raw content rest : Bytes} {type : UInt8}
    (h : takeRecord raw = some (type, content, rest)) :
    ∃ len, raw = type :: len :: (content ++ rest) ∧ content.length = len.toNat := by
  unfold takeRecord at h
  split at h
  · rename_i t len tail
    split at h
    · rename_i hle
      cases Option.some.inj h
      exact ⟨len, by rw [List.take_append_drop], by rw [List.length_take, Nat.min_eq_left hle]⟩
    · exact absurd h (by simp)
  · exact absurd h (by simp)

theorem takeRecord_record {content rest : Bytes} {type : UInt8} (h : content.length < 256) :
    takeRecord (record type content ++ rest) = some (type, content, rest) := by
  have hlen : (UInt8.ofNat content.length).toNat = content.length := by
    rw [UInt8.toNat_ofNat']
    exact Nat.mod_eq_of_lt h
  simp [record, takeRecord, hlen]

theorem takeRecord_append {raw content rest : Bytes} {type : UInt8} (input : Bytes)
    (h : takeRecord raw = some (type, content, rest)) :
    takeRecord (raw ++ input) = some (type, content, rest ++ input) := by
  obtain ⟨len, rfl, hlen⟩ := takeRecord_eq_some h
  have hle : content.length ≤ (content ++ (rest ++ input)).length := by
    simp only [List.length_append]
    omega
  simp only [List.cons_append, List.append_assoc, takeRecord, ← hlen, if_pos hle,
    List.take_left, List.drop_left]

/-- The complete records of application data. -/
def dataRecords (raw : Bytes) : List Bytes :=
  match _h : takeRecord raw with
  | some (type, content, rest) =>
      (if type = dataType then [content] else []) ++ dataRecords rest
  | none => []
termination_by raw.length
decreasing_by
  obtain ⟨len, rfl, -⟩ := takeRecord_eq_some _h
  simp only [List.length_cons, List.length_append]
  omega

theorem dataRecords_of_none {raw : Bytes} (h : takeRecord raw = none) : dataRecords raw = [] := by
  rw [dataRecords]
  split
  · rename_i heq
    exact absurd (h.symm.trans heq) (by simp)
  · rfl

theorem dataRecords_of_some {raw content rest : Bytes} {type : UInt8}
    (h : takeRecord raw = some (type, content, rest)) :
    dataRecords raw = (if type = dataType then [content] else []) ++ dataRecords rest := by
  rw [dataRecords]
  split
  · rename_i heq
    cases Option.some.inj (h.symm.trans heq)
    rfl
  · rename_i heq
    exact absurd (h.symm.trans heq) (by simp)

/-- The same, looked for in so many records: this can be evaluated. -/
def recordsWithin : Nat → Bytes → List Bytes
  | 0, _ => []
  | fuel + 1, raw =>
      match takeRecord raw with
      | some (type, content, rest) =>
          (if type = dataType then [content] else []) ++ recordsWithin fuel rest
      | none => []

theorem recordsWithin_eq {fuel : Nat} {raw : Bytes} (h : raw.length ≤ fuel) :
    recordsWithin fuel raw = dataRecords raw := by
  induction fuel generalizing raw with
  | zero =>
      obtain rfl := List.length_eq_zero_iff.1 (Nat.le_zero.1 h)
      exact (dataRecords_of_none rfl).symm
  | succ fuel ih =>
      rw [recordsWithin]
      cases htake : takeRecord raw with
      | none => exact (dataRecords_of_none htake).symm
      | some taken =>
          obtain ⟨type, content, rest⟩ := taken
          obtain ⟨len, rfl, -⟩ := takeRecord_eq_some htake
          simp only [List.length_cons, List.length_append] at h
          have hrest : recordsWithin fuel rest = dataRecords rest := ih (by omega)
          rw [dataRecords_of_some htake, ← hrest]

/-- More input only adds records. -/
theorem dataRecords_append (raw input : Bytes) :
    dataRecords raw <+: dataRecords (raw ++ input) := by
  induction raw using dataRecords.induct with
  | case1 raw type content rest h ih =>
      rw [dataRecords_of_some h, dataRecords_of_some (takeRecord_append input h)]
      exact (List.prefix_append_right_inj _).mpr ih
  | case2 raw h => simp [dataRecords_of_none h]

/-- The data records that an input completes. -/
def arriving (s : State) (input : Bytes) : List Bytes :=
  (dataRecords (s.raw ++ input)).drop (dataRecords s.raw).length

theorem held_append_arriving (s : State) (input : Bytes) :
    dataRecords s.raw ++ arriving s input = dataRecords (s.feed input).raw := by
  obtain ⟨more, hmore⟩ := dataRecords_append s.raw input
  rw [arriving, ← hmore, List.drop_left]
  exact hmore

theorem dataRecords_drive (s : State) (n : Nat) (h : (drive s n).status ≠ .error) :
    dataRecords (drive s n).next.raw = dataRecords s.raw := by
  unfold drive at h ⊢
  split
  · rfl
  rename_i hstarted
  rw [if_neg hstarted] at h
  cases htake : takeRecord s.raw with
  | none => rfl
  | some taken =>
      obtain ⟨type, content, rest⟩ := taken
      simp only [htake] at h ⊢
      by_cases htype : type = handshakeType
      · simp [htype, dataRecords_of_some htake, handshakeType, dataType]
      · simp [htype] at h

theorem dataRecords_of_drive_wantRead (s : State) (n : Nat) (h : (drive s n).status = .wantRead) :
    dataRecords s.raw = [] := by
  unfold drive at h
  split at h
  · exact absurd h (by simp)
  split at h
  · split at h <;> exact absurd h (by simp)
  · rename_i hnone
    exact dataRecords_of_none hnone

theorem dataRecords_of_deliver_wantRead (s : State) (n : Nat)
    (h : (deliver s n).status = .wantRead) :
    dataRecords (deliver s n).next.raw = [] ∧ dataRecords s.raw = [] := by
  cases htake : takeRecord s.raw with
  | none =>
      simp only [deliver, htake]
      exact ⟨dataRecords_of_none htake, dataRecords_of_none htake⟩
  | some taken =>
      obtain ⟨type, content, rest⟩ := taken
      simp only [deliver, htake] at h
      split at h
      · exact absurd h (by simp)
      split at h
      · exact absurd h (by simp)
      split at h <;> exact absurd h (by simp)

theorem deliver_ok (s : State) (n : Nat) (h : (deliver s n).status = .ok) :
    (deliver s n).out = [] ∨ ∃ first rest, dataRecords s.raw = first :: rest
      ∧ (deliver s n).out = first.take n
      ∧ dataRecords (deliver s n).next.raw
        = if n < first.length then first.drop n :: rest else rest := by
  cases htake : takeRecord s.raw with
  | none => simp [deliver, htake]
  | some taken =>
      obtain ⟨type, content, rest⟩ := taken
      obtain ⟨len, -, hlen⟩ := takeRecord_eq_some htake
      have hbyte := len.toNat_lt
      by_cases halert : type = alertType
      · simp [deliver, htake, halert]
      by_cases hdata : type = dataType
      swap
      · simp [deliver, htake, halert, hdata] at h
      right
      refine ⟨content, dataRecords rest, by simp [dataRecords_of_some htake, hdata], ?_⟩
      subst hdata
      by_cases hfits : content.length ≤ n
      · simp [deliver, htake, halert, hfits, Nat.not_lt.mpr hfits, List.take_of_length_le hfits]
      · have hshort : (content.drop n).length < 256 := by
          rw [List.length_drop]
          omega
        have hrest := dataRecords_of_some (@takeRecord_record (content.drop n) rest dataType hshort)
        simp [deliver, htake, halert, hfits, Nat.lt_of_not_le hfits, hrest]

end RecordEngine

open RecordEngine in
/-- The engine keeps what is documented of the real ones. -/
def recordLayer (info : TlsCertInfo) : RecordLayer (recordEngine info) where
  held s := dataRecords (RecordEngine.State.raw s)
  arriving := arriving
  held_handshake s input n h :=
    (dataRecords_drive _ _ h).trans (held_append_arriving s input).symm
  handshake_wantRead s input n h :=
    (held_append_arriving s input).trans (dataRecords_of_drive_wantRead _ _ h)
  held_encrypt s plaintext n := by
    change dataRecords (encrypt s plaintext n).next.raw = _
    unfold encrypt
    split <;> rfl
  decrypt_wantRead s input n h := by
    obtain ⟨hnext, hnone⟩ := dataRecords_of_deliver_wantRead _ _ h
    exact ⟨hnext, (held_append_arriving s input).trans hnone⟩
  decrypt_ok s input n h := by
    rcases deliver_ok _ _ h with hnil | ⟨first, rest, hrecords, hout, hnext⟩
    · exact .inl hnil
    · exact .inr ⟨first, rest, (held_append_arriving s input).trans hrecords, hout, hnext⟩

/-! ### Scripted runs -/

namespace Conn

variable {E : TlsEngine}

/-- What the reactor reports about the operation in flight. -/
inductive Answer where
  | connected
  | received (data : Bytes)
  | sent (length : Nat)
  | sentAll
  deriving DecidableEq, Repr

/-- The bytes an answer is about. -/
def Answer.data (w : World E) (op : IoOp) : Answer → Bytes
  | .connected => []
  | .received data => data
  | .sent length => w.conn.contents op.buf length
  | .sentAll => w.conn.contents op.buf op.bufLen

/-- The event an answer makes of the operation in flight. -/
def Answer.event (env : Env E) (w : World E) (answer : Answer) : Option (Event E) :=
  w.inFlight.head?.map fun op => .completion env op 0 (answer.data w op) 0

/-- The world a script of answers leads to. -/
def play (M : Machine (World E) (Event E) Assertion) [∀ w event, Decidable (M.admissible w event)]
    (env : Env E) : World E → List Answer → Option (World E)
  | w, [] => some w
  | w, answer :: rest =>
      (answer.event env w).bind fun event =>
        (M.exec w [event]).bind fun w' => play M env w' rest

theorem run_of_play {M : Machine (World E) (Event E) Assertion}
    [∀ w event, Decidable (M.admissible w event)] {env : Env E} {w w' : World E}
    {answers : List Answer} (h : play M env w answers = some w') :
    ∃ events, M.Run w events w' := by
  induction answers generalizing w with
  | nil =>
      cases Option.some.inj h
      exact ⟨[], .nil⟩
  | cons answer rest ih =>
      obtain ⟨event, -, h⟩ := Option.bind_eq_some_iff.mp h
      obtain ⟨next, hnext, h⟩ := Option.bind_eq_some_iff.mp h
      obtain ⟨events, run⟩ := ih h
      exact ⟨_, (Machine.run_of_exec hnext).append run⟩

theorem steps_of_play {M : Machine (World E) (Event E) Assertion}
    [∀ w event, Decidable (M.admissible w event)] {env : Env E} {w w' : World E} {answer : Answer}
    (h : play M env w [answer] = some w') : ∃ event, M.Steps w event w' := by
  obtain ⟨event, -, h⟩ := Option.bind_eq_some_iff.mp h
  obtain ⟨next, hnext, h⟩ := Option.bind_eq_some_iff.mp h
  cases Option.some.inj h
  exact ⟨event, Machine.steps_of_exec hnext⟩

/-- A started connection of a mode, over the record engine. -/
def sample (info : TlsCertInfo) (mode : TlsMode) : World (recordEngine info) where
  conn := { init ⟨1, 1⟩ (bytes "mx") mode (some ()) false with
    connectTimeoutMs := 1000
    deadlineMs := 1000 }
  caps := Cap.init
  inFlight := [⟨.connect, .null, 0⟩]
  trace := [.log .connecting (bytes "connecting"), .submitConnect 0]

theorem started_sample (info : TlsCertInfo) (mode : TlsMode) : Started (sample info mode) :=
  ⟨⟨1, 1⟩, bytes "mx", mode, some (), false, Cap.init, 0, 1000, .inr rfl, rfl⟩

def accepts (info : TlsCertInfo) : Env (recordEngine info) := ⟨(), 0⟩

/-- A scripted run of a sample connection that answers every submission with success. -/
def playSample (info : TlsCertInfo) (mode : TlsMode) (answers : List Answer) :
    Option (World (recordEngine info)) :=
  play (machine _ (bytes "me")) (accepts info) (sample info mode) answers

theorem reachable_of_playSample {info : TlsCertInfo} {mode : TlsMode} {answers : List Answer}
    {w : World (recordEngine info)} (h : playSample info mode answers = some w) :
    Reachable (bytes "me") w := by
  obtain ⟨events, run⟩ := run_of_play h
  exact ⟨sample info mode, events, started_sample info mode, run⟩

/-- The same run, if all its steps meet a condition. -/
def playSampleWhen (info : TlsCertInfo)
    (C : World (recordEngine info) → Event (recordEngine info) → Prop)
    [∀ w event, Decidable (C w event)] (mode : TlsMode) (answers : List Answer) :
    Option (World (recordEngine info)) :=
  play ((machine _ (bytes "me")).restrict C) (accepts info) (sample info mode) answers

theorem reachableWhen_of_playSampleWhen {info : TlsCertInfo}
    {C : World (recordEngine info) → Event (recordEngine info) → Prop}
    [∀ w event, Decidable (C w event)] {mode : TlsMode} {answers : List Answer}
    {w : World (recordEngine info)} (h : playSampleWhen info C mode answers = some w) :
    ReachableWhen C (bytes "me") w := by
  obtain ⟨events, run⟩ := run_of_play h
  exact ⟨sample info mode, events, started_sample info mode, run⟩

def sampleInfo : TlsCertInfo := ⟨true, [], bytes "CN=mx"⟩

/-- The server's side of a session up to its first EHLO reply, in the clear. -/
def plainScript : List Answer :=
  [.connected, .received (bytes "220 mx\r\n"), .sentAll,
    .received (bytes "250-mx\r\n250 STARTTLS\r\n")]

/-- The server's side of an upgraded session. -/
def upgradeScript : List Answer :=
  plainScript ++ [.sentAll, .received (bytes "220 go\r\n"), .sentAll,
    .received (RecordEngine.record RecordEngine.handshakeType (bytes "hello")), .sentAll,
    .received (RecordEngine.record RecordEngine.dataType (bytes "250-mx\r\n250 SIZE 5\r\n"))]

end Conn

namespace Loop

open Orchestrator

abbrev SampleLoop := Loop (recordEngine Conn.sampleInfo)
abbrev SampleTurn := Turn (recordEngine Conn.sampleInfo)

/-- An orchestrator of one slot for `mx` at 192.0.2.1:25. -/
def createSample (mode : TlsMode) :
    Except Abort (Option (Orchestrator (recordEngine Conn.sampleInfo))) :=
  create ⟨true, true, some (), true⟩ 1 (.inet 192 0 2 1 25) (some (bytes "mx")) (bytes "me") mode
    false 1000 1

/-- The turns between two polls of an orchestrator of one slot. -/
def fillTurns : List SampleTurn :=
  [.iterate 0, .fill true ⟨true, true⟩, .fill true ⟨true, true⟩]

/-- A poll that reports one completion, up to the end of the sweep. -/
def pollTurns (op : IoOp) (data : Bytes) : List SampleTurn :=
  [.polled [⟨0, op, 0, data⟩] 0, .handle (Conn.accepts _), .handle (Conn.accepts _), .sweep, .sweep]

/-- A session in the clear that gets a greeting and this reply to its EHLO. -/
def plainTurns (reply : Bytes) : List SampleTurn :=
  let ehlo := bytes "EHLO me\r\n"
  fillTurns ++ pollTurns ⟨.connect, .null, 0⟩ []
    ++ fillTurns ++ pollTurns ⟨.read, .readBuf 0, readBufSize⟩ (bytes "220 mx\r\n")
    ++ fillTurns ++ pollTurns ⟨.write, .writeBuf, ehlo.length⟩ ehlo
    ++ fillTurns ++ pollTurns ⟨.read, .readBuf 0, readBufSize⟩ reply
    ++ [.iterate 0, .fill true ⟨true, true⟩]

/-- A run of a sample orchestrator for one attempt. -/
def playLoop (M : Machine SampleLoop SampleTurn Abort)
    [∀ l turn, Decidable (M.admissible l turn)] (mode : TlsMode)
    (turns : List SampleTurn) :
    Option SampleLoop :=
  match createSample mode with
  | .ok (some orch) => M.exec (begin orch 1) turns
  | _ => none

theorem run_of_playLoop {M : Machine SampleLoop SampleTurn Abort}
    [∀ l turn, Decidable (M.admissible l turn)] {mode : TlsMode}
    {turns : List SampleTurn} {l : SampleLoop}
    (h : playLoop M mode turns = some l) :
    ∃ orch, createSample mode = .ok (some orch) ∧ M.Run (begin orch 1) turns l := by
  unfold playLoop at h
  split at h
  · rename_i orch hcreate
    exact ⟨orch, hcreate, Machine.run_of_exec h⟩
  · exact absurd h (by simp)

end Loop

end SmtpClient
