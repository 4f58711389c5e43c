import SmtpClient.Epoll

/-!
# The epoll reactor is one-shot, as long as nothing else is reported

The interest list mirrors what is in flight: an operation in flight is armed with the mask of its
kind, and a registered socket with nothing in flight has an empty mask and no pointer. So an event
that belongs to an operation in flight completes that operation or leaves it armed. An error or a
hang-up is reported whatever the mask is, and on a socket with nothing in flight the pointer that
comes with it is the NULL that `smtp_reactor_disarm` registered.
-/

namespace SmtpClient

/-- The mask an operation of a kind is armed with. -/
def IoKind.mask : IoKind → List EpollFlag
  | .connect | .write => [.epollOut]
  | .read => [.epollIn]

namespace Epoll

variable {r r' : Epoll} {inFlight : List Submission}

/-! ### What each call does -/

@[simp] theorem store_interests (op : Nat) (memory : OpMemory) :
    (r.store op memory).interests = r.interests := rfl

@[simp] theorem store_ops_self (op : Nat) (memory : OpMemory) :
    (r.store op memory).ops op = memory := by
  simp [store]

theorem store_ops_ne {op op' : Nat} (memory : OpMemory) (h : op' ≠ op) :
    (r.store op memory).ops op' = r.ops op' := by
  simp [store, h]

/-- A registration put in place. -/
def arm (r : Epoll) (sock : Nat) (event : Interest) (liveCount : Nat) : Epoll :=
  { r with interests := Function.update r.interests sock (some event), liveCount := liveCount }

@[simp] theorem arm_interests_self (sock : Nat) (event : Interest) (n : Nat) :
    (r.arm sock event n).interests sock = some event := by
  simp [arm]

theorem arm_interests_ne {sock sock' : Nat} (event : Interest) (n : Nat) (h : sock' ≠ sock) :
    (r.arm sock event n).interests sock' = r.interests sock' := by
  simp [arm, h]

theorem submitConnect_cases (op sock userData : Nat) (syscalls : ConnectSyscalls) :
    (∃ r', (r' = r ∨ r' = r.store op ⟨sock, none, 0, .connect, userData⟩)
        ∧ ∃ err, err ≠ .ok ∧ r.submitConnect op sock userData syscalls = (r', err))
      ∨ (r.interests sock = none
        ∧ r.submitConnect op sock userData syscalls
          = ((r.store op ⟨sock, none, 0, .connect, userData⟩).arm sock
              ⟨IoKind.connect.mask, some op⟩ (r.liveCount + 1), .ok)) := by
  rw [submitConnect]
  split
  · exact .inl ⟨r, .inl rfl, .atCapacity, by simp, rfl⟩
  split
  · exact .inl ⟨r, .inl rfl, .invalidArg, by simp, rfl⟩
  cases hfree : ((r.interests sock).isSome || !syscalls.added) with
  | true =>
      simp only [ctlAdd, store_interests, hfree, if_true]
      exact .inl ⟨_, .inr rfl, .registerFailed, by simp, rfl⟩
  | false =>
      simp only [ctlAdd, store_interests, hfree, Bool.false_eq_true, if_false]
      refine .inr ⟨?_, rfl⟩
      rw [Bool.or_eq_false_iff] at hfree
      simpa using hfree.1

theorem submitRw_cases (op sock : Nat) (buf : Option Nat) (bufLen userData : Nat) (kind : IoKind)
    (modified : Bool) :
    (∃ err, err ≠ .ok ∧ r.submitRw op sock buf bufLen userData kind kind.mask modified
        = (r.store op ⟨sock, buf, bufLen, kind, userData⟩, err))
      ∨ r.submitRw op sock buf bufLen userData kind kind.mask modified
          = ((r.store op ⟨sock, buf, bufLen, kind, userData⟩).arm sock ⟨kind.mask, some op⟩
              r.liveCount, .ok) := by
  simp only [submitRw, ctlMod]
  split
  · exact .inl ⟨.notRegistered, by simp, rfl⟩
  · rename_i r' hmod
    split at hmod
    · simp at hmod
    · cases hmod
      cases modified with
      | false => exact .inl ⟨.registerFailed, by simp, rfl⟩
      | true => exact .inr rfl

@[simp] theorem disarm_ops (sock : Nat) : (r.disarm sock).ops = r.ops := by
  rw [disarm, ctlMod]
  split <;> rfl

theorem disarm_interests_self (sock : Nat) :
    (r.disarm sock).interests sock = (r.interests sock).map fun _ => ⟨[], none⟩ := by
  rw [disarm, ctlMod]
  cases h : r.interests sock <;> simp [h]

theorem disarm_interests_ne {sock sock' : Nat} (h : sock' ≠ sock) :
    (r.disarm sock).interests sock' = r.interests sock' := by
  rw [disarm, ctlMod]
  split
  · rfl
  · simp [h]

theorem create_eq {maxConnections : Nat} {answers : CreateAnswers} {ops : Nat → OpMemory}
    (h : create maxConnections answers ops = some r) :
    r = ⟨maxConnections, 0, fun _ => none, ops⟩ := by
  rw [create] at h
  split at h
  · cases h
  split at h
  · cases h
  split at h
  · cases h
  split at h
  · cases h
  · exact (Option.some.inj h).symm

/-- What the orchestrator's model keeps of a reactor. -/
def counts (r : Epoll) : Reactor := ⟨r.maxConnections, r.liveCount⟩

/-- For the orchestrator, `epoll_ctl` adds a descriptor that it does not refuse. -/
theorem submitConnect_counts (op sock userData : Nat) (syscalls : ConnectSyscalls) :
    ((r.submitConnect op sock userData syscalls).1.counts,
        (r.submitConnect op sock userData syscalls).2)
      = r.counts.submitConnect
          ⟨syscalls.madeNonblocking, syscalls.added && (r.interests sock).isNone⟩ := by
  by_cases hfull : r.maxConnections ≤ r.liveCount
  · have hcounts : r.counts.maxConnections ≤ r.counts.liveCount := hfull
    rw [submitConnect, if_pos hfull, Reactor.submitConnect, if_pos hcounts]
  have hcounts : ¬ r.counts.maxConnections ≤ r.counts.liveCount := hfull
  rw [submitConnect, if_neg hfull, Reactor.submitConnect, if_neg hcounts]
  obtain ⟨madeNonblocking, added⟩ := syscalls
  cases madeNonblocking with
  | false => rfl
  | true =>
      cases added <;> cases hinterest : r.interests sock <;> simp [ctlAdd, hinterest] <;> rfl

/-! ### The interest list mirrors what is in flight -/

structure Tracks (r : Epoll) (inFlight : List Submission) : Prop where
  armed : ∀ sub ∈ inFlight, r.interests sub.sock = some ⟨sub.kind.mask, some sub.op⟩
  written : ∀ sub ∈ inFlight, (r.ops sub.op).sock = sub.sock ∧ (r.ops sub.op).kind = sub.kind
    ∧ (r.ops sub.op).userData = sub.userData
  idle : ∀ sock interest, r.interests sock = some interest → sock ∉ inFlight.map Submission.sock →
    interest = ⟨[], none⟩
  socks : (inFlight.map Submission.sock).Nodup
  ops : (inFlight.map Submission.op).Nodup

theorem Tracks.store (h : Tracks r inFlight) {op : Nat} (hop : ∀ sub ∈ inFlight, sub.op ≠ op)
    (memory : OpMemory) : Tracks (r.store op memory) inFlight where
  armed := h.armed
  written := by
    intro sub hsub
    rw [store_ops_ne memory (hop sub hsub)]
    exact h.written sub hsub
  idle := h.idle
  socks := h.socks
  ops := h.ops

theorem Tracks.arm (h : Tracks r inFlight) (sub : Submission)
    (hop : ∀ other ∈ inFlight, other.op ≠ sub.op)
    (hsock : ∀ other ∈ inFlight, other.sock ≠ sub.sock)
    (hwritten : (r.ops sub.op).sock = sub.sock ∧ (r.ops sub.op).kind = sub.kind
      ∧ (r.ops sub.op).userData = sub.userData) (n : Nat) :
    Tracks (r.arm sub.sock ⟨sub.kind.mask, some sub.op⟩ n) (sub :: inFlight) where
  armed := by
    intro other hother
    cases List.mem_cons.1 hother with
    | inl heq => rw [heq, arm_interests_self]
    | inr hin =>
        rw [arm_interests_ne _ _ (hsock other hin)]
        exact h.armed other hin
  written := by
    intro other hother
    cases List.mem_cons.1 hother with
    | inl heq => rw [heq]; exact hwritten
    | inr hin => exact h.written other hin
  idle := by
    intro sock interest hinterest hidle
    rw [List.map_cons, List.mem_cons, not_or] at hidle
    rw [arm_interests_ne _ _ hidle.1] at hinterest
    exact h.idle sock interest hinterest hidle.2
  socks := by
    rw [List.map_cons, List.nodup_cons]
    refine ⟨?_, h.socks⟩
    simp only [List.mem_map, not_exists, not_and]
    exact hsock
  ops := by
    rw [List.map_cons, List.nodup_cons]
    refine ⟨?_, h.ops⟩
    simp only [List.mem_map, not_exists, not_and]
    exact hop

/-- Two operations in flight for one socket are one. -/
theorem Tracks.eq_of_sock (h : Tracks r inFlight) {sub other : Submission} (hsub : sub ∈ inFlight)
    (hother : other ∈ inFlight) (hsock : other.sock = sub.sock) : other = sub :=
  List.inj_on_of_nodup_map h.socks hother hsub hsock

theorem Tracks.disarm (h : Tracks r inFlight) {sub : Submission} (hsub : sub ∈ inFlight) :
    Tracks (r.disarm sub.sock) (inFlight.erase sub) where
  armed := by
    intro other hother
    have hin := List.mem_of_mem_erase hother
    have hne : other.sock ≠ sub.sock := by
      intro hsock
      rw [h.eq_of_sock hsub hin hsock] at hother
      exact (List.Nodup.of_map _ h.socks).not_mem_erase hother
    rw [disarm_interests_ne hne]
    exact h.armed other hin
  written := by
    intro other hother
    rw [disarm_ops]
    exact h.written other (List.mem_of_mem_erase hother)
  idle := by
    intro sock interest hinterest hidle
    by_cases hsock : sock = sub.sock
    · rw [hsock, disarm_interests_self, h.armed sub hsub] at hinterest
      exact (Option.some.inj hinterest).symm
    · rw [disarm_interests_ne hsock] at hinterest
      apply h.idle sock interest hinterest
      intro hin
      obtain ⟨other, hother, rfl⟩ := List.mem_map.1 hin
      apply hidle
      apply List.mem_map_of_mem
      rw [List.mem_erase_of_ne]
      · exact hother
      · rintro rfl
        exact hsock rfl
  socks := h.socks.sublist ((List.erase_sublist ..).map _)
  ops := h.ops.sublist ((List.erase_sublist ..).map _)

theorem Tracks.forget (h : Tracks r inFlight) (sock n : Nat) :
    Tracks { r.ctlDel sock with liveCount := n } (inFlight.filter fun sub => sub.sock ≠ sock) where
  armed := by
    intro sub hsub
    rw [List.mem_filter, decide_eq_true_iff] at hsub
    simpa [ctlDel, hsub.2] using h.armed sub hsub.1
  written := by
    intro sub hsub
    exact h.written sub (List.mem_of_mem_filter hsub)
  idle := by
    intro sock' interest hinterest hidle
    by_cases hsock : sock' = sock
    · simp [ctlDel, hsock] at hinterest
    · simp only [ctlDel, ne_eq, hsock, not_false_eq_true, Function.update_of_ne] at hinterest
      apply h.idle sock' interest hinterest
      intro hin
      obtain ⟨other, hother, rfl⟩ := List.mem_map.1 hin
      apply hidle
      apply List.mem_map_of_mem
      rw [List.mem_filter, decide_eq_true_iff]
      exact ⟨hother, hsock⟩
  socks := h.socks.sublist (List.filter_sublist.map _)
  ops := h.ops.sublist (List.filter_sublist.map _)

/-! ### What is ready -/

/-- What an operation in flight completes with is its own. -/
theorem Tracks.fits (h : Tracks r inFlight) {sub : Submission} (hsub : sub ∈ inFlight)
    {event : RawEvent} {completion : UserResult}
    (hready : handleReady (r.ops sub.op) event = some completion) : completion.Fits sub := by
  obtain ⟨-, hkind, huser⟩ := h.written sub hsub
  rw [handleReady, hkind] at hready
  cases hsubkind : sub.kind with
  | connect =>
      rw [hsubkind] at hready
      cases hready
      exact ⟨huser, hsubkind.symm⟩
  | read =>
      rw [hsubkind] at hready
      simp only [handleReadReady, handleTransferReady] at hready
      cases htransferred : event.transferred with
      | wouldBlock => simp [htransferred] at hready
      | bytes n | failed n =>
          rw [htransferred] at hready
          cases hready
          exact ⟨huser, hsubkind.symm⟩
  | write =>
      rw [hsubkind] at hready
      simp only [handleWriteReady, handleTransferReady] at hready
      cases htransferred : event.transferred with
      | wouldBlock => simp [htransferred] at hready
      | bytes n | failed n =>
          rw [htransferred] at hready
          cases hready
          exact ⟨huser, hsubkind.symm⟩

/-- What is left in flight when the operations of a list have completed. -/
def leftInFlight (inFlight : List Submission) (filled : List (Nat × UserResult)) :
    List Submission :=
  filled.foldl (fun inFlight (op, _) => inFlight.filter fun sub => sub.op ≠ op) inFlight

/-- The loop over events that all belong to operations in flight answers some of these. -/
theorem Tracks.pollLoop (h : Tracks r inFlight) {batch : List (Option Nat × RawEvent)}
    (hsocks : (batch.map fun entry => entry.2.sock).Nodup)
    (hbatch : ∀ entry ∈ batch, ∃ sub ∈ inFlight, sub.sock = entry.2.sock ∧ entry.1 = some sub.op) :
    ∃ r' filled, r.pollLoop batch = .ok (r', filled)
      ∧ Tracks r' (leftInFlight inFlight filled)
      ∧ Answers UserResult.Fits (filled.map Prod.snd) inFlight (leftInFlight inFlight filled) := by
  induction batch generalizing r inFlight with
  | nil => exact ⟨r, [], rfl, h, .nil _⟩
  | cons entry rest ih =>
      obtain ⟨ptr, event⟩ := entry
      obtain ⟨sub, hsub, hsock, hptr⟩ := hbatch _ List.mem_cons_self
      change ptr = some sub.op at hptr
      change sub.sock = event.sock at hsock
      subst hptr
      rw [List.map_cons, List.nodup_cons] at hsocks
      have hrest : ∀ entry ∈ rest, ∃ sub ∈ inFlight, sub.sock = entry.2.sock
          ∧ entry.1 = some sub.op :=
        fun entry hentry => hbatch entry (List.mem_cons_of_mem _ hentry)
      rw [Epoll.pollLoop]
      cases hready : handleReady (r.ops sub.op) event with
      | none => exact ih h hsocks.2 hrest
      | some completion =>
          have herase : (inFlight.filter fun other => other.op ≠ sub.op) = inFlight.erase sub :=
            filter_label_eq_erase h.ops hsub
          -- the other events of the batch are about other sockets
          have hother : ∀ entry ∈ rest, ∃ other ∈ inFlight.erase sub, other.sock = entry.2.sock
              ∧ entry.1 = some other.op := by
            intro entry hentry
            obtain ⟨other, hin, hs, hp⟩ := hrest entry hentry
            refine ⟨other, ?_, hs, hp⟩
            rw [List.mem_erase_of_ne]
            · exact hin
            · rintro rfl
              apply hsocks.1
              rw [← hsock, hs]
              exact List.mem_map_of_mem (f := fun entry => entry.2.sock) hentry
          obtain ⟨r', filled, hloop, htracks, hanswers⟩ := ih (h.disarm hsub) hsocks.2 hother
          rw [← herase] at htracks hanswers
          refine ⟨r', (sub.op, completion) :: filled, ?_, htracks, ?_⟩
          · simp only [(h.written sub hsub).1, hloop]
            rfl
          · apply Answers.cons sub hsub (h.fits hsub hready)
            rw [← herase]
            exact hanswers

/-- An event without a pointer trips the assertion, whatever is in front of it. -/
theorem pollLoop_opNull {batch : List (Option Nat × RawEvent)}
    (hbatch : ∃ entry ∈ batch, entry.1 = none) : r.pollLoop batch = .error .opNull := by
  induction batch generalizing r with
  | nil => simp at hbatch
  | cons entry rest ih =>
      obtain ⟨ptr, event⟩ := entry
      cases ptr with
      | none => rfl
      | some op =>
          have hrest : ∃ entry ∈ rest, entry.1 = none := by simpa using hbatch
          rw [Epoll.pollLoop]
          cases handleReady (r.ops op) event with
          | none => exact ih hrest
          | some completion =>
              simp only [ih hrest]
              rfl

theorem take_limit {α : Type} (l : List α) (n : Nat) :
    l.take (if l.length < n then l.length else n) = l.take n := by
  split
  · rename_i hlt
    rw [List.take_of_length_le (Nat.le_refl _), List.take_of_length_le (by omega)]
  · rfl

/-- The entries a poll comes to process. -/
theorem poll_eq (rawEvents : List RawEvent) (maxOut : Nat) :
    r.poll rawEvents maxOut = r.pollLoop ((rawEvents.take maxOut).map fun event =>
      ((r.interests event.sock).bind Interest.ptr, event)) := by
  rw [poll, ← List.map_take, take_limit]

theorem Tracks.poll (h : Tracks r inFlight) {rawEvents : List RawEvent} {maxOut : Nat}
    (hsocks : (rawEvents.map RawEvent.sock).Nodup)
    (harmed : ∀ event ∈ rawEvents.take maxOut, event.sock ∈ inFlight.map Submission.sock) :
    ∃ r' filled, r.poll rawEvents maxOut = .ok (r', filled)
      ∧ Tracks r' (leftInFlight inFlight filled)
      ∧ Answers UserResult.Fits (filled.map Prod.snd) inFlight (leftInFlight inFlight filled) := by
  rw [poll_eq]
  apply h.pollLoop
  · rw [List.map_map]
    exact hsocks.sublist ((List.take_sublist ..).map RawEvent.sock)
  · intro entry hentry
    obtain ⟨event, hevent, rfl⟩ := List.mem_map.1 hentry
    obtain ⟨sub, hsub, hsock⟩ := List.mem_map.1 (harmed event hevent)
    refine ⟨sub, hsub, hsock, ?_⟩
    rw [← hsock, h.armed sub hsub]
    rfl

/-- What is reported of a registered socket with nothing in flight comes without a pointer. -/
theorem Tracks.poll_opNull (h : Tracks r inFlight) {rawEvents : List RawEvent} {maxOut : Nat}
    (hreports : ∀ event ∈ rawEvents, r.Reports event)
    (hidle : ∃ event ∈ rawEvents.take maxOut, event.sock ∉ inFlight.map Submission.sock) :
    r.poll rawEvents maxOut = .error .opNull := by
  obtain ⟨event, hevent, hidle⟩ := hidle
  obtain ⟨interest, hinterest, -, -⟩ := hreports event (List.mem_of_mem_take hevent)
  rw [poll_eq]
  apply pollLoop_opNull
  refine ⟨_, List.mem_map_of_mem hevent, ?_⟩
  have hempty := h.idle event.sock interest hinterest hidle
  rw [hempty, Option.mem_def] at hinterest
  rw [hinterest]
  rfl

end Epoll

namespace EpollSession

variable {s s' : EpollSession}

/-- What a poll comes to process belongs to operations in flight. -/
def Armed (s : EpollSession) : EpollCall → Prop
  | .poll rawEvents maxOut =>
      ∀ event ∈ rawEvents.take maxOut, event.sock ∈ s.inFlight.map Submission.sock
  | _ => True

instance (s : EpollSession) : (call : EpollCall) → Decidable (s.Armed call)
  | .poll rawEvents maxOut => inferInstanceAs (Decidable (∀ event ∈ rawEvents.take maxOut,
      event.sock ∈ s.inFlight.map Submission.sock))
  | .submitConnect .. | .submitRead .. | .submitWrite .. | .forget .. | .writeOp .. =>
      inferInstanceAs (Decidable True)

structure Kept (s : EpollSession) : Prop where
  tracks : s.reactor.Tracks s.inFlight
  served : Served UserResult.Fits Submission.sock s.history s.inFlight

theorem kept_fresh (h : Fresh s) : Kept s := by
  obtain ⟨maxConnections, answers, ops, hcreate, hinFlight, hhistory⟩ := h
  have hreactor := Epoll.create_eq hcreate
  constructor
  · rw [hreactor, hinFlight]
    exact ⟨by simp, by simp, by simp, by simp, by simp⟩
  · rw [hhistory, hinFlight]
    exact .nil

theorem Kept.refused (h : Kept s) {submission : Submission} {r : Epoll} {err : ReactorErr}
    (hr : r.Tracks s.inFlight) (herr : err ≠ .ok) : Kept (s.submitted submission (r, err)) := by
  rw [submitted, if_neg herr]
  exact ⟨hr, .refused h.served⟩

theorem Kept.accepted (h : Kept s) {submission : Submission} {r : Epoll}
    (hr : r.Tracks (submission :: s.inFlight)) : Kept (s.submitted submission (r, .ok)) := by
  rw [submitted, if_pos rfl]
  exact ⟨hr, .accepted h.served submission⟩

theorem Kept.submitConnect (h : Kept s) {op sock : Nat} (userData : Nat)
    (syscalls : ConnectSyscalls) (hop : ∀ sub ∈ s.inFlight, sub.op ≠ op) :
    Kept (s.submitted ⟨op, sock, .connect, userData⟩
      (s.reactor.submitConnect op sock userData syscalls)) := by
  have hstored := h.tracks.store hop ⟨sock, none, 0, .connect, userData⟩
  rcases s.reactor.submitConnect_cases op sock userData syscalls with
    ⟨r, hr, err, herr, heq⟩ | ⟨hfree, heq⟩
  · rw [heq]
    apply h.refused _ herr
    cases hr with
    | inl hr => rw [hr]; exact h.tracks
    | inr hr => rw [hr]; exact hstored
  · rw [heq]
    apply h.accepted
    apply hstored.arm ⟨op, sock, .connect, userData⟩ hop
    · intro other hother hsock
      -- the socket of an operation in flight is registered
      have harmed := h.tracks.armed other hother
      rw [hsock, hfree] at harmed
      cases harmed
    · simp

theorem Kept.submitRw (h : Kept s) {op sock : Nat} (buf : Option Nat) (bufLen userData : Nat)
    (kind : IoKind) (modified : Bool)
    (hfree : ∀ sub ∈ s.inFlight, sub.op ≠ op ∧ sub.sock ≠ sock) :
    Kept (s.submitted ⟨op, sock, kind, userData⟩
      (s.reactor.submitRw op sock buf bufLen userData kind kind.mask modified)) := by
  have hop : ∀ sub ∈ s.inFlight, sub.op ≠ op := fun sub hsub => (hfree sub hsub).1
  have hstored := h.tracks.store hop ⟨sock, buf, bufLen, kind, userData⟩
  rcases s.reactor.submitRw_cases op sock buf bufLen userData kind modified with
    ⟨err, herr, heq⟩ | heq
  · rw [heq]
    exact h.refused hstored herr
  · rw [heq]
    apply h.accepted
    apply hstored.arm ⟨op, sock, kind, userData⟩ hop
    · intro other hother
      exact (hfree other hother).2
    · simp

theorem step_poll (rawEvents : List RawEvent) (maxOut : Nat) :
    machine.step s (.poll rawEvents maxOut) = (do
      let (reactor, filled) ← s.reactor.poll rawEvents maxOut
      return ⟨reactor, Epoll.leftInFlight s.inFlight filled,
        s.history ++ [.reported (filled.map Prod.snd)]⟩) := rfl

theorem Kept.poll (h : Kept s) {rawEvents : List RawEvent} {maxOut : Nat}
    (hadm : machine.admissible s (.poll rawEvents maxOut))
    (harmed : Armed s (.poll rawEvents maxOut)) :
    ∃ s', machine.step s (.poll rawEvents maxOut) = .ok s' ∧ Kept s' := by
  obtain ⟨r, filled, hpoll, htracks, hanswers⟩ := h.tracks.poll hadm.2.1 harmed
  refine ⟨⟨r, Epoll.leftInFlight s.inFlight filled,
    s.history ++ [.reported (filled.map Prod.snd)]⟩, ?_, htracks, .reported h.served hanswers⟩
  rw [step_poll, hpoll]
  rfl

theorem Kept.poll_opNull (h : Kept s) {rawEvents : List RawEvent} {maxOut : Nat}
    (hadm : machine.admissible s (.poll rawEvents maxOut))
    (hidle : ¬ Armed s (.poll rawEvents maxOut)) :
    machine.step s (.poll rawEvents maxOut) = .error .opNull := by
  have hexists : ∃ event ∈ rawEvents.take maxOut,
      event.sock ∉ s.inFlight.map Submission.sock := by
    simpa [Armed] using hidle
  rw [step_poll, h.tracks.poll_opNull hadm.2.2 hexists]
  rfl

theorem kept_step {call : EpollCall} (h : Kept s) (hstep : machine.Steps s call s') :
    Kept s' := by
  obtain ⟨hadm, hstep⟩ := hstep
  cases call with
  | submitConnect op sock userData syscalls =>
      cases hstep
      exact h.submitConnect userData syscalls hadm
  | submitRead op sock buf bufLen userData modified =>
      cases buf with
      | none => cases hstep
      | some buf =>
          cases hstep
          exact h.submitRw (some buf) bufLen userData .read modified hadm
  | submitWrite op sock buf bufLen userData modified =>
      cases buf with
      | none => cases hstep
      | some buf =>
          cases hstep
          exact h.submitRw (some buf) bufLen userData .write modified hadm
  | poll rawEvents maxOut =>
      by_cases harmed : Armed s (.poll rawEvents maxOut)
      · obtain ⟨t, ht, hkept⟩ := h.poll hadm harmed
        rw [ht] at hstep
        cases hstep
        exact hkept
      · rw [h.poll_opNull hadm harmed] at hstep
        cases hstep
  | forget sock =>
      change (do
        let reactor ← s.reactor.forget sock
        return _ : Except EpollAssertion EpollSession) = .ok s' at hstep
      rw [Epoll.forget] at hstep
      split at hstep
      · cases hstep
      · cases hstep
        exact ⟨h.tracks.forget sock _, .forgot h.served sock⟩
  | writeOp op memory =>
      cases hstep
      exact ⟨h.tracks.store hadm memory, h.served⟩

theorem kept_of_reachable (h : Reachable s) : Kept s := by
  obtain ⟨s₀, calls, hfresh, hrun⟩ := h
  apply hrun.invariant (kept_fresh hfresh)
  intro s call s' hkept hstep
  exact kept_step hkept hstep

/-- **One-shot.** Every completion reported answers a submission that was accepted, and neither
completed nor forgotten before; and a poll trips over a finished operation exactly if it comes to
process an event of a socket with nothing in flight. -/
theorem one_shot (h : Reachable s) :
    Served UserResult.Fits Submission.sock s.history s.inFlight
      ∧ ∀ rawEvents maxOut, machine.admissible s (.poll rawEvents maxOut) →
        (machine.step s (.poll rawEvents maxOut) = .error .opNull
          ↔ ¬ Armed s (.poll rawEvents maxOut)) := by
  have hkept := kept_of_reachable h
  refine ⟨hkept.served, fun rawEvents maxOut hadm => ?_⟩
  constructor
  · intro hstep harmed
    obtain ⟨s', hs', -⟩ := hkept.poll hadm harmed
    rw [hs'] at hstep
    cases hstep
  · exact hkept.poll_opNull hadm

/-! ### A hang-up after the last completion -/

/-- A reactor of one connection that has connected, and has nothing in flight. -/
def connected : EpollSession where
  reactor := (((⟨1, 0, fun _ => none, fun _ => ⟨0, none, 0, .read, 0⟩⟩ : Epoll).store 1
    ⟨5, none, 0, .connect, 9⟩).arm 5 ⟨[.epollOut], some 1⟩ 1).disarm 5
  inFlight := []
  history := [.accepted ⟨1, 5, .connect, 9⟩, .reported [⟨9, .connect, 0, 0⟩]]

theorem reachable_connected : Reachable connected := by
  refine ⟨⟨⟨1, 0, fun _ => none, fun _ => ⟨0, none, 0, .read, 0⟩⟩, [], []⟩,
    [.submitConnect 1 5 9 ⟨true, true⟩, .poll [⟨5, [.epollOut], 0, .wouldBlock⟩] 1],
    ⟨1, ⟨true, true, true⟩, _, rfl, rfl, rfl⟩, ?_⟩
  exact Machine.run_of_exec rfl

theorem admissible_hangup :
    machine.admissible connected (.poll [⟨5, [.epollHup], 0, .wouldBlock⟩] 1) := by
  decide

theorem not_armed_hangup :
    ¬ Armed connected (.poll [⟨5, [.epollHup], 0, .wouldBlock⟩] 1) := by
  decide

theorem one_shot_connected :
    machine.step connected (.poll [⟨5, [.epollHup], 0, .wouldBlock⟩] 1) = .error .opNull :=
  ((one_shot reachable_connected).2 _ _ admissible_hangup).2 not_armed_hangup

theorem hangup_trips :
    ¬ ∀ s, Reachable s →
      Served UserResult.Fits Submission.sock s.history s.inFlight
        ∧ ∀ rawEvents maxOut, machine.admissible s (.poll rawEvents maxOut) →
          machine.step s (.poll rawEvents maxOut) ≠ .error .opNull := by
  intro h
  exact (h connected reachable_connected).2 _ _ admissible_hangup rfl

end EpollSession

end SmtpClient
