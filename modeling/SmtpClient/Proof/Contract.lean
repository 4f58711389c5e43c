import SmtpClient.Node
import SmtpClient.Proof.KqueueOneShot
import Mathlib.Data.Set.Insert

/-!
# What the orchestrator relies on

A contract between the orchestrator and a backend, in terms of what is in flight and which sockets
are registered: a submission on a socket with nothing in flight does what it says or says that it
did not; a poll answers some of what is in flight, as long as every registered socket has something
in flight and no pipe is broken, which ends the process; and a socket is forgotten with whatever is
in flight for it. Both readiness backends keep the contract.
-/

namespace SmtpClient

namespace Backend

/-- A state of a backend, seen from outside: what is in flight, and the sockets it has to do
with. -/
abbrev View (B : Backend) := B.State → List Submission → Set Nat → Prop

/-- What a submission leaves, with the answer to it. -/
structure Leaves (B : Backend) (Holds : B.View) (r : B.State) (inFlight : List Submission)
    (registered : Set Nat) (sub : Submission) (memory : OpMemory)
    (answer : B.State × ReactorErr) : Prop where
  holds : Holds answer.1 (if answer.2 = .ok then sub :: inFlight else inFlight) registered
  frame : ∀ op, op ≠ sub.op → B.ops answer.1 op = B.ops r op
  memory : answer.2 = .ok → B.ops answer.1 sub.op = memory

/-- A read or a write is refused for want of resources only. -/
def Transfers (B : Backend) (Holds : B.View) (kind : IoKind)
    (submit : B.State → Nat → Nat → Option Nat → Nat → Nat → Bool →
      Except EpollAssertion (B.State × ReactorErr)) : Prop :=
  ∀ r inFlight registered op sock buf bufLen userData resources, Holds r inFlight registered →
    (∀ sub ∈ inFlight, sub.op ≠ op ∧ sub.sock ≠ sock) → sock ∈ registered →
    ∃ r', submit r op sock (some buf) bufLen userData resources
        = .ok (r', if resources then .ok else .registerFailed)
      ∧ B.counts r' = B.counts r
      ∧ B.Leaves Holds r inFlight registered ⟨op, sock, kind, userData⟩
        ⟨sock, some buf, bufLen, kind, userData⟩
        (r', if resources then .ok else .registerFailed)

/-- A completion for one of the operations in flight. -/
def Owed (B : Backend) (r : B.State) (inFlight : List Submission) (user : UserResult) : Prop :=
  ∃ sub ∈ inFlight, user.Fits sub ∧ user.result.bytesTransferred ≤ (B.ops r sub.op).bufLen
    ∧ (user.result.result ≠ 0 → user.result.bytesTransferred = 0)
    ∧ (user.result.kind = .connect → user.result.bytesTransferred = 0)

/-- **The contract.** -/
structure Keeps (B : Backend) (Holds : B.View) : Prop where
  named : ∀ r inFlight registered, Holds r inFlight registered →
    (inFlight.map Submission.op).Nodup
  connect : ∀ r inFlight registered op sock userData syscalls, Holds r inFlight registered →
    (∀ sub ∈ inFlight, sub.op ≠ op ∧ sub.sock ≠ sock) → sock ∉ registered →
    (B.counts (B.submitConnect r op sock userData syscalls).1,
        (B.submitConnect r op sock userData syscalls).2) = (B.counts r).submitConnect syscalls
      ∧ B.Leaves Holds r inFlight
        (if (B.submitConnect r op sock userData syscalls).2 = .ok then insert sock registered
          else registered)
        ⟨op, sock, .connect, userData⟩ ⟨sock, none, 0, .connect, userData⟩
        (B.submitConnect r op sock userData syscalls)
  read : B.Transfers Holds .read B.submitRead
  write : B.Transfers Holds .write B.submitWrite
  poll : ∀ r inFlight registered events maxOut, Holds r inFlight registered →
    (∀ sock ∈ registered, sock ∈ inFlight.map Submission.sock) → B.Reports r events →
    ¬ B.Breaks r events maxOut →
    ∃ r' users rest, B.poll r events maxOut = .ok (r', users) ∧ users.length ≤ maxOut
      ∧ Holds r' rest registered ∧ Answers UserResult.Fits users inFlight rest
      ∧ B.counts r' = B.counts r ∧ B.ops r' = B.ops r ∧ ∀ user ∈ users, B.Owed r inFlight user
  breaks : ∀ r events maxOut, B.Reports r events → B.Breaks r events maxOut →
    B.poll r events maxOut = .error .sigpipe
  forget : ∀ r inFlight registered sock, Holds r inFlight registered →
    0 < (B.counts r).liveCount →
    ∃ r', B.forget r sock = .ok r'
      ∧ B.counts r' = { B.counts r with liveCount := (B.counts r).liveCount - 1 }
      ∧ B.ops r' = B.ops r
      ∧ Holds r' (inFlight.filter fun sub => sub.sock ≠ sock) (registered \ {sock})

end Backend

theorem le_of_within {transferred : Transferred} {room n : Nat}
    (h : n = 0 ∨ transferred = .bytes n) (hwithin : transferred.Within room) : n ≤ room := by
  rcases h with rfl | rfl
  · exact Nat.zero_le _
  · exact hwithin

/-! ### The epoll backend -/

namespace Epoll

variable {r r' : Epoll} {inFlight : List Submission} {registered : Set Nat}

/-- The registered sockets are those in the interest list. -/
structure Holds (r : Epoll) (inFlight : List Submission) (registered : Set Nat) : Prop where
  tracks : Tracks r inFlight
  registered : ∀ sock, (r.interests sock).isSome = true ↔ sock ∈ registered

/-- A completion of a ready operation is its own. -/
theorem completes_of_ready {op : OpMemory} {event : RawEvent} {completion : UserResult}
    (h : handleReady op event = some completion) : Completes op event.transferred completion := by
  have htransfer {kind : IoKind} (hkind : op.kind = kind) (hne : kind ≠ .connect)
      (h : handleTransferReady kind op event = some completion) :
      Completes op event.transferred completion := by
    rw [handleTransferReady] at h
    cases htransferred : event.transferred with
    | wouldBlock => simp [htransferred] at h
    | failed errno =>
        rw [htransferred] at h
        cases h
        exact completes_empty hkind _ _
    | bytes n =>
        rw [htransferred] at h
        cases h
        exact completes_bytes hkind hne n
  rw [handleReady] at h
  cases hkind : op.kind with
  | connect =>
      rw [hkind] at h
      cases h
      exact completes_empty hkind _ _
  | read =>
      rw [hkind] at h
      exact htransfer hkind (by simp) h
  | write =>
      rw [hkind] at h
      exact htransfer hkind (by simp) h

theorem disarm_counts (sock : Nat) : (r.disarm sock).counts = r.counts := by
  rw [disarm, ctlMod]
  split <;> rfl

theorem disarm_isSome (sock other : Nat) :
    ((r.disarm sock).interests other).isSome = (r.interests other).isSome := by
  by_cases heq : other = sock
  · rw [heq, disarm_interests_self, Option.isSome_map]
  · rw [disarm_interests_ne heq]

/-- What a poll leaves alone, and where its completions come from. -/
theorem pollLoop_ok {batch : List (Option Nat × RawEvent)} {filled : List (Nat × UserResult)}
    (h : r.pollLoop batch = .ok (r', filled)) :
    r'.counts = r.counts ∧ r'.ops = r.ops ∧ filled.length ≤ batch.length
      ∧ (∀ sock, (r'.interests sock).isSome = (r.interests sock).isSome)
      ∧ ∀ entry ∈ filled, ∃ event, (some entry.1, event) ∈ batch
        ∧ handleReady (r.ops entry.1) event = some entry.2 := by
  induction batch generalizing r filled with
  | nil =>
      cases h
      exact ⟨rfl, rfl, Nat.le_refl _, fun _ => rfl, by simp⟩
  | cons entry rest ih =>
      obtain ⟨ptr, event⟩ := entry
      cases ptr with
      | none => cases h
      | some op =>
          rw [pollLoop] at h
          cases hready : handleReady (r.ops op) event with
          | none =>
              simp only [hready] at h
              obtain ⟨hcounts, hops, hlength, hsome, hfilled⟩ := ih h
              refine ⟨hcounts, hops, Nat.le_succ_of_le hlength, hsome, ?_⟩
              intro entry hentry
              obtain ⟨event', hin, hready'⟩ := hfilled entry hentry
              exact ⟨event', List.mem_cons_of_mem _ hin, hready'⟩
          | some completion =>
              simp only [hready] at h
              obtain ⟨⟨r'', filled'⟩, hloop, h⟩ := bind_eq_ok.1 h
              cases h
              obtain ⟨hcounts, hops, hlength, hsome, hfilled⟩ := ih hloop
              rw [disarm_ops] at hops hfilled
              refine ⟨hcounts.trans (disarm_counts _), hops, Nat.succ_le_succ hlength, ?_, ?_⟩
              · intro sock
                rw [hsome, disarm_isSome]
              · intro entry hentry
                rcases List.mem_cons.1 hentry with rfl | hentry
                · exact ⟨event, List.mem_cons_self, hready⟩
                · obtain ⟨event', hin, hready'⟩ := hfilled entry hentry
                  exact ⟨event', List.mem_cons_of_mem _ hin, hready'⟩

theorem Holds.connect (h : Holds r inFlight registered) {op sock : Nat} (userData : Nat)
    (syscalls : ConnectSyscalls) (hfree : ∀ sub ∈ inFlight, sub.op ≠ op ∧ sub.sock ≠ sock)
    (hnew : sock ∉ registered) :
    ((r.submitConnect op sock userData syscalls).1.counts,
        (r.submitConnect op sock userData syscalls).2) = r.counts.submitConnect syscalls
      ∧ Backend.epoll.Leaves Holds r inFlight
        (if (r.submitConnect op sock userData syscalls).2 = .ok then insert sock registered
          else registered)
        ⟨op, sock, .connect, userData⟩ ⟨sock, none, 0, .connect, userData⟩
        (r.submitConnect op sock userData syscalls) := by
  have hnone : r.interests sock = none := by
    rw [← Option.not_isSome_iff_eq_none, h.registered]
    exact hnew
  have hop : ∀ sub ∈ inFlight, sub.op ≠ op := fun sub hsub => (hfree sub hsub).1
  have hstored := h.tracks.store hop ⟨sock, none, 0, .connect, userData⟩
  constructor
  · rw [submitConnect_counts, hnone]
    simp
  rcases r.submitConnect_cases op sock userData syscalls with
    ⟨r', hr', err, herr, heq⟩ | ⟨-, heq⟩
  · rw [heq, if_neg herr]
    refine ⟨?_, ?_, fun hok => absurd hok herr⟩
    · rw [if_neg herr]
      rcases hr' with rfl | rfl
      · exact h
      · exact ⟨hstored, h.registered⟩
    · intro other hne
      rcases hr' with rfl | rfl
      · rfl
      · exact store_ops_ne _ hne
  · rw [heq, if_pos rfl]
    refine ⟨?_, fun other hne => store_ops_ne _ hne, fun _ => store_ops_self _ _⟩
    rw [if_pos rfl]
    refine ⟨hstored.arm ⟨op, sock, .connect, userData⟩ hop
        (fun sub hsub => (hfree sub hsub).2) ?_ _,
      ?_⟩
    · simp
    · intro other
      by_cases heq : other = sock
      · simp [heq]
      · rw [arm_interests_ne _ _ heq, store_interests, h.registered, Set.mem_insert_iff]
        simp [heq]

theorem Holds.transfer (h : Holds r inFlight registered) {op sock : Nat} (buf bufLen userData : Nat)
    (kind : IoKind) (resources : Bool)
    (hfree : ∀ sub ∈ inFlight, sub.op ≠ op ∧ sub.sock ≠ sock) (hsock : sock ∈ registered) :
    ∃ r', r.submitRw op sock (some buf) bufLen userData kind kind.mask resources
        = (r', if resources then .ok else .registerFailed)
      ∧ r'.counts = r.counts
      ∧ Backend.epoll.Leaves Holds r inFlight registered ⟨op, sock, kind, userData⟩
        ⟨sock, some buf, bufLen, kind, userData⟩
        (r', if resources then .ok else .registerFailed) := by
  have hsome : (r.interests sock).isNone = false := by
    rw [Option.isNone_eq_false_iff, h.registered]
    exact hsock
  have hop : ∀ sub ∈ inFlight, sub.op ≠ op := fun sub hsub => (hfree sub hsub).1
  have hstored := h.tracks.store hop ⟨sock, some buf, bufLen, kind, userData⟩
  cases resources with
  | false =>
      refine ⟨r.store op ⟨sock, some buf, bufLen, kind, userData⟩, ?_, rfl, ?_, ?_, ?_⟩
      · simp [submitRw, ctlMod, hsome]
      · exact ⟨hstored, h.registered⟩
      · exact fun other hne => store_ops_ne _ hne
      · intro hok
        cases hok
  | true =>
      refine ⟨(r.store op ⟨sock, some buf, bufLen, kind, userData⟩).arm sock ⟨kind.mask, some op⟩
        r.liveCount, ?_, rfl, ⟨?_, ?_⟩, ?_, ?_⟩
      · simp only [submitRw, ctlMod, store_interests, hsome, Bool.false_eq_true, if_false, if_true]
        rfl
      · exact hstored.arm ⟨op, sock, kind, userData⟩ hop (fun sub hsub => (hfree sub hsub).2)
          (by simp) _
      · intro other
        by_cases heq : other = sock
        · simp [heq, hsock]
        · rw [arm_interests_ne _ _ heq]
          exact h.registered other
      · exact fun other hne => store_ops_ne _ hne
      · exact fun _ => store_ops_self _ _

theorem Holds.poll (h : Holds r inFlight registered) {events : List RawEvent} (maxOut : Nat)
    (hbusy : ∀ sock ∈ registered, sock ∈ inFlight.map Submission.sock)
    (hreports : Backend.epoll.Reports r events) :
    ∃ r' users rest, Backend.epoll.poll r events maxOut = .ok (r', users)
      ∧ users.length ≤ maxOut ∧ Holds r' rest registered
      ∧ Answers UserResult.Fits users inFlight rest
      ∧ Backend.epoll.counts r' = Backend.epoll.counts r ∧ r'.ops = r.ops
      ∧ ∀ user ∈ users, Backend.epoll.Owed r inFlight user := by
  obtain ⟨-, hsocks, hreports⟩ := hreports
  have harmed : ∀ event ∈ events, ∃ sub ∈ inFlight, sub.sock = event.sock
      ∧ (r.interests event.sock).bind Interest.ptr = some sub.op := by
    intro event hevent
    obtain ⟨⟨interest, hinterest, -⟩, -⟩ := hreports event hevent
    have hregistered : event.sock ∈ registered := by
      rw [← h.registered, hinterest]
      rfl
    obtain ⟨sub, hsub, hsock⟩ := List.mem_map.1 (hbusy _ hregistered)
    refine ⟨sub, hsub, hsock, ?_⟩
    rw [← hsock, h.tracks.armed sub hsub]
    rfl
  have hheld : ∀ event ∈ events.take maxOut, event.sock ∈ inFlight.map Submission.sock := by
    intro event hevent
    obtain ⟨sub, hsub, hsock, -⟩ := harmed event (List.mem_of_mem_take hevent)
    rw [← hsock]
    exact List.mem_map_of_mem hsub
  obtain ⟨r', filled, hpoll, htracks, hanswers⟩ := h.tracks.poll hsocks hheld
  rw [poll_eq] at hpoll
  obtain ⟨hcounts, hops, hlength, hsome, hfilled⟩ := pollLoop_ok hpoll
  refine ⟨r', filled.map Prod.snd, leftInFlight inFlight filled, ?_, ?_, ⟨htracks, ?_⟩, hanswers,
    hcounts, hops, ?_⟩
  · change ((r.poll events maxOut).mapError ProcessEnd.assertion).map _ = _
    rw [poll_eq, hpoll]
    rfl
  · rw [List.length_map]
    rw [List.length_map] at hlength
    exact Nat.le_trans hlength (List.length_take_le _ _)
  · intro sock
    rw [hsome]
    exact h.registered sock
  · intro user huser
    obtain ⟨⟨op, completion⟩, hentry, rfl⟩ := List.mem_map.1 huser
    obtain ⟨event, hin, hready⟩ := hfilled _ hentry
    obtain ⟨event', hevent, heq⟩ := List.mem_map.1 hin
    obtain ⟨hptr, rfl⟩ := Prod.mk.inj heq
    have hevent := List.mem_of_mem_take hevent
    obtain ⟨sub, hsub, -, hsubptr⟩ := harmed event' hevent
    obtain rfl : sub.op = op := Option.some.inj (hsubptr.symm.trans hptr)
    obtain ⟨-, hkind, huserData⟩ := h.tracks.written sub hsub
    have hcompletes := completes_of_ready hready
    refine ⟨sub, hsub, ⟨?_, ?_⟩, ?_, hcompletes.failed, hcompletes.connect⟩
    · exact hcompletes.userData.trans huserData
    · exact hcompletes.kind.trans hkind
    · exact le_of_within hcompletes.bytes ((hreports event' hevent).2 _ hsubptr)

theorem keeps : Backend.epoll.Keeps Holds where
  named _ _ _ h := h.tracks.ops
  connect r inFlight registered op sock userData syscalls h hfree hnew :=
    h.connect userData syscalls hfree hnew
  read := by
    intro r inFlight registered op sock buf bufLen userData resources h hfree hsock
    obtain ⟨r', heq, hcounts, hleaves⟩ :=
      h.transfer buf bufLen userData .read resources hfree hsock
    exact ⟨r', congrArg Except.ok heq, hcounts, hleaves⟩
  write := by
    intro r inFlight registered op sock buf bufLen userData resources h hfree hsock
    obtain ⟨r', heq, hcounts, hleaves⟩ :=
      h.transfer buf bufLen userData .write resources hfree hsock
    exact ⟨r', congrArg Except.ok heq, hcounts, hleaves⟩
  poll _ _ _ _ maxOut h hbusy hreports _ := h.poll maxOut hbusy hreports
  breaks _ _ _ _ hbreaks := hbreaks.elim
  forget := by
    intro r inFlight registered sock h hlive
    have hpos : r.liveCount ≠ 0 := Nat.ne_of_gt hlive
    refine ⟨{ r.ctlDel sock with liveCount := r.liveCount - 1 }, if_neg hpos, rfl, rfl,
      h.tracks.forget sock _, ?_⟩
    intro other
    by_cases heq : other = sock
    · simp [ctlDel, heq]
    · simp [ctlDel, heq, h.registered other]

end Epoll

/-! ### The kqueue backend -/

namespace Kqueue

variable {k k' : Kqueue} {inFlight : List Submission} {registered : Set Nat}

/-- Filters are added to any open socket: which ones are registered makes no difference. -/
def Holds (k : Kqueue) (inFlight : List Submission) (_ : Set Nat) : Prop := Tracks k inFlight

/-- What the orchestrator's model keeps of a reactor. -/
def counts (k : Kqueue) : Reactor := ⟨k.maxConnections, k.liveCount⟩

theorem disarm_counts (sock : Nat) (kind : IoKind) : (k.disarm sock kind).counts = k.counts := by
  rw [disarm_eq]
  rfl

theorem deleteBoth_counts (sock : Nat) : (k.deleteBoth sock).counts = k.counts := by
  rw [deleteBoth_eq]
  rfl

theorem pollLoop_ok {batch : List (Option Nat × KqueueEvent)} {filled : List (Nat × UserResult)}
    (h : k.pollLoop batch = .ok (k', filled)) :
    k'.counts = k.counts ∧ k'.ops = k.ops ∧ filled.length ≤ batch.length
      ∧ ∀ entry ∈ filled, ∃ event, (some entry.1, event) ∈ batch
        ∧ handleReady (k.ops entry.1) event = .ok (some entry.2) := by
  induction batch generalizing k filled with
  | nil =>
      cases h
      exact ⟨rfl, rfl, Nat.le_refl _, by simp⟩
  | cons entry rest ih =>
      obtain ⟨udata, event⟩ := entry
      cases udata with
      | none => cases h
      | some op =>
          rw [pollLoop] at h
          obtain ⟨answer, hready, h⟩ := bind_eq_ok.1 h
          cases answer with
          | none =>
              obtain ⟨hcounts, hops, hlength, hfilled⟩ := ih h
              refine ⟨hcounts, hops, Nat.le_succ_of_le hlength, ?_⟩
              intro entry hentry
              obtain ⟨event', hin, hready'⟩ := hfilled entry hentry
              exact ⟨event', List.mem_cons_of_mem _ hin, hready'⟩
          | some completion =>
              obtain ⟨⟨k'', filled'⟩, hloop, h⟩ := bind_eq_ok.1 h
              cases h
              obtain ⟨hcounts, hops, hlength, hfilled⟩ := ih hloop
              rw [disarm_ops] at hops hfilled
              refine ⟨hcounts.trans (disarm_counts _ _), hops, Nat.succ_le_succ hlength, ?_⟩
              intro entry hentry
              rcases List.mem_cons.1 hentry with rfl | hentry
              · exact ⟨event, List.mem_cons_self, hready⟩
              · obtain ⟨event', hin, hready'⟩ := hfilled entry hentry
                exact ⟨event', List.mem_cons_of_mem _ hin, hready'⟩

theorem submitConnect_answer (op sock userData : Nat) (syscalls : ConnectSyscalls) :
    ((k.submitConnect op sock userData syscalls).1.counts,
        (k.submitConnect op sock userData syscalls).2) = k.counts.submitConnect syscalls := by
  by_cases hfull : k.maxConnections ≤ k.liveCount
  · have hcounts : k.counts.maxConnections ≤ k.counts.liveCount := hfull
    rw [submitConnect, if_pos hfull, Reactor.submitConnect, if_pos hcounts]
  have hcounts : ¬ k.counts.maxConnections ≤ k.counts.liveCount := hfull
  rw [submitConnect, if_neg hfull, Reactor.submitConnect, if_neg hcounts]
  obtain ⟨madeNonblocking, added⟩ := syscalls
  cases madeNonblocking <;> cases added <;> rfl

theorem submitConnect_frame (k : Kqueue) (op sock userData : Nat) (syscalls : ConnectSyscalls) :
    (∀ other, other ≠ op → (k.submitConnect op sock userData syscalls).1.ops other = k.ops other)
      ∧ ((k.submitConnect op sock userData syscalls).2 = .ok →
        (k.submitConnect op sock userData syscalls).1.ops op
          = ⟨sock, none, 0, .connect, userData⟩) := by
  rw [submitConnect]
  split
  · exact ⟨fun _ _ => rfl, by simp⟩
  split
  · exact ⟨fun _ _ => rfl, by simp⟩
  cases hadded : syscalls.added with
  | false => exact ⟨fun other hne => store_ops_ne _ hne, by simp [evAdd]⟩
  | true => exact ⟨fun other hne => store_ops_ne _ hne, fun _ => store_ops_self _ _⟩

theorem Tracks.connect (h : Tracks k inFlight) {op sock : Nat} (userData : Nat)
    (syscalls : ConnectSyscalls) (hfree : ∀ sub ∈ inFlight, sub.op ≠ op ∧ sub.sock ≠ sock)
    (registered : Set Nat) :
    Backend.kqueue.Leaves Holds k inFlight registered ⟨op, sock, .connect, userData⟩
      ⟨sock, none, 0, .connect, userData⟩ (k.submitConnect op sock userData syscalls) := by
  obtain ⟨hframe, hmemory⟩ := k.submitConnect_frame op sock userData syscalls
  refine ⟨?_, hframe, hmemory⟩
  rcases h.submitConnect userData syscalls hfree with
    ⟨k', err, herr, heq, htracks⟩ | ⟨k', heq, htracks⟩
  · rw [heq, if_neg herr]
    exact htracks
  · rw [heq, if_pos rfl]
    exact htracks

theorem Tracks.transfer (h : Tracks k inFlight) {op sock : Nat} (buf bufLen userData : Nat)
    (kind : IoKind) (resources : Bool) (registered : Set Nat)
    (hfree : ∀ sub ∈ inFlight, sub.op ≠ op ∧ sub.sock ≠ sock) :
    ∃ k', k.submitRw op sock (some buf) bufLen userData kind kind.filter resources
        = (k', if resources then .ok else .registerFailed)
      ∧ k'.counts = k.counts
      ∧ Backend.kqueue.Leaves Holds k inFlight registered ⟨op, sock, kind, userData⟩
        ⟨sock, some buf, bufLen, kind, userData⟩
        (k', if resources then .ok else .registerFailed) := by
  have hdeleted : ((k.store op ⟨sock, some buf, bufLen, kind, userData⟩).deleteBoth sock).counts
      = k.counts := deleteBoth_counts _
  have hops : ((k.store op ⟨sock, some buf, bufLen, kind, userData⟩).deleteBoth sock).ops
      = (k.store op ⟨sock, some buf, bufLen, kind, userData⟩).ops := deleteBoth_ops _
  rcases h.submitRw (some buf) bufLen userData kind resources hfree with
    ⟨k', heq, rfl, htracks⟩ | ⟨k', heq, rfl, htracks⟩
  · refine ⟨k', heq, ?_, htracks, ?_, by simp⟩
    · cases heq
      exact hdeleted
    · intro other hne
      cases heq
      exact (congrFun hops other).trans (store_ops_ne _ hne)
  · refine ⟨k', heq, ?_, htracks, ?_, ?_⟩
    · cases heq
      exact hdeleted
    · intro other hne
      cases heq
      exact (congrFun hops other).trans (store_ops_ne _ hne)
    · intro _
      cases heq
      exact (congrFun hops op).trans (store_ops_self _ _)

theorem Tracks.polled (h : Tracks k inFlight) {events : List KqueueEvent} {maxOut : Nat}
    (hreports : Backend.kqueue.Reports k events) (hwhole : ¬ k.Breaks events maxOut) :
    ∃ k' users rest, Backend.kqueue.poll k events maxOut = .ok (k', users)
      ∧ users.length ≤ maxOut ∧ Tracks k' rest ∧ Answers UserResult.Fits users inFlight rest
      ∧ Backend.kqueue.counts k' = Backend.kqueue.counts k ∧ k'.ops = k.ops
      ∧ ∀ user ∈ users, Backend.kqueue.Owed k inFlight user := by
  obtain ⟨hreports, hwithin⟩ := hreports
  obtain ⟨-, harmed⟩ := h.reports hreports
  obtain ⟨k', filled, hpoll, htracks, hanswers⟩ := h.poll hreports hwhole
  have hloop := hpoll
  rw [Kqueue.poll, ← List.map_take, Epoll.take_limit] at hloop
  obtain ⟨hcounts, hops, hlength, hfilled⟩ := pollLoop_ok hloop
  refine ⟨k', filled.map Prod.snd, Epoll.leftInFlight inFlight filled, ?_, ?_, htracks, hanswers,
    hcounts, hops, ?_⟩
  · change (k.poll events maxOut).map (Prod.map id (List.map Prod.snd)) = _
    rw [hpoll]
    rfl
  · rw [List.length_map]
    rw [List.length_map] at hlength
    exact Nat.le_trans hlength (List.length_take_le _ _)
  · intro user huser
    obtain ⟨⟨op, completion⟩, hentry, rfl⟩ := List.mem_map.1 huser
    obtain ⟨event, hin, hready⟩ := hfilled _ hentry
    obtain ⟨event', hevent, heq⟩ := List.mem_map.1 hin
    obtain ⟨hudata, rfl⟩ := Prod.mk.inj heq
    have htaken := hevent
    have hevent := List.mem_of_mem_take hevent
    obtain ⟨sub, hsub, -, hsubop⟩ := harmed event' hevent
    obtain rfl : sub.op = op := Option.some.inj (hsubop.symm.trans hudata)
    obtain ⟨-, hkind, huserData⟩ := h.written sub hsub
    have hcompletes : Completes (k.ops sub.op) event'.transferred completion := by
      obtain ⟨answer, hready', hcompletes⟩ :=
        handleReady_of_whole fun hbroken => hwhole ⟨event', htaken, _, hsubop, hbroken⟩
      obtain rfl := Except.ok.inj (hready'.symm.trans hready)
      exact hcompletes completion rfl
    refine ⟨sub, hsub, ⟨?_, ?_⟩, ?_, hcompletes.failed, hcompletes.connect⟩
    · exact hcompletes.userData.trans huserData
    · exact hcompletes.kind.trans hkind
    · exact le_of_within hcompletes.bytes ((hwithin event' hevent).2 _ hsubop)

theorem keeps : Backend.kqueue.Keeps Holds where
  named _ _ _ h := h.ops
  connect k _ _ op sock userData syscalls h hfree _ :=
    ⟨k.submitConnect_answer op sock userData syscalls, h.connect userData syscalls hfree _⟩
  read := by
    intro k inFlight registered op sock buf bufLen userData resources h hfree _
    obtain ⟨k', heq, hcounts, hleaves⟩ :=
      h.transfer buf bufLen userData .read resources registered hfree
    exact ⟨k', congrArg Except.ok heq, hcounts, hleaves⟩
  write := by
    intro k inFlight registered op sock buf bufLen userData resources h hfree _
    obtain ⟨k', heq, hcounts, hleaves⟩ :=
      h.transfer buf bufLen userData .write resources registered hfree
    exact ⟨k', congrArg Except.ok heq, hcounts, hleaves⟩
  poll _ _ _ _ _ h _ hreports hwhole := h.polled hreports hwhole
  breaks k events maxOut hreports hbreaks := by
    change (k.poll events maxOut).map _ = _
    rw [poll_of_breaks hreports.1 hbreaks]
    rfl
  forget := by
    intro k inFlight registered sock h hlive
    have hpos : k.liveCount ≠ 0 := Nat.ne_of_gt hlive
    refine ⟨{ k.deleteBoth sock with liveCount := k.liveCount - 1 }, if_neg hpos, ?_,
      k.deleteBoth_ops sock, h.forget sock _⟩
    have hcounts := k.deleteBoth_counts sock
    exact congrArg (fun counts : Reactor => { counts with liveCount := k.liveCount - 1 }) hcounts

end Kqueue

end SmtpClient
