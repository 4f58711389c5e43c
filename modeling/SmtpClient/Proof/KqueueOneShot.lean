import SmtpClient.KqueueSession
import SmtpClient.Proof.Backends

/-!
# The kqueue reactor is one-shot

The filters mirror what is in flight: an operation in flight is armed on the filter of its kind, and
no other filter is there. So whatever `kevent` reports belongs to an operation in flight, its
pointer is never NULL, and what a poll leaves unprocessed is still armed behind it.
-/

namespace SmtpClient

/-- A completion of an operation is its own: its user data, its kind, and no bytes but those its
socket transferred. -/
structure Completes (op : OpMemory) (transferred : Transferred) (completion : UserResult) :
    Prop where
  userData : completion.userData = op.userData
  kind : completion.result.kind = op.kind
  failed : completion.result.result ≠ 0 → completion.result.bytesTransferred = 0
  connect : completion.result.kind = .connect → completion.result.bytesTransferred = 0
  bytes : completion.result.bytesTransferred = 0
    ∨ transferred = .bytes completion.result.bytesTransferred

section Completes

variable {op : OpMemory} {kind : IoKind}

theorem completes_empty (hkind : op.kind = kind) (transferred : Transferred) (result : Int) :
    Completes op transferred ⟨op.userData, kind, result, 0⟩ :=
  ⟨rfl, hkind.symm, fun _ => rfl, fun _ => rfl, .inl rfl⟩

theorem completes_bytes (hkind : op.kind = kind) (hne : kind ≠ .connect) (n : Nat) :
    Completes op (.bytes n) ⟨op.userData, kind, 0, n⟩ :=
  ⟨rfl, hkind.symm, fun hresult => absurd rfl hresult, fun hconnect => absurd hconnect hne,
    .inr rfl⟩

end Completes

namespace Kqueue

variable {k k' : Kqueue} {inFlight : List Submission}

/-! ### The answer to an event -/

section Ready

variable {op : OpMemory} {event : KqueueEvent}

/-- The signal is `send`'s only: where no pipe is broken, a completion is filled in or the socket is
not ready after all. -/
theorem handleReady_of_whole (h : ¬ Broken op event) : ∃ answer, handleReady op event = .ok answer
    ∧ ∀ completion ∈ answer, Completes op event.transferred completion := by
  rw [handleReady]
  cases hkind : op.kind with
  | connect =>
      refine ⟨_, rfl, ?_⟩
      rintro completion ⟨⟩
      exact completes_empty hkind _ _
  | read =>
      refine ⟨_, rfl, ?_⟩
      intro completion hcompletion
      rw [handleReadReady] at hcompletion
      cases htransferred : event.transferred with
      | wouldBlock =>
          rw [htransferred] at hcompletion
          cases hcompletion
      | failed errno =>
          rw [htransferred] at hcompletion
          cases hcompletion
          exact completes_empty hkind _ _
      | bytes n =>
          rw [htransferred] at hcompletion
          cases hcompletion
          exact completes_bytes hkind (by simp) n
  | write =>
      dsimp only
      rw [handleWriteReady]
      cases htransferred : event.transferred with
      | wouldBlock => exact ⟨none, rfl, by simp⟩
      | failed errno =>
          have hspared : ¬ (errno = epipe && !event.noSigpipe) = true := by
            intro hbroken
            rw [Bool.and_eq_true, decide_eq_true_iff, Bool.not_eq_true'] at hbroken
            obtain ⟨rfl, hsignal⟩ := hbroken
            exact h ⟨hkind, htransferred, hsignal⟩
          refine ⟨_, if_neg hspared, ?_⟩
          rintro completion ⟨⟩
          exact completes_empty hkind _ _
      | bytes n =>
          refine ⟨_, rfl, ?_⟩
          rintro completion ⟨⟩
          exact completes_bytes hkind (by simp) n

theorem handleReady_of_broken (h : Broken op event) : handleReady op event = .error .sigpipe := by
  obtain ⟨hkind, htransferred, hsignal⟩ := h
  rw [handleReady, hkind]
  dsimp only
  rw [handleWriteReady, htransferred]
  dsimp only
  rw [hsignal]
  rfl

end Ready

/-! ### What each call does to the filters -/

@[simp] theorem store_ops_self (op : Nat) (memory : OpMemory) :
    (k.store op memory).ops op = memory := by
  simp [store]

theorem store_ops_ne {op op' : Nat} (memory : OpMemory) (h : op' ≠ op) :
    (k.store op memory).ops op' = k.ops op' := by
  simp [store, h]

@[simp] theorem deleteBoth_ops (sock : Nat) : (k.deleteBoth sock).ops = k.ops := by
  rw [deleteBoth_eq]
  rfl

theorem disarm_eq (sock : Nat) (kind : IoKind) :
    k.disarm sock kind = k.setFilter sock kind.filter none := by
  rw [disarm, evDelete_getD]

@[simp] theorem disarm_ops (sock : Nat) (kind : IoKind) : (k.disarm sock kind).ops = k.ops := by
  rw [disarm_eq]
  rfl

/-- Deleting the filters of a socket that has none leaves them all as they were. -/
theorem deleteBoth_filters_of_none {sock : Nat} (h : ∀ filter, k.filters sock filter = none) :
    (k.deleteBoth sock).filters = k.filters := by
  funext other filter
  rw [deleteBoth_filters]
  split
  · rename_i heq
    rw [heq, h filter]
  · rfl

/-! ### The filters mirror what is in flight -/

structure Tracks (k : Kqueue) (inFlight : List Submission) : Prop where
  armed : ∀ sock filter op, k.filters sock filter = some op
    ↔ ∃ sub ∈ inFlight, sub.sock = sock ∧ sub.kind.filter = filter ∧ sub.op = op
  written : ∀ sub ∈ inFlight, (k.ops sub.op).sock = sub.sock ∧ (k.ops sub.op).kind = sub.kind
    ∧ (k.ops sub.op).userData = sub.userData
  socks : (inFlight.map Submission.sock).Nodup
  ops : (inFlight.map Submission.op).Nodup

theorem Tracks.none_of_free (h : Tracks k inFlight) {sock : Nat}
    (hfree : ∀ sub ∈ inFlight, sub.sock ≠ sock) (filter : KqueueFilter) :
    k.filters sock filter = none := by
  rw [Option.eq_none_iff_forall_ne_some]
  intro op harmed
  obtain ⟨sub, hsub, hsock, -, -⟩ := (h.armed sock filter op).1 harmed
  exact hfree sub hsub hsock

theorem Tracks.store (h : Tracks k inFlight) {op : Nat} (hop : ∀ sub ∈ inFlight, sub.op ≠ op)
    (memory : OpMemory) : Tracks (k.store op memory) inFlight where
  armed := h.armed
  written := by
    intro sub hsub
    rw [store_ops_ne memory (hop sub hsub)]
    exact h.written sub hsub
  socks := h.socks
  ops := h.ops

/-- A filter put in place for an operation on a socket that had none. -/
theorem Tracks.arm (h : Tracks k inFlight) (sub : Submission)
    (hop : ∀ other ∈ inFlight, other.op ≠ sub.op)
    (hsock : ∀ other ∈ inFlight, other.sock ≠ sub.sock) (hops : k'.ops = k.ops)
    (hfilters : ∀ sock filter, k'.filters sock filter
      = if sock = sub.sock ∧ filter = sub.kind.filter then some sub.op else k.filters sock filter)
    (hwritten : (k.ops sub.op).sock = sub.sock ∧ (k.ops sub.op).kind = sub.kind
      ∧ (k.ops sub.op).userData = sub.userData) : Tracks k' (sub :: inFlight) where
  armed := by
    intro sock filter op
    rw [hfilters]
    split
    · rename_i heq
      obtain ⟨rfl, rfl⟩ := heq
      constructor
      · rintro ⟨⟩
        exact ⟨sub, List.mem_cons_self, rfl, rfl, rfl⟩
      · rintro ⟨other, hother, hs, -, rfl⟩
        rcases List.mem_cons.1 hother with rfl | hin
        · rfl
        · exact absurd hs (hsock other hin)
    · rename_i hne
      rw [h.armed]
      constructor
      · rintro ⟨other, hin, hother⟩
        exact ⟨other, List.mem_cons_of_mem _ hin, hother⟩
      · rintro ⟨other, hin, hs, hf, ho⟩
        rcases List.mem_cons.1 hin with rfl | hin
        · exact absurd ⟨hs.symm, hf.symm⟩ hne
        · exact ⟨other, hin, hs, hf, ho⟩
  written := by
    intro other hother
    rw [hops]
    rcases List.mem_cons.1 hother with rfl | hin
    · exact hwritten
    · exact h.written other hin
  socks := by
    rw [List.map_cons, List.nodup_cons]
    refine ⟨?_, h.socks⟩
    simp only [List.mem_map, not_exists, not_and]
    exact hsock
  ops := by
    rw [List.map_cons, List.nodup_cons]
    refine ⟨?_, h.ops⟩
    simp only [List.mem_map, not_exists, not_and]
    exact hop

/-- Some operations let go of, each with its filter. -/
theorem Tracks.sublist (h : Tracks k inFlight) {rest : List Submission}
    (hrest : rest.Sublist inFlight) (hops : k'.ops = k.ops)
    (hfilters : ∀ sock filter op, k'.filters sock filter = some op
      ↔ k.filters sock filter = some op ∧ ∃ sub ∈ rest, sub.sock = sock) : Tracks k' rest where
  armed := by
    intro sock filter op
    rw [hfilters, h.armed]
    constructor
    · rintro ⟨⟨sub, hsub, hs, hf, ho⟩, other, hother, hs'⟩
      obtain rfl : other = sub :=
        List.inj_on_of_nodup_map h.socks (hrest.subset hother) hsub (hs'.trans hs.symm)
      exact ⟨other, hother, hs, hf, ho⟩
    · rintro ⟨sub, hsub, hs, hf, ho⟩
      exact ⟨⟨sub, hrest.subset hsub, hs, hf, ho⟩, sub, hsub, hs⟩
  written := by
    intro sub hsub
    rw [hops]
    exact h.written sub (hrest.subset hsub)
  socks := h.socks.sublist (hrest.map _)
  ops := h.ops.sublist (hrest.map _)

theorem Tracks.disarm (h : Tracks k inFlight) {sub : Submission} (hsub : sub ∈ inFlight) :
    Tracks (k.disarm sub.sock sub.kind) (inFlight.erase sub) := by
  rw [disarm_eq]
  refine h.sublist (List.erase_sublist ..) ?_ ?_
  · rfl
  intro sock filter op
  have herase {other : Submission} : other ∈ inFlight.erase sub ↔ other ≠ sub ∧ other ∈ inFlight :=
    (List.Nodup.of_map _ h.socks).mem_erase_iff
  rw [setFilter_filters]
  split
  · rename_i heq
    obtain ⟨rfl, rfl⟩ := heq
    constructor
    · intro hnone
      cases hnone
    · rintro ⟨-, other, hother, hs⟩
      obtain ⟨hne, hin⟩ := herase.1 hother
      exact absurd (List.inj_on_of_nodup_map h.socks hin hsub hs) hne
  · rename_i hne
    constructor
    · intro harmed
      refine ⟨harmed, ?_⟩
      obtain ⟨other, hin, hs, hf, -⟩ := (h.armed sock filter op).1 harmed
      refine ⟨other, herase.2 ⟨?_, hin⟩, hs⟩
      rintro rfl
      exact hne ⟨hs.symm, hf.symm⟩
    · exact And.left

theorem Tracks.forget (h : Tracks k inFlight) (sock n : Nat) :
    Tracks { k.deleteBoth sock with liveCount := n }
      (inFlight.filter fun sub => sub.sock ≠ sock) := by
  refine h.sublist List.filter_sublist ?_ ?_
  · exact k.deleteBoth_ops sock
  intro other filter op
  change (k.deleteBoth sock).filters other filter = some op ↔ _
  rw [deleteBoth_filters]
  split
  · rename_i heq
    subst heq
    constructor
    · intro hnone
      cases hnone
    · rintro ⟨-, sub, hsub, hs⟩
      rw [List.mem_filter, decide_eq_true_iff] at hsub
      exact absurd hs hsub.2
  · rename_i hne
    constructor
    · intro harmed
      refine ⟨harmed, ?_⟩
      obtain ⟨sub, hsub, hs, -, -⟩ := (h.armed other filter op).1 harmed
      refine ⟨sub, ?_, hs⟩
      rw [List.mem_filter, decide_eq_true_iff, hs]
      exact ⟨hsub, hne⟩
    · exact And.left

/-! ### Submissions -/

theorem Tracks.submitConnect (h : Tracks k inFlight) {op sock : Nat} (userData : Nat)
    (syscalls : ConnectSyscalls) (hfree : ∀ sub ∈ inFlight, sub.op ≠ op ∧ sub.sock ≠ sock) :
    (∃ k' err, err ≠ .ok ∧ k.submitConnect op sock userData syscalls = (k', err)
        ∧ Tracks k' inFlight)
      ∨ ∃ k', k.submitConnect op sock userData syscalls = (k', .ok)
        ∧ Tracks k' (⟨op, sock, .connect, userData⟩ :: inFlight) := by
  have hop : ∀ sub ∈ inFlight, sub.op ≠ op := fun sub hsub => (hfree sub hsub).1
  have hsock : ∀ sub ∈ inFlight, sub.sock ≠ sock := fun sub hsub => (hfree sub hsub).2
  have hstored := h.store hop ⟨sock, none, 0, .connect, userData⟩
  rw [Kqueue.submitConnect]
  split
  · exact .inl ⟨k, .atCapacity, by simp, rfl, h⟩
  split
  · exact .inl ⟨k, .invalidArg, by simp, rfl, h⟩
  cases hadded : syscalls.added with
  | false => exact .inl ⟨_, .registerFailed, by simp, rfl, hstored⟩
  | true =>
      refine .inr ⟨_, rfl, ?_⟩
      refine hstored.arm ⟨op, sock, .connect, userData⟩ hop hsock ?_ ?_ ?_
      · rfl
      · intro other filter
        exact setFilter_filters _ sock other .evfiltWrite filter (some op)
      · simp

theorem Tracks.submitRw (h : Tracks k inFlight) {op sock : Nat} (buf : Option Nat)
    (bufLen userData : Nat) (kind : IoKind) (added : Bool)
    (hfree : ∀ sub ∈ inFlight, sub.op ≠ op ∧ sub.sock ≠ sock) :
    (∃ k', k.submitRw op sock buf bufLen userData kind kind.filter added = (k', .registerFailed)
        ∧ added = false ∧ Tracks k' inFlight)
      ∨ ∃ k', k.submitRw op sock buf bufLen userData kind kind.filter added = (k', .ok)
        ∧ added = true ∧ Tracks k' (⟨op, sock, kind, userData⟩ :: inFlight) := by
  have hop : ∀ sub ∈ inFlight, sub.op ≠ op := fun sub hsub => (hfree sub hsub).1
  have hsock : ∀ sub ∈ inFlight, sub.sock ≠ sock := fun sub hsub => (hfree sub hsub).2
  have hstored := h.store hop ⟨sock, buf, bufLen, kind, userData⟩
  have hsame := deleteBoth_filters_of_none (hstored.none_of_free hsock)
  have hdeleted : Tracks ((k.store op ⟨sock, buf, bufLen, kind, userData⟩).deleteBoth sock)
      inFlight := by
    apply hstored.sublist (List.Sublist.refl _) (deleteBoth_ops sock)
    intro other filter op'
    rw [hsame, iff_self_and]
    intro harmed
    obtain ⟨sub, hsub, hs, -, -⟩ := (hstored.armed other filter op').1 harmed
    exact ⟨sub, hsub, hs⟩
  cases added with
  | false => exact .inl ⟨_, rfl, rfl, hdeleted⟩
  | true =>
      refine .inr ⟨_, rfl, rfl, ?_⟩
      refine hdeleted.arm ⟨op, sock, kind, userData⟩ hop hsock ?_ ?_ ?_
      · rfl
      · intro other filter
        exact setFilter_filters _ sock other kind.filter filter (some op)
      · simp

/-! ### What is ready -/

/-- The loop over events that all belong to operations in flight answers some of these. -/
theorem Tracks.pollLoop (h : Tracks k inFlight) {batch : List (Option Nat × KqueueEvent)}
    (hsocks : (batch.map fun entry => entry.2.sock).Nodup)
    (hbatch : ∀ entry ∈ batch, ∃ sub ∈ inFlight, sub.sock = entry.2.sock ∧ entry.1 = some sub.op)
    (hwhole : ∀ entry ∈ batch, ∀ op ∈ entry.1, ¬ Broken (k.ops op) entry.2) :
    ∃ k' filled, k.pollLoop batch = .ok (k', filled)
      ∧ Tracks k' (Epoll.leftInFlight inFlight filled)
      ∧ Answers UserResult.Fits (filled.map Prod.snd) inFlight
          (Epoll.leftInFlight inFlight filled) := by
  induction batch generalizing k inFlight with
  | nil => exact ⟨k, [], rfl, h, .nil _⟩
  | cons entry rest ih =>
      obtain ⟨udata, event⟩ := entry
      obtain ⟨sub, hsub, hsock, hudata⟩ := hbatch _ List.mem_cons_self
      change udata = some sub.op at hudata
      change sub.sock = event.sock at hsock
      subst hudata
      rw [List.map_cons, List.nodup_cons] at hsocks
      have hrest : ∀ entry ∈ rest, ∃ sub ∈ inFlight, sub.sock = entry.2.sock
          ∧ entry.1 = some sub.op :=
        fun entry hentry => hbatch entry (List.mem_cons_of_mem _ hentry)
      have hwhole' : ∀ entry ∈ rest, ∀ op ∈ entry.1, ¬ Broken (k.ops op) entry.2 :=
        fun entry hentry => hwhole entry (List.mem_cons_of_mem _ hentry)
      obtain ⟨hown, hkind, huser⟩ := h.written sub hsub
      obtain ⟨answer, hready, hcompletes⟩ :=
        handleReady_of_whole (hwhole _ List.mem_cons_self sub.op rfl)
      rw [Kqueue.pollLoop]
      dsimp only
      rw [hready]
      cases answer with
      | none => exact ih h hsocks.2 hrest hwhole'
      | some completion =>
          have herase : (inFlight.filter fun other => other.op ≠ sub.op) = inFlight.erase sub :=
            filter_label_eq_erase h.ops hsub
          have hother : ∀ entry ∈ rest, ∃ other ∈ inFlight.erase sub, other.sock = entry.2.sock
              ∧ entry.1 = some other.op := by
            intro entry hentry
            obtain ⟨other, hin, hs, hp⟩ := hrest entry hentry
            refine ⟨other, ?_, hs, hp⟩
            rw [List.mem_erase_of_ne]
            · exact hin
            · rintro rfl
              apply hsocks.1
              rw [← hsock, hs]
              exact List.mem_map_of_mem (f := fun entry => entry.2.sock) hentry
          rw [← disarm_ops (k := k) sub.sock sub.kind] at hwhole'
          obtain ⟨k', filled, hloop, htracks, hanswers⟩ :=
            ih (h.disarm hsub) hsocks.2 hother hwhole'
          rw [← herase] at htracks hanswers
          refine ⟨k', (sub.op, completion) :: filled, ?_, htracks, ?_⟩
          · change (k.disarm (k.ops sub.op).sock (k.ops sub.op).kind).pollLoop rest >>= _ = _
            rw [hown, hkind, hloop]
            rfl
          · obtain ⟨huserData, hfits, -⟩ := hcompletes completion rfl
            apply Answers.cons sub hsub ⟨huserData.trans huser, hfits.trans hkind⟩
            rw [← herase]
            exact hanswers

/-- A broken pipe is the end of the loop, whatever comes before it. -/
theorem pollLoop_of_broken {batch : List (Option Nat × KqueueEvent)}
    (hthere : ∀ entry ∈ batch, entry.1.isSome = true)
    (hbroken : ∃ entry ∈ batch, ∃ op ∈ entry.1, Broken (k.ops op) entry.2) :
    k.pollLoop batch = .error .sigpipe := by
  induction batch generalizing k with
  | nil =>
      obtain ⟨entry, hentry, -⟩ := hbroken
      cases hentry
  | cons entry rest ih =>
      obtain ⟨udata, event⟩ := entry
      obtain ⟨op, rfl⟩ := Option.isSome_iff_exists.1 (hthere _ List.mem_cons_self)
      have hthere' : ∀ entry ∈ rest, entry.1.isSome = true :=
        fun entry hentry => hthere entry (List.mem_cons_of_mem _ hentry)
      rw [Kqueue.pollLoop]
      dsimp only
      by_cases hfirst : Broken (k.ops op) event
      · rw [handleReady_of_broken hfirst]
        rfl
      have hlater : ∃ entry ∈ rest, ∃ op ∈ entry.1, Broken (k.ops op) entry.2 := by
        obtain ⟨entry, hentry, op', hop, hbreaks⟩ := hbroken
        rcases List.mem_cons.1 hentry with rfl | hentry
        · obtain rfl := Option.some.inj hop
          exact absurd hbreaks hfirst
        · exact ⟨entry, hentry, op', hop, hbreaks⟩
      obtain ⟨answer, hready, -⟩ := handleReady_of_whole hfirst
      rw [hready]
      cases answer with
      | none => exact ih hthere' hlater
      | some completion =>
          rw [← disarm_ops (k := k) (k.ops op).sock (k.ops op).kind] at hlater
          change (k.disarm (k.ops op).sock (k.ops op).kind).pollLoop rest >>= _ = _
          rw [ih hthere' hlater]
          rfl

/-- What `kevent` reports is about different sockets, all with an operation in flight. -/
theorem Tracks.reports (h : Tracks k inFlight) {rawEvents : List KqueueEvent}
    (hreports : k.Reports rawEvents) : (rawEvents.map KqueueEvent.sock).Nodup
      ∧ ∀ event ∈ rawEvents, ∃ sub ∈ inFlight, sub.sock = event.sock
        ∧ k.filters event.sock event.filter = some sub.op := by
  have harmed : ∀ event ∈ rawEvents, ∃ sub ∈ inFlight, sub.sock = event.sock
      ∧ sub.kind.filter = event.filter ∧ k.filters event.sock event.filter = some sub.op := by
    intro event hevent
    obtain ⟨op, hop⟩ := Option.isSome_iff_exists.1 (hreports.there event hevent)
    obtain ⟨sub, hsub, hsock, hfilter, rfl⟩ := (h.armed _ _ _).1 hop
    exact ⟨sub, hsub, hsock, hfilter, hop⟩
  constructor
  · refine List.pairwise_map.2 ((List.pairwise_map.1 hreports.once).imp_of_mem ?_)
    intro event event' hevent hevent' hne hsock
    obtain ⟨sub, hsub, hs, hf, -⟩ := harmed event hevent
    obtain ⟨sub', hsub', hs', hf', -⟩ := harmed event' hevent'
    have hsame : sub = sub' :=
      List.inj_on_of_nodup_map h.socks hsub hsub' (hs.trans (hsock.trans hs'.symm))
    apply hne
    rw [hsock, ← hf, ← hf', hsame]
  · intro event hevent
    obtain ⟨sub, hsub, hsock, -, hop⟩ := harmed event hevent
    exact ⟨sub, hsub, hsock, hop⟩

/-- A poll answers some of what is in flight, or comes upon a broken pipe. -/
theorem Tracks.poll (h : Tracks k inFlight) {rawEvents : List KqueueEvent} {maxOut : Nat}
    (hreports : k.Reports rawEvents) (hwhole : ¬ k.Breaks rawEvents maxOut) :
    ∃ k' filled, k.poll rawEvents maxOut = .ok (k', filled)
      ∧ Tracks k' (Epoll.leftInFlight inFlight filled)
      ∧ Answers UserResult.Fits (filled.map Prod.snd) inFlight
          (Epoll.leftInFlight inFlight filled) := by
  obtain ⟨hsocks, harmed⟩ := h.reports hreports
  rw [Kqueue.poll, ← List.map_take, Epoll.take_limit]
  apply h.pollLoop
  · rw [List.map_map]
    exact hsocks.sublist ((List.take_sublist ..).map KqueueEvent.sock)
  · intro entry hentry
    obtain ⟨event, hevent, rfl⟩ := List.mem_map.1 hentry
    exact harmed event (List.mem_of_mem_take hevent)
  · intro entry hentry op hop hbroken
    obtain ⟨event, hevent, rfl⟩ := List.mem_map.1 hentry
    exact hwhole ⟨event, hevent, op, hop, hbroken⟩

theorem poll_of_breaks {rawEvents : List KqueueEvent} {maxOut : Nat}
    (hreports : k.Reports rawEvents) (hbreaks : k.Breaks rawEvents maxOut) :
    k.poll rawEvents maxOut = .error .sigpipe := by
  rw [Kqueue.poll, ← List.map_take, Epoll.take_limit]
  apply pollLoop_of_broken
  · intro entry hentry
    obtain ⟨event, hevent, rfl⟩ := List.mem_map.1 hentry
    exact hreports.there event (List.mem_of_mem_take hevent)
  · obtain ⟨event, hevent, op, hop, hbroken⟩ := hbreaks
    exact ⟨_, List.mem_map_of_mem hevent, op, hop, hbroken⟩

end Kqueue

namespace KqueueSession

variable {s s' : KqueueSession}

structure Kept (s : KqueueSession) : Prop where
  tracks : s.reactor.Tracks s.inFlight
  served : Served UserResult.Fits Submission.sock s.history s.inFlight

theorem kept_fresh (h : Fresh s) : Kept s := by
  obtain ⟨maxConnections, answers, ops, hcreate, hinFlight, hhistory⟩ := h
  have hreactor := Kqueue.create_eq hcreate
  constructor
  · rw [hreactor, hinFlight]
    exact ⟨by simp, by simp, by simp, by simp⟩
  · rw [hhistory, hinFlight]
    exact .nil

theorem Kept.refused (h : Kept s) {submission : Submission} {k : Kqueue} {err : ReactorErr}
    (hk : k.Tracks s.inFlight) (herr : err ≠ .ok) : Kept (s.submitted submission (k, err)) := by
  rw [submitted, if_neg herr]
  exact ⟨hk, .refused h.served⟩

theorem Kept.accepted (h : Kept s) {submission : Submission} {k : Kqueue}
    (hk : k.Tracks (submission :: s.inFlight)) : Kept (s.submitted submission (k, .ok)) := by
  rw [submitted, if_pos rfl]
  exact ⟨hk, .accepted h.served submission⟩

theorem Kept.submitRw (h : Kept s) {op sock : Nat} (buf : Option Nat) (bufLen userData : Nat)
    (kind : IoKind) (added : Bool) (hfree : ∀ sub ∈ s.inFlight, sub.op ≠ op ∧ sub.sock ≠ sock) :
    Kept (s.submitted ⟨op, sock, kind, userData⟩
      (s.reactor.submitRw op sock buf bufLen userData kind kind.filter added)) := by
  rcases h.tracks.submitRw buf bufLen userData kind added hfree with
    ⟨k, heq, -, htracks⟩ | ⟨k, heq, -, htracks⟩
  · rw [heq]
    exact h.refused htracks (by simp)
  · rw [heq]
    exact h.accepted htracks

theorem step_poll (rawEvents : List KqueueEvent) (maxOut : Nat) :
    machine.step s (.poll rawEvents maxOut)
      = (s.reactor.poll rawEvents maxOut).map fun answer =>
          ⟨answer.1, Epoll.leftInFlight s.inFlight answer.2,
            s.history ++ [.reported (answer.2.map Prod.snd)]⟩ := by
  change s.reactor.poll rawEvents maxOut >>= _ = _
  cases s.reactor.poll rawEvents maxOut <;> rfl

/-- A poll of a reactor whose filters mirror what is in flight fails no assertion. -/
theorem Kept.poll (h : Kept s) {rawEvents : List KqueueEvent} {maxOut : Nat}
    (hadm : machine.admissible s (.poll rawEvents maxOut))
    (hwhole : ¬ s.reactor.Breaks rawEvents maxOut) :
    ∃ s', machine.step s (.poll rawEvents maxOut) = .ok s' ∧ Kept s' := by
  obtain ⟨k, filled, hpoll, htracks, hanswers⟩ := h.tracks.poll hadm hwhole
  refine ⟨⟨k, Epoll.leftInFlight s.inFlight filled,
    s.history ++ [.reported (filled.map Prod.snd)]⟩, ?_, htracks, .reported h.served hanswers⟩
  rw [step_poll, hpoll]
  rfl

theorem step_of_breaks {rawEvents : List KqueueEvent} {maxOut : Nat}
    (hadm : machine.admissible s (.poll rawEvents maxOut))
    (hbreaks : s.reactor.Breaks rawEvents maxOut) :
    machine.step s (.poll rawEvents maxOut) = .error .sigpipe := by
  rw [step_poll, Kqueue.poll_of_breaks hadm hbreaks]
  rfl

theorem kept_step {call : KqueueCall} (h : Kept s) (hstep : machine.Steps s call s') :
    Kept s' := by
  obtain ⟨hadm, hstep⟩ := hstep
  cases call with
  | submitConnect op sock userData syscalls =>
      cases hstep
      rcases h.tracks.submitConnect userData syscalls hadm with
        ⟨k, err, herr, heq, htracks⟩ | ⟨k, heq, htracks⟩
      · rw [heq]
        exact h.refused htracks herr
      · rw [heq]
        exact h.accepted htracks
  | submitRead op sock buf bufLen userData added =>
      cases buf with
      | none => cases hstep
      | some buf =>
          cases hstep
          exact h.submitRw (some buf) bufLen userData .read added hadm
  | submitWrite op sock buf bufLen userData added =>
      cases buf with
      | none => cases hstep
      | some buf =>
          cases hstep
          exact h.submitRw (some buf) bufLen userData .write added hadm
  | poll rawEvents maxOut =>
      by_cases hbreaks : s.reactor.Breaks rawEvents maxOut
      · rw [step_of_breaks hadm hbreaks] at hstep
        cases hstep
      · obtain ⟨t, ht, hkept⟩ := h.poll hadm hbreaks
        rw [ht] at hstep
        cases hstep
        exact hkept
  | forget sock =>
      change (s.reactor.forget sock).mapError _ >>= _ = .ok s' at hstep
      rw [Kqueue.forget] at hstep
      split at hstep
      · cases hstep
      · cases hstep
        exact ⟨h.tracks.forget sock _, .forgot h.served sock⟩
  | writeOp op memory =>
      cases hstep
      exact ⟨h.tracks.store hadm memory, h.served⟩

theorem kept_of_reachable (h : Reachable s) : Kept s := by
  obtain ⟨s₀, calls, hfresh, hrun⟩ := h
  apply hrun.invariant (kept_fresh hfresh)
  intro s call s' hkept hstep
  exact kept_step hkept hstep

/-- **One-shot.** Every completion reported answers a submission that was accepted, and neither
completed nor forgotten before; the filters are those of the operations in flight, one each, so that
what a poll leaves unprocessed is reported again; and no poll fails an assertion. What a poll does
not survive is a broken pipe: a write on a socket without `SO_NOSIGPIPE` whose peer is gone. -/
theorem kqueue_one_shot (h : Reachable s) :
    Served UserResult.Fits Submission.sock s.history s.inFlight
      ∧ (∀ sock filter op, s.reactor.filters sock filter = some op
        ↔ ∃ sub ∈ s.inFlight, sub.sock = sock ∧ sub.kind.filter = filter ∧ sub.op = op)
      ∧ ∀ rawEvents maxOut, machine.admissible s (.poll rawEvents maxOut) →
        (¬ s.reactor.Breaks rawEvents maxOut →
          ∃ s', machine.step s (.poll rawEvents maxOut) = .ok s')
        ∧ (s.reactor.Breaks rawEvents maxOut →
          machine.step s (.poll rawEvents maxOut) = .error .sigpipe) := by
  have hkept := kept_of_reachable h
  refine ⟨hkept.served, hkept.tracks.armed, ?_⟩
  intro rawEvents maxOut hadm
  refine ⟨fun hwhole => ?_, step_of_breaks hadm⟩
  obtain ⟨s', hs', -⟩ := hkept.poll hadm hwhole
  exact ⟨s', hs'⟩

/-- Two sockets are ready and there is room for one completion: the other is still armed. The server
behind the first is gone before anything is written to it. -/
theorem kqueue_one_shot_partial :
    ∃ s, Reachable s ∧ s.inFlight = [⟨1, 5, .write, 9⟩, ⟨2, 6, .connect, 8⟩]
      ∧ s.reactor.filters 6 .evfiltWrite = some 2
      ∧ Served UserResult.Fits Submission.sock s.history s.inFlight
      ∧ machine.step s (.poll [⟨5, .evfiltWrite, 0, .failed Kqueue.epipe, false⟩] 1)
        = .error .sigpipe := by
  have hexec : ∃ s, machine.exec
      ⟨⟨2, 0, fun _ _ => none, fun _ => ⟨0, none, 0, .read, 0⟩⟩, [], []⟩
      [.submitConnect 1 5 9 ⟨true, true⟩, .submitConnect 2 6 8 ⟨true, true⟩,
        .poll [⟨5, .evfiltWrite, 0, .wouldBlock, false⟩,
          ⟨6, .evfiltWrite, 0, .wouldBlock, false⟩] 1,
        .submitWrite 1 5 (some 3) 4 9 true] = some s
      ∧ s.inFlight = [⟨1, 5, .write, 9⟩, ⟨2, 6, .connect, 8⟩]
      ∧ (s.reactor.ops 1).kind = .write
      ∧ s.reactor.Reports [⟨5, .evfiltWrite, 0, .failed Kqueue.epipe, false⟩] :=
    ⟨_, rfl, rfl, rfl, by decide⟩
  obtain ⟨s, hexec, hinFlight, hkind, hreports⟩ := hexec
  have hreach : Reachable s :=
    ⟨_, _, ⟨2, ⟨true, true, true⟩, _, rfl, rfl, rfl⟩, Machine.run_of_exec hexec⟩
  obtain ⟨hserved, harmed, hpolls⟩ := kqueue_one_shot hreach
  have hfirst : s.reactor.filters 5 .evfiltWrite = some 1 :=
    (harmed _ _ _).2 ⟨⟨1, 5, .write, 9⟩, by simp [hinFlight], rfl, rfl, rfl⟩
  refine ⟨s, hreach, hinFlight, (harmed _ _ _).2 ⟨⟨2, 6, .connect, 8⟩, by simp [hinFlight], rfl,
    rfl, rfl⟩, hserved, (hpolls _ _ hreports).2 ?_⟩
  exact ⟨_, List.mem_singleton_self _, 1, hfirst, hkind, rfl, rfl⟩

end KqueueSession

end SmtpClient
