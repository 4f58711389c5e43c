import SmtpClient.Kqueue
import SmtpClient.Proof.OneShot
import SmtpClient.Base.Lockstep
import Mathlib.Data.Finset.Erase
import Mathlib.Data.Finset.Insert

/-!
# The two readiness backends agree on orderly use

What a reactor is to accept depends on how many of its slots are taken and on which sockets are
connected: a registry keeps just that. The epoll backend refines it, for its interest list is the
set of connected sockets. The kqueue backend keeps no such set. A filter can be added to any open
socket, so it accepts every transfer and every connect for which there is room, and refines the
registry only where the registry would accept them too.
-/

namespace SmtpClient

/-! ### The registry -/

/-- How many connections there may be, how many there are, and which sockets have been connected and
not been forgotten since. -/
structure Registry where
  capacity : Nat
  live : Nat
  connected : Finset Nat

/-- The sockets connected and not forgotten since, as a caller follows them. -/
def ReactorCall.connects (connected : Finset Nat) : ReactorCall → Status → Finset Nat
  | .submitConnect _ sock _ _, some .ok => insert sock connected
  | .forget sock, _ => connected.erase sock
  | _, _ => connected

/-- The socket of a read or write. -/
def ReactorCall.transfers : ReactorCall → Option Nat
  | .submitRead _ sock _ _ _ | .submitWrite _ sock _ _ _ => some sock
  | .submitConnect .. | .forget _ => none

namespace Registry

def submitConnect (g : Registry) (sock : Nat) (madeNonblocking : Bool) : Registry × ReactorErr :=
  if g.capacity ≤ g.live then (g, .atCapacity)
  else if !madeNonblocking then (g, .invalidArg)
  else if sock ∈ g.connected then (g, .registerFailed)
  else (⟨g.capacity, g.live + 1, insert sock g.connected⟩, .ok)

def submitRw (g : Registry) (sock : Nat) : ReactorErr :=
  if sock ∈ g.connected then .ok else .notRegistered

def call (g : Registry) : ReactorCall → Except EpollAssertion (Registry × Status)
  | .submitConnect _ sock _ madeNonblocking =>
      .ok ((g.submitConnect sock madeNonblocking).1, some (g.submitConnect sock madeNonblocking).2)
  | .submitRead _ sock buf _ _ | .submitWrite _ sock buf _ _ =>
      if buf.isNone then .error .bufNull else .ok (g, some (g.submitRw sock))
  | .forget sock =>
      if g.live = 0 then .error .liveCount
      else .ok (⟨g.capacity, g.live - 1, g.connected.erase sock⟩, none)

/-- A transfer is for a connected socket, and a connect that gets as far as the kernel is for one
that is not. -/
def Admits (g : Registry) : ReactorCall → Prop
  | .submitConnect _ sock _ madeNonblocking =>
      g.live < g.capacity → madeNonblocking = true → sock ∉ g.connected
  | .submitRead _ sock buf _ _ | .submitWrite _ sock buf _ _ =>
      buf.isSome = true → sock ∈ g.connected
  | .forget _ => True

instance (g : Registry) : (call : ReactorCall) → Decidable (g.Admits call)
  | .submitConnect _ sock _ madeNonblocking => inferInstanceAs
      (Decidable (g.live < g.capacity → madeNonblocking = true → sock ∉ g.connected))
  | .submitRead _ sock buf _ _ | .submitWrite _ sock buf _ _ =>
      inferInstanceAs (Decidable (buf.isSome = true → sock ∈ g.connected))
  | .forget _ => inferInstanceAs (Decidable True)

/-- Orderly use, over a sequence of calls. -/
def Orderly : Registry → List ReactorCall → Prop := Guarded call Admits

instance (g : Registry) (calls : List ReactorCall) : Decidable (g.Orderly calls) :=
  inferInstanceAs (Decidable (Guarded call Admits g calls))

/-- What a caller follows is what the registry holds. -/
theorem connects_call {g g' : Registry} {rc : ReactorCall} {status : Status}
    (h : g.call rc = .ok (g', status)) : rc.connects g.connected status = g'.connected := by
  cases rc with
  | submitConnect op sock userData madeNonblocking =>
      cases h
      rw [submitConnect]
      split
      · rfl
      split
      · rfl
      split
      · rfl
      · rfl
  | submitRead op sock buf bufLen userData | submitWrite op sock buf bufLen userData =>
      rw [call] at h
      split at h
      · cases h
      · cases h
        rfl
  | forget sock =>
      rw [call] at h
      split at h
      · cases h
      · cases h
        rfl

end Registry

/-! ### What each backend knows of it -/

/-- The interest list of a reactor is the set of connected sockets. -/
structure Epoll.Refines (e : Epoll) (g : Registry) : Prop where
  capacity : e.maxConnections = g.capacity
  live : e.liveCount = g.live
  registered : ∀ sock, (e.interests sock).isSome = true ↔ sock ∈ g.connected

/-- Filters are left on connected sockets only. -/
structure Kqueue.Refines (k : Kqueue) (g : Registry) : Prop where
  capacity : k.maxConnections = g.capacity
  live : k.liveCount = g.live
  armed : ∀ sock filter, k.filters sock filter ≠ none → sock ∈ g.connected

/-- What the two are to have in common after a call: their counts, and that a transfer on a socket
that is not connected is refused and leaves nothing armed. -/
def Accounted (connected : Finset Nat) (rc : ReactorCall) (status : Status) (e : Epoll)
    (k : Kqueue) : Prop :=
  e.liveCount = k.liveCount ∧ ∀ sock ∈ rc.transfers, sock ∉ connected →
    status = some .notRegistered ∧ e.interests sock = none ∧ ∀ filter, k.filters sock filter = none

/-- Both backends on the same calls, of which a caller follows which sockets are connected. -/
def BackendsAgree : Finset Nat → Epoll → Kqueue → List ReactorCall → Prop :=
  Lockstep Epoll.call Kqueue.call ReactorCall.connects Accounted

theorem meets_answered {σ τ : Type} {R : σ → τ → Prop} {p : σ × ReactorErr} {q : τ × ReactorErr}
    (hR : R p.1 q.1) (herr : p.2 = q.2) :
    Meets (α := EpollAssertion) (fun _ s t => R s t) (.ok (p.1, some p.2)) (.ok (q.1, some q.2)) := by
  rw [herr]
  exact .ok hR

namespace Epoll.Refines

variable {e : Epoll} {g : Registry}

theorem store (h : e.Refines g) (op : Nat) (memory : OpMemory) : (e.store op memory).Refines g where
  capacity := h.capacity
  live := h.live
  registered := h.registered

theorem eq_none_iff (h : e.Refines g) (sock : Nat) :
    e.interests sock = none ↔ sock ∉ g.connected := by
  rw [← h.registered, Option.not_isSome_iff_eq_none]

theorem submitConnect (h : e.Refines g) (op sock userData : Nat) (madeNonblocking : Bool) :
    (e.submitConnect op sock userData ⟨madeNonblocking, true⟩).1.Refines
        (g.submitConnect sock madeNonblocking).1
      ∧ (e.submitConnect op sock userData ⟨madeNonblocking, true⟩).2
        = (g.submitConnect sock madeNonblocking).2 := by
  rw [Epoll.submitConnect, Registry.submitConnect, h.capacity, h.live]
  by_cases hfull : g.capacity ≤ g.live
  · rw [if_pos hfull, if_pos hfull]
    exact ⟨h, rfl⟩
  rw [if_neg hfull, if_neg hfull]
  cases madeNonblocking with
  | false => exact ⟨h, rfl⟩
  | true =>
      have hstored := h.store op ⟨sock, none, 0, .connect, userData⟩
      by_cases hconnected : sock ∈ g.connected
      · have hsome := (h.registered sock).2 hconnected
        simp only [ctlAdd, Epoll.store, hsome, hconnected]
        exact ⟨hstored, rfl⟩
      · have hnone := (h.eq_none_iff sock).2 hconnected
        simp only [ctlAdd, Epoll.store, hnone, hconnected]
        refine ⟨⟨h.capacity, congrArg (· + 1) h.live, fun other => ?_⟩, rfl⟩
        by_cases heq : other = sock
        · simp [heq]
        · simp [heq, h.registered other]

theorem submitRw (h : e.Refines g) (op sock : Nat) (buf : Option Nat) (bufLen userData : Nat)
    (kind : IoKind) (epollEvents : List EpollFlag) :
    (e.submitRw op sock buf bufLen userData kind epollEvents true).1.Refines g
      ∧ (e.submitRw op sock buf bufLen userData kind epollEvents true).2 = g.submitRw sock := by
  have hstored := h.store op ⟨sock, buf, bufLen, kind, userData⟩
  rw [Epoll.submitRw, Registry.submitRw]
  by_cases hconnected : sock ∈ g.connected
  · have hsome := (hstored.registered sock).2 hconnected
    obtain ⟨interest, hinterest⟩ := Option.isSome_iff_exists.1 hsome
    simp only [ctlMod, hinterest, hconnected]
    refine ⟨⟨h.capacity, h.live, fun other => ?_⟩, rfl⟩
    by_cases heq : other = sock
    · simp [heq, hconnected]
    · simpa [heq] using h.registered other
  · have hnone := (hstored.eq_none_iff sock).2 hconnected
    simp only [ctlMod, hnone, hconnected]
    exact ⟨hstored, rfl⟩

/-- Whatever is called, the epoll backend does as the registry does. -/
theorem call (h : e.Refines g) (rc : ReactorCall) :
    Meets (fun _ e' g' => Epoll.Refines e' g') (e.call rc) (g.call rc) := by
  cases rc with
  | submitConnect op sock userData madeNonblocking =>
      have hsubmit := h.submitConnect op sock userData madeNonblocking
      exact meets_answered hsubmit.1 hsubmit.2
  | submitRead op sock buf bufLen userData =>
      cases buf with
      | none => exact Meets.error EpollAssertion.bufNull
      | some buf =>
          have hsubmit := h.submitRw op sock (some buf) bufLen userData .read [.epollIn]
          exact meets_answered (q := (g, g.submitRw sock)) hsubmit.1 hsubmit.2
  | submitWrite op sock buf bufLen userData =>
      cases buf with
      | none => exact Meets.error EpollAssertion.bufNull
      | some buf =>
          have hsubmit := h.submitRw op sock (some buf) bufLen userData .write [.epollOut]
          exact meets_answered (q := (g, g.submitRw sock)) hsubmit.1 hsubmit.2
  | forget sock =>
      rw [Epoll.call, Registry.call, Epoll.forget, h.live]
      by_cases hlive : g.live = 0
      · rw [if_pos hlive, if_pos hlive]
        exact Meets.error EpollAssertion.liveCount
      · rw [if_neg hlive, if_neg hlive]
        refine .ok ⟨h.capacity, rfl, fun other => ?_⟩
        by_cases heq : other = sock
        · simp [ctlDel, heq]
        · simp [ctlDel, heq, h.registered other]

end Epoll.Refines

namespace Kqueue

variable (k : Kqueue)

theorem setFilter_filters (sock other : Nat) (filter filter' : KqueueFilter) (udata : Option Nat) :
    (k.setFilter sock filter udata).filters other filter'
      = if other = sock ∧ filter' = filter then udata else k.filters other filter' := by
  rw [setFilter]
  by_cases hsock : other = sock
  · subst hsock
    by_cases hfilter : filter' = filter
    · simp [hfilter]
    · simp [hfilter]
  · simp [hsock]

/-- A deletion whose result is discarded leaves the filter absent. -/
theorem evDelete_getD (sock : Nat) (filter : KqueueFilter) :
    (k.evDelete sock filter).toOption.getD k = k.setFilter sock filter none := by
  rw [evDelete]
  cases hfilter : k.filters sock filter with
  | some op => rfl
  | none =>
      have hsame : (k.setFilter sock filter none).filters = k.filters := by
        funext other filter'
        rw [setFilter_filters]
        split
        · rename_i heq
          rw [heq.1, heq.2, hfilter]
        · rfl
      change k = { k with filters := (k.setFilter sock filter none).filters }
      rw [hsame]

theorem deleteBoth_eq (sock : Nat) :
    k.deleteBoth sock
      = (k.setFilter sock .evfiltRead none).setFilter sock .evfiltWrite none := by
  rw [deleteBoth, evDelete_getD, evDelete_getD]

theorem deleteBoth_filters (sock other : Nat) (filter : KqueueFilter) :
    (k.deleteBoth sock).filters other filter
      = if other = sock then none else k.filters other filter := by
  rw [deleteBoth_eq, setFilter_filters, setFilter_filters]
  by_cases hsock : other = sock
  · cases filter <;> simp [hsock]
  · simp [hsock]

theorem submitConnect_ok (hroom : k.liveCount < k.maxConnections) (op sock userData : Nat) :
    k.submitConnect op sock userData ⟨true, true⟩
      = ({ (k.store op ⟨sock, none, 0, .connect, userData⟩).setFilter sock .evfiltWrite
            (some op) with liveCount := k.liveCount + 1 }, .ok) := by
  rw [submitConnect, if_neg (by omega)]
  rfl

theorem submitRw_ok (op sock : Nat) (buf : Option Nat) (bufLen userData : Nat) (kind : IoKind)
    (filter : KqueueFilter) :
    k.submitRw op sock buf bufLen userData kind filter true
      = (((k.store op ⟨sock, buf, bufLen, kind, userData⟩).deleteBoth sock).setFilter sock filter
          (some op), .ok) := rfl

namespace Refines

variable {k} {g : Registry}

theorem submitConnect (h : k.Refines g) (op : Nat) {sock : Nat} (userData : Nat)
    {madeNonblocking : Bool}
    (hadmits : g.Admits (.submitConnect op sock userData madeNonblocking)) :
    (k.submitConnect op sock userData ⟨madeNonblocking, true⟩).1.Refines
        (g.submitConnect sock madeNonblocking).1
      ∧ (k.submitConnect op sock userData ⟨madeNonblocking, true⟩).2
        = (g.submitConnect sock madeNonblocking).2 := by
  rw [Registry.submitConnect]
  by_cases hfull : g.capacity ≤ g.live
  · rw [Kqueue.submitConnect, h.capacity, h.live, if_pos hfull, if_pos hfull]
    exact ⟨h, rfl⟩
  rw [if_neg hfull]
  cases madeNonblocking with
  | false =>
      rw [Kqueue.submitConnect, h.capacity, h.live, if_neg hfull]
      exact ⟨h, rfl⟩
  | true =>
      have hfree : sock ∉ g.connected := hadmits (by omega) rfl
      rw [k.submitConnect_ok (by rw [h.capacity, h.live]; omega)]
      simp only [Bool.not_true, Bool.false_eq_true, if_false, if_neg hfree]
      refine ⟨⟨h.capacity, congrArg (· + 1) h.live, fun other filter harmed => ?_⟩, trivial⟩
      change (Kqueue.setFilter ..).filters other filter ≠ none at harmed
      rw [setFilter_filters] at harmed
      rw [Finset.mem_insert]
      split at harmed
      · rename_i heq
        exact .inl heq.1
      · exact .inr (h.armed other filter harmed)

theorem submitRw (h : k.Refines g) (op : Nat) {sock : Nat} (buf : Option Nat)
    (bufLen userData : Nat) (kind : IoKind) (filter : KqueueFilter) (hsock : sock ∈ g.connected) :
    (k.submitRw op sock buf bufLen userData kind filter true).1.Refines g
      ∧ (k.submitRw op sock buf bufLen userData kind filter true).2 = g.submitRw sock := by
  rw [submitRw_ok, Registry.submitRw, if_pos hsock]
  refine ⟨⟨?_, ?_, fun other filter' harmed => ?_⟩, rfl⟩
  · rw [deleteBoth_eq]
    exact h.capacity
  · rw [deleteBoth_eq]
    exact h.live
  · by_cases heq : other = sock
    · rwa [heq]
    · rw [setFilter_filters, deleteBoth_filters, if_neg (fun hand => heq hand.1),
        if_neg heq] at harmed
      exact h.armed other filter' harmed

theorem forget (h : k.Refines g) (sock : Nat) :
    Meets (fun _ k' g' => Kqueue.Refines k' g') (k.call (.forget sock)) (g.call (.forget sock)) := by
  rw [Kqueue.call, Registry.call, Kqueue.forget, h.live]
  by_cases hlive : g.live = 0
  · rw [if_pos hlive, if_pos hlive]
    exact Meets.error EpollAssertion.liveCount
  · rw [if_neg hlive, if_neg hlive]
    refine .ok ⟨?_, rfl, fun other filter harmed => ?_⟩
    · rw [deleteBoth_eq]
      exact h.capacity
    · change (k.deleteBoth sock).filters other filter ≠ none at harmed
      rw [deleteBoth_filters] at harmed
      split at harmed
      · exact absurd rfl harmed
      · rename_i heq
        exact Finset.mem_erase.2 ⟨heq, h.armed other filter harmed⟩

/-- On what the registry admits, the kqueue backend does as it does. -/
theorem call (h : k.Refines g) {rc : ReactorCall} (hadmits : g.Admits rc) :
    Meets (fun _ k' g' => Kqueue.Refines k' g') (k.call rc) (g.call rc) := by
  cases rc with
  | submitConnect op sock userData madeNonblocking =>
      have hsubmit := h.submitConnect op userData hadmits
      exact meets_answered hsubmit.1 hsubmit.2
  | submitRead op sock buf bufLen userData =>
      cases buf with
      | none => exact Meets.error EpollAssertion.bufNull
      | some buf =>
          have hsubmit := h.submitRw op (some buf) bufLen userData .read .evfiltRead (hadmits rfl)
          exact meets_answered (q := (g, g.submitRw sock)) hsubmit.1 hsubmit.2
  | submitWrite op sock buf bufLen userData =>
      cases buf with
      | none => exact Meets.error EpollAssertion.bufNull
      | some buf =>
          have hsubmit := h.submitRw op (some buf) bufLen userData .write .evfiltWrite (hadmits rfl)
          exact meets_answered (q := (g, g.submitRw sock)) hsubmit.1 hsubmit.2
  | forget sock => exact h.forget sock

end Refines

end Kqueue

/-! ### Agreement -/

namespace Backends

variable {e : Epoll} {k : Kqueue} {g : Registry}

/-- What the registry refuses for want of order, the kqueue backend accepts. -/
theorem refused_accepted (hk : k.Refines g) {rc : ReactorCall} (hadmits : ¬ g.Admits rc) :
    (∃ err, err ≠ .ok ∧ g.call rc = .ok (g, some err)) ∧ ∃ k', k.call rc = .ok (k', some .ok) := by
  cases rc with
  | submitConnect op sock userData madeNonblocking =>
      simp only [Registry.Admits, Classical.not_imp, not_not] at hadmits
      obtain ⟨hroom, rfl, hconnected⟩ := hadmits
      constructor
      · refine ⟨.registerFailed, by simp, ?_⟩
        rw [Registry.call, Registry.submitConnect, if_neg (by omega)]
        simp [hconnected]
      · rw [Kqueue.call, k.submitConnect_ok (by rw [hk.capacity, hk.live]; exact hroom)]
        exact ⟨_, rfl⟩
  | submitRead op sock buf bufLen userData | submitWrite op sock buf bufLen userData =>
      simp only [Registry.Admits, Classical.not_imp] at hadmits
      obtain ⟨hbuf, hconnected⟩ := hadmits
      obtain ⟨buf, rfl⟩ := Option.isSome_iff_exists.1 hbuf
      constructor
      · refine ⟨.notRegistered, by simp, ?_⟩
        rw [Registry.call, Registry.submitRw, if_neg hconnected]
        rfl
      · exact ⟨_, rfl⟩
  | forget sock => exact absurd trivial hadmits

theorem parts (he : e.Refines g) (hk : k.Refines g) {rc : ReactorCall} (hadmits : ¬ g.Admits rc) :
    ¬ Meets (Accounted g.connected rc) (e.call rc) (k.call rc) := by
  obtain ⟨⟨err, herr, hcall⟩, k', hk'⟩ := refused_accepted hk hadmits
  have hmeets := he.call rc
  rw [hcall] at hmeets
  obtain ⟨e', he', -⟩ := hmeets.eq_ok
  rw [he', hk', meets_ok_iff]
  intro h
  exact herr (Option.some.inj h.1)

/-- After a call the registry admits, both have its count; and it admits no transfer on a socket
that is not connected. -/
theorem accounted {g' : Registry} {rc : ReactorCall} {status : Status} (hadmits : g.Admits rc)
    (hcall : g.call rc = .ok (g', status)) (he : e.Refines g') (hk : k.Refines g') :
    Accounted g.connected rc status e k := by
  refine ⟨he.live.trans hk.live.symm, fun sock hsock hfree => ?_⟩
  cases rc with
  | submitConnect op sock' userData madeNonblocking => cases hsock
  | submitRead op sock' buf bufLen userData | submitWrite op sock' buf bufLen userData =>
      cases hsock
      cases buf with
      | none => cases hcall
      | some buf => exact absurd (hadmits rfl) hfree
  | forget sock' => cases hsock

theorem agree_iff (he : e.Refines g) (hk : k.Refines g) (calls : List ReactorCall) :
    BackendsAgree g.connected e k calls ↔ g.Orderly calls := by
  rw [BackendsAgree, Registry.Orderly]
  refine lockstep_iff_guarded ?_ ?_ ?_ ?_ ?_ he hk calls
  · intro e g rc he
    exact he.call rc
  · intro k g rc hk hadmits
    exact hk.call hadmits
  · intro g rc g' status hcall
    exact Registry.connects_call hcall
  · intro g rc g' status e k hadmits hcall he hk
    exact accounted hadmits hcall he hk
  · intro e k g rc he hk hadmits
    exact parts he hk hadmits

end Backends

theorem Kqueue.create_eq {maxConnections : Nat} {answers : Kqueue.CreateAnswers}
    {ops : Nat → OpMemory} {k : Kqueue} (h : Kqueue.create maxConnections answers ops = some k) :
    k = ⟨maxConnections, 0, fun _ _ => none, ops⟩ := by
  rw [Kqueue.create] at h
  split at h
  · cases h
  split at h
  · cases h
  split at h
  · cases h
  split at h
  · cases h
  · exact (Option.some.inj h).symm

/-- **Agreement.** From two reactors just created for as many connections, the epoll and the kqueue
backend agree on a sequence of calls exactly if it is orderly. -/
theorem backends_agree_iff {maxConnections : Nat} {answers : Epoll.CreateAnswers}
    {answers' : Kqueue.CreateAnswers} {ops ops' : Nat → OpMemory} {e : Epoll} {k : Kqueue}
    (he : Epoll.create maxConnections answers ops = some e)
    (hk : Kqueue.create maxConnections answers' ops' = some k) (calls : List ReactorCall) :
    BackendsAgree ∅ e k calls ↔ Registry.Orderly ⟨maxConnections, 0, ∅⟩ calls := by
  rw [Epoll.create_eq he, Kqueue.create_eq hk]
  apply Backends.agree_iff (g := ⟨maxConnections, 0, ∅⟩)
  · exact ⟨rfl, rfl, by simp⟩
  · exact ⟨rfl, rfl, by simp⟩

theorem backends_agree_iff_served :
    BackendsAgree ∅ ⟨1, 0, fun _ => none, fun _ => ⟨0, none, 0, .read, 0⟩⟩
      ⟨1, 0, fun _ _ => none, fun _ => ⟨0, none, 0, .read, 0⟩⟩
      [.submitConnect 1 5 9 true, .submitConnect 2 6 9 true, .submitRead 1 5 (some 7) 64 9,
        .submitWrite 1 5 (some 7) 64 9, .forget 5, .submitConnect 1 5 9 true] :=
  (@backends_agree_iff 1 ⟨true, true, true⟩ ⟨true, true, true⟩ _ _ _ _ rfl rfl _).2 (by decide)

/-- A read on a socket that never connected: refused by the one, accepted by the other. -/
theorem read_parts :
    ¬ ∀ (maxConnections : Nat) (answers : Epoll.CreateAnswers) (answers' : Kqueue.CreateAnswers)
      (ops ops' : Nat → OpMemory) (e : Epoll) (k : Kqueue),
      Epoll.create maxConnections answers ops = some e →
      Kqueue.create maxConnections answers' ops' = some k →
      ∀ calls, BackendsAgree ∅ e k calls := by
  intro h
  have hagree := h 1 ⟨true, true, true⟩ ⟨true, true, true⟩ (fun _ => ⟨0, none, 0, .read, 0⟩)
    (fun _ => ⟨0, none, 0, .read, 0⟩) _ _ rfl rfl [.submitRead 1 5 (some 7) 64 9]
  rw [BackendsAgree, Lockstep] at hagree
  change Meets _ (.ok (_, some ReactorErr.notRegistered)) (.ok (_, some ReactorErr.ok)) at hagree
  cases (meets_ok_iff.1 hagree).1

end SmtpClient
