import SmtpClient.Proof.Accounting
import SmtpClient.Proof.Contract
import SmtpClient.Proof.Submissions

/-!
# The orchestrator over a backend that keeps the contract

What is in flight in the reactor is what the connections in the slots wait for, less the completions
not dispatched yet, and the sockets registered are those of the slots in use. Every turn keeps this,
so a backend under contract answers the orchestrator as the loop was told it would: each turn of the
two together is a turn of the loop alone, and the only aborts are those of the loop, unless a pipe
breaks under a backend that gets the signal for it.
-/

namespace SmtpClient

variable {E : TlsEngine}

namespace Node

/-- The operation of the connection in a slot, for a slot in use. -/
def busy (slots : List (Slot E)) (i : Nat) : Option IoOp :=
  (slots[i]?.filter Slot.inUse).map fun slot => slot.world.conn.op

theorem busy_eq_some_iff {slots : List (Slot E)} {i : Nat} {op : IoOp} :
    busy slots i = some op
      ↔ ∃ slot, slots[i]? = some slot ∧ slot.inUse = true ∧ slot.world.conn.op = op := by
  simp [busy, Option.filter_eq_some_iff, and_assoc]

theorem busy_of_slot {slots : List (Slot E)} {i : Nat} {slot : Slot E}
    (hslot : slots[i]? = some slot) :
    busy slots i = if slot.inUse then some slot.world.conn.op else none := by
  rw [busy, hslot]
  cases hinUse : slot.inUse <;> simp [Option.filter, hinUse]

theorem busy_set {slots : List (Slot E)} {i : Nat} {slot : Slot E} (hslot : slots[i]? = some slot)
    (slot' : Slot E) :
    busy (slots.set i slot')
      = Function.update (busy slots) i
          (if slot'.inUse then some slot'.world.conn.op else none) := by
  obtain ⟨hlt, -⟩ := List.getElem?_eq_some_iff.1 hslot
  funext j
  by_cases hj : j = i
  · subst hj
    rw [Function.update_self]
    exact busy_of_slot (List.getElem?_set_self hlt)
  · rw [Function.update_of_ne hj, busy, List.getElem?_set_ne (Ne.symm hj)]
    rfl

/-- The slots whose completions have been reported and not dispatched. -/
def awaiting : Pc → List Nat
  | .dispatch results _ => results.map Completion.slot
  | _ => []

section Linked

variable {B : Backend}

/-- The sockets of the slots in use. -/
def opens (busy : Nat → Option IoOp) (socks : Nat → Nat) : Set Nat :=
  {sock | ∃ i, (busy i).isSome = true ∧ socks i = sock}

/-- What a submission for slot `i` leaves in memory. -/
def memory (layout : Layout) (i sock : Nat) (op : IoOp) : OpMemory :=
  ⟨sock, op.buf.pointer layout i, op.bufLen, op.kind, i⟩

/-- The reactor holds what the slots wait for, but for what it has reported. -/
structure Linked (layout : Layout) (Holds : B.View) (busy : Nat → Option IoOp) (reactor : B.State)
    (socks : Nat → Nat) (awaited : List Nat) (inFlight : List Submission) : Prop where
  holds : Holds reactor inFlight (opens busy socks)
  inFlight : ∀ sub, sub ∈ inFlight
    ↔ ∃ i op, busy i = some op ∧ i ∉ awaited ∧ sub = ⟨i, socks i, op.kind, i⟩
  apart : ∀ i j, (busy i).isSome = true → (busy j).isSome = true → socks i = socks j → i = j
  memory : ∀ i op, busy i = some op → i ∉ awaited →
    B.ops reactor i = memory layout i (socks i) op

variable {layout : Layout} {Holds : B.View} {busy : Nat → Option IoOp} {reactor : B.State}
  {socks : Nat → Nat} {awaited : List Nat} {inFlight : List Submission} {i : Nat} {op : IoOp}

theorem opens_update_some (hi : (busy i).isSome = true) (op : IoOp) :
    opens (Function.update busy i (some op)) socks = opens busy socks := by
  ext sock
  constructor
  · rintro ⟨j, hj, rfl⟩
    by_cases heq : j = i
    · exact ⟨j, heq ▸ hi, rfl⟩
    · rw [Function.update_of_ne heq] at hj
      exact ⟨j, hj, rfl⟩
  · rintro ⟨j, hj, rfl⟩
    by_cases heq : j = i
    · exact ⟨j, by simp [heq], rfl⟩
    · exact ⟨j, by rwa [Function.update_of_ne heq], rfl⟩

theorem opens_update_none (hi : busy i = none) (op : IoOp) :
    opens (Function.update busy i (some op)) socks = insert (socks i) (opens busy socks) := by
  ext sock
  constructor
  · rintro ⟨j, hj, rfl⟩
    by_cases heq : j = i
    · exact .inl (heq ▸ rfl)
    · rw [Function.update_of_ne heq] at hj
      exact .inr ⟨j, hj, rfl⟩
  · rintro (rfl | ⟨j, hj, rfl⟩)
    · exact ⟨i, by simp, rfl⟩
    · have heq : j ≠ i := by
        rintro rfl
        simp [hi] at hj
      exact ⟨j, by rwa [Function.update_of_ne heq], rfl⟩

/-- Nothing is in flight for a slot that has been reported. -/
theorem Linked.free (h : Linked layout Holds busy reactor socks awaited inFlight)
    (hi : (busy i).isSome = true) (hawaited : i ∈ awaited) :
    ∀ sub ∈ inFlight, sub.op ≠ i ∧ sub.sock ≠ socks i := by
  intro sub hsub
  obtain ⟨j, op, hj, hnot, rfl⟩ := (h.inFlight sub).1 hsub
  have hne : j ≠ i := by
    rintro rfl
    exact hnot hawaited
  exact ⟨hne, fun heq => hne (h.apart j i (by simp [hj]) hi heq)⟩

/-- A submission for a slot that holds nothing. -/
theorem Linked.hold {awaited' : List Nat}
    (h : Linked layout Holds busy reactor socks awaited' inFlight)
    (hidle : ∀ op, busy i = some op → i ∈ awaited')
    (hnew : ∀ j, (busy j).isSome = true → j ≠ i → socks j ≠ socks i) (honce : i ∉ awaited)
    (hawaited : ∀ j, j ≠ i → (j ∈ awaited ↔ j ∈ awaited')) {answer : B.State × ReactorErr}
    (hok : answer.2 = .ok)
    (hleaves : B.Leaves Holds reactor inFlight (opens (Function.update busy i (some op)) socks)
      ⟨i, socks i, op.kind, i⟩ (Node.memory layout i (socks i) op) answer) :
    Linked layout Holds (Function.update busy i (some op)) answer.1 socks awaited
      (⟨i, socks i, op.kind, i⟩ :: inFlight) where
  holds := by
    have hholds := hleaves.holds
    rwa [if_pos hok] at hholds
  inFlight := by
    intro sub
    rw [List.mem_cons, h.inFlight]
    constructor
    · rintro (rfl | ⟨j, op', hj, hnot, rfl⟩)
      · exact ⟨i, op, Function.update_self .., honce, rfl⟩
      · have hne : j ≠ i := by
          rintro rfl
          exact hnot (hidle op' hj)
        exact ⟨j, op', by rwa [Function.update_of_ne hne], mt (hawaited j hne).1 hnot, rfl⟩
    · rintro ⟨j, op', hj, hnot, rfl⟩
      by_cases heq : j = i
      · subst heq
        rw [Function.update_self] at hj
        obtain rfl := Option.some.inj hj
        exact .inl rfl
      · rw [Function.update_of_ne heq] at hj
        exact .inr ⟨j, op', hj, mt (hawaited j heq).2 hnot, rfl⟩
  apart := by
    intro j k hj hk heq
    by_cases hji : j = i <;> by_cases hki : k = i
    · rw [hji, hki]
    · rw [Function.update_of_ne hki] at hk
      exact absurd (hji ▸ heq).symm (hnew k hk hki)
    · rw [Function.update_of_ne hji] at hj
      exact absurd (hki ▸ heq) (hnew j hj hji)
    · rw [Function.update_of_ne hji] at hj
      rw [Function.update_of_ne hki] at hk
      exact h.apart j k hj hk heq
  memory := by
    intro j op' hj hnot
    by_cases heq : j = i
    · subst heq
      rw [Function.update_self] at hj
      obtain rfl := Option.some.inj hj
      exact hleaves.memory hok
    · rw [Function.update_of_ne heq] at hj
      rw [hleaves.frame j heq]
      exact h.memory j op' hj (mt (hawaited j heq).2 hnot)

/-- The next operation of a connection that has been dispatched. -/
theorem Linked.submit (h : Linked layout Holds busy reactor socks (i :: awaited) inFlight)
    (hi : (busy i).isSome = true) (honce : i ∉ awaited) {answer : B.State × ReactorErr}
    (hok : answer.2 = .ok)
    (hleaves : B.Leaves Holds reactor inFlight (opens busy socks) ⟨i, socks i, op.kind, i⟩
      (Node.memory layout i (socks i) op) answer) :
    Linked layout Holds (Function.update busy i (some op)) answer.1 socks awaited
      (⟨i, socks i, op.kind, i⟩ :: inFlight) := by
  rw [← opens_update_some hi op] at hleaves
  apply h.hold _ _ honce _ hok hleaves
  · exact fun _ _ => List.mem_cons_self
  · exact fun j hj hne heq => hne (h.apart j i hj hi heq)
  · intro j hne
    rw [List.mem_cons, or_iff_right hne]

/-- A submission that is refused, for a slot that holds nothing. -/
theorem Linked.refused (h : Linked layout Holds busy reactor socks awaited inFlight)
    (hidle : ∀ op, busy i = some op → i ∈ awaited) {answer : B.State × ReactorErr}
    (hrefused : answer.2 ≠ .ok)
    {sub : Submission} (hsub : sub.op = i) {memory : OpMemory}
    (hleaves : B.Leaves Holds reactor inFlight (opens busy socks) sub memory answer) :
    Linked layout Holds busy answer.1 socks awaited inFlight where
  holds := by
    have hholds := hleaves.holds
    rwa [if_neg hrefused] at hholds
  inFlight := h.inFlight
  apart := h.apart
  memory := by
    intro j op hj hnot
    rw [hleaves.frame j]
    · exact h.memory j op hj hnot
    · rintro rfl
      exact hnot (hsub ▸ hidle op (hsub ▸ hj))

/-- A connection that is over. -/
theorem Linked.forget (h : Linked layout Holds busy reactor socks awaited inFlight)
    (hi : (busy i).isSome = true) {awaited' : List Nat}
    (hawaited : ∀ j, j ≠ i → (j ∈ awaited' ↔ j ∈ awaited)) {reactor' : B.State}
    (hops : B.ops reactor' = B.ops reactor)
    (hholds : Holds reactor' (inFlight.filter fun sub => sub.sock ≠ socks i)
      (opens busy socks \ {socks i})) :
    Linked layout Holds (Function.update busy i none) reactor' socks awaited'
      (inFlight.filter fun sub => sub.sock ≠ socks i) where
  holds := by
    have hopens : opens (Function.update busy i none) socks = opens busy socks \ {socks i} := by
      ext sock
      constructor
      · rintro ⟨j, hj, rfl⟩
        by_cases heq : j = i
        · simp [heq] at hj
        rw [Function.update_of_ne heq] at hj
        exact ⟨⟨j, hj, rfl⟩, fun hsock => heq (h.apart j i hj hi hsock)⟩
      · rintro ⟨⟨j, hj, rfl⟩, hne⟩
        have heq : j ≠ i := by
          rintro rfl
          exact hne rfl
        exact ⟨j, by rwa [Function.update_of_ne heq], rfl⟩
    rwa [hopens]
  inFlight := by
    intro sub
    rw [List.mem_filter, h.inFlight]
    constructor
    · rintro ⟨⟨j, op, hj, hnot, rfl⟩, hne⟩
      have heq : j ≠ i := by
        rintro rfl
        simp at hne
      exact ⟨j, op, by rwa [Function.update_of_ne heq], mt (hawaited j heq).1 hnot, rfl⟩
    · rintro ⟨j, op, hj, hnot, rfl⟩
      by_cases heq : j = i
      · simp [heq] at hj
      rw [Function.update_of_ne heq] at hj
      refine ⟨⟨j, op, hj, mt (hawaited j heq).2 hnot, rfl⟩, ?_⟩
      simpa using fun hsock => heq (h.apart j i (by simp [hj]) hi hsock)
  apart := by
    intro j k hj hk
    apply h.apart
    · by_cases heq : j = i
      · simp [heq] at hj
      · rwa [Function.update_of_ne heq] at hj
    · by_cases heq : k = i
      · simp [heq] at hk
      · rwa [Function.update_of_ne heq] at hk
  memory := by
    intro j op hj hnot
    by_cases heq : j = i
    · simp [heq] at hj
    rw [Function.update_of_ne heq] at hj
    rw [hops]
    exact h.memory j op hj (mt (hawaited j heq).2 hnot)

/-- The socket of a vacant slot is nobody's. -/
theorem opens_update_sock (hi : busy i = none) (sock : Nat) :
    opens busy (Function.update socks i sock) = opens busy socks := by
  ext other
  constructor
  · rintro ⟨j, hj, rfl⟩
    have heq : j ≠ i := by
      rintro rfl
      simp [hi] at hj
    exact ⟨j, hj, by rw [Function.update_of_ne heq]⟩
  · rintro ⟨j, hj, rfl⟩
    have heq : j ≠ i := by
      rintro rfl
      simp [hi] at hj
    exact ⟨j, hj, by rw [Function.update_of_ne heq]⟩

/-- A socket made for a vacant slot. -/
theorem Linked.opened (h : Linked layout Holds busy reactor socks awaited inFlight)
    (hi : busy i = none) (sock : Nat) :
    Linked layout Holds busy reactor (Function.update socks i sock) awaited inFlight := by
  have hne {j : Nat} (hj : (busy j).isSome = true) : j ≠ i := by
    rintro rfl
    simp [hi] at hj
  refine ⟨?_, ?_, ?_, ?_⟩
  · rw [opens_update_sock hi]
    exact h.holds
  · intro sub
    rw [h.inFlight]
    constructor
    · rintro ⟨j, op, hj, hnot, rfl⟩
      exact ⟨j, op, hj, hnot, by rw [Function.update_of_ne (hne (by simp [hj]))]⟩
    · rintro ⟨j, op, hj, hnot, rfl⟩
      exact ⟨j, op, hj, hnot, by rw [Function.update_of_ne (hne (by simp [hj]))]⟩
  · intro j k hj hk heq
    rw [Function.update_of_ne (hne hj), Function.update_of_ne (hne hk)] at heq
    exact h.apart j k hj hk heq
  · intro j op hj hnot
    rw [Function.update_of_ne (hne (by simp [hj]))]
    exact h.memory j op hj hnot

/-- The connect of a connection that has been started, on a socket made for it. -/
theorem Linked.connect (h : Linked layout Holds busy reactor socks awaited inFlight)
    (op : IoOp) (hi : busy i = none) (honce : i ∉ awaited) {sock : Nat}
    (hnew : sock ∉ opens busy socks)
    {answer : B.State × ReactorErr} (hok : answer.2 = .ok)
    (hleaves : B.Leaves Holds reactor inFlight (insert sock (opens busy socks))
      ⟨i, sock, op.kind, i⟩ (Node.memory layout i sock op) answer) :
    Linked layout Holds (Function.update busy i (some op)) answer.1 (Function.update socks i sock)
      awaited (⟨i, sock, op.kind, i⟩ :: inFlight) := by
  have hopened := h.opened hi sock
  rw [← opens_update_sock hi sock] at hnew hleaves
  have hself : Function.update socks i sock i = sock := Function.update_self ..
  generalize Function.update socks i sock = socks' at hopened hnew hleaves hself ⊢
  subst hself
  rw [← opens_update_none hi op] at hleaves
  apply hopened.hold _ _ honce (fun _ _ => Iff.rfl) hok hleaves
  · intro op' hop
    rw [hi] at hop
    cases hop
  · exact fun j hj _ heq => hnew ⟨j, hj, heq⟩

/-- What a poll reports is awaited until it is dispatched. -/
theorem Linked.polled (h : Linked layout Holds busy reactor socks [] inFlight)
    (hnamed : (inFlight.map Submission.op).Nodup) {users : List UserResult}
    {rest : List Submission} {reactor' : B.State} (hops : B.ops reactor' = B.ops reactor)
    (hholds : Holds reactor' rest (opens busy socks))
    (hanswers : Answers UserResult.Fits users inFlight rest) :
    (users.map UserResult.userData).Nodup
      ∧ Linked layout Holds busy reactor' socks (users.map UserResult.userData) rest := by
  have hlabel : inFlight.map Submission.userData = inFlight.map Submission.op := by
    apply List.map_congr_left
    intro sub hsub
    obtain ⟨j, op, -, -, rfl⟩ := (h.inFlight sub).1 hsub
    rfl
  rw [← hlabel] at hnamed
  have hname (user : UserResult) (sub : Submission) (hfits : user.Fits sub) :
      user.userData = sub.userData := hfits.1
  obtain ⟨honce, -, hrest⟩ := hanswers.labelled hname hnamed
  refine ⟨honce, hholds, ?_, h.apart, ?_⟩
  · intro sub
    rw [hrest, h.inFlight]
    constructor
    · rintro ⟨⟨j, op, hj, -, rfl⟩, hnot⟩
      exact ⟨j, op, hj, hnot, rfl⟩
    · rintro ⟨j, op, hj, hnot, rfl⟩
      exact ⟨⟨j, op, hj, List.not_mem_nil, rfl⟩, hnot⟩
  · intro j op hj _
    rw [hops]
    exact h.memory j op hj List.not_mem_nil

/-! ### Calls -/

theorem Linked.forgets (hkeeps : B.Keeps Holds)
    (h : Linked layout Holds busy reactor socks awaited inFlight) (hi : (busy i).isSome = true)
    (hlive : 0 < (B.counts reactor).liveCount) {awaited' : List Nat}
    (hawaited : ∀ j, j ≠ i → (j ∈ awaited' ↔ j ∈ awaited)) :
    ∃ reactor', B.forget reactor (socks i) = .ok reactor'
      ∧ B.counts reactor'
        = { B.counts reactor with liveCount := (B.counts reactor).liveCount - 1 }
      ∧ Linked layout Holds (Function.update busy i none) reactor' socks awaited'
        (inFlight.filter fun sub => sub.sock ≠ socks i) := by
  obtain ⟨reactor', heq, hcounts, hops, hholds⟩ :=
    hkeeps.forget reactor inFlight (opens busy socks) (socks i) h.holds hlive
  exact ⟨reactor', heq, hcounts, h.forget hi hawaited hops hholds⟩

theorem pointer_of_inside (layout : Layout) (hinside : op.Inside) (hkind : op.kind ≠ .connect)
    (i : Nat) :
    op.buf.pointer layout i = some (layout i op.buf) := by
  cases hbuf : op.buf with
  | null =>
      unfold IoOp.Inside at hinside
      rw [hbuf] at hinside
      exact absurd hinside.1 hkind
  | readBuf | writeBuf | cipherBuf => rfl

theorem Linked.transfers (hkeeps : B.Keeps Holds)
    (h : Linked layout Holds busy reactor socks (i :: awaited) inFlight)
    (hi : (busy i).isSome = true) (hinside : op.Inside) (resources : Bool) {effect : Effect}
    (hasks : effect.Asks (submitRc resources) op.kind) :
    ∃ reactor', call layout i (socks i) op ⟨true, true⟩ resources reactor effect = .ok reactor'
      ∧ B.counts reactor' = B.counts reactor
      ∧ B.Leaves Holds reactor inFlight (opens busy socks) ⟨i, socks i, op.kind, i⟩
        (Node.memory layout i (socks i) op)
        (reactor', if resources then .ok else .registerFailed) := by
  have hfree := h.free hi List.mem_cons_self
  have hsock : socks i ∈ opens busy socks := ⟨i, hi, rfl⟩
  have hkind : op.kind ≠ .connect := by
    intro hconnect
    rw [hconnect] at hasks
    cases hasks
  have hpointer := pointer_of_inside layout hinside hkind i
  have hrc : submitRc resources
      = (if resources then ReactorErr.ok else ReactorErr.registerFailed).toInt := rfl
  rw [Node.memory, hpointer]
  generalize op.kind = kind at hasks
  generalize submitRc resources = rc at hasks hrc
  cases hasks with
  | read =>
      obtain ⟨reactor', heq, hcounts, hleaves⟩ :=
        hkeeps.read reactor inFlight (opens busy socks) i (socks i) (layout i op.buf) op.bufLen i
          resources h.holds hfree hsock
      refine ⟨reactor', ?_, hcounts, hleaves⟩
      rw [call, hpointer, heq]
      exact if_pos hrc.symm
  | write =>
      obtain ⟨reactor', heq, hcounts, hleaves⟩ :=
        hkeeps.write reactor inFlight (opens busy socks) i (socks i) (layout i op.buf) op.bufLen i
          resources h.holds hfree hsock
      refine ⟨reactor', ?_, hcounts, hleaves⟩
      rw [call, hpointer, heq]
      exact if_pos hrc.symm

end Linked

/-! ### Turns -/

section Turns

variable {B : Backend} {layout : Layout} {Holds : B.View}

/-- The loop knows how many sockets its reactor holds, and the reactor what the slots wait for. -/
structure Coupled (layout : Layout) (Holds : B.View) (n : Node B E) : Prop where
  counts : B.counts n.reactor = n.loop.orch.reactor
  linked : ∃ inFlight, Linked layout Holds (busy n.loop.orch.slots) n.reactor n.socks
    (awaiting n.loop.pc) inFlight

/-- A turn of the two together is one of the loop alone, or the loop aborts in it. -/
inductive Carries (layout : Layout) (Holds : B.View) (n : Node B E) (nodeTurn : NodeTurn B E)
    (turn : Turn E) : Prop where
  | goesOn (n' : Node B E) (hstep : n.step layout nodeTurn = .ok n')
      (hloop : n.loop.step turn = .ok n'.loop) (hcoupled : Coupled layout Holds n')
  | aborts (a : Abort) (hstep : n.step layout nodeTurn = .error (.loop a))
      (hloop : n.loop.step turn = .error a)

/-- The calls of a turn succeed. -/
def Settles (layout : Layout) (Holds : B.View) (loop : Loop E)
    (result : Except NodeAbort (Node B E)) : Prop :=
  ∃ n', result = .ok n' ∧ n'.loop = loop ∧ Coupled layout Holds n'

variable {n : Node B E} {loop : Loop E} {turn : Turn E}

theorem Settles.carries {nodeTurn : NodeTurn B E} {result : Except NodeAbort (Node B E)}
    (h : Settles layout Holds loop result) (hstep : n.step layout nodeTurn = result)
    (hloop : n.loop.step turn = .ok loop) : Carries layout Holds n nodeTurn turn := by
  obtain ⟨n', hok, rfl, hcoupled⟩ := h
  exact .goesOn n' (hstep.trans hok) hloop hcoupled

theorem Linked.settles {reactor : B.State} {socks : Nat → Nat} {inFlight : List Submission}
    {result : Except NodeAbort (Node B E)}
    (h : Linked layout Holds (busy loop.orch.slots) reactor socks (awaiting loop.pc) inFlight)
    (hresult : result = .ok ⟨loop, reactor, socks⟩)
    (hcounts : B.counts reactor = loop.orch.reactor) : Settles layout Holds loop result :=
  ⟨⟨loop, reactor, socks⟩, hresult, rfl, hcounts, inFlight, h⟩

/-- A turn in which nothing is called. -/
theorem Coupled.moves (h : Coupled layout Holds n) {nodeTurn : NodeTurn B E}
    (hstep : n.step layout nodeTurn = do return { n with loop := ← n.turn turn })
    (hloop : n.loop.step turn = .ok loop) (hslots : loop.orch.slots = n.loop.orch.slots)
    (hreactor : loop.orch.reactor = n.loop.orch.reactor)
    (hawaiting : awaiting loop.pc = awaiting n.loop.pc) : Carries layout Holds n nodeTurn turn := by
  refine .goesOn { n with loop := loop } ?_ hloop ?_
  · rw [hstep, Node.turn, hloop]
    rfl
  · refine ⟨h.counts.trans hreactor.symm, ?_⟩
    rw [hslots, hawaiting]
    exact h.linked

/-- The calls of a turn on slot `i`. -/
theorem settle_eq {i : Nat} {slot : Slot E} (hslot : loop.orch.slots[i]? = some slot)
    {before fresh : List Effect}
    (hfresh : submissions slot.world.trace = submissions before ++ fresh)
    (wasInUse : Bool) (syscalls : ConnectSyscalls) (resources : Bool) :
    n.settle layout loop i before wasInUse syscalls resources = do
      let reactor ← fresh.foldlM
        (call layout i (n.socks i) slot.world.conn.op syscalls resources) n.reactor
      let reactor ←
        if wasInUse && !slot.inUse then (B.forget reactor (n.socks i)).mapError NodeAbort.assertion
        else .ok reactor
      return ⟨loop, reactor, n.socks⟩ := by
  rw [settle, hslot]
  dsimp only
  rw [hfresh, List.drop_left]

theorem tend_of_slot {i : Nat} {slot : Slot E} (hslot : n.loop.orch.slots[i]? = some slot)
    (resources : Bool) :
    n.tend layout loop i resources
      = n.settle layout loop i slot.world.trace slot.inUse ⟨true, true⟩ resources := by
  rw [tend, hslot]

/-- A connection that is over is forgotten. -/
theorem settle_finished (hkeeps : B.Keeps Holds) {i : Nat} {slot slot' : Slot E}
    (hslot : n.loop.orch.slots[i]? = some slot) (hinUse : slot.inUse = true)
    {reactor : B.State} {awaited : List Nat} {inFlight : List Submission}
    (hcounts : B.counts reactor = n.loop.orch.reactor)
    (hlinked : Linked layout Holds (busy n.loop.orch.slots) reactor n.socks awaited inFlight)
    (hawaited : ∀ j, j ≠ i → (j ∈ awaiting loop.pc ↔ j ∈ awaited))
    (hheld : 0 < n.loop.orch.reactor.liveCount) (fresh : List Effect)
    (hfresh : submissions slot'.world.trace = submissions slot.world.trace ++ fresh)
    (syscalls : ConnectSyscalls) (resources : Bool)
    (hcalls : fresh.foldlM (call layout i (n.socks i) slot'.world.conn.op syscalls resources)
      n.reactor = .ok reactor)
    (hloop : loop.orch = n.loop.orch.finished i slot') :
    Settles layout Holds loop
      (n.settle layout loop i slot.world.trace slot.inUse syscalls resources) := by
  have hi : (busy n.loop.orch.slots i).isSome = true := by
    rw [busy_of_slot hslot, hinUse]
    rfl
  have hlive : 0 < (B.counts reactor).liveCount := by rwa [hcounts]
  obtain ⟨reactor', hforget, hcounts', hlinked'⟩ := hlinked.forgets hkeeps hi hlive hawaited
  obtain ⟨hlt, -⟩ := List.getElem?_eq_some_iff.1 hslot
  let closed : Slot E :=
    { slot' with world := { slot'.world with conn := Conn.close slot'.world.conn }, inUse := false }
  have hslots : loop.orch.slots = n.loop.orch.slots.set i closed := by
    rw [hloop]
    rfl
  have hclosed : loop.orch.slots[i]? = some closed := by
    rw [hslots]
    exact List.getElem?_set_self hlt
  have hbusy : busy loop.orch.slots = Function.update (busy n.loop.orch.slots) i none := by
    rw [hslots]
    exact busy_set hslot closed
  rw [← hbusy] at hlinked'
  apply hlinked'.settles
  · have hcalls' : fresh.foldlM (call layout i (n.socks i) closed.world.conn.op syscalls resources)
        n.reactor = .ok reactor := hcalls
    rw [settle_eq hclosed hfresh, hcalls', hinUse]
    change ((B.forget reactor (n.socks i)).mapError NodeAbort.assertion >>= fun r =>
      pure (⟨loop, r, n.socks⟩ : Node B E)) = _
    rw [hforget]
    rfl
  · rw [hcounts', hcounts, hloop]
    rfl

/-- A slot that stays as it is, without a call. -/
theorem settle_idle {i : Nat} {slot slot' : Slot E} (hslot : loop.orch.slots[i]? = some slot')
    (hfresh : submissions slot'.world.trace = submissions slot.world.trace)
    (hinUse : slot'.inUse = slot.inUse) (syscalls : ConnectSyscalls) (resources : Bool) :
    n.settle layout loop i slot.world.trace slot.inUse syscalls resources
      = .ok { n with loop := loop } := by
  rw [← List.append_nil (submissions slot.world.trace)] at hfresh
  rw [settle_eq hslot hfresh, hinUse, Bool.and_not_self]
  rfl

/-- What a completion that goes to a live connection submits. -/
theorem submits_of_completion {identity : Bytes} {w w' : World E} {env : Env E} {op : IoOp}
    {result : Int} {data : Bytes} {nowMs : Nat}
    (hflight : Conn.Flight w) (hadm : Conn.admissible w (.completion env op result data nowMs))
    (hstep : Conn.step identity w (.completion env op result data nowMs) = .ok w') :
    Conn.Submits env (w.deliver op result data) w' := by
  have hsteps : (Conn.machine E identity).Steps w (.completion env op result data nowMs) w' :=
    ⟨hadm, hstep⟩
  cases Conn.took_of_steps hsteps with
  | completes _ _ _ _ _ hlive hdelivers honIo =>
      obtain ⟨-, -, hexpects⟩ := hflight.deliver hlive hdelivers
      exact honIo.submitted (by simpa using hexpects)

/-- The connection in a slot, as it is stepped. -/
theorem lent_reachable (hkept : Loop.Kept (fun _ _ => True) n.loop) {i : Nat} {slot : Slot E}
    (hslot : n.loop.orch.slots[i]? = some slot) (hinUse : slot.inUse = true) :
    Conn.Reachable n.loop.orch.config.ehloIdentity
      { slot.world with caps := n.loop.orch.caps } := by
  obtain ⟨⟨hreach, -⟩, -⟩ := hkept.tended.inUse slot (List.mem_of_getElem? hslot) hinUse
  have hsteps : (Conn.machine E n.loop.orch.config.ehloIdentity).Steps slot.world
      (.others n.loop.orch.caps) { slot.world with caps := n.loop.orch.caps } := ⟨trivial, rfl⟩
  exact hreach.reachable.step hsteps

theorem submitRc_eq_zero_iff {resources : Bool} : submitRc resources = 0 ↔ resources = true := by
  cases resources <;> decide

section Handle

variable {i : Nat} {slot : Slot E} {inFlight : List Submission}
  {entropy : E.Entropy} {resources : Bool} {u w : World E}

theorem settle_goesOn (hkeeps : B.Keeps Holds) (hcoupled : B.counts n.reactor = n.loop.orch.reactor)
    (hlinked : Linked layout Holds (busy n.loop.orch.slots) n.reactor n.socks
      (i :: awaiting loop.pc) inFlight)
    (honce : i ∉ awaiting loop.pc) (hslot : n.loop.orch.slots[i]? = some slot)
    (hinUse : slot.inUse = true)
    (hsubmits : Conn.Submits ⟨entropy, submitRc resources⟩ u w)
    (htrace : submissions u.trace = submissions slot.world.trace)
    (hlive : w.conn.state.terminal = false)
    (hslots : loop.orch.slots = n.loop.orch.slots.set i { slot with world := w })
    (hreactor : loop.orch.reactor = n.loop.orch.reactor) :
    Settles layout Holds loop
      (n.settle layout loop i slot.world.trace slot.inUse ⟨true, true⟩ resources) := by
  obtain ⟨hlt, -⟩ := List.getElem?_eq_some_iff.1 hslot
  have hnew : loop.orch.slots[i]? = some { slot with world := w } := by
    rw [hslots]
    exact List.getElem?_set_self hlt
  have hi : (busy n.loop.orch.slots i).isSome = true := by
    rw [busy_of_slot hslot, hinUse]
    rfl
  cases hsubmits with
  | nothing _ hover =>
      rw [hlive] at hover
      cases hover
  | one effect hasks hfresh hplaced hstate =>
      have hresources : resources = true := by
        rw [← submitRc_eq_zero_iff]
        by_contra hrc
        rw [hlive] at hstate
        exact absurd (hstate.2 hrc) (by simp)
      subst hresources
      rw [htrace] at hfresh
      obtain ⟨reactor', hcall, hcounts, hleaves⟩ :=
        hlinked.transfers hkeeps hi hplaced.inside true hasks
      have hlinked' := hlinked.submit hi honce rfl hleaves
      have hbusy : busy loop.orch.slots
          = Function.update (busy n.loop.orch.slots) i (some w.conn.op) := by
        rw [hslots, busy_set hslot]
        exact congrArg _ (if_pos hinUse)
      rw [← hbusy] at hlinked'
      apply hlinked'.settles
      · rw [settle_eq hnew hfresh, hinUse, Bool.not_true, Bool.and_false, List.foldlM_cons, hcall]
        rfl
      · rw [hcounts, hcoupled, hreactor]

theorem settle_over (hkeeps : B.Keeps Holds) (hcoupled : B.counts n.reactor = n.loop.orch.reactor)
    (hlinked : Linked layout Holds (busy n.loop.orch.slots) n.reactor n.socks
      (i :: awaiting loop.pc) inFlight)
    (hslot : n.loop.orch.slots[i]? = some slot) (hinUse : slot.inUse = true)
    (hsubmits : Conn.Submits ⟨entropy, submitRc resources⟩ u w)
    (htrace : submissions u.trace = submissions slot.world.trace)
    (hover : w.conn.state.terminal = true) (hheld : 0 < n.loop.orch.reactor.liveCount)
    (hloop : loop.orch = n.loop.orch.finished i { slot with world := w }) :
    Settles layout Holds loop
      (n.settle layout loop i slot.world.trace slot.inUse ⟨true, true⟩ resources) := by
  have hi : (busy n.loop.orch.slots i).isSome = true := by
    rw [busy_of_slot hslot, hinUse]
    rfl
  have hawaited : ∀ j, j ≠ i → (j ∈ awaiting loop.pc ↔ j ∈ i :: awaiting loop.pc) := by
    intro j hne
    rw [List.mem_cons, or_iff_right hne]
  cases hsubmits with
  | nothing hfresh =>
      refine settle_finished hkeeps hslot hinUse hcoupled hlinked hawaited hheld [] ?_ _ _ rfl hloop
      rw [List.append_nil, ← htrace]
      exact hfresh
  | one effect hasks hfresh hplaced hstate =>
      have hresources : resources = false := by
        rw [← Bool.not_eq_true, ← submitRc_eq_zero_iff]
        exact hstate.1 hover
      subst hresources
      rw [htrace] at hfresh
      obtain ⟨reactor', hcall, hcounts, hleaves⟩ :=
        hlinked.transfers hkeeps hi hplaced.inside false hasks
      have hrefused := hlinked.refused (fun _ _ => List.mem_cons_self) (by simp) rfl hleaves
      refine settle_finished hkeeps hslot hinUse (hcounts.trans hcoupled) hrefused hawaited hheld
        _ hfresh _ _ ?_ hloop
      rw [List.foldlM_cons, hcall]
      rfl

end Handle

theorem step_handle {c : Completion} {rest : List Completion} {nowMs : Nat}
    (hpc : n.loop.pc = .dispatch (c :: rest) nowMs) (entropy : E.Entropy) (resources : Bool) :
    n.step layout (.handle entropy resources)
      = n.turn (.handle ⟨entropy, submitRc resources⟩)
          >>= fun loop => n.tend layout loop c.slot resources := by
  unfold step
  rw [hpc]

theorem step_handle_nil {nowMs : Nat} (hpc : n.loop.pc = .dispatch [] nowMs) (entropy : E.Entropy)
    (resources : Bool) :
    n.step layout (.handle entropy resources)
      = n.turn (.handle ⟨entropy, submitRc resources⟩)
          >>= fun loop => return { n with loop := loop } := by
  unfold step
  rw [hpc]

theorem Coupled.handle (h : Coupled layout Holds n) (hkeeps : B.Keeps Holds)
    (hkept : Loop.Kept (fun _ _ => True) n.loop) {results : List Completion} {nowMs : Nat}
    (hpc : n.loop.pc = .dispatch results nowMs) (entropy : E.Entropy) (resources : Bool) :
    Carries layout Holds n (.handle entropy resources) (.handle ⟨entropy, submitRc resources⟩) := by
  cases hloop : n.loop.step (.handle ⟨entropy, submitRc resources⟩) with
  | error a =>
      refine .aborts a ?_ hloop
      cases results with
      | nil =>
          rw [step_handle_nil hpc, Node.turn, hloop]
          rfl
      | cons c rest =>
          rw [step_handle hpc, Node.turn, hloop]
          rfl
  | ok loop =>
      have hok := hloop
      unfold Loop.step at hok
      rw [hpc] at hok
      cases Loop.handleTurn_ok hok with
      | done =>
          refine h.moves (step_handle_nil hpc entropy resources) hloop rfl rfl ?_
          rw [hpc]
          rfl
      | nowhere c rest hnone =>
          obtain ⟨slot, hslot, -⟩ := (hkept.pending _ _ hpc).2 c List.mem_cons_self
          rw [hnone] at hslot
          cases hslot
      | tends c rest slot orch' hslot htends =>
          obtain ⟨hinUse, hadm⟩ := hkept.head hpc hslot ⟨entropy, submitRc resources⟩
          obtain ⟨hnodup, -⟩ := hkept.pending _ _ hpc
          obtain ⟨honce, -⟩ := List.nodup_cons.1 hnodup
          obtain ⟨inFlight, hlinked⟩ := h.linked
          rw [hpc] at hlinked
          have hflight := Conn.flight_of_reachable (lent_reachable hkept hslot hinUse)
          have hsettles : Settles layout Holds ⟨orch', n.loop.totalTarget, .dispatch rest nowMs⟩
              (n.settle layout ⟨orch', n.loop.totalTarget, .dispatch rest nowMs⟩ c.slot
                slot.world.trace slot.inUse ⟨true, true⟩ resources) := by
            cases htends with
            | goesOn w hstep hlive =>
                exact settle_goesOn hkeeps h.counts hlinked honce hslot hinUse
                  (submits_of_completion hflight hadm hstep) Conn.submissions_deliver hlive rfl rfl
            | finishes w hstep hover hheld =>
                exact settle_over hkeeps h.counts hlinked hslot hinUse
                  (submits_of_completion hflight hadm hstep) Conn.submissions_deliver hover hheld
                  rfl
          refine hsettles.carries ?_ hloop
          rw [step_handle hpc, Node.turn, hloop]
          exact tend_of_slot hslot resources

/-- What a timeout check leaves alone. -/
theorem timeout_keeps {identity : Bytes} {w w' : World E} {nowMs : Nat}
    (hstep : Conn.step identity w (.timeout nowMs) = .ok w') :
    submissions w'.trace = submissions w.trace ∧ w'.conn.op = w.conn.op := by
  have hsteps : (Conn.machine E identity).Steps w (.timeout nowMs) w' := ⟨trivial, hstep⟩
  cases Conn.took_of_steps hsteps with
  | inTime => exact ⟨rfl, rfl⟩
  | expires => exact ⟨by simp [Conn.expired, submissions, Effect.submits], rfl⟩

theorem step_sweep {i nowMs : Nat} (hpc : n.loop.pc = .sweep i nowMs) :
    n.step layout .sweep = n.turn .sweep >>= fun loop => n.tend layout loop i true := by
  unfold step
  rw [hpc]

theorem Coupled.sweep (h : Coupled layout Holds n) (hkeeps : B.Keeps Holds) {i nowMs : Nat}
    (hpc : n.loop.pc = .sweep i nowMs) : Carries layout Holds n .sweep .sweep := by
  cases hloop : n.loop.step .sweep with
  | error a =>
      refine .aborts a ?_ hloop
      rw [step_sweep hpc, Node.turn, hloop]
      rfl
  | ok loop =>
      have hok := hloop
      unfold Loop.step at hok
      rw [hpc] at hok
      obtain ⟨inFlight, hlinked⟩ := h.linked
      rw [hpc] at hlinked
      have htend : n.step layout .sweep = n.tend layout loop i true := by
        rw [step_sweep hpc, Node.turn, hloop]
        rfl
      cases Loop.sweepTurn_ok hok with
      | done hnone =>
          refine .goesOn { n with loop := _ } ?_ hloop ⟨h.counts, inFlight, hlinked⟩
          rw [htend, tend, hnone]
      | passes slot hslot hvacant =>
          refine .goesOn { n with loop := _ } ?_ hloop ⟨h.counts, inFlight, hlinked⟩
          rw [htend, tend_of_slot hslot]
          apply settle_idle
          · exact hslot
          · rfl
          · rfl
      | tends slot orch' hslot hinUse htends =>
          obtain ⟨hlt, -⟩ := List.getElem?_eq_some_iff.1 hslot
          cases htends with
          | goesOn w hstep hlive =>
              obtain ⟨hfresh, hop⟩ := timeout_keeps hstep
              refine .goesOn { n with loop := _ } ?_ hloop ⟨h.counts, inFlight, ?_⟩
              · rw [htend, tend_of_slot hslot]
                apply settle_idle
                · exact List.getElem?_set_self hlt
                · exact hfresh
                · rfl
              · have hsame : busy (n.loop.orch.slots.set i { slot with world := w })
                    = busy n.loop.orch.slots := by
                  rw [busy_set hslot]
                  dsimp only
                  rw [hop, ← busy_of_slot hslot, Function.update_eq_self]
                rw [← hsame] at hlinked
                exact hlinked
          | finishes w hstep hover hheld =>
              obtain ⟨hfresh, -⟩ := timeout_keeps hstep
              refine Settles.carries ?_ (htend.trans (tend_of_slot hslot true)) hloop
              refine settle_finished hkeeps hslot hinUse h.counts hlinked (fun _ _ => Iff.rfl)
                hheld [] ?_ _ _ rfl rfl
              rw [List.append_nil]
              exact hfresh

/-! ### Starting a connection -/

theorem ReactorErr.toInt_eq_zero_iff {err : ReactorErr} : err.toInt = 0 ↔ err = .ok := by
  cases err <;> decide

/-- What a start has called, and what it leaves in the slot. -/
theorem startSlot_calls {orch orch' : Orchestrator E} {i nowMs : Nat} {slot : Slot E}
    {syscalls : ConnectSyscalls} {inFlight : Bool} (hvacant : slot.inUse = false)
    (h : orch.startSlot i slot nowMs true syscalls = .ok (orch', inFlight)) :
    orch'.reactor = (orch.reactor.submitConnect syscalls).1
      ∧ (inFlight = true ↔ (orch.reactor.submitConnect syscalls).2 = .ok)
      ∧ ∃ slot' : Slot E, orch'.slots = orch.slots.set i slot' ∧ slot'.inUse = inFlight
        ∧ slot'.world.conn.op = ⟨.connect, .null, 0⟩
        ∧ submissions slot'.world.trace
          = [.submitConnect (orch.reactor.submitConnect syscalls).2.toInt] := by
  unfold Orchestrator.startSlot at h
  simp only [Bool.not_true, Bool.false_eq_true, if_false] at h
  split at h
  · cases h
  rename_i w rc hstart
  obtain ⟨rfl, -, rfl⟩ := Conn.start_fresh_ok hstart
  rw [← ReactorErr.toInt_eq_zero_iff]
  by_cases hrc : (orch.reactor.submitConnect syscalls).2.toInt = 0
  · rw [if_neg (by simp [hrc])] at h
    cases h
    exact ⟨rfl, by simp [hrc], _, rfl, rfl, rfl, rfl⟩
  · rw [if_pos hrc] at h
    cases h
    exact ⟨rfl, by simp [hrc], _, rfl, hvacant, rfl, rfl⟩

theorem step_fill_quiet (layout : Layout) {i nowMs : Nat} (hpc : n.loop.pc = .fill i nowMs)
    {sock : Option Nat}
    (hquiet : ∀ s ∈ sock, ∀ slot ∈ n.loop.orch.slots[i]?,
      (slot.inUse || n.loop.targetStarted) = true) (syscalls : ConnectSyscalls) :
    n.step layout (.fill sock syscalls) = do
      return { n with loop := ← n.turn (.fill sock.isSome syscalls) } := by
  unfold step
  rw [hpc]
  cases sock with
  | none => rfl
  | some s =>
      cases hslot : n.loop.orch.slots[i]? with
      | none => simp only [hslot]
      | some slot =>
          have hdone := hquiet s rfl slot hslot
          simp only [hslot, hdone, if_true]

theorem step_fill (layout : Layout) {i nowMs : Nat} (hpc : n.loop.pc = .fill i nowMs)
    {slot : Slot E} (hslot : n.loop.orch.slots[i]? = some slot) (hvacant : slot.inUse = false)
    (htarget : n.loop.targetStarted = false) (sock : Nat) (syscalls : ConnectSyscalls) :
    n.step layout (.fill (some sock) syscalls)
      = n.turn (.fill true syscalls)
          >>= fun loop => (n.opened i sock).settle layout loop i [] false syscalls true := by
  unfold step
  rw [hpc]
  simp only [hslot, hvacant, htarget]
  rfl

theorem awaiting_leaveFill (l : Loop E) (nowMs : Nat) : awaiting (l.leaveFill nowMs).pc = [] := by
  rcases l.leaveFill_pc nowMs with hpc | hpc <;>
  · rw [hpc]
    rfl

/-- The socket made and the answer to its registration. -/
theorem settles_start (h : Coupled layout Holds n) (hkeeps : B.Keeps Holds) {i nowMs : Nat}
    (hpc : n.loop.pc = .fill i nowMs) {slot : Slot E}
    (hslot : n.loop.orch.slots[i]? = some slot) (hvacant : slot.inUse = false) {sock : Nat}
    (hnew : sock ∉ opens (busy n.loop.orch.slots) n.socks) {syscalls : ConnectSyscalls}
    {orch' : Orchestrator E} {inFlight : Bool}
    (hstart : n.loop.orch.startSlot i slot nowMs true syscalls = .ok (orch', inFlight))
    (horch : loop.orch = orch') (hawaiting : awaiting loop.pc = []) :
    Settles layout Holds loop ((n.opened i sock).settle layout loop i [] false syscalls true) := by
  obtain ⟨hlt, -⟩ := List.getElem?_eq_some_iff.1 hslot
  obtain ⟨hreactor, hok, slot', hslots, hinUse, hop, htrace⟩ := startSlot_calls hvacant hstart
  obtain ⟨pending, hlinked⟩ := h.linked
  have hsame : awaiting n.loop.pc = awaiting loop.pc := by
    rw [hpc, hawaiting]
    rfl
  rw [hsame] at hlinked
  have hidle : busy n.loop.orch.slots i = none := by
    rw [busy_of_slot hslot, hvacant]
    rfl
  have hsock : (n.opened i sock).socks i = sock := Function.update_self ..
  have hfree : ∀ sub ∈ pending, sub.op ≠ i ∧ sub.sock ≠ sock := by
    intro sub hsub
    obtain ⟨j, op, hj, -, rfl⟩ := (hlinked.inFlight sub).1 hsub
    refine ⟨?_, fun heq => hnew ⟨j, by simp [hj], heq⟩⟩
    rintro rfl
    rw [hidle] at hj
    cases hj
  obtain ⟨hcounts, hleaves⟩ :=
    hkeeps.connect n.reactor pending _ i sock i syscalls hlinked.holds hfree hnew
  rw [h.counts] at hcounts
  have hnow : B.counts (B.submitConnect n.reactor i sock i syscalls).1
      = (n.loop.orch.reactor.submitConnect syscalls).1 := congrArg Prod.fst hcounts
  have herr : (B.submitConnect n.reactor i sock i syscalls).2
      = (n.loop.orch.reactor.submitConnect syscalls).2 := congrArg Prod.snd hcounts
  have hslot' : loop.orch.slots[i]? = some slot' := by
    rw [horch, hslots]
    exact List.getElem?_set_self hlt
  have hbusy : busy loop.orch.slots
      = Function.update (busy n.loop.orch.slots) i
          (if inFlight then some ⟨.connect, .null, 0⟩ else none) := by
    rw [horch, hslots, busy_set hslot, hinUse, hop]
  have hsettle : (n.opened i sock).settle layout loop i [] false syscalls true
      = .ok ⟨loop, (B.submitConnect n.reactor i sock i syscalls).1, (n.opened i sock).socks⟩ := by
    have hcall : call layout i sock slot'.world.conn.op syscalls true n.reactor
        (.submitConnect (n.loop.orch.reactor.submitConnect syscalls).2.toInt)
          = .ok (B.submitConnect n.reactor i sock i syscalls).1 := by
      rw [call, answered, herr, if_pos rfl]
    rw [settle_eq hslot' htrace, hsock, Bool.false_and, List.foldlM_cons]
    change (call layout i sock slot'.world.conn.op syscalls true n.reactor _ >>= fun r =>
      pure r) >>= _ = _
    rw [hcall]
    rfl
  rw [← hreactor, ← horch] at hnow
  cases inFlight with
  | true =>
      have hanswer := herr.trans (hok.1 rfl)
      rw [if_pos hanswer] at hleaves
      have hconnected := hlinked.connect ⟨.connect, .null, 0⟩ hidle
        (by rw [hawaiting]; exact List.not_mem_nil) hnew hanswer hleaves
      rw [if_pos rfl] at hbusy
      rw [← hbusy] at hconnected
      exact hconnected.settles hsettle hnow
  | false =>
      have hanswer : (B.submitConnect n.reactor i sock i syscalls).2 ≠ .ok := by
        rw [herr]
        exact fun heq => Bool.false_ne_true (hok.2 heq)
      rw [if_neg hanswer, ← opens_update_sock hidle sock] at hleaves
      have hrefused := (hlinked.opened hidle sock).refused ?_ hanswer rfl hleaves
      · rw [if_neg Bool.false_ne_true, ← hidle, Function.update_eq_self] at hbusy
        rw [← hbusy] at hrefused
        exact hrefused.settles hsettle hnow
      · intro op hi
        rw [hidle] at hi
        cases hi

/-- A turn of the filling loop in which no socket is made. -/
theorem Coupled.fill_quiet (h : Coupled layout Holds n) {i nowMs : Nat}
    (hpc : n.loop.pc = .fill i nowMs) {sock : Option Nat}
    (hquiet : ∀ s ∈ sock, ∀ slot ∈ n.loop.orch.slots[i]?,
      (slot.inUse || n.loop.targetStarted) = true) (syscalls : ConnectSyscalls) :
    Carries layout Holds n (.fill sock syscalls) (.fill sock.isSome syscalls) := by
  have hstep := step_fill_quiet layout hpc hquiet syscalls
  cases hloop : n.loop.step (.fill sock.isSome syscalls) with
  | error a =>
      refine .aborts a ?_ hloop
      rw [hstep, Node.turn, hloop]
      rfl
  | ok loop =>
      have hok := hloop
      unfold Loop.step at hok
      rw [hpc] at hok
      have hnone {slot : Slot E} (hslot : n.loop.orch.slots[i]? = some slot)
          (hvacant : slot.inUse = false) (htarget : n.loop.targetStarted = false) :
          sock = none := by
        cases sock with
        | none => rfl
        | some s =>
            have hdone := hquiet s rfl slot hslot
            rw [hvacant, htarget] at hdone
            cases hdone
      cases Loop.fillTurn_ok hok with
      | passes slot => exact h.moves hstep hloop rfl rfl (by rw [hpc]; rfl)
      | leaves =>
          exact h.moves hstep hloop (by simp) (by simp) (by rw [awaiting_leaveFill, hpc]; rfl)
      | starts slot orch' hslot hvacant htarget hstart =>
          obtain rfl := hnone hslot hvacant htarget
          cases hstart
      | refused slot orch' hslot hvacant htarget hstart =>
          obtain rfl := hnone hslot hvacant htarget
          cases hstart
          exact h.moves hstep hloop (by simp [Orchestrator.refuse]) (by simp [Orchestrator.refuse])
            (by rw [awaiting_leaveFill, hpc]; rfl)

/-- A turn of the filling loop in which a connection is started. -/
theorem Coupled.fill_start (h : Coupled layout Holds n) (hkeeps : B.Keeps Holds) {i nowMs : Nat}
    (hpc : n.loop.pc = .fill i nowMs) {slot : Slot E}
    (hslot : n.loop.orch.slots[i]? = some slot) (hvacant : slot.inUse = false)
    (htarget : n.loop.targetStarted = false) {sock : Nat}
    (hnew : sock ∉ opens (busy n.loop.orch.slots) n.socks) (syscalls : ConnectSyscalls) :
    Carries layout Holds n (.fill (some sock) syscalls) (.fill true syscalls) := by
  have hstep := step_fill layout hpc hslot hvacant htarget sock syscalls
  cases hloop : n.loop.step (.fill true syscalls) with
  | error a =>
      refine .aborts a ?_ hloop
      rw [hstep, Node.turn, hloop]
      rfl
  | ok loop =>
      have hok := hloop
      unfold Loop.step at hok
      rw [hpc] at hok
      rw [Node.turn, hloop] at hstep
      refine Settles.carries ?_ hstep hloop
      cases Loop.fillTurn_ok hok with
      | passes other hother hinUse =>
          obtain rfl := Option.some.inj (hslot.symm.trans hother)
          rw [hvacant] at hinUse
          cases hinUse
      | leaves hdone =>
          rw [htarget] at hdone
          cases (hdone slot hslot).2
      | starts other orch' hother _ _ hstart =>
          obtain rfl := Option.some.inj (hslot.symm.trans hother)
          exact settles_start h hkeeps hpc hslot hvacant hnew hstart rfl rfl
      | refused other orch' hother _ _ hstart =>
          obtain rfl := Option.some.inj (hslot.symm.trans hother)
          exact settles_start h hkeeps hpc hslot hvacant hnew hstart (by simp)
            (awaiting_leaveFill _ _)

theorem Coupled.fill (h : Coupled layout Holds n) (hkeeps : B.Keeps Holds) {i nowMs : Nat}
    (hpc : n.loop.pc = .fill i nowMs) {sock : Option Nat}
    (hnew : ∀ s ∈ sock, ∀ j slot, n.loop.orch.slots[j]? = some slot → slot.inUse = true →
      n.socks j ≠ s) (syscalls : ConnectSyscalls) :
    Carries layout Holds n (.fill sock syscalls) (.fill sock.isSome syscalls) := by
  by_cases hquiet : ∀ s ∈ sock, ∀ slot ∈ n.loop.orch.slots[i]?,
      (slot.inUse || n.loop.targetStarted) = true
  · exact h.fill_quiet hpc hquiet syscalls
  push Not at hquiet
  obtain ⟨s, hs, slot, hslot, hstarts⟩ := hquiet
  obtain rfl : sock = some s := hs
  obtain ⟨hvacant, htarget⟩ : slot.inUse = false ∧ n.loop.targetStarted = false := by
    simpa using hstarts
  refine h.fill_start hkeeps hpc hslot hvacant htarget ?_ syscalls
  rintro ⟨j, hj, heq⟩
  obtain ⟨op, hop⟩ := Option.isSome_iff_exists.1 hj
  obtain ⟨slot', hslot', hinUse, -⟩ := busy_eq_some_iff.1 hop
  exact hnew s rfl j slot' hslot' hinUse heq

/-! ### Polling -/

theorem length_contents (conn : Connection E) {op : IoOp} (hinside : op.Inside)
    (hkind : op.kind = .write) {length : Nat} (hle : length ≤ op.bufLen) :
    (conn.contents op.buf length).length = length := by
  unfold IoOp.Inside at hinside
  cases hbuf : op.buf with
  | null =>
      rw [hbuf, hkind] at hinside
      cases hinside.1
  | readBuf offset =>
      rw [hbuf, hkind] at hinside
      cases hinside.1
  | writeBuf =>
      rw [hbuf] at hinside
      exact Buffer.length_slice _ (hle.trans (Nat.le_of_lt hinside.2.2))
  | cipherBuf =>
      rw [hbuf, hkind] at hinside
      rcases hinside with ⟨hread, -⟩ | ⟨-, hsize⟩
      · cases hread
      · exact Buffer.length_slice _ (hle.trans hsize)

@[simp] theorem completion_slot (orch : Orchestrator E) (received : Nat → Bytes)
    (user : UserResult) : (completion orch received user).slot = user.userData := by
  unfold completion
  dsimp only
  cases orch.slots[user.userData]? <;> rfl

/-- A completion that is owed is one the connection can take, with the bytes it speaks of. -/
theorem delivers_completion {orch : Orchestrator E} {received : Nat → Bytes} {user : UserResult}
    {slot : Slot E} (hslot : orch.slots[user.userData]? = some slot)
    (hheld : slot.world.inFlight = [slot.world.conn.op]) (hinside : slot.world.conn.op.Inside)
    (hkind : user.result.kind = slot.world.conn.op.kind)
    (hle : user.result.bytesTransferred ≤ slot.world.conn.op.bufLen)
    (hfailed : user.result.result ≠ 0 → user.result.bytesTransferred = 0)
    (hconnect : user.result.kind = .connect → user.result.bytesTransferred = 0)
    (hread : user.result.kind = .read →
      (received user.userData).length = user.result.bytesTransferred) :
    (completion orch received user).data.length = user.result.bytesTransferred
      ∧ Delivers slot.world (completion orch received user).op
        (completion orch received user).result (completion orch received user).data := by
  have hop : (completion orch received user).op = slot.world.conn.op := by
    simp [completion, hslot, hkind]
  have hresult : (completion orch received user).result = user.result.result := by
    simp [completion, hslot]
  have hdata : (completion orch received user).data.length = user.result.bytesTransferred
      ∧ (user.result.kind = .write → (completion orch received user).data
        = slot.world.conn.contents slot.world.conn.op.buf user.result.bytesTransferred) := by
    cases hcase : user.result.kind with
    | connect => simp [completion, hslot, hcase, hconnect hcase]
    | read => simp [completion, hslot, hcase, hread hcase]
    | write =>
        have hlength := length_contents slot.world.conn hinside (hkind.symm.trans hcase) hle
        simp [completion, hslot, hcase, hlength]
  obtain ⟨hlength, hwrite⟩ := hdata
  refine ⟨hlength, ?_, ?_, ?_, ?_⟩
  · rw [hop, hheld]
    exact List.mem_singleton_self _
  · rw [hop, hlength]
    exact hle
  · intro hne
    rw [← List.length_eq_zero_iff, hlength]
    exact hfailed (hresult ▸ hne)
  · rw [hop, hlength, ← hkind]
    exact hwrite

theorem step_polled {timeoutMs : Nat} (hpc : n.loop.pc = .poll timeoutMs) {events : List B.Event}
    {received : Nat → Bytes} {nowMs : Nat} {reactor : B.State} {users : List UserResult}
    (hpoll : B.poll n.reactor events pollBatch = .ok (reactor, users))
    (hlengths : ∀ user ∈ users, (completion n.loop.orch received user).data.length
      = user.result.bytesTransferred) :
    n.step layout (.polled events received nowMs)
      = .ok ⟨⟨n.loop.orch, n.loop.totalTarget,
          .dispatch (users.map (completion n.loop.orch received)) nowMs⟩, reactor, n.socks⟩ := by
  have hmap : (users.map (completion n.loop.orch received)).map (fun c => c.data.length)
      = users.map fun user => user.result.bytesTransferred := by
    rw [List.map_map]
    exact List.map_congr_left hlengths
  unfold step
  rw [hpc]
  dsimp only
  rw [hpoll]
  change (if (users.map (completion n.loop.orch received)).map (fun c => c.data.length)
      ≠ users.map (fun user => user.result.bytesTransferred) then Except.error NodeAbort.mismatch
    else n.turn (.polled (users.map (completion n.loop.orch received)) nowMs) >>= fun loop =>
      pure (⟨loop, reactor, n.socks⟩ : Node B E)) = _
  rw [if_neg (not_not_intro hmap), Node.turn]
  unfold Loop.step
  rw [hpc]
  rfl

theorem Coupled.polled (h : Coupled layout Holds n) (hkeeps : B.Keeps Holds)
    (hkept : Loop.Kept (fun _ _ => True) n.loop) {timeoutMs : Nat}
    (hpc : n.loop.pc = .poll timeoutMs) {events : List B.Event} {received : Nat → Bytes}
    {nowMs : Nat} (hadm : n.admissible (.polled events received nowMs))
    (hwhole : ¬ B.Breaks n.reactor events pollBatch) :
    ∃ results, Polls n.loop.orch results
      ∧ Carries layout Holds n (.polled events received nowMs) (.polled results nowMs) := by
  obtain ⟨-, hreports, hread⟩ := hadm
  obtain ⟨inFlight, hlinked⟩ := h.linked
  rw [hpc] at hlinked
  have hbusy : ∀ sock ∈ opens (busy n.loop.orch.slots) n.socks,
      sock ∈ inFlight.map Submission.sock := by
    rintro sock ⟨i, hi, rfl⟩
    obtain ⟨op, hop⟩ := Option.isSome_iff_exists.1 hi
    have hin := (hlinked.inFlight ⟨i, n.socks i, op.kind, i⟩).2
      ⟨i, op, hop, List.not_mem_nil, rfl⟩
    exact List.mem_map_of_mem hin
  obtain ⟨reactor, users, rest, hpoll, hlength, hholds, hanswers, hcounts, hops, howed⟩ :=
    hkeeps.poll n.reactor inFlight _ events pollBatch hlinked.holds hbusy hreports hwhole
  obtain ⟨honce, hlinked'⟩ :=
    hlinked.polled (hkeeps.named _ _ _ hlinked.holds) hops hholds hanswers
  have hdelivers : ∀ user ∈ users, ∃ slot, n.loop.orch.slots[user.userData]? = some slot
      ∧ slot.inUse = true
      ∧ (completion n.loop.orch received user).data.length = user.result.bytesTransferred
      ∧ Delivers slot.world (completion n.loop.orch received user).op
        (completion n.loop.orch received user).result
        (completion n.loop.orch received user).data := by
    intro user huser
    obtain ⟨sub, hsub, ⟨huserData, hkind⟩, hle, hfailed, hconnect⟩ := howed user huser
    obtain ⟨i, op, hop, -, rfl⟩ := (hlinked.inFlight sub).1 hsub
    obtain ⟨slot, hslot, hinUse, rfl⟩ := busy_eq_some_iff.1 hop
    obtain rfl : user.userData = i := huserData
    obtain ⟨⟨hreach, -⟩, hlive⟩ := hkept.tended.inUse slot (List.mem_of_getElem? hslot) hinUse
    obtain ⟨hheld, -⟩ := (Conn.flight_of_reachable hreach.reachable).live hlive
    have hinside : slot.world.conn.op.Inside := by
      have hplaced := Conn.placed_of_reachable hreach.reachable slot.world.conn.op
      rw [hheld] at hplaced
      exact (hplaced (List.mem_singleton_self _)).inside
    have hmemory := hlinked.memory _ _ hop List.not_mem_nil
    refine ⟨slot, hslot, hinUse, ?_⟩
    apply delivers_completion hslot hheld hinside hkind _ hfailed hconnect
      (hread _ hpoll user huser)
    exact hle.trans_eq (congrArg OpMemory.bufLen hmemory)
  have hslots : (users.map (completion n.loop.orch received)).map Completion.slot
      = users.map UserResult.userData := by
    rw [List.map_map]
    exact List.map_congr_left fun user _ => completion_slot _ _ user
  refine ⟨users.map (completion n.loop.orch received), ⟨?_, ?_, ?_⟩, ?_⟩
  · rwa [List.length_map]
  · rw [← hslots] at honce
    apply List.Nodup.of_map Prod.fst
    rw [List.map_map]
    exact honce
  · intro c hc
    obtain ⟨user, huser, rfl⟩ := List.mem_map.1 hc
    obtain ⟨slot, hslot, hinUse, -, hdeliver⟩ := hdelivers user huser
    rw [completion_slot]
    exact ⟨slot, hslot, hinUse, hdeliver⟩
  · refine .goesOn _ (step_polled hpc hpoll ?_) ?_ ⟨hcounts.trans h.counts, rest, ?_⟩
    · intro user huser
      obtain ⟨_, _, _, hlength, _⟩ := hdelivers user huser
      exact hlength
    · unfold Loop.step
      rw [hpc]
    · rw [← hslots] at hlinked'
      exact hlinked'

/-! ### Any turn -/

theorem Coupled.iterate (h : Coupled layout Holds n) (hpc : n.loop.pc = .top) (nowMs : Nat) :
    Carries layout Holds n (.iterate nowMs) (.iterate nowMs) := by
  have hstep : n.step layout (.iterate nowMs) = do
      return { n with loop := ← n.turn (.iterate nowMs) } := by
    unfold step
    rw [hpc]
  by_cases hstop : n.loop.orch.stopRequested = true
  · have hloop : n.loop.step (.iterate nowMs) = .ok { n.loop with pc := .returned } := by
      unfold Loop.step
      rw [hpc]
      exact if_pos hstop
    exact h.moves hstep hloop rfl rfl (by rw [hpc]; rfl)
  · have hloop : n.loop.step (.iterate nowMs) = .ok { n.loop with pc := .fill 0 nowMs } := by
      unfold Loop.step
      rw [hpc]
      exact if_neg hstop
    exact h.moves hstep hloop rfl rfl (by rw [hpc]; rfl)

theorem Coupled.carries (h : Coupled layout Holds n) (hkeeps : B.Keeps Holds)
    (hkept : Loop.Kept (fun _ _ => True) n.loop) {nodeTurn : NodeTurn B E}
    (hadm : n.admissible nodeTurn) (hwhole : ¬ n.Breaks nodeTurn) :
    ∃ turn, Loop.admissible n.loop turn ∧ Carries layout Holds n nodeTurn turn := by
  have hfits := hadm.1
  cases nodeTurn with
  | requestStop =>
      refine ⟨.requestStop, ⟨rfl, trivial⟩, ?_⟩
      exact h.moves rfl rfl rfl rfl rfl
  | iterate nowMs =>
      cases hpc : n.loop.pc <;> rw [hpc] at hfits <;> cases hfits
      refine ⟨.iterate nowMs, ⟨by rw [hpc]; rfl, trivial⟩, ?_⟩
      exact h.iterate hpc nowMs
  | fill sock syscalls =>
      cases hpc : n.loop.pc <;> rw [hpc] at hfits <;> cases hfits
      refine ⟨.fill sock.isSome syscalls, ⟨by rw [hpc]; rfl, trivial⟩, ?_⟩
      exact h.fill hkeeps hpc hadm.2 syscalls
  | polled events received nowMs =>
      cases hpc : n.loop.pc <;> rw [hpc] at hfits <;> cases hfits
      obtain ⟨results, hpolls, hcarries⟩ := h.polled hkeeps hkept hpc hadm hwhole
      exact ⟨.polled results nowMs, ⟨by rw [hpc]; rfl, hpolls⟩, hcarries⟩
  | handle entropy resources =>
      cases hpc : n.loop.pc <;> rw [hpc] at hfits <;> cases hfits
      refine ⟨.handle ⟨entropy, submitRc resources⟩, ⟨by rw [hpc]; rfl, trivial⟩, ?_⟩
      exact h.handle hkeeps hkept hpc entropy resources
  | sweep =>
      cases hpc : n.loop.pc <;> rw [hpc] at hfits <;> cases hfits
      refine ⟨.sweep, ⟨by rw [hpc]; rfl, trivial⟩, ?_⟩
      exact h.sweep hkeeps hpc

/-- Nothing comes of a turn that comes upon a broken pipe. -/
theorem step_of_breaks (hkeeps : B.Keeps Holds) {nodeTurn : NodeTurn B E}
    (hadm : n.admissible nodeTurn) (hbreaks : n.Breaks nodeTurn) :
    n.step layout nodeTurn = .error (.reactor .sigpipe) := by
  cases nodeTurn with
  | polled events received nowMs =>
      have hfits := hadm.1
      cases hpc : n.loop.pc <;> rw [hpc] at hfits <;> cases hfits
      unfold step
      rw [hpc]
      dsimp only
      rw [hkeeps.breaks _ _ _ hadm.2.1 hbreaks]
      rfl
  | _ => exact hbreaks.elim

end Turns

/-! ### Runs -/

section Runs

variable {B : Backend} {layout : Layout} {Holds : B.View} {orch : Orchestrator E}
  {totalTarget : UInt64} {reactor : B.State} {n : Node B E}

theorem coupled_begin (hcreated : orch.Created) (hcounts : B.counts reactor = orch.reactor)
    (hholds : Holds reactor [] ∅) : Coupled layout Holds (begin orch totalTarget reactor) := by
  have hvacant (i : Nat) : busy orch.slots i = none := by
    obtain ⟨_, _, _, _, _, _, _, _, _, hcreate⟩ := hcreated
    obtain ⟨tlsCtx, -, rfl⟩ := Orchestrator.create_ok hcreate
    cases hbusy : busy (List.replicate _ (Slot.vacant : Slot E)) i with
    | none => rfl
    | some op =>
        obtain ⟨slot, hslot, hinUse, -⟩ := busy_eq_some_iff.1 hbusy
        rw [List.eq_of_mem_replicate (List.mem_of_getElem? hslot)] at hinUse
        cases hinUse
  have hopens : opens (busy orch.slots) (fun _ => 0) = ∅ := by
    ext sock
    simp [opens, hvacant]
  refine ⟨hcounts, [], ?_, ?_, ?_, ?_⟩
  · change Holds reactor [] (opens (busy orch.slots) fun _ => 0)
    rwa [hopens]
  · intro sub
    simp [begin, Loop.begin, hvacant]
  · intro i j hi
    simp [begin, Loop.begin, hvacant] at hi
  · intro i op hi
    simp [begin, Loop.begin, hvacant] at hi

/-- A run of the two together is a run of the loop. -/
theorem reachable_coupled (hkeeps : B.Keeps Holds) (hcreated : orch.Created)
    (hcounts : B.counts reactor = orch.reactor) (hholds : Holds reactor [] ∅)
    (hreach : n.Reachable layout orch totalTarget reactor) :
    Loop.Reachable orch totalTarget n.loop ∧ Coupled layout Holds n := by
  obtain ⟨turns, run⟩ := hreach
  refine run.invariant (I := fun n => Loop.Reachable orch totalTarget n.loop
    ∧ Coupled layout Holds n) ⟨⟨[], .nil⟩, coupled_begin hcreated hcounts hholds⟩ ?_
  rintro n nodeTurn n' ⟨hreach, hcoupled⟩ ⟨hadm, hstep⟩
  have hwhole : ¬ n.Breaks nodeTurn := by
    intro hbreaks
    have heq := (step_of_breaks hkeeps hadm hbreaks).symm.trans hstep
    cases heq
  obtain ⟨turn, hturn, hcarries⟩ := hcoupled.carries hkeeps (hreach.kept hcreated) hadm hwhole
  cases hcarries with
  | goesOn m hok hloop hcoupled' =>
      obtain rfl : m = n' := Except.ok.inj (hok.symm.trans hstep)
      obtain ⟨turns, run⟩ := hreach
      exact ⟨⟨_, run.snoc ⟨hturn, hloop⟩⟩, hcoupled'⟩
  | aborts a hfails =>
      have heq := hfails.symm.trans hstep
      cases heq

/-- A turn of the two is one of the loop, and where it fails it is the loop that fails. -/
def Matches (layout : Layout) (n : Node B E) (nodeTurn : NodeTurn B E) : Prop :=
  ∃ turn, Loop.admissible n.loop turn
    ∧ ((∃ n', n.step layout nodeTurn = .ok n' ∧ n.loop.step turn = .ok n'.loop)
      ∨ ∃ a, a ≠ .reactorForget ∧ n.step layout nodeTurn = .error (.loop a)
        ∧ n.loop.step turn = .error a)

/-- The loop and its reactor go together: what they do is what the loop alone may do, and where they
fail it is the loop that fails. -/
structure Follows (layout : Layout) (orch : Orchestrator E) (totalTarget : UInt64) (n : Node B E) :
    Prop where
  reachable : Loop.Reachable orch totalTarget n.loop
  counts : B.counts n.reactor = n.loop.orch.reactor
  turns : ∀ nodeTurn, n.admissible nodeTurn → n.Matches layout nodeTurn

/-- They go together until a pipe breaks, which is the end of the process. -/
structure FollowsUnbroken (layout : Layout) (orch : Orchestrator E) (totalTarget : UInt64)
    (n : Node B E) : Prop where
  reachable : Loop.Reachable orch totalTarget n.loop
  counts : B.counts n.reactor = n.loop.orch.reactor
  turns : ∀ nodeTurn, n.admissible nodeTurn → ¬ n.Breaks nodeTurn → n.Matches layout nodeTurn
  broken : ∀ nodeTurn, n.admissible nodeTurn → n.Breaks nodeTurn →
    n.step layout nodeTurn = .error (.reactor .sigpipe)

theorem followsUnbroken_of_reachable (hkeeps : B.Keeps Holds) (hcreated : orch.Created)
    (hcounts : B.counts reactor = orch.reactor) (hholds : Holds reactor [] ∅)
    (hreach : n.Reachable layout orch totalTarget reactor) :
    n.FollowsUnbroken layout orch totalTarget := by
  obtain ⟨hloop, hcoupled⟩ := reachable_coupled hkeeps hcreated hcounts hholds hreach
  refine ⟨hloop, hcoupled.counts, ?_, fun _ hadm => step_of_breaks hkeeps hadm⟩
  intro nodeTurn hadm hwhole
  obtain ⟨turn, hturn, hcarries⟩ := hcoupled.carries hkeeps (hloop.kept hcreated) hadm hwhole
  refine ⟨turn, hturn, ?_⟩
  cases hcarries with
  | goesOn n' hok hstep => exact .inl ⟨n', hok, hstep⟩
  | aborts a hfails hstep =>
      refine .inr ⟨a, ?_, hfails, hstep⟩
      rintro rfl
      exact (hloop.ends hcreated hstep).ne_forget rfl

/-- The connection in a slot waits for an operation that has not been reported. -/
def Waits (n : Node B E) (i : Nat) (op : IoOp) : Prop :=
  busy n.loop.orch.slots i = some op ∧ i ∉ awaiting n.loop.pc

end Runs

/-! ### Sample runs -/

abbrev SampleNode (B : Backend) := Node B (recordEngine Conn.sampleInfo)
abbrev SampleNodeTurn (B : Backend) := NodeTurn B (recordEngine Conn.sampleInfo)

/-- A run of a sample orchestrator for one attempt, over a reactor. -/
def playNode (B : Backend) [∀ r events, Decidable (B.Reports r events)] (reactor : B.State)
    (turns : List (SampleNodeTurn B)) : Option (SampleNode B) :=
  match Loop.createSample .none with
  | .ok (some orch) => (machine fun _ _ => 0).exec (begin orch 1 reactor) turns
  | _ => none

theorem run_of_playNode {B : Backend} [∀ r events, Decidable (B.Reports r events)]
    {reactor : B.State} {turns : List (SampleNodeTurn B)} {n : SampleNode B}
    (h : playNode B reactor turns = some n) :
    ∃ orch, Loop.createSample .none = .ok (some orch)
      ∧ n.Reachable (fun _ _ => 0) orch 1 reactor := by
  unfold playNode at h
  split at h
  · rename_i orch hcreate
    exact ⟨orch, hcreate, _, Machine.run_of_exec h⟩
  · cases h

/-- The turns up to the greeting, with what the kernel reports for the two polls. -/
def greetedTurns {B : Backend} (connected greeted : B.Event) : List (SampleNodeTurn B) :=
  [.iterate 0, .fill (some 5) ⟨true, true⟩, .fill none ⟨true, true⟩,
    .polled [connected] (fun _ => []) 0, .handle () true, .handle () true, .sweep, .sweep,
    .iterate 0, .fill none ⟨true, true⟩, .fill none ⟨true, true⟩,
    .polled [greeted] (fun _ => bytes "220 mx\r\n") 0, .handle () true]

section Epoll

variable {layout : Layout} {orch : Orchestrator E} {totalTarget : UInt64} {reactor : Epoll}
  {n : Node Backend.epoll E}

/-- **The orchestrator over epoll.** On the Linux backend the loop does what it may do on its own,
no assertion of the backend fails, and no wakeup is lost: while a connection waits its descriptor is
armed for just that, and no descriptor stays registered behind its slot. -/
theorem epoll_carries_loop {maxConnections : Nat} {answers : Epoll.CreateAnswers}
    {ops : Nat → OpMemory} (hcreated : orch.Created)
    (hmade : Epoll.create maxConnections answers ops = some reactor)
    (hsize : orch.reactor.maxConnections = maxConnections)
    (hreach : Reachable (B := Backend.epoll) layout orch totalTarget reactor n) :
    n.Follows layout orch totalTarget
      ∧ (∀ i op, n.Waits i op →
        Epoll.interests n.reactor (n.socks i) = some ⟨op.kind.mask, some i⟩)
      ∧ ∀ sock, (Epoll.interests n.reactor sock).isSome = true
        ↔ ∃ i, (busy n.loop.orch.slots i).isSome = true ∧ n.socks i = sock := by
  obtain rfl := Epoll.create_eq hmade
  have hcounts : Backend.epoll.counts ⟨maxConnections, 0, fun _ => none, ops⟩ = orch.reactor := by
    obtain ⟨_, _, _, _, _, _, _, _, _, hcreate⟩ := hcreated
    obtain ⟨tlsCtx, -, rfl⟩ := Orchestrator.create_ok hcreate
    rw [← hsize]
    rfl
  have hholds : Epoll.Holds ⟨maxConnections, 0, fun _ => none, ops⟩ [] ∅ :=
    ⟨⟨by simp, by simp, by simp, by simp, by simp⟩, by simp⟩
  have hfollows := followsUnbroken_of_reachable Epoll.keeps hcreated hcounts hholds hreach
  have hwhole : ∀ nodeTurn, ¬ n.Breaks nodeTurn := by
    intro nodeTurn hbreaks
    cases nodeTurn <;> exact hbreaks
  refine ⟨⟨hfollows.reachable, hfollows.counts, fun nodeTurn hadm =>
    hfollows.turns nodeTurn hadm (hwhole nodeTurn)⟩, ?_⟩
  obtain ⟨-, -, inFlight, hlinked⟩ :=
    reachable_coupled Epoll.keeps hcreated hcounts hholds hreach
  constructor
  · rintro i op ⟨hbusy, hnot⟩
    have hsub := (hlinked.inFlight ⟨i, n.socks i, op.kind, i⟩).2 ⟨i, op, hbusy, hnot, rfl⟩
    exact hlinked.holds.tracks.armed _ hsub
  · exact hlinked.holds.registered

/-- Greeted, and the EHLO on its way out. -/
theorem epoll_carries_loop_greeted :
    ∃ (orch : Orchestrator (recordEngine Conn.sampleInfo)) (n : SampleNode Backend.epoll),
      Loop.createSample .none = .ok (some orch) ∧ n.Follows (fun _ _ => 0) orch 1
        ∧ Epoll.interests n.reactor (n.socks 0) = some ⟨[.epollOut], some 0⟩ := by
  have hplay : ((playNode Backend.epoll
      (⟨1, 0, fun _ => none, fun _ => ⟨0, none, 0, .read, 0⟩⟩ : Epoll)
      (greetedTurns (⟨5, [.epollOut], 0, .wouldBlock⟩ : RawEvent)
        (⟨5, [.epollIn], 0, .bytes 8⟩ : RawEvent))).map
          fun n => (busy n.loop.orch.slots 0, awaiting n.loop.pc))
      = some (some ⟨.write, .writeBuf, 9⟩, []) := by
    decide +kernel
  obtain ⟨n, hn, heq⟩ := Option.map_eq_some_iff.1 hplay
  obtain ⟨hbusy, hawaiting⟩ := Prod.mk.inj heq
  obtain ⟨orch, hcreate, hreach⟩ := run_of_playNode hn
  have hsize : orch.reactor.maxConnections = 1 := by
    obtain ⟨tlsCtx, -, rfl⟩ := Orchestrator.create_ok hcreate
    rfl
  obtain ⟨hfollows, harmed, -⟩ := @epoll_carries_loop _ _ _ 1 _ _ 1 ⟨true, true, true⟩ _
    ⟨_, _, _, _, _, _, _, _, _, hcreate⟩ rfl hsize hreach
  refine ⟨orch, n, hcreate, hfollows, harmed 0 _ ⟨hbusy, ?_⟩⟩
  rw [hawaiting]
  exact List.not_mem_nil

end Epoll

section Kqueue

variable {layout : Layout} {orch : Orchestrator E} {totalTarget : UInt64} {reactor : Kqueue}
  {n : Node Backend.kqueue E}

/-- **The orchestrator over kqueue.** On the BSD backend too, and the filters that are there are
those the connections wait on. But nobody sets `SO_NOSIGPIPE`: a poll that writes to a server that
is gone is the end of the process, and nothing else in the backend is. -/
theorem kqueue_carries_loop {maxConnections : Nat} {answers : Kqueue.CreateAnswers}
    {ops : Nat → OpMemory} (hcreated : orch.Created)
    (hmade : Kqueue.create maxConnections answers ops = some reactor)
    (hsize : orch.reactor.maxConnections = maxConnections)
    (hreach : Reachable (B := Backend.kqueue) layout orch totalTarget reactor n) :
    n.FollowsUnbroken layout orch totalTarget
      ∧ ∀ sock filter i, Kqueue.filters n.reactor sock filter = some i
        ↔ ∃ op, n.Waits i op ∧ n.socks i = sock ∧ op.kind.filter = filter := by
  obtain rfl := Kqueue.create_eq hmade
  have hcounts : Backend.kqueue.counts ⟨maxConnections, 0, fun _ _ => none, ops⟩
      = orch.reactor := by
    obtain ⟨_, _, _, _, _, _, _, _, _, hcreate⟩ := hcreated
    obtain ⟨tlsCtx, -, rfl⟩ := Orchestrator.create_ok hcreate
    rw [← hsize]
    rfl
  have hholds : Kqueue.Holds ⟨maxConnections, 0, fun _ _ => none, ops⟩ [] ∅ :=
    ⟨by simp, by simp, by simp, by simp⟩
  refine ⟨followsUnbroken_of_reachable Kqueue.keeps hcreated hcounts hholds hreach, ?_⟩
  obtain ⟨-, -, inFlight, hlinked⟩ :=
    reachable_coupled Kqueue.keeps hcreated hcounts hholds hreach
  intro sock filter i
  have htracks : Kqueue.Tracks n.reactor inFlight := hlinked.holds
  rw [htracks.armed]
  constructor
  · rintro ⟨sub, hsub, rfl, rfl, rfl⟩
    obtain ⟨j, op, hbusy, hnot, rfl⟩ := (hlinked.inFlight sub).1 hsub
    exact ⟨op, ⟨hbusy, hnot⟩, rfl, rfl⟩
  · rintro ⟨op, ⟨hbusy, hnot⟩, rfl, rfl⟩
    exact ⟨_, (hlinked.inFlight _).2 ⟨i, op, hbusy, hnot, rfl⟩, rfl, rfl, rfl⟩

/-- Greeted, and the EHLO on its way to a server that has reset the connection. -/
theorem kqueue_carries_loop_greeted :
    ∃ (orch : Orchestrator (recordEngine Conn.sampleInfo)) (n : SampleNode Backend.kqueue),
      Loop.createSample .none = .ok (some orch) ∧ n.FollowsUnbroken (fun _ _ => 0) orch 1
        ∧ Kqueue.filters n.reactor (n.socks 0) .evfiltWrite = some 0
        ∧ n.step (fun _ _ => 0) (.polled [(⟨5, .evfiltWrite, 0, .failed Kqueue.epipe, false⟩ :
          KqueueEvent)] (fun _ => []) 0) = .error (.reactor .sigpipe) := by
  have hplay : (playNode Backend.kqueue
      (⟨1, 0, fun _ _ => none, fun _ => ⟨0, none, 0, .read, 0⟩⟩ : Kqueue)
      (greetedTurns (⟨5, .evfiltWrite, 0, .wouldBlock, false⟩ : KqueueEvent)
        (⟨5, .evfiltRead, 0, .bytes 8, false⟩ : KqueueEvent)
        ++ [.handle () true, .sweep, .sweep, .iterate 0, .fill none ⟨true, true⟩,
          .fill none ⟨true, true⟩])).any (fun n =>
        busy n.loop.orch.slots 0 = some ⟨.write, .writeBuf, 9⟩ ∧ awaiting n.loop.pc = []
          ∧ n.socks 0 = 5 ∧ (Kqueue.ops n.reactor 0).kind = .write
          ∧ n.admissible (.polled [(⟨5, .evfiltWrite, 0, .failed Kqueue.epipe, false⟩ :
            KqueueEvent)] (fun _ => []) 0)) = true := by
    decide +kernel
  obtain ⟨n, hn, hchecked⟩ := (Option.any_eq_true _ _).mp hplay
  obtain ⟨hbusy, hawaiting, hsock, hkind, hadm⟩ := of_decide_eq_true hchecked
  obtain ⟨orch, hcreate, hreach⟩ := run_of_playNode hn
  have hsize : orch.reactor.maxConnections = 1 := by
    obtain ⟨tlsCtx, -, rfl⟩ := Orchestrator.create_ok hcreate
    rfl
  obtain ⟨hfollows, harmed⟩ := @kqueue_carries_loop _ _ _ 1 _ _ 1 ⟨true, true, true⟩ _
    ⟨_, _, _, _, _, _, _, _, _, hcreate⟩ rfl hsize hreach
  have hfilter : Kqueue.filters n.reactor (n.socks 0) .evfiltWrite = some 0 := by
    refine (harmed _ _ 0).2 ⟨_, ⟨hbusy, ?_⟩, rfl, rfl⟩
    rw [hawaiting]
    exact List.not_mem_nil
  refine ⟨orch, n, hcreate, hfollows, hfilter, hfollows.broken _ hadm ?_⟩
  exact ⟨_, List.mem_singleton_self _, 0, hsock ▸ hfilter, hkind, rfl, rfl⟩

end Kqueue

end Node

end SmtpClient
