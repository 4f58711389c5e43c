import SmtpClient.Proof.Shown
import SmtpClient.Proof.ReplyLines

/-!
# What a connection writes to the log

The logger aborts over a line break in a detail, so every detail is followed from where it comes.
The summary of the capabilities is built from texts the reply parser has let through and never
contains one. The greeting is copied across its line ends, so a greeting of several lines aborts
unless its first line fills the copy; and the text about the certificate is passed on as the engine
gave it.
-/

namespace SmtpClient

/-! ### Texts without line breaks -/

def Clean (text : Bytes) : Prop := ∀ c ∈ text, c ≠ 13 ∧ c ≠ 10

theorem clean_iff {text : Bytes} : containsCrOrLf text = false ↔ Clean text := by
  rw [containsCrOrLf_eq_false_iff]
  constructor
  · intro h c hc
    exact ⟨fun heq => h.1 (heq ▸ hc), fun heq => h.2 (heq ▸ hc)⟩
  · intro h
    exact ⟨fun hc => (h 13 hc).1 rfl, fun hc => (h 10 hc).2 rfl⟩

instance (text : Bytes) : Decidable (Clean text) := decidable_of_iff _ clean_iff

theorem Clean.subset {text part : Bytes} (h : Clean text) (hpart : part ⊆ text) : Clean part :=
  fun c hc => h c (hpart hc)

theorem Clean.append {text text' : Bytes} (h : Clean text) (h' : Clean text') :
    Clean (text ++ text') := by
  intro c hc
  rcases List.mem_append.mp hc with hc | hc
  · exact h c hc
  · exact h' c hc

theorem Clean.clip {text : Bytes} (h : Clean text) (size : Nat) : Clean (clip size text) :=
  h.subset fun _ => mem_of_mem_clip

theorem Clean.cstr {text : Bytes} (h : Clean text) : Clean (cstr text) :=
  h.subset fun _ => mem_of_mem_cstr

theorem clean_nil : Clean [] := fun _ hc => nomatch hc

namespace Cap

open Reply

/-! ### What a capability set keeps of the reply -/

theorem params_subset (text : Bytes) : (extractKeywordAndKey text).2 ⊆ text := by
  unfold extractKeywordAndKey
  dsimp only
  split
  · exact List.drop_subset ..
  · exact List.nil_subset _

/-- What a line can add to the texts and the number that are kept. -/
structure Stores (caps : Capabilities) (text : Bytes) (caps' : Capabilities) : Prop where
  authRaw : caps'.authRaw = caps.authRaw
    ∨ caps'.authRaw = clip maxParamLen (extractKeywordAndKey text).2
  unknown : ∀ entry ∈ caps'.unknown, entry ∈ caps.unknown
    ∨ ∃ n, entry.keyword = clip maxKeywordLen (text.take n)
  sizeLimit : caps'.sizeLimit = caps.sizeLimit
    ∨ parseSizeParam (extractKeywordAndKey text).2 = some caps'.sizeLimit

theorem stores_storeUnknown (caps : Capabilities) (text params : Bytes) (n : Nat) :
    Stores caps text (storeUnknown caps (text.take n) params) := by
  unfold storeUnknown
  split
  · exact ⟨Or.inl rfl, fun _ => Or.inl, Or.inl rfl⟩
  · refine ⟨Or.inl rfl, fun entry hentry => ?_, Or.inl rfl⟩
    rcases List.mem_append.mp hentry with hentry | hentry
    · exact Or.inl hentry
    · obtain rfl := List.mem_singleton.mp hentry
      exact Or.inr ⟨n, rfl⟩

theorem stores_parseLine (caps : Capabilities) (text : Bytes) :
    Stores caps text (parseLine caps text) := by
  have hflag : Stores caps text caps := ⟨Or.inl rfl, fun _ => Or.inl, Or.inl rfl⟩
  have hsame {caps' : Capabilities} (hauth : caps'.authRaw = caps.authRaw)
      (hunknown : caps'.unknown = caps.unknown) (hsize : caps'.sizeLimit = caps.sizeLimit) :
      Stores caps text caps' :=
    ⟨Or.inl hauth, fun entry hentry => Or.inl (hunknown ▸ hentry), Or.inl hsize⟩
  unfold parseLine
  refine iteInduction (fun _ => hflag) fun _ => ?_
  refine iteInduction (fun _ => hsame rfl rfl rfl) fun _ => ?_
  refine iteInduction (fun _ => ?_) fun _ => ?_
  · cases hsize : parseSizeParam (extractKeywordAndKey text).2 with
    | none => exact hsame rfl rfl rfl
    | some value => exact ⟨Or.inl rfl, fun _ => Or.inl, Or.inr hsize⟩
  refine iteInduction (fun _ => ⟨Or.inr rfl, fun _ => Or.inl, Or.inl rfl⟩) fun _ => ?_
  -- The flags, and what is no known keyword.
  iterate 7 refine iteInduction (fun _ => hsame rfl rfl rfl) fun _ => ?_
  exact stores_storeUnknown caps text _ _

/-- What every line of text keeps holds after a reply. -/
theorem invariant_of_parse {P : Capabilities → Prop} (hinit : P init)
    (hline : ∀ caps text caps', P caps → (∀ c ∈ text, isTextChar c = true) →
      Stores caps text caps' → P caps')
    {caps parsed : Capabilities} {buf : Bytes} {maxLines : Nat} {reply : Reply}
    (h : parseEhloResponse caps buf maxLines = some (.ok reply, parsed)) : P parsed := by
  obtain ⟨lines, hlines, -, hparse⟩ := parseEhloResponse_eq (read_of_parseEhloResponse h) caps
  rw [hparse] at h
  cases h
  apply List.foldlRecOn _ _ hinit
  intro caps hcaps text htext
  obtain ⟨line, hline', rfl⟩ := List.mem_map.mp (List.mem_of_mem_tail htext)
  exact hline caps _ _ hcaps (hlines.isTextChar line hline') (stores_parseLine caps _)

/-! ### The summary of the capabilities -/

/-- The texts a capability set keeps of the reply. -/
structure Printable (caps : Capabilities) : Prop where
  authRaw : Clean caps.authRaw
  unknown : ∀ entry ∈ caps.unknown, Clean entry.keyword

theorem printable_init : Printable init := ⟨clean_nil, fun _ hentry => nomatch hentry⟩

theorem Printable.stores {caps caps' : Capabilities} {text : Bytes} (h : Printable caps)
    (htext : Clean text) (hstores : Stores caps text caps') : Printable caps' where
  authRaw := by
    rcases hstores.authRaw with heq | heq
    · rw [heq]
      exact h.authRaw
    · rw [heq]
      exact (htext.subset (params_subset text)).clip _
  unknown := by
    intro entry hentry
    rcases hstores.unknown entry hentry with hold | ⟨n, heq⟩
    · exact h.unknown entry hold
    · rw [heq]
      exact (htext.subset (List.take_subset ..)).clip _

theorem printable_of_parse {caps parsed : Capabilities} {buf : Bytes} {maxLines : Nat}
    {reply : Reply} (h : parseEhloResponse caps buf maxLines = some (.ok reply, parsed)) :
    Printable parsed :=
  invariant_of_parse printable_init
    (fun _ _ _ hcaps htext => hcaps.stores fun c hc => ne_crLf_of_isTextChar (htext c hc)) h

theorem digit_of_mem_decimal {n : Nat} {c : UInt8} (h : c ∈ decimal n) :
    48 ≤ c.toNat ∧ c.toNat ≤ 57 := by
  obtain ⟨d, hd, rfl⟩ := List.mem_map.mp h
  have hdigit : d.isDigit = true := Nat.isDigit_of_mem_toDigits (by decide) (by decide) hd
  simp only [Char.isDigit, Bool.and_eq_true, decide_eq_true_eq] at hdigit
  have hlow : 48 ≤ d.toNat := hdigit.1
  have hhigh : d.toNat ≤ 57 := hdigit.2
  have hnat : (UInt8.ofNat d.toNat).toNat = d.toNat := by
    rw [UInt8.toNat_ofNat']
    exact Nat.mod_eq_of_lt (by omega)
  omega

theorem clean_decimal (n : Nat) : Clean (decimal n) := by
  intro c hc
  have hdigit := digit_of_mem_decimal hc
  constructor
  · rintro rfl
    exact absurd hdigit.1 (by decide)
  · rintro rfl
    exact absurd hdigit.1 (by decide)

theorem clean_summaryTokens {caps : Capabilities} (h : Printable caps) :
    ∀ token ∈ summaryTokens caps, Clean token := by
  intro token htoken
  have hflag {present : Bool} {name : Bytes} (hname : Clean name)
      (hmem : token ∈ if present = true then [name] else []) : Clean token := by
    split at hmem
    · rwa [List.mem_singleton.mp hmem]
    · exact absurd hmem (by simp)
  simp only [summaryTokens, List.mem_append, or_assoc] at htoken
  rcases htoken with hmem | hmem | hmem | hmem | hmem | hmem | hmem | hmem | hmem | hmem | hmem
  · exact hflag (by decide) hmem
  · exact hflag (by decide) hmem
  · exact hflag (by decide) hmem
  · exact hflag (by decide) hmem
  · exact hflag (by decide) hmem
  · exact hflag (by decide) hmem
  · exact hflag (by decide) hmem
  · exact hflag (by decide) hmem
  · refine hflag (Clean.clip ?_ _) hmem
    split
    · exact Clean.append (by decide) (clean_decimal _)
    · decide
  · exact hflag ((Clean.append (by decide) h.authRaw.cstr).clip _) hmem
  · obtain ⟨entry, hentry, rfl⟩ := List.mem_map.mp hmem
    exact h.unknown entry hentry

theorem clean_appendSummaryToken {dstSize : Nat} {summary : Summary} {token : Bytes}
    (h : Clean summary.dst) (htoken : Clean token) :
    Clean (appendSummaryToken dstSize summary token).dst := by
  have htext : Clean ((if summary.any then [32] else []) ++ cstr token) := by
    refine Clean.append ?_ htoken.cstr
    split <;> decide
  unfold appendSummaryToken
  dsimp only
  split
  · exact (h.subset (List.take_subset ..)).append (htext.clip _)
  · exact h

theorem clean_formatSummary {caps : Capabilities} (h : Printable caps) (dstSize : Nat) :
    Clean (formatSummary caps dstSize) := by
  have hfold (tokens : List Bytes) (summary : Summary) (hdst : Clean summary.dst)
      (htokens : ∀ token ∈ tokens, Clean token) :
      Clean (tokens.foldl (appendSummaryToken dstSize) summary).dst := by
    induction tokens generalizing summary with
    | nil => exact hdst
    | cons token rest ih =>
        refine ih _ (clean_appendSummaryToken hdst (htokens token List.mem_cons_self)) ?_
        exact fun token' hmem => htokens token' (List.mem_cons_of_mem _ hmem)
  unfold formatSummary
  dsimp only
  split
  · exact hfold _ _ clean_nil (clean_summaryTokens h)
  · exact Clean.clip (by decide) _

end Cap

namespace Conn

open World Protocol Reply

variable {E : TlsEngine}

/-! ### The texts of the server -/

theorem clean_copy_iff {text : Bytes} {reply : Reply}
    (h : Reply.read text maxReplyLines = .ok reply) :
    Clean (clip 256 (text.take (reply.consumed - 2)))
      ↔ reply.lineCount = 1 ∨ 255 ≤ (firstLine text).length := by
  obtain ⟨hfirst, hone, hmore⟩ := take_of_read h
  by_cases hcount : reply.lineCount = 1
  · simp only [hcount, true_or, iff_true, hone hcount]
    exact Clean.clip hfirst _
  simp only [hcount, false_or]
  obtain ⟨rest, hrest⟩ := hmore hcount
  rw [← hrest, List.append_assoc]
  unfold clip
  constructor
  · intro hclean
    by_contra hshort
    have hcr : cr ∈ (firstLine text ++ ([cr] ++ rest)).take (256 - 1) := by
      rw [List.take_append, List.take_of_length_le (by omega)]
      refine List.mem_append_right _ ?_
      obtain ⟨n, hn⟩ : ∃ n, 256 - 1 - (firstLine text).length = n + 1 :=
        ⟨254 - (firstLine text).length, by omega⟩
      simp [hn]
    exact (hclean cr hcr).1 rfl
  · intro hlong
    rw [List.take_append_of_le_length (by omega)]
    exact Clean.subset hfirst (List.take_subset ..)

theorem greetingText_eq {w : World E} {n : Nat} {reply : Reply}
    (h : Reply.read (offered w n) maxReplyLines = .ok reply) :
    greetingText w reply = clip 256 ((offered w n).take (reply.consumed - 2)) := by
  obtain ⟨-, hconsumed, -⟩ := readLoop_bounds h
  have hlength := w.conn.readBuf.length_slice_le 0 (w.conn.readLen + n)
  have hle : reply.consumed - 2 ≤ w.conn.readLen + n := by
    unfold offered at hconsumed
    omega
  simp only [greetingText, copyReplyText, offered, Buffer.slice, List.take_take,
    Nat.min_eq_left hle]

theorem greetingText_clean_iff {w : World E} {n : Nat} {reply : Reply}
    (h : Reply.read (offered w n) maxReplyLines = .ok reply) :
    containsCrOrLf (greetingText w reply) = false
      ↔ reply.lineCount = 1 ∨ 255 ≤ (firstLine (offered w n)).length := by
  rw [greetingText_eq h, clean_iff, clean_copy_iff h]

/-- A greeting that is complete with this completion is one line, or its first line fills the copy
that is logged. -/
def LoggableGreeting (w : World E) (result : Int) (data : Bytes) : Prop :=
  w.conn.state = .waitBanner → ∀ text reply, shown w result data = some text →
    Reply.read text maxReplyLines = .ok reply →
      reply.lineCount = 1 ∨ 255 ≤ (firstLine text).length

/-- The bytes a completion feeds the handshake. -/
def handshakeBytes (op : IoOp) (data : Bytes) : Bytes := if op.kind = .read then data else []

/-- If this completion finishes the handshake, the text about the certificate is a line. -/
def LoggableCertificate (w : World E) (op : IoOp) (result : Int) (data : Bytes) : Prop :=
  w.conn.state = .tlsHandshaking → result = 0 → (op.kind = .read → data ≠ []) →
    ∀ tls, w.conn.tls = some tls →
      (E.handshake tls (handshakeBytes op data) readBufSize).status = .ok →
        containsCrOrLf (handshakeLine tls (handshakeBytes op data)).2 = false

def Loggable (w : World E) : Event E → Prop
  | .completion _ op result data _ =>
      LoggableGreeting w result data ∧ LoggableCertificate w op result data
  | _ => True

section Handler

variable {env : Env E} {identity : Bytes} {nowMs : Nat} {w w' : World E} {result : IoResult}

theorem Handled.greetingText_clean (h : Handled env identity nowMs w result w')
    (hstate : w.conn.state = .waitBanner) (hresult : result.result = 0)
    (hbytes : result.bytesTransferred ≠ 0) {reply : Reply}
    (hread : Reply.read (offered w result.bytesTransferred) maxReplyLines = .ok reply) :
    containsCrOrLf (greetingText w reply) = false := by
  cases h with
  | refuses hwhy =>
      cases hwhy with
      | failed hfailed => exact absurd hresult hfailed
      | closed _ hclosed => exact absurd hclosed hbytes
      | short hsends =>
          rw [hstate] at hsends
          exact absurd hsends (by decide)
      | unfinished _ _ hincomplete => exact absurd (hread.symm.trans hincomplete) (by simp)
      | malformed _ _ _ hnot => exact absurd hread (hnot reply)
      | negative reply' _ hread' _ hwhere =>
          obtain rfl := Reply.ReadResult.ok.inj (hread.symm.trans hread')
          rcases hwhere with ⟨-, hclean⟩ | hother
          · exact hclean
          · exact nomatch hstate.symm.trans hother
      | unoffered hother => exact nomatch hstate.symm.trans hother
  | proceeds _ hproceeds =>
      cases hproceeds with
      | waits _ _ hincomplete => exact absurd (hread.symm.trans hincomplete) (by simp)
      | greeted _ _ reply' hread' hclean =>
          obtain rfl := Reply.ReadResult.ok.inj (hread.symm.trans hread')
          exact hclean
      | connected hother | connectedImplicit hother | ehloSent hother | ready hother
      | starttlsWanted hother | starttlsSent hother | starttlsAccepted hother | drives hother
      | securedFirst hother | securedAgain hother => exact nomatch hstate.symm.trans hother

theorem Handled.handshakeLine_clean (h : Handled env identity nowMs w result w')
    (hstate : w.conn.state = .tlsHandshaking) (hresult : result.result = 0)
    (hbytes : result.kind = .read → result.bytesTransferred ≠ 0) {tls : E.State}
    (htls : w.conn.tls = some tls)
    (hstatus : (E.handshake tls (handshakeInput w result) readBufSize).status = .ok) :
    containsCrOrLf (handshakeLine tls (handshakeInput w result)).2 = false := by
  have hnot : awaitsReply w.conn.state = false := by rw [hstate]; rfl
  cases h with
  | refuses hwhy =>
      cases hwhy with
      | failed hfailed => exact absurd hresult hfailed
      | closed hwhere hclosed =>
          rcases hwhere with hawaits | ⟨-, hkind⟩
          · exact absurd hawaits (by simp [hnot])
          · exact absurd hclosed (hbytes hkind)
      | short hsends =>
          rw [hstate] at hsends
          exact absurd hsends (by decide)
      | unfinished hawaits | malformed hawaits => exact absurd hawaits (by simp [hnot])
      | negative _ _ _ _ hwhere =>
          rcases hwhere with ⟨hother, -⟩ | hother <;> exact nomatch hstate.symm.trans hother
      | unoffered hother => exact nomatch hstate.symm.trans hother
  | proceeds _ hproceeds =>
      cases hproceeds with
      | waits hawaits => exact absurd hawaits (by simp [hnot])
      | drives _ tls' htls' hnever =>
          obtain rfl := Option.some.inj (htls.symm.trans htls')
          exact absurd hstatus hnever
      | securedFirst _ tls' htls' _ _ hclean | securedAgain _ tls' htls' _ _ hclean =>
          obtain rfl := Option.some.inj (htls.symm.trans htls')
          exact hclean
      | connected hother | connectedImplicit hother | greeted hother | ehloSent hother
      | ready hother | starttlsWanted hother | starttlsSent hother | starttlsAccepted hother =>
          exact nomatch hstate.symm.trans hother

theorem Aborts.text_of (h : Aborts identity w result .logDetail)
    (hidentity : containsCrOrLf identity = false) :
    (w.conn.state = .waitBanner ∧ result.result = 0 ∧ result.bytesTransferred ≠ 0
        ∧ ∃ reply, Reply.read (offered w result.bytesTransferred) maxReplyLines = .ok reply
          ∧ containsCrOrLf (greetingText w reply) = true)
      ∨ (w.conn.state = .tlsHandshaking ∧ result.result = 0
        ∧ (result.kind = .read → result.bytesTransferred ≠ 0)
        ∧ ∃ tls, w.conn.tls = some tls
          ∧ (E.handshake tls (handshakeInput w result) readBufSize).status = .ok
          ∧ containsCrOrLf (handshakeLine tls (handshakeInput w result)).2 = true) := by
  cases h with
  | greeting hstate hresult hbytes reply hread hdirty =>
      exact .inl ⟨hstate, hresult, hbytes, reply, hread, hdirty⟩
  | summary reply caps hparse hdirty =>
      have hclean := Cap.clean_formatSummary (Cap.printable_of_parse hparse) 256
      exact absurd hdirty (by simp [clean_iff.mpr hclean])
  | identity _ _ _ _ _ _ hdirty | identityAgain _ _ hdirty =>
      exact absurd hdirty (by simp [hidentity])
  | certificate hstate hresult hbytes tls htls hstatus hdirty =>
      exact .inr ⟨hstate, hresult, hbytes, tls, htls, hstatus, hdirty⟩

end Handler

section Deliver

variable {identity : Bytes} {w : World E} {op : IoOp} {result : Int} {data : Bytes}
  (h : Reachable identity w) (hlive : w.conn.state.terminal = false)
  (hdelivers : Delivers w op result data)
include h hlive hdelivers

theorem handshakeInput_deliver (hstate : w.conn.state = .tlsHandshaking) :
    handshakeInput (w.deliver op result data) ⟨op.kind, result, data.length⟩
      = handshakeBytes op data := by
  have hflight := flight_of_reachable h
  obtain ⟨hop, -, -⟩ := hflight.deliver hlive hdelivers
  obtain ⟨-, hfits⟩ := hflight.live hlive
  unfold OpFits at hfits
  rw [hstate] at hfits
  unfold handshakeInput handshakeBytes
  rcases hfits with hread | hwrite
  · rw [slice_deliver_cipherBuf (hop.trans hread) hdelivers.fits]
  · rw [hop, hwrite]
    rfl

theorem loggableGreeting_of_ok {env : Env E} {nowMs : Nat} {w' : World E}
    (honIo : OnIo env identity nowMs (w.deliver op result data) ⟨op.kind, result, data.length⟩
      w') : LoggableGreeting w result data := by
  intro hstate text reply hshown hread
  have hready : (w.deliver op result data).conn.state = .waitBanner := by simpa using hstate
  have hdecrypted {tls : E.State}
      (hdecrypts : Decrypts (w.deliver op result data) ⟨op.kind, result, data.length⟩ tls) :
      (answer w tls data).status = .ok ∧ (answer w tls data).out.length ≠ 0
        ∧ text = offered (Conn.decrypted (w.deliver op result data) tls data.length)
          (answer w tls data).out.length := by
    rw [shown_decrypted h hlive hdelivers hdecrypts] at hshown
    split at hshown
    · rename_i hif
      exact ⟨hif.1, hif.2, (Option.some.inj hshown).symm⟩
    · exact absurd hshown (by simp)
  cases honIo with
  | direct hraw hhandled =>
      rw [shown_raw h hlive hdelivers (by simpa using hraw)] at hshown
      split at hshown
      · rename_i hif
        obtain rfl := Option.some.inj hshown
        exact (greetingText_clean_iff hread).mp
          (hhandled.greetingText_clean hready hif.2.1 hif.2.2 hread)
      · exact absurd hshown (by simp)
  | full tls hdecrypts hroom =>
      have hspace := (hears_of_reachable h).room (by rw [hstate]; rfl)
      rw [deliver_readLen] at hroom
      omega
  | undecided tls hdecrypts _ _ hstatus | broken tls hdecrypts _ _ hstatus =>
      rw [decryption_deliver h hlive hdelivers hdecrypts] at hstatus
      exact nomatch (hdecrypted hdecrypts).1.symm.trans hstatus
  | delivered tls hdecrypts _ _ hstatus hhandled =>
      obtain ⟨-, hbytes, rfl⟩ := hdecrypted hdecrypts
      have heq := decryption_deliver h hlive hdelivers hdecrypts
      unfold decryptedResult at hhandled
      rw [heq] at hhandled
      exact (greetingText_clean_iff hread).mp
        (hhandled.greetingText_clean hready hdecrypts.result hbytes hread)

theorem loggableCertificate_of_ok {env : Env E} {nowMs : Nat} {w' : World E}
    (honIo : OnIo env identity nowMs (w.deliver op result data) ⟨op.kind, result, data.length⟩
      w') : LoggableCertificate w op result data := by
  intro hstate hresult hbytes tls htls hstatus
  have hinput := @handshakeInput_deliver _ _ _ _ _ _ h hlive hdelivers hstate
  cases honIo with
  | direct _ hhandled =>
      rw [← hinput] at hstatus ⊢
      refine hhandled.handshakeLine_clean (by simpa using hstate) hresult (fun hkind => ?_)
        (by simpa using htls) hstatus
      simpa using hbytes hkind
  | full _ hdecrypts | undecided _ hdecrypts | broken _ hdecrypts | delivered _ hdecrypts =>
      exact absurd (by simpa using hstate) hdecrypts.state

theorem not_loggable_of_aborts (hidentity : containsCrOrLf identity = false)
    (haborts : CompletionAborts identity w op result data .logDetail) :
    ¬ (LoggableGreeting w result data ∧ LoggableCertificate w op result data) := by
  rintro ⟨hgreeting, hcertificate⟩
  cases haborts with
  | raw haborts hraw =>
      rcases haborts.text_of hidentity with
        ⟨hstate, hresult, hbytes, reply, hread, hdirty⟩
        | ⟨hstate, hresult, hbytes, tls, htls, hstatus, hdirty⟩
      · rw [deliver_state] at hstate
        have hshown := shown_raw h hlive hdelivers hraw
        rw [if_pos ⟨by rw [hstate]; rfl, hresult, hbytes⟩] at hshown
        have hclean := (greetingText_clean_iff hread).mpr (hgreeting hstate _ reply hshown hread)
        exact absurd hdirty (by simp [hclean])
      · rw [deliver_state] at hstate
        rw [deliver_tls] at htls
        have hinput := @handshakeInput_deliver _ _ _ _ _ _ h hlive hdelivers hstate
        rw [hinput] at hstatus hdirty
        have hclean := hcertificate hstate hresult (fun hkind => by simpa using hbytes hkind) tls
          htls hstatus
        exact absurd hdirty (by simp [hclean])
  | decrypted tls hdecrypts hstatus haborts =>
      have heq := decryption_deliver h hlive hdelivers hdecrypts
      rcases haborts.text_of hidentity with
        ⟨hstate, hresult, hbytes, reply, hread, hdirty⟩ | ⟨hstate, -⟩
      · rw [decrypted_state, deliver_state] at hstate
        simp only [decryptedResult, heq] at hbytes hread hstatus
        have hshown := shown_decrypted h hlive hdelivers hdecrypts
        rw [if_pos ⟨hstatus, hbytes⟩] at hshown
        have hclean := (greetingText_clean_iff hread).mpr (hgreeting hstate _ reply hshown hread)
        exact absurd hdirty (by simp [hclean])
      · exact absurd hstate hdecrypts.state

end Deliver

/-- **Nothing but the greeting and the certificate can abort through the log.** A step of a
reachable connection whose EHLO identity is a line keeps clear of the assertions on the actor and on
the detail exactly if the greeting it completes is a line, or the first line of it fills the copy,
and the text about the certificate is a line. -/
theorem log_asserts_iff {identity : Bytes} {w : World E} {event : Event E}
    (h : Reachable identity w) (hidentity : containsCrOrLf identity = false)
    (hadmissible : admissible w event) :
    (step identity w event ≠ .error .logActor ∧ step identity w event ≠ .error .logDetail)
      ↔ Loggable w event := by
  cases event with
  | completion env op result data nowMs =>
      obtain ⟨hlive, hdelivers⟩ := hadmissible
      have haborts {e : Assertion}
          (herror : step identity w (.completion env op result data nowMs) = .error e) :
          CompletionAborts identity w op result data e :=
        h.completion_aborts hlive hdelivers herror
      constructor
      · rintro ⟨-, hdetail⟩
        cases hstep : step identity w (.completion env op result data nowMs) with
        | ok w' =>
            have honIo := onIo_ok hstep
            exact ⟨loggableGreeting_of_ok h hlive hdelivers honIo,
              loggableCertificate_of_ok h hlive hdelivers honIo⟩
        | error e =>
            cases haborts hstep with
            | raw | decrypted => exact absurd hstep hdetail
            | status tls hdecrypts hstatus =>
                rw [decryption_deliver h hlive hdelivers hdecrypts] at hstatus
                refine ⟨?_, ?_⟩
                · intro _ text reply hshown
                  rw [shown_decrypted h hlive hdelivers hdecrypts, hstatus] at hshown
                  exact absurd hshown (by simp)
                · intro hstate
                  exact absurd (by simpa using hstate) hdecrypts.state
      · intro hloggable
        refine ⟨fun herror => (nomatch haborts herror), ?_⟩
        intro herror
        exact not_loggable_of_aborts h hlive hdelivers hidentity (haborts herror) hloggable
  | timeout nowMs =>
      obtain ⟨w', hok⟩ := h.checkTimeout_ok nowMs
      have hstep : step identity w (.timeout nowMs) = .ok w' := hok
      simp [hstep, Loggable]
  | others caps => simp [step, Loggable]

/-- The greeting in the clear, for a connection that has just been accepted. -/
def greetingEvent (greeting : Bytes) : Event (recordEngine sampleInfo) :=
  .completion (accepts sampleInfo) ⟨.read, .readBuf 0, readBufSize⟩ 0 greeting 0

/-- The assertion a step runs into. -/
def assertion (identity : Bytes) (w : World E) (event : Event E) : Option Assertion :=
  match step identity w event with
  | .error e => some e
  | .ok _ => none

theorem step_of_assertion {identity : Bytes} {w : World E} {event : Event E} {e : Assertion} :
    assertion identity w event = some e ↔ step identity w event = .error e := by
  unfold assertion
  cases step identity w event <;> simp

/-- A greeting of one line, over the record engine. -/
theorem log_asserts_one_line :
    ∃ w, playSample sampleInfo .none [.connected] = some w
      ∧ Loggable w (greetingEvent (bytes "220 mx ESMTP\r\n")) := by
  have hplay : (playSample sampleInfo .none [.connected]).map (fun w =>
      (decide (admissible w (greetingEvent (bytes "220 mx ESMTP\r\n"))),
        assertion (bytes "me") w (greetingEvent (bytes "220 mx ESMTP\r\n"))))
      = some (true, none) := by decide +kernel
  obtain ⟨w, hw, heq⟩ := Option.map_eq_some_iff.mp hplay
  obtain ⟨hadmissible, hnone⟩ := Prod.mk.inj heq
  have hno (e : Assertion) :
      step (bytes "me") w (greetingEvent (bytes "220 mx ESMTP\r\n")) ≠ .error e := by
    intro herror
    rw [← step_of_assertion, hnone] at herror
    exact absurd herror (by simp)
  exact ⟨w, hw, (log_asserts_iff (reachable_of_playSample hw) (by decide)
    (of_decide_eq_true hadmissible)).mp ⟨hno _, hno _⟩⟩

/-- A greeting of two lines aborts the process. -/
theorem two_line_greeting_aborts :
    ∃ w, playSample sampleInfo .none [.connected] = some w ∧ Reachable (bytes "me") w
      ∧ containsCrOrLf w.conn.actor = false ∧ containsCrOrLf (bytes "me") = false
      ∧ admissible w (greetingEvent (bytes "220-a\r\n220 b\r\n"))
      ∧ step (bytes "me") w (greetingEvent (bytes "220-a\r\n220 b\r\n")) = .error .logDetail := by
  have hplay : (playSample sampleInfo .none [.connected]).map (fun w =>
      (containsCrOrLf w.conn.actor,
        decide (admissible w (greetingEvent (bytes "220-a\r\n220 b\r\n"))),
        assertion (bytes "me") w (greetingEvent (bytes "220-a\r\n220 b\r\n"))))
      = some (false, true, some .logDetail) := by decide +kernel
  obtain ⟨w, hw, heq⟩ := Option.map_eq_some_iff.mp hplay
  simp only [Prod.mk.injEq, decide_eq_true_eq] at heq
  obtain ⟨hactor, hadmissible, haborts⟩ := heq
  exact ⟨w, hw, reachable_of_playSample hw, hactor, by decide, hadmissible,
    step_of_assertion.mp haborts⟩

end Conn

end SmtpClient
