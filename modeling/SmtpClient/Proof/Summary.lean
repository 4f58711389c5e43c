import Mathlib.Data.List.Induction
import SmtpClient.SummaryBuffer
import SmtpClient.Base.Joined
import SmtpClient.Proof.LogText
import SmtpClient.Proof.SizeLimit

/-!
# What the capability summary says

The summary is its tokens with a space between each two, cut where the destination ends: the
position that runs on behind the end keeps every later token out, and no token is longer than the
scratch it is rendered in.
-/

namespace SmtpClient

namespace Cap

open Reply

/-! ### The tokens -/

/-- The tokens of what is present, in their order. -/
def presentTokens (caps : Capabilities) : List Bytes :=
  [(caps.hasPipelining, "PIPELINING"), (caps.hasStarttls, "STARTTLS"),
      (caps.has8bitmime, "8BITMIME"), (caps.hasEnhancedstatuscodes, "ENHANCEDSTATUSCODES"),
      (caps.hasChunking, "CHUNKING"), (caps.hasDsn, "DSN"), (caps.hasBinarymime, "BINARYMIME"),
      (caps.hasSmtputf8, "SMTPUTF8")].flatMap
    (fun (present, name) => if present then [bytes name] else [])
  ++ (if caps.hasSize then
      [bytes "SIZE" ++ if caps.sizeLimitValid then bytes "=" ++ decimal caps.sizeLimit else []]
    else [])
  ++ (if caps.hasAuth then [bytes "AUTH=" ++ caps.authRaw] else [])
  ++ caps.unknown.map CapUnknown.keyword

def fullSummary (caps : Capabilities) : Bytes :=
  match presentTokens caps with
  | [] => bytes "(none)"
  | tokens => [32].intercalate tokens

/-- What is kept of a reply is a number that is a `size_t`, and strings, of which that of AUTH fits
its array. -/
structure Stored (caps : Capabilities) : Prop where
  sizeLimit : caps.sizeLimit ≤ sizeMax
  authRaw : caps.authRaw.length < maxParamLen ∧ ∀ c ∈ caps.authRaw, c ≠ 0
  unknown : ∀ entry ∈ caps.unknown, ∀ c ∈ entry.keyword, c ≠ 0

theorem parseSizeParam_le {params : Bytes} {value : Nat} (h : parseSizeParam params = some value) :
    value ≤ sizeMax := by
  rw [parseSizeParam_eq] at h
  split at h
  · rename_i hfits
    cases h
    exact hfits.2
  · cases h

theorem ne_nul_of_isTextChar {c : UInt8} (h : isTextChar c = true) : c ≠ 0 := by
  rintro rfl
  cases h

theorem Stored.stores {caps caps' : Capabilities} {text : Bytes} (h : Stored caps)
    (htext : ∀ c ∈ text, isTextChar c = true) (hstores : Stores caps text caps') :
    Stored caps' where
  sizeLimit := by
    rcases hstores.sizeLimit with heq | hvalue
    · rw [heq]
      exact h.sizeLimit
    · exact parseSizeParam_le hvalue
  authRaw := by
    rcases hstores.authRaw with heq | heq
    · rw [heq]
      exact h.authRaw
    · rw [heq, length_clip]
      refine ⟨Nat.lt_of_le_of_lt (Nat.min_le_left _ _) (by decide), fun c hc => ?_⟩
      exact ne_nul_of_isTextChar (htext c (params_subset text (mem_of_mem_clip hc)))
  unknown := by
    intro entry hentry c hc
    rcases hstores.unknown entry hentry with hold | ⟨n, heq⟩
    · exact h.unknown entry hold c hc
    · rw [heq] at hc
      exact ne_nul_of_isTextChar (htext c (List.mem_of_mem_take (mem_of_mem_clip hc)))

theorem stored_of_parse {caps parsed : Capabilities} {buf : Bytes} {maxLines : Nat} {reply : Reply}
    (h : parseEhloResponse caps buf maxLines = some (.ok reply, parsed)) : Stored parsed :=
  invariant_of_parse ⟨Nat.zero_le _, ⟨by decide, nofun⟩, nofun⟩
    (fun _ _ _ hcaps htext hstores => hcaps.stores htext hstores) h

theorem length_decimal_le {n : Nat} (h : n ≤ sizeMax) : (decimal n).length ≤ 20 := by
  have hmax : sizeMax < 10 ^ 20 := by decide
  rw [decimal, List.length_map]
  exact (Nat.length_toDigits_le_iff (by decide) (by decide)).2 (Nat.lt_of_le_of_lt h hmax)

/-- **No token is cut** by the scratch. -/
theorem summaryTokens_eq {caps : Capabilities} (h : Stored caps) :
    summaryTokens caps = presentTokens caps := by
  have hfits {text : Bytes} (hlength : text.length < tmpLen) : clip tmpLen text = text :=
    List.take_of_length_le (Nat.le_sub_one_of_lt hlength)
  have hsize : clip tmpLen (if caps.sizeLimitValid then bytes "SIZE=" ++ decimal caps.sizeLimit
      else bytes "SIZE")
      = bytes "SIZE" ++ if caps.sizeLimitValid then bytes "=" ++ decimal caps.sizeLimit
        else [] := by
    split
    · have hlength := length_decimal_le h.sizeLimit
      rw [hfits, ← List.append_assoc]
      · rfl
      · rw [List.length_append]
        exact Nat.lt_of_le_of_lt (Nat.add_le_add_left hlength 5) (by decide)
    · rfl
  have hauth : clip tmpLen (bytes "AUTH=" ++ cstr caps.authRaw)
      = bytes "AUTH=" ++ caps.authRaw := by
    rw [cstr_of_ne h.authRaw.2]
    apply hfits
    rw [List.length_append]
    exact Nat.lt_trans (Nat.add_lt_add_left h.authRaw.1 5) (by decide)
  rw [summaryTokens, hsize, hauth, presentTokens]
  simp only [List.flatMap_cons, List.flatMap_nil, List.append_assoc, List.append_nil]

theorem ne_nul_of_mem_decimal {n : Nat} {c : UInt8} (h : c ∈ decimal n) : c ≠ 0 := by
  rintro rfl
  exact absurd (digit_of_mem_decimal h).1 (by decide)

theorem cstr_token {caps : Capabilities} (h : Stored caps) :
    ∀ token ∈ presentTokens caps, cstr token = token := by
  have hnames : ∀ name ∈ ["PIPELINING", "STARTTLS", "8BITMIME", "ENHANCEDSTATUSCODES", "CHUNKING",
      "DSN", "BINARYMIME", "SMTPUTF8"], ∀ c ∈ bytes name, c ≠ 0 := by
    decide +kernel
  have hsize : ∀ c ∈ bytes "SIZE", c ≠ 0 := by decide +kernel
  have hequals : ∀ c ∈ bytes "=", c ≠ 0 := by decide +kernel
  have hauth : ∀ c ∈ bytes "AUTH=", c ≠ 0 := by decide +kernel
  intro token htoken
  apply cstr_of_ne
  intro c hc
  simp only [presentTokens, List.mem_append, or_assoc] at htoken
  rcases htoken with hmem | hmem | hmem | hmem
  · obtain ⟨⟨present, name⟩, hpair, htoken⟩ := List.mem_flatMap.1 hmem
    split at htoken
    · rw [List.mem_singleton.1 htoken] at hc
      exact hnames name (List.mem_map_of_mem (f := Prod.snd) hpair) c hc
    · cases htoken
  · split at hmem
    · rw [List.mem_singleton.1 hmem] at hc
      rcases List.mem_append.1 hc with hc | hc
      · exact hsize c hc
      split at hc
      · rcases List.mem_append.1 hc with hc | hc
        · exact hequals c hc
        · exact ne_nul_of_mem_decimal hc
      · cases hc
    · cases hmem
  · split at hmem
    · rw [List.mem_singleton.1 hmem] at hc
      rcases List.mem_append.1 hc with hc | hc
      · exact hauth c hc
      · exact h.authRaw.2 c hc
    · cases hmem
  · obtain ⟨entry, hentry, rfl⟩ := List.mem_map.1 hmem
    exact h.unknown entry hentry c hc

/-! ### The tokens in a row -/

variable {dstSize : Nat}

/-- The tokens so far, as they would be without an end. -/
def joined (tokens : List Bytes) : Bytes := [32].intercalate (tokens.map cstr)

theorem joined_concat (tokens : List Bytes) (token : Bytes) :
    joined (tokens ++ [token])
      = joined tokens ++ ((if tokens.isEmpty then [] else [32]) ++ cstr token) := by
  rw [joined, List.map_append, List.map_singleton, intercalate_concat, List.isEmpty_map]
  rfl

/-- Where the string ends, and where the position is. -/
theorem foldl_appendSummaryToken (tokens : List Bytes) :
    tokens.foldl (appendSummaryToken dstSize) {}
      = ⟨clip dstSize (joined tokens), (joined tokens).length, !tokens.isEmpty⟩ := by
  induction tokens using List.reverseRecOn with
  | nil =>
      change Summary.mk [] 0 false = ⟨clip dstSize [], 0, false⟩
      rw [clip, List.take_nil]
  | append_singleton tokens token ih =>
      have hsome : (tokens ++ [token]).isEmpty = false := by simp
      have hbetween : (if (!tokens.isEmpty) = true then [32] else ([] : Bytes))
          = if tokens.isEmpty then [] else [32] := by
        cases tokens.isEmpty <;> rfl
      rw [List.foldl_append, ih, List.foldl_cons, List.foldl_nil, appendSummaryToken,
        joined_concat, hsome]
      simp only [hbetween, List.length_append, Bool.not_false]
      generalize joined tokens = text
      generalize (if tokens.isEmpty then [] else [32]) ++ cstr token = more
      rw [clip_append]

/-! ### In memory -/

theorem ne_nul_of_mem_joined {tokens : List Bytes} : ∀ c ∈ joined tokens, c ≠ 0 := by
  induction tokens using List.reverseRecOn with
  | nil => nofun
  | append_singleton tokens token ih =>
      intro c hc
      rw [joined_concat] at hc
      rcases List.mem_append.1 hc with hc | hc
      · exact ih c hc
      rcases List.mem_append.1 hc with hc | hc
      · split at hc
        · cases hc
        · rw [List.mem_singleton.1 hc]
          decide
      · have hall := List.mem_takeWhile_imp hc
        simpa using hall

/-- What is written where the text ends is the text's continuation, and a NUL. -/
theorem slice_snprintf {dst : Buffer dstSize} {text : Bytes}
    (hslice : dst.slice 0 text.length = text) (hlt : text.length < dstSize) (more : Bytes) :
    (snprintf dst text.length (dstSize - text.length) more).slice 0
        ((clip dstSize (text ++ more)).length + 1)
      = clip dstSize (text ++ more) ++ [0] := by
  have hclip : clip dstSize (text ++ more) = text ++ clip (dstSize - text.length) more := by
    have hall : clip dstSize text = text := List.take_of_length_le (Nat.le_sub_one_of_lt hlt)
    rw [clip_append, if_pos hlt, hall, List.take_length]
  have hlength := length_clip (dstSize - text.length) more
  have hblit := @Buffer.slice_blit _ dst text.length (clip (dstSize - text.length) more ++ [0])
    (by rw [List.length_append, List.length_singleton]; omega)
  rw [hslice, List.length_append, List.length_singleton, ← Nat.add_assoc] at hblit
  rw [snprintf, if_neg (by omega), hclip, List.length_append, List.append_assoc]
  exact hblit

/-- The string of the tokens so far is in memory, once there is one. -/
structure Renders (tokens : List Bytes) (summary : SummaryBuffer dstSize) : Prop where
  pos : summary.pos = (joined tokens).length
  any : summary.any = !tokens.isEmpty
  dst : tokens ≠ [] → summary.dst.slice 0 ((clip dstSize (joined tokens)).length + 1)
    = clip dstSize (joined tokens) ++ [0]

theorem Renders.slice_pos {tokens : List Bytes} {summary : SummaryBuffer dstSize}
    (h : Renders tokens summary) (hlt : (joined tokens).length < dstSize) :
    summary.dst.slice 0 (joined tokens).length = joined tokens := by
  by_cases htokens : tokens = []
  · rw [htokens]
    exact Buffer.slice_zero_length summary.dst 0
  · have hall : clip dstSize (joined tokens) = joined tokens :=
      List.take_of_length_le (Nat.le_sub_one_of_lt hlt)
    have hdst := congrArg (List.take (joined tokens).length) (h.dst htokens)
    rw [hall, List.take_left, Buffer.slice, List.take_take,
      Nat.min_eq_left (Nat.le_succ _)] at hdst
    exact hdst

theorem Renders.appendToken {tokens : List Bytes} {summary : SummaryBuffer dstSize}
    (h : Renders tokens summary) (hdst : 0 < dstSize) (token : Bytes) :
    Renders (tokens ++ [token]) (summary.appendToken token) := by
  have hbetween : (if summary.any = true then [32] else ([] : Bytes))
      = if tokens.isEmpty then [] else [32] := by
    rw [h.any]
    cases tokens.isEmpty <;> rfl
  have hslice := h.slice_pos
  rw [SummaryBuffer.appendToken, hbetween, h.pos]
  constructor
  · rw [joined_concat]
    simp only
    generalize (if tokens.isEmpty then [] else [32]) ++ cstr token = more
    rw [List.length_append]
    split
    · rfl
    · omega
  · simp
  · intro _
    rw [joined_concat]
    simp only
    generalize (if tokens.isEmpty then [] else [32]) ++ cstr token = more
    by_cases hlt : (joined tokens).length < dstSize
    · rw [if_pos hlt, if_pos hlt]
      exact slice_snprintf (hslice hlt) hlt more
    · -- the end is reached, and nothing is written
      have hne : tokens ≠ [] := by
        rintro rfl
        exact hlt hdst
      rw [if_neg hlt, if_neg hlt, snprintf, if_pos rfl, clip_append, if_neg hlt]
      exact h.dst hne

theorem renders_foldl (dst : Buffer dstSize) (hdst : 0 < dstSize) (tokens : List Bytes) :
    Renders tokens (tokens.foldl SummaryBuffer.appendToken ⟨dst, 0, false⟩) := by
  induction tokens using List.reverseRecOn with
  | nil => exact ⟨rfl, rfl, fun hne => absurd rfl hne⟩
  | append_singleton tokens token ih =>
      rw [List.foldl_append]
      exact ih.appendToken hdst token

theorem formatSummary_eq (caps : Capabilities) (dstSize : Nat) :
    formatSummary caps dstSize
      = clip dstSize (if (summaryTokens caps).isEmpty then bytes "(none)"
        else joined (summaryTokens caps)) := by
  rw [formatSummary, foldl_appendSummaryToken]
  cases (summaryTokens caps).isEmpty with
  | true => rfl
  | false => rfl

theorem cstr_formatSummaryInto (caps : Capabilities) (dst : Buffer dstSize) (hdst : 0 < dstSize) :
    cstr (formatSummaryInto caps dst).bytes = formatSummary caps dstSize := by
  have hrenders := renders_foldl dst hdst (summaryTokens caps)
  rw [formatSummaryInto, formatSummary_eq]
  generalize (summaryTokens caps).foldl SummaryBuffer.appendToken ⟨dst, 0, false⟩ = summary
    at hrenders ⊢
  simp only [hrenders.any]
  by_cases htokens : summaryTokens caps = []
  · have hnone : ∀ c ∈ bytes "(none)", c ≠ 0 := by decide +kernel
    rw [htokens]
    apply cstr_of_slice
    · exact @slice_snprintf _ summary.dst [] (Buffer.slice_zero_length summary.dst 0) hdst
        (bytes "(none)")
    · exact fun c hc => hnone c (mem_of_mem_clip hc)
  · rw [List.isEmpty_eq_false_iff.2 htokens]
    apply cstr_of_slice (hrenders.dst htokens)
    exact fun c hc => ne_nul_of_mem_joined c (mem_of_mem_clip hc)

theorem joined_presentTokens {caps : Capabilities} (h : Stored caps) :
    joined (presentTokens caps) = [32].intercalate (presentTokens caps) := by
  rw [joined, List.map_congr_left (cstr_token h), List.map_id']

/-- **The summary** of a reply is the whole one, cut where the destination ends. -/
theorem summary_of_parse {caps parsed : Capabilities} {buf : Bytes} {maxLines : Nat} {reply : Reply}
    (h : parseEhloResponse caps buf maxLines = some (.ok reply, parsed)) (dst : Buffer dstSize)
    (hdst : 0 < dstSize) :
    cstr (formatSummaryInto parsed dst).bytes = (fullSummary parsed).take (dstSize - 1)
      ∧ (cstr (formatSummaryInto parsed dst).bytes).length < dstSize
      ∧ summaryTokens parsed = presentTokens parsed := by
  have hstored := stored_of_parse h
  have htokens := summaryTokens_eq hstored
  have hcut : cstr (formatSummaryInto parsed dst).bytes
      = (fullSummary parsed).take (dstSize - 1) := by
    rw [cstr_formatSummaryInto parsed dst hdst, formatSummary_eq, htokens,
      joined_presentTokens hstored, clip, fullSummary]
    cases presentTokens parsed with
    | nil => rfl
    | cons token rest => rfl
  refine ⟨hcut, ?_, htokens⟩
  rw [hcut, List.length_take]
  omega

/-- The second token is cut in 12 bytes. -/
theorem summary_of_parse_cut : ∃ reply parsed,
    parseEhloResponse init (bytes "250-mx\r\n250-STARTTLS\r\n250 SIZE 5\r\n") 64
        = some (.ok reply, parsed)
      ∧ cstr (formatSummaryInto parsed (.zero 12)).bytes = bytes "STARTTLS SI" := by
  obtain ⟨reply, parsed, hparse, hfull⟩ : ∃ reply parsed,
      parseEhloResponse init (bytes "250-mx\r\n250-STARTTLS\r\n250 SIZE 5\r\n") 64
          = some (.ok reply, parsed)
        ∧ (fullSummary parsed).take 11 = bytes "STARTTLS SI" :=
    ⟨_, _, rfl, by decide +kernel⟩
  exact ⟨reply, parsed, hparse, (summary_of_parse hparse (.zero 12) (by decide)).1.trans hfull⟩

end Cap

end SmtpClient
