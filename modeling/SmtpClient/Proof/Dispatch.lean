import SmtpClient.Proof.Keywords

/-!
# The keyword switch, and what it leaves to the catch-all store

The switch on the packed key is a comparison of the bytes before the first space with each known
name, without regard to case: no two keywords collide, of whatever bytes and length they are. A line
that matches a name changes the fields of that capability only; every other line that is not blank
goes to the store, which holds the first of them in their order and counts the rest.
-/

namespace SmtpClient

namespace Cap

/-- The capabilities the switch knows, in its order. -/
inductive Known where
  | dsn
  | size
  | auth
  | starttls
  | eightBitMime
  | chunking
  | smtpUtf8
  | pipelining
  | binaryMime
  | enhancedStatusCodes
  deriving DecidableEq, Repr

namespace Known

def name : Known → Bytes
  | dsn => bytes "DSN"
  | size => bytes "SIZE"
  | auth => bytes "AUTH"
  | starttls => bytes "STARTTLS"
  | eightBitMime => bytes "8BITMIME"
  | chunking => bytes "CHUNKING"
  | smtpUtf8 => bytes "SMTPUTF8"
  | pipelining => bytes "PIPELINING"
  | binaryMime => bytes "BINARYMIME"
  | enhancedStatusCodes => bytes "ENHANCEDSTATUSCODES"

def all : List Known :=
  [dsn, size, auth, starttls, eightBitMime, chunking, smtpUtf8, pipelining, binaryMime,
    enhancedStatusCodes]

/-- What has to hold for its case to be taken: the key, and what the case checks besides. -/
def guard (known : Known) (scan : KeywordScan) : Bool :=
  match known with
  | dsn => scan.key = keyOf (bytes "DSN") ∧ scan.kwLen = 3
  | size => scan.key = keyOf (bytes "SIZE") ∧ scan.kwLen = 4
  | auth => scan.key = keyOf (bytes "AUTH") ∧ scan.kwLen = 4
  | starttls => scan.key = keyOf (bytes "STARTTLS") ∧ scan.kwLen = 8
  | eightBitMime => scan.key = keyOf (bytes "8BITMIME") ∧ scan.kwLen = 8
  | chunking => scan.key = keyOf (bytes "CHUNKING") ∧ scan.kwLen = 8
  | smtpUtf8 => scan.key = keyOf (bytes "SMTPUTF8") ∧ scan.kwLen = 8
  | pipelining => scan.key = keyOf (bytes "PIPELINING") ∧ scan.kwLen = 10 ∧ scan.tail = bytes "NG"
  | binaryMime => scan.key = keyOf (bytes "BINARYMIME") ∧ scan.kwLen = 10 ∧ scan.tail = bytes "ME"
  | enhancedStatusCodes =>
      scan.key = keyOf (bytes "ENHANCEDSTATUSCODES") ∧ scan.kwLen = 19
        ∧ scan.tail = bytes "STATUSCODES"

/-- The body of its case. -/
def body (known : Known) (caps : Capabilities) (params : Bytes) : Capabilities :=
  match known with
  | dsn => { caps with hasDsn := true }
  | size =>
      match parseSizeParam params with
      | some value => { caps with hasSize := true, sizeLimit := value, sizeLimitValid := true }
      | none => { caps with hasSize := true, sizeLimitValid := false }
  | auth =>
      { caps with
        hasAuth := true
        authMechs := parseAuthMechanisms params [] caps.authMechs
        authRaw := (boundedCopy maxParamLen params).1 }
  | starttls => { caps with hasStarttls := true }
  | eightBitMime => { caps with has8bitmime := true }
  | chunking => { caps with hasChunking := true }
  | smtpUtf8 => { caps with hasSmtputf8 := true }
  | pipelining => { caps with hasPipelining := true }
  | binaryMime => { caps with hasBinarymime := true }
  | enhancedStatusCodes => { caps with hasEnhancedstatuscodes := true }

/-- `caps'` with the fields of this capability as they are in `caps`. -/
def putBack (known : Known) (caps caps' : Capabilities) : Capabilities :=
  match known with
  | dsn => { caps' with hasDsn := caps.hasDsn }
  | size =>
      { caps' with
        hasSize := caps.hasSize
        sizeLimitValid := caps.sizeLimitValid
        sizeLimit := caps.sizeLimit }
  | auth =>
      { caps' with hasAuth := caps.hasAuth, authMechs := caps.authMechs, authRaw := caps.authRaw }
  | starttls => { caps' with hasStarttls := caps.hasStarttls }
  | eightBitMime => { caps' with has8bitmime := caps.has8bitmime }
  | chunking => { caps' with hasChunking := caps.hasChunking }
  | smtpUtf8 => { caps' with hasSmtputf8 := caps.hasSmtputf8 }
  | pipelining => { caps' with hasPipelining := caps.hasPipelining }
  | binaryMime => { caps' with hasBinarymime := caps.hasBinarymime }
  | enhancedStatusCodes => { caps' with hasEnhancedstatuscodes := caps.hasEnhancedstatuscodes }

/-- A case changes the fields of its capability only. -/
theorem putBack_body (known : Known) (caps : Capabilities) (params : Bytes) :
    known.putBack caps (known.body caps params) = caps := by
  cases known with
  | size =>
      unfold body putBack
      dsimp only
      split <;> rfl
  | _ => rfl

end Known

/-- The case the switch takes. -/
def dispatch (scan : KeywordScan) : Option Known := Known.all.find? (·.guard scan)

/-- What the switch does in the case it takes, the catch-all store included. -/
def enter (caps : Capabilities) (kw params : Bytes) : Option Known → Capabilities
  | some known => known.body caps params
  | none => storeUnknown caps kw params

/-! ### What a line is made of -/

/-- The bytes before the first space. -/
def kwOf (text : Bytes) : Bytes := text.takeWhile (· ≠ 32)

/-- Everything behind the first space. -/
def paramsOf (text : Bytes) : Bytes := (text.dropWhile (· ≠ 32)).tail

theorem keyword_eq (text : Bytes) : keyword text = (kwOf text).map fold := rfl

theorem kwLen_eq (text : Bytes) : (extractKeywordAndKey text).1.kwLen = (kwOf text).length := by
  rw [extractKeywordAndKey_eq]
  exact List.length_map fold

theorem kwOf_append (text : Bytes) : kwOf text ++ text.dropWhile (· ≠ 32) = text :=
  List.takeWhile_append_dropWhile

theorem drop_kwOf (text : Bytes) : text.drop (kwOf text).length = text.dropWhile (· ≠ 32) := by
  calc text.drop (kwOf text).length
      = (kwOf text ++ text.dropWhile (· ≠ 32)).drop (kwOf text).length := by rw [kwOf_append]
    _ = text.dropWhile (· ≠ 32) := List.drop_left

theorem take_kwLen (text : Bytes) : text.take (extractKeywordAndKey text).1.kwLen = kwOf text := by
  rw [kwLen_eq]
  calc text.take (kwOf text).length
      = (kwOf text ++ text.dropWhile (· ≠ 32)).take (kwOf text).length := by rw [kwOf_append]
    _ = kwOf text := List.take_left

theorem params_eq (text : Bytes) : (extractKeywordAndKey text).2 = paramsOf text := by
  have hparams : text.drop ((kwOf text).length + 1) = paramsOf text := by
    rw [← List.drop_drop, drop_kwOf, List.drop_one, paramsOf]
  have hscan := kwLen_eq text
  simp only [extractKeywordAndKey] at hscan ⊢
  rw [hscan]
  split
  · exact hparams
  · rename_i hlong
    rw [← hparams, List.drop_of_length_le (by omega)]

theorem find?_cons_ite {α : Type} (p : α → Bool) (a : α) (l : List α) :
    (a :: l).find? p = if p a = true then some a else l.find? p := by
  rw [List.find?_cons]
  cases p a <;> rfl

/-- The line as the switch sees it. -/
theorem parseLine_eq (caps : Capabilities) {text : Bytes} (hne : text ≠ []) :
    parseLine caps text
      = enter caps (kwOf text) (paramsOf text) (dispatch (extractKeywordAndKey text).1) := by
  have hempty : text.isEmpty = false := List.isEmpty_eq_false_iff.mpr hne
  unfold parseLine dispatch
  rw [hempty, if_neg Bool.false_ne_true]
  dsimp only
  rw [take_kwLen, params_eq]
  -- The same conditions in the same order on both sides.
  simp only [Known.all, find?_cons_ite, Known.guard, decide_eq_true_eq,
    apply_ite (enter caps (kwOf text) (paramsOf text))]
  rfl

/-! ### The key is the keyword -/

theorem ciEqual_iff (text literal : Bytes) :
    ciEqual text literal = true ↔ text.map fold = literal.map fold := by
  induction text generalizing literal with
  | nil => cases literal <;> simp [ciEqual]
  | cons a text ih => cases literal <;> simp [ciEqual, ih]

theorem scanOf_long_iff {word name : Bytes} (hname : 8 ≤ name.length)
    (hroom : name.length ≤ 8 + tailBufLen) :
    ((scanOf word).key = keyOf name ∧ (scanOf word).kwLen = name.length
      ∧ (scanOf word).tail = name.drop 8) ↔ word = name := by
  constructor
  · rintro ⟨hkey, hlen, htail⟩
    have hlen : word.length = name.length := hlen
    have hfront : word.take 8 = name.take 8 :=
      packFrom_inj (by simp only [List.length_take, hlen]) hkey
    have hback : word.drop 8 = name.drop 8 := by
      have hfull : (word.drop 8).take tailBufLen = word.drop 8 := by
        apply List.take_of_length_le
        rw [List.length_drop]
        omega
      rw [← hfull]
      exact htail
    rw [← List.take_append_drop 8 word, hfront, hback, List.take_append_drop]
  · rintro rfl
    refine ⟨rfl, rfl, List.take_of_length_le ?_⟩
    rw [List.length_drop]
    omega

namespace Known

theorem mem_all (known : Known) : known ∈ all := by cases known <;> decide

theorem name_injective : Function.Injective name := by
  intro left right h
  cases left <;> cases right <;> first | rfl | exact absurd h (by decide)

theorem fold_name (known : Known) : known.name.map fold = known.name := by
  cases known <;> decide

/-- A case is taken for its own name and nothing else. -/
theorem guard_scanOf (known : Known) (word : Bytes) :
    known.guard (scanOf word) = true ↔ word = known.name := by
  cases known <;> rw [guard, decide_eq_true_eq] <;>
    first
    | exact scanOf_short_iff (by decide)
    | exact scanOf_long_iff (by decide) (by decide)

end Known

theorem guard_of_dispatch {scan : KeywordScan} {known : Known} (h : dispatch scan = some known) :
    known.guard scan = true := by
  unfold dispatch at h
  have hguard := List.find?_some h
  exact hguard

theorem dispatch_scanOf (word : Bytes) (known : Known) :
    dispatch (scanOf word) = some known ↔ word = known.name := by
  constructor
  · intro h
    exact (known.guard_scanOf word).mp (guard_of_dispatch h)
  · intro hword
    have hguard : known.guard (scanOf word) = true := (known.guard_scanOf word).mpr hword
    have hsome : (dispatch (scanOf word)).isSome = true :=
      List.find?_isSome.mpr ⟨known, known.mem_all, hguard⟩
    obtain ⟨found, hfound⟩ := Option.isSome_iff_exists.mp hsome
    have hname := (found.guard_scanOf word).mp (guard_of_dispatch hfound)
    rw [hfound, Known.name_injective (hname.symm.trans hword)]

theorem dispatch_eq_some_iff (text : Bytes) (known : Known) :
    dispatch (extractKeywordAndKey text).1 = some known
      ↔ ciEqual (kwOf text) known.name = true := by
  rw [extractKeywordAndKey_eq, dispatch_scanOf, ciEqual_iff, keyword_eq, known.fold_name]

theorem dispatch_eq_none_iff (text : Bytes) :
    dispatch (extractKeywordAndKey text).1 = none
      ↔ ∀ known : Known, ciEqual (kwOf text) known.name = false := by
  simp only [← Bool.not_eq_true, ← dispatch_eq_some_iff, Option.eq_none_iff_forall_not_mem]
  rfl

theorem parseLine_known (caps : Capabilities) {text : Bytes} {known : Known}
    (hname : ciEqual (kwOf text) known.name = true) :
    parseLine caps text = known.body caps (paramsOf text) := by
  have hne : text ≠ [] := by
    rintro rfl
    apply absurd hname
    cases known <;> decide
  rw [parseLine_eq caps hne, (dispatch_eq_some_iff text known).mpr hname]
  rfl

theorem storeUnknown_others (caps : Capabilities) (kw params : Bytes) :
    { storeUnknown caps kw params with
      unknown := caps.unknown
      unknownOverflowCount := caps.unknownOverflowCount } = caps := by
  unfold storeUnknown
  split <;> rfl

/-- **The switch is a plain comparison.** A line that is not blank takes the case of a capability
exactly if the bytes before its first space are the name of it, in any case of letters; the case
changes the fields of that capability, and the store takes what matches no name and changes its own
two. -/
theorem switch_is_comparison (caps : Capabilities) {text : Bytes} (hne : text ≠ []) :
    parseLine caps text
        = enter caps (kwOf text) (paramsOf text) (dispatch (extractKeywordAndKey text).1)
      ∧ (∀ known : Known, dispatch (extractKeywordAndKey text).1 = some known
        ↔ ciEqual (kwOf text) known.name = true)
      ∧ (∀ known : Known, ciEqual (kwOf text) known.name = true →
        known.putBack caps (parseLine caps text) = caps)
      ∧ ((∀ known : Known, ciEqual (kwOf text) known.name = false) →
        parseLine caps text = storeUnknown caps (kwOf text) (paramsOf text)
          ∧ { parseLine caps text with
              unknown := caps.unknown
              unknownOverflowCount := caps.unknownOverflowCount } = caps) := by
  refine ⟨parseLine_eq caps hne, dispatch_eq_some_iff text, ?_, ?_⟩
  · intro known hname
    rw [parseLine_eq caps hne, (dispatch_eq_some_iff text known).mpr hname]
    exact known.putBack_body caps (paramsOf text)
  · intro hnone
    rw [parseLine_eq caps hne, (dispatch_eq_none_iff text).mpr hnone]
    exact ⟨rfl, storeUnknown_others caps _ _⟩

/-- A keyword in mixed case, with a parameter. -/
theorem switch_is_comparison_size :
    (bytes "sIzE 10") ≠ [] ∧ ciEqual (kwOf (bytes "sIzE 10")) Known.size.name = true
      ∧ Known.size.putBack init (parseLine init (bytes "sIzE 10")) = init := by
  have hname : ciEqual (kwOf (bytes "sIzE 10")) Known.size.name = true := by decide
  exact ⟨by decide, hname, (switch_is_comparison init (by decide)).2.2.1 .size hname⟩

end Cap

end SmtpClient
