import SmtpClient.Base.Base64
import SmtpClient.HeaderEncoding
import Mathlib.Data.Fintype.Basic

/-!
# The encoded words the validator accepts

`"=?" charset "?" encoding "?" encoded-text "?="`, as the header file of the validator has it. The
closing delimiter is checked before the parts are read, and each part is read up to its own
delimiter over the whole word; what is left between the last two is the text.
-/

namespace SmtpClient

namespace HeaderEncoding

/-! ### The grammar -/

/-- A token character of RFC 2045. -/
def TokenChar (c : UInt8) : Prop := (33 ≤ c ∧ c ≤ 126) ∧ c ∉ bytes "()<>@,;:\\\"/[]?="

def HexDigit (c : UInt8) : Prop := c ∈ bytes "0123456789ABCDEFabcdef"

/-- The text of a Q word. -/
inductive QText : Bytes → Prop where
  | nil : QText []
  | escape {first second : UInt8} {rest : Bytes} (hfirst : HexDigit first)
      (hsecond : HexDigit second) (hrest : QText rest) : QText (equals :: first :: second :: rest)
  | plain {c : UInt8} {rest : Bytes} (hc : 33 ≤ c ∧ c ≤ 126) (hquestion : c ≠ question)
      (hequals : c ≠ equals) (hrest : QText rest) : QText (c :: rest)

/-- The text of a word with the encoding `e`. -/
def EncodedText (e : UInt8) (text : Bytes) : Prop :=
  (e = 81 ∨ e = 113) ∧ QText text ∨ (e = 66 ∨ e = 98) ∧ Base64.WellFormed text

/-- A word put together from its parts. -/
def assembled (charset : Bytes) (e : UInt8) (text : Bytes) : Bytes :=
  equals :: question :: (charset ++ question :: e :: question :: (text ++ [question, equals]))

structure EncodedWord (word charset : Bytes) (e : UInt8) (text : Bytes) : Prop where
  parts : word = assembled charset e text
  length_le : word.length ≤ 75
  charset_ne : charset ≠ []
  token : ∀ c ∈ charset, TokenChar c
  text_ne : text ≠ []
  encoded : EncodedText e text

/-! ### The classes -/

instance (c : UInt8) : Decidable (TokenChar c) := inferInstanceAs (Decidable (_ ∧ _))

instance (c : UInt8) : Decidable (HexDigit c) := inferInstanceAs (Decidable (_ ∈ _))

theorem isTokenChar_iff (c : UInt8) : isTokenChar c = true ↔ TokenChar c := by
  simp [isTokenChar, charClass, TokenChar]

theorem isHexDigit_iff (c : UInt8) : isHexDigit c = true ↔ HexDigit c := by
  constructor
  · revert c
    apply forall_byte
    decide +kernel
  · have hmem : ∀ c ∈ bytes "0123456789ABCDEFabcdef", isHexDigit c = true :=
      List.all_eq_true.mp (by decide +kernel)
    exact hmem c

theorem isB64Char_iff (c : UInt8) : isB64Char c = true ↔ c ∈ Base64.alphabet := by
  constructor
  · revert c
    apply forall_byte
    decide +kernel
  · have hmem : ∀ c ∈ Base64.alphabet, isB64Char c = true :=
      List.all_eq_true.mp (by decide +kernel)
    exact hmem c

theorem isEnctextChar_iff (c : UInt8) :
    isEnctextChar c = true ↔ (33 ≤ c ∧ c ≤ 126) ∧ c ≠ question := by
  simp [isEnctextChar, charClass, question]

theorem TokenChar.ne_question {c : UInt8} (h : TokenChar c) : c ≠ question := by
  rintro rfl
  exact absurd h (by decide)

/-! ### The parts -/

theorem parseCharsetLoop_eq_ok {len : Nat} {rest : Bytes} {i j : Nat} :
    parseCharsetLoop len rest i = .ok j
      ↔ ∃ charset after, rest = charset ++ question :: after ∧ (∀ c ∈ charset, TokenChar c)
        ∧ j = i + charset.length := by
  induction rest generalizing i with
  | nil => simp [parseCharsetLoop]
  | cons c rest ih =>
      rw [parseCharsetLoop]
      by_cases hquestion : c = question
      · rw [if_pos hquestion, Except.ok.injEq]
        constructor
        · rintro rfl
          exact ⟨[], rest, by rw [hquestion]; rfl, by simp, rfl⟩
        · rintro ⟨charset, after, heq, htoken, rfl⟩
          cases charset with
          | nil => rfl
          | cons d charset =>
              have hd : TokenChar d := htoken d List.mem_cons_self
              exact absurd ((List.cons.inj heq).1.symm.trans hquestion) hd.ne_question
      rw [if_neg hquestion]
      by_cases htoken : isTokenChar c = true
      · rw [if_neg (by simp [htoken]), ih]
        constructor
        · rintro ⟨charset, after, rfl, hall, rfl⟩
          refine ⟨c :: charset, after, rfl, ?_, ?_⟩
          · exact List.forall_mem_cons.mpr ⟨(isTokenChar_iff c).mp htoken, hall⟩
          · simp only [List.length_cons]
            omega
        · rintro ⟨charset, after, heq, hall, rfl⟩
          cases charset with
          | nil => exact absurd (List.cons.inj heq).1 hquestion
          | cons d charset =>
              refine ⟨charset, after, (List.cons.inj heq).2, ?_, ?_⟩
              · exact fun e he => hall e (List.mem_cons_of_mem d he)
              · simp only [List.length_cons]
                omega
      · rw [if_pos (by simp [htoken])]
        refine ⟨nofun, ?_⟩
        rintro ⟨charset, after, heq, hall, -⟩
        cases charset with
        | nil => exact absurd (List.cons.inj heq).1 hquestion
        | cons d charset =>
            obtain rfl : c = d := (List.cons.inj heq).1
            exact absurd ((isTokenChar_iff c).mpr (hall c List.mem_cons_self)) htoken

theorem parseEncoding_eq_ok {word : Bytes} {start delim : Nat} {isBase64 : Bool} :
    parseEncoding word start = .ok (isBase64, delim)
      ↔ ∃ e, word[start]? = some e ∧ word[start + 1]? = some question ∧ delim = start + 1
        ∧ ((e = 81 ∨ e = 113) ∧ isBase64 = false ∨ (e = 66 ∨ e = 98) ∧ isBase64 = true) := by
  have hflag {e : UInt8} (h : e = 81 ∨ e = 113 ∨ e = 66 ∨ e = 98) :
      decide (e = 66 ∨ e = 98) = isBase64
        ↔ (e = 81 ∨ e = 113) ∧ isBase64 = false ∨ (e = 66 ∨ e = 98) ∧ isBase64 = true := by
    rcases h with rfl | rfl | rfl | rfl <;> cases isBase64 <;> decide
  unfold parseEncoding
  cases word[start]? with
  | none => simp
  | some e =>
      simp only [Option.some.injEq, exists_eq_left']
      by_cases he : e = 81 ∨ e = 113 ∨ e = 66 ∨ e = 98
      · rw [if_pos he, ← hflag he]
        split
        · rename_i hdelim
          simp only [Except.ok.injEq, Prod.mk.injEq]
          constructor
          · rintro ⟨hbase, rfl⟩
            exact ⟨hdelim, rfl, hbase⟩
          · rintro ⟨-, rfl, hbase⟩
            exact ⟨hbase, rfl⟩
        · rename_i hdelim
          exact ⟨nofun, fun h => absurd h.1 hdelim⟩
      · rw [if_neg he]
        refine ⟨nofun, ?_⟩
        rintro ⟨-, -, ⟨h, -⟩ | ⟨h, -⟩⟩
        · exact absurd (h.imp_right .inl) he
        · exact absurd (.inr (.inr h)) he

theorem validateQTextLoop_eq_ok {text : Bytes} {i : Nat} :
    validateQTextLoop text i = .ok () ↔ QText text := by
  induction text, i using validateQTextLoop.induct with
  | case1 i => exact ⟨fun _ => .nil, fun _ => rfl⟩
  | case2 i first second rest hhex ih =>
      rw [validateQTextLoop, if_pos rfl, if_pos hhex, ih]
      rw [Bool.and_eq_true, isHexDigit_iff, isHexDigit_iff] at hhex
      constructor
      · exact fun h => .escape hhex.1 hhex.2 h
      · intro h
        cases h with
        | escape _ _ hrest => exact hrest
        | plain _ _ hequals => exact absurd rfl hequals
  | case3 i first second rest hhex =>
      rw [validateQTextLoop, if_pos rfl, if_neg hhex]
      rw [Bool.and_eq_true, isHexDigit_iff, isHexDigit_iff] at hhex
      refine ⟨nofun, fun h => ?_⟩
      cases h with
      | escape hfirst hsecond => exact absurd ⟨hfirst, hsecond⟩ hhex
      | plain _ _ hequals => exact absurd rfl hequals
  | case4 rest i hshort =>
      rw [validateQTextLoop.eq_def]
      refine ⟨fun h => ?_, fun h => ?_⟩
      · dsimp only at h
        rw [if_pos rfl] at h
        split at h
        · exact absurd rfl (hshort _ _ _)
        · cases h
      · cases h with
        | escape => exact absurd rfl (hshort _ _ _)
        | plain _ _ hequals => exact absurd rfl hequals
  | case5 c rest i hequals hchar ih =>
      rw [validateQTextLoop.eq_def]
      dsimp only
      rw [if_neg hequals, if_pos hchar, ih]
      rw [isEnctextChar_iff] at hchar
      constructor
      · exact fun h => .plain hchar.1 hchar.2 hequals h
      · intro h
        cases h with
        | escape => exact absurd rfl hequals
        | plain _ _ _ hrest => exact hrest
  | case6 c rest i hequals hchar =>
      rw [validateQTextLoop.eq_def]
      dsimp only
      rw [if_neg hequals, if_neg hchar]
      rw [isEnctextChar_iff] at hchar
      refine ⟨nofun, fun h => ?_⟩
      cases h with
      | escape => exact absurd rfl hequals
      | plain hc hquestion => exact absurd ⟨hc, hquestion⟩ hchar

/-- In front of the pads, a text begins with its body. -/
theorem exists_body {c : UInt8} {text body : Bytes} {pads : Nat} (hc : c ≠ equals)
    (heq : c :: text = body ++ List.replicate pads equals) :
    ∃ rest, body = c :: rest ∧ text = rest ++ List.replicate pads equals := by
  cases body with
  | nil =>
      cases pads with
      | zero => cases heq
      | succ pads => exact absurd (List.cons.inj heq).1 hc
  | cons d rest =>
      obtain ⟨rfl, hrest⟩ := List.cons.inj heq
      exact ⟨rest, rfl, hrest⟩

/-- Once a pad is read, only pads may follow. -/
theorem validateBTextLoop_eq_ok {text : Bytes} {i padCount total : Nat} :
    validateBTextLoop text i padCount = .ok total
      ↔ ∃ body pads, text = body ++ List.replicate pads equals ∧ (∀ c ∈ body, c ∈ Base64.alphabet)
        ∧ total = padCount + pads ∧ (0 < padCount → body = []) := by
  induction text generalizing i padCount with
  | nil =>
      rw [validateBTextLoop, Except.ok.injEq]
      constructor
      · rintro rfl
        exact ⟨[], 0, rfl, by simp, rfl, fun _ => rfl⟩
      · rintro ⟨body, pads, heq, -, rfl, -⟩
        obtain ⟨-, hpads⟩ := List.append_eq_nil_iff.mp heq.symm
        rw [(List.replicate_eq_nil_iff equals).mp hpads]
        rfl
  | cons c text ih =>
      rw [validateBTextLoop]
      by_cases hequals : c = equals
      · rw [if_pos hequals, ih]
        subst hequals
        constructor
        · rintro ⟨body, pads, rfl, -, rfl, hempty⟩
          rw [hempty (Nat.succ_pos _)]
          exact ⟨[], pads + 1, rfl, by simp, by omega, fun _ => rfl⟩
        · rintro ⟨body, pads, heq, hbody, rfl, hempty⟩
          cases body with
          | nil =>
              cases pads with
              | zero => cases heq
              | succ pads =>
                  exact ⟨[], pads, (List.cons.inj heq).2, by simp, by omega, fun _ => rfl⟩
          | cons d body =>
              obtain rfl : equals = d := (List.cons.inj heq).1
              exact absurd (hbody equals List.mem_cons_self) Base64.pad_not_mem
      rw [if_neg hequals]
      by_cases hpads : 0 < padCount
      · rw [if_pos hpads]
        refine ⟨nofun, ?_⟩
        rintro ⟨body, pads, heq, -, -, hempty⟩
        obtain ⟨rest, rfl, -⟩ := exists_body hequals heq
        exact absurd (hempty hpads) (List.cons_ne_nil c rest)
      rw [if_neg hpads]
      by_cases hchar : isB64Char c = true
      · rw [if_neg (by simp [hchar]), ih]
        constructor
        · rintro ⟨body, pads, rfl, hbody, rfl, -⟩
          refine ⟨c :: body, pads, rfl, ?_, rfl, fun h => absurd h hpads⟩
          exact List.forall_mem_cons.mpr ⟨(isB64Char_iff c).mp hchar, hbody⟩
        · rintro ⟨body, pads, heq, hbody, rfl, -⟩
          obtain ⟨rest, rfl, hrest⟩ := exists_body hequals heq
          exact ⟨rest, pads, hrest, (List.forall_mem_cons.mp hbody).2, rfl, fun h => absurd h hpads⟩
      · rw [if_pos (by simp [hchar])]
        refine ⟨nofun, ?_⟩
        rintro ⟨body, pads, heq, hbody, -, -⟩
        obtain ⟨rest, rfl, -⟩ := exists_body hequals heq
        exact absurd ((isB64Char_iff c).mpr (hbody c List.mem_cons_self)) hchar

/-! ### The whole word -/

theorem validateBText_eq_ok {front text back : Bytes} :
    validateBText (front ++ (text ++ back)) front.length (front.length + text.length) = .ok ()
      ↔ Base64.WellFormed text := by
  unfold validateBText
  rw [take_drop_between, Nat.add_sub_cancel_left]
  constructor
  · intro h
    split at h
    · cases h
    rename_i padCount hloop
    split at h
    · cases h
    rename_i hpads
    split at h
    · cases h
    rename_i hlength
    obtain ⟨body, pads, heq, hbody, rfl, -⟩ := validateBTextLoop_eq_ok.mp hloop
    exact ⟨body, pads, heq, hbody, by omega, by omega⟩
  · rintro ⟨body, pads, heq, hbody, hpads, hlength⟩
    have hloop : validateBTextLoop text front.length 0 = .ok pads :=
      validateBTextLoop_eq_ok.mpr ⟨body, pads, heq, hbody, by omega, fun h => absurd h (by decide)⟩
    rw [hloop]
    dsimp only
    rw [if_neg (by omega), if_neg (by omega)]

theorem validateQText_eq_ok {front text back : Bytes} :
    validateQText (front ++ (text ++ back)) front.length (front.length + text.length) = .ok ()
      ↔ QText text := by
  rw [validateQText, take_drop_between, validateQTextLoop_eq_ok]

theorem length_assembled (charset : Bytes) (e : UInt8) (text : Bytes) :
    (assembled charset e text).length = charset.length + text.length + 7 := by
  simp only [assembled, List.length_cons, List.length_append, List.length_nil]
  omega

theorem assembled_eq (charset : Bytes) (e : UInt8) (text : Bytes) :
    assembled charset e text
      = (equals :: question :: (charset ++ [question, e, question]))
        ++ (text ++ [question, equals]) := by
  simp [assembled]

/-! ### Taking a word apart -/

theorem exists_opening {word : Bytes} (hequals : word[0]? = some equals)
    (hquestion : word[1]? = some question) : ∃ rest, word = equals :: question :: rest := by
  obtain _ | ⟨a, _ | ⟨b, rest⟩⟩ := word
  · cases hequals
  · cases hquestion
  · cases hequals
    cases hquestion
    exact ⟨rest, rfl⟩

theorem closing_suffix {word : Bytes} (hlen : 2 ≤ word.length)
    (hquestion : word[word.length - 2]? = some question)
    (hequals : word[word.length - 1]? = some equals) : [question, equals] <:+ word := by
  have hdrop : word.drop (word.length - 2) = [question, equals] := by
    apply List.ext_getElem?
    rintro (_ | _ | k)
    · rwa [List.getElem?_drop]
    · rwa [List.getElem?_drop, show word.length - 2 + (0 + 1) = word.length - 1 by omega]
    · rw [List.getElem?_drop, List.getElem?_eq_none (by omega)]
      rfl
  exact ⟨word.take (word.length - 2), by rw [← hdrop, List.take_append_drop]⟩

theorem exists_encoding {rest : Bytes} {j delim : Nat} {isBase64 : Bool}
    (hcharset : parseCharset (equals :: question :: rest) 2 = .ok j)
    (hencoding : parseEncoding (equals :: question :: rest) (j + 1) = .ok (isBase64, delim)) :
    ∃ charset e more, rest = charset ++ question :: e :: question :: more ∧ charset ≠ []
      ∧ (∀ c ∈ charset, TokenChar c) ∧ delim = charset.length + 4 := by
  rw [parseCharset] at hcharset
  split at hcharset
  · cases hcharset
  rename_i hstart
  obtain ⟨charset, after, hrest, htoken, rfl⟩ := parseCharsetLoop_eq_ok.mp hcharset
  obtain rfl : rest = charset ++ question :: after := hrest
  obtain ⟨e, he, hdelim, rfl, -⟩ := parseEncoding_eq_ok.mp hencoding
  have hbehind (k : Nat) :
      (equals :: question :: (charset ++ question :: after))[2 + charset.length + 1 + k]?
        = after[k]? := by
    rw [show equals :: question :: (charset ++ question :: after)
        = (equals :: question :: (charset ++ [question])) ++ after by simp]
    apply getElem?_behind
    simp only [List.length_cons, List.length_append, List.length_nil]
    omega
  have hfirst : after[0]? = some e := (hbehind 0).symm.trans he
  have hsecond : after[1]? = some question := (hbehind 1).symm.trans hdelim
  obtain _ | ⟨a, _ | ⟨b, more⟩⟩ := after
  · cases hfirst
  · cases hsecond
  · cases hfirst
    cases hsecond
    refine ⟨charset, e, more, rfl, ?_, htoken, by omega⟩
    rintro rfl
    exact hstart (.inr rfl)

theorem assembled_of_validate {word : Bytes} (h : validateEncodedWord word = .ok ()) :
    ∃ charset e text, word = assembled charset e text ∧ word.length ≤ 75 ∧ charset ≠ []
      ∧ (∀ c ∈ charset, TokenChar c) ∧ text ≠ [] := by
  unfold validateEncodedWord at h
  dsimp only at h
  split at h
  · cases h
  split at h
  · cases h
  rename_i hlength
  split at h
  · cases h
  rename_i hopen
  split at h
  · cases h
  rename_i hclose
  split at h
  · cases h
  rename_i charsetEnd hcharset
  split at h
  · cases h
  rename_i isBase64 encodingEnd hencoding
  split at h
  · cases h
  rename_i htext
  clear h
  simp only [not_or, not_not] at hopen hclose
  have hclosing := closing_suffix (Nat.le_of_not_lt hopen.1) hclose.1 hclose.2
  obtain ⟨rest, rfl⟩ := exists_opening hopen.2.1 hopen.2.2
  obtain ⟨charset, e, more, rfl, hne, htoken, rfl⟩ := exists_encoding hcharset hencoding
  have hcount : (equals :: question :: (charset ++ question :: e :: question :: more)).length
      = charset.length + more.length + 5 := by
    simp only [List.length_cons, List.length_append]
    omega
  rw [hcount] at htext
  -- Behind the encoding there is more than the two bytes of the closing delimiter.
  have hmore : more <:+ equals :: question :: (charset ++ question :: e :: question :: more) :=
    ⟨equals :: question :: (charset ++ [question, e, question]), by simp⟩
  obtain ⟨text, rfl⟩ : [question, equals] <:+ more := by
    apply List.suffix_of_suffix_length_le hclosing hmore
    simp only [List.length_cons, List.length_nil]
    omega
  refine ⟨charset, e, text, rfl, Nat.le_of_not_lt hlength, hne, htoken, ?_⟩
  rintro rfl
  simp only [List.nil_append, List.length_cons, List.length_nil] at htext
  omega

/-! ### Putting a word together -/

variable {charset text : Bytes} {e : UInt8}

theorem getElem?_behind_charset (k : Nat) : (assembled charset e text)[2 + charset.length + k]?
    = (question :: e :: question :: (text ++ [question, equals]))[k]? := by
  apply @getElem?_behind (equals :: question :: charset)
  simp only [List.length_cons]
  omega

theorem getElem?_behind_text (k : Nat) :
    (assembled charset e text)[charset.length + text.length + 5 + k]? = [question, equals][k]? := by
  rw [assembled_eq, ← List.append_assoc]
  apply getElem?_behind
  simp only [List.length_append, List.length_cons, List.length_nil]
  omega

theorem parseCharset_assembled (hcharset : charset ≠ []) (htoken : ∀ c ∈ charset, TokenChar c) :
    parseCharset (assembled charset e text) 2 = .ok (2 + charset.length) := by
  rw [parseCharset, if_neg]
  · exact parseCharsetLoop_eq_ok.mpr ⟨charset, _, rfl, htoken, rfl⟩
  · rw [length_assembled]
    rintro (hle | heq)
    · omega
    · obtain ⟨c, rest, rfl⟩ := List.exists_cons_of_ne_nil hcharset
      exact (htoken c List.mem_cons_self).ne_question (Option.some.inj heq)

theorem parseEncoding_assembled {isBase64 : Bool} {delim : Nat} :
    parseEncoding (assembled charset e text) (2 + charset.length + 1) = .ok (isBase64, delim)
      ↔ delim = 2 + charset.length + 2
        ∧ ((e = 81 ∨ e = 113) ∧ isBase64 = false ∨ (e = 66 ∨ e = 98) ∧ isBase64 = true) := by
  have he : (assembled charset e text)[2 + charset.length + 1]? = some e :=
    getElem?_behind_charset 1
  have hdelim : (assembled charset e text)[2 + charset.length + 1 + 1]? = some question :=
    getElem?_behind_charset 2
  rw [parseEncoding_eq_ok]
  constructor
  · rintro ⟨e', he', -, rfl, hflag⟩
    obtain rfl : e = e' := Option.some.inj (he.symm.trans he')
    exact ⟨rfl, hflag⟩
  · rintro ⟨rfl, hflag⟩
    exact ⟨e, he, hdelim, rfl, hflag⟩

/-- A word whose parts are there is accepted for its text alone. -/
theorem validate_assembled_eq_ok (hlength : (assembled charset e text).length ≤ 75)
    (hcharset : charset ≠ []) (htoken : ∀ c ∈ charset, TokenChar c) (htext : text ≠ []) :
    validateEncodedWord (assembled charset e text) = .ok () ↔ EncodedText e text := by
  have hlong := length_assembled charset e text
  have hquestion : (assembled charset e text)[charset.length + text.length + 7 - 2]?
      = some question := getElem?_behind_text 0
  have hequals : (assembled charset e text)[charset.length + text.length + 7 - 1]?
      = some equals := getElem?_behind_text 1
  have hnonempty : 0 < text.length := List.length_pos_iff.mpr htext
  have hopening : ¬(charset.length + text.length + 7 < 2
      ∨ (assembled charset e text)[0]? ≠ some equals
      ∨ (assembled charset e text)[1]? ≠ some question) := by
    rintro (h | h | h)
    · omega
    · exact h rfl
    · exact h rfl
  have hfront : (equals :: question :: (charset ++ [question, e, question])).length
      = charset.length + 5 := by simp
  have hbetween : charset.length + text.length + 7 - 2
      = (equals :: question :: (charset ++ [question, e, question])).length + text.length := by
    omega
  have hstart : 2 + charset.length + 2 + 1
      = (equals :: question :: (charset ++ [question, e, question])).length := by omega
  unfold validateEncodedWord
  rw [hlong] at hlength
  dsimp only
  rw [if_neg (show assembled charset e text ≠ [] from List.cons_ne_nil _ _), hlong,
    if_neg (show ¬encodedWordMaxLen < _ from Nat.not_lt.mpr hlength), if_neg hopening, hquestion,
    hequals, if_neg (by simp), parseCharset_assembled hcharset htoken]
  dsimp only
  by_cases hq : e = 81 ∨ e = 113
  · rw [parseEncoding_assembled.mpr ⟨rfl, .inl ⟨hq, rfl⟩⟩]
    dsimp only
    rw [if_neg (by omega), if_neg (by decide), hstart, hbetween, assembled_eq, validateQText_eq_ok]
    refine ⟨fun h => .inl ⟨hq, h⟩, ?_⟩
    rintro (⟨-, h⟩ | ⟨hb, -⟩)
    · exact h
    · rcases hq with rfl | rfl <;> exact absurd hb (by decide)
  by_cases hb : e = 66 ∨ e = 98
  · rw [parseEncoding_assembled.mpr ⟨rfl, .inr ⟨hb, rfl⟩⟩]
    dsimp only
    rw [if_neg (by omega), if_pos rfl, hstart, hbetween, assembled_eq, validateBText_eq_ok]
    refine ⟨fun h => .inr ⟨hb, h⟩, ?_⟩
    rintro (⟨h, -⟩ | ⟨-, h⟩)
    · exact absurd h hq
    · exact h
  refine iff_of_false (fun h => ?_) ?_
  · split at h
    · cases h
    · rename_i hencoded
      obtain ⟨-, ⟨h, -⟩ | ⟨h, -⟩⟩ := parseEncoding_assembled.mp hencoded
      · exact hq h
      · exact hb h
  · rintro (⟨h, -⟩ | ⟨h, -⟩)
    · exact hq h
    · exact hb h

theorem validateEncodedWord_iff (word : Bytes) :
    validateEncodedWord word = .ok () ↔ ∃ charset e text, EncodedWord word charset e text := by
  constructor
  · intro h
    obtain ⟨charset, e, text, rfl, hlength, hcharset, htoken, htext⟩ := assembled_of_validate h
    have hencoded := (validate_assembled_eq_ok hlength hcharset htoken htext).mp h
    exact ⟨charset, e, text, rfl, hlength, hcharset, htoken, htext, hencoded⟩
  · rintro ⟨charset, e, text, rfl, hlength, hcharset, htoken, htext, hencoded⟩
    exact (validate_assembled_eq_ok hlength hcharset htoken htext).mpr hencoded

/-- **The accepted words** are the encoded words, and the text of a B word decodes. -/
theorem validateEncodedWord_eq_ok (word : Bytes) :
    (validateEncodedWord word = .ok () ↔ ∃ charset e text, EncodedWord word charset e text)
      ∧ ∀ charset e text, EncodedWord word charset e text → e = 66 ∨ e = 98 →
        (Base64.decode text).isSome := by
  refine ⟨validateEncodedWord_iff word, fun charset e text h hb => ?_⟩
  rcases h.encoded with ⟨hq, -⟩ | ⟨-, htext⟩
  · rcases hq with rfl | rfl <;> exact absurd hb (by decide)
  · exact Base64.decode_isSome.mpr htext

end HeaderEncoding

end SmtpClient
