import SmtpClient.Base.Tokens
import SmtpClient.Proof.Dispatch
import Mathlib.Data.List.TakeWhile

/-!
# The mechanisms of an AUTH line

The three nested loops end for every parameter within one turn more than it has bytes, and hand each
maximal run of bytes other than spaces to the matcher, in order. A run sets the bit of the mechanism
whose whole name it is, in any case of letters, or the bit for unknown ones.
-/

namespace SmtpClient

namespace Cap

/-! ### The mechanisms -/

/-- The mechanisms of `smtp_auth_mech`, but for the unknown one. -/
inductive AuthMech where
  | plain
  | login
  | cramMd5
  | digestMd5
  | xoauth2
  | scramSha1
  | scramSha256
  | ntlm
  | gssapi
  deriving DecidableEq, Repr

namespace AuthMech

def name : AuthMech → Bytes
  | plain => bytes "PLAIN"
  | login => bytes "LOGIN"
  | cramMd5 => bytes "CRAM-MD5"
  | digestMd5 => bytes "DIGEST-MD5"
  | xoauth2 => bytes "XOAUTH2"
  | scramSha1 => bytes "SCRAM-SHA-1"
  | scramSha256 => bytes "SCRAM-SHA-256"
  | ntlm => bytes "NTLM"
  | gssapi => bytes "GSSAPI"

/-- The number of its bit. -/
def bit : AuthMech → Nat
  | plain => 0
  | login => 1
  | cramMd5 => 2
  | digestMd5 => 3
  | xoauth2 => 4
  | scramSha1 => 5
  | scramSha256 => 6
  | ntlm => 7
  | gssapi => 8

/-- The number of the bit for what is none of them. -/
def unknown : Nat := 9

def all : List AuthMech :=
  [plain, login, cramMd5, digestMd5, xoauth2, scramSha1, scramSha256, ntlm, gssapi]

theorem mem_all (mech : AuthMech) : mech ∈ all := by cases mech <;> decide

end AuthMech

/-- **The table** has the mechanisms of the header under their names, each with its bit. -/
theorem mem_knownAuth_iff {known : Bytes × Nat} :
    known ∈ knownAuth ↔ ∃ mech : AuthMech, known = (mech.name, 1 <<< mech.bit) := by
  have htable : knownAuth = AuthMech.all.map fun mech => (mech.name, 1 <<< mech.bit) := rfl
  rw [htable, List.mem_map]
  constructor
  · rintro ⟨mech, -, rfl⟩
    exact ⟨mech, rfl⟩
  · rintro ⟨mech, rfl⟩
    exact ⟨mech, mech.mem_all, rfl⟩

/-! ### One token -/

/-- The bit of a token. -/
def bitOf (token : Bytes) : Nat :=
  match knownAuth.find? fun known => ciEqual token known.1 with
  | some known => known.2
  | none => authMechUnknown

theorem matchAuthMechanism_eq (token : Bytes) (mask : Nat) :
    matchAuthMechanism token mask = mask ||| bitOf token := by
  unfold matchAuthMechanism bitOf
  cases knownAuth.find? fun known => ciEqual token known.1 <;> rfl

theorem knownAuth_names : ∀ known ∈ knownAuth, known.1.map fold = known.1 := by decide

theorem knownAuth_injective :
    ∀ known ∈ knownAuth, ∀ known' ∈ knownAuth, known.1 = known'.1 → known = known' := by decide

theorem bitOf_known {token : Bytes} {known : Bytes × Nat} (hmem : known ∈ knownAuth)
    (hname : token.map fold = known.1) : bitOf token = known.2 := by
  have hequal {candidate : Bytes × Nat} (hcandidate : candidate ∈ knownAuth) :
      ciEqual token candidate.1 = true ↔ token.map fold = candidate.1 := by
    rw [ciEqual_iff, knownAuth_names candidate hcandidate]
  have hsome : (knownAuth.find? fun candidate => ciEqual token candidate.1).isSome = true :=
    List.find?_isSome.mpr ⟨known, hmem, (hequal hmem).mpr hname⟩
  obtain ⟨found, hfound⟩ := Option.isSome_iff_exists.mp hsome
  have hfoundMem := List.mem_of_find?_eq_some hfound
  have hfoundEqual := List.find?_some hfound
  have hfoundName := (hequal hfoundMem).mp hfoundEqual
  rw [bitOf, hfound, knownAuth_injective found hfoundMem known hmem (hfoundName.symm.trans hname)]

theorem bitOf_unknown {token : Bytes} (hnone : ∀ known ∈ knownAuth, token.map fold ≠ known.1) :
    bitOf token = authMechUnknown := by
  have hfind : (knownAuth.find? fun candidate => ciEqual token candidate.1) = none := by
    rw [List.find?_eq_none]
    intro known hmem hequal
    rw [ciEqual_iff, knownAuth_names known hmem] at hequal
    exact hnone known hmem hequal
  rw [bitOf, hfind]

/-- A token is a mechanism's whole name, or no mechanism's. -/
theorem token_cases (token : Bytes) :
    (∃ known ∈ knownAuth, token.map fold = known.1 ∧ bitOf token = known.2)
      ∨ (∀ known ∈ knownAuth, token.map fold ≠ known.1) ∧ bitOf token = authMechUnknown := by
  by_cases h : ∃ known ∈ knownAuth, token.map fold = known.1
  · obtain ⟨known, hmem, hname⟩ := h
    exact .inl ⟨known, hmem, hname, bitOf_known hmem hname⟩
  · have hnone : ∀ known ∈ knownAuth, token.map fold ≠ known.1 :=
      fun known hmem hname => h ⟨known, hmem, hname⟩
    exact .inr ⟨hnone, bitOf_unknown hnone⟩

/-! ### All tokens -/

theorem parseAuthMechanisms_eq (text : Bytes) {token : Bytes} (htoken : 32 ∉ token) (mask : Nat) :
    parseAuthMechanisms text token mask
      = (tokens 32 (token ++ text)).foldl (fun mask token => mask ||| bitOf token) mask := by
  induction text generalizing token mask with
  | nil =>
      rw [List.append_nil, tokens_of_not_mem htoken, parseAuthMechanisms]
      cases token with
      | nil => rfl
      | cons c token => exact matchAuthMechanism_eq _ _
  | cons c text ih =>
      rw [parseAuthMechanisms]
      by_cases hblank : c = 32
      · rw [if_pos hblank, ih List.not_mem_nil, hblank, tokens_append_cons htoken,
          List.foldl_append]
        cases token with
        | nil => rfl
        | cons d token =>
            rw [matchAuthMechanism_eq]
            rfl
      · have hfree : 32 ∉ token ++ [c] := by
          rw [List.mem_append, List.mem_singleton]
          exact fun h => h.elim htoken fun heq => hblank heq.symm
        rw [if_neg hblank, ih hfree, List.append_assoc]
        rfl

theorem testBit_foldl (bits : Bytes → Nat) (toks : List Bytes) (mask b : Nat) :
    (toks.foldl (fun mask token => mask ||| bits token) mask).testBit b = true
      ↔ mask.testBit b = true ∨ ∃ token ∈ toks, (bits token).testBit b = true := by
  induction toks generalizing mask with
  | nil => simp
  | cons token toks ih =>
      rw [List.foldl_cons, ih, Nat.testBit_or, Bool.or_eq_true, or_assoc]
      simp

/-! ### The loops over indices -/

theorem scanWhile_eq (p : UInt8 → Bool) (text : Bytes) {turns i : Nat}
    (henough : text.length - i < turns) :
    scanWhile p text turns i = some (i + ((text.drop i).takeWhile p).length) := by
  induction turns generalizing i with
  | zero => exact absurd henough (Nat.not_lt_zero _)
  | succ turns ih =>
      rw [scanWhile]
      rcases Nat.lt_or_ge i text.length with hi | hi
      · rw [List.getElem?_eq_getElem hi, List.drop_eq_getElem_cons hi]
        dsimp only
        by_cases hp : p text[i] = true
        · rw [if_pos hp, ih (by omega), List.takeWhile_cons_of_pos hp, List.length_cons]
          congr 1
          omega
        · rw [if_neg hp, List.takeWhile_cons_of_neg hp]
          rfl
      · rw [List.getElem?_eq_none hi, List.drop_of_length_le hi]
        rfl

theorem parse_blanks {blanks : Bytes} (hblanks : ∀ c ∈ blanks, c = 32) (rest : Bytes) (mask : Nat) :
    parseAuthMechanisms (blanks ++ rest) [] mask = parseAuthMechanisms rest [] mask := by
  induction blanks with
  | nil => rfl
  | cons c blanks ih =>
      rw [List.cons_append, parseAuthMechanisms, if_pos (hblanks c List.mem_cons_self)]
      exact ih fun d hd => hblanks d (List.mem_cons_of_mem c hd)

/-- A token that ends at a space or at the end. -/
theorem parse_token {token rest : Bytes} (htoken : 32 ∉ token)
    (hrest : rest = [] ∨ ∃ more, rest = 32 :: more) (mask : Nat) :
    parseAuthMechanisms (token ++ rest) [] mask
      = parseAuthMechanisms rest []
          (if token = [] then mask else matchAuthMechanism token mask) := by
  rw [parseAuthMechanisms_eq _ List.not_mem_nil, parseAuthMechanisms_eq _ List.not_mem_nil,
    List.nil_append, List.nil_append]
  rcases hrest with rfl | ⟨more, rfl⟩
  · rw [List.append_nil, tokens_of_not_mem htoken]
    split
    · rfl
    · rw [matchAuthMechanism_eq]
      rfl
  · have hblank : tokens 32 (32 :: more) = tokens 32 more :=
      tokens_append_cons (List.not_mem_nil) more
    rw [tokens_append_cons htoken, hblank, List.foldl_append]
    split
    · rfl
    · rw [matchAuthMechanism_eq]
      rfl

theorem dropWhile_ne (l : Bytes) :
    l.dropWhile (· ≠ 32) = [] ∨ ∃ more, l.dropWhile (· ≠ 32) = 32 :: more := by
  induction l with
  | nil => exact .inl rfl
  | cons c l ih =>
      by_cases hblank : c = 32
      · rw [List.dropWhile_cons_of_neg (by simpa using hblank), hblank]
        exact .inr ⟨l, rfl⟩
      · rw [List.dropWhile_cons_of_pos (by simpa using hblank)]
        exact ih

/-- What one turn of the outer loop goes over: blanks and a token, one of them not empty. -/
theorem exists_cut (l : Bytes) :
    ∃ blanks token rest, l = blanks ++ (token ++ rest) ∧ l.takeWhile (· = 32) = blanks
      ∧ (token ++ rest).takeWhile (· ≠ 32) = token ∧ (∀ c ∈ blanks, c = 32) ∧ 32 ∉ token
      ∧ (rest = [] ∨ ∃ more, rest = 32 :: more) ∧ (l ≠ [] → 0 < blanks.length + token.length) := by
  obtain ⟨more, hmore⟩ : ∃ more, l.dropWhile (· = 32) = more := ⟨_, rfl⟩
  have hl : l.takeWhile (· = 32) ++ more = l := by rw [← hmore, List.takeWhile_append_dropWhile]
  have htoken : more.takeWhile (· ≠ 32) ++ more.dropWhile (· ≠ 32) = more :=
    List.takeWhile_append_dropWhile
  refine ⟨l.takeWhile (· = 32), more.takeWhile (· ≠ 32), more.dropWhile (· ≠ 32), ?_, rfl, ?_, ?_,
    ?_, ?_, ?_⟩
  · rw [htoken, hl]
  · rw [htoken]
  · intro c hc
    simpa using List.mem_takeWhile_imp hc
  · intro hmem
    exact absurd (List.mem_takeWhile_imp hmem) (by decide)
  · exact dropWhile_ne more
  · intro hne
    obtain ⟨c, tail, rfl⟩ := List.exists_cons_of_ne_nil hne
    by_cases hblank : c = 32
    · rw [List.takeWhile_cons_of_pos (by simpa using hblank), List.length_cons]
      omega
    · rw [List.dropWhile_cons_of_neg (by simpa using hblank)] at hmore
      have htake : (c :: tail).takeWhile (· ≠ 32) = c :: tail.takeWhile (· ≠ 32) :=
        List.takeWhile_cons_of_pos (by simpa using hblank)
      rw [← hmore, htake, List.length_cons]
      omega

/-- **The loops end,** with what the parser computes. -/
theorem authLoop_eq (text : Bytes) {turns i : Nat} (mask : Nat)
    (henough : text.length - i + 1 < turns) :
    authLoop text turns i mask = some (parseAuthMechanisms (text.drop i) [] mask) := by
  induction turns generalizing i mask with
  | zero => exact absurd henough (Nat.not_lt_zero _)
  | succ turns ih =>
      rw [authLoop]
      rcases Nat.lt_or_ge i text.length with hi | hi
      swap
      · rw [if_neg (Nat.not_lt_of_ge hi), List.drop_of_length_le hi]
        rfl
      obtain ⟨blanks, token, rest, hcut, hblanks, htoken, hall, hfree, hrest, hmoves⟩ :=
        exists_cut (text.drop i)
      have hlength := congrArg List.length hcut
      simp only [List.length_drop, List.length_append] at hlength
      have hne : text.drop i ≠ [] := List.drop_eq_nil_iff.not.mpr (Nat.not_le_of_lt hi)
      have hmoves := hmoves hne
      have hstart : text.drop (i + blanks.length) = token ++ rest := by
        rw [← List.drop_drop, hcut, List.drop_left]
      have hstop : text.drop (i + blanks.length + token.length) = rest := by
        rw [← List.drop_drop, hstart, List.drop_left]
      rw [if_pos hi, scanWhile_eq _ _ (by omega), hblanks, Option.bind_eq_bind, Option.bind_some,
        scanWhile_eq _ _ (by omega), hstart, htoken, Option.bind_some,
        Nat.add_sub_cancel_left, List.take_left, ih _ (by omega), hstop, hcut,
        parse_blanks hall, parse_token hfree hrest]
      cases token with
      | nil => simp
      | cons c token => simp

/-! ### The line -/

/-- The bit that stands for a token: that of the mechanism it is the name of, in any case of
letters, or the last one. -/
def StandsFor (token : Bytes) (bit : Nat) : Prop :=
  (∃ mech : AuthMech, token.map fold = mech.name ∧ mech.bit = bit)
    ∨ (∀ mech : AuthMech, token.map fold ≠ mech.name) ∧ AuthMech.unknown = bit

theorem testBit_one_shiftLeft (n bit : Nat) : (1 <<< n).testBit bit = true ↔ n = bit := by
  rw [Nat.one_shiftLeft, Nat.testBit_two_pow, decide_eq_true_eq]

theorem testBit_bitOf (token : Bytes) (bit : Nat) :
    (bitOf token).testBit bit = true ↔ StandsFor token bit := by
  rcases token_cases token with ⟨known, hmem, hname, hbit⟩ | ⟨hnone, hbit⟩
  · obtain ⟨mech, rfl⟩ := mem_knownAuth_iff.1 hmem
    rw [hbit, testBit_one_shiftLeft]
    constructor
    · exact fun h => .inl ⟨mech, hname, h⟩
    · rintro (⟨mech', hname', rfl⟩ | ⟨hnone, -⟩)
      · have hmem' := mem_knownAuth_iff.2 ⟨mech', rfl⟩
        have hsame := knownAuth_injective _ hmem _ hmem' (hname.symm.trans hname')
        have hbits : 1 <<< mech.bit = 1 <<< mech'.bit := congrArg Prod.snd hsame
        rw [Nat.one_shiftLeft, Nat.one_shiftLeft] at hbits
        exact Nat.pow_right_injective (Nat.le_refl 2) hbits
      · exact absurd hname (hnone mech)
  · have hnone' (mech : AuthMech) : token.map fold ≠ mech.name :=
      hnone _ (mem_knownAuth_iff.2 ⟨mech, rfl⟩)
    rw [hbit, authMechUnknown, testBit_one_shiftLeft]
    constructor
    · exact fun h => .inr ⟨hnone', h⟩
    · rintro (⟨mech, hname, -⟩ | ⟨-, h⟩)
      · exact absurd hname (hnone' mech)
      · exact h

/-- **Mechanisms are recognised token by token.** Behind an AUTH line a bit is set if it was before
or stands for one of the maximal runs of bytes other than spaces in the parameter, and no other bit
is. The loops come to that mask in no more turns than the parameter has bytes, and two. -/
theorem auth_mechanisms (caps : Capabilities) (text : Bytes)
    (hname : ciEqual (kwOf text) Known.auth.name = true) :
    (∀ bit, (parseLine caps text).authMechs.testBit bit = true
        ↔ caps.authMechs.testBit bit = true
          ∨ ∃ token, MaximalRun 32 (paramsOf text) token ∧ StandsFor token bit)
      ∧ authLoop (paramsOf text) ((paramsOf text).length + 2) 0 caps.authMechs
        = some (parseLine caps text).authMechs := by
  rw [parseLine_known caps hname]
  refine ⟨fun bit => ?_, ?_⟩
  · change (parseAuthMechanisms (paramsOf text) [] caps.authMechs).testBit bit = true ↔ _
    rw [parseAuthMechanisms_eq _ List.not_mem_nil, List.nil_append, testBit_foldl bitOf]
    simp only [mem_tokens_iff, testBit_bitOf]
  · rw [authLoop_eq _ _ (by omega), List.drop_zero]
    rfl

/-- Known names in mixed case between spaces, and a longer one that begins with one of them. -/
theorem auth_mechanisms_several :
    ciEqual (kwOf (bytes "auth  Plain scram-SHA-256 LOGIN  PLAIN-2")) Known.auth.name = true
      ∧ (parseLine init (bytes "auth  Plain scram-SHA-256 LOGIN  PLAIN-2")).authMechs
        = 1 <<< AuthMech.plain.bit ||| 1 <<< AuthMech.scramSha256.bit ||| 1 <<< AuthMech.login.bit
          ||| 1 <<< AuthMech.unknown
      ∧ ∀ bit, (parseLine init (bytes "auth  Plain scram-SHA-256 LOGIN  PLAIN-2")).authMechs.testBit
          bit = true ↔ init.authMechs.testBit bit = true
        ∨ ∃ token, MaximalRun 32 (paramsOf (bytes "auth  Plain scram-SHA-256 LOGIN  PLAIN-2")) token
          ∧ StandsFor token bit := by
  have hname : ciEqual (kwOf (bytes "auth  Plain scram-SHA-256 LOGIN  PLAIN-2")) Known.auth.name
      = true := by decide
  exact ⟨hname, by decide, (auth_mechanisms init _ hname).1⟩

end Cap

end SmtpClient
