import EmvaultPkcs11.HexDecoding
import EmvaultPkcs11.IdealVendor

/-! What becomes of an explicit seed, from the key text to the derivation request. The request carries the seed,
64 bytes, and an empty seed is sent as 64 zero bytes, which tell the token to use a seed of its own. So a text
`seed:` without digits, and one whose digits are all zeros, ask for the same key as `shim`; every other seed is
refused or sent as it is. -/

open Effect

namespace EmvaultPkcs11

variable {K D : Type}

/-! ### Derivation requests -/

/-- The program sends no derivation request. -/
def Underived {ε α : Type} (p : TokenProgram K D ε α) : Prop :=
  ∀ mechanism base template, ¬Program.Makes (I := Session K D) (.deriveKey mechanism base template) p

namespace Underived

variable {ε α β : Type}

theorem bind {p : TokenProgram K D ε α} {f : α → TokenProgram K D ε β} (hp : Underived p)
    (hf : ∀ a, Underived (f a)) : Underived (p >>= f) := by
  intro mechanism base template hmakes
  rcases Program.makes_of_bind hmakes with h | ⟨a, h⟩
  · exact hp mechanism base template h
  · exact hf a mechanism base template h

theorem ofResult (result : Except (Stop ε) α) : Underived (Program.ofExcept result : TokenProgram K D ε α) := by
  intro mechanism base template hmakes
  cases result <;> exact hmakes

theorem orStopped (wrap : CryptokiError → ε) (result : Except CryptokiError α) :
    Underived (orStop wrap result : TokenProgram K D ε α) := by
  intro mechanism base template hmakes
  cases result <;> exact hmakes

theorem getAttributes (wrap : CryptokiError → ε) (handle : ObjectHandle) (types : List AttributeType) :
    Underived (Session.getAttributes wrap handle types : TokenProgram K D ε (List Attribute)) := by
  rintro mechanism base template (heq | ⟨reply, hmakes⟩)
  · cases heq
  · exact orStopped wrap reply mechanism base template hmakes

end Underived

namespace AttributeDerivation

variable (recipe : AttributeDerivation K D) (crates : Crates D)

theorem underived_readMaster (keyHandle : ObjectHandle) : Underived (recipe.readMaster crates keyHandle) := by
  refine Underived.bind ?_ fun xpub => Underived.bind ?_ fun fingerprint => ?_
  · exact (Underived.getAttributes _ _ _).bind fun attributes => Underived.ofResult _
  · exact (Underived.getAttributes _ _ _).bind fun attributes => Underived.ofResult _
  · exact fun mechanism base template => id

/-- The request for a master key, with the seed as the mechanism's parameter. -/
def masterRequest (seed : Bytes) (label : String) (base : ObjectHandle) : Call D :=
  .deriveKey (.vendorDefined recipe.masterDeriveMechanism seed) base (masterKeyTemplate label)

/-- The derivation requests that making a master key can send, for some answers of the token. -/
def masterRequests (seed : Bytes) (label : String) : Set (Call D) :=
  {c | (∃ mechanism base template, c = .deriveKey mechanism base template) ∧
    Program.Makes (I := Session K D) c ((recipe.toHsmBackend crates).deriveMasterKey seed label)}

/-- The seed has a length that is not refused. -/
def SeedLength (seed : Bytes) : Prop := seed.length = 0 ∨ seed.length = 64

variable {seed : Bytes}

theorem deriveMasterKey_refused (hseed : ¬SeedLength seed) (label : String) :
    ∃ reason, (recipe.toHsmBackend crates).deriveMasterKey seed label = .stop (.err reason) := by
  simp only [SeedLength, not_or] at hseed
  refine ⟨_, if_pos ⟨?_, hseed.2⟩⟩
  simpa using hseed.1

/-- What follows the derivation request. -/
def afterRequest (base : ObjectHandle) (result : Except CryptokiError ObjectHandle) :
    TokenProgram K D HsmBackendError MasterKeyHandle := do
  Session.tryDestroyObject base
  let keyHandle ← orStop .pkcs11 result
  recipe.readMaster crates keyHandle

theorem underived_afterRequest (base : ObjectHandle) (result : Except CryptokiError ObjectHandle) :
    Underived (recipe.afterRequest crates base result) := by
  rintro mechanism base' template (heq | ⟨reply, hmakes⟩)
  · cases heq
  · have hrest := (Underived.orStopped HsmBackendError.pkcs11 result).bind (recipe.underived_readMaster crates)
    exact hrest mechanism base' template hmakes

theorem deriveMasterKey_accepted (hseed : SeedLength seed) (label : String) :
    (recipe.toHsmBackend crates).deriveMasterKey seed label =
      (Session.createObject .pkcs11 (seedSecretTemplate (seedBuffer seed)) >>= fun base =>
        .call (I := Session K D) (recipe.masterRequest (seedBuffer seed) label base)
          (recipe.afterRequest crates base)) := by
  apply if_neg
  rintro ⟨hnonempty, hlength⟩
  rcases hseed with hzero | hseed
  · rw [List.length_eq_zero_iff] at hzero
    subst hzero
    cases hnonempty
  · exact hlength hseed

/-- A seed that is not refused is sent in every derivation request, and there is one for each handle that the
seed object may get. -/
theorem masterRequests_eq (hseed : SeedLength seed) (label : String) :
    recipe.masterRequests crates seed label = Set.range (recipe.masterRequest (seedBuffer seed) label) := by
  ext c
  rw [masterRequests, deriveMasterKey_accepted recipe crates hseed]
  constructor
  · rintro ⟨⟨mechanism, base, template, rfl⟩, heq | ⟨reply, hmakes⟩⟩
    · cases heq
    · cases reply with
      | error e => exact hmakes.elim
      | ok handle =>
          rcases hmakes with heq | ⟨result, hmakes⟩
          · exact ⟨handle, heq⟩
          · exact absurd hmakes (recipe.underived_afterRequest crates handle result mechanism base template)
  · rintro ⟨base, rfl⟩
    exact ⟨⟨_, _, _, rfl⟩, Or.inr ⟨.ok base, Or.inl rfl⟩⟩

theorem masterRequest_inj {seed seed' : Bytes} {label : String} {base base' : ObjectHandle}
    (h : recipe.masterRequest seed label base = recipe.masterRequest seed' label base') : seed = seed' := by
  simp only [masterRequest, Call.deriveKey.injEq, Mechanism.vendorDefined.injEq] at h
  exact h.1.2

/-- Two seeds share a derivation request exactly if they are sent as the same 64 bytes. -/
theorem disjoint_masterRequests_iff {seed seed' : Bytes} (hseed : SeedLength seed) (hseed' : SeedLength seed')
    (label : String) :
    Disjoint (recipe.masterRequests crates seed label) (recipe.masterRequests crates seed' label) ↔
      seedBuffer seed ≠ seedBuffer seed' := by
  rw [masterRequests_eq recipe crates hseed, masterRequests_eq recipe crates hseed', Set.disjoint_left]
  constructor
  · intro hdisjoint heq
    exact hdisjoint ⟨0, rfl⟩ ⟨0, by rw [heq]⟩
  · rintro hne c ⟨base, rfl⟩ ⟨base', heq⟩
    exact hne (recipe.masterRequest_inj heq).symm

/-! ### Blank seeds -/

/-- Zero bytes only, or no bytes. -/
def Blank (seed : Bytes) : Prop := ∀ byte ∈ seed, byte = 0

theorem seedBuffer_of_length (hlength : seed.length = 64) : seedBuffer seed = seed := if_pos hlength

theorem seedBuffer_eq_zeros_iff (hseed : SeedLength seed) :
    seedBuffer seed = List.replicate 64 0 ↔ Blank seed := by
  rcases hseed with hlength | hlength
  · rw [List.length_eq_zero_iff] at hlength
    subst hlength
    exact iff_of_true rfl fun byte hbyte => absurd hbyte List.not_mem_nil
  · rw [seedBuffer_of_length hlength, List.eq_replicate_iff, and_iff_right hlength]
    rfl

/-- Different seeds are sent as the same bytes exactly if both are blank. -/
theorem seedBuffer_eq_iff {seed seed' : Bytes} (hseed : SeedLength seed) (hseed' : SeedLength seed')
    (hne : seed ≠ seed') : seedBuffer seed = seedBuffer seed' ↔ Blank seed ∧ Blank seed' := by
  rw [← seedBuffer_eq_zeros_iff hseed, ← seedBuffer_eq_zeros_iff hseed']
  constructor
  · intro heq
    have hempty {seed : Bytes} (hzero : seed.length = 0) : seedBuffer seed = List.replicate 64 0 := by
      rw [List.length_eq_zero_iff.mp hzero]
      rfl
    rcases hseed with hzero | hlength
    · exact ⟨hempty hzero, heq ▸ hempty hzero⟩
    · rcases hseed' with hzero' | hlength'
      · exact ⟨heq.trans (hempty hzero'), hempty hzero'⟩
      · rw [seedBuffer_of_length hlength, seedBuffer_of_length hlength'] at heq
        exact absurd heq hne
  · rintro ⟨hzeros, hzeros'⟩
    rw [hzeros, hzeros']

end AttributeDerivation

/-! ### Blank texts -/

namespace Fleet

/-- The digits of an empty seed or of 64 zero bytes; a sign may stand for the first digit of a byte. -/
def BlankDigits (chars : List Char) : Prop :=
  (chars.length = 0 ∨ chars.length = 128) ∧ ∀ c ∈ chars, c = '0' ∨ c = '+'

theorem toDigit_eq_zero_iff {c : Char} : toDigit 16 c = some 0 ↔ c = '0' := by
  by_cases hc : c.toNat < 128
  · have h : ∀ n : Fin 128, toDigit 16 (Char.ofNat n) = some 0 ↔ Char.ofNat n = '0' := by decide +kernel
    obtain ⟨n, rfl⟩ := exists_ascii hc
    exact h n
  · refine iff_of_false ?_ ?_
    · simp [toDigit_of_not_ascii (Nat.le_of_not_lt hc)]
    · rintro rfl
      exact hc (by decide)

theorem not_digit_plus {digit : Nat} : toDigit 16 '+' ≠ some digit :=
  fun h => not_isHexDigit_plus (isHexDigit_iff.mpr ⟨digit, h⟩)

theorem byte_eq_zero_iff {value : Nat} (hvalue : value < 256) : UInt8.ofNat value = 0 ↔ value = 0 := by
  rw [← UInt8.toNat_inj, UInt8.toNat_ofNat_of_lt' hvalue]
  rfl

/-- A pair is read as zero exactly if its digit is zero, or both are. -/
theorem readPair_zero_iff {a b : Char} {value : Nat} (hread : readPair a b = .ok value) :
    UInt8.ofNat value = 0 ↔ (a = '0' ∨ a = '+') ∧ (b = '0' ∨ b = '+') := by
  have hdigit {c : Char} {digit : Nat} (hc : toDigit 16 c = some digit) :
      digit < 16 ∧ c ≠ '+' ∧ (digit = 0 ↔ c = '0') := by
    refine ⟨toDigit_lt hc, ?_, ?_⟩
    · rintro rfl
      exact not_digit_plus hc
    · rw [← toDigit_eq_zero_iff, hc, Option.some.injEq]
  by_cases ha : a = '+'
  · subst ha
    cases hlow : toDigit 16 b with
    | none => simp [readPair, hlow] at hread
    | some low =>
        obtain rfl : low = value := by simpa [readPair, hlow] using hread
        obtain ⟨hlt, hne, hzero⟩ := hdigit hlow
        rw [byte_eq_zero_iff (by omega), hzero]
        simp [hne]
  · obtain ⟨high, low, hhigh, hlow, rfl⟩ := (readPair_eq_ok ha).mp hread
    obtain ⟨hlt, hne, hzero⟩ := hdigit hhigh
    obtain ⟨hlt', hne', hzero'⟩ := hdigit hlow
    rw [byte_eq_zero_iff (by omega), or_iff_left hne, or_iff_left hne', ← hzero, ← hzero']
    omega

/-- What is read from digits is blank exactly if the digits are. -/
theorem blank_readPairs {chars : List Char} {bytes : Bytes} (hread : readPairs chars = .ok bytes) :
    chars.length = 2 * bytes.length ∧ (AttributeDerivation.Blank bytes ↔ ∀ c ∈ chars, c = '0' ∨ c = '+') := by
  fun_induction readPairs chars generalizing bytes with
  | case1 =>
      obtain rfl := Except.ok.inj hread
      refine ⟨rfl, iff_of_true ?_ ?_⟩
      · exact fun byte hbyte => absurd hbyte List.not_mem_nil
      · exact fun c hc => absurd hc List.not_mem_nil
  | case2 c hwide => cases hread
  | case3 c hnarrow => cases hread
  | case4 a b rest hcut => cases hread
  | case5 a b rest hcut hsize => cases hread
  | case6 a b rest hcut hsize value hpair ih =>
      cases hrest : readPairs rest with
      | error stop =>
          rw [hrest] at hread
          cases hread
      | ok bytes' =>
          rw [hrest] at hread
          obtain rfl := Except.ok.inj hread
          obtain ⟨hlength, hblank⟩ := ih hrest
          refine ⟨by simp only [List.length_cons]; omega, ?_⟩
          rw [AttributeDerivation.Blank, List.forall_mem_cons, readPair_zero_iff hpair, List.forall_mem_cons,
            List.forall_mem_cons, ← hblank, and_assoc]
          rfl
  | case7 a b rest hcut hsize e hpair => cases hread

/-- The seed read from a text is blank, and not refused, exactly if the digits are. -/
theorem blank_decodeHex {hex : String} {seed : Bytes} (hread : decodeHex hex = .ok seed) :
    AttributeDerivation.SeedLength seed ∧ AttributeDerivation.Blank seed ↔ BlankDigits (trim hex).toList := by
  rw [decodeHex_eq] at hread
  by_cases heven : byteLen (trim hex).toList % 2 = 0
  · rw [if_neg (not_not_intro heven)] at hread
    obtain ⟨hlength, hblank⟩ := blank_readPairs hread
    rw [BlankDigits, ← hblank, AttributeDerivation.SeedLength, hlength]
    apply and_congr_left'
    omega
  · rw [if_pos heven] at hread
    cases hread

theorem dropWhile_start {start : List Char} (hstart : ∀ c ∈ start, isWhitespace c = false) (hne : start ≠ [])
    (after : List Char) : (start ++ after).dropWhile isWhitespace = start ++ after := by
  cases start with
  | nil => exact absurd rfl hne
  | cons c start => rw [List.cons_append, List.dropWhile_cons_of_neg (by simp [hstart c List.mem_cons_self])]

/-- A text that begins with a word still does so when it is trimmed. -/
theorem stripStart_trim {start text : String} (hstart : ∀ c ∈ start.toList, isWhitespace c = false)
    (hne : start.toList ≠ []) (htext : start.toList <+: text.toList) :
    ∃ rest, stripStart start (trim text) = some rest := by
  obtain ⟨after, hafter⟩ := htext
  have hkept : start.toList <+: (trim text).toList := by
    have hback : ∀ c ∈ start.toList.reverse, isWhitespace c = false :=
      fun c hc => hstart c (List.mem_reverse.mp hc)
    have hself := dropWhile_start hback (List.reverse_ne_nil_iff.mpr hne) []
    rw [List.append_nil] at hself
    rw [trim, String.toList_ofList, ← hafter, dropWhile_start hstart hne, List.reverse_append,
      List.dropWhile_append, hself]
    split
    · rw [List.reverse_reverse]
    · rw [List.reverse_append, List.reverse_reverse]
      exact List.prefix_append _ _
  exact ⟨_, if_pos (List.isPrefixOf_iff_prefix.mpr hkept)⟩

/-- The key text of an explicit seed. -/
def seedText (seed : Bytes) : String := .ofList ("seed:".toList ++ hexDigits seed)

theorem toList_seedText (seed : Bytes) : (seedText seed).toList = "seed:".toList ++ hexDigits seed :=
  String.toList_ofList

theorem isPrefix_seedText (seed : Bytes) : "seed:".toList <+: (seedText seed).toList :=
  ⟨hexDigits seed, (toList_seedText seed).symm⟩

theorem seed_not_whitespace : ∀ c ∈ "seed:".toList, isWhitespace c = false := by
  intro c hc
  fin_cases hc <;> rfl

theorem hexDigits_not_whitespace (bytes : Bytes) : ∀ c ∈ hexDigits bytes, isWhitespace c = false :=
  forall_hexDigits (by decide) bytes

theorem stripStart_seedText (seed : Bytes) :
    stripStart "seed:" (trim (seedText seed)) = some (.ofList (hexDigits seed)) := by
  have htrim : trim (seedText seed) = seedText seed := by
    apply trim_eq_self
    rw [toList_seedText, List.forall_mem_append]
    exact ⟨seed_not_whitespace, hexDigits_not_whitespace seed⟩
  rw [htrim, stripStart_eq_some_iff, toList_seedText]
  exact congrArg _ String.toList_ofList.symm

/-- The key text of a seed is read as the seed. -/
theorem parseKeyInit_seedText (seed : Bytes) (i : Nat) :
    parseKeyInit (seedText seed) i = .ok (.deriveFromSeed seed) := by
  rw [parseKeyInit_seed (stripStart_seedText seed), decodeHex_of_denotes (denotes_lowerCase seed)]
  rfl

variable {K D : Type} (recipe : AttributeDerivation K D) (crates : Crates D)

/-- Making a master key from the seed refuses it before the first call, or sends it in a request of its own. -/
def SeedKept (label : String) (seed : Bytes) : Prop :=
  (∃ reason, (recipe.toHsmBackend crates).deriveMasterKey seed label = .stop (.err reason)) ∨
    seed.length = 64 ∧ recipe.masterRequests crates seed label = Set.range (recipe.masterRequest seed label) ∧
      ∀ shim i, parseKeyInit "shim" i = .ok (.deriveFromSeed shim) →
        Disjoint (recipe.masterRequests crates seed label) (recipe.masterRequests crates shim label)

theorem parseKeyInit_shim (i : Nat) : parseKeyInit "shim" i = .ok (.deriveFromSeed []) := by
  rfl

/-- A seed is kept exactly if it is refused or not blank. -/
theorem seedKept_iff {seed : Bytes} {label : String} : SeedKept recipe crates label seed ↔
    ¬(AttributeDerivation.SeedLength seed ∧ AttributeDerivation.Blank seed) := by
  by_cases hseed : AttributeDerivation.SeedLength seed
  · have hsent : ¬∃ reason, (recipe.toHsmBackend crates).deriveMasterKey seed label = .stop (.err reason) := by
      rintro ⟨reason, hstop⟩
      rw [AttributeDerivation.deriveMasterKey_accepted recipe crates hseed] at hstop
      cases hstop
    rw [SeedKept, or_iff_right hsent, and_iff_right hseed]
    rcases id hseed with hzero | hlength
    · rw [List.length_eq_zero_iff] at hzero
      subst hzero
      exact iff_of_false (fun h => absurd h.1 (by decide)) (not_not_intro nofun)
    · have hrange := AttributeDerivation.masterRequests_eq recipe crates hseed label
      rw [AttributeDerivation.seedBuffer_of_length hlength] at hrange
      have hempty : AttributeDerivation.SeedLength [] := Or.inl rfl
      have hshim := AttributeDerivation.disjoint_masterRequests_iff recipe crates hseed hempty label
      rw [← AttributeDerivation.seedBuffer_eq_zeros_iff hseed, and_iff_right hlength, and_iff_right hrange]
      refine Iff.trans ⟨fun h => h [] 0 (parseKeyInit_shim 0), fun h shim i hparse => ?_⟩ hshim
      rw [parseKeyInit_shim, Except.ok.injEq, KeyInit.deriveFromSeed.injEq] at hparse
      rwa [← hparse]
  · exact iff_of_true (Or.inl (recipe.deriveMasterKey_refused crates hseed label)) fun h => hseed h.1

/-- An explicit seed is kept exactly if its text has a digit other than zero, or not the digits of a seed. -/
theorem explicit_seed_kept_iff {text : String} (htext : "seed:".toList <+: text.toList) {i : Nat}
    {keyInit : KeyInit} (hkey : parseKeyInit text i = .ok keyInit) (label : String) :
    (∃ hex seed, stripStart "seed:" (trim text) = some hex ∧ keyInit = .deriveFromSeed seed ∧
      (SeedKept recipe crates label seed ↔ ¬BlankDigits (trim hex).toList)) ∧
    ∀ seed seed', AttributeDerivation.SeedLength seed → AttributeDerivation.SeedLength seed' → seed ≠ seed' →
      (Disjoint (recipe.masterRequests crates seed label) (recipe.masterRequests crates seed' label) ↔
        ¬(AttributeDerivation.Blank seed ∧ AttributeDerivation.Blank seed')) := by
  constructor
  · obtain ⟨hex, hhex⟩ := stripStart_trim seed_not_whitespace (by decide) htext
    rw [parseKeyInit_seed hhex] at hkey
    cases hread : decodeHex hex with
    | error stop =>
        rw [hread] at hkey
        cases hkey
    | ok seed =>
        rw [hread] at hkey
        refine ⟨hex, seed, hhex, (Except.ok.inj hkey).symm, ?_⟩
        rw [seedKept_iff, blank_decodeHex hread]
  · intro seed seed' hseed hseed' hne
    rw [AttributeDerivation.disjoint_masterRequests_iff recipe crates hseed hseed', ne_eq,
      AttributeDerivation.seedBuffer_eq_iff hseed hseed' hne]

end Fleet

open IdealVendor Fleet in
theorem explicit_seed_kept :
    (∃ hex seed, stripStart "seed:" (trim (seedText (List.replicate 64 1))) = some hex ∧
      KeyInit.deriveFromSeed (List.replicate 64 1) = .deriveFromSeed seed ∧
      (SeedKept recipe crates "vault" seed ↔ ¬BlankDigits (trim hex).toList)) ∧
    ∀ seed seed', AttributeDerivation.SeedLength seed → AttributeDerivation.SeedLength seed' → seed ≠ seed' →
      (Disjoint (recipe.masterRequests crates seed "vault") (recipe.masterRequests crates seed' "vault") ↔
        ¬(AttributeDerivation.Blank seed ∧ AttributeDerivation.Blank seed')) :=
  explicit_seed_kept_iff recipe crates (isPrefix_seedText _) (parseKeyInit_seedText (List.replicate 64 1) 0) "vault"

open IdealVendor Fleet in
/-- A text without digits, and one of zeros, are accepted and ask for the key that `shim` asks for. -/
theorem explicit_seed_replaced :
    parseKeyInit (seedText []) 0 = .ok (.deriveFromSeed []) ∧
    parseKeyInit (seedText (List.replicate 64 0)) 0 = .ok (.deriveFromSeed (List.replicate 64 0)) ∧
    ¬SeedKept recipe crates "vault" [] ∧ ¬SeedKept recipe crates "vault" (List.replicate 64 0) ∧
    (recipe.toHsmBackend crates).deriveMasterKey (List.replicate 64 0) "vault" =
      (recipe.toHsmBackend crates).deriveMasterKey [] "vault" := by
  refine ⟨parseKeyInit_seedText [] 0, parseKeyInit_seedText (List.replicate 64 0) 0, ?_, ?_, rfl⟩
  · rw [seedKept_iff, not_not]
    exact ⟨Or.inl rfl, nofun⟩
  · rw [seedKept_iff, not_not]
    exact ⟨Or.inr rfl, fun byte hbyte => List.eq_of_mem_replicate hbyte⟩

end EmvaultPkcs11
