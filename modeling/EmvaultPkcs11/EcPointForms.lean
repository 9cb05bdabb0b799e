import EmvaultPkcs11.DerOctetString
import EmvaultPkcs11.IdealVendor
import EmvaultPkcs11.Secp256k1

/-! Reading the public key a token reports (`parse_ec_point`). A point may come raw or wrapped in a DER OCTET
STRING, whose tag is 0x04. That is also the first byte of a raw uncompressed point, so the reader takes
the X coordinate of such a point for a length. Every other form is read as the key it encodes. -/

namespace EmvaultPkcs11

variable {D : Type}

/-! ### What the decoder unwraps -/

/-- What the decoder unwraps follows a length and is as long as the length says. -/
theorem length_of_derDecode {b₀ b₁ b₂ : UInt8} {rest slice : Bytes}
    (h : derDecodeOctetStringLenient (0x04 :: b₀ :: b₁ :: b₂ :: rest) = .ok slice) :
    ∃ header content, b₀ :: b₁ :: b₂ :: rest = header ++ content ∧ DerLength header slice.length ∧
      slice = content.take slice.length := by
  have htaken {header content : Bytes} {n : Nat} (hheader : DerLength header n)
      (hok : derDecodeOctetStringLenient (0x04 :: (header ++ content)) = .ok slice) :
      DerLength header slice.length ∧ slice = content.take slice.length := by
    rw [hheader.derDecode] at hok
    split at hok
    · cases hok
    · next hle =>
      obtain rfl := Except.ok.inj hok
      have hlength : (content.take n).length = n := by
        rw [List.length_take]
        omega
      rw [hlength]
      exact ⟨hheader, rfl⟩
  by_cases hshort : b₀ < 0x80
  · exact ⟨[b₀], b₁ :: b₂ :: rest, rfl, htaken (.short b₀ hshort) h⟩
  by_cases hlong : b₀ = 0x81
  · subst hlong
    exact ⟨[0x81, b₁], b₂ :: rest, rfl, htaken (.long b₁) h⟩
  by_cases hlonger : b₀ = 0x82
  · subst hlonger
    exact ⟨[0x82, b₁, b₂], rest, rfl, htaken (.longer b₁ b₂) h⟩
  · rw [derDecode_malformed hshort hlong hlonger] at h
    cases h

/-- The lengths that say 33. -/
theorem DerLength.eq_of_compressed {header : Bytes} {n : Nat} (h : DerLength header n) (hn : n = 33) :
    header ∈ [[0x21], [0x81, 0x21], [0x82, 0x00, 0x21]] := by
  cases h with
  | short n hshort =>
      obtain rfl : n = 0x21 := UInt8.toNat_inj.mp hn
      simp
  | long n =>
      obtain rfl : n = 0x21 := UInt8.toNat_inj.mp hn
      simp
  | longer a b =>
      have ha : a = 0x00 := by
        have hle : a.toNat <<< 8 ≤ 33 := hn ▸ Nat.left_le_or
        rw [Nat.shiftLeft_eq] at hle
        apply UInt8.toNat_inj.mp
        show a.toNat = 0
        omega
      subst ha
      obtain rfl : b = 0x21 := UInt8.toNat_inj.mp (by simpa using hn)
      simp

/-- A list that repeats its first part from there on is periodic. -/
theorem getElem?_of_repeats {bytes pattern : Bytes} {n : Nat} (hne : pattern ≠ [])
    (hpart : bytes.take pattern.length = pattern)
    (hrepeats : (bytes.drop pattern.length).take n = bytes.take n) :
    ∀ i, i < pattern.length + n → bytes[i]? = pattern[i % pattern.length]? := by
  have hpos : 0 < pattern.length := List.length_pos_iff.mpr hne
  intro i
  induction i using Nat.strongRecOn with
  | ind i ih =>
      intro hi
      by_cases hfirst : i < pattern.length
      · have heq := congrArg (fun part : Bytes => part[i]?) hpart
        simp only [List.getElem?_take, if_pos hfirst] at heq
        rw [Nat.mod_eq_of_lt hfirst, heq]
      · have hshift : bytes[i]? = bytes[i - pattern.length]? := by
          have heq := congrArg (fun part : Bytes => part[i - pattern.length]?) hrepeats
          simp only [List.getElem?_take, List.getElem?_drop] at heq
          rw [if_pos (by omega), if_pos (by omega)] at heq
          rwa [show pattern.length + (i - pattern.length) = i by omega] at heq
        rw [hshift, ih _ (by omega) (by omega), ← Nat.mod_eq_sub_mod (Nat.not_lt.mp hfirst)]

/-! ### The raw uncompressed form -/

namespace Secp256k1

/-- The highest digit of a number to the base 256. -/
theorem toBe_eq_cons (length : Nat) :
    ∀ n, toBe (length + 1) n = UInt8.ofNat (n / 256 ^ length % 256) :: toBe length n := by
  induction length with
  | zero =>
      intro n
      simp [toBe]
  | succ length ih =>
      intro n
      rw [toBe, ih, toBe, List.cons_append, Nat.div_div_eq_div_mul, pow_succ, Nat.mul_comm 256]

theorem exists_three_of_length {bytes : Bytes} (hlength : bytes.length = 64) :
    ∃ b₀ b₁ b₂ rest, bytes = b₀ :: b₁ :: b₂ :: rest := by
  rcases bytes with _ | ⟨b₀, _ | ⟨b₁, _ | ⟨b₂, rest⟩⟩⟩
  · cases hlength
  · cases hlength
  · cases hlength
  · exact ⟨b₀, b₁, b₂, rest, rfl⟩

namespace Point

variable {P : Point}

/-- Where the decoder takes the compressed form out of the raw uncompressed one, both coordinates go on as a
short header and the marker repeated. -/
theorem pattern_of_derDecode (h : derDecodeOctetStringLenient P.uncompressed = .ok P.compressed) :
    ∃ header ∈ [[0x21], [0x81, 0x21], [0x82, 0x00, 0x21]], ∀ i, i < (header ++ [P.marker]).length + 32 →
      (toBe 32 P.x ++ toBe 32 P.y)[i]? = (header ++ [P.marker])[i % (header ++ [P.marker]).length]? := by
  have hlength : (toBe 32 P.x ++ toBe 32 P.y).length = 64 := by simp
  have hx : (toBe 32 P.x ++ toBe 32 P.y).take 32 = toBe 32 P.x := List.take_left' (length_toBe 32 P.x)
  rw [uncompressed] at h
  generalize toBe 32 P.x ++ toBe 32 P.y = coordinates at h hlength hx ⊢
  obtain ⟨b₀, b₁, b₂, rest, rfl⟩ := exists_three_of_length hlength
  obtain ⟨header, content, hcontent, hheader, hslice⟩ := length_of_derDecode h
  refine ⟨header, hheader.eq_of_compressed P.length_compressed, ?_⟩
  rw [hcontent] at hlength hx ⊢
  rw [P.length_compressed, compressed, ← hx] at hslice
  have hmarker : content[0]? = some P.marker := by
    have heq := congrArg (fun part : Bytes => part[0]?) hslice
    simpa [List.getElem?_take] using heq.symm
  apply getElem?_of_repeats (by simp)
  · rw [List.length_append, List.length_singleton, List.take_length_add_append, List.take_one,
      List.head?_eq_getElem?, hmarker]
    rfl
  · have heq := congrArg List.tail hslice
    rw [List.tail_cons, ← List.drop_one, List.drop_take] at heq
    rw [List.length_append, List.length_singleton, List.drop_length_add_append]
    exact heq.symm

/-- The two coordinates read off the pattern: X as a whole and the highest byte of Y. -/
theorem coordinates_of_pattern {pattern : Bytes} (hne : pattern ≠ [])
    (h : ∀ i, i < pattern.length + 32 → (toBe 32 P.x ++ toBe 32 P.y)[i]? = pattern[i % pattern.length]?) :
    P.x = fromBe ((List.range 32).map fun i => pattern.getD (i % pattern.length) 0) ∧
      P.y / 256 ^ 31 = (pattern.getD (32 % pattern.length) 0).toNat := by
  have hpos : 0 < pattern.length := List.length_pos_iff.mpr hne
  have hdigit (i : Nat) : pattern[i % pattern.length]? = some (pattern.getD (i % pattern.length) 0) := by
    rw [List.getElem?_eq_getElem (Nat.mod_lt i hpos), List.getD_eq_getElem _ _ (Nat.mod_lt i hpos)]
  constructor
  · apply (fromBe_toBe 32 P.x (lt_of_lt_p P.x_lt)).symm.trans
    apply congrArg fromBe
    apply List.ext_getElem?
    intro i
    by_cases hi : i < 32
    · have hx := h i (by omega)
      rw [List.getElem?_append_left (by rw [length_toBe]; exact hi), hdigit] at hx
      rw [hx, List.getElem?_map, List.getElem?_range hi, Option.map_some]
    · rw [List.getElem?_eq_none (by rw [length_toBe]; omega),
        List.getElem?_eq_none (by rw [List.length_map, List.length_range]; omega)]
  · have hy := h 32 (by omega)
    have hsmall : P.y / 256 ^ 31 < 256 :=
      Nat.div_lt_of_lt_mul ((lt_of_lt_p P.y_lt).trans_eq (pow_succ 256 31))
    rw [List.getElem?_append_right (by rw [length_toBe]), length_toBe, Nat.sub_self, toBe_eq_cons,
      List.getElem?_cons_zero, hdigit, Option.some_inj] at hy
    rw [← hy, UInt8.toNat_ofNat', Nat.mod_mod, Nat.mod_eq_of_lt hsmall]

/-- A point with a given X coordinate has a Y coordinate that begins like one of its roots. -/
theorem y_high_ne (root : Nat) {x high : Nat} (hx : P.x = x)
    (h : root < p ∧ root ^ 2 % p = (x ^ 3 + 7) % p ∧ root ≠ 0 ∧ root / 256 ^ 31 ≠ high ∧
      (p - root) / 256 ^ 31 ≠ high) : P.y / 256 ^ 31 ≠ high := by
  subst hx
  obtain ⟨hlt, hroot, hne, hplus, hminus⟩ := h
  rcases P.y_eq_or hlt hroot with hy | hy | hy
  · rw [hy]
    exact hplus
  · rw [Nat.eq_sub_of_add_eq hy]
    exact hminus
  · omega

/-- The decoder never takes the compressed form of a point out of its raw uncompressed form. -/
theorem derDecode_uncompressed_ne (P : Point) :
    derDecodeOctetStringLenient P.uncompressed ≠ .ok P.compressed := by
  intro h
  obtain ⟨header, hheader, hpattern⟩ := pattern_of_derDecode h
  obtain ⟨hx, hy⟩ := coordinates_of_pattern (by simp) hpattern
  simp only [List.mem_cons, List.not_mem_nil, or_false] at hheader
  -- six values of X remain: two with no root, four whose roots begin with another byte
  rcases hheader with rfl | rfl | rfl <;> rcases P.marker_eq_or with hmarker | hmarker <;> rw [hmarker] at hx hy
  · have hx : P.x = 0x2102210221022102210221022102210221022102210221022102210221022102 :=
      hx.trans (by decide +kernel)
    exact x_ne_of_jacobiSym (by norm_num [p]) P hx
  · have hx : P.x = 0x2103210321032103210321032103210321032103210321032103210321032103 :=
      hx.trans (by decide +kernel)
    exact y_high_ne 0xb6c4afd0fb6cb9e24cdd179c023e4d3645223bbfe9ae2002099a4c93c3b9eef3 hx
      (by decide +kernel) hy
  · have hx : P.x = 0x8121028121028121028121028121028121028121028121028121028121028121 :=
      hx.trans (by decide +kernel)
    exact x_ne_of_jacobiSym (by norm_num [p]) P hx
  · have hx : P.x = 0x8121038121038121038121038121038121038121038121038121038121038121 :=
      hx.trans (by decide +kernel)
    exact y_high_ne 0xd440f2367a2f677e6753d87a69d3a4d37c8d0276b190cdd393218c60d54609b0 hx
      (by decide +kernel) hy
  · have hx : P.x = 0x8200210282002102820021028200210282002102820021028200210282002102 :=
      hx.trans (by decide +kernel)
    exact y_high_ne 0x3fe4fd72d748cd85933717767a166ddfb90e18b9c5a2bd35277eedafb79bb33c hx
      (by decide +kernel) hy
  · have hx : P.x = 0x8200210382002103820021038200210382002103820021038200210382002103 :=
      hx.trans (by decide +kernel)
    exact y_high_ne 0x75dac3ff741925479785099934a28aff2368d2f4c8d52dc3e8f674eb2520a40b hx
      (by decide +kernel) hy

/-- Nothing that the decoder takes out of the raw uncompressed form is an encoding of the point. -/
theorem derDecode_uncompressed_not_form {slice : Bytes}
    (h : derDecodeOctetStringLenient P.uncompressed = .ok slice) :
    slice ≠ P.compressed ∧ slice ≠ P.uncompressed := by
  constructor
  · rintro rfl
    exact P.derDecode_uncompressed_ne h
  · rintro rfl
    have hlength : (toBe 32 P.x ++ toBe 32 P.y).length = 64 := by simp
    have hslice := P.length_uncompressed
    rw [uncompressed] at h hslice
    generalize toBe 32 P.x ++ toBe 32 P.y = coordinates at h hlength hslice
    obtain ⟨b₀, b₁, b₂, rest, rfl⟩ := exists_three_of_length hlength
    obtain ⟨header, content, hcontent, hheader, htake⟩ := length_of_derDecode h
    have hle := congrArg List.length htake
    have htotal := congrArg List.length hcontent
    have hpos := List.length_pos_iff.mpr hheader.ne_nil
    rw [List.length_take] at hle
    rw [List.length_append] at htotal
    omega

end Point

end Secp256k1

/-! ### The four forms -/

/-- How a token may report a public key in `CKA_EC_POINT`. -/
inductive EcPointForm where
  | rawCompressed
  | rawUncompressed
  | wrappedCompressed
  | wrappedUncompressed
  deriving DecidableEq

def EcPointForm.report (P : Secp256k1.Point) : EcPointForm → Except (Effect.Stop HsmBackendError) Bytes
  | .rawCompressed => .ok P.compressed
  | .rawUncompressed => .ok P.uncompressed
  | .wrappedCompressed => derEncodeOctetString P.compressed
  | .wrappedUncompressed => derEncodeOctetString P.uncompressed

/-- `PublicKey::from_slice` accepts exactly the two forms of each point, as the key for that point. -/
def Crates.ReadsSec1 (crates : Crates D) (keyOf : Secp256k1.Point → PublicKey) : Prop :=
  ∀ bytes key, crates.publicKeyFromSlice bytes = .ok key ↔
    ∃ P : Secp256k1.Point, key = keyOf P ∧ (bytes = P.compressed ∨ bytes = P.uncompressed)

section

variable {crates : Crates D} {keyOf : Secp256k1.Point → PublicKey}

theorem parseEcPoint_eq_ok_iff {input : Bytes} {key : PublicKey} :
    parseEcPoint crates input = .ok key ↔
      ∃ bytes, derDecodeOctetStringLenient input = .ok bytes ∧ crates.publicKeyFromSlice bytes = .ok key := by
  unfold parseEcPoint
  cases derDecodeOctetStringLenient input with
  | error e => simp
  | ok bytes =>
      cases hread : crates.publicKeyFromSlice bytes with
      | error e => simp [hread]
      | ok found => simp [hread]

theorem Crates.ReadsSec1.parseEcPoint_eq_ok_iff (hreads : crates.ReadsSec1 keyOf)
    (hkey : Function.Injective keyOf) {P : Secp256k1.Point} {input : Bytes} :
    parseEcPoint crates input = .ok (keyOf P) ↔
      derDecodeOctetStringLenient input = .ok P.compressed ∨
        derDecodeOctetStringLenient input = .ok P.uncompressed := by
  rw [EmvaultPkcs11.parseEcPoint_eq_ok_iff]
  constructor
  · rintro ⟨bytes, hdecoded, hread⟩
    obtain ⟨Q, hQ, hform⟩ := (hreads bytes (keyOf P)).mp hread
    obtain rfl := hkey hQ
    rcases hform with rfl | rfl
    · exact Or.inl hdecoded
    · exact Or.inr hdecoded
  · rintro (hdecoded | hdecoded)
    · exact ⟨_, hdecoded, (hreads _ _).mpr ⟨P, rfl, Or.inl rfl⟩⟩
    · exact ⟨_, hdecoded, (hreads _ _).mpr ⟨P, rfl, Or.inr rfl⟩⟩

/-- A reported point is read as the key it encodes in every form but the raw uncompressed one. -/
theorem reported_point_read_iff (hreads : crates.ReadsSec1 keyOf) (hkey : Function.Injective keyOf)
    (P : Secp256k1.Point) (form : EcPointForm) :
    ∃ bytes, form.report P = .ok bytes ∧
      (parseEcPoint crates bytes = .ok (keyOf P) ↔ form ≠ .rawUncompressed) := by
  cases form with
  | rawCompressed =>
      refine ⟨_, rfl, iff_of_true ?_ (by decide)⟩
      apply (hreads.parseEcPoint_eq_ok_iff hkey).mpr
      left
      apply derDecode_of_head_ne
      rcases P.marker_eq_or with h | h <;> rw [h] <;> decide
  | rawUncompressed =>
      refine ⟨_, rfl, iff_of_false ?_ (by decide)⟩
      intro h
      rcases (hreads.parseEcPoint_eq_ok_iff hkey).mp h with hdecoded | hdecoded
      · exact (Secp256k1.Point.derDecode_uncompressed_not_form hdecoded).1 rfl
      · exact (Secp256k1.Point.derDecode_uncompressed_not_form hdecoded).2 rfl
  | wrappedCompressed =>
      obtain ⟨bytes, hencoded, hdecoded⟩ := derDecode_derEncode P.compressed (by simp)
      refine ⟨bytes, hencoded, iff_of_true ?_ (by decide)⟩
      exact (hreads.parseEcPoint_eq_ok_iff hkey).mpr (Or.inl hdecoded)
  | wrappedUncompressed =>
      obtain ⟨bytes, hencoded, hdecoded⟩ := derDecode_derEncode P.uncompressed (by simp)
      refine ⟨bytes, hencoded, iff_of_true ?_ (by decide)⟩
      exact (hreads.parseEcPoint_eq_ok_iff hkey).mpr (Or.inr hdecoded)

end

namespace IdealVendor

/-- A point as one number. -/
def keyOf (P : Secp256k1.Point) : PublicKey := P.x * 2 ^ 256 + P.y

theorem keyOf_injective : Function.Injective keyOf := by
  intro P Q h
  have hP : P.y < 2 ^ 256 := P.y_lt.trans (by decide)
  have hQ : Q.y < 2 ^ 256 := Q.y_lt.trans (by decide)
  have hsum : P.x * 2 ^ 256 + P.y = Q.x * 2 ^ 256 + Q.y := h
  apply Secp256k1.Point.ext <;> omega

/-- The crates with a reader of points. -/
def sec1Crates : Crates Digest :=
  { crates with
    publicKeyFromSlice := fun bytes =>
      match Secp256k1.Point.read bytes with
      | some P => .ok (keyOf P)
      | none => .error "malformed public key" }

theorem sec1Crates_readsSec1 : sec1Crates.ReadsSec1 keyOf := by
  intro bytes key
  show (match Secp256k1.Point.read bytes with
      | some P => .ok (keyOf P)
      | none => .error "malformed public key" : Except String PublicKey) = .ok key ↔ _
  simp only [← Secp256k1.Point.read_eq_some_iff]
  cases Secp256k1.Point.read bytes with
  | none => simp
  | some P => simp [eq_comm]

/-- The generator of secp256k1. -/
def generator : Secp256k1.Point where
  x := 0x79be667ef9dcbbac55a06295ce870b07029bfcdb2dce28d959f2815b16f81798
  y := 0x483ada7726a3c4655da4fbfc0e1108a8fd17b448a68554199c47d08ffb10d4b8
  x_lt := by decide
  y_lt := by decide
  on_curve := by decide +kernel

/-- A point whose X coordinate begins like the length of a compressed point and its marker. -/
def lookalike : Secp256k1.Point where
  x := 0x2102000000000000000000000000000000000000000000000000000000000002
  y := 0xdfc7646cf910d57d7680aaeb20ae6d36f60fcb9b4ac6baf1a6e46fd00fc09a0a
  x_lt := by decide
  y_lt := by decide
  on_curve := by decide +kernel

/-- The point whose compressed form the lookalike contains. -/
def contained : Secp256k1.Point where
  x := 0x02dfc7
  y := 0x2e4c0608160cc6dfd50550d14d81f29ab16925e6a0ec8bcf581dcc018c20f8f4
  x_lt := by decide
  y_lt := by decide
  on_curve := by decide +kernel

end IdealVendor

/-- A wrapped generator is read. -/
theorem wrapped_generator_read :
    ∃ bytes, EcPointForm.wrappedUncompressed.report IdealVendor.generator = .ok bytes ∧
      (parseEcPoint IdealVendor.sec1Crates bytes = .ok (IdealVendor.keyOf IdealVendor.generator) ↔
        EcPointForm.wrappedUncompressed ≠ .rawUncompressed) :=
  reported_point_read_iff IdealVendor.sec1Crates_readsSec1 IdealVendor.keyOf_injective IdealVendor.generator
    .wrappedUncompressed

/-- The raw uncompressed form of one point is read as another key, that of the generator is rejected. -/
theorem raw_uncompressed_misread :
    IdealVendor.sec1Crates.ReadsSec1 IdealVendor.keyOf ∧
      parseEcPoint IdealVendor.sec1Crates IdealVendor.lookalike.uncompressed =
        .ok (IdealVendor.keyOf IdealVendor.contained) ∧
      IdealVendor.keyOf IdealVendor.contained ≠ IdealVendor.keyOf IdealVendor.lookalike ∧
      parseEcPoint IdealVendor.sec1Crates IdealVendor.generator.uncompressed =
        .error (.metadataError "EC point: DER OCTET STRING truncated on EC point") :=
  ⟨IdealVendor.sec1Crates_readsSec1, by decide +kernel, by decide, by decide +kernel⟩

end EmvaultPkcs11
