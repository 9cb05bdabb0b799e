import EmvaultPkcs11.KeyOps

/-! DER OCTET STRINGs as key_ops.rs writes and reads them: a tag, a length in one of three forms, and as many
bytes. The three forms are one predicate, and the reader and the writer each get one rule for all of them.
What is written is read back, and no part of it that was cut off is taken for a shorter value. -/

namespace EmvaultPkcs11

/-! ### Reading -/

theorem derDecode_of_head_ne {b : UInt8} {bytes : Bytes} (h : b ≠ 0x04) :
    derDecodeOctetStringLenient (b :: bytes) = .ok (b :: bytes) := by
  simp [derDecodeOctetStringLenient, h]

theorem derDecode_short {n : UInt8} {bytes : Bytes} (hn : n < 0x80) :
    derDecodeOctetStringLenient (0x04 :: n :: bytes) =
      if bytes.length < n.toNat then .error "DER OCTET STRING truncated on EC point"
      else .ok (bytes.take n.toNat) := by
  simp [derDecodeOctetStringLenient, hn, bind, Except.bind, Nat.add_comm 2]

theorem derDecode_long {n : UInt8} {bytes : Bytes} :
    derDecodeOctetStringLenient (0x04 :: 0x81 :: n :: bytes) =
      if bytes.length < n.toNat then .error "DER OCTET STRING truncated on EC point"
      else .ok (bytes.take n.toNat) := by
  simp [derDecodeOctetStringLenient, bind, Except.bind, Nat.add_comm 3]

theorem derDecode_longer {a b : UInt8} {bytes : Bytes} :
    derDecodeOctetStringLenient (0x04 :: 0x82 :: a :: b :: bytes) =
      if bytes.length < a.toNat <<< 8 ||| b.toNat then .error "DER OCTET STRING truncated on EC point"
      else .ok (bytes.take (a.toNat <<< 8 ||| b.toNat)) := by
  simp [derDecodeOctetStringLenient, bind, Except.bind, Nat.add_comm 4]

theorem derDecode_malformed {n : UInt8} {bytes : Bytes} (hn : ¬n < 0x80) (h₁ : n ≠ 0x81) (h₂ : n ≠ 0x82) :
    derDecodeOctetStringLenient (0x04 :: n :: bytes) = .error "malformed DER length on EC point" := by
  simp [derDecodeOctetStringLenient, hn, h₁, h₂, bind, Except.bind]

/-- The three ways to write a length: one byte, or 0x81 or 0x82 and one or two bytes more. -/
inductive DerLength : Bytes → Nat → Prop where
  | short (n : UInt8) (h : n < 0x80) : DerLength [n] n.toNat
  | long (n : UInt8) : DerLength [0x81, n] n.toNat
  | longer (a b : UInt8) : DerLength [0x82, a, b] (a.toNat <<< 8 ||| b.toNat)

namespace DerLength

variable {header : Bytes} {n : Nat}

theorem ne_nil (h : DerLength header n) : header ≠ [] := by
  cases h <;> exact List.cons_ne_nil _ _

/-- After a whole header the reader takes as many bytes as it says. -/
theorem derDecode (h : DerLength header n) (bytes : Bytes) :
    derDecodeOctetStringLenient (0x04 :: (header ++ bytes)) =
      if bytes.length < n then .error "DER OCTET STRING truncated on EC point" else .ok (bytes.take n) := by
  cases h with
  | short n hn => exact derDecode_short hn
  | long n => exact derDecode_long
  | longer a b => exact derDecode_longer

theorem derDecode_content {content : Bytes} (h : DerLength header content.length) :
    derDecodeOctetStringLenient (0x04 :: (header ++ content)) = .ok content := by
  rw [h.derDecode, if_neg (lt_irrefl _), List.take_length]

/-- A header of which the end is missing is malformed. -/
theorem derDecode_cut (h : DerLength header n) {part : Bytes} (hpart : part <+: header) (hne : part ≠ [])
    (hcut : part ≠ header) :
    derDecodeOctetStringLenient (0x04 :: part) = .error "malformed DER length on EC point" := by
  have hlength : part.length < header.length :=
    lt_of_le_of_ne hpart.length_le fun heq => hcut (hpart.eq_of_length heq)
  obtain ⟨rest, hrest⟩ := hpart
  have hpos : 0 < part.length := List.length_pos_iff.mpr hne
  cases h with
  | short n hn =>
      rw [List.length_singleton] at hlength
      omega
  | long n =>
      match part, hpos, hlength with
      | [b], _, _ =>
          obtain ⟨rfl, _⟩ := List.cons_eq_cons.mp hrest
          rfl
  | longer a b =>
      match part, hpos, hlength with
      | [b₀], _, _ =>
          obtain ⟨rfl, _⟩ := List.cons_eq_cons.mp hrest
          rfl
      | [b₀, b₁], _, _ =>
          obtain ⟨rfl, _⟩ := List.cons_eq_cons.mp hrest
          simp [derDecodeOctetStringLenient, bind, Except.bind]

end DerLength

/-! ### Writing -/

/-- The writer puts a header before its content that gives the content's length. -/
theorem derEncode_eq_ok {ε : Type} (content : Bytes) (h : content.length < 0x10000) :
    ∃ header, DerLength header content.length ∧
      (derEncodeOctetString content : Except (Effect.Stop ε) Bytes) = .ok (0x04 :: (header ++ content)) := by
  unfold derEncodeOctetString
  by_cases hshort : content.length < 0x80
  · have hlength : (UInt8.ofNat content.length).toNat = content.length := by
      rw [UInt8.toNat_ofNat']
      omega
    have hheader := DerLength.short (UInt8.ofNat content.length) (by
      rw [UInt8.lt_iff_toNat_lt, hlength]
      exact hshort)
    rw [hlength] at hheader
    exact ⟨_, hheader, if_pos hshort⟩
  rw [if_neg hshort]
  by_cases hlong : content.length < 0x100
  · have hheader := DerLength.long (UInt8.ofNat content.length)
    have hlength : (UInt8.ofNat content.length).toNat = content.length := by
      rw [UInt8.toNat_ofNat']
      omega
    rw [hlength] at hheader
    exact ⟨_, hheader, if_pos hlong⟩
  rw [if_neg hlong]
  have hhigh : content.length >>> 8 < 0x100 := by
    rw [Nat.shiftRight_eq_div_pow]
    omega
  have hheader := DerLength.longer (UInt8.ofNat (content.length >>> 8)) (UInt8.ofNat (content.length &&& 0xff))
  have hlow : content.length &&& 0xff = content.length % 2 ^ 8 := Nat.and_two_pow_sub_one_eq_mod _ 8
  have hlength : (UInt8.ofNat (content.length >>> 8)).toNat <<< 8 |||
      (UInt8.ofNat (content.length &&& 0xff)).toNat = content.length := by
    calc (UInt8.ofNat (content.length >>> 8)).toNat <<< 8 ||| (UInt8.ofNat (content.length &&& 0xff)).toNat
        = (content.length >>> 8) <<< 8 ||| content.length % 2 ^ 8 := by
          rw [UInt8.toNat_ofNat', UInt8.toNat_ofNat', hlow, Nat.mod_mod, Nat.mod_eq_of_lt hhigh]
      _ = 2 ^ 8 * (content.length / 2 ^ 8) ||| content.length % 2 ^ 8 := by
          rw [Nat.shiftLeft_eq, Nat.shiftRight_eq_div_pow, Nat.mul_comm]
      _ = 2 ^ 8 * (content.length / 2 ^ 8) + content.length % 2 ^ 8 :=
          (Nat.two_pow_add_eq_or_of_lt (Nat.mod_lt _ (by decide)) _).symm
      _ = content.length := Nat.div_add_mod _ _
  rw [hlength] at hheader
  exact ⟨_, hheader, if_pos hhigh⟩

/-- What the encoder wraps, the decoder unwraps, up to two bytes of length. -/
theorem derDecode_derEncode {ε : Type} (content : Bytes) (h : content.length < 0x10000) :
    ∃ bytes, (derEncodeOctetString content : Except (Effect.Stop ε) Bytes) = .ok bytes ∧
      derDecodeOctetStringLenient bytes = .ok content := by
  obtain ⟨header, hheader, hencode⟩ := derEncode_eq_ok content h
  exact ⟨_, hencode, hheader.derDecode_content⟩

/-- Of a written value with its end cut off, what is left is refused as soon as it goes past the tag. -/
theorem DerLength.derDecode_of_cut {header content part : Bytes} (h : DerLength header content.length)
    (hpart : part <+: header ++ content) (hcut : part ≠ header ++ content) (hne : part ≠ []) :
    ∃ e, derDecodeOctetStringLenient (0x04 :: part) = .error e := by
  by_cases hwhole : header <+: part
  · obtain ⟨bytes, rfl⟩ := hwhole
    have hbytes : bytes <+: content := (List.prefix_append_right_inj header).mp hpart
    have hshorter : bytes.length < content.length :=
      lt_of_le_of_ne hbytes.length_le fun heq => hcut (by rw [hbytes.eq_of_length heq])
    rw [h.derDecode, if_pos hshorter]
    exact ⟨_, rfl⟩
  · have hinside : part <+: header :=
      (List.prefix_or_prefix_of_prefix hpart (List.prefix_append header content)).resolve_right hwhole
    have hproper : part ≠ header := by
      rintro rfl
      exact hwhole (List.prefix_refl _)
    exact ⟨_, h.derDecode_cut hinside hne hproper⟩

/-- What is written is read back, and every part of it from two bytes on that lacks its end is refused. -/
theorem written_octets_read_back_whole {ε : Type} (content : Bytes) (h : content.length < 65536) :
    ∃ bytes, (derEncodeOctetString content : Except (Effect.Stop ε) Bytes) = .ok bytes ∧
      derDecodeOctetStringLenient bytes = .ok content ∧
      ∀ part, part <+: bytes → part ≠ bytes → 2 ≤ part.length →
        ∃ e, derDecodeOctetStringLenient part = .error e := by
  obtain ⟨header, hheader, hencode⟩ := derEncode_eq_ok content h
  refine ⟨_, hencode, hheader.derDecode_content, fun part hpart hcut htag => ?_⟩
  match part, htag with
  | tag :: rest, htag =>
      obtain ⟨rfl, hbehind⟩ := List.cons_prefix_cons.mp hpart
      have hne : rest ≠ [] := by
        rintro rfl
        simp at htag
      exact hheader.derDecode_of_cut hbehind (fun heq => hcut (by rw [heq])) hne

/-- A compressed point is written and read back. -/
theorem point_octets_read_back :
    ∃ bytes, (derEncodeOctetString (List.replicate 33 0x02) : Except (Effect.Stop HsmBackendError) Bytes) =
        .ok bytes ∧
      derDecodeOctetStringLenient bytes = .ok (List.replicate 33 0x02) ∧
      ∀ part, part <+: bytes → part ≠ bytes → 2 ≤ part.length →
        ∃ e, derDecodeOctetStringLenient part = .error e :=
  written_octets_read_back_whole (List.replicate 33 0x02) (by decide)

end EmvaultPkcs11
