import EmvaultPkcs11.ChildIndex
import EmvaultPkcs11.IdealVendor
import EmvaultPkcs11.LibrarySearch

/-! Which attributes of a token `read_xpub` takes for an extended key. Five fields are looked for, in any order
among other attributes. Four of them have to have their exact length; of the depth only the first byte is read,
so a depth of several bytes is taken for its first one. -/

open Effect

namespace EmvaultPkcs11

variable {K D : Type}

/-! ### Looking for the fields -/

/-- The bytes of a vendor attribute of the given type. -/
def Attribute.vendorValue? (t : AttributeType) : Attribute → Option Bytes
  | .vendorDefined id v => if .vendorDefined id = t then some v else none
  | _ => none

namespace AttributeDerivation

variable (recipe : AttributeDerivation K D) (crates : Crates D)

/-- The last of the attributes that has the field. -/
def lastOf (field : Attribute → Option Bytes) (attributes : List Attribute) : Option Bytes :=
  attributes.reverse.findSome? field

/-- The types a vendor assigns to the four fields that are not standard. -/
def vendorTypes : List AttributeType :=
  [recipe.chainCodeAttribute, recipe.depthAttribute, recipe.parentFingerprintAttribute, recipe.childIndexAttribute]

/-- The fields as they are after a look at all attributes. -/
def partsOf (attributes : List Attribute) : XpubParts where
  ecPoint := lastOf Attribute.ecPoint? attributes
  chainCode := lastOf (Attribute.vendorValue? recipe.chainCodeAttribute) attributes
  depth := lastOf (Attribute.vendorValue? recipe.depthAttribute) attributes
  parentFp := lastOf (Attribute.vendorValue? recipe.parentFingerprintAttribute) attributes
  childIdx := lastOf (Attribute.vendorValue? recipe.childIndexAttribute) attributes

variable {recipe crates}

theorem lastOf_concat (field : Attribute → Option Bytes) (attributes : List Attribute) (a : Attribute) :
    lastOf field (attributes ++ [a]) = (field a).or (lastOf field attributes) := by
  rw [lastOf, List.reverse_concat, List.findSome?_cons, lastOf]
  cases field a <;> rfl

/-- A look at one more attribute. -/
theorem scan_partsOf (hdistinct : recipe.vendorTypes.Nodup) (attributes : List Attribute) (a : Attribute) :
    (recipe.partsOf attributes).scan recipe a = recipe.partsOf (attributes ++ [a]) := by
  simp only [partsOf, lastOf_concat]
  cases a with
  | vendorDefined id v =>
      simp only [vendorTypes, List.nodup_cons, List.mem_cons, not_or, List.not_mem_nil] at hdistinct
      simp only [XpubParts.scan, Attribute.vendorValue?, Attribute.ecPoint?]
      split_ifs <;> simp_all
  | _ => rfl

theorem foldl_scan (hdistinct : recipe.vendorTypes.Nodup) (attributes : List Attribute) :
    attributes.foldl (XpubParts.scan recipe) ⟨none, none, none, none, none⟩ = recipe.partsOf attributes := by
  induction attributes using List.reverseRecOn with
  | nil => rfl
  | append_singleton attributes a ih =>
      rw [List.foldl_concat, ih, scan_partsOf hdistinct]

/-! ### Attributes that are reported once -/

/-- One of the attributes has the field, with the value. -/
def Has (attributes : List Attribute) (field : Attribute → Option Bytes) (v : Bytes) : Prop :=
  ∃ a ∈ attributes, field a = some v

instance (attributes : List Attribute) (field : Attribute → Option Bytes) (v : Bytes) :
    Decidable (Has attributes field v) :=
  inferInstanceAs (Decidable (∃ a ∈ attributes, field a = some v))

/-- At most one of the attributes is of the type. -/
def Once (attributes : List Attribute) (t : AttributeType) : Prop :=
  (attributes.filter fun a => a.type = t).length ≤ 1

instance (attributes : List Attribute) (t : AttributeType) : Decidable (Once attributes t) :=
  inferInstanceAs (Decidable (_ ≤ 1))

/-- The field is one of the attributes of the type. -/
def FieldOf (t : AttributeType) (field : Attribute → Option Bytes) : Prop :=
  ∀ a v, field a = some v → a.type = t

theorem fieldOf_ecPoint : FieldOf .ecPoint Attribute.ecPoint? := by
  intro a v h
  cases a <;> first | rfl | cases h

theorem fieldOf_vendorValue (t : AttributeType) : FieldOf t (Attribute.vendorValue? t) := by
  intro a v h
  cases a with
  | vendorDefined id w =>
      by_cases ht : .vendorDefined id = t
      · exact ht
      · simp [Attribute.vendorValue?, ht] at h
  | _ => cases h

theorem eq_of_length_le_one {α : Type} {l : List α} (hl : l.length ≤ 1) {a b : α} (ha : a ∈ l) (hb : b ∈ l) :
    a = b := by
  cases l with
  | nil => cases ha
  | cons c l =>
      obtain rfl : l = [] := List.length_eq_zero_iff.mp (by simpa using hl)
      rw [List.mem_singleton.mp ha, List.mem_singleton.mp hb]

variable {attributes attributes' : List Attribute} {t : AttributeType} {field : Attribute → Option Bytes}

/-- The attributes of a type that is reported once agree on its field. -/
theorem Once.agree (honce : Once attributes t) (hfield : FieldOf t field) :
    ∀ a ∈ attributes, ∀ b ∈ attributes, ∀ x y, field a = some x → field b = some y → x = y := by
  intro a ha b hb x y hx hy
  have hmem {c : Attribute} (hc : c ∈ attributes) {z : Bytes} (hz : field c = some z) :
      c ∈ attributes.filter fun a => a.type = t :=
    List.mem_filter.mpr ⟨hc, decide_eq_true (hfield c z hz)⟩
  obtain rfl := eq_of_length_le_one honce (hmem ha hx) (hmem hb hy)
  exact Option.some.inj (hx.symm.trans hy)

theorem Once.unique (honce : Once attributes t) (hfield : FieldOf t field) {v w : Bytes}
    (hv : Has attributes field v) (hw : Has attributes field w) : v = w := by
  obtain ⟨a, ha, hav⟩ := hv
  obtain ⟨b, hb, hbw⟩ := hw
  exact honce.agree hfield a ha b hb v w hav hbw

theorem lastOf_eq_some_iff (honce : Once attributes t) (hfield : FieldOf t field) {v : Bytes} :
    lastOf field attributes = some v ↔ Has attributes field v := by
  have hagree := honce.agree hfield
  rw [lastOf, Search.findSome?_eq_of_perm attributes.reverse_perm hagree,
    Search.findSome?_eq_some_iff_of_agree hagree]
  rfl

theorem lastOf_eq_of_perm (honce : Once attributes t) (hfield : FieldOf t field)
    (hperm : attributes'.Perm attributes) : lastOf field attributes' = lastOf field attributes := by
  have hagree := honce.agree hfield
  rw [lastOf, lastOf, Search.findSome?_eq_of_perm attributes.reverse_perm hagree,
    Search.findSome?_eq_of_perm (attributes'.reverse_perm.trans hperm) hagree]

variable (recipe crates) in
/-- Each of the five types is reported at most once. -/
def AllOnce (attributes : List Attribute) : Prop :=
  Once attributes .ecPoint ∧ ∀ t ∈ recipe.vendorTypes, Once attributes t

instance (attributes : List Attribute) : Decidable (recipe.AllOnce attributes) :=
  inferInstanceAs (Decidable (_ ∧ _))

/-- The order of the attributes does not matter. -/
theorem partsOf_eq_of_perm (honce : recipe.AllOnce attributes) (hperm : attributes'.Perm attributes) :
    recipe.partsOf attributes' = recipe.partsOf attributes := by
  have hvendor {t : AttributeType} (ht : t ∈ recipe.vendorTypes) :
      lastOf (Attribute.vendorValue? t) attributes' = lastOf (Attribute.vendorValue? t) attributes :=
    lastOf_eq_of_perm (honce.2 t ht) (fieldOf_vendorValue t) hperm
  simp only [partsOf, lastOf_eq_of_perm honce.1 fieldOf_ecPoint hperm]
  rw [hvendor (by simp [vendorTypes]), hvendor (by simp [vendorTypes]), hvendor (by simp [vendorTypes]),
    hvendor (by simp [vendorTypes])]

/-! ### Extended keys -/

variable (recipe crates) in
/-- The fields that are not the depth are what the attributes report, and the depth is reported as `depth`. -/
structure Carries (attributes : List Attribute) (depth : Bytes) (xpub : Xpub) : Prop where
  network : xpub.network = .main
  publicKey : ∃ point, Has attributes Attribute.ecPoint? point ∧ parseEcPoint crates point = .ok xpub.publicKey
  chainCode : Has attributes (Attribute.vendorValue? recipe.chainCodeAttribute) xpub.chainCode
  chainCode_length : xpub.chainCode.length = 32
  depth : Has attributes (Attribute.vendorValue? recipe.depthAttribute) depth
  parentFingerprint :
    Has attributes (Attribute.vendorValue? recipe.parentFingerprintAttribute) xpub.parentFingerprint
  parentFingerprint_length : xpub.parentFingerprint.length = 4
  childNumber : ∃ bytes word, Has attributes (Attribute.vendorValue? recipe.childIndexAttribute) bytes ∧
    fromLeBytes bytes = some word ∧ xpub.childNumber = childNumberOf word

theorem orMetadata_eq_ok {α : Type} {reason : String} {o : Option α} {a : α} :
    orMetadata reason o = .ok a ↔ o = some a := by
  cases o <;> simp [orMetadata]

/-- An extended key is read exactly if the attributes carry it, with its depth as the first byte of theirs. -/
theorem xpubOfAttributes_eq_ok (hdistinct : recipe.vendorTypes.Nodup) (honce : recipe.AllOnce attributes)
    {xpub : Xpub} : recipe.xpubOfAttributes crates attributes = .ok xpub ↔
      ∃ depth, depth.head? = some xpub.depth ∧ recipe.Carries crates attributes depth xpub := by
  have hvendor {t : AttributeType} (ht : t ∈ recipe.vendorTypes) {v : Bytes} :
      lastOf (Attribute.vendorValue? t) attributes = some v ↔ Has attributes (Attribute.vendorValue? t) v :=
    lastOf_eq_some_iff (honce.2 t ht) (fieldOf_vendorValue t)
  have hchain {v : Bytes} := hvendor (t := recipe.chainCodeAttribute) (by simp [vendorTypes]) (v := v)
  have hdepth {v : Bytes} := hvendor (t := recipe.depthAttribute) (by simp [vendorTypes]) (v := v)
  have hparent {v : Bytes} := hvendor (t := recipe.parentFingerprintAttribute) (by simp [vendorTypes]) (v := v)
  have hchild {v : Bytes} := hvendor (t := recipe.childIndexAttribute) (by simp [vendorTypes]) (v := v)
  have hif {p : Prop} [Decidable p] {v w : Bytes} : (if p then some v else none) = some w ↔ p ∧ v = w := by
    by_cases hp : p <;> simp [hp]
  rw [xpubOfAttributes, foldl_scan hdistinct]
  simp only [bind_eq_ok, orMetadata_eq_ok, partsOf, lastOf_eq_some_iff honce.1 fieldOf_ecPoint, hchain, hdepth,
    hparent, hchild, hif]
  constructor
  · rintro ⟨point, hpoint, chainCode, hchainCode, depth, hdepth, parentFp, hparentFp, childIdx, hchildIdx, pubkey,
      hpubkey, _, ⟨hlength, rfl⟩, depthByte, hdepthByte, _, ⟨hlength', rfl⟩, word, hword, hxpub⟩
    obtain rfl := Except.ok.inj hxpub
    exact ⟨depth, hdepthByte, rfl, ⟨point, hpoint, hpubkey⟩, hchainCode, hlength, hdepth, hparentFp, hlength',
      childIdx, word, hchildIdx, hword, rfl⟩
  · rintro ⟨depth, hdepthByte, hcarries⟩
    obtain ⟨point, hpoint, hpubkey⟩ := hcarries.publicKey
    obtain ⟨childIdx, word, hchildIdx, hword, hchildNumber⟩ := hcarries.childNumber
    refine ⟨point, hpoint, _, hcarries.chainCode, depth, hcarries.depth, _, hcarries.parentFingerprint, childIdx,
      hchildIdx, _, hpubkey, _, ⟨hcarries.chainCode_length, rfl⟩, _, hdepthByte, _,
      ⟨hcarries.parentFingerprint_length, rfl⟩, word, hword, ?_⟩
    rw [← hchildNumber, ← hcarries.network]
    rfl

variable (crates) in
/-- The attributes have a point that is accepted, and each of the given fields with its length. -/
def Fits (fields : List (AttributeType × Nat)) (attributes : List Attribute) : Prop :=
  (∃ point key, Has attributes Attribute.ecPoint? point ∧ parseEcPoint crates point = .ok key) ∧
    ∀ field ∈ fields, ∃ v, Has attributes (Attribute.vendorValue? field.1) v ∧ v.length = field.2

variable (recipe) in
/-- The fields that are not the depth, with their lengths. -/
def otherFields : List (AttributeType × Nat) :=
  [(recipe.chainCodeAttribute, 32), (recipe.parentFingerprintAttribute, 4), (recipe.childIndexAttribute, 4)]

theorem exists_fromLeBytes_iff {bytes : Bytes} : (∃ word, fromLeBytes bytes = some word) ↔ bytes.length = 4 := by
  match bytes with
  | [] | [_] | [_, _] | [_, _, _] => simp [fromLeBytes]
  | [_, _, _, _] => simp [fromLeBytes]
  | _ :: _ :: _ :: _ :: _ :: _ => simp [fromLeBytes]

/-- The attributes carry an extended key exactly if the depth is reported and all other fields fit. -/
theorem exists_carries_iff (depth : Bytes) (depthByte : UInt8) :
    (∃ xpub : Xpub, xpub.depth = depthByte ∧ recipe.Carries crates attributes depth xpub) ↔
      Has attributes (Attribute.vendorValue? recipe.depthAttribute) depth ∧
        Fits crates recipe.otherFields attributes := by
  simp only [Fits, otherFields, List.forall_mem_cons, List.not_mem_nil, false_implies,
    implies_true, and_true]
  constructor
  · rintro ⟨xpub, -, hcarries⟩
    obtain ⟨point, hpoint, hpubkey⟩ := hcarries.publicKey
    obtain ⟨childIdx, word, hchildIdx, hword, -⟩ := hcarries.childNumber
    exact ⟨hcarries.depth, ⟨point, _, hpoint, hpubkey⟩, ⟨_, hcarries.chainCode, hcarries.chainCode_length⟩,
      ⟨_, hcarries.parentFingerprint, hcarries.parentFingerprint_length⟩,
      ⟨childIdx, hchildIdx, exists_fromLeBytes_iff.mp ⟨word, hword⟩⟩⟩
  · rintro ⟨hdepth, ⟨point, key, hpoint, hpubkey⟩, ⟨chainCode, hchainCode, hlength⟩,
      ⟨parentFp, hparentFp, hlength'⟩, ⟨childIdx, hchildIdx, hlength''⟩⟩
    obtain ⟨word, hword⟩ := exists_fromLeBytes_iff.mpr hlength''
    exact ⟨⟨.main, depthByte, parentFp, childNumberOf word, key, chainCode⟩, rfl, rfl, ⟨point, hpoint, hpubkey⟩,
      hchainCode, hlength, hdepth, hparentFp, hlength', childIdx, word, hchildIdx, hword, rfl⟩

/-- The attributes carry an extended key with a depth of one byte exactly if all fields fit. -/
theorem exists_carries_depth_iff : (∃ xpub : Xpub, recipe.Carries crates attributes [xpub.depth] xpub) ↔
    Fits crates ((recipe.depthAttribute, 1) :: recipe.otherFields) attributes := by
  have hfits : Fits crates ((recipe.depthAttribute, 1) :: recipe.otherFields) attributes ↔
      (∃ depth, Has attributes (Attribute.vendorValue? recipe.depthAttribute) depth ∧ depth.length = 1) ∧
        Fits crates recipe.otherFields attributes := by
    rw [Fits, Fits, List.forall_mem_cons, and_left_comm]
  rw [hfits]
  constructor
  · rintro ⟨xpub, hcarries⟩
    obtain ⟨hdepth, hother⟩ := (exists_carries_iff _ _).mp ⟨xpub, rfl, hcarries⟩
    exact ⟨⟨[xpub.depth], hdepth, rfl⟩, hother⟩
  · rintro ⟨⟨depth, hdepth, hlength⟩, hother⟩
    obtain ⟨depthByte, rfl⟩ := List.length_eq_one_iff.mp hlength
    obtain ⟨xpub, rfl, hcarries⟩ := (exists_carries_iff _ depthByte).mpr ⟨hdepth, hother⟩
    exact ⟨xpub, hcarries⟩

/-- The first byte of the depth says it all exactly if there is no other, or another field does not fit. -/
theorem first_byte_iff (honce : recipe.AllOnce attributes) :
    (∀ xpub, (∃ depth, depth.head? = some xpub.depth ∧ recipe.Carries crates attributes depth xpub) ↔
        recipe.Carries crates attributes [xpub.depth] xpub) ↔
      ∀ depth, Has attributes (Attribute.vendorValue? recipe.depthAttribute) depth →
        depth.length ≤ 1 ∨ ¬Fits crates recipe.otherFields attributes := by
  have hmem : recipe.depthAttribute ∈ recipe.vendorTypes := by simp [vendorTypes]
  constructor
  · intro hexact depth hdepth
    by_contra hlong
    push Not at hlong
    obtain ⟨hlong, hother⟩ := hlong
    obtain ⟨depthByte, rest, rfl⟩ : ∃ depthByte rest, depth = depthByte :: rest :=
      List.exists_cons_of_length_pos (by omega)
    obtain ⟨xpub, rfl, hcarries⟩ := (exists_carries_iff _ depthByte).mpr ⟨hdepth, hother⟩
    have hone := (hexact xpub).mp ⟨_, rfl, hcarries⟩
    have hsame := (honce.2 _ hmem).unique (fieldOf_vendorValue _) hdepth hone.depth
    rw [hsame] at hlong
    exact absurd hlong (Nat.lt_irrefl 1)
  · intro hshort xpub
    constructor
    · rintro ⟨depth, hhead, hcarries⟩
      obtain ⟨hdepth, hother⟩ := (exists_carries_iff _ _).mp ⟨xpub, rfl, hcarries⟩
      have hlength : depth.length ≤ 1 := (hshort depth hdepth).resolve_right (not_not_intro hother)
      obtain rfl : depth = [xpub.depth] := by
        cases depth with
        | nil => cases hhead
        | cons b rest =>
            obtain rfl := Option.some.inj hhead
            rw [List.length_eq_zero_iff.mp (Nat.le_zero.mp (Nat.le_of_succ_le_succ hlength))]
      exact hcarries
    · exact fun hcarries => ⟨_, rfl, hcarries⟩

/-- A child index that was sent as the parameter of a derivation is read as the child number. -/
theorem Carries.childNumber_eq {depth : Bytes} {xpub : Xpub} (h : recipe.Carries crates attributes depth xpub)
    (honce : recipe.AllOnce attributes) {child : ChildNumber}
    (hparameter : recipe.childParameter child = toLeBytes child.indexWord)
    (hchild : Has attributes (Attribute.vendorValue? recipe.childIndexAttribute) (recipe.childParameter child)) :
    xpub.childNumber = child := by
  have hmem : recipe.childIndexAttribute ∈ recipe.vendorTypes := by simp [vendorTypes]
  obtain ⟨childIdx, word, hchildIdx, hword, hchildNumber⟩ := h.childNumber
  have hsame := (honce.2 _ hmem).unique (fieldOf_vendorValue _) hchildIdx hchild
  rw [hsame, hparameter, fromLeBytes_toLeBytes, Option.some.injEq] at hword
  rw [hchildNumber, ← hword, childNumberOf_indexWord]

/-! ### Reading from a token -/

section

variable {σ : Type} (exec : (c : Call D) → σ → Reply K c × σ) (s : σ) (handle : ObjectHandle)

variable (recipe) in
/-- The token answers the request for the five attributes with the list. -/
def Answers (attributes : List Attribute) : Prop :=
  (exec (.getAttributes handle (.ecPoint :: recipe.vendorTypes)) s).1 = .ok attributes

variable (recipe crates) in
/-- What `read_xpub` returns. -/
def readOutcome : Except (Stop HsmBackendError) Xpub :=
  match Program.run (I := Session K D) exec (recipe.readXpub crates handle) s with
  | .ok xpub _ => .ok xpub
  | .error stop _ => .error stop

variable {exec s handle}

theorem readOutcome_eq (hanswer : recipe.Answers exec s handle attributes) :
    recipe.readOutcome crates exec s handle = (recipe.xpubOfAttributes crates attributes).mapError .err := by
  have hrun : Program.run (I := Session K D) exec (recipe.readXpub crates handle) s =
      Program.run exec (orStop .pkcs11 (exec (.getAttributes handle (.ecPoint :: recipe.vendorTypes)) s).1 >>=
        fun attributes => Program.ofExcept ((recipe.xpubOfAttributes crates attributes).mapError .err))
        (exec (.getAttributes handle (.ecPoint :: recipe.vendorTypes)) s).2 := rfl
  rw [readOutcome, hrun, hanswer, orStop, Program.done_bind]
  cases recipe.xpubOfAttributes crates attributes <;> rfl

theorem readOutcome_eq_ok (hdistinct : recipe.vendorTypes.Nodup) (honce : recipe.AllOnce attributes)
    (hanswer : recipe.Answers exec s handle attributes) {xpub : Xpub} :
    recipe.readOutcome crates exec s handle = .ok xpub ↔
      ∃ depth, depth.head? = some xpub.depth ∧ recipe.Carries crates attributes depth xpub := by
  rw [readOutcome_eq hanswer, mapError_eq_ok, xpubOfAttributes_eq_ok hdistinct honce]

/-- The order in which a token lists the attributes does not matter. -/
theorem readOutcome_eq_of_perm (hdistinct : recipe.vendorTypes.Nodup) (honce : recipe.AllOnce attributes)
    (hperm : attributes'.Perm attributes) (hanswer : recipe.Answers exec s handle attributes) {σ' : Type}
    {exec' : (c : Call D) → σ' → Reply K c × σ'} {s' : σ'} {handle' : ObjectHandle}
    (hanswer' : recipe.Answers exec' s' handle' attributes') :
    recipe.readOutcome crates exec' s' handle' = recipe.readOutcome crates exec s handle := by
  rw [readOutcome_eq hanswer, readOutcome_eq hanswer', xpubOfAttributes, xpubOfAttributes,
    foldl_scan hdistinct, foldl_scan hdistinct, partsOf_eq_of_perm honce hperm]

end

/-- Reading is exact exactly if the depth has at most one byte, or is not the only field that does not fit. -/
theorem readXpub_exact_iff (hdistinct : recipe.vendorTypes.Nodup) (honce : recipe.AllOnce attributes) {σ : Type}
    {exec : (c : Call D) → σ → Reply K c × σ} {s : σ} {handle : ObjectHandle}
    (hanswer : recipe.Answers exec s handle attributes) :
    ((∀ xpub, recipe.readOutcome crates exec s handle = .ok xpub ↔
        recipe.Carries crates attributes [xpub.depth] xpub) ∧
      ((∃ xpub, recipe.readOutcome crates exec s handle = .ok xpub) ↔
        Fits crates ((recipe.depthAttribute, 1) :: recipe.otherFields) attributes) ∧
      (∀ attributes' : List Attribute, attributes'.Perm attributes → ∀ (σ' : Type)
        (exec' : (c : Call D) → σ' → Reply K c × σ') (s' : σ') (handle' : ObjectHandle),
        recipe.Answers exec' s' handle' attributes' →
          recipe.readOutcome crates exec' s' handle' = recipe.readOutcome crates exec s handle) ∧
      ∀ child xpub, recipe.childParameter child = toLeBytes child.indexWord →
        Has attributes (Attribute.vendorValue? recipe.childIndexAttribute) (recipe.childParameter child) →
          recipe.readOutcome crates exec s handle = .ok xpub → xpub.childNumber = child) ↔
    ∀ depth, Has attributes (Attribute.vendorValue? recipe.depthAttribute) depth →
      depth.length ≤ 1 ∨ ¬Fits crates recipe.otherFields attributes := by
  rw [← first_byte_iff honce]
  simp only [← readOutcome_eq_ok hdistinct honce hanswer]
  constructor
  · exact fun h => h.1
  · intro hexact
    refine ⟨hexact, ?_, ?_, ?_⟩
    · rw [← exists_carries_depth_iff]
      exact exists_congr hexact
    · exact fun attributes' hperm σ' exec' s' handle' hanswer' =>
        readOutcome_eq_of_perm hdistinct honce hperm hanswer hanswer'
    · exact fun child xpub hparameter hchild hread =>
        ((hexact xpub).mp hread).childNumber_eq honce hparameter hchild

end AttributeDerivation

namespace IdealVendor

/-- A token that answers every request for attributes with the list, and knows nothing else. -/
def reporting (attributes : List Attribute) : (c : Call Digest) → Unit → Reply Key c × Unit
  | .getAttributes _ _, s => (.ok attributes, s)
  | .findObjects _, s => (.ok [], s)
  | .destroyObject _, s => (.ok (), s)
  | .createObject _, s => (.error ⟨0⟩, s)
  | .deriveKey _ _ _, s => (.error ⟨0⟩, s)
  | .sign _ _, s => (.error ⟨0⟩, s)
  | .now, s => (0, s)

/-- The attributes of a third child, with a given depth. -/
def reported (depth : Bytes) : List Attribute :=
  [.label "vault", .vendorDefined 0x104 (toLeBytes 3), .vendorDefined 0x102 depth,
    .ecPoint (0x02 :: List.replicate 32 7), .vendorDefined 0x101 (List.replicate 32 9),
    .vendorDefined 0x103 [1, 2, 3, 4]]

end IdealVendor

open IdealVendor AttributeDerivation in
theorem reported_read_exactly :
    ((∀ xpub, recipe.readOutcome crates (reporting (reported [1])) () 0 = .ok xpub ↔
        recipe.Carries crates (reported [1]) [xpub.depth] xpub) ∧
      ((∃ xpub, recipe.readOutcome crates (reporting (reported [1])) () 0 = .ok xpub) ↔
        Fits crates ((recipe.depthAttribute, 1) :: recipe.otherFields) (reported [1])) ∧
      (∀ attributes' : List Attribute, attributes'.Perm (reported [1]) → ∀ (σ' : Type)
        (exec' : (c : Call Digest) → σ' → Reply Key c × σ') (s' : σ') (handle' : ObjectHandle),
        recipe.Answers exec' s' handle' attributes' →
          recipe.readOutcome crates exec' s' handle' =
            recipe.readOutcome crates (reporting (reported [1])) () 0) ∧
      ∀ child xpub, recipe.childParameter child = toLeBytes child.indexWord →
        Has (reported [1]) (Attribute.vendorValue? recipe.childIndexAttribute) (recipe.childParameter child) →
          recipe.readOutcome crates (reporting (reported [1])) () 0 = .ok xpub → xpub.childNumber = child) ↔
    ∀ depth, Has (reported [1]) (Attribute.vendorValue? recipe.depthAttribute) depth →
      depth.length ≤ 1 ∨ ¬Fits crates recipe.otherFields (reported [1]) :=
  readXpub_exact_iff (by decide) (by decide)
    (show recipe.Answers (reporting (reported [1])) () 0 (reported [1]) from rfl)

open IdealVendor AttributeDerivation in
/-- A depth of two bytes is read as its first byte. -/
theorem long_depth_read :
    (recipe.readOutcome crates (reporting (reported [1, 5])) () 0).toOption.map Xpub.depth = some 1 ∧
      ¬Fits crates ((recipe.depthAttribute, 1) :: recipe.otherFields) (reported [1, 5]) := by
  refine ⟨by decide +kernel, ?_⟩
  rintro ⟨-, hfields⟩
  obtain ⟨v, hv, hlength⟩ := hfields _ List.mem_cons_self
  have honce : Once (reported [1, 5]) recipe.depthAttribute := by decide
  have hlong : Has (reported [1, 5]) (Attribute.vendorValue? recipe.depthAttribute) [1, 5] := by decide
  rw [honce.unique (fieldOf_vendorValue _) hv hlong] at hlength
  cases hlength

end EmvaultPkcs11
