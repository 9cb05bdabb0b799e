import EmvaultPkcs11.CeremonyReload
import EmvaultPkcs11.Fleet

/-! Which keys an accepted fleet has. `validate` compares what the members say about themselves; a
member's key is decided later, by the token its slot resolves to and by the seed and path, or the stored
object, that are used there. So the signers of a fleet have different keys exactly when its members
name different origins and no stored key is one that another member derives, which the comparison
`validate` makes does not ensure. -/

open Effect KeyTree

namespace EmvaultPkcs11

variable {K D : Type}

/-! ### What building a signer leaves alone -/

/-- `m'` has the objects of `m`, and looking up a key by its label finds what it found. -/
structure Machine.Grows (m m' : Machine K) : Prop where
  objects : ∀ handle object, m.object? handle = some object → m'.object? handle = some object
  keys : ∀ label, m'.matching (keyQuery label) = m.matching (keyQuery label)

namespace Machine.Grows

theorem refl (m : Machine K) : m.Grows m := ⟨fun _ _ h => h, fun _ => rfl⟩

theorem trans {m m' m'' : Machine K} (h : m.Grows m') (h' : m'.Grows m'') : m.Grows m'' :=
  ⟨fun handle object hobject => h'.objects handle object (h.objects handle object hobject),
    fun label => (h'.keys label).trans (h.keys label)⟩

theorem tick (m : Machine K) : m.Grows m.tick := ⟨fun _ _ h => h, fun _ => rfl⟩

theorem holds {m m' : Machine K} (h : m.Grows m') {handle : ObjectHandle} {key : K}
    (hholds : m.Holds handle key) : m'.Holds handle key := by
  obtain ⟨object, hobject, hkey⟩ := hholds
  exact ⟨object, h.objects handle object hobject, hkey⟩

/-- New objects that no lookup by label finds. -/
theorem of_adds {p : Object K → Prop} {m m' : Machine K} (h : Machine.Adds p m m')
    (hdata : ∀ object, p object → .objectClass .data ∉ object.attributes)
    (hkeys : ∀ object label, p object → object.matches (keyQuery label) = false) : m.Grows m' :=
  ⟨(h.keeps hdata).objects, fun label => h.matching fun object => hkeys object label⟩

end Machine.Grows

/-! ### What is asked of a vendor -/

/-- The seed a master is derived from. A buffer of zeros asks the token for its own. -/
def effectiveSeed (ownSeed seed : Bytes) : Bytes :=
  if AttributeDerivation.seedBuffer seed = List.replicate 64 0 then ownSeed
  else AttributeDerivation.seedBuffer seed

/-- A vendor whose keys are BIP-32 keys: a ceremony makes the master of a seed and the keys below it,
in objects that no lookup by label finds, and reading leaves the token as it is. -/
structure HsmBackend.Bip32 (hsm : Hsm K D) (ownSeed : Bytes) (masterOf : Bytes → K)
    (child : K → ChildNumber → K) (backend : HsmBackend K D) : Prop where
  deriveMasterKey : ∀ seed label m,
    wp (Program.run hsm.exec (backend.deriveMasterKey seed (privLabel label)))
      (fun master m' => m.Grows m' ∧ m'.Holds master.keyHandle (masterOf (effectiveSeed ownSeed seed)))
      (fun _ _ => True) m
  derivePath : ∀ path handle key m, m.Holds handle key →
    wp (Program.run hsm.exec (backend.derivePath handle path))
      (fun handle' m' => m.Grows m' ∧ m'.Holds handle' (descend child key path)) (fun _ _ => True) m
  readXpub : ∀ handle m, wp (Program.run hsm.exec (backend.readXpub handle))
    (fun _ m' => m.Grows m') (fun _ _ => True) m
  masterFingerprint : ∀ handle m, wp (Program.run hsm.exec (backend.masterFingerprint handle))
    (fun _ m' => m.Grows m') (fun _ _ => True) m

/-- The blanket backend is one, if the token's own derivations are. -/
theorem AttributeDerivation.toHsmBackend_bip32 (recipe : AttributeDerivation K D) (crates : Crates D)
    (hsm : Hsm K D) {ownSeed : Bytes} {masterOf : Bytes → K} {child : K → ChildNumber → K}
    (hmaster : ∀ seed key, recipe.masterKey hsm seed = .ok key →
      key = masterOf (effectiveSeed ownSeed seed))
    (hchild : recipe.DerivesChildren hsm child) :
    (recipe.toHsmBackend crates).Bip32 hsm ownSeed masterOf child := by
  have hread {m m' : Machine K} (h : Machine.Adds (fun _ => False) m m') : m.Grows m' :=
    .of_adds h (fun _ => False.elim) (fun _ _ => False.elim)
  refine ⟨fun seed label m => ?_, fun path handle key m hholds => ?_, fun handle m => ?_,
    fun handle m => ?_⟩
  · refine wp_mono (recipe.wp_deriveMasterKey crates hsm seed (privLabel label) m)
      (fun master m' h => ?_) (fun _ _ _ => trivial)
    obtain ⟨hadds, key, hkey, hobject⟩ := h
    refine ⟨.of_adds hadds (fun _ => IsCeremonyObject.not_data)
      (fun _ label' h => h.not_matches_keyQuery label'), _, hobject, ?_⟩
    rw [← hmaster seed key hkey]
    rfl
  · obtain ⟨object, hobject, hkey⟩ := hholds
    refine wp_mono (recipe.wp_derivePath hsm path m handle object hobject) (fun handle' m' h => ?_)
      (fun _ _ _ => trivial)
    obtain ⟨hadds, object', hobject', hderived, _⟩ := h
    refine ⟨.of_adds hadds (fun _ => IsChild.not_data) (fun object label' h => ?_), object', hobject',
      hchild.deriveObject path hkey hderived⟩
    have hceremony : IsCeremonyObject [] (privLabel "") object := Or.inr (Or.inr h)
    exact hceremony.not_matches_keyQuery label'
  · exact wp_mono (recipe.wp_readXpub crates hsm _ handle m) (fun _ _ h => hread h)
      (fun _ _ _ => trivial)
  · exact wp_mono (wp_masterFingerprint crates hsm _ handle m) (fun _ _ h => hread h)
      (fun _ _ _ => trivial)

/-! ### Building one signer -/

namespace Pkcs11Signer

variable {hsm : Hsm K D} {ownSeed : Bytes} {masterOf : Bytes → K} {child : K → ChildNumber → K}
  {backend : HsmBackend K D}

theorem wp_deriveFromSeed_holds (hvendor : backend.Bip32 hsm ownSeed masterOf child) (label : String)
    (path : DerivationPath) (network : Network) (seed : Bytes) (m : Machine K) :
    wp (Program.run hsm.exec (deriveFromSeed label path network backend seed))
      (fun signer m' => m.Grows m' ∧ m'.Holds signer.loaded.privateKey
        (descend child (masterOf (effectiveSeed ownSeed seed)) path))
      (fun _ _ => True) m := by
  simp only [deriveFromSeed, fromBackend, Program.wp_run_bind, Program.wp_run_mapError]
  refine wp_mono (hvendor.deriveMasterKey seed label m) (fun master m₁ h₁ => ?_) (fun _ _ h => h)
  refine wp_mono (hvendor.derivePath path master.keyHandle _ m₁ h₁.2) (fun handle m₂ h₂ => ?_)
    (fun _ _ h => h)
  refine wp_mono (hvendor.readXpub handle m₂) (fun xpub m₃ h₃ => ?_) (fun _ _ h => h)
  exact ⟨(h₁.1.trans h₂.1).trans h₃, h₃.holds h₂.2⟩

/-- `load` uses the one private key with the label, whatever path it is given. -/
theorem wp_load_finds (hvendor : backend.Bip32 hsm ownSeed masterOf child) (label : String)
    (path : DerivationPath) (network : Network) (m : Machine K) :
    wp (Program.run hsm.exec (load label path network backend))
      (fun signer m' => m.Grows m' ∧
        ∃ object, m.matching (keyQuery label) = [(signer.loaded.privateKey, object)])
      (fun _ _ => True) m := by
  simp only [load, findKeyByLabel, fromBackend, Program.wp_run_bind, Session.wp_findObjects]
  refine ⟨fun _ _ => trivial, fun _ => ?_⟩
  have hsearch : m.search [.objectClass .privateKey, .label (privLabel label)] =
      (m.matching (keyQuery label)).map Prod.fst := m.search_eq (keyQuery label)
  rw [hsearch]
  rcases m.matching (keyQuery label) with _ | ⟨entry, _ | ⟨entry', rest⟩⟩
  · trivial
  · simp only [List.map_cons, List.map_nil, Program.pure_eq, Program.wp_run_done, Program.wp_run_bind,
      Program.wp_run_mapError]
    refine wp_mono (hvendor.readXpub entry.1 m.tick) (fun xpub m₁ h₁ => ?_) (fun _ _ h => h)
    refine wp_mono (hvendor.masterFingerprint entry.1 m₁) (fun fingerprint m₂ h₂ => ?_) (fun _ _ h => h)
    exact ⟨((Machine.Grows.tick m).trans h₁).trans h₂, entry.2, rfl⟩
  · trivial

end Pkcs11Signer

/-- Opening a session changes no token. -/
theorem wp_openSession (libraries : Libraries) (cfg : Pkcs11Config) (ident : SlotIdentifier)
    (pin : String) (w : World K) :
    wp (openSession libraries cfg ident pin)
      (fun token w' => w'.machines = w.machines ∧
        ∃ slot, locate libraries cfg ident = .ok slot ∧ slot.token = token)
      (fun _ _ => True) w := by
  simp only [openSession, wp_bind, wp_orErr, wp_get]
  refine ⟨fun slot hslot => ⟨fun _ _ => ?_, fun _ _ => trivial⟩, fun _ _ => trivial⟩
  split
  · exact ⟨rfl, slot, hslot, rfl⟩
  · split
    · exact ⟨rfl, slot, hslot, rfl⟩
    · split
      · exact ⟨rfl, slot, hslot, rfl⟩
      · trivial

/-! ### Where a key comes from -/

/-- Where the key of a signer comes from. -/
inductive KeyOrigin where
  | derived (seed : Bytes) (path : DerivationPath)
  | stored (token : TokenId) (handle : ObjectHandle)
  deriving DecidableEq

/-- The key an origin leads to, the stored keys being those on `machines`. -/
def KeyOrigin.key (machines : TokenId → Machine K) (masterOf : Bytes → K) (child : K → ChildNumber → K) :
    KeyOrigin → Option K
  | .derived seed path => some (descend child (masterOf seed) path)
  | .stored token handle => ((machines token).object? handle).bind Object.key

/-- The origin of a member's key: the seed that is used on its token and its path, or the object its
label finds there. -/
def FleetMember.origin (libraries : Libraries) (ownSeed : TokenId → Bytes)
    (machines : TokenId → Machine K) (m : FleetMember K D) : Option KeyOrigin :=
  match locate libraries ⟨m.libraryPath, m.slot, m.pin, m.derivationPath⟩ m.slot with
  | .error _ => none
  | .ok slot =>
      match m.keyInit with
      | .deriveFromSeed seed =>
          some (.derived (effectiveSeed (ownSeed slot.token) seed) m.derivationPath)
      | .load =>
          match (machines slot.token).matching (keyQuery m.label) with
          | [(handle, _)] => some (.stored slot.token handle)
          | _ => none

/-- The private key a signer signs with, when its session is on `token`. -/
def federationKey (w : World K) (entry : TokenId × Pkcs11Signer K D) : Option K :=
  ((w.machines entry.1).object? entry.2.loaded.privateKey).bind Object.key

theorem federationKey_eq_some {w : World K} {entry : TokenId × Pkcs11Signer K D} {key : K}
    (h : (w.machines entry.1).Holds entry.2.loaded.privateKey key) : federationKey w entry = some key := by
  obtain ⟨object, hobject, hkey⟩ := h
  rw [federationKey, hobject]
  exact hkey

/-! ### Building a fleet -/

def World.Grows (w w' : World K) : Prop := ∀ token, (w.machines token).Grows (w'.machines token)

theorem World.Grows.trans {w w' w'' : World K} (h : w.Grows w') (h' : w'.Grows w'') : w.Grows w'' :=
  fun token => (h token).trans (h' token)

/-- Replacing one token's machine by one that has grown. -/
theorem World.Grows.update {w : World K} {token : TokenId} {m : Machine K}
    (h : (w.machines token).Grows m) :
    w.Grows { w with machines := Function.update w.machines token m } := by
  intro other
  by_cases heq : other = token
  · subst heq
    simpa using h
  · simpa [heq] using Machine.Grows.refl _

section Build

variable (libraries : Libraries) (hsm : TokenId → Hsm K D) (ownSeed : TokenId → Bytes)
  (masterOf : Bytes → K) (child : K → ChildNumber → K)

/-- A signer has the key that its member's origin leads to on the tokens of `w₀`. -/
def BuiltFrom (w₀ w : World K) (m : FleetMember K D) (entry : TokenId × Pkcs11Signer K D) : Prop :=
  ∃ origin key, m.origin libraries ownSeed w₀.machines = some origin ∧
    origin.key w₀.machines masterOf child = some key ∧ federationKey w entry = some key

/-- Every private-key object holds a key. -/
def World.KeysPresent (w : World K) : Prop :=
  ∀ token handle object, (w.machines token).object? handle = some object →
    .objectClass .privateKey ∈ object.attributes → ∃ key, object.key = some key

variable {libraries hsm ownSeed masterOf child}

theorem BuiltFrom.grows {w₀ w w' : World K} {m : FleetMember K D} {entry : TokenId × Pkcs11Signer K D}
    (h : BuiltFrom libraries ownSeed masterOf child w₀ w m entry) (hgrows : w.Grows w') :
    BuiltFrom libraries ownSeed masterOf child w₀ w' m entry := by
  obtain ⟨origin, key, horigin, hleads, hkey⟩ := h
  obtain ⟨object, hobject, hheld⟩ := Option.bind_eq_some_iff.mp hkey
  exact ⟨origin, key, horigin, hleads,
    federationKey_eq_some ⟨object, (hgrows entry.1).objects _ _ hobject, hheld⟩⟩

/-- One member: its signer has the key of the origin it had before any signer was built. -/
theorem Fleet.wp_buildMember {w₀ : World K} (hpresent : w₀.KeysPresent) {m : FleetMember K D}
    (hvendor : ∀ token, (m.makeBackend ()).Bip32 (hsm token) (ownSeed token) masterOf child)
    {w : World K} (hgrown : w₀.Grows w) :
    wp (Fleet.buildMember libraries hsm m)
      (fun entry w' => w.Grows w' ∧ BuiltFrom libraries ownSeed masterOf child w₀ w' m entry)
      (fun _ _ => True) w := by
  simp only [Fleet.buildMember, wp_closingOnError, wp_bind]
  refine wp_mono (wp_openSession libraries _ m.slot m.pin w) (fun token w₁ h₁ => ?_) (fun _ _ h => h)
  obtain ⟨hmachines, slot, hslot, rfl⟩ := h₁
  have hopened : w.Grows w₁ := fun token => hmachines ▸ .refl _
  cases hinit : m.keyInit with
  | deriveFromSeed seed =>
      simp only [Fleet.onTokenOf, wp_bind, wp_onPart]
      refine wp_mono (Pkcs11Signer.wp_deriveFromSeed_holds (hvendor slot.token) m.label
        m.derivationPath m.network seed _) (fun signer m' h => ?_) (fun _ _ h => h)
      obtain ⟨hgrows, hholds⟩ := h
      refine ⟨hopened.trans (.update hgrows), .derived (effectiveSeed (ownSeed slot.token) seed)
        m.derivationPath, _, ?_, rfl, federationKey_eq_some ?_⟩
      · simp only [FleetMember.origin, hslot, hinit]
      · simpa using hholds
  | load =>
      simp only [Fleet.onTokenOf, wp_bind, wp_onPart]
      refine wp_mono (Pkcs11Signer.wp_load_finds (hvendor slot.token) m.label m.derivationPath m.network
        _) (fun signer m' h => ?_) (fun _ _ h => h)
      obtain ⟨hgrows, object, hmatching⟩ := h
      -- the lookup finds what it would have found before any signer was built
      rw [((hgrown.trans hopened) slot.token).keys] at hmatching
      have hmem : (signer.loaded.privateKey, object) ∈
          (w₀.machines slot.token).matching (keyQuery m.label) := by simp [hmatching]
      have hobject := (w₀.machines slot.token).object?_of_mem_matching hmem
      have hclass : .objectClass .privateKey ∈ object.attributes := by
        have hmatches := (List.mem_filter.mp hmem).2
        simp only [Object.matches, keyQuery, List.all_cons, Bool.and_eq_true, decide_eq_true_eq] at hmatches
        exact hmatches.1
      obtain ⟨key, hkey⟩ := hpresent _ _ _ hobject hclass
      have hgrown' := (hgrown.trans hopened).trans (.update hgrows)
      refine ⟨hopened.trans (.update hgrows), .stored slot.token signer.loaded.privateKey, key, ?_,
        ?_, federationKey_eq_some ⟨object, ?_, hkey⟩⟩
      · simp only [FleetMember.origin, hslot, hinit, hmatching]
      · rw [KeyOrigin.key, hobject]
        exact hkey
      · exact (hgrown' slot.token).objects _ _ hobject

/-- Every signer of a fleet has the key its member's origin names. -/
theorem Fleet.wp_buildSigners {members : List (FleetMember K D)} {w : World K}
    (hpresent : w.KeysPresent) (hvendors : ∀ m ∈ members, ∀ token,
      (m.makeBackend ()).Bip32 (hsm token) (ownSeed token) masterOf child) :
    wp (Fleet.buildSigners libraries hsm members)
      (fun signers w' => List.Forall₂ (BuiltFrom libraries ownSeed masterOf child w w') members signers)
      (fun _ _ => True) w := by
  simp only [Fleet.buildSigners, wp_closingOnError, wp_bind, wp_orErr]
  refine ⟨fun _ _ => ?_, fun _ _ => trivial⟩
  refine wp_mono (wp_mapM _ (fun w' => w.Grows w')
    (fun w' m entry => BuiltFrom libraries ownSeed masterOf child w w' m entry) (fun _ _ => True) members
    (fun m hm w₁ hgrown => ?_) w fun _ => .refl _) (fun _ _ h => h.2.1) (fun _ _ h => h)
  refine wp_mono (Fleet.wp_buildMember hpresent (hvendors m hm) hgrown) (fun entry w₂ h => ?_)
    (fun _ _ h => h)
  exact ⟨hgrown.trans h.1, h.2, fun m' entry' h' => h'.grows h.1⟩

end Build

/-- The stored object a `load` member's origin names is one that its label finds. -/
theorem FleetMember.found_of_origin {libraries : Libraries} {ownSeed : TokenId → Bytes}
    {machines : TokenId → Machine K} {m : FleetMember K D} {token : TokenId} {handle : ObjectHandle}
    (h : m.origin libraries ownSeed machines = some (.stored token handle)) :
    ∃ object, (handle, object) ∈ (machines token).matching (keyQuery m.label) := by
  unfold FleetMember.origin at h
  split at h
  next => cases h
  next slot _ =>
    split at h
    next => cases h
    next =>
      split at h
      next found object hfound =>
        cases h
        exact ⟨object, hfound ▸ List.mem_singleton_self _⟩
      next => cases h

/-- No stored object a member uses holds the key that another member's seed and path give. -/
def StoredApart (machines : TokenId → Machine K) (masterOf : Bytes → K) (child : K → ChildNumber → K)
    (origins : List (Option KeyOrigin)) : Prop :=
  ∀ token handle seed path, some (.stored token handle) ∈ origins → some (.derived seed path) ∈ origins →
    ¬(machines token).Holds handle (descend child (masterOf seed) path)

/-- Different objects that a lookup by a label finds hold different keys. -/
def StoredKeysDiffer (machines : TokenId → Machine K) : Prop :=
  ∀ token token' label label' handle handle' object object',
    (handle, object) ∈ (machines token).matching (keyQuery label) →
    (handle', object') ∈ (machines token').matching (keyQuery label') →
    object.key = object'.key → token = token' ∧ handle = handle'

/-- Different pairs of a seed and a path give different keys. -/
def DerivedKeysDiffer (masterOf : Bytes → K) (child : K → ChildNumber → K) : Prop :=
  ∀ seed seed' path path', descend child (masterOf seed) path = descend child (masterOf seed') path' →
    seed = seed' ∧ path = path'

/-- Two origins of one key are the same origin, unless one is stored and the other derived. -/
theorem KeyOrigin.eq_of_key_eq {machines : TokenId → Machine K} {masterOf : Bytes → K}
    {child : K → ChildNumber → K} (hderived : DerivedKeysDiffer masterOf child)
    (hstored : StoredKeysDiffer machines) {libraries : Libraries} {ownSeed : TokenId → Bytes}
    {members : List (FleetMember K D)}
    (hapart : StoredApart machines masterOf child (members.map (FleetMember.origin libraries ownSeed machines)))
    {m m' : FleetMember K D} (hm : m ∈ members) (hm' : m' ∈ members) {origin origin' : KeyOrigin} {key : K}
    (horigin : m.origin libraries ownSeed machines = some origin)
    (horigin' : m'.origin libraries ownSeed machines = some origin')
    (hkey : origin.key machines masterOf child = some key)
    (hkey' : origin'.key machines masterOf child = some key) : origin = origin' := by
  have hmem : some origin ∈ members.map (FleetMember.origin libraries ownSeed machines) :=
    horigin ▸ List.mem_map_of_mem hm
  have hmem' : some origin' ∈ members.map (FleetMember.origin libraries ownSeed machines) :=
    horigin' ▸ List.mem_map_of_mem hm'
  have htwin {token : TokenId} {handle : ObjectHandle} {seed : Bytes} {path : DerivationPath}
      (hstoredMem : some (.stored token handle) ∈ members.map (FleetMember.origin libraries ownSeed machines))
      (hderivedMem : some (.derived seed path) ∈ members.map (FleetMember.origin libraries ownSeed machines))
      (hheld : (KeyOrigin.stored token handle).key machines masterOf child = some key)
      (hmade : (KeyOrigin.derived seed path).key machines masterOf child = some key) : False := by
    obtain ⟨object, hobject, hobjectKey⟩ := Option.bind_eq_some_iff.mp hheld
    refine hapart token handle seed path hstoredMem hderivedMem ⟨object, hobject, ?_⟩
    rw [hobjectKey, ← hmade]
    rfl
  cases origin with
  | derived seed path =>
      cases origin' with
      | derived seed' path' =>
          obtain ⟨rfl, rfl⟩ := hderived _ _ _ _ (Option.some.inj (hkey.trans hkey'.symm))
          rfl
      | stored token' handle' => exact (htwin hmem' hmem hkey' hkey).elim
  | stored token handle =>
      cases origin' with
      | derived seed' path' => exact (htwin hmem hmem' hkey hkey').elim
      | stored token' handle' =>
          obtain ⟨object, hfound⟩ := FleetMember.found_of_origin horigin
          obtain ⟨object', hfound'⟩ := FleetMember.found_of_origin horigin'
          have hsame : object.key = object'.key := by
            have hheld := hkey.trans hkey'.symm
            rwa [KeyOrigin.key, KeyOrigin.key, (machines token).object?_of_mem_matching hfound,
              (machines token').object?_of_mem_matching hfound'] at hheld
          obtain ⟨rfl, rfl⟩ := hstored _ _ _ _ _ _ _ _ hfound hfound' hsame
          rfl

/-- In a fleet that has been built, the signers have pairwise different keys exactly when their members
have pairwise different origins and none of them uses a stored object with the key that another derives.
Different seeds or paths are assumed to give different keys, and different stored keys to be different. -/
theorem keys_nodup_iff_origins_nodup {libraries : Libraries} {hsm : TokenId → Hsm K D}
    (ownSeed : TokenId → Bytes) {masterOf : Bytes → K} {child : K → ChildNumber → K}
    {members : List (FleetMember K D)} {signers : List (TokenId × Pkcs11Signer K D)} {w w' : World K}
    (hpresent : w.KeysPresent)
    (hvendors : ∀ m ∈ members, ∀ token,
      (m.makeBackend ()).Bip32 (hsm token) (ownSeed token) masterOf child)
    (hderived : DerivedKeysDiffer masterOf child) (hstored : StoredKeysDiffer w.machines)
    (hbuilt : (Fleet.buildSigners libraries hsm members).run w = .ok signers w') :
    (signers.map (federationKey w')).Nodup ↔
      (members.map (FleetMember.origin libraries ownSeed w.machines)).Nodup ∧
        StoredApart w.machines masterOf child
          (members.map (FleetMember.origin libraries ownSeed w.machines)) := by
  have hall := wp_of_run_ok (Fleet.wp_buildSigners hpresent hvendors) hbuilt
  let keyOf (origin : Option KeyOrigin) : Option K := origin.bind (KeyOrigin.key w.machines masterOf child)
  have hkeys : signers.map (federationKey w') =
      (members.map (FleetMember.origin libraries ownSeed w.machines)).map keyOf := by
    rw [List.map_map, eq_comm, ← List.forall₂_eq_eq_eq, List.forall₂_map_left_iff, List.forall₂_map_right_iff]
    refine hall.imp fun m entry hbuiltFrom => ?_
    obtain ⟨origin, key, horigin, hleads, hkey⟩ := hbuiltFrom
    rw [hkey, ← hleads]
    simp only [Function.comp_apply, keyOf, horigin, Option.bind_some]
  have hsome (m : FleetMember K D) (hm : m ∈ members) : ∃ origin key,
      m.origin libraries ownSeed w.machines = some origin ∧
        origin.key w.machines masterOf child = some key := by
    have hboth := hall.imp (S := fun m entry => (∃ origin key,
      m.origin libraries ownSeed w.machines = some origin ∧ origin.key w.machines masterOf child = some key) ∧
        BuiltFrom libraries ownSeed masterOf child w w' m entry)
      fun m entry hbuiltFrom => ⟨hbuiltFrom.imp fun _ => .imp fun _ h => ⟨h.1, h.2.1⟩, hbuiltFrom⟩
    exact ((List.forall₂_and_left members signers).mp hboth).1 m hm
  rw [hkeys]
  constructor
  · intro hnodup
    refine ⟨.of_map _ hnodup, fun token handle seed path hstoredMem hderivedMem hheld => ?_⟩
    have hsame : keyOf (some (.stored token handle)) = keyOf (some (.derived seed path)) := by
      obtain ⟨object, hobject, hobjectKey⟩ := hheld
      simp only [keyOf, Option.bind_some, KeyOrigin.key, hobject, hobjectKey]
    cases List.inj_on_of_nodup_map hnodup hstoredMem hderivedMem hsame
  · rintro ⟨hnodup, hapart⟩
    refine hnodup.map_on fun o ho o' ho' hsame => ?_
    obtain ⟨m, hm, rfl⟩ := List.mem_map.mp ho
    obtain ⟨m', hm', rfl⟩ := List.mem_map.mp ho'
    obtain ⟨origin, key, horigin, hkey⟩ := hsome m hm
    obtain ⟨origin', key', horigin', hkey'⟩ := hsome m' hm'
    rw [horigin, horigin'] at hsame ⊢
    have hkeys' : some key = some key' := hkey.symm.trans (hsame.trans hkey')
    rw [← hkeys'] at hkey'
    exact congrArg some (KeyOrigin.eq_of_key_eq hderived hstored hapart hm hm' horigin horigin' hkey hkey')

/-! ### A fleet of two on one token -/

namespace IdealVendor

/-- A library with one slot, which holds the token with number 0. -/
def library : Library where
  startUp := .ok ()
  slotsWithToken := .ok [⟨3, .ok "vault", .ok (), fun _ => .ok (), 0⟩]

/-- A member whose seed is left to the token. -/
def member (slot : SlotIdentifier) (path : DerivationPath) : FleetMember Key Digest :=
  ⟨"dev", "a", "lib.so", slot, "1234", path, .bitcoin, fun _ => recipe.toHsmBackend crates,
    .deriveFromSeed []⟩

/-- A member that uses the key stored for the label `b`. -/
def loader (path : DerivationPath) : FleetMember Key Digest :=
  ⟨"dev", "b", "lib.so", .label "vault", "1234", path, .bitcoin, fun _ => recipe.toHsmBackend crates, .load⟩

def newTokens : World Key := ⟨fun _ => .empty, fun _ => false⟩

/-- A private key that was put on a token for the label `b`. -/
def keptObject (key : Key) : Object Key := ⟨keyQuery "b", some key⟩

/-- Tokens of which the first holds such a key and has seen the ceremony of another. -/
def usedTokens (key : Key) : World Key where
  machines := Function.update (fun _ => .empty) 0
    (after (ceremony [.hardened 5]) (Machine.empty.create (keptObject key)))
  loggedIn _ := false

theorem usedTokens_zero (key : Key) : (usedTokens key).machines 0 =
    after (ceremony [.hardened 5]) (Machine.empty.create (keptObject key)) := by
  simp only [usedTokens, Function.update_self]

theorem usedTokens_of_ne {key : Key} {token : TokenId} (htoken : token ≠ 0) :
    (usedTokens key).machines token = .empty := by
  simp only [usedTokens, Function.update_of_ne htoken]

/-- Build a fleet and read the keys of its signers. -/
def fleetKeys (w : World Key) (members : List (FleetMember Key Digest)) : Option (List (Option Key)) :=
  match (Fleet.buildSigners (fun _ => .ok library) (fun _ => token) members).run w with
  | .ok signers w' => some (signers.map (federationKey w'))
  | .error _ _ => none

theorem bip32 : (recipe.toHsmBackend crates).Bip32 token [7] (fun seed => ⟨seed, []⟩) child := by
  refine recipe.toHsmBackend_bip32 crates token (fun seed key h => ?_) (derivesChildren _ _ _)
  simp only [AttributeDerivation.masterKey, recipe, token, hsm, derive, Except.ok.injEq] at h
  rw [← h, effectiveSeed]

theorem derivedKeysDiffer : DerivedKeysDiffer (fun seed => (⟨seed, []⟩ : Key)) child := by
  intro seed seed' path path' h
  simp only [descend_child, List.nil_append, Key.mk.injEq] at h
  exact h

/-- A ceremony leaves what a lookup by a label finds. -/
theorem matching_ceremony {path : DerivationPath} {m : Machine Key}
    (hdone : completes ((ceremony path).run m) = true) (label : String) :
    (after (ceremony path) m).matching (keyQuery label) = m.matching (keyQuery label) := by
  have hgrows := Pkcs11Signer.wp_deriveFromSeed_holds bip32 "a" path .bitcoin [] m
  cases hrun : (ceremony path).run m with
  | error e m' =>
      rw [hrun] at hdone
      cases hdone
  | ok signer m' =>
      rw [after, hrun]
      exact (wp_of_run_ok hgrows hrun).1.keys label

/-- One key on the used tokens is found by a label, the one that was there before the ceremony. -/
theorem found_usedTokens {key : Key} (hdone : completes ((ceremony [.hardened 5]).run
    (Machine.empty.create (keptObject key))) = true) {token : TokenId} {label : String}
    {handle : ObjectHandle} {object : Object Key}
    (h : (handle, object) ∈ ((usedTokens key).machines token).matching (keyQuery label)) :
    token = 0 ∧ handle = 0 := by
  by_cases htoken : token = 0
  · subst htoken
    rw [usedTokens_zero, matching_ceremony hdone] at h
    obtain ⟨hmem, -⟩ := List.mem_filter.mp h
    exact ⟨rfl, congrArg Prod.fst (List.mem_singleton.mp hmem)⟩
  · rw [usedTokens_of_ne htoken] at h
    cases h

theorem storedKeysDiffer {key : Key} (hdone : completes ((ceremony [.hardened 5]).run
    (Machine.empty.create (keptObject key))) = true) : StoredKeysDiffer (usedTokens key).machines := by
  intro token token' label label' handle handle' object object' hfound hfound' _
  obtain ⟨rfl, rfl⟩ := found_usedTokens hdone hfound
  obtain ⟨rfl, rfl⟩ := found_usedTokens hdone hfound'
  exact ⟨rfl, rfl⟩

end IdealVendor

open IdealVendor in
/-- On a token that has seen a ceremony, a member that derives its key and one that uses a stored key. -/
theorem keys_of_two_origins :
    ∃ signers w, (Fleet.buildSigners (fun _ => .ok library) (fun _ => token)
        [member (.label "vault") [.hardened 0], loader [.hardened 1]]).run (usedTokens ⟨[9], []⟩) =
        .ok signers w ∧ (signers.map (federationKey w)).Nodup := by
  have hkeys : fleetKeys (usedTokens ⟨[9], []⟩) [member (.label "vault") [.hardened 0], loader [.hardened 1]] =
      some [some ⟨[7], [.hardened 0]⟩, some ⟨[9], []⟩] := by decide +kernel
  unfold fleetKeys at hkeys
  split at hkeys
  next signers w hbuilt =>
    refine ⟨signers, w, hbuilt, ?_⟩
    refine (keys_nodup_iff_origins_nodup (fun _ => [7]) ?_ ?_ derivedKeysDiffer
      (storedKeysDiffer (by decide +kernel)) hbuilt).mpr ⟨by decide +kernel, ?_⟩
    · intro token handle object hobject hclass
      by_cases htoken : token = 0
      · subst htoken
        have hall : ∀ entry ∈ ((usedTokens ⟨[9], []⟩).machines 0).objects,
            .objectClass .privateKey ∈ entry.2.attributes → entry.2.key.isSome = true := by decide +kernel
        exact Option.isSome_iff_exists.mp (hall _ ((Machine.object?_eq_some_iff _ _ _).mp hobject) hclass)
      · rw [usedTokens_of_ne htoken] at hobject
        cases hobject
    · intro m hm token
      rcases List.mem_pair.mp hm with rfl | rfl <;> exact bip32
    · have horigins : [member (.label "vault") [.hardened 0], loader [.hardened 1]].map
          (FleetMember.origin (fun _ => .ok library) (fun _ => [7]) (usedTokens ⟨[9], []⟩).machines) =
          [some (.derived [7] [.hardened 0]), some (.stored 0 0)] := by decide +kernel
      rw [horigins]
      intro token handle seed path hstored hderived hheld
      simp only [List.mem_cons, Option.some.injEq, reduceCtorEq, KeyOrigin.stored.injEq, KeyOrigin.derived.injEq,
        List.not_mem_nil, false_or, or_false] at hstored hderived
      obtain ⟨rfl, rfl⟩ := hstored
      obtain ⟨rfl, rfl⟩ := hderived
      obtain ⟨object, hobject, hkey⟩ := hheld
      have hstoredKey : (((usedTokens ⟨[9], []⟩).machines 0).object? 0).bind Object.key = some ⟨[9], []⟩ := by
        decide +kernel
      rw [hobject, Option.bind_some, hkey, descend_child] at hstoredKey
      cases hstoredKey
  next => cases hkeys

open IdealVendor in
/-- Naming the slot once by its label and once by its number gives an accepted fleet with one key, and so does
a stored key that another member derives. -/
theorem key_appears_twice :
    Fleet.validate [member (.label "vault") [.hardened 0], member (.slotId 3) [.hardened 0]] = .ok () ∧
    fleetKeys newTokens [member (.label "vault") [.hardened 0], member (.slotId 3) [.hardened 0]] =
      some [some ⟨[7], [.hardened 0]⟩, some ⟨[7], [.hardened 0]⟩] ∧
    Fleet.validate [member (.label "vault") [.hardened 0], loader [.hardened 1]] = .ok () ∧
    fleetKeys (usedTokens ⟨[7], [.hardened 0]⟩) [member (.label "vault") [.hardened 0], loader [.hardened 1]] =
      some [some ⟨[7], [.hardened 0]⟩, some ⟨[7], [.hardened 0]⟩] := by
  decide +kernel

end EmvaultPkcs11
