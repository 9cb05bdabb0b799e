import EmvaultPkcs11.CeremonyFailure
import EmvaultPkcs11.LibraryPublicTree
import EmvaultPkcs11.SignerRuns
import EmvaultPkcs11.SigningKey

/-! From a signer's descriptor key to its signatures. A wallet knows a signer by its descriptor key only: it derives
public keys from the xpub, and names them in its transactions by the fingerprint and the path of the origin, with
its own steps appended. The signer finds those entries, drops as many steps as its path has and derives the rest on
the token. What it signs with are the private keys of the wallet's public keys, whether the path and the fingerprint
it was loaded with are true or not, because both sides take the same ones. -/

open Effect KeyTree Program

namespace EmvaultPkcs11

variable {K D X : Type}

/-! ### What a wallet makes of a descriptor key -/

/-- The descriptor key stands for a public key with an origin: at some path below it, which `step` can follow. -/
def DescriptorXKey.Names (step : Xpub → ChildNumber → Option Xpub) (d : DescriptorXKey) (publicKey : PublicKey)
    (source : KeySource) : Prop :=
  ∃ origin rest xpub, d.origin = some origin ∧ follow step d.xkey (d.derivationPath ++ rest) = some xpub ∧
    xpub.publicKey = publicKey ∧ source = (origin.1, origin.2 ++ (d.derivationPath ++ rest))

/-- The public key of an entry is one the descriptor key names. -/
def EntryKey.NamedBy (step : Xpub → ChildNumber → Option Xpub) (xOnlyOf : PublicKey → XOnlyPublicKey)
    (d : DescriptorXKey) (source : KeySource) : EntryKey → Prop
  | .partialSig publicKey => d.Names step publicKey.inner source
  | .tapScriptSig key => ∃ publicKey, xOnlyOf publicKey = key.xonly ∧ d.Names step publicKey source

/-- The origin entry of the transaction of a call for the key of a signature entry. -/
def SignerCall.keyOrigin (inputIdx : Nat) (key : EntryKey) : SignerCall K → Option KeySource
  | .signTransaction psbt => psbt.keyOrigin inputIdx key
  | .signPset pset => pset.keyOrigin inputIdx key
  | _ => none

/-- The entries with the descriptor key's fingerprint are the wallet's. -/
def SignerCall.MadeBy (step : Xpub → ChildNumber → Option Xpub) (xOnlyOf : PublicKey → XOnlyPublicKey)
    (d : DescriptorXKey) (call : SignerCall K) : Prop :=
  ∀ inputIdx key source, call.keyOrigin inputIdx key = some source →
    d.origin.map Prod.fst = some source.1 → key.NamedBy step xOnlyOf d source

/-- What a wallet may take a signer's descriptor key to be: the one the signer has made, or one made in the same
way of what it says of itself with the network of its xpub corrected. -/
inductive Pkcs11Signer.Publishes (signer : Pkcs11Signer K D) : DescriptorXKey → Prop
  | own : signer.Publishes signer.descriptorKey
  | patched (network : Network) (facts : SignerFacts) (h : facts = (NetworkPatchedSigner.new signer network).facts) :
      signer.Publishes (buildDescriptorKey facts.xpub facts.fingerprint facts.derivationPath)

/-! ### Signers -/

/-- The signer's handle is that of a key, and its xpub and descriptor key are this key's. -/
structure Pkcs11Signer.SpeaksFor (publicOf : K → Xpub) (signer : Pkcs11Signer K D) (federation : Object K) (key : K)
    (m : Machine K) : Prop where
  held : m.HasKey signer.loaded.privateKey federation
  secret : federation.key = some key
  xpub : signer.xpub = publicOf key
  descriptorKey : signer.descriptorKey = buildDescriptorKey signer.xpub signer.fingerprint signer.derivationPath

/-- The private-key objects of a token hold keys, and are no data objects. -/
def Machine.KeysSound (m : Machine K) : Prop :=
  ∀ handle object, m.object? handle = some object → .objectClass .privateKey ∈ object.attributes →
    .objectClass .data ∉ object.attributes ∧ ∃ key, object.key = some key

namespace AttributeDerivation

variable (recipe : AttributeDerivation K D) (crates : Crates D) (hsm : Hsm K D)

/-- What is read from the token as the xpub of a key is its xpub. -/
def Reports (publicOf : K → Xpub) : Prop :=
  ∀ object key xpub, object.key = some key → recipe.xpubOf crates hsm object = .ok xpub → xpub = publicOf key

/-- A signer comes out of a key ceremony, or is loaded. -/
inductive Makes (m : Machine K) (signer : Pkcs11Signer K D) (m' : Machine K) : Prop
  | ceremony (label : String) (path : DerivationPath) (network : Network) (seed : Bytes)
      (h : (Program.run hsm.exec (Pkcs11Signer.deriveFromSeed label path network (recipe.toHsmBackend crates) seed)).run
        m = .ok signer m')
  | loaded (label : String) (path : DerivationPath) (network : Network)
      (h : (Program.run hsm.exec (Pkcs11Signer.load label path network (recipe.toHsmBackend crates))).run m =
        .ok signer m')

variable {recipe crates hsm} {publicOf : K → Xpub} {m m' : Machine K} {signer : Pkcs11Signer K D}

/-- A derived object is a key that is no data object, if the object it comes from is one. -/
theorem deriveObject_isKey {object object' : Object K} {path : DerivationPath}
    (hobject : .objectClass .data ∉ object.attributes ∧ ∃ key, object.key = some key)
    (h : recipe.deriveObject hsm object path = some object') :
    .objectClass .data ∉ object'.attributes ∧ ∃ key, object'.key = some key := by
  induction path generalizing object with
  | nil => rwa [← Option.some.inj h]
  | cons child path ih =>
      unfold deriveObject at h
      split at h
      · cases h
      · next key _ =>
          exact ih ⟨(show IsChild ⟨childKeyTemplate, some key⟩ from rfl).not_data, key, rfl⟩ h

theorem wp_deriveFromSeed_speaksFor (hreports : recipe.Reports crates hsm publicOf) (label : String)
    (path : DerivationPath) (network : Network) (seed : Bytes) (m : Machine K) :
    wp (Program.run hsm.exec
        (Pkcs11Signer.deriveFromSeed label path network (recipe.toHsmBackend crates) seed))
      (fun signer m' => signer.backend = recipe.toHsmBackend crates ∧
        ∃ federation key, signer.SpeaksFor publicOf federation key m')
      (fun _ _ => True) m := by
  simp only [Pkcs11Signer.deriveFromSeed, Pkcs11Signer.fromBackend, wp_run_bind, wp_run_mapError]
  refine wp_mono (recipe.wp_deriveMasterKey crates hsm seed (privLabel label) m) (fun master m₁ h₁ => ?_)
    fun _ _ _ => trivial
  obtain ⟨_, master, _, hmaster⟩ := h₁
  refine wp_mono (recipe.wp_derivePath hsm path m₁ _ _ hmaster) (fun handle m₂ h₂ => ?_) fun _ _ _ => trivial
  obtain ⟨_, federation, hfederation, hderived, _⟩ := h₂
  have hstart : .objectClass .data ∉ (masterObject (privLabel label) master).attributes ∧
      ∃ key, (masterObject (privLabel label) master).key = some key :=
    ⟨by simp [masterObject, masterKeyTemplate], master, rfl⟩
  obtain ⟨hclass, key, hkey⟩ := deriveObject_isKey hstart hderived
  refine wp_mono (recipe.wp_readXpub_of_object crates hsm hfederation) (fun xpub m₃ h₃ => ?_) fun _ _ _ => trivial
  obtain ⟨rfl, hxpub⟩ := h₃
  exact ⟨rfl, federation, key, ⟨hfederation, hclass⟩, hkey, hreports federation key xpub hkey hxpub, rfl⟩

theorem wp_load_speaksFor (hreports : recipe.Reports crates hsm publicOf) (hsound : m.KeysSound) (label : String)
    (path : DerivationPath) (network : Network) :
    wp (Program.run hsm.exec (Pkcs11Signer.load label path network (recipe.toHsmBackend crates)))
      (fun signer m' => signer.backend = recipe.toHsmBackend crates ∧
        ∃ federation key, signer.SpeaksFor publicOf federation key m')
      (fun _ _ => True) m := by
  simp only [Pkcs11Signer.load, findKeyByLabel, Pkcs11Signer.fromBackend, wp_run_bind, Session.wp_findObjects]
  refine ⟨fun _ _ => trivial, fun _ => ?_⟩
  have hsearch : m.search [.objectClass .privateKey, .label (privLabel label)] =
      (m.matching (keyQuery label)).map Prod.fst := m.search_eq (keyQuery label)
  rw [hsearch]
  cases hfound : m.matching (keyQuery label) with
  | nil => trivial
  | cons entry rest =>
      cases rest with
      | cons _ _ => trivial
      | nil =>
          have hmem : entry ∈ m.matching (keyQuery label) := hfound ▸ List.mem_singleton_self entry
          have hobject : m.object? entry.1 = some entry.2 := m.object?_of_mem_matching hmem
          have hprivate : .objectClass .privateKey ∈ entry.2.attributes := by
            have hmatches := List.all_eq_true.mp (List.mem_filter.mp hmem).2
            simpa using hmatches (.objectClass .privateKey) (by simp [keyQuery])
          obtain ⟨hclass, key, hkey⟩ := hsound entry.1 entry.2 hobject hprivate
          simp only [List.map_cons, List.map_nil, pure_eq, wp_run_done, wp_run_bind, wp_run_mapError]
          refine wp_mono (recipe.wp_readXpub_of_object crates hsm (show m.tick.object? entry.1 = _ from hobject))
            (fun xpub m₁ h₁ => ?_) fun _ _ _ => trivial
          obtain ⟨rfl, hxpub⟩ := h₁
          refine wp_mono (wp_masterFingerprint_of_object crates hsm
            (show m.tick.tick.object? entry.1 = _ from hobject)) (fun fingerprint m₂ h₂ => ?_) fun _ _ _ => trivial
          obtain ⟨rfl, _⟩ := h₂
          exact ⟨rfl, entry.2, key, ⟨hobject, hclass⟩, hkey, hreports entry.2 key xpub hkey hxpub, rfl⟩

/-- A new signer speaks for the key it holds. -/
theorem Makes.speaksFor (hreports : recipe.Reports crates hsm publicOf) (hsound : m.KeysSound)
    (hmakes : recipe.Makes crates hsm m signer m') :
    signer.backend = recipe.toHsmBackend crates ∧ ∃ federation key, signer.SpeaksFor publicOf federation key m' := by
  cases hmakes with
  | ceremony label path network seed h =>
      have hspeaks := wp_of_run_ok (wp_deriveFromSeed_speaksFor hreports label path network seed m) h
      exact hspeaks
  | loaded label path network h =>
      have hspeaks := wp_of_run_ok (wp_load_speaksFor hreports hsound label path network) h
      exact hspeaks

end AttributeDerivation

/-! ### Signatures -/

section

variable {recipe : AttributeDerivation K D} {crates : Crates D} {hsm : Hsm K D} {elements : ElementsCrate K D X}
  {schnorr : Object K → String → DerivationPath → D → Option (Signature K)} {child : K → ChildNumber → K}
  {publicOf : K → Xpub} {step : Xpub → ChildNumber → Option Xpub} {xOnlyOf : PublicKey → XOnlyPublicKey}
  {signer : Pkcs11Signer K D} {d : DescriptorXKey} {federation : Object K} {key : K} {m : Machine K}

/-- A descriptor key of the signer has its fingerprint and path, and its xpub up to the network. -/
theorem Pkcs11Signer.Publishes.exists_xkey (hspeaks : signer.SpeaksFor publicOf federation key m)
    (h : signer.Publishes d) : ∃ xkey, d = buildDescriptorKey xkey signer.fingerprint signer.derivationPath ∧
      (xkey = publicOf key ∨ ∃ network, xkey = patchXpubNetwork (publicOf key) network) := by
  cases h with
  | own => exact ⟨publicOf key, hspeaks.xpub ▸ hspeaks.descriptorKey, Or.inl rfl⟩
  | patched network facts hfacts =>
      refine ⟨facts.xpub, by rw [hfacts]; rfl, Or.inr ⟨network, ?_⟩⟩
      rw [hfacts, ← hspeaks.xpub]
      rfl

/-- What a descriptor key of the signer names is the public key of the private key below the federation key, at
what is left of the path when as many steps as the signer's path has are dropped. -/
theorem publicKey_of_names (hshadows : Shadows publicOf child step)
    (hnetwork : ∀ xpub network s, step (patchXpubNetwork xpub network) s =
      (step xpub s).map fun xpub => patchXpubNetwork xpub network)
    (hspeaks : signer.SpeaksFor publicOf federation key m) (hpublished : signer.Publishes d) {publicKey : PublicKey}
    {path : DerivationPath} (hnames : d.Names step publicKey (signer.fingerprint, path)) :
    (publicOf (descend child key (path.drop signer.derivationPath.length))).publicKey = publicKey := by
  obtain ⟨xkey, rfl, hxkey⟩ := hpublished.exists_xkey hspeaks
  obtain ⟨origin, rest, xpub, horigin, hfollow, rfl, hsource⟩ := hnames
  obtain rfl := Option.some.inj horigin
  have hpath : path.drop signer.derivationPath.length = rest := by
    rw [(Prod.mk.inj hsource).2]
    exact List.drop_left
  rw [hpath]
  obtain rfl | ⟨network, rfl⟩ := hxkey
  · rw [hshadows.follow rest hfollow]
  · have hplain := follow_map (fun v s => hnetwork v network s) rest (publicOf key)
    obtain ⟨plain, hplain, rfl⟩ := Option.map_eq_some_iff.mp (hplain.symm.trans hfollow)
    rw [hshadows.follow rest hplain]
    rfl

/-- The key a target is filed under has an entry with the signer's fingerprint, and the target is for what is left
of the entry's path. -/
theorem SignerCall.keyOrigin_of_asks {call : SignerCall K} {target : Target D}
    (h : call.Asks signer crates elements target) :
    ∃ path, call.keyOrigin target.inputIdx target.entryKey = some (signer.fingerprint, path) ∧
      target.relativePath = path.drop signer.derivationPath.length := by
  cases call with
  | policy => cases h
  | setPolicy policy => cases h
  | healthCheck => cases h
  | signTransaction psbt => exact Pkcs11Signer.keyOrigin_of_mem_agenda h
  | signPset pset => exact Pkcs11Signer.keyOrigin_of_mem_psetAgenda h

/-- A signature made with the key at a path is filed under its public key, if the entry it is filed under names the
public key of the key at that path. -/
theorem rightKey_of_namedBy {insertion : Insertion K} {source : KeySource} {secret : K}
    (hnames : ∀ publicKey, d.Names step publicKey source → (publicOf secret).publicKey = publicKey)
    (hnamed : insertion.entryKey.NamedBy step xOnlyOf d source) (hmade : insertion.madeWith = secret) :
    insertion.RightKey (fun key => (publicOf key).publicKey) (fun key => xOnlyOf (publicOf key).publicKey) := by
  unfold Insertion.RightKey
  rw [hmade]
  cases insertion with
  | partialSig publicKey signature => exact hnames publicKey.inner hnamed
  | tapScriptSig xonly leafHash signature =>
      obtain ⟨publicKey, hxonly, hnamed⟩ := hnamed
      exact (congrArg xOnlyOf (hnames publicKey hnamed)).trans hxonly

/-- What the results on wallets take from the vendor and from the wallet: keys are derived, read and used as BIP-32
and the backend traits have it, and the wallet derives public keys in the same way, whatever network they are for. -/
structure AttributeDerivation.SpeaksBip32 (recipe : AttributeDerivation K D) (crates : Crates D) (hsm : Hsm K D)
    (schnorr : Object K → String → DerivationPath → D → Option (Signature K)) (child : K → ChildNumber → K)
    (publicOf : K → Xpub) (step : Xpub → ChildNumber → Option Xpub) : Prop where
  derives : recipe.DerivesChildren hsm child
  computes : ∀ taproot, recipe.taprootSigner = some taproot → taproot.Computes hsm schnorr
  uses : ∀ object label path digest sig, schnorr object label path digest = some sig → object.key = some sig.madeWith
  reports : recipe.Reports crates hsm publicOf
  shadows : Shadows publicOf child step
  network : ∀ xpub network s, step (patchXpubNetwork xpub network) s =
    (step xpub s).map fun xpub => patchXpubNetwork xpub network

/-- Behind every signature of every call, there is a target of the call that the blanket backend has answered with
the federation key, and the signature is filed under a public key that the wallet has derived, whose private key has
made it. -/
theorem wallet_keys_answer (hbip32 : recipe.SpeaksBip32 crates hsm schnorr child publicOf step)
    {m m' : Machine K} (hsound : m.KeysSound) (hmakes : recipe.Makes crates hsm m signer m')
    (hpublished : signer.Publishes d) (elements : ElementsCrate K D X) (serde : Serde) (slot : Slot)
    (before : List (SignerCall K)) {call : SignerCall K} (hwallet : call.MadeBy step xOnlyOf d) {w : Written K}
    (hw : w ∈ (SharedState.serveAll signer crates elements hsm serde slot ⟨m', false⟩ before).2.writes signer crates
      elements hsm serde call) :
    ((∃ source, call.keyOrigin w.inputIdx w.insertion.entryKey = some source ∧
        w.insertion.entryKey.NamedBy step xOnlyOf d source) ∧
      w.insertion.RightKey (fun key => (publicOf key).publicKey) fun key => xOnlyOf (publicOf key).publicKey) ∧
      ∃ federation target sig, call.Asks signer crates elements target ∧ w.inputIdx = target.inputIdx ∧
        (recipe.functions crates hsm schnorr).answer signer.backend signer.label federation target = some sig ∧
        w.insertion = target.insertion crates sig := by
  obtain ⟨hbackend, federation, key, hspeaks⟩ := hmakes.speaksFor hbip32.reports hsound
  have hvendor : signer.backend.Computes hsm (recipe.functions crates hsm schnorr) := by
    rw [hbackend]
    exact recipe.toHsmBackend_computes crates hsm hbip32.computes
  have hfederation : (SharedState.serveAll signer crates elements hsm serde slot ⟨m', false⟩ before).2.HasFederation
      signer federation := SharedState.serveAll_hasFederation hvendor before hspeaks.held
  obtain ⟨target, hasks, hidx, sig, hanswer, hinsertion⟩ := SharedState.exists_target hvendor hfederation hw
  refine ⟨?_, federation, target, sig, hasks, hidx, hanswer, hinsertion⟩
  obtain ⟨path, horigin, hrelative⟩ := SignerCall.keyOrigin_of_asks hasks
  have hmade : w.insertion.madeWith = descend child key (path.drop signer.derivationPath.length) := by
    rw [hinsertion, Target.madeWith_insertion, ← hrelative]
    exact AttributeDerivation.madeWith_of_answer hbip32.derives hbip32.uses hspeaks.secret hanswer
  have hentry : call.keyOrigin w.inputIdx w.insertion.entryKey = some (signer.fingerprint, path) := by
    rw [hidx, hinsertion, Target.entryKey_insertion, horigin]
  have hnamed : w.insertion.entryKey.NamedBy step xOnlyOf d (signer.fingerprint, path) := by
    apply hwallet w.inputIdx w.insertion.entryKey _ hentry
    obtain ⟨xkey, rfl, _⟩ := hpublished.exists_xkey hspeaks
    rfl
  refine ⟨⟨_, hentry, hnamed⟩, rightKey_of_namedBy (fun publicKey hnames => ?_) hnamed hmade⟩
  exact publicKey_of_names hbip32.shadows hbip32.network hspeaks hpublished hnames

/-- A signer that has come out of a ceremony or has been loaded, over the blanket backend, and any calls on it, the
transactions of which have their entries with the signer's fingerprint from a wallet that knows a descriptor key of
the signer: every signature of every call is filed under a public key that the wallet has derived, and made with the
private key of that public key. -/
theorem wallet_keys_signed (hbip32 : recipe.SpeaksBip32 crates hsm schnorr child publicOf step)
    {m m' : Machine K} (hsound : m.KeysSound) (hmakes : recipe.Makes crates hsm m signer m')
    (hpublished : signer.Publishes d) (elements : ElementsCrate K D X) (serde : Serde) (slot : Slot)
    (before : List (SignerCall K)) {call : SignerCall K} (hwallet : call.MadeBy step xOnlyOf d) :
    let s := (SharedState.serveAll signer crates elements hsm serde slot ⟨m', false⟩ before).2
    ∀ w ∈ s.writes signer crates elements hsm serde call,
      (∃ source, call.keyOrigin w.inputIdx w.insertion.entryKey = some source ∧
        w.insertion.entryKey.NamedBy step xOnlyOf d source) ∧
      w.insertion.RightKey (fun key => (publicOf key).publicKey) fun key => xOnlyOf (publicOf key).publicKey := by
  intro s w hw
  exact (wallet_keys_answer hbip32 hsound hmakes hpublished elements serde slot before hwallet hw).1

end

/-! ### A wallet of the ideal vendor's keys -/

namespace IdealVendor

/-- The xpub of a key. -/
def publicOf (key : Key) : Xpub where
  network := .main
  depth := UInt8.ofNat key.path.length
  parentFingerprint := List.replicate 4 0
  childNumber := key.path.getLast?.getD (.normal 0)
  publicKey := publicKey key
  chainCode := List.replicate 32 0

/-- The byte string a number denotes, of at most as many bytes as given. -/
def digits : Nat → Nat → Bytes
  | 0, _ => []
  | fuel + 1, n => if n = 0 then [] else UInt8.ofNat (n % 257 - 1) :: digits fuel (n / 257)

theorem digits_number (bytes : Bytes) : ∀ fuel, bytes.length ≤ fuel → digits fuel (number bytes) = bytes := by
  induction bytes with
  | nil => exact fun fuel _ => by cases fuel <;> rfl
  | cons b bytes ih =>
      intro fuel hfuel
      cases fuel with
      | zero => simp at hfuel
      | succ fuel =>
          have hb := b.toNat_lt
          have hmod : (number bytes * 257 + (b.toNat + 1)) % 257 - 1 = b.toNat := by omega
          have hdiv : (number bytes * 257 + (b.toNat + 1)) / 257 = number bytes := by omega
          rw [digits, number, if_neg (by omega), hmod, hdiv, ih fuel (by simpa using hfuel), UInt8.ofNat_toNat]

theorem length_le_number (bytes : Bytes) : bytes.length ≤ number bytes := by
  induction bytes with
  | nil => exact Nat.le_refl 0
  | cons b bytes ih =>
      rw [List.length_cons, number]
      omega

/-- The step of a wallet: the word of the child goes between the words of the path and the seed, which must be of
one byte. -/
def publicStep (xpub : Xpub) : ChildNumber → Option Xpub
  | .hardened _ => none
  | .normal index =>
      let bytes := digits xpub.publicKey xpub.publicKey
      if bytes.length = 4 * xpub.depth.toNat + 1 then
        some { xpub with
          depth := xpub.depth + 1
          childNumber := .normal index
          publicKey := number (bytes.dropLast ++ toLeBytes (ChildNumber.normal index).indexWord ++
            bytes.drop (bytes.length - 1)) }
      else none

theorem length_words (path : DerivationPath) :
    (path.flatMap fun c => toLeBytes c.indexWord).length = 4 * path.length := by
  induction path with
  | nil => rfl
  | cons c path ih =>
      rw [List.flatMap_cons, List.length_append, ih, List.length_cons, toLeBytes]
      simp only [List.length_cons, List.length_nil]
      omega

theorem shadows : Shadows publicOf child publicStep := by
  intro key s xpub h
  cases s with
  | hardened index => cases h
  | normal index =>
      have hdigits : digits (publicOf key).publicKey (publicOf key).publicKey = key.bytes :=
        digits_number key.bytes _ (length_le_number key.bytes)
      unfold publicStep at h
      rw [hdigits] at h
      dsimp only at h
      split at h
      next hlength =>
        obtain rfl := Option.some.inj h
        have hseed : key.seed.length = 1 := by
          have hdepth : (publicOf key).depth.toNat = key.path.length % 256 := by simp [publicOf]
          rw [hdepth, Key.bytes, List.length_append, length_words] at hlength
          omega
        have hwords : key.bytes.dropLast = key.path.flatMap fun c => toLeBytes c.indexWord := by
          obtain ⟨b, hb⟩ := List.length_eq_one_iff.mp hseed
          rw [Key.bytes, hb, List.dropLast_concat]
        have hlast : key.bytes.drop (key.bytes.length - 1) = key.seed := by
          rw [Key.bytes, List.length_append, hseed, Nat.add_sub_cancel, List.drop_left]
        have hpublicKey : number (key.bytes.dropLast ++ toLeBytes (ChildNumber.normal index).indexWord ++
            key.bytes.drop (key.bytes.length - 1)) = publicKey (child key (.normal index)) := by
          rw [hwords, hlast, publicKey, Key.bytes, child, List.flatMap_append, List.flatMap_singleton]
        have hdepth : (publicOf key).depth + 1 = (publicOf (child key (.normal index))).depth := by
          simp [publicOf, child, UInt8.ofNat_add]
        rw [hpublicKey, hdepth]
        simp [publicOf, child]
      next => cases h

theorem publicStep_patch (xpub : Xpub) (network : Network) (s : ChildNumber) :
    publicStep (patchXpubNetwork xpub network) s =
      (publicStep xpub s).map fun xpub => patchXpubNetwork xpub network := by
  cases s with
  | hardened index => rfl
  | normal index =>
      by_cases hlength : (digits xpub.publicKey xpub.publicKey).length = 4 * xpub.depth.toNat + 1
      · simp only [publicStep, patchXpubNetwork, hlength, if_true, Option.map_some]
      · simp only [publicStep, patchXpubNetwork, hlength, if_false, Option.map_none]

/-- The attributes of a key come last among those of its object, so they are what is read. -/
theorem reports : recipe.Reports crates token publicOf := by
  intro object key xpub hkey h
  have hpoint : parseEcPoint crates (0x02 :: key.bytes) = .ok (publicKey key) := by
    simp [parseEcPoint, derDecodeOctetStringLenient, crates, publicKey]
  have hchild : AttributeDerivation.childNumberOf ((key.path.getLast?.map ChildNumber.indexWord).getD 0) =
      key.path.getLast?.getD (.normal 0) := by
    cases key.path.getLast? with
    | none => rfl
    | some c => exact childNumberOf_indexWord c
  have hread : recipe.xpubOf crates token object = .ok (publicOf key) := by
    rw [AttributeDerivation.xpubOf, Hsm.attributesOf, hkey, List.filter_append, AttributeDerivation.xpubOfAttributes,
      List.foldl_append]
    show (do
      let pubkey ← parseEcPoint crates (0x02 :: key.bytes)
      let word ← AttributeDerivation.orMetadata "child index != 4 bytes"
        (fromLeBytes (toLeBytes ((key.path.getLast?.map ChildNumber.indexWord).getD 0)))
      pure (⟨.main, UInt8.ofNat key.path.length, List.replicate 4 0, AttributeDerivation.childNumberOf word, pubkey,
        List.replicate 32 0⟩ : Xpub)) = _
    rw [hpoint, fromLeBytes_toLeBytes]
    show Except.ok _ = _
    rw [hchild]
    rfl
  rw [hread] at h
  exact (Except.ok.inj h).symm

theorem speaksBip32 : recipe.SpeaksBip32 crates token schnorr child publicOf publicStep where
  derives := derivesChildren _ _ _
  computes _ h := Option.some.inj h ▸ taprootSigner_computes _ _ _
  uses := schnorr_madeWith
  reports := reports
  shadows := shadows
  network := publicStep_patch

/-- The descriptor key a regtest wallet has of the signer of a ceremony. -/
def regtestKey (path : DerivationPath) : DescriptorXKey :=
  let facts := (NetworkPatchedSigner.new (signer path) .regtest).facts
  buildDescriptorKey facts.xpub facts.fingerprint facts.derivationPath

/-- A transaction with an entry for a child of the descriptor key is the wallet's. -/
theorem madeBy_wshInput (path : DerivationPath) (index : Fin (2 ^ 31)) {xpub : Xpub}
    (hstep : publicStep (regtestKey path).xkey (.normal index) = some xpub)
    (hpublicKey : xpub.publicKey = publicKey ⟨[7], path ++ [.normal index]⟩) :
    (SignerCall.signTransaction (psbtOf [wshInput (path ++ [.normal index]) none] [])).MadeBy publicStep id
      (regtestKey path) := by
  intro inputIdx key source h _
  cases key with
  | tapScriptSig key => cases inputIdx <;> simp [SignerCall.keyOrigin, Psbt.keyOrigin, psbtOf, wshInput] at h
  | partialSig pk =>
      cases inputIdx with
      | succ inputIdx => simp [SignerCall.keyOrigin, Psbt.keyOrigin, psbtOf] at h
      | zero =>
          simp only [SignerCall.keyOrigin, Psbt.keyOrigin, psbtOf, wshInput, List.getElem?_cons_zero,
            Option.bind_some, Std.ExtTreeMap.getElem?_insert] at h
          split at h
          next heq =>
            refine ⟨(fingerprint, path), [.normal index], xpub, rfl, ?_, ?_, (Option.some.inj h).symm⟩
            · show follow publicStep (regtestKey path).xkey [.normal index] = some xpub
              rw [follow_cons, hstep]
              rfl
            · rw [hpublicKey, Std.LawfulEqOrd.eq_of_compare heq]
          next => simp at h

/-- The signer of a ceremony for `0'`, after its policy has been set. -/
def limited : SharedState Key :=
  (SharedState.serveAll (signer [.hardened 0]) crates elements token serde
    ⟨3, .ok "vault", .ok (), fun _ => .ok (), 0⟩ ⟨machine [.hardened 0], false⟩ [.setPolicy ⟨some 5, none, none⟩]).2

/-- A wallet's call for a signature under the key at index 3. -/
def walletCall : SignerCall Key := .signTransaction (psbtOf [wshInput [.hardened 0, .normal 3] none] [])

end IdealVendor

open IdealVendor in
/-- The wallet's key at index 3 gets a signature by its private key. -/
theorem regtest_key_signed :
    ∃ w ∈ limited.writes (signer [.hardened 0]) crates elements token serde walletCall,
      w.insertion.RightKey publicKey publicKey := by
  have hwritten : (limited.writes (signer [.hardened 0]) crates elements token serde walletCall).isEmpty = false := by
    decide +kernel
  cases hwrites : limited.writes (signer [.hardened 0]) crates elements token serde walletCall with
  | nil =>
      rw [hwrites] at hwritten
      cases hwritten
  | cons w ws =>
      refine ⟨w, List.mem_cons_self, ?_⟩
      have hmem : w ∈ limited.writes (signer [.hardened 0]) crates elements token serde walletCall :=
        hwrites ▸ List.mem_cons_self
      have hmade : recipe.Makes crates token .empty (signer [.hardened 0]) (machine [.hardened 0]) :=
        .ceremony "a" [.hardened 0] .bitcoin [] rfl
      have hsound : (Machine.empty : Machine Key).KeysSound := fun _ _ h => by cases h
      exact (wallet_keys_signed speaksBip32 hsound hmade (.patched .regtest _ rfl) elements serde _ _
        (madeBy_wshInput [.hardened 0] 3 rfl (by decide +kernel)) w hmem).2

end EmvaultPkcs11
