import EmvaultPkcs11.CrateConduct
import EmvaultPkcs11.IdealVendor
import EmvaultPkcs11.SigningOutcome

/-! A token shared with others. Whatever the crate is asked to do for some labels, and whichever token calls fail
on the way, objects of others stay, lookups for other labels find what they found, and no key that can be read is
left behind. -/

open Effect Program

namespace EmvaultPkcs11

variable {K D X T ε ε' α : Type} {hsm : Hsm K D} {label : String} {start : ObjectHandle} {m : Machine K}

/-! ### Vendors -/

/-- A vendor's programs mind the rule, and a derived key is a new object. -/
structure HsmBackend.Conducts (hsm : Hsm K D) (backend : HsmBackend K D) : Prop where
  deriveMasterKey : ∀ label start seed (m : Machine K), start ≤ m.nextHandle →
    Minds hsm.exec (Conduct label start) (fun _ _ => True) (backend.deriveMasterKey seed (privLabel label)) m
  derivePath : ∀ label start handle path (m : Machine K), start ≤ m.nextHandle →
    Minds hsm.exec (Conduct label start) (fun handle' _ => (path = [] ∧ handle' = handle) ∨ start ≤ handle')
      (backend.derivePath handle path) m
  readXpub : ∀ label start handle (m : Machine K),
    Minds hsm.exec (Conduct label start) (fun _ _ => True) (backend.readXpub handle) m
  masterFingerprint : ∀ label start handle (m : Machine K),
    Minds hsm.exec (Conduct label start) (fun _ _ => True) (backend.masterFingerprint handle) m
  segwit : ∀ segwit, backend.segwitSigner = some segwit → ∀ label start handle digest (m : Machine K),
    Minds hsm.exec (Conduct label start) (fun _ _ => True) (segwit.signEcdsa handle digest) m
  taproot : ∀ taproot, backend.taprootSigner = some taproot → ∀ label start handle keyLabel path digest (m : Machine K),
    Minds hsm.exec (Conduct label start) (fun _ _ => True) (taproot.signSchnorr handle keyLabel path digest) m

namespace AttributeDerivation

variable {recipe : AttributeDerivation K D} {crates : Crates D}

/-- None of the attributes the vendor keeps its BIP-32 data in is `CKA_VALUE`. -/
def AvoidsValue (recipe : AttributeDerivation K D) : Prop :=
  .value ∉ [recipe.chainCodeAttribute, recipe.depthAttribute, recipe.parentFingerprintAttribute,
    recipe.childIndexAttribute]

theorem minds_getAttributes {ε : Type} {wrap : CryptokiError → ε} {handle : ObjectHandle}
    {types : List AttributeType} {Q : List Attribute → Machine K → Prop} (htypes : .value ∉ types)
    (h : ∀ attributes m', Q attributes m') :
    Minds hsm.exec (Conduct label start) Q (Session.getAttributes wrap handle types) m := by
  unfold Session.getAttributes
  exact minds_request wrap (show Conduct label start (.getAttributes handle types) m from
    fun hvalue => absurd hvalue htypes) fun _ _ => h _ _

theorem minds_readXpub (havoids : recipe.AvoidsValue) (handle : ObjectHandle) (m : Machine K) :
    Minds hsm.exec (Conduct label start) (fun _ _ => True) (recipe.readXpub crates handle) m := by
  rw [readXpub, minds_bind]
  apply minds_getAttributes
  · simpa [AvoidsValue] using havoids
  · exact fun _ _ => minds_ofExcept _ |>.mpr fun _ _ => trivial

theorem minds_masterFingerprint (handle : ObjectHandle) (m : Machine K) :
    Minds hsm.exec (Conduct label start) (fun _ _ => True) (masterFingerprint crates handle) m := by
  rw [masterFingerprint, minds_bind]
  apply minds_getAttributes
  · simp
  · exact fun _ _ => minds_ofExcept _ |>.mpr fun _ _ => trivial

/-- Every segment makes a new object. -/
theorem minds_derivePath (path : DerivationPath) :
    ∀ (m : Machine K) handle, start ≤ m.nextHandle →
      Minds hsm.exec (Conduct label start) (fun handle' _ => (path = [] ∧ handle' = handle) ∨ start ≤ handle')
        (recipe.derivePath handle path) m := by
  induction path with
  | nil => exact fun m handle _ => Or.inl ⟨rfl, rfl⟩
  | cons child path ih =>
      intro m handle hstart
      rw [derivePath, minds_bind, deriveChildKey, Session.deriveKey]
      refine minds_request _ (madeFor_childKeyTemplate label) fun handle₁ hreply => ?_
      have hfresh : start ≤ handle₁ := Hsm.handle_of_deriveKey hreply ▸ hstart
      refine (ih _ handle₁ (hstart.trans (hsm.nextHandle_le_exec _ m))).mono fun handle' _ h => Or.inr ?_
      obtain ⟨_, rfl⟩ | hle := h
      · exact hfresh
      · exact hle

theorem minds_readMaster (havoids : recipe.AvoidsValue) (handle : ObjectHandle) (m : Machine K) :
    Minds hsm.exec (Conduct label start) (fun _ _ => True) (recipe.readMaster crates handle) m := by
  rw [readMaster, minds_bind]
  refine (minds_readXpub havoids handle m).mono fun _ m₁ _ => ?_
  rw [minds_bind]
  exact (minds_masterFingerprint handle m₁).mono fun _ _ _ => trivial

theorem minds_deriveMasterKey (havoids : recipe.AvoidsValue) (seed : Bytes) (m : Machine K)
    (hstart : start ≤ m.nextHandle) :
    Minds hsm.exec (Conduct label start) (fun _ _ => True) (recipe.deriveMasterKey crates seed (privLabel label))
      m := by
  unfold deriveMasterKey
  split
  · trivial
  · rw [minds_bind, Session.createObject]
    refine minds_request _ (madeFor_seedSecretTemplate label _) fun baseKey hreply => ?_
    have hfresh : start ≤ baseKey := Hsm.handle_of_createObject hreply ▸ hstart
    rw [minds_bind]
    refine ⟨madeFor_masterKeyTemplate label, ?_⟩
    rw [minds_done, minds_bind]
    refine ⟨fun _ _ => Or.inl hfresh, ?_⟩
    rw [minds_done, minds_bind]
    exact minds_orStop _ fun handle _ => minds_readMaster havoids handle _

/-- The blanket backend minds the rule, for every recipe whose attributes and Schnorr signer do. -/
theorem conducts (havoids : recipe.AvoidsValue)
    (htaproot : ∀ taproot, recipe.taprootSigner = some taproot → ∀ label start handle keyLabel path digest
      (m : Machine K), Minds hsm.exec (Conduct label start) (fun _ _ => True)
        (taproot.signSchnorr handle keyLabel path digest) m) :
    (recipe.toHsmBackend crates).Conducts hsm where
  deriveMasterKey _ _ seed m hstart := minds_deriveMasterKey havoids seed m hstart
  derivePath _ _ handle path m hstart := minds_derivePath path m handle hstart
  readXpub _ _ handle m := minds_readXpub havoids handle m
  masterFingerprint _ _ handle m := minds_masterFingerprint handle m
  segwit segwit hsegwit label start handle digest m := by
    obtain rfl := Option.some.inj hsegwit
    rw [pkcs11EcdsaSigner, minds_mapError, signWithLowS, minds_bind, Session.sign]
    refine minds_request _ (show Conduct label start (.sign handle digest) m from trivial) fun raw _ => ?_
    split
    · trivial
    · split <;> trivial
  taproot := htaproot

end AttributeDerivation

/-! ### Key ceremonies and loading -/

section

variable {backend : HsmBackend K D} (hconducts : backend.Conducts hsm)
include hconducts

theorem minds_deriveFromSeed (path : DerivationPath) (network : Network) (seed : Bytes)
    (hstart : start ≤ m.nextHandle) :
    Minds hsm.exec (Conduct label start) (fun _ _ => True)
      (Pkcs11Signer.deriveFromSeed label path network backend seed) m := by
  simp only [Pkcs11Signer.deriveFromSeed, Pkcs11Signer.fromBackend, minds_bind, minds_mapError]
  refine (minds_withStart (hconducts.deriveMasterKey label start seed m hstart) hstart).mono fun master m₁ h₁ => ?_
  refine (hconducts.derivePath label start _ path m₁ h₁.2).mono fun handle m₂ _ => ?_
  exact (hconducts.readXpub label start handle m₂).mono fun _ _ _ => trivial

theorem minds_load (path : DerivationPath) (network : Network) :
    Minds hsm.exec (Conduct label start) (fun _ _ => True)
      (Pkcs11Signer.load label path network backend) m := by
  rw [Pkcs11Signer.load, minds_bind]
  refine (minds_findKeyByLabel label).mono fun found m₁ _ => ?_
  cases found with
  | none => trivial
  | some loaded =>
      simp only [Pkcs11Signer.fromBackend, minds_bind, minds_mapError]
      refine (hconducts.readXpub label start _ m₁).mono fun _ m₂ _ => ?_
      exact (hconducts.masterFingerprint label start _ m₂).mono fun _ _ _ => trivial

end

/-! ### Signing calls -/

/-- The contract of such a vendor. Between signatures the token has been treated as the rule asks, and the handle
that signs is the federation key's or one made by this call. -/
def HsmBackend.Conducts.contract {signer : Pkcs11Signer K D} (hconducts : signer.backend.Conducts hsm)
    (m₀ : Machine K) : SigningContract hsm signer where
  idle m := m₀.Respects [signer.label] m
  holding _ handle m := m₀.Respects [signer.label] m ∧ (handle ≠ signer.loaded.privateKey → m₀.nextHandle ≤ handle)
  signed _ _ := True
  refused _ := True
  calm := False
  idle_of_ticked hidle hticked := hidle.of_objects hticked.objects hticked.nextHandle
  idle_of_holding hholding := hholding.1
  holding_federation hidle := ⟨hidle, absurd rfl⟩
  derivePath path m _ hidle := by
    have hminds := hconducts.derivePath signer.label m₀.nextHandle signer.loaded.privateKey path m hidle.nextHandle
    refine wp_mono (hminds.run (fun call m => hsm.exec_respects call m) hidle) (fun handle m' h => ⟨h.1, fun hne => ?_⟩)
      fun _ _ h => ⟨h, fun _ _ => trivial, False.elim⟩
    obtain ⟨_, heq⟩ | hle := h.2
    · exact absurd heq hne
    · exact hle
  signEcdsa segwit hsegwit target _ _ _ handle m hholding := by
    have hminds := hconducts.segwit segwit hsegwit signer.label m₀.nextHandle handle target.digest m
    exact wp_mono (hminds.run (fun call m => hsm.exec_respects call m) hholding.1)
      (fun _ _ h => ⟨⟨h.1, hholding.2⟩, trivial⟩) fun _ _ h => ⟨⟨h, hholding.2⟩, trivial, False.elim⟩
  noSegwit _ _ _ _ _ := trivial
  signSchnorr taproot htaproot target _ _ _ fullPath _ handle m hholding := by
    have hminds := hconducts.taproot taproot htaproot signer.label m₀.nextHandle handle signer.label fullPath
      target.digest m
    exact wp_mono (hminds.run (fun call m => hsm.exec_respects call m) hholding.1)
      (fun _ _ h => ⟨⟨h.1, hholding.2⟩, trivial⟩) fun _ _ h => ⟨h, trivial, False.elim⟩
  idle_tick hholding := hholding.1.of_objects rfl rfl
  idle_destroy hholding hne _ := (hholding.1.destroy fun _ _ => Or.inl (hholding.2 hne)).of_objects rfl rfl

/-- Recording the signature rate is no other matter. -/
theorem maintains_recordSigrate (m₀ : Machine K) (serde : Serde) (policy : MinimalHsmPolicy) :
    Maintains (m₀.Respects [label]) (Program.run hsm.exec (checkAndRecordSigrate serde label policy)) :=
  Maintains.run (fun _ _ => minds_checkAndRecordSigrate serde (allowsRecord_sigrate label _) (fun _ => trivial) policy)
    fun call m => hsm.exec_respects call m

/-! ### Operations -/

/-- A backend whose programs mind the rule. -/
structure ConductingBackend (hsm : Hsm K D) where
  backend : HsmBackend K D
  conducts : backend.Conducts hsm

/-- A signer with such a backend. -/
structure ConductingSigner (hsm : Hsm K D) where
  signer : Pkcs11Signer K D
  conducts : signer.backend.Conducts hsm

/-- An operation of the crate on a token. -/
inductive CrateCall (hsm : Hsm K D) where
  | loadPolicy (label : String)
  | savePolicy (label : String) (policy : MinimalHsmPolicy)
  | loadSigrate (label : String)
  | saveSigrate (label : String) (counter : SigRateCounter)
  | checkAndRecordSigrate (label : String) (policy : MinimalHsmPolicy)
  | findKeyByLabel (label : String)
  | deleteKey (label : String)
  | deriveFromSeed (label : String) (path : DerivationPath) (network : Network) (backend : ConductingBackend hsm)
      (seed : Bytes)
  | load (label : String) (path : DerivationPath) (network : Network) (backend : ConductingBackend hsm)
  | signTransaction (signer : ConductingSigner hsm) (psbt : Psbt K)
  | signPset (signer : ConductingSigner hsm) (pset : Pset K)

namespace CrateCall

/-- The label an operation is for. -/
def owner : CrateCall hsm → String
  | .loadPolicy label => label
  | .savePolicy label _ => label
  | .loadSigrate label => label
  | .saveSigrate label _ => label
  | .checkAndRecordSigrate label _ => label
  | .findKeyByLabel label => label
  | .deleteKey label => label
  | .deriveFromSeed label _ _ _ _ => label
  | .load label _ _ _ => label
  | .signTransaction signer _ => signer.signer.label
  | .signPset signer _ => signer.signer.label

variable (crates : Crates D) (elements : ElementsCrate K D X) (serde : Serde)

/-- The token after an operation, however it ended. -/
def perform (m : Machine K) : CrateCall hsm → Machine K
  | .loadPolicy label => after (Program.run hsm.exec (EmvaultPkcs11.loadPolicy serde label)) m
  | .savePolicy label policy => after (Program.run hsm.exec (EmvaultPkcs11.savePolicy serde label policy)) m
  | .loadSigrate label => after (Program.run hsm.exec (EmvaultPkcs11.loadSigrate serde label)) m
  | .saveSigrate label counter => after (Program.run hsm.exec (EmvaultPkcs11.saveSigrate serde label counter)) m
  | .checkAndRecordSigrate label policy =>
      after (Program.run hsm.exec (EmvaultPkcs11.checkAndRecordSigrate serde label policy)) m
  | .findKeyByLabel label => after (Program.run hsm.exec (EmvaultPkcs11.findKeyByLabel label)) m
  | .deleteKey label => after (Program.run hsm.exec (EmvaultPkcs11.deleteKey label)) m
  | .deriveFromSeed label path network backend seed =>
      after (Program.run hsm.exec (Pkcs11Signer.deriveFromSeed label path network backend.backend seed)) m
  | .load label path network backend =>
      after (Program.run hsm.exec (Pkcs11Signer.load label path network backend.backend)) m
  | .signTransaction signer psbt =>
      (after (signer.signer.signTransaction crates hsm serde) ⟨m, false, psbt, []⟩).machine
  | .signPset signer pset =>
      (after (signer.signer.signPset crates elements hsm serde) ⟨m, false, pset, []⟩).machine

/-- The token after operations, one after the other. -/
def performAll (m : Machine K) (calls : List (CrateCall hsm)) : Machine K :=
  calls.foldl (perform crates elements serde) m

end CrateCall

section

variable {crates : Crates D} {elements : ElementsCrate K D X} {serde : Serde}

theorem respects_after_run {p : TokenProgram K D ε α}
    (h : ∀ m : Machine K, Minds hsm.exec (Conduct label m.nextHandle) (fun _ _ => True) p m) (m : Machine K) :
    m.Respects [label] (after (Program.run hsm.exec p) m) := by
  have hrun := (h m).run (fun call m' => hsm.exec_respects call m') (.refl [label] m)
  exact after_of_wp hrun (fun _ _ h' => h'.1) fun _ _ h' => h'

/-- Step: an operation, under any faults, touches nothing but what belongs to its label. -/
theorem CrateCall.perform_respects (m : Machine K) (call : CrateCall hsm) :
    m.Respects [call.owner] (call.perform crates elements serde m) := by
  cases call with
  | loadPolicy label => exact respects_after_run (fun _ => minds_loadPolicy serde (allowsRecord_policy label _)) m
  | savePolicy label policy =>
      exact respects_after_run (fun _ => minds_savePolicy serde (allowsRecord_policy label _) policy) m
  | loadSigrate label => exact respects_after_run (fun _ => minds_loadSigrate serde (allowsRecord_sigrate label _)) m
  | saveSigrate label counter =>
      exact respects_after_run (fun _ => minds_saveSigrate serde (allowsRecord_sigrate label _) counter) m
  | checkAndRecordSigrate label policy =>
      exact respects_after_run (fun _ =>
        minds_checkAndRecordSigrate serde (allowsRecord_sigrate label _) (fun _ => trivial) policy) m
  | findKeyByLabel label => exact respects_after_run (fun _ => minds_findKeyByLabel label) m
  | deleteKey label => exact respects_after_run (fun _ => minds_deleteKey label) m
  | deriveFromSeed label path network backend seed =>
      exact respects_after_run (fun m => minds_deriveFromSeed backend.conducts path network seed (Nat.le_refl _)) m
  | load label path network backend =>
      exact respects_after_run (fun _ => minds_load backend.conducts path network) m
  | signTransaction signer psbt =>
      have hsigns := (signer.conducts.contract m).wp_signTransaction_keeps crates serde ⟨m, false, psbt, []⟩
        (.refl _ m) (fun _ h => h) (maintains_recordSigrate m serde)
      exact after_of_wp (P := fun s : SignState K (Psbt K) => m.Respects [signer.signer.label] s.machine) hsigns
        (fun _ _ h => h) fun _ _ h => h
  | signPset signer pset =>
      have hsigns := (signer.conducts.contract m).wp_signPset_keeps crates serde elements ⟨m, false, pset, []⟩
        (.refl _ m) (fun _ h => h) (maintains_recordSigrate m serde)
      exact after_of_wp (P := fun s : SignState K (Pset K) => m.Respects [signer.signer.label] s.machine) hsigns
        (fun _ _ h => h) fun _ _ h => h

/-- Run: so do any operations one after the other. -/
theorem CrateCall.performAll_respects (calls : List (CrateCall hsm)) :
    ∀ m : Machine K, m.Respects (calls.map owner) (performAll crates elements serde m calls) := by
  induction calls with
  | nil => exact fun m => .refl [] m
  | cons call calls ih =>
      intro m
      refine ((call.perform_respects m).mono ?_).trans ((ih _).mono ?_)
      · simp
      · simp

end

/-! ### Names -/

/-- The names the searches for a label ask for. -/
def queryNames (label : String) : List String :=
  [policyLabel label, sigrateLabel label, privLabel label, pubLabel label]

/-- A name is asked for on behalf of one label only. -/
theorem label_of_queryNames {label label' name : String} (h : name ∈ queryNames label)
    (h' : name ∈ queryNames label') : label = label' := by
  -- the four kinds of names end in different letters
  have hlast {a b : String} (hne : a.toList.reverse.head? ≠ b.toList.reverse.head?) (heq : a = b) : label = label' :=
    absurd (congrArg (fun text => text.toList.reverse.head?) heq) hne
  have hpriv {label label' : String} (heq : privLabel label = privLabel label') : label = label' := by
    have hchars := congrArg String.toList heq
    apply String.toList_inj.mp
    simpa [privLabel, toString] using hchars
  have hpub {label label' : String} (heq : pubLabel label = pubLabel label') : label = label' := by
    have hchars := congrArg String.toList heq
    apply String.toList_inj.mp
    simpa [pubLabel, toString] using hchars
  simp only [queryNames, List.mem_cons, List.not_mem_nil, or_false] at h h'
  rcases h with rfl | rfl | rfl | rfl
  · rcases h' with h' | h' | h' | h'
    · exact policyLabel_injective h'
    · exact hlast (by simp [policyLabel, sigrateLabel, toString]) h'
    · exact hlast (by simp [policyLabel, privLabel, PRIV_SUFFIX, toString]) h'
    · exact hlast (by simp [policyLabel, pubLabel, PUB_SUFFIX, toString]) h'
  · rcases h' with h' | h' | h' | h'
    · exact hlast (by simp [policyLabel, sigrateLabel, toString]) h'
    · exact sigrateLabel_injective h'
    · exact hlast (by simp [sigrateLabel, privLabel, PRIV_SUFFIX, toString]) h'
    · exact hlast (by simp [sigrateLabel, pubLabel, PUB_SUFFIX, toString]) h'
  · rcases h' with h' | h' | h' | h'
    · exact hlast (by simp [policyLabel, privLabel, PRIV_SUFFIX, toString]) h'
    · exact hlast (by simp [sigrateLabel, privLabel, PRIV_SUFFIX, toString]) h'
    · exact hpriv h'
    · exact hlast (by simp [pubLabel, privLabel, PUB_SUFFIX, PRIV_SUFFIX, toString]) h'
  · rcases h' with h' | h' | h' | h'
    · exact hlast (by simp [policyLabel, pubLabel, PUB_SUFFIX, toString]) h'
    · exact hlast (by simp [sigrateLabel, pubLabel, PUB_SUFFIX, toString]) h'
    · exact hlast (by simp [pubLabel, privLabel, PUB_SUFFIX, PRIV_SUFFIX, toString]) h'
    · exact hpub h'

/-- No search for another label asks for a name that objects are created under. -/
theorem label_of_madeNames {label label' name : String} (h : name ∈ madeNames label)
    (h' : name ∈ queryNames label') : label = label' := by
  simp only [madeNames, List.mem_cons, List.not_mem_nil, or_false] at h
  rcases h with rfl | rfl | rfl
  · exact label_of_queryNames (by simp [queryNames]) h'
  · exact label_of_queryNames (by simp [queryNames]) h'
  · simp only [queryNames, List.mem_cons, List.not_mem_nil, or_false] at h'
    rcases h' with h' | h' | h' | h'
    · have hlast := congrArg (fun text => text.toList.reverse.head?) h'
      simp [masterName, policyLabel, toString] at hlast
    · have hlast := congrArg (fun text => text.toList.reverse.head?) h'
      simp [masterName, sigrateLabel, toString] at hlast
    · exact absurd h'.symm (privLabel_ne_masterLabel label label')
    · have hlast := congrArg (fun text => text.toList.reverse.head?) h'
      simp [masterName, pubLabel, PUB_SUFFIX, toString] at hlast

/-- An object that a search for a label finds bears a name of the label. -/
theorem exists_queryName {label : String} {query : List Attribute} {object : Object K}
    (hquery : query ∈ ownQueries label) (hmatches : object.matches query = true) :
    ∃ name ∈ queryNames label, .label name ∈ object.attributes := by
  have hall := List.all_eq_true.mp hmatches
  simp only [ownQueries, List.mem_cons, List.not_mem_nil, or_false] at hquery
  rcases hquery with rfl | rfl | rfl | rfl
  · exact ⟨policyLabel label, by simp [queryNames], by simpa using hall (.label _) (by simp [recordQuery])⟩
  · exact ⟨sigrateLabel label, by simp [queryNames], by simpa using hall (.label _) (by simp [recordQuery])⟩
  · exact ⟨privLabel label, by simp [queryNames], by simpa using hall (.label _) (by simp [keyQuery])⟩
  · exact ⟨pubLabel label, by simp [queryNames], by simpa using hall (.label _) (by simp [pubQuery])⟩

/-- No object bears two names. -/
def Machine.OneName (m : Machine K) : Prop :=
  ∀ entry ∈ m.objects, ∀ name name', .label name ∈ entry.2.attributes → .label name' ∈ entry.2.attributes → name = name'

/-- Searches for other labels find what they found. -/
theorem Machine.Respects.matching_eq {labels : List String} {m m' : Machine K} (h : m.Respects labels m')
    (hone : m.OneName) {label : String} (hlabel : label ∉ labels) {query : List Attribute}
    (hquery : query ∈ ownQueries label) : m'.matching query = m.matching query := by
  have hforeign {entry : ObjectHandle × Object K} (hentry : entry ∈ m.objects)
      (hmatches : entry.2.matches query = true) : labels.any entry.2.belongsTo = false := by
    rw [List.any_eq_false]
    intro other hother hbelongs
    obtain ⟨query', hquery', hmatches'⟩ := List.any_eq_true.mp hbelongs
    obtain ⟨name, hname, hbears⟩ := exists_queryName hquery hmatches
    obtain ⟨name', hname', hbears'⟩ := exists_queryName hquery' hmatches'
    rw [hone entry hentry name name' hbears hbears'] at hname
    exact hlabel (label_of_queryNames hname hname' ▸ hother)
  have hkept {entry : ObjectHandle × Object K} (hentry : entry ∈ m'.objects)
      (hmatches : entry.2.matches query = true) :
      entry.1 < m.nextHandle ∧ labels.any entry.2.belongsTo = false := by
    by_cases hlt : entry.1 < m.nextHandle
    · exact ⟨hlt, hforeign (h.old entry hentry hlt) hmatches⟩
    · obtain ⟨other, hother, _, hnames⟩ := h.made entry hentry (Nat.le_of_not_lt hlt)
      obtain ⟨name, hname, hbears⟩ := exists_queryName hquery hmatches
      exact absurd (label_of_madeNames (hnames name hbears) hname ▸ hother) hlabel
  calc m'.matching query
    _ = (m'.objects.filter fun entry => entry.1 < m.nextHandle && !labels.any entry.2.belongsTo).filter
          fun entry => entry.2.matches query := by
        rw [List.filter_filter]
        refine List.filter_congr fun entry hentry => ?_
        cases hmatches : entry.2.matches query with
        | false => rfl
        | true =>
            obtain ⟨hlt, hnone⟩ := hkept hentry hmatches
            simp only [hlt, hnone, decide_true, Bool.not_false, Bool.and_true]
    _ = (m.objects.filter fun entry => !labels.any entry.2.belongsTo).filter
          fun entry => entry.2.matches query := by rw [h.foreign]
    _ = m.matching query := by
        rw [List.filter_filter]
        refine List.filter_congr fun entry hentry => ?_
        cases hmatches : entry.2.matches query with
        | false => rfl
        | true => simp only [hforeign hentry hmatches, Bool.not_false, Bool.and_true]

/-! ### Results -/

/-- After any operations on behalf of any labels, whichever of their token calls failed: an object that belongs to
none of the labels is still behind its handle; and, where no object bears two names, every search for another
label finds exactly what it found before. -/
theorem others_left_alone (hsm : Hsm K D) (crates : Crates D) (elements : ElementsCrate K D X) (serde : Serde)
    (m : Machine K) (calls : List (CrateCall hsm)) :
    let m' := CrateCall.performAll crates elements serde m calls
    (∀ handle object, m.object? handle = some object →
      (∀ label ∈ calls.map CrateCall.owner, object.belongsTo label = false) → m'.object? handle = some object) ∧
    (m.OneName → ∀ label ∉ calls.map CrateCall.owner, ∀ query ∈ ownQueries label,
      m'.matching query = m.matching query) := by
  intro m'
  have h : m.Respects (calls.map CrateCall.owner) m' := CrateCall.performAll_respects calls m
  refine ⟨fun handle object hobject hforeign => ?_, fun hone label hlabel query hquery => ?_⟩
  · rw [Machine.object?_eq_some_iff] at hobject ⊢
    have hnone : (calls.map CrateCall.owner).any object.belongsTo = false :=
      List.any_eq_false.mpr fun label hlabel => by simp [hforeign label hlabel]
    have hmem : (handle, object) ∈ m.objects.filter fun entry => !(calls.map CrateCall.owner).any entry.2.belongsTo :=
      List.mem_filter.mpr ⟨hobject, by simp only [hnone, Bool.not_false]⟩
    rw [← h.foreign] at hmem
    exact List.mem_of_mem_filter hmem
  · exact h.matching_eq hone hlabel hquery

namespace IdealVendor

/-- A token whose fifth call fails. -/
def shaky : Hsm Key Digest := IdealVendor.hsm [7] (fun n => if n = 4 then some .keyHandleInvalid else none) fun n => n

theorem conducts : (recipe.toHsmBackend crates).Conducts shaky := by
  refine AttributeDerivation.conducts (by simp [AttributeDerivation.AvoidsValue, recipe]) ?_
  intro taproot htaproot label start handle keyLabel path digest m
  obtain rfl := Option.some.inj htaproot
  rw [taprootSigner, minds_bind, Session.sign]
  exact minds_request _ (show Conduct label start (.sign handle digest) m from trivial) fun _ _ => trivial

/-- A key is made and removed, and a policy stored. -/
def sharedCalls : List (CrateCall shaky) :=
  [.deriveFromSeed "a" [.normal 0] .bitcoin ⟨recipe.toHsmBackend crates, conducts⟩ [], .deleteKey "a",
    .savePolicy "b" ⟨some 5, none, none⟩]

/-- The object of another application. -/
def certificate : Object Key := ⟨[.objectClass .publicKey, .label "tls"], none⟩

end IdealVendor

open IdealVendor in
/-- The object of another application stays, though a call has failed. -/
theorem certificate_stays :
    (CrateCall.performAll crates elements serde (Machine.empty.create certificate) sharedCalls).object? 0 =
      some certificate :=
  (others_left_alone shaky crates elements serde (Machine.empty.create certificate) sharedCalls).1 0 certificate rfl
    (by decide +kernel)

/-! ### Readable values -/

/-- A `CKA_VALUE` is asked for of data objects only. -/
def ReadsRecords : Call D → Machine K → Prop
  | .getAttributes handle types, m =>
      .value ∈ types → ∀ object, m.object? handle = some object → .objectClass .data ∈ object.attributes
  | _, _ => True

/-- The programs the crate runs on a token. -/
inductive CrateProgram (hsm : Hsm K D) (serde : Serde) : (α : Type) → TokenProgram K D Pkcs11Error α → Prop where
  | loadPolicy (label : String) : CrateProgram hsm serde _ (loadPolicy serde label)
  | savePolicy (label : String) (policy : MinimalHsmPolicy) : CrateProgram hsm serde _ (savePolicy serde label policy)
  | loadSigrate (label : String) : CrateProgram hsm serde _ (loadSigrate serde label)
  | saveSigrate (label : String) (counter : SigRateCounter) :
      CrateProgram hsm serde _ (saveSigrate serde label counter)
  | checkAndRecordSigrate (label : String) (policy : MinimalHsmPolicy) :
      CrateProgram hsm serde _ (checkAndRecordSigrate serde label policy)
  | findKeyByLabel (label : String) : CrateProgram hsm serde _ (findKeyByLabel label)
  | deleteKey (label : String) : CrateProgram hsm serde _ (deleteKey label)
  | deriveFromSeed (label : String) (path : DerivationPath) (network : Network) (backend : ConductingBackend hsm)
      (seed : Bytes) : CrateProgram hsm serde _ (Pkcs11Signer.deriveFromSeed label path network backend.backend seed)
  | load (label : String) (path : DerivationPath) (network : Network) (backend : ConductingBackend hsm) :
      CrateProgram hsm serde _ (Pkcs11Signer.load label path network backend.backend)
  | derivePath (backend : ConductingBackend hsm) (handle : ObjectHandle) (path : DerivationPath) :
      CrateProgram hsm serde _ (Pkcs11Signer.fromBackend (backend.backend.derivePath handle path))
  | signEcdsa (backend : ConductingBackend hsm) (segwit : SegwitSigner K D)
      (hsegwit : backend.backend.segwitSigner = some segwit) (handle : ObjectHandle) (digest : D) :
      CrateProgram hsm serde _ (Pkcs11Signer.fromBackend (segwit.signEcdsa handle digest))
  | signSchnorr (backend : ConductingBackend hsm) (taproot : TaprootSigner K D)
      (htaproot : backend.backend.taprootSigner = some taproot) (handle : ObjectHandle) (label : String)
      (path : DerivationPath) (digest : D) :
      CrateProgram hsm serde _ (Pkcs11Signer.fromBackend (taproot.signSchnorr handle label path digest))
  | destroyChild (handle : ObjectHandle) : CrateProgram hsm serde _ (Session.tryDestroyObject handle)

theorem minds_readsRecords {p : TokenProgram K D ε α}
    (h : Minds hsm.exec (Conduct label 0) (fun _ _ => True) p m) :
    Minds hsm.exec ReadsRecords (fun _ _ => True) p m :=
  h.weaken fun call m hallowed => by cases call <;> first | exact hallowed | trivial

/-- Whatever the crate is asked to do and whichever token calls fail, it makes private objects only, and no key
that can be read or exported; and none of its programs, from any state of the token, asks for the value of an
object that is not a data object. -/
theorem keys_stay_sealed (hsm : Hsm K D) (crates : Crates D) (elements : ElementsCrate K D X) (serde : Serde) :
    (∀ (m : Machine K) (calls : List (CrateCall hsm)),
      ∀ entry ∈ (CrateCall.performAll crates elements serde m calls).objects,
        entry ∈ m.objects ∨ Sealed entry.2.attributes) ∧
    ∀ α p, CrateProgram hsm serde α p → ∀ m, Minds hsm.exec ReadsRecords (fun _ _ => True) p m := by
  refine ⟨fun m calls entry hentry => ?_, fun α p hp m => ?_⟩
  · have h : m.Respects (calls.map CrateCall.owner) (CrateCall.performAll crates elements serde m calls) :=
      CrateCall.performAll_respects calls m
    by_cases hlt : entry.1 < m.nextHandle
    · exact Or.inl (h.old entry hentry hlt)
    · obtain ⟨_, _, hmade, _⟩ := h.made entry hentry (Nat.le_of_not_lt hlt)
      exact Or.inr hmade
  · cases hp with
    | loadPolicy label => exact minds_readsRecords (minds_loadPolicy serde (allowsRecord_policy label _))
    | savePolicy label policy => exact minds_readsRecords (minds_savePolicy serde (allowsRecord_policy label _) policy)
    | loadSigrate label => exact minds_readsRecords (minds_loadSigrate serde (allowsRecord_sigrate label _))
    | saveSigrate label counter =>
        exact minds_readsRecords (minds_saveSigrate serde (allowsRecord_sigrate label _) counter)
    | checkAndRecordSigrate label policy =>
        exact minds_readsRecords
          (minds_checkAndRecordSigrate serde (allowsRecord_sigrate label _) (fun _ => trivial) policy)
    | findKeyByLabel label => exact minds_readsRecords (minds_findKeyByLabel label)
    | deleteKey label => exact minds_readsRecords (minds_deleteKey label)
    | deriveFromSeed label path network backend seed =>
        exact minds_readsRecords (minds_deriveFromSeed backend.conducts path network seed (Nat.zero_le _))
    | load label path network backend =>
        exact minds_readsRecords (minds_load backend.conducts path network)
    | derivePath backend handle path =>
        have hderive := backend.conducts.derivePath "" 0 handle path m (Nat.zero_le _)
        exact (minds_mapError _ _ _).mpr (minds_readsRecords (hderive.mono fun _ _ _ => trivial))
    | signEcdsa backend segwit hsegwit handle digest =>
        have hsign := backend.conducts.segwit segwit hsegwit "" 0 handle digest m
        exact (minds_mapError _ _ _).mpr (minds_readsRecords hsign)
    | signSchnorr backend taproot htaproot handle label path digest =>
        have hsign := backend.conducts.taproot taproot htaproot "" 0 handle label path digest m
        exact (minds_mapError _ _ _).mpr (minds_readsRecords hsign)
    | destroyChild handle => exact ⟨trivial, trivial⟩

namespace IdealVendor

/-- A ceremony that a failing call cuts short, and a PSBT for a key two segments below the master. -/
def sealedCalls : List (CrateCall shaky) :=
  [.deriveFromSeed "a" [] .bitcoin ⟨recipe.toHsmBackend crates, conducts⟩ [],
    .signTransaction ⟨signer [], conducts⟩ (psbtOf [wshInput [.normal 0, .normal 1] none] [])]

end IdealVendor

open IdealVendor in
/-- The ceremony leaves the master key, and the signing call a child on the way; both are sealed. -/
theorem master_and_child_sealed :
    let m := CrateCall.performAll crates elements serde (.empty : Machine Key) sealedCalls
    m.objects.length = 2 ∧ (∀ entry ∈ m.objects, Sealed entry.2.attributes) ∧
      Minds shaky.exec ReadsRecords (fun _ _ => True) (loadPolicy serde "a") m := by
  intro m
  obtain ⟨hsealed, hreads⟩ := keys_stay_sealed shaky crates elements serde
  refine ⟨by decide +kernel, fun entry hentry => ?_, hreads _ _ (.loadPolicy "a") m⟩
  exact (hsealed .empty sealedCalls entry hentry).resolve_left List.not_mem_nil

end EmvaultPkcs11
