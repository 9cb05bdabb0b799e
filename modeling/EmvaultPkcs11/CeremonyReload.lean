import EmvaultPkcs11.IdealVendor

/-! Whether the operational path finds what a key ceremony has left. `derive_from_seed` names the master
by the label that `load` will look for, but the blanket backend hands that label to the master template,
which puts its own suffix behind it. So the one object that outlives the session is filed under a name
`load` does not ask for. -/

open Effect

namespace EmvaultPkcs11

variable {K D : Type}

/-- The template `load` searches by. -/
def keyQuery (label : String) : List Attribute := [.objectClass .privateKey, .label (privLabel label)]

/-- The name a master is filed under is not one `load` asks for: the two end in different texts. -/
theorem privLabel_ne_masterLabel (label label' : String) :
    privLabel label' ≠ toString (privLabel label) ++ toString "/priv" := by
  intro heq
  have hchars := congrArg (fun s => s.toList.reverse[4]?) heq
  simp [privLabel, PREFIX, PRIV_SUFFIX, toString] at hchars

/-- No object of a ceremony is filed under a label that a key is looked up by. -/
theorem AttributeDerivation.IsCeremonyObject.not_matches_keyQuery {seed : Bytes} {label : String}
    {object : Object K} (h : IsCeremonyObject seed (privLabel label) object) (label' : String) :
    object.matches (keyQuery label') = false := by
  rcases h with rfl | h | h
  · simp [Object.matches, keyQuery, seedObject, seedSecretTemplate]
  · simp only [Object.matches, keyQuery, h, masterKeyTemplate]
    simpa using privLabel_ne_masterLabel label label'
  · simp only [IsChild] at h
    simp [Object.matches, keyQuery, h, childKeyTemplate]

/-- Closing a session makes no object match that did not. -/
theorem Machine.matching_closeSession (m : Machine K) (template : List Attribute)
    (h : m.matching template = []) : m.closeSession.matching template = [] := by
  simp only [matching, List.filter_eq_nil_iff] at h ⊢
  exact fun entry hentry => h entry (List.mem_of_mem_filter hentry)

/-- `load` finds no key on a token without objects under its label. -/
theorem Pkcs11Signer.wp_load_of_absent (hsm : Hsm K D) (label : String) (path : DerivationPath)
    (network : Network) (backend : HsmBackend K D) (m : Machine K)
    (habsent : m.matching (keyQuery label) = []) :
    wp (Program.run hsm.exec (load label path network backend)) (fun _ _ => False)
      (fun e _ => hsm.FaultFree → e = .err (.objectNotFound s!"key with label {label}")) m := by
  have hsearch : m.search [.objectClass .privateKey, .label (privLabel label)] = [] := by
    rw [Machine.search_eq]
    exact congrArg (List.map Prod.fst) habsent
  simp only [load, findKeyByLabel, Program.wp_run_bind, Session.wp_findObjects, hsearch]
  exact ⟨fun e he hfree => by simp [hfree m.calls] at he, fun _ _ => rfl⟩

/-- Whenever a ceremony over the blanket backend succeeds on a token without a key for the label, `load`
fails in a new session on that token, for every path. If no call fails it reports the key as not found. -/
theorem load_fails_after_ceremony (recipe : AttributeDerivation K D) (crates : Crates D) (hsm : Hsm K D)
    {label : String} {path : DerivationPath} {network : Network} {seed : Bytes} {m m₁ : Machine K}
    {signer : Pkcs11Signer K D} (hfresh : m.matching (keyQuery label) = [])
    (hrun : (Program.run hsm.exec (Pkcs11Signer.deriveFromSeed label path network
      (recipe.toHsmBackend crates) seed)).run m = .ok signer m₁)
    (path' : DerivationPath) (network' : Network) {m₂ : Machine K}
    (hreopened : m₂.objects = m₁.closeSession.objects) :
    ∃ e m₃, (Program.run hsm.exec (Pkcs11Signer.load label path' network'
        (recipe.toHsmBackend crates))).run m₂ = .error e m₃ ∧
      (hsm.FaultFree → e = .err (.objectNotFound s!"key with label {label}")) := by
  have hadds := (wp_of_run_ok (recipe.wp_deriveFromSeed crates hsm label path network seed m) hrun).1
  have hkept : m₁.matching (keyQuery label) = [] := by
    rw [hadds.matching fun _ h => h.not_matches_keyQuery label]
    exact hfresh
  have habsent : m₂.matching (keyQuery label) = [] := by
    rw [Machine.matching, hreopened]
    exact m₁.matching_closeSession _ hkept
  have hload := Pkcs11Signer.wp_load_of_absent hsm label path' network' (recipe.toHsmBackend crates) m₂
    habsent
  cases hresult : (Program.run hsm.exec (Pkcs11Signer.load label path' network'
      (recipe.toHsmBackend crates))).run m₂ with
  | ok signer' m₃ => exact (wp_of_run_ok hload hresult).elim
  | error e m₃ => exact ⟨e, m₃, rfl, wp_of_run_error hload hresult⟩

open IdealVendor in
/-- The ceremony of one key, and the load that follows it. -/
theorem ceremony_then_load :
    ∃ e m, (Program.run token.exec (Pkcs11Signer.load "a" [.hardened 0] .bitcoin
        (recipe.toHsmBackend crates))).run (machine [.hardened 0]).closeSession = .error e m ∧
      (token.FaultFree → e = .err (.objectNotFound "key with label a")) :=
  load_fails_after_ceremony recipe crates token (m := .empty) rfl
    (show (ceremony [.hardened 0]).run .empty = .ok (signer [.hardened 0]) (machine [.hardened 0]) from rfl)
    [.hardened 0] .bitcoin rfl

open IdealVendor in
/-- A ceremony succeeds, and the key it has made is reported as not found in the next session. -/
theorem ceremony_key_not_found :
    (ceremony [.hardened 0]).run .empty = .ok (signer [.hardened 0]) (machine [.hardened 0]) ∧
    (match (Program.run token.exec (Pkcs11Signer.load "a" [.hardened 0] .bitcoin
        (recipe.toHsmBackend crates))).run (machine [.hardened 0]).closeSession with
      | .ok _ _ => none
      | .error e _ => some e) = some (.err (.objectNotFound "key with label a")) :=
  ⟨rfl, rfl⟩

end EmvaultPkcs11
