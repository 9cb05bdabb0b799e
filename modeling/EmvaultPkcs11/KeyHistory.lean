import EmvaultPkcs11.CeremonyFailure
import EmvaultPkcs11.KeyRemoval
import EmvaultPkcs11.LibraryWrites
import EmvaultPkcs11.PolicyReplacement

/-! Keys over a run of ceremonies, lookups and removals. A ceremony files its master under a name that neither
the lookup nor the removal asks for: so no lookup ever finds a key, and no removal ever removes one. What
the operations are for holds over a run exactly if the run makes no key that either could have found. -/

open Effect Writes

namespace EmvaultPkcs11

variable {K D : Type}

/-! ### The calls and the history of a run -/

/-- A call of key management. Each ceremony has a backend of its own. -/
inductive KeyCall (K D : Type) where
  | deriveFromSeed (label : String) (path : DerivationPath) (network : Network)
      (recipe : AttributeDerivation K D) (seed : Bytes)
  | findKeyByLabel (label : String)
  | deleteKey (label : String)

/-- A ceremony or a removal that has succeeded. -/
inductive KeyEvent where
  | derived (label : String)
  | deleted (label : String)
  deriving DecidableEq

/-- Whether the event gives the label a key, if it is about the label. -/
def KeyEvent.keyFor (label : String) : KeyEvent → Option Bool
  | .derived label' => if label' = label then some true else none
  | .deleted label' => if label' = label then some false else none

/-- A token with its history: the successful ceremonies and removals, and the handles of the objects that
ceremonies have put on it, each with the ceremony's label. -/
structure KeyState (K : Type) where
  machine : Machine K
  events : List KeyEvent
  created : List (String × ObjectHandle)

/-- A ceremony for the label has succeeded since the last removal for it. -/
def KeyState.HasKey (s : KeyState K) (label : String) : Prop :=
  last (KeyEvent.keyFor label) s.events = some true

/-- A private key that outlives the session. -/
def Object.PersistentPrivateKey (object : Object K) : Prop :=
  .objectClass .privateKey ∈ object.attributes ∧ .token true ∈ object.attributes

section

variable (crates : Crates D) (hsm : Hsm K D)

namespace KeyCall

def program : KeyCall K D → TokenProgram K D Pkcs11Error Unit
  | .deriveFromSeed label path network recipe seed => do
      let _ ← Pkcs11Signer.deriveFromSeed label path network (recipe.toHsmBackend crates) seed
      pure ()
  | .findKeyByLabel label => do
      let _ ← EmvaultPkcs11.findKeyByLabel label
      pure ()
  | .deleteKey label => EmvaultPkcs11.deleteKey label

def events : KeyCall K D → List KeyEvent
  | .deriveFromSeed label _ _ _ _ => [.derived label]
  | .findKeyByLabel _ => []
  | .deleteKey label => [.deleted label]

/-- The objects a ceremony has put on the token. -/
def creates (m m' : Machine K) : KeyCall K D → List (String × ObjectHandle)
  | .deriveFromSeed label _ _ _ _ =>
      (m'.objects.filter fun entry => m.nextHandle ≤ entry.1).map fun entry => (label, entry.1)
  | .findKeyByLabel _ => []
  | .deleteKey _ => []

/-- The state after one more call. -/
def step (s : KeyState K) (call : KeyCall K D) : KeyState K :=
  match (Program.run hsm.exec (call.program crates)).run s.machine with
  | .ok _ m => ⟨m, s.events ++ call.events, s.created ++ call.creates s.machine m⟩
  | .error _ m => ⟨m, s.events, s.created ++ call.creates s.machine m⟩

end KeyCall

/-- The state after calls one after the other, from an empty token. -/
def keyRun (calls : List (KeyCall K D)) : KeyState K :=
  calls.foldl (KeyCall.step crates hsm) ⟨.empty, [], []⟩

/-- What the operations are for: a lookup is never ambiguous, it finds a key exactly when there is one, and no
persistent private key made for a label is left right after a removal for it. -/
structure KeysAsMeant (calls : List (KeyCall K D)) : Prop where
  unambiguous : ∀ label label' count,
    resultOf hsm (findKeyByLabel label) (keyRun crates hsm calls).machine ≠ .error (.err (.ambiguous label' count))
  found : ∀ label, (∃ key, resultOf hsm (findKeyByLabel label) (keyRun crates hsm calls).machine = .ok (some key)) ↔
    (keyRun crates hsm calls).HasKey label
  removed : ∀ label, calls.getLast? = some (.deleteKey label) →
    ∀ handle, (label, handle) ∈ (keyRun crates hsm calls).created →
      ∀ object, (keyRun crates hsm calls).machine.object? handle = some object → ¬object.PersistentPrivateKey

/-- The ceremony of a call succeeds: its seed is accepted, the token makes the master, and all that follows
can be derived and read. -/
def KeyCall.Succeeds : KeyCall K D → Prop
  | .deriveFromSeed label path _ recipe seed => ∃ key, AttributeDerivation.SeedAccepted seed ∧
      recipe.masterKey hsm seed = .ok key ∧ recipe.Completes crates hsm (privLabel label) path key
  | _ => False

/-- The ceremony of a call is one for the label, and the token makes its master. -/
def KeyCall.MakesMasterFor (label : String) : KeyCall K D → Prop
  | .deriveFromSeed label' _ _ recipe seed => label' = label ∧ AttributeDerivation.SeedAccepted seed ∧
      ∃ key, recipe.masterKey hsm seed = .ok key
  | _ => False

/-- A call that makes no key a lookup should find, and has no key to remove. -/
def KeyCall.Harmless (before : List (KeyCall K D)) : KeyCall K D → Prop
  | .deleteKey label => ∀ call ∈ before, ¬call.MakesMasterFor hsm label
  | call => ¬call.Succeeds crates hsm

end

/-! ### One call -/

/-- No object of a ceremony is one that a removal looks for. -/
theorem AttributeDerivation.IsCeremonyObject.not_matches_pubQuery {seed : Bytes} {label : String}
    {object : Object K} (h : IsCeremonyObject seed label object) (label' : String) :
    object.matches (pubQuery label') = false := by
  rcases h with rfl | h | h
  · simp [Object.matches, pubQuery, seedObject, seedSecretTemplate]
  · simp [Object.matches, pubQuery, h, masterKeyTemplate]
  · simp only [IsChild] at h
    simp [Object.matches, pubQuery, h, childKeyTemplate]

/-- A lookup finds no key where no object is filed under the label. -/
theorem wp_findKeyByLabel_of_absent {hsm : Hsm K D} (hfree : hsm.FaultFree) {label : String} {m : Machine K}
    (habsent : m.matching (keyQuery label) = []) :
    wp (Program.run hsm.exec (findKeyByLabel label : TokenProgram K D _ _))
      (fun found m' => found = none ∧ m' = m.tick) (fun _ _ => False) m := by
  have hsearch : m.search [.objectClass .privateKey, .label (privLabel label)] = [] := by
    rw [Machine.search_eq]
    exact congrArg (List.map Prod.fst) habsent
  simp only [findKeyByLabel, Program.wp_run_bind, Session.wp_findObjects, hsearch]
  exact ⟨fun e he => by simp [hfree m.calls] at he, fun _ => ⟨rfl, rfl⟩⟩

theorem resultOf_findKeyByLabel_of_absent {hsm : Hsm K D} (hfree : hsm.FaultFree) {label : String} {m : Machine K}
    (habsent : m.matching (keyQuery label) = []) : resultOf hsm (findKeyByLabel label) m = .ok none := by
  have hfind := wp_findKeyByLabel_of_absent hfree habsent
  unfold resultOf
  split
  case h_1 found m' hrun => rw [(wp_of_run_ok hfind hrun).1]
  case h_2 e m' hrun => exact (wp_of_run_error hfind hrun).elim

/-- An object under a handle that was in use before is an object of before. -/
theorem Machine.Adds.object?_of_lt {p : Object K → Prop} {m m' : Machine K} (h : Machine.Adds p m m')
    {handle : ObjectHandle} {object : Object K} (hold : handle < m.nextHandle)
    (hobject : m'.object? handle = some object) : m.object? handle = some object := by
  rw [Machine.object?_eq_some_iff] at hobject ⊢
  obtain ⟨added, hobjects, hadded⟩ := h.objects
  rw [hobjects, List.mem_append] at hobject
  rcases hobject with hmem | hmem
  · exact hmem
  · have hfresh := (hadded _ hmem).1
    exact absurd hold (Nat.not_lt.mpr hfresh)

/-! ### The invariant -/

section

variable (crates : Crates D) (hsm : Hsm K D)

/-- How the token stands after the calls `calls`: nothing is filed where a lookup or a removal looks, what is
left of the ceremonies is exactly the masters they have made, and no ceremony succeeded that could not. -/
structure KeyState.Accounts (calls : List (KeyCall K D)) (s : KeyState K) : Prop where
  unlisted : ∀ label, s.machine.matching (keyQuery label) = [] ∧ s.machine.matching (pubQuery label) = []
  older : ∀ label handle, (label, handle) ∈ s.created → handle < s.machine.nextHandle
  made : ∀ label handle object, (label, handle) ∈ s.created → s.machine.object? handle = some object →
    object.PersistentPrivateKey → ∃ call ∈ calls, call.MakesMasterFor hsm label
  left : ∀ call ∈ calls, ∀ label, call.MakesMasterFor hsm label → ∃ handle object,
    (label, handle) ∈ s.created ∧ s.machine.object? handle = some object ∧ object.PersistentPrivateKey
  derived : ∀ label, KeyEvent.derived label ∈ s.events → ∃ call ∈ calls, call.Succeeds crates hsm

variable {crates hsm} {calls : List (KeyCall K D)} {s : KeyState K}

namespace KeyState.Accounts

/-- A call that makes no master and leaves the objects as they are. -/
theorem quiet (h : s.Accounts crates hsm calls) (call : KeyCall K D) (hmakes : ∀ label, ¬call.MakesMasterFor hsm label)
    {m : Machine K} (hobjects : m.objects = s.machine.objects) (hnext : m.nextHandle = s.machine.nextHandle)
    (events : List KeyEvent) (hevents : ∀ label, .derived label ∉ events) :
    KeyState.Accounts crates hsm (calls ++ [call]) ⟨m, s.events ++ events, s.created⟩ where
  unlisted label := by
    simp only [Machine.matching, hobjects]
    exact h.unlisted label
  older label handle hcreated := by
    rw [hnext]
    exact h.older label handle hcreated
  made label handle object hcreated hobject hpersistent := by
    rw [Machine.object?_eq_of_objects hobjects] at hobject
    obtain ⟨call', hcall', hmakes'⟩ := h.made label handle object hcreated hobject hpersistent
    exact ⟨call', List.mem_append_left _ hcall', hmakes'⟩
  left call' hcall' label hmakes' := by
    rcases List.mem_append.mp hcall' with hcall' | hcall'
    · obtain ⟨handle, object, hcreated, hobject, hpersistent⟩ := h.left call' hcall' label hmakes'
      exact ⟨handle, object, hcreated, (Machine.object?_eq_of_objects hobjects handle).trans hobject, hpersistent⟩
    · rw [List.mem_singleton.mp hcall'] at hmakes'
      exact absurd hmakes' (hmakes label)
  derived label hderived := by
    rcases List.mem_append.mp hderived with hderived | hderived
    · obtain ⟨call', hcall', hsucceeds⟩ := h.derived label hderived
      exact ⟨call', List.mem_append_left _ hcall', hsucceeds⟩
    · exact absurd hderived (hevents label)

/-- A ceremony that adds a persistent private key if it makes its master. -/
theorem ceremony (h : s.Accounts crates hsm calls) {label : String} (path : DerivationPath) (network : Network)
    {recipe : AttributeDerivation K D} {seed : Bytes} {m : Machine K}
    (hadds : Machine.Adds (AttributeDerivation.IsCeremonyObject seed (privLabel label)) s.machine m)
    (hmade : (∃ handle object, s.machine.nextHandle ≤ handle ∧ m.object? handle = some object ∧
      object.PersistentPrivateKey) ↔ (KeyCall.deriveFromSeed label path network recipe seed).MakesMasterFor hsm label)
    (events : List KeyEvent) (hevents : ∀ label', .derived label' ∈ events →
      (KeyCall.deriveFromSeed label path network recipe seed).Succeeds crates hsm) :
    KeyState.Accounts crates hsm (calls ++ [.deriveFromSeed label path network recipe seed])
      ⟨m, s.events ++ events,
        s.created ++ (KeyCall.deriveFromSeed label path network recipe seed).creates s.machine m⟩ where
  unlisted label' := by
    rw [hadds.matching fun _ hobject => hobject.not_matches_keyQuery label',
      hadds.matching fun _ hobject => hobject.not_matches_pubQuery label']
    exact h.unlisted label'
  older label' handle hcreated := by
    rcases List.mem_append.mp hcreated with hcreated | hcreated
    · exact (h.older label' handle hcreated).trans_le hadds.nextHandle
    · obtain ⟨entry, hentry, heq⟩ := List.mem_map.mp hcreated
      obtain ⟨rfl, rfl⟩ := Prod.mk.inj heq
      exact m.handles_lt entry (List.mem_of_mem_filter hentry)
  made label' handle object hcreated hobject hpersistent := by
    rcases List.mem_append.mp hcreated with hcreated | hcreated
    · have hold := hadds.object?_of_lt (h.older label' handle hcreated) hobject
      obtain ⟨call, hcall, hmakes⟩ := h.made label' handle object hcreated hold hpersistent
      exact ⟨call, List.mem_append_left _ hcall, hmakes⟩
    · obtain ⟨entry, hentry, heq⟩ := List.mem_map.mp hcreated
      obtain ⟨rfl, rfl⟩ := Prod.mk.inj heq
      have hfresh : s.machine.nextHandle ≤ entry.1 := by simpa using (List.mem_filter.mp hentry).2
      exact ⟨_, List.mem_append_right _ (List.mem_singleton_self _),
        hmade.mp ⟨entry.1, object, hfresh, hobject, hpersistent⟩⟩
  left call hcall label' hmakes := by
    rcases List.mem_append.mp hcall with hcall | hcall
    · obtain ⟨handle, object, hcreated, hobject, hpersistent⟩ := h.left call hcall label' hmakes
      have hkept := (hadds.keeps fun _ => AttributeDerivation.IsCeremonyObject.not_data).objects _ _ hobject
      exact ⟨handle, object, List.mem_append_left _ hcreated, hkept, hpersistent⟩
    · rw [List.mem_singleton.mp hcall] at hmakes
      obtain rfl : label = label' := hmakes.1
      obtain ⟨handle, object, hfresh, hobject, hpersistent⟩ := hmade.mpr hmakes
      refine ⟨handle, object, List.mem_append_right _ ?_, hobject, hpersistent⟩
      have hentry := (m.object?_eq_some_iff handle object).mp hobject
      exact List.mem_map.mpr ⟨(handle, object), List.mem_filter.mpr ⟨hentry, by simpa using hfresh⟩, rfl⟩
  derived label' hderived := by
    rcases List.mem_append.mp hderived with hderived | hderived
    · obtain ⟨call, hcall, hsucceeds⟩ := h.derived label' hderived
      exact ⟨call, List.mem_append_left _ hcall, hsucceeds⟩
    · exact ⟨_, List.mem_append_right _ (List.mem_singleton_self _), hevents label' hderived⟩

end KeyState.Accounts

/-- What a ceremony has left tells whether its master was made. -/
theorem persistent_left_iff (hfree : hsm.FaultFree) {label : String} {path : DerivationPath} {network : Network}
    {recipe : AttributeDerivation K D} {seed : Bytes} {m m' : Machine K}
    (houtcome : ((∀ key, ¬recipe.MakesMaster hsm seed m key) ∧ m'.objects = m.objects) ∨
      ∃ key, recipe.MakesMaster hsm seed m key ∧ Machine.Adds AttributeDerivation.IsChild
        (AttributeDerivation.withMaster seed (privLabel label) key m) m') :
    (∃ handle object, m.nextHandle ≤ handle ∧ m'.object? handle = some object ∧ object.PersistentPrivateKey) ↔
      (KeyCall.deriveFromSeed label path network recipe seed).MakesMasterFor hsm label := by
  rcases houtcome with ⟨hnone, hobjects⟩ | ⟨key, hmakes, hadds⟩
  · refine iff_of_false ?_ ?_
    · rintro ⟨handle, object, hfresh, hobject, _⟩
      rw [Machine.object?_eq_of_objects hobjects] at hobject
      exact absurd (m.object?_lt hobject) (Nat.not_lt.mpr hfresh)
    · rintro ⟨_, haccepted, key, hkey⟩
      exact hnone key ⟨haccepted, hfree _, hfree _, hkey⟩
  · refine iff_of_true ⟨m.nextHandle + 1, AttributeDerivation.masterObject (privLabel label) key, Nat.le_succ _, ?_, ?_⟩
      ⟨rfl, hmakes.accepted, key, hmakes.masterKey⟩
    · apply (hadds.keeps fun _ => AttributeDerivation.IsChild.not_data).objects
      rw [Machine.object?_eq_some_iff, AttributeDerivation.objects_withMaster]
      simp
    · simp [Object.PersistentPrivateKey, AttributeDerivation.masterObject, masterKeyTemplate]

/-- What holds however a call ends holds after it. -/
theorem KeyCall.step_of_wp {P : KeyState K → Prop} {call : KeyCall K D}
    (h : wp (Program.run hsm.exec (call.program crates))
      (fun _ m => P ⟨m, s.events ++ call.events, s.created ++ call.creates s.machine m⟩)
      (fun _ m => P ⟨m, s.events, s.created ++ call.creates s.machine m⟩) s.machine) :
    P (call.step crates hsm s) := by
  unfold KeyCall.step
  cases hrun : (Program.run hsm.exec (call.program crates)).run s.machine with
  | ok _ m => exact wp_of_run_ok h hrun
  | error e m => exact wp_of_run_error h hrun

/-- Step: every call keeps the account. -/
theorem KeyState.Accounts.step (hfree : hsm.FaultFree) (h : s.Accounts crates hsm calls) (call : KeyCall K D) :
    (call.step crates hsm s).Accounts crates hsm (calls ++ [call]) := by
  apply KeyCall.step_of_wp (P := fun s' => s'.Accounts crates hsm (calls ++ [call]))
  cases call with
  | deriveFromSeed label path network recipe seed =>
      have hcleanup : hsm.fault (s.machine.calls + 2) = none := hfree _
      simp only [KeyCall.program, Program.wp_run_bind]
      refine wp_mono (wp_and (recipe.wp_deriveFromSeed crates hsm label path network seed s.machine)
        (AttributeDerivation.wp_deriveFromSeed_exact label path network seed hcleanup))
        (fun _ m h' => ?_) (fun e m h' => ?_)
      · obtain ⟨⟨hadds, _⟩, key, hmakes, hmaster, hcompletes⟩ := h'
        refine h.ceremony path network hadds (persistent_left_iff hfree (Or.inr ⟨key, hmakes, hmaster⟩)) _
          fun label' _ => ?_
        exact ⟨key, hmakes.accepted, hmakes.masterKey, hcompletes⟩
      · obtain ⟨hadds, houtcome⟩ := h'
        have hmade := houtcome.imp_right (Exists.imp fun key hkey => And.intro hkey.1 hkey.2.1)
        have hkept := h.ceremony path network hadds (persistent_left_iff hfree hmade) [] (by simp)
        rw [List.append_nil] at hkept
        exact hkept
  | findKeyByLabel label =>
      simp only [KeyCall.program, KeyCall.creates, List.append_nil, Program.wp_run_bind]
      refine wp_mono (wp_findKeyByLabel_of_absent hfree (h.unlisted label).1) (fun _ m h' => ?_) (fun e m h' => h'.elim)
      rw [h'.2]
      exact h.quiet (m := s.machine.tick) (.findKeyByLabel label) (fun _ hmakes => hmakes) rfl rfl [] (by simp)
  | deleteKey label =>
      simp only [KeyCall.program, KeyCall.creates, List.append_nil]
      refine wp_mono (wp_deleteKey hsm hfree label s.machine) (fun _ m hforgets => ?_) (fun e m h' => h'.elim)
      refine h.quiet (.deleteKey label) (fun _ hmakes => hmakes) ?_ hforgets.nextHandle _ (by simp [KeyCall.events])
      rw [hforgets.objects]
      apply List.filter_eq_self.mpr
      intro entry hentry
      have hkey := List.filter_eq_nil_iff.mp (h.unlisted label).1 entry hentry
      have hpub := List.filter_eq_nil_iff.mp (h.unlisted label).2 entry hentry
      simp only [Bool.not_eq_true] at hkey hpub
      rw [hkey, hpub]
      rfl

/-- Run: so does every sequence of calls, from an empty token. -/
theorem accounts_keyRun (hfree : hsm.FaultFree) (calls : List (KeyCall K D)) :
    (keyRun crates hsm calls).Accounts crates hsm calls := by
  induction calls using List.reverseRecOn with
  | nil =>
      refine ⟨fun label => ⟨rfl, rfl⟩, ?_, ?_, ?_, ?_⟩
      all_goals simp [keyRun]
  | append_singleton calls call ih =>
      rw [keyRun, List.foldl_append]
      exact ih.step hfree call

/-- A ceremony that can succeed gives its label a key. -/
theorem hasKey_of_succeeds (hfree : hsm.FaultFree) {label : String} {path : DerivationPath} {network : Network}
    {recipe : AttributeDerivation K D} {seed : Bytes}
    (hsucceeds : (KeyCall.deriveFromSeed label path network recipe seed).Succeeds crates hsm) :
    ((KeyCall.deriveFromSeed label path network recipe seed).step crates hsm s).HasKey label := by
  obtain ⟨key, haccepted, hkey, hcompletes⟩ := hsucceeds
  have hcleanup : hsm.fault (s.machine.calls + 2) = none := hfree _
  apply KeyCall.step_of_wp (P := fun s' => s'.HasKey label)
  simp only [KeyCall.program, Program.wp_run_bind]
  refine wp_mono (AttributeDerivation.wp_deriveFromSeed_exact label path network seed hcleanup)
    (fun _ m h' => ?_) (fun e m h' => ?_)
  · rw [Program.pure_eq, Program.wp_run_done]
    simp [KeyState.HasKey, KeyCall.events, last_append, last_cons, KeyEvent.keyFor]
  · rcases h' with ⟨hnone, _⟩ | ⟨key', hmakes, _, hfails⟩
    · exact absurd ⟨haccepted, hfree _, hfree _, hkey⟩ (hnone key)
    · obtain rfl : key' = key := Except.ok.inj (hmakes.masterKey.symm.trans hkey)
      exact absurd hcompletes (hfails hfree)

end

/-- Over a run on an empty token that serves every call, the operations do what they are for after every call
exactly if no ceremony of the run succeeds and no removal comes after a ceremony for its label that has made
its master. -/
theorem keys_as_meant_iff (crates : Crates D) (hsm : Hsm K D) (hfree : hsm.FaultFree)
    (calls : List (KeyCall K D)) :
    (∀ before, before <+: calls → KeysAsMeant crates hsm before) ↔
      ∀ before call, before ++ [call] <+: calls → call.Harmless crates hsm before := by
  have hnotFound (before : List (KeyCall K D)) (label : String) :
      resultOf hsm (findKeyByLabel label) (keyRun crates hsm before).machine = .ok none :=
    resultOf_findKeyByLabel_of_absent hfree ((accounts_keyRun hfree before).unlisted label).1
  constructor
  · intro hmeant before call hpart
    have hafter := hmeant _ hpart
    cases call with
    | deriveFromSeed label path network recipe seed =>
        intro hsucceeds
        have hkey : (keyRun crates hsm (before ++ [.deriveFromSeed label path network recipe seed])).HasKey label := by
          rw [keyRun, List.foldl_append]
          exact hasKey_of_succeeds hfree hsucceeds
        obtain ⟨key, hfound⟩ := (hafter.found label).mpr hkey
        rw [hnotFound] at hfound
        cases hfound
    | findKeyByLabel label => exact fun hsucceeds => hsucceeds
    | deleteKey label =>
        intro call hcall hmakes
        obtain ⟨handle, object, hcreated, hobject, hpersistent⟩ :=
          (accounts_keyRun hfree (before ++ [.deleteKey label])).left call (List.mem_append_left _ hcall) label hmakes
        exact hafter.removed label (by simp) handle hcreated object hobject hpersistent
  · intro hharmless before hpart
    have haccounts : (keyRun crates hsm before).Accounts crates hsm before := accounts_keyRun hfree before
    refine ⟨fun label label' count => ?_, fun label => ?_,
      fun label hlast handle hcreated object hobject hpersistent => ?_⟩
    · rw [hnotFound]
      simp
    · rw [hnotFound]
      refine iff_of_false (by simp) fun hkey => ?_
      obtain ⟨event, hevent, hkeyFor⟩ := exists_of_last_eq_some hkey
      cases event with
      | deleted label' => simp [KeyEvent.keyFor] at hkeyFor
      | derived label' =>
          obtain ⟨call, hcall, hsucceeds⟩ := haccounts.derived label' hevent
          obtain ⟨first, rest, rfl⟩ := List.append_of_mem hcall
          have hstep := hharmless first call (List.IsPrefix.trans ⟨rest, by simp⟩ hpart)
          cases call with
          | deriveFromSeed label path network recipe seed => exact hstep hsucceeds
          | findKeyByLabel label => exact hsucceeds
          | deleteKey label => exact hsucceeds
    · obtain ⟨first, rfl⟩ := List.getLast?_eq_some_iff.mp hlast
      obtain ⟨call, hcall, hmakes⟩ := haccounts.made label handle object hcreated hobject hpersistent
      rcases List.mem_append.mp hcall with hcall | hcall
      · exact hharmless first (.deleteKey label) hpart call hcall hmakes
      · rw [List.mem_singleton.mp hcall] at hmakes
        exact hmakes

namespace IdealVendor

/-- The ceremony of a call for the label "a". -/
def ceremonyCall (seed : Bytes) : KeyCall Key Digest := .deriveFromSeed "a" [.hardened 0] .bitcoin recipe seed

/-- A ceremony with a seed of a wrong length, and what may follow it. -/
def refusedCalls : List (KeyCall Key Digest) := [ceremonyCall [1], .findKeyByLabel "a", .deleteKey "a"]

end IdealVendor

open IdealVendor in
/-- After a ceremony that refuses its seed there is no key, none is found and none is left. -/
theorem refused_ceremony_as_meant : KeysAsMeant crates token refusedCalls := by
  have hrefused : ∀ call ∈ refusedCalls, ¬call.Succeeds crates token ∧
      ∀ label, ¬call.MakesMasterFor token label := by
    have hseed : ¬AttributeDerivation.SeedAccepted [1] := by simp [AttributeDerivation.SeedAccepted]
    simp only [refusedCalls, List.forall_mem_cons]
    refine ⟨⟨?_, ?_⟩, ?_, ?_, by simp⟩
    · rintro ⟨_, haccepted, _⟩
      exact hseed haccepted
    · rintro label ⟨_, haccepted, _⟩
      exact hseed haccepted
    · exact ⟨fun h => h, fun _ h => h⟩
    · exact ⟨fun h => h, fun _ h => h⟩
  refine (keys_as_meant_iff crates token (fun _ => rfl) refusedCalls).mpr (fun before call hpart => ?_) _
    (List.prefix_refl _)
  have hcall : call ∈ refusedCalls := hpart.subset (by simp)
  cases call with
  | deriveFromSeed label path network recipe seed => exact (hrefused _ hcall).1
  | findKeyByLabel label => exact fun h => h
  | deleteKey label =>
      intro call' hcall'
      exact (hrefused call' (hpart.subset (by simp [hcall']))).2 label

open IdealVendor in
/-- A ceremony that succeeds gives the label a key that no lookup finds, and the removal that follows leaves its
master on the token. -/
theorem made_key_neither_found_nor_removed :
    ((keyRun crates token [ceremonyCall []]).HasKey "a" ∧
      resultOf token (findKeyByLabel "a") (keyRun crates token [ceremonyCall []]).machine = .ok none) ∧
    ("a", 1) ∈ (keyRun crates token [ceremonyCall [], .deleteKey "a"]).created ∧
      (keyRun crates token [ceremonyCall [], .deleteKey "a"]).machine.object? 1 =
        some (AttributeDerivation.masterObject (privLabel "a") master) ∧
      (AttributeDerivation.masterObject (privLabel "a") master).PersistentPrivateKey := by
  refine ⟨⟨?_, by decide +kernel⟩, by decide +kernel, by decide +kernel, by decide +kernel, by decide +kernel⟩
  show last (KeyEvent.keyFor "a") (keyRun crates token [ceremonyCall []]).events = some true
  decide +kernel

end EmvaultPkcs11
