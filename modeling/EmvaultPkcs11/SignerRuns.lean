import EmvaultPkcs11.CrateConduct
import EmvaultPkcs11.SignerVault
import EmvaultPkcs11.VendorBehaviour

/-! The signatures of a signer's whole life. Whatever its calls do to the records, they leave the federation key
where it is, so every signature of every call is made from the one object, for a target the call's transaction
asks for. -/

open Effect Program

namespace EmvaultPkcs11

variable {K D X T ε ε' α : Type}

/-! ### Keys stay -/

/-- The calls that destroy data objects only. -/
def SparesKeys : Call D → Machine K → Prop
  | .destroyObject handle, m => ∀ object, m.object? handle = some object → .objectClass .data ∈ object.attributes
  | _, _ => True

/-- The object is behind the handle, and is no data object. -/
structure Machine.HasKey (handle : ObjectHandle) (object : Object K) (m : Machine K) : Prop where
  held : m.object? handle = some object
  notData : .objectClass .data ∉ object.attributes

theorem allowsRecord_sparesKeys (objectLabel : String) :
    AllowsRecord (SparesKeys : Call D → Machine K → Prop) objectLabel where
  find _ := trivial
  read _ _ _ := trivial
  destroy _ _ hmatches object hobject := data_of_matches (hmatches object hobject)
  create _ _ := trivial

section

variable {hsm : Hsm K D} {handle : ObjectHandle} {object : Object K} {m m' : Machine K}

theorem Machine.HasKey.of_objects (h : m.HasKey handle object) (hobjects : m'.objects = m.objects) :
    m'.HasKey handle object :=
  ⟨by rw [Machine.object?_eq_of_objects hobjects, h.held], h.notData⟩

theorem Machine.HasKey.of_keeps (h : m.HasKey handle object) (hkeeps : m.Keeps m') : m'.HasKey handle object :=
  ⟨hkeeps.objects handle object h.held, h.notData⟩

theorem Machine.HasKey.create (h : m.HasKey handle object) (new : Object K) : (m.create new).HasKey handle object :=
  ⟨m.object?_create_of_some new h.held, h.notData⟩

/-- A call that destroys no key leaves a key where it is. -/
theorem Hsm.exec_hasKey (hsm : Hsm K D) (call : Call D) (m : Machine K) (hspares : SparesKeys call m)
    (h : m.HasKey handle object) : (hsm.exec call m).2.HasKey handle object := by
  have htick : m.tick.HasKey handle object := h.of_objects rfl
  unfold Hsm.exec
  cases hsm.fault m.calls with
  | some e => exact htick
  | none =>
      cases call with
      | findObjects template => exact htick
      | getAttributes other types =>
          simp only [Hsm.serve]
          cases m.object? other <;> exact htick
      | destroyObject other =>
          simp only [Hsm.serve]
          cases hother : m.object? other with
          | none => exact htick
          | some found =>
              have hne : handle ≠ other := by
                intro heq
                rw [← heq, h.held] at hother
                obtain rfl := Option.some.inj hother
                exact h.notData (hspares object (heq ▸ h.held))
              exact ⟨m.object?_destroy_of_some h.held hne, h.notData⟩
      | createObject template => exact (h.create ⟨template, none⟩).of_objects rfl
      | deriveKey mechanism base template =>
          simp only [Hsm.serve]
          cases m.object? base with
          | none => exact htick
          | some parent =>
              cases hderive : hsm.derive mechanism parent with
              | error e => simpa only [hderive] using htick
              | ok key =>
                  simp only [hderive]
                  exact (h.create ⟨template, some key⟩).of_objects rfl
      | sign key digest =>
          simp only [Hsm.serve]
          cases m.object? key with
          | none => exact htick
          | some found =>
              cases hkey : found.key with
              | none => simpa only [hkey] using htick
              | some secret => simpa only [hkey] using htick
      | now => exact htick

/-- So does a program of such calls. -/
theorem maintains_hasKey {p : TokenProgram K D ε α}
    (h : ∀ m, Minds hsm.exec SparesKeys (fun _ _ => True) p m) :
    Maintains (Machine.HasKey handle object) (Program.run hsm.exec p) :=
  Maintains.run (fun m _ => h m) fun call m => hsm.exec_hasKey call m

end

/-! ### One call -/

section

variable {signer : Pkcs11Signer K D} {crates : Crates D} {elements : ElementsCrate K D X} {hsm : Hsm K D}
  {serde : Serde} {slot : Slot} {functions : VendorFunctions K D} {federation : Object K}

/-- The call asks for a signature for the target. -/
def SignerCall.Asks (signer : Pkcs11Signer K D) (crates : Crates D) (elements : ElementsCrate K D X)
    (target : Target D) : SignerCall K → Prop
  | .signTransaction psbt => .ok target ∈ signer.agenda crates psbt
  | .signPset pset => .ok target ∈ signer.psetAgenda elements pset
  | _ => False

/-- The signatures a call puts into its transaction. -/
def SharedState.writes (signer : Pkcs11Signer K D) (crates : Crates D) (elements : ElementsCrate K D X)
    (hsm : Hsm K D) (serde : Serde) (s : SharedState K) : SignerCall K → List (Written K)
  | .signTransaction psbt => writtenBy (signer.signTransaction crates hsm serde) ⟨s.machine, s.poisoned, psbt, []⟩
  | .signPset pset => writtenBy (signer.signPset crates elements hsm serde) ⟨s.machine, s.poisoned, pset, []⟩
  | _ => []

/-- The token still has the signer's federation key. -/
def SharedState.HasFederation (signer : Pkcs11Signer K D) (federation : Object K) (s : SharedState K) : Prop :=
  s.machine.HasKey signer.loaded.privateKey federation

/-- The mutex is no part of the token. -/
theorem maintains_expectLock {Inv : Machine K → Prop} {body : SignM K T ε α}
    (h : Maintains (fun s => Inv s.machine) body) : Maintains (fun s => Inv s.machine) (expectLock body) := by
  intro s hs
  unfold expectLock wp
  simp only [EStateM.run]
  cases hlock : s.poisoned with
  | true => simpa only [if_true] using hs
  | false =>
      have hbody := h s hs
      unfold wp at hbody
      simp only [Bool.false_eq_true, if_false]
      cases hrun : body s with
      | ok a s' => simpa only [EStateM.run, hrun] using hbody
      | error e s' =>
          simp only [EStateM.run, hrun] at hbody
          cases e <;> exact hbody

variable (hcomputes : signer.backend.Computes hsm functions)
include hcomputes

/-- A call leaves the federation key where it is. -/
theorem SharedState.serve_hasFederation {s : SharedState K} (hs : s.HasFederation signer federation)
    (call : SignerCall K) :
    (s.serve signer crates elements hsm serde slot call).2.HasFederation signer federation := by
  have hkept (m : Machine K) (hkeeps : s.machine.Keeps m) : m.HasKey signer.loaded.privateKey federation :=
    hs.of_keeps hkeeps
  have hrecord (policy : MinimalHsmPolicy) : Maintains (Machine.HasKey signer.loaded.privateKey federation)
      (Program.run hsm.exec (checkAndRecordSigrate serde signer.label policy)) :=
    maintains_hasKey fun m =>
      minds_checkAndRecordSigrate serde (allowsRecord_sparesKeys _) (fun _ => trivial) policy
  cases call with
  | policy =>
      apply SharedState.runOn_of_wp (P := fun _ _ s' => s'.HasFederation signer federation)
      exact maintains_expectLock (maintains_onToken (maintains_hasKey fun m =>
        minds_loadPolicy serde (allowsRecord_sparesKeys _))) ⟨s.machine, s.poisoned, (), []⟩ hs
  | setPolicy policy =>
      apply SharedState.runOn_of_wp (P := fun _ _ s' => s'.HasFederation signer federation)
      exact maintains_expectLock ((maintains_onToken (maintains_hasKey fun m =>
        minds_savePolicy serde (allowsRecord_sparesKeys _) policy)).bind fun _ => Maintains.pure _)
        ⟨s.machine, s.poisoned, (), []⟩ hs
  | healthCheck =>
      apply SharedState.runOn_of_wp (P := fun _ _ s' => s'.HasFederation signer federation)
      have hnow (m : Machine K) : Minds hsm.exec SparesKeys (fun _ _ => True)
          (Session.now : TokenProgram K D SignerError Nat) m := ⟨trivial, trivial⟩
      have hcheck : Maintains (fun s => s.machine.HasKey signer.loaded.privateKey federation)
          (healthCheck crates hsm slot : SignM K Unit SignerError SignerHealth) := by
        refine (maintains_withLock (Maintains.orErr _)).bind fun label => ?_
        exact (maintains_onToken (maintains_hasKey hnow)).bind fun now => Maintains.pure _
      exact hcheck ⟨s.machine, s.poisoned, (), []⟩ hs
  | signTransaction psbt =>
      apply SharedState.runOn_of_wp (P := fun _ _ s' => s'.HasFederation signer federation)
      exact (hcomputes.contract hs.held).wp_signTransaction_keeps crates serde ⟨s.machine, s.poisoned, psbt, []⟩
        (.refl s.machine) hkept hrecord
  | signPset pset =>
      apply SharedState.runOn_of_wp (P := fun _ _ s' => s'.HasFederation signer federation)
      exact (hcomputes.contract hs.held).wp_signPset_keeps crates serde elements ⟨s.machine, s.poisoned, pset, []⟩
        (.refl s.machine) hkept hrecord

/-- A signature a call writes is what the vendor makes with the federation key for a target of the call. -/
theorem SharedState.exists_target {s : SharedState K} (hs : s.HasFederation signer federation) {call : SignerCall K}
    {w : Written K} (hw : w ∈ s.writes signer crates elements hsm serde call) :
    ∃ target, call.Asks signer crates elements target ∧ w.inputIdx = target.inputIdx ∧
      ∃ sig, functions.answer signer.backend signer.label federation target = some sig ∧
        w.insertion = target.insertion crates sig := by
  cases call with
  | policy => cases hw
  | setPolicy policy => cases hw
  | healthCheck => cases hw
  | signTransaction psbt =>
      obtain ⟨target, htarget, hanswers⟩ := ((hcomputes.contract hs.held).signTransaction_wrotePart crates serde
        ⟨s.machine, s.poisoned, psbt, []⟩ (.refl s.machine)).exists_target hw
      exact ⟨target, htarget, hanswers⟩
  | signPset pset =>
      obtain ⟨target, htarget, hanswers⟩ := ((hcomputes.contract hs.held).signPset_wrotePart crates serde elements
        ⟨s.machine, s.poisoned, pset, []⟩ (.refl s.machine)).exists_target hw
      exact ⟨target, htarget, hanswers⟩

/-- Run: the federation key outlasts any calls. -/
theorem SharedState.serveAll_hasFederation (calls : List (SignerCall K)) : ∀ {s : SharedState K},
    s.HasFederation signer federation →
      (s.serveAll signer crates elements hsm serde slot calls).2.HasFederation signer federation := by
  induction calls with
  | nil => exact fun hs => hs
  | cons call calls ih => exact fun hs => ih (SharedState.serve_hasFederation hcomputes hs call)

end

end EmvaultPkcs11
