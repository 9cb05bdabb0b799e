import EmvaultPkcs11.SigningUnlimited

/-! Several signers taking turns on one transaction. What a signer is asked for, whether its policy lets it
answer and what it writes depend on the unsigned transaction and on its own token only, so no turn changes
what another turn does. Signatures are filed under keys, not fingerprints; but a signer writes only under
keys that have an origin entry with its fingerprint, so signers with different fingerprints write different
entries, and a signer that has another turn writes the same ones again. -/

open Effect Agenda Writes

namespace EmvaultPkcs11

variable {K D X : Type}

/-- Signers with pairwise different fingerprints, each in a session on one of the tokens `τ`. No call on a
token fails for a reason outside the request, and what a vendor signs is a function of the object that
signs and the digest. -/
structure Quorum (ι τ K D : Type) where
  signer : ι → Pkcs11Signer K D
  token : ι → τ
  hsm : τ → Hsm K D
  functions : ι → VendorFunctions K D
  fingerprint_injective : Function.Injective fun i => (signer i).fingerprint
  faultFree : ∀ t, (hsm t).FaultFree
  computes : ∀ i, (signer i).backend.Computes (hsm (token i)) (functions i)

/-- The tokens, the signers' mutexes and the transaction that is handed round. -/
structure Table (ι τ K T : Type) where
  machine : τ → Machine K
  poisoned : ι → Bool
  transaction : T

namespace Quorum

variable {ι τ T ε α : Type} (quorum : Quorum ι τ K D)

/-- The state a signer's call starts in. -/
def call (i : ι) (table : Table ι τ K T) : SignState K T :=
  ⟨table.machine (quorum.token i), table.poisoned i, table.transaction, []⟩

/-- What a signer's call leaves. -/
def settle [DecidableEq ι] [DecidableEq τ] (i : ι) (s : SignState K T) (table : Table ι τ K T) :
    Table ι τ K T where
  machine := Function.update table.machine (quorum.token i) s.machine
  poisoned := Function.update table.poisoned i s.poisoned
  transaction := s.transaction

/-- One signer's turn: `sign i` is its call. -/
def turn [DecidableEq ι] [DecidableEq τ] (sign : ι → SignM K T ε α) (i : ι) :
    EStateM (Stop ε) (Table ι τ K T) α :=
  onPart (quorum.call i) (quorum.settle i) (sign i)

/-- Turns in order, up to the first call that does not succeed. -/
def turns [DecidableEq ι] [DecidableEq τ] (sign : ι → SignM K T ε α) :
    List ι → EStateM (Stop ε) (Table ι τ K T) Unit
  | [] => pure ()
  | i :: order => do
      let _ ← quorum.turn sign i
      turns sign order

/-- Every signer's key is on its token, and the policy stored for it has no ceiling. -/
structure Seated (serde : Serde) (federation : ι → Object K) (table : Table ι τ K T) : Prop where
  federation : ∀ i, (table.machine (quorum.token i)).object? (quorum.signer i).loaded.privateKey =
    some (federation i)
  unlimited : ∀ i policy, (quorum.signer i).storedPolicy (quorum.hsm (quorum.token i)) serde
    (table.machine (quorum.token i)) = .ok policy → policy.maxSignaturesPerHour = none

/-! ### Turns in general -/

section

variable [DecidableEq ι] [DecidableEq τ] {V : Type} {insert : T → Nat → Insertion K → T}
  (view : EntryView K T V insert) {sign : ι → SignM K T ε α} {able : ι → Prop}
  {writes : ι → List (Nat × Insertion K)} {start : Table ι τ K T}

/-- Between turns the tokens have what they had, the mutexes are as they were, and the transaction is the
same but for signatures. -/
structure Between (start table : Table ι τ K T) : Prop where
  keeps : ∀ t, (start.machine t).Keeps (table.machine t)
  poisoned : table.poisoned = start.poisoned
  unsigned : view.unsigned table.transaction = view.unsigned start.transaction

/-- A call whose outcome and writes are settled at the start: it succeeds exactly when `able` says so, and
then it has written `writes`. -/
def Settled (sign : ι → SignM K T ε α) (able : ι → Prop) (writes : ι → List (Nat × Insertion K))
    (start : Table ι τ K T) : Prop :=
  ∀ i (s : SignState K T), (start.machine (quorum.token i)).Keeps s.machine →
    s.poisoned = start.poisoned i → view.unsigned s.transaction = view.unsigned start.transaction →
    wp (sign i)
      (fun _ s' => able i ∧ ((start.machine (quorum.token i)).Keeps s'.machine ∧
        s'.poisoned = start.poisoned i) ∧ s'.transaction = (writes i).foldl view.put s.transaction)
      (fun _ _ => ¬able i) s

/-- Step: a turn that succeeds writes what was settled. -/
theorem wp_turn (hsettled : quorum.Settled view sign able writes start) (i : ι) {table : Table ι τ K T}
    (h : Between view start table) :
    wp (quorum.turn sign i)
      (fun _ table' => able i ∧ Between view start table' ∧
        table'.transaction = (writes i).foldl view.put table.transaction)
      (fun _ _ => ¬able i) table := by
  rw [turn, wp_onPart]
  refine wp_mono (hsettled i (quorum.call i table) (h.keeps _) (congrFun h.poisoned i) h.unsigned)
    (fun _ s' h' => ?_) (fun _ _ h' => h')
  obtain ⟨hable, ⟨hkeeps, hpoisoned⟩, htransaction⟩ := h'
  refine ⟨hable, ⟨fun t => ?_, ?_, ?_⟩, htransaction⟩
  · by_cases ht : t = quorum.token i
    · subst ht
      simpa only [settle, Function.update_self] using hkeeps
    · simpa only [settle, Function.update_of_ne ht] using h.keeps t
  · simp only [settle, hpoisoned, h.poisoned, Function.update_eq_self]
  · simp only [settle, htransaction, call, view.unsigned_foldl, h.unsigned]

/-- Run: so do turns in any order. -/
theorem wp_turns (hsettled : quorum.Settled view sign able writes start) (order : List ι) :
    ∀ table : Table ι τ K T, Between view start table →
      wp (quorum.turns sign order)
        (fun _ table' => (∀ i ∈ order, able i) ∧
          table'.transaction = (order.flatMap writes).foldl view.put table.transaction)
        (fun _ _ => ∃ i ∈ order, ¬able i) table := by
  induction order with
  | nil => exact fun table _ => ⟨by simp, rfl⟩
  | cons i order ih =>
      intro table h
      rw [turns, wp_bind]
      refine wp_mono (quorum.wp_turn view hsettled i h) (fun _ table' h' => ?_)
        (fun _ _ hunable => ⟨i, List.mem_cons_self, hunable⟩)
      obtain ⟨hable, hbetween, htransaction⟩ := h'
      refine wp_mono (ih table' hbetween) (fun _ table'' h'' => ?_) (fun _ _ hfail => ?_)
      · refine ⟨List.forall_mem_cons.mpr ⟨hable, h''.1⟩, ?_⟩
        rw [h''.2, htransaction, List.flatMap_cons, List.foldl_append]
      · obtain ⟨j, hj, hunable⟩ := hfail
        exact ⟨j, List.mem_cons_of_mem i hj, hunable⟩

omit [DecidableEq ι] [DecidableEq τ] in
/-- Two signers do not write under one key. -/
theorem writer_unique (howner : ∀ i, ∀ w ∈ writes i, ∃ path,
      view.origin start.transaction w.1 w.2.entryKey = some ((quorum.signer i).fingerprint, path))
    {j : Nat} {key : EntryKey} {i i' : ι} {v v' : V} (hi : last (view.hit j key) (writes i) = some v)
    (hi' : last (view.hit j key) (writes i') = some v') : i = i' := by
  have horigin {i : ι} {v : V} (h : last (view.hit j key) (writes i) = some v) :
      ∃ path, view.origin start.transaction j key = some ((quorum.signer i).fingerprint, path) := by
    obtain ⟨w, hw, hhit⟩ := exists_of_last_eq_some h
    obtain ⟨hj, hkey, _⟩ := view.hit_isSome.mp (Option.isSome_of_eq_some hhit)
    rw [← hj, ← hkey]
    exact howner i w hw
  obtain ⟨path, h⟩ := horigin hi
  obtain ⟨path', h'⟩ := horigin hi'
  apply quorum.fingerprint_injective
  exact (Prod.mk.inj (Option.some.inj (h.symm.trans h'))).1

/-- If the turns succeed in one order, then they succeed in every order of the same signers, with any of
them repeated, and the transaction comes out the same. -/
theorem turns_of_settled (hsettled : quorum.Settled view sign able writes start)
    (howner : ∀ i, ∀ w ∈ writes i, ∃ path,
      view.origin start.transaction w.1 w.2.entryKey = some ((quorum.signer i).fingerprint, path))
    {order order' : List ι} (hsame : ∀ i, i ∈ order' ↔ i ∈ order) {table : Table ι τ K T}
    (hrun : (quorum.turns sign order).run start = .ok () table) :
    ∃ table', (quorum.turns sign order').run start = .ok () table' ∧
      table'.transaction = table.transaction := by
  have hstart : Between view start start := ⟨fun t => .refl _, rfl, rfl⟩
  obtain ⟨hable, htransaction⟩ := wp_of_run_ok (quorum.wp_turns view hsettled order start hstart) hrun
  have hturns := quorum.wp_turns view hsettled order' start hstart
  cases hrun' : (quorum.turns sign order').run start with
  | error e table' =>
      obtain ⟨i, hi, hunable⟩ := wp_of_run_error hturns hrun'
      exact absurd (hable i ((hsame i).mp hi)) hunable
  | ok _ table' =>
      obtain ⟨_, htransaction'⟩ := wp_of_run_ok hturns hrun'
      refine ⟨table', rfl, ?_⟩
      rw [htransaction, htransaction']
      apply view.ext
      · rw [view.unsigned_foldl, view.unsigned_foldl]
      · intro j key
        by_cases hj : j < view.size start.transaction
        · rw [view.entry_foldl _ _ hj, view.entry_foldl _ _ hj]
          congr 1
          exact last_flatMap_congr hsame fun i _ i' _ v v' => quorum.writer_unique view howner
        · have hsize (ws : List (Nat × Insertion K)) :
              view.size (ws.foldl view.put start.transaction) ≤ j := by
            rw [← view.size_unsigned, view.unsigned_foldl, view.size_unsigned]
            omega
          rw [view.entry_of_size_le _ _ _ (hsize _), view.entry_of_size_le _ _ _ (hsize _)]

end

/-! ### The two signing calls -/

section

variable (crates : Crates D) (serde : Serde) (elements : ElementsCrate K D X) {federation : ι → Object K}

/-- What a signer's vendor returns for a target. -/
def answer (federation : ι → Object K) (i : ι) : Target D → Option (Signature K) :=
  (quorum.functions i).answer (quorum.signer i).backend (quorum.signer i).label (federation i)

def signPsbt (i : ι) : SignM K (Psbt K) BdkSignerError Unit :=
  (quorum.signer i).signTransaction crates (quorum.hsm (quorum.token i)) serde

def signPset (i : ι) : SignM K (Pset K) PsetError Nat :=
  (quorum.signer i).signPset crates elements (quorum.hsm (quorum.token i)) serde

theorem storedPolicy_of_keeps {i : ι} {m m' : Machine K} (h : m.Keeps m') :
    (quorum.signer i).storedPolicy (quorum.hsm (quorum.token i)) serde m' =
      (quorum.signer i).storedPolicy (quorum.hsm (quorum.token i)) serde m :=
  (quorum.hsm (quorum.token i)).stored_eq_of_dataObjects _ _ h.data _

theorem settled_signPsbt {start : Table ι τ K (Psbt K)} (hseated : quorum.Seated serde federation start) :
    quorum.Settled (psbtView K) (quorum.signPsbt crates serde)
      (fun i => start.poisoned i = false ∧
        (∃ policy, (quorum.signer i).Admits crates (quorum.hsm (quorum.token i)) serde (quorum.call i start) policy) ∧
        Answerable (quorum.answer federation i) ((quorum.signer i).agenda crates start.transaction))
      (fun i => writesOf crates (quorum.answer federation i)
        (granted ((quorum.signer i).agenda crates start.transaction))) start := by
  intro i s hkeeps hpoisoned hunsigned
  have hstored := quorum.storedPolicy_of_keeps serde (i := i) hkeeps
  have hcall := wp_signTransaction_unlimited crates serde (quorum.faultFree _)
    (quorum.computes i) (hseated.federation i) s hkeeps
    (fun policy hpolicy => hseated.unlimited i policy (hstored ▸ hpolicy))
  have hagenda : (quorum.signer i).agenda crates s.transaction =
      (quorum.signer i).agenda crates start.transaction :=
    (quorum.signer i).agenda_congr crates hunsigned
  have htx : s.transaction.unsigned.unsignedTx = start.transaction.unsigned.unsignedTx :=
    congrArg Psbt.unsignedTx hunsigned
  simp only [Psbt.unsigned] at htx
  have hadmits (policy : MinimalHsmPolicy) :
      (quorum.signer i).Admits crates (quorum.hsm (quorum.token i)) serde s policy ↔
        (quorum.signer i).Admits crates (quorum.hsm (quorum.token i)) serde (quorum.call i start) policy := by
    simp only [Pkcs11Signer.Admits, hstored, call, MinimalHsmPolicy.checkAgainstPsbt, htx]
  simp only [hagenda, hpoisoned, hadmits] at hcall
  exact wp_mono hcall (fun _ _ h => ⟨h.1, ⟨h.2.1.1, h.2.1.2.trans h.1.1.symm⟩, h.2.2⟩) (fun _ _ h => h)

theorem settled_signPset (hextract : ∀ pset, elements.extractTx pset.unsigned = elements.extractTx pset)
    {start : Table ι τ K (Pset K)} (hseated : quorum.Seated serde federation start) :
    quorum.Settled (psetView elements) (quorum.signPset crates serde elements)
      (fun i => start.poisoned i = false ∧
        (∃ policy, (quorum.signer i).storedPolicy (quorum.hsm (quorum.token i)) serde
          (start.machine (quorum.token i)) = .ok policy) ∧
        Answerable (quorum.answer federation i) ((quorum.signer i).psetAgenda elements start.transaction))
      (fun i => writesOf crates (quorum.answer federation i)
        (granted ((quorum.signer i).psetAgenda elements start.transaction))) start := by
  intro i s hkeeps hpoisoned hunsigned
  have hstored := quorum.storedPolicy_of_keeps serde (i := i) hkeeps
  have hcall := wp_signPset_unlimited crates serde elements (quorum.faultFree _) (quorum.computes i)
    (hseated.federation i) s hkeeps
    (fun policy hpolicy => hseated.unlimited i policy (hstored ▸ hpolicy))
  have hagenda : (quorum.signer i).psetAgenda elements s.transaction =
      (quorum.signer i).psetAgenda elements start.transaction :=
    (quorum.signer i).psetAgenda_congr elements hextract hunsigned
  simp only [hagenda, hpoisoned, hstored] at hcall
  exact wp_mono hcall (fun _ _ h => ⟨h.1, ⟨h.2.1.1, h.2.1.2.trans h.1.1.symm⟩, h.2.2⟩) (fun _ _ h => h)

theorem exists_target_of_mem_writesOf {answer : Target D → Option (Signature K)} {targets : List (Target D)}
    {w : Nat × Insertion K} (h : w ∈ writesOf crates answer targets) :
    ∃ target ∈ targets, ∃ sig, w = (target.inputIdx, target.insertion crates sig) := by
  obtain ⟨target, htarget, hsome⟩ := List.mem_filterMap.mp h
  obtain ⟨sig, _, rfl⟩ := Option.map_eq_some_iff.mp hsome
  exact ⟨target, htarget, sig, rfl⟩

end

end Quorum

/-- Signers with pairwise different fingerprints and no ceilings: if their calls succeed in one order, then
they succeed in every order of the same signers, with any of them repeated, and the PSBT or PSET comes out
the same. So another call by a signer that has signed changes nothing. -/
theorem turns_order_independent {ι τ : Type} [DecidableEq ι] [DecidableEq τ] (quorum : Quorum ι τ K D)
    (crates : Crates D) (serde : Serde) (elements : ElementsCrate K D X)
    (hextract : ∀ pset, elements.extractTx pset.unsigned = elements.extractTx pset)
    (federation : ι → Object K) {order order' : List ι} (hsame : ∀ i, i ∈ order' ↔ i ∈ order) :
    (∀ start : Table ι τ K (Psbt K), quorum.Seated serde federation start →
      ∀ table, (quorum.turns (quorum.signPsbt crates serde) order).run start = .ok () table →
      ∃ table', (quorum.turns (quorum.signPsbt crates serde) order').run start = .ok () table' ∧
        table'.transaction = table.transaction) ∧
    (∀ start : Table ι τ K (Pset K), quorum.Seated serde federation start →
      ∀ table, (quorum.turns (quorum.signPset crates serde elements) order).run start = .ok () table →
      ∃ table', (quorum.turns (quorum.signPset crates serde elements) order').run start = .ok () table' ∧
        table'.transaction = table.transaction) := by
  refine ⟨fun start hseated table hrun => ?_, fun start hseated table hrun => ?_⟩
  · refine quorum.turns_of_settled _ (quorum.settled_signPsbt crates serde hseated) (fun i w hw => ?_) hsame hrun
    obtain ⟨target, htarget, sig, rfl⟩ := Quorum.exists_target_of_mem_writesOf crates hw
    obtain ⟨path, horigin, _⟩ := Pkcs11Signer.keyOrigin_of_mem_agenda (mem_of_mem_granted htarget)
    rw [← Target.entryKey_insertion crates target sig] at horigin
    exact ⟨path, horigin⟩
  · refine quorum.turns_of_settled _ (quorum.settled_signPset crates serde elements hextract hseated)
      (fun i w hw => ?_) hsame hrun
    obtain ⟨target, htarget, sig, rfl⟩ := Quorum.exists_target_of_mem_writesOf crates hw
    obtain ⟨path, horigin, _⟩ := Pkcs11Signer.keyOrigin_of_mem_psetAgenda (mem_of_mem_granted htarget)
    rw [← Target.entryKey_insertion crates target sig] at horigin
    exact ⟨path, horigin⟩

namespace IdealVendor

/-- The master key on the token with the given seed byte, its fingerprint, and that token. -/
def masterOn (seed : UInt8) : Key := ⟨[seed], []⟩

def fingerprintOn (seed : UInt8) : Fingerprint := crates.fingerprintOf (publicKey (masterOn seed))

def tokenOn (seed : UInt8) : Hsm Key Digest := hsm [seed] (fun _ => none) fun n => n

def machineOn (seed : UInt8) : Machine Key :=
  after (Program.run (tokenOn seed).exec
    (Pkcs11Signer.deriveFromSeed "a" [] .bitcoin (recipe.toHsmBackend crates) [])) .empty

/-- Two signers, each the master of its own token. -/
def seedOf (second : Bool) : UInt8 := if second then 8 else 7

def pair : Quorum Bool Bool Key Digest where
  signer i := .fromLoaded "a" ⟨1⟩
    ⟨.main, 0, List.replicate 4 0, .normal 0, publicKey (masterOn (seedOf i)), List.replicate 32 0⟩
    (fingerprintOn (seedOf i)) [] .bitcoin (recipe.toHsmBackend crates)
  token := id
  hsm t := tokenOn (seedOf t)
  functions i := recipe.functions crates (tokenOn (seedOf i)) schnorr
  fingerprint_injective := by decide
  faultFree := fun _ _ => rfl
  computes := fun i => recipe.toHsmBackend_computes crates (tokenOn (seedOf i)) fun taproot h =>
    Option.some.inj h ▸ taprootSigner_computes _ _ _

/-- An input with origin entries for both. -/
def sharedInput : Input Key :=
  { wshInput [] none with
    bip32Derivation := ((∅ : BTreeMap PublicKey KeySource).insert (publicKey (masterOn 7))
      (fingerprintOn 7, [])).insert (publicKey (masterOn 8)) (fingerprintOn 8, []) }

def table : Table Bool Bool Key (Psbt Key) :=
  ⟨fun t => machineOn (seedOf t), fun _ => false, psbtOf [sharedInput] []⟩

theorem pair_seated : pair.Seated serde
    (fun i => ⟨masterKeyTemplate (privLabel "a"), some (masterOn (seedOf i))⟩) table where
  federation i := by cases i <;> rfl
  unlimited i policy h := by
    have hpermissive : (pair.signer i).storedPolicy (pair.hsm (pair.token i)) serde
        (table.machine (pair.token i)) = .ok .permissive := by cases i <;> rfl
    rw [hpermissive] at h
    rw [← Except.ok.inj h]
    rfl

end IdealVendor

open IdealVendor in
/-- Both sign, the second one twice in the other order. -/
theorem two_signers_in_either_order :
    ∃ first second, (pair.turns (pair.signPsbt crates serde) [false, true]).run table = .ok () first ∧
      (pair.turns (pair.signPsbt crates serde) [true, false, true]).run table = .ok () second ∧
      second.transaction = first.transaction := by
  cases hrun : (pair.turns (pair.signPsbt crates serde) [false, true]).run table with
  | error e left =>
      have hsucceeds : completes ((pair.turns (pair.signPsbt crates serde) [false, true]).run table) = true := by
        decide +kernel
      rw [hrun] at hsucceeds
      cases hsucceeds
  | ok _ first =>
      have hmembers : ∀ i, i ∈ [true, false, true] ↔ i ∈ [false, true] := by decide
      obtain ⟨second, hsecond, hsame⟩ := (turns_order_independent pair crates serde elements (fun _ => rfl) _
        hmembers).1 table pair_seated first hrun
      exact ⟨first, second, rfl, hsecond, hsame⟩

end EmvaultPkcs11
