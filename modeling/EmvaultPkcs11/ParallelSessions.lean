import EmvaultPkcs11.CeremonyReload
import EmvaultPkcs11.LibrarySolo
import EmvaultPkcs11.RecordRace

/-! Several sessions on one token at once. A program that looks only for objects that were there before, makes only
objects nobody looks for, and destroys only what it has made, cannot tell whether it is alone: it makes the calls it
would make alone, with other handles for the objects it has made. -/

open Effect Program

namespace EmvaultPkcs11

variable {K D ε ε' α β ι : Type}

/-! ### Handles of two runs -/

/-- Which handle of a session's lone run stands for which handle on the shared token. -/
abbrev Pairing := ObjectHandle → ObjectHandle → Prop

/-- The templates the crate searches with for keys and records. -/
def Searched (template : List Attribute) : Prop :=
  (∃ label, template = keyQuery label) ∨ ∃ objectLabel, template = recordQuery objectLabel

/-- An object with these attributes is found by none of these searches. -/
def Overlooked (attributes : List Attribute) : Prop :=
  ∀ template, Searched template → ∃ wanted ∈ template, wanted ∉ attributes

theorem Overlooked.not_matches {object : Object K} (h : Overlooked object.attributes) {template : List Attribute}
    (hsearched : Searched template) : object.matches template = false := by
  obtain ⟨wanted, hwanted, habsent⟩ := h template hsearched
  rw [Object.matches, List.all_eq_false]
  exact ⟨wanted, hwanted, by simpa using habsent⟩

namespace Pairing

variable (base : ObjectHandle) (ρ : Pairing)

/-- Handles below `base` stand for themselves, and no handle stands for two. -/
structure Proper : Prop where
  old : ∀ handle < base, ρ handle handle
  new : ∀ {handle handle'}, ρ handle handle' → base ≤ handle → base ≤ handle'
  unique : ∀ {handle handle' other other'}, ρ handle handle' → ρ other other' →
    (handle = other ↔ handle' = other')

/-- The same call, with the handles of either run. -/
inductive SameCall : Call D → Call D → Prop
  | findObjects (template : List Attribute) (h : Searched template) :
      SameCall (.findObjects template) (.findObjects template)
  | getAttributes {handle handle' : ObjectHandle} (types : List AttributeType) (h : ρ handle handle') :
      SameCall (.getAttributes handle types) (.getAttributes handle' types)
  | destroyObject {handle handle' : ObjectHandle} (h : ρ handle handle') (hown : base ≤ handle) :
      SameCall (.destroyObject handle) (.destroyObject handle')
  | createObject (template : List Attribute) (h : Overlooked template) :
      SameCall (.createObject template) (.createObject template)
  | deriveKey {key key' : ObjectHandle} (mechanism : Mechanism) (template : List Attribute) (h : ρ key key')
      (hoverlooked : Overlooked template) :
      SameCall (.deriveKey mechanism key template) (.deriveKey mechanism key' template)
  | sign {key key' : ObjectHandle} (digest : D) (h : ρ key key') : SameCall (.sign key digest) (.sign key' digest)

/-- The same result, with a new handle of either run. -/
def SameHandle : Except CryptokiError ObjectHandle → Except CryptokiError ObjectHandle → Prop
  | .ok handle, .ok handle' => ρ handle handle' ∧ base ≤ handle
  | .error e, .error e' => e' = e
  | _, _ => False

/-- The same answer to the same call. -/
def SameReply : (call call' : Call D) → Reply K call → Reply K call' → Prop
  | .findObjects _, .findObjects _, reply, reply' =>
      reply' = reply ∧ ∀ handles, reply = .ok handles → ∀ handle ∈ handles, ρ handle handle
  | .getAttributes _ _, .getAttributes _ _, reply, reply' => reply' = reply
  | .destroyObject _, .destroyObject _, reply, reply' => reply' = reply
  | .createObject _, .createObject _, reply, reply' => ρ.SameHandle base reply reply'
  | .deriveKey _ _ _, .deriveKey _ _ _, reply, reply' => ρ.SameHandle base reply reply'
  | .sign _ _, .sign _ _, reply, reply' => reply' = reply
  | _, _, _, _ => False

/-- One more pair. -/
def add (handle handle' : ObjectHandle) : Pairing := fun other other' =>
  ρ other other' ∨ (other = handle ∧ other' = handle')

variable {base} {ρ}

theorem le_add (handle handle' : ObjectHandle) : ρ ≤ ρ.add handle handle' := fun _ _ h => Or.inl h

/-- A pair of handles that are both fresh can be added. -/
theorem Proper.add (h : ρ.Proper base) {next next' : ObjectHandle} (hnext : base ≤ next) (hnext' : base ≤ next')
    (hfresh : ∀ {handle handle'}, ρ handle handle' → handle < next ∧ handle' < next') :
    (ρ.add next next').Proper base where
  old handle hold := Or.inl (h.old handle hold)
  new := by
    rintro handle handle' (hpair | ⟨rfl, rfl⟩) hown
    · exact h.new hpair hown
    · exact hnext'
  unique := by
    rintro handle handle' other other' (hpair | ⟨rfl, rfl⟩) (hpair' | ⟨rfl, rfl⟩)
    · exact h.unique hpair hpair'
    · exact iff_of_false (hfresh hpair).1.ne (hfresh hpair).2.ne
    · exact iff_of_false (hfresh hpair').1.ne' (hfresh hpair').2.ne'
    · exact iff_of_true rfl rfl

/-- At the start, the objects that are there stand for themselves. -/
def start (base : ObjectHandle) : Pairing := fun handle handle' => handle < base ∧ handle' = handle

theorem proper_start (base : ObjectHandle) : (start base).Proper base where
  old handle hold := ⟨hold, rfl⟩
  new := by
    rintro handle handle' ⟨_, rfl⟩ hown
    exact hown
  unique := by
    rintro handle handle' other other' ⟨_, rfl⟩ ⟨_, rfl⟩
    exact Iff.rfl

end Pairing

/-! ### Programs -/

/-- The thread does what the program does from `m` alone: the same calls, as long as they get the same answers, and
the same end. -/
def Follows (hsm : Hsm K D) (base : ObjectHandle) (R : Pairing → α → α → Prop) :
    Pairing → TokenProgram K D ε α → Machine K → TokenProgram K D ε α → Prop
  | ρ, .done a, _, thread => ∃ a', thread = .done a' ∧ R ρ a a'
  | _, .stop e, _, thread => thread = .stop e
  | ρ, .call c next, m, thread => ∃ c' next', thread = .call c' next' ∧ ρ.SameCall base c c' ∧
      ∀ (ρ' : Pairing) reply', ρ'.Proper base → ρ ≤ ρ' → ρ'.SameReply base c c' (hsm.exec c m).1 reply' →
        Follows hsm base R ρ' (next (hsm.exec c m).1) (hsm.exec c m).2 (next' reply')

/-- The same value in both runs. -/
abbrev Same : Pairing → α → α → Prop := fun _ a a' => a' = a

section

variable {hsm : Hsm K D} {base : ObjectHandle} {R R' : Pairing → α → α → Prop} {ρ : Pairing}

@[simp] theorem follows_done (a a' : α) (m : Machine K) :
    Follows hsm base R ρ (.done a : TokenProgram K D ε α) m (.done a') ↔ R ρ a a' := by
  simp [Follows]

@[simp] theorem follows_stop (e e' : Stop ε) (m : Machine K) :
    Follows hsm base R ρ (.stop e : TokenProgram K D ε α) m (.stop e') ↔ e' = e := by
  simp [Follows]

/-- Sequencing: what comes next follows from where the first part ends. -/
theorem Follows.bind {S : Pairing → β → β → Prop} {p : TokenProgram K D ε α} {f f' : α → TokenProgram K D ε β} :
    ∀ {ρ : Pairing} {m : Machine K} {thread : TokenProgram K D ε α}, ρ.Proper base →
      Follows hsm base R ρ p m thread →
      (∀ (ρ' : Pairing) a a' m', ρ'.Proper base → ρ ≤ ρ' → R ρ' a a' → Follows hsm base S ρ' (f a) m' (f' a')) →
      Follows hsm base S ρ (p >>= f) m (thread >>= f') := by
  induction p with
  | done a =>
      intro ρ m thread hproper h hf
      obtain ⟨a', rfl, hR⟩ := h
      exact hf ρ a a' m hproper le_rfl hR
  | stop e =>
      intro ρ m thread hproper h hf
      obtain rfl : thread = .stop e := h
      exact (follows_stop e e m).mpr rfl
  | call c next ih =>
      intro ρ m thread hproper h hf
      obtain ⟨c', next', rfl, hcall, hnext⟩ := h
      refine ⟨c', fun reply => next' reply >>= f', rfl, hcall, fun ρ' reply' hproper' hle hreply => ?_⟩
      exact ih _ hproper' (hnext ρ' reply' hproper' hle hreply) fun ρ'' a a' m' hproper'' hle' hR =>
        hf ρ'' a a' m' hproper'' (hle.trans hle') hR

theorem Follows.mapError (g : ε → ε') {p : TokenProgram K D ε α} :
    ∀ {ρ : Pairing} {m : Machine K} {thread : TokenProgram K D ε α}, Follows hsm base R ρ p m thread →
      Follows hsm base R ρ (p.mapError (Stop.map g)) m (thread.mapError (Stop.map g)) := by
  induction p with
  | done a =>
      intro ρ m thread h
      obtain ⟨a', rfl, hR⟩ := h
      exact (follows_done a a' m).mpr hR
  | stop e =>
      intro ρ m thread h
      obtain rfl : thread = .stop e := h
      exact (follows_stop _ _ m).mpr rfl
  | call c next ih =>
      intro ρ m thread h
      obtain ⟨c', next', rfl, hcall, hnext⟩ := h
      exact ⟨c', fun reply => (next' reply).mapError (Stop.map g), rfl, hcall, fun ρ' reply' hproper' hle hreply =>
        ih _ (hnext ρ' reply' hproper' hle hreply)⟩

theorem Follows.mono {p : TokenProgram K D ε α} (hR : ∀ ρ a a', R ρ a a' → R' ρ a a') :
    ∀ {ρ : Pairing} {m : Machine K} {thread : TokenProgram K D ε α}, Follows hsm base R ρ p m thread →
      Follows hsm base R' ρ p m thread := by
  induction p with
  | done a =>
      intro ρ m thread h
      obtain ⟨a', rfl, h⟩ := h
      exact (follows_done a a' m).mpr (hR ρ a a' h)
  | stop e => exact fun h => h
  | call c next ih =>
      intro ρ m thread h
      obtain ⟨c', next', rfl, hcall, hnext⟩ := h
      exact ⟨c', next', rfl, hcall, fun ρ' reply' hproper' hle hreply => ih _ (hnext ρ' reply' hproper' hle hreply)⟩

/-- What the lone run says of its end can be added. -/
theorem Follows.and_wp {Q : α → Machine K → Prop} {E : Stop ε → Machine K → Prop} {p : TokenProgram K D ε α} :
    ∀ {ρ : Pairing} {m : Machine K} {thread : TokenProgram K D ε α}, Follows hsm base R ρ p m thread →
      wp (Program.run hsm.exec p) Q E m →
      Follows hsm base (fun ρ a a' => R ρ a a' ∧ ∃ m', Q a m') ρ p m thread := by
  induction p with
  | done a =>
      intro ρ m thread h hwp
      obtain ⟨a', rfl, h⟩ := h
      exact (follows_done a a' m).mpr ⟨h, m, hwp⟩
  | stop e => exact fun h _ => h
  | call c next ih =>
      intro ρ m thread h hwp
      obtain ⟨c', next', rfl, hcall, hnext⟩ := h
      exact ⟨c', next', rfl, hcall, fun ρ' reply' hproper' hle hreply =>
        ih _ (hnext ρ' reply' hproper' hle hreply) hwp⟩

end

/-! ### Tokens -/

theorem Machine.object?_create (m : Machine K) (object : Object K) (handle : ObjectHandle) :
    (m.create object).object? handle = if handle = m.nextHandle then some object else m.object? handle := by
  split
  next h => rw [h, m.object?_create_self]
  next h =>
    ext o
    rw [Machine.object?_eq_some_iff, Machine.object?_eq_some_iff, Machine.objects_create]
    simp [h]

theorem Machine.object?_destroy (m : Machine K) (handle other : ObjectHandle) :
    (m.destroy handle).object? other = if other = handle then none else m.object? other := by
  ext o
  rw [Machine.object?_eq_some_iff, Machine.objects_destroy, List.mem_filter, ← Machine.object?_eq_some_iff]
  split
  next h => simp [h]
  next h => simp [h]

/-- A search for keys or records sees none of what has been added. -/
theorem Machine.Adds.search {m m' : Machine K} (h : Machine.Adds (fun object => Overlooked object.attributes) m m')
    {template : List Attribute} (hsearched : Searched template) : m'.search template = m.search template := by
  rw [Machine.search_eq, Machine.search_eq, h.matching fun _ hobject => hobject.not_matches hsearched]

/-- A token of its own and the shared token, as a session sees them since `start`. -/
structure Sees (start : Machine K) (ρ : Pairing) (own device : Machine K) : Prop where
  proper : ρ.Proper start.nextHandle
  ownGrew : Machine.Adds (fun object => Overlooked object.attributes) start own
  deviceGrew : Machine.Adds (fun object => Overlooked object.attributes) start device
  live : ∀ {handle handle'}, ρ handle handle' →
    handle < own.nextHandle ∧ handle' < device.nextHandle ∧ device.object? handle' = own.object? handle

/-- What two sessions have made is behind different handles of the shared token. -/
def Pairing.Apart (base : ObjectHandle) (ρ ρ' : Pairing) : Prop :=
  ∀ ⦃handle shared handle' shared'⦄, ρ handle shared → ρ' handle' shared' → base ≤ shared → base ≤ shared' →
    shared ≠ shared'

namespace Sees

variable {start own device : Machine K} {ρ : Pairing}

theorem refl (start : Machine K) : Sees start (.start start.nextHandle) start start where
  proper := Pairing.proper_start _
  ownGrew := .refl start
  deviceGrew := .refl start
  live := by
    rintro handle handle' ⟨hold, rfl⟩
    exact ⟨hold, hold, rfl⟩

theorem tick (h : Sees start ρ own device) : Sees start ρ own.tick device.tick where
  proper := h.proper
  ownGrew := h.ownGrew.trans (.tick own)
  deviceGrew := h.deviceGrew.trans (.tick device)
  live := h.live

/-- Both runs make an object. -/
theorem create (h : Sees start ρ own device) {object : Object K} (hobject : Overlooked object.attributes) :
    Sees start (ρ.add own.nextHandle device.nextHandle) (own.create object) (device.create object) where
  proper := h.proper.add h.ownGrew.nextHandle h.deviceGrew.nextHandle fun hpair =>
    ⟨(h.live hpair).1, (h.live hpair).2.1⟩
  ownGrew := h.ownGrew.trans (.create own hobject)
  deviceGrew := h.deviceGrew.trans (.create device hobject)
  live := by
    rintro handle handle' (hpair | ⟨rfl, rfl⟩)
    · obtain ⟨hlt, hlt', hsame⟩ := h.live hpair
      refine ⟨Nat.lt_succ_of_lt hlt, Nat.lt_succ_of_lt hlt', ?_⟩
      rw [Machine.object?_create, Machine.object?_create, if_neg hlt.ne, if_neg hlt'.ne, hsame]
    · refine ⟨Nat.lt_succ_self _, Nat.lt_succ_self _, ?_⟩
      rw [Machine.object?_create_self, Machine.object?_create_self]

/-- Both runs destroy an object they have made. -/
theorem destroy (h : Sees start ρ own device) {handle handle' : ObjectHandle} (hpair : ρ handle handle')
    (hown : start.nextHandle ≤ handle) : Sees start ρ (own.destroy handle) (device.destroy handle') where
  proper := h.proper
  ownGrew := h.ownGrew.destroy hown
  deviceGrew := h.deviceGrew.destroy (h.proper.new hpair hown)
  live := by
    intro other other' hother
    obtain ⟨hlt, hlt', hsame⟩ := h.live hother
    refine ⟨hlt, hlt', ?_⟩
    rw [Machine.object?_destroy, Machine.object?_destroy, hsame]
    simp only [h.proper.unique hother hpair]

/-- Another session makes an object. -/
theorem other_create (h : Sees start ρ own device) {object : Object K} (hobject : Overlooked object.attributes) :
    Sees start ρ own (device.create object) where
  proper := h.proper
  ownGrew := h.ownGrew
  deviceGrew := h.deviceGrew.trans (.create device hobject)
  live := by
    intro handle handle' hpair
    obtain ⟨hlt, hlt', hsame⟩ := h.live hpair
    refine ⟨hlt, Nat.lt_succ_of_lt hlt', ?_⟩
    rw [Machine.object?_create, if_neg hlt'.ne, hsame]

/-- Another session destroys an object it has made. -/
theorem other_destroy (h : Sees start ρ own device) {ρ' : Pairing} (hapart : ρ.Apart start.nextHandle ρ')
    {handle shared : ObjectHandle} (hpair : ρ' handle shared) (hshared : start.nextHandle ≤ shared) :
    Sees start ρ own (device.destroy shared) where
  proper := h.proper
  ownGrew := h.ownGrew
  deviceGrew := h.deviceGrew.destroy hshared
  live := by
    intro other other' hother
    obtain ⟨hlt, hlt', hsame⟩ := h.live hother
    refine ⟨hlt, hlt', ?_⟩
    rw [Machine.object?_destroy, if_neg, hsame]
    rintro rfl
    exact hapart hother hpair hshared hshared rfl

theorem other_tick (h : Sees start ρ own device) : Sees start ρ own device.tick where
  proper := h.proper
  ownGrew := h.ownGrew
  deviceGrew := h.deviceGrew.trans (.tick device)
  live := h.live

end Sees

/-! ### A turn -/

section

variable {hsm : Hsm K D} {start own device : Machine K} {ρ : Pairing}

/-- The same call of both runs gets the same answer, and what is new in either run is a pair. -/
theorem Sees.serve (h : Sees start ρ own device) {c c' : Call D} (hcall : ρ.SameCall start.nextHandle c c') :
    ∃ ρ' : Pairing, ρ ≤ ρ' ∧ Sees start ρ' (hsm.serve own c).2 (hsm.serve device c').2 ∧
      ρ'.SameReply start.nextHandle c c' (hsm.serve own c).1 (hsm.serve device c').1 ∧
      ∀ handle shared, ρ' handle shared → ρ handle shared ∨ shared = device.nextHandle := by
  have hsame : ∀ handle shared, ρ handle shared → ρ handle shared ∨ shared = device.nextHandle :=
    fun _ _ hpair => Or.inl hpair
  cases hcall with
  | findObjects template hsearched =>
      refine ⟨ρ, le_rfl, h, ⟨?_, fun handles hhandles handle hhandle => ?_⟩, hsame⟩
      · rw [Hsm.serve, Hsm.serve, h.deviceGrew.search hsearched, h.ownGrew.search hsearched]
      · obtain rfl := Except.ok.inj hhandles
        rw [h.ownGrew.search hsearched, Machine.search_eq] at hhandle
        obtain ⟨entry, hentry, rfl⟩ := List.mem_map.mp hhandle
        exact h.proper.old _ (start.handles_lt entry (List.mem_of_mem_filter hentry))
  | getAttributes types hpair =>
      refine ⟨ρ, le_rfl, ?_, ?_, hsame⟩
      · simp only [Hsm.serve, (h.live hpair).2.2]
        split <;> exact h
      · simp only [Hsm.serve, (h.live hpair).2.2, Pairing.SameReply]
        split <;> rfl
  | destroyObject hpair hown =>
      refine ⟨ρ, le_rfl, ?_, ?_, hsame⟩
      · simp only [Hsm.serve, (h.live hpair).2.2]
        split
        · exact h
        · exact h.destroy hpair hown
      · simp only [Hsm.serve, (h.live hpair).2.2, Pairing.SameReply]
        split <;> rfl
  | createObject template hoverlooked =>
      refine ⟨ρ.add own.nextHandle device.nextHandle, Pairing.le_add _ _, h.create hoverlooked,
        ⟨Or.inr ⟨rfl, rfl⟩, h.ownGrew.nextHandle⟩, ?_⟩
      rintro handle shared (hpair | ⟨_, rfl⟩)
      · exact Or.inl hpair
      · exact Or.inr rfl
  | deriveKey mechanism template hpair hoverlooked =>
      simp only [Hsm.serve, (h.live hpair).2.2]
      split
      · exact ⟨ρ, le_rfl, h, rfl, hsame⟩
      next object _ =>
        cases hsm.derive mechanism object with
        | error e => exact ⟨ρ, le_rfl, h, rfl, hsame⟩
        | ok secret =>
            refine ⟨ρ.add own.nextHandle device.nextHandle, Pairing.le_add _ _, h.create hoverlooked,
              ⟨Or.inr ⟨rfl, rfl⟩, h.ownGrew.nextHandle⟩, ?_⟩
            rintro handle shared (hpair' | ⟨_, rfl⟩)
            · exact Or.inl hpair'
            · exact Or.inr rfl
  | sign digest hpair =>
      simp only [Hsm.serve, (h.live hpair).2.2]
      split
      · exact ⟨ρ, le_rfl, h, rfl, hsame⟩
      next object _ =>
        cases object.key with
        | none => exact ⟨ρ, le_rfl, h, rfl, hsame⟩
        | some key => exact ⟨ρ, le_rfl, h, rfl, hsame⟩

/-- A session whose handles are apart does not see the call. -/
theorem Sees.other_serve {v : Pairing} {other : Machine K} (h : Sees start v other device)
    (hcaller : Sees start ρ own device) (hapart : v.Apart start.nextHandle ρ) {c c' : Call D}
    (hcall : ρ.SameCall start.nextHandle c c') : Sees start v other (hsm.serve device c').2 := by
  cases hcall with
  | findObjects template hsearched => exact h
  | getAttributes types hpair =>
      simp only [Hsm.serve]
      split <;> exact h
  | destroyObject hpair hown =>
      simp only [Hsm.serve]
      split
      · exact h
      · exact h.other_destroy hapart hpair (hcaller.proper.new hpair hown)
  | createObject template hoverlooked => exact h.other_create hoverlooked
  | deriveKey mechanism template hpair hoverlooked =>
      simp only [Hsm.serve]
      split
      · exact h
      next object _ =>
        cases hsm.derive mechanism object with
        | error e => exact h
        | ok secret => exact h.other_create hoverlooked
  | sign digest hpair =>
      simp only [Hsm.serve]
      split
      · exact h
      next object _ => cases object.key <;> exact h

/-- Views that were apart stay apart when one of them is extended by the next handle. -/
theorem Pairing.Apart.extend {v ρ' : Pairing} {other : Machine K} (h : Sees start v other device)
    (hapart : v.Apart start.nextHandle ρ)
    (hnew : ∀ handle shared, ρ' handle shared → ρ handle shared ∨ shared = device.nextHandle) :
    v.Apart start.nextHandle ρ' := by
  intro handle shared handle' shared' hpair hpair' hown hown'
  obtain hold | rfl := hnew _ _ hpair'
  · exact hapart hpair hold hown hown'
  · exact (h.live hpair).2.1.ne

theorem Pairing.Apart.symm {base : ObjectHandle} {v w : Pairing} (h : v.Apart base w) : w.Apart base v :=
  fun _ _ _ _ hpair hpair' hown hown' => (h hpair' hpair hown' hown).symm

end

/-! ### Any schedule -/

/-- The coupling of a session's lone run and its thread. -/
def sessionCoupling (hsm : Hsm K D) (hfree : hsm.FaultFree) (start : Machine K) (R : Pairing → α → α → Prop) :
    Coupling (I := Session K D) hsm.exec (Stop ε) α Pairing where
  couples ρ rest own thread device := Sees start ρ own device ∧ Follows hsm start.nextHandle R ρ rest own thread
  apart ρ ρ' := ρ.Apart start.nextHandle ρ'
  turn := by
    rintro ρ c next own thread device ⟨hsees, c', next', rfl, hcall, hnext⟩
    obtain ⟨ρ', hle, hsees', hreply, hnew⟩ := hsees.serve hcall
    simp only [exec_of_faultFree hfree] at hnext ⊢
    refine ⟨c', next', ρ', rfl, ⟨hsees'.tick, hnext ρ' _ hsees'.proper hle hreply⟩, ?_⟩
    rintro v rest own' thread' hapart _ ⟨hother, hfollows⟩
    have hapart' : v.Apart start.nextHandle ρ' := hapart.extend hother hnew
    exact ⟨hapart', hapart'.symm, (hother.other_serve hsees hapart hcall).other_tick, hfollows⟩
  ended := by
    rintro ρ rest own thread device ⟨_, hfollows⟩ hended
    cases rest with
    | done a =>
        obtain ⟨a', rfl, _⟩ := hfollows
        trivial
    | stop e =>
        obtain rfl : thread = .stop e := hfollows
        trivial
    | call c next => exact hended.elim

variable [DecidableEq ι] {hsm : Hsm K D} {start : Machine K} {R : Pairing → α → α → Prop}
  {programs : ι → TokenProgram K D ε α}

/-- Sessions whose programs follow themselves, from a token that answers its calls: in every interleaving, each ends
as it would end alone, when it has had as many turns as it makes calls alone, and what they have made is behind
different handles. -/
theorem sessions_end_alone (hfree : hsm.FaultFree)
    (hfollows : ∀ i, Follows hsm start.nextHandle R (.start start.nextHandle) (programs i) start (programs i))
    (schedule : List ι) :
    let s := Race.run hsm.exec ⟨start, programs⟩ schedule
    ∃ views : ι → Pairing, (∀ i j, i ≠ j → (views i).Apart start.nextHandle (views j)) ∧ ∀ i,
      (Program.turns hsm.exec (programs i) start ≤ schedule.count i → (s.threads i).Ended) ∧
      (∀ a', s.threads i = .done a' → ∃ a own, (Program.run hsm.exec (programs i)).run start = .ok a own ∧
        R (views i) a a' ∧ Sees start (views i) own s.device) ∧
      ∀ e, s.threads i = .stop e → ∃ own, (Program.run hsm.exec (programs i)).run start = .error e own := by
  intro s
  have hstart : (sessionCoupling hsm hfree start R).Holds programs start (fun _ => 0) ⟨start, programs⟩ := by
    refine ⟨fun _ => .start start.nextHandle, fun i => ⟨programs i, start, rfl, rfl, .refl start, hfollows i⟩, ?_⟩
    rintro i j _ handle shared handle' shared' ⟨hold, rfl⟩ _ hown _
    exact (Nat.not_lt.mpr hown hold).elim
  obtain ⟨views, hstands, hapart⟩ := hstart.run schedule
  refine ⟨views, hapart, fun i => ?_⟩
  obtain ⟨rest, own, hrun, hturns, hcouples⟩ := hstands i
  obtain ⟨hsees, hrest⟩ := hcouples
  refine ⟨fun henough => ?_, fun a' hdone => ?_, fun e hstop => ?_⟩
  · simp only [Nat.zero_add] at hturns
    have hzero : Program.turns hsm.exec rest own = 0 := by omega
    exact (sessionCoupling hsm hfree start R).ended ⟨hsees, hrest⟩ (ended_of_turns hzero)
  · cases rest with
    | done a =>
        obtain ⟨a'', hthread, hR⟩ := hrest
        obtain rfl : a'' = a' := Program.done.inj (hthread.symm.trans hdone)
        exact ⟨a, own, hrun.symm, hR, hsees⟩
    | stop e => cases (show s.threads i = .stop e from hrest).symm.trans hdone
    | call c next =>
        obtain ⟨c', next', hthread, _⟩ := hrest
        cases hthread.symm.trans hdone
  · cases rest with
    | done a =>
        obtain ⟨a'', hthread, _⟩ := hrest
        cases hthread.symm.trans hstop
    | stop e' =>
        obtain rfl : e' = e := Program.stop.inj ((show s.threads i = .stop e' from hrest).symm.trans hstop)
        exact ⟨own, hrun.symm⟩
    | call c next =>
        obtain ⟨c', next', hthread, _⟩ := hrest
        cases hthread.symm.trans hstop

end EmvaultPkcs11
