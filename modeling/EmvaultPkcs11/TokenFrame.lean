import EmvaultPkcs11.Token

/-! What each call leaves alone. `Machine.Keeps` is the relation a well-behaved vendor program stays
within: every object stays under its handle, and the data objects stay exactly as they are. -/

open Effect

namespace EmvaultPkcs11

variable {K D : Type}

namespace Machine

variable (m : Machine K)

/-! ### Objects by handle -/

/-- A handle names one object, so looking it up is finding its entry. -/
theorem object?_eq_some_iff (handle : ObjectHandle) (object : Object K) :
    m.object? handle = some object ↔ (handle, object) ∈ m.objects := by
  have hnodup := m.handles_nodup
  unfold object?
  generalize m.objects = entries at hnodup ⊢
  induction entries with
  | nil => simp
  | cons entry entries ih =>
      obtain ⟨other, o⟩ := entry
      simp only [List.map_cons, List.nodup_cons] at hnodup
      by_cases hother : handle = other
      · subst hother
        have habsent : (handle, object) ∉ entries := fun hmem =>
          hnodup.1 (List.mem_map_of_mem hmem)
        simp [habsent, eq_comm]
      · have hbeq : (handle == other) = false := by simpa using hother
        simp [List.lookup_cons, hbeq, hother, ih hnodup.2]

theorem object?_lt {handle : ObjectHandle} {object : Object K} (h : m.object? handle = some object) :
    handle < m.nextHandle :=
  m.handles_lt _ ((m.object?_eq_some_iff handle object).mp h)

theorem object?_eq_of_objects {m m' : Machine K} (h : m'.objects = m.objects)
    (handle : ObjectHandle) : m'.object? handle = m.object? handle := by
  rw [object?, object?, h]

@[simp] theorem object?_tick (handle : ObjectHandle) : m.tick.object? handle = m.object? handle := rfl

@[simp] theorem objects_tick : m.tick.objects = m.objects := rfl

@[simp] theorem nextHandle_tick : m.tick.nextHandle = m.nextHandle := rfl

@[simp] theorem calls_tick : m.tick.calls = m.calls + 1 := rfl

@[simp] theorem objects_create (object : Object K) :
    (m.create object).objects = m.objects ++ [(m.nextHandle, object)] := rfl

@[simp] theorem nextHandle_create (object : Object K) :
    (m.create object).nextHandle = m.nextHandle + 1 := rfl

@[simp] theorem calls_create (object : Object K) : (m.create object).calls = m.calls := rfl

@[simp] theorem objects_destroy (handle : ObjectHandle) :
    (m.destroy handle).objects = m.objects.filter fun entry => entry.1 != handle := rfl

@[simp] theorem nextHandle_destroy (handle : ObjectHandle) :
    (m.destroy handle).nextHandle = m.nextHandle := rfl

@[simp] theorem calls_destroy (handle : ObjectHandle) : (m.destroy handle).calls = m.calls := rfl

theorem filter_fresh {n : ObjectHandle} (h : m.nextHandle ≤ n) :
    m.objects.filter (fun entry => entry.1 != n) = m.objects := by
  apply List.filter_eq_self.mpr
  intro entry hentry
  have hlt := m.handles_lt entry hentry
  exact bne_iff_ne.mpr (Nat.ne_of_lt (hlt.trans_le h))

/-- An object that was made and destroyed again leaves no trace. -/
theorem objects_destroy_create (object : Object K) :
    ((m.create object).destroy m.nextHandle).objects = m.objects := by
  rw [objects_destroy, objects_create, List.filter_append, m.filter_fresh (Nat.le_refl _)]
  simp

/-- Nor does one that was destroyed after another had been made. -/
theorem objects_destroy_create_create (object object' : Object K) :
    (((m.create object).tick.create object').destroy m.nextHandle).objects =
      m.objects ++ [(m.nextHandle + 1, object')] := by
  rw [objects_destroy, objects_create, objects_tick, objects_create, List.filter_append, List.filter_append,
    m.filter_fresh (Nat.le_refl _)]
  simp

theorem object?_create_self (object : Object K) :
    (m.create object).object? m.nextHandle = some object := by
  rw [object?_eq_some_iff]
  simp

theorem object?_create_of_some (object : Object K) {handle : ObjectHandle} {o : Object K}
    (h : m.object? handle = some o) : (m.create object).object? handle = some o := by
  rw [object?_eq_some_iff] at h ⊢
  simp [h]

theorem object?_of_destroy {handle other : ObjectHandle} {o : Object K}
    (h : (m.destroy handle).object? other = some o) : m.object? other = some o := by
  rw [object?_eq_some_iff] at h ⊢
  exact List.mem_of_mem_filter h

theorem object?_destroy_of_some {handle other : ObjectHandle} {o : Object K}
    (h : m.object? handle = some o) (hne : handle ≠ other) :
    (m.destroy other).object? handle = some o := by
  rw [object?_eq_some_iff] at h ⊢
  simp [h, hne]

/-- The object behind a handle holds the private key `key`. -/
def Holds (handle : ObjectHandle) (key : K) : Prop :=
  ∃ object, m.object? handle = some object ∧ object.key = some key

/-! ### Searches -/

/-- The entries a search finds. -/
def matching (template : List Attribute) : List (ObjectHandle × Object K) :=
  m.objects.filter fun entry => entry.2.matches template

theorem search_eq (template : List Attribute) :
    m.search template = (m.matching template).map Prod.fst := rfl

theorem object?_of_mem_matching {template : List Attribute} {entry : ObjectHandle × Object K}
    (h : entry ∈ m.matching template) : m.object? entry.1 = some entry.2 :=
  (m.object?_eq_some_iff entry.1 entry.2).mpr (List.mem_of_mem_filter h)

theorem matching_nodup (template : List Attribute) :
    ((m.matching template).map Prod.fst).Nodup :=
  m.handles_nodup.sublist (List.filter_sublist.map Prod.fst)

/-- Destroying the first object found leaves the others to be found. -/
theorem matching_destroy_head {template : List Attribute} {entry : ObjectHandle × Object K}
    {rest : List (ObjectHandle × Object K)} (h : m.matching template = entry :: rest) :
    (m.destroy entry.1).matching template = rest := by
  have hnodup := m.matching_nodup template
  have hdestroy : (m.destroy entry.1).matching template =
      (m.matching template).filter fun other => other.1 != entry.1 := by
    simp only [matching, objects_destroy, List.filter_filter, Bool.and_comm]
  rw [h] at hnodup hdestroy
  rw [List.map_cons, List.nodup_cons] at hnodup
  rw [hdestroy, List.filter_cons_of_neg (by simp)]
  refine List.filter_eq_self.mpr fun other hother => ?_
  have hne : other.1 ≠ entry.1 := fun heq => hnodup.1 (heq ▸ List.mem_map_of_mem hother)
  simpa using hne

theorem filter_of_matching_nil {template : List Attribute} (h : m.matching template = []) :
    m.objects.filter (fun entry => !entry.2.matches template) = m.objects := by
  refine List.filter_eq_self.mpr fun entry hentry => ?_
  simpa using List.filter_eq_nil_iff.mp h entry hentry

/-- Destroying an object found leaves the objects that are not found. -/
theorem filter_destroy_of_mem_matching {template : List Attribute} {entry : ObjectHandle × Object K}
    (h : entry ∈ m.matching template) :
    (m.destroy entry.1).objects.filter (fun other => !other.2.matches template) =
      m.objects.filter fun other => !other.2.matches template := by
  rw [objects_destroy, List.filter_filter]
  refine List.filter_congr fun other hother => ?_
  by_cases hmatches : other.2.matches template
  · simp [hmatches]
  · have hne : other.1 ≠ entry.1 := by
      intro heq
      have hobject := m.object?_of_mem_matching h
      rw [← heq, (m.object?_eq_some_iff other.1 other.2).mpr hother] at hobject
      exact hmatches (Option.some.inj hobject ▸ (List.mem_filter.mp h).2)
    simp [hmatches, hne]

/-- The `CKO_DATA` objects, which hold the policies and the counters. -/
def dataObjects : List (ObjectHandle × Object K) :=
  m.objects.filter fun entry => .objectClass .data ∈ entry.2.attributes

/-- A search for data objects sees nothing but data objects. -/
theorem matching_eq_of_dataObjects {m m' : Machine K} (h : m'.dataObjects = m.dataObjects)
    {template : List Attribute} (hdata : .objectClass .data ∈ template) :
    m'.matching template = m.matching template := by
  have key (m : Machine K) : m.matching template =
      m.dataObjects.filter fun entry => entry.2.matches template := by
    unfold matching dataObjects
    rw [List.filter_filter]
    refine List.filter_congr fun entry _ => ?_
    by_cases hmatches : entry.2.matches template
    · have hmem := List.all_eq_true.mp hmatches _ hdata
      simpa [hmatches] using hmem
    · simp [hmatches]
  rw [key m, key m', h]

/-! ### The frame relation -/

structure Keeps (m m' : Machine K) : Prop where
  objects : ∀ handle object, m.object? handle = some object → m'.object? handle = some object
  data : m'.dataObjects = m.dataObjects
  nextHandle : m.nextHandle ≤ m'.nextHandle
  calls : m.calls ≤ m'.calls

namespace Keeps

theorem refl (m : Machine K) : m.Keeps m :=
  ⟨fun _ _ h => h, rfl, Nat.le_refl _, Nat.le_refl _⟩

theorem trans {m m' m'' : Machine K} (h : m.Keeps m') (h' : m'.Keeps m'') : m.Keeps m'' :=
  ⟨fun handle object hobject => h'.objects handle object (h.objects handle object hobject),
    h'.data.trans h.data, h.nextHandle.trans h'.nextHandle, h.calls.trans h'.calls⟩

theorem tick (m : Machine K) : m.Keeps m.tick :=
  ⟨fun _ _ h => h, rfl, Nat.le_refl _, Nat.le_succ _⟩

/-- Destroying an object that was not there at the start, and is not a data object. -/
theorem destroy {m m' : Machine K} (h : m.Keeps m') {handle : ObjectHandle}
    (hfresh : m.nextHandle ≤ handle)
    (hclass : ∀ object, m'.object? handle = some object → .objectClass .data ∉ object.attributes) :
    m.Keeps (m'.destroy handle) where
  objects := fun other object hobject => m'.object?_destroy_of_some (h.objects other object hobject)
    (Nat.ne_of_lt (Nat.lt_of_lt_of_le (m.object?_lt hobject) hfresh))
  data := by
    rw [← h.data]
    simp only [dataObjects, objects_destroy, List.filter_filter]
    refine List.filter_congr fun entry hentry => ?_
    by_cases heq : entry.1 = handle
    · have hobject : m'.object? handle = some entry.2 :=
        (m'.object?_eq_some_iff handle entry.2).mpr (heq ▸ hentry)
      simp [hclass entry.2 hobject]
    · simp [heq]
  nextHandle := h.nextHandle
  calls := h.calls

end Keeps

/-! ### Adding objects -/

/-- `m'` has the objects of `m` and, after them, new ones that all satisfy `p`. -/
structure Adds (p : Object K → Prop) (m m' : Machine K) : Prop where
  objects : ∃ added, m'.objects = m.objects ++ added ∧
    ∀ entry ∈ added, m.nextHandle ≤ entry.1 ∧ p entry.2
  nextHandle : m.nextHandle ≤ m'.nextHandle
  calls : m.calls ≤ m'.calls

namespace Adds

variable {p : Object K → Prop}

theorem refl (m : Machine K) : Adds p m m :=
  ⟨⟨[], by simp, by simp⟩, Nat.le_refl _, Nat.le_refl _⟩

theorem trans {m m' m'' : Machine K} (h : Adds p m m') (h' : Adds p m' m'') : Adds p m m'' := by
  obtain ⟨added, hobjects, hadded⟩ := h.objects
  obtain ⟨added', hobjects', hadded'⟩ := h'.objects
  refine ⟨⟨added ++ added', by rw [hobjects', hobjects, List.append_assoc], fun entry hentry => ?_⟩,
    h.nextHandle.trans h'.nextHandle, h.calls.trans h'.calls⟩
  rcases List.mem_append.mp hentry with hentry | hentry
  · exact hadded entry hentry
  · exact ⟨h.nextHandle.trans (hadded' entry hentry).1, (hadded' entry hentry).2⟩

theorem mono {q : Object K → Prop} {m m' : Machine K} (h : Adds p m m') (hpq : ∀ o, p o → q o) :
    Adds q m m' := by
  obtain ⟨added, hobjects, hadded⟩ := h.objects
  exact ⟨⟨added, hobjects, fun entry hentry => ⟨(hadded entry hentry).1, hpq _ (hadded entry hentry).2⟩⟩,
    h.nextHandle, h.calls⟩

theorem tick (m : Machine K) : Adds p m m.tick :=
  ⟨⟨[], by simp, by simp⟩, Nat.le_refl _, Nat.le_succ _⟩

theorem create (m : Machine K) {object : Object K} (hp : p object) : Adds p m (m.create object) :=
  ⟨⟨[(m.nextHandle, object)], rfl, by simp [hp]⟩, Nat.le_succ _, Nat.le_refl _⟩

/-- Destroying an object that was added. -/
theorem destroy {m m' : Machine K} (h : Adds p m m') {handle : ObjectHandle}
    (hfresh : m.nextHandle ≤ handle) : Adds p m (m'.destroy handle) := by
  obtain ⟨added, hobjects, hadded⟩ := h.objects
  refine ⟨⟨added.filter fun entry => entry.1 != handle, ?_, fun entry hentry =>
    hadded entry (List.mem_of_mem_filter hentry)⟩, h.nextHandle, h.calls⟩
  rw [objects_destroy, hobjects, List.filter_append, List.filter_eq_self.mpr fun entry hentry => ?_]
  have hlt := Nat.lt_of_lt_of_le (m.handles_lt entry hentry) hfresh
  simpa using Nat.ne_of_lt hlt

/-- Selecting objects by a test that none of the added ones passes. -/
theorem filter_objects {m m' : Machine K} (h : Adds p m m') {test : Object K → Bool}
    (hp : ∀ object, p object → test object = false) :
    (m'.objects.filter fun entry => test entry.2) = m.objects.filter fun entry => test entry.2 := by
  obtain ⟨added, hobjects, hadded⟩ := h.objects
  have hnone : (added.filter fun entry => test entry.2) = [] :=
    List.filter_eq_nil_iff.mpr fun entry hentry => by simp [hp _ (hadded entry hentry).2]
  rw [hobjects, List.filter_append, hnone, List.append_nil]

/-- A search that none of the added objects matches finds what it found before. -/
theorem matching {m m' : Machine K} (h : Adds p m m') {template : List Attribute}
    (hp : ∀ object, p object → object.matches template = false) :
    m'.matching template = m.matching template :=
  h.filter_objects hp

theorem keeps {m m' : Machine K} (h : Adds p m m')
    (hp : ∀ object, p object → .objectClass .data ∉ object.attributes) : m.Keeps m' where
  objects := fun handle object hobject => by
    obtain ⟨added, hobjects, _⟩ := h.objects
    rw [object?_eq_some_iff] at hobject ⊢
    rw [hobjects]
    exact List.mem_append_left _ hobject
  data := by
    have hdata := h.filter_objects fun object hobject => decide_eq_false (hp object hobject)
    simpa only [dataObjects] using hdata
  nextHandle := h.nextHandle
  calls := h.calls

end Adds

end Machine

/-! ### One call -/

namespace Hsm

variable (hsm : Hsm K D)

theorem calls_serve (call : Call D) (m : Machine K) : (hsm.serve m call).2.calls = m.calls := by
  cases call <;> simp only [serve] <;> repeat' split
  all_goals rfl

/-- Every call counts as one. -/
theorem calls_exec (call : Call D) (m : Machine K) : (hsm.exec call m).2.calls = m.calls + 1 := by
  unfold exec
  split
  · rfl
  · exact congrArg (· + 1) (hsm.calls_serve call m)

/-- No run of a program makes fewer calls than none. -/
theorem wp_calls_le {ε α : Type} (p : TokenProgram K D ε α) (m : Machine K) :
    wp (Program.run hsm.exec p) (fun _ m' => m.calls ≤ m'.calls) (fun _ m' => m.calls ≤ m'.calls) m :=
  Program.wp_run_rel hsm.exec (R := fun m m' => m.calls ≤ m'.calls) (fun _ => Nat.le_refl _)
    (fun _ _ _ => Nat.le_trans)
    (fun call m => (hsm.calls_exec call m).symm ▸ Nat.le_succ _) p m

end Hsm

/-! ### The calls as programs

Each rule splits on the fault schedule first; a call that is served does what `Hsm.serve` says. -/

namespace Session

variable {ε : Type} (hsm : Hsm K D) (wrap : CryptokiError → ε)

@[simp] theorem wp_orStop {α : Type} (reply : Except CryptokiError α) (Q : α → Machine K → Prop)
    (E : Stop ε → Machine K → Prop) (m : Machine K) :
    wp (Program.run hsm.exec (orStop wrap reply : TokenProgram K D ε α)) Q E m ↔
      (∀ a, reply = .ok a → Q a m) ∧ (∀ e, reply = .error e → E (.err (wrap e)) m) := by
  cases reply <;> simp [orStop]

theorem wp_request {α : Type} (call : Call D) (result : Reply K call → Except CryptokiError α)
    (Q : α → Machine K → Prop) (E : Stop ε → Machine K → Prop) (m : Machine K) :
    wp (Program.run hsm.exec (request wrap call result : TokenProgram K D ε α)) Q E m ↔
      (∀ a, result (hsm.exec call m).1 = .ok a → Q a (hsm.exec call m).2) ∧
      (∀ e, result (hsm.exec call m).1 = .error e → E (.err (wrap e)) (hsm.exec call m).2) :=
  wp_orStop hsm wrap _ Q E _

variable (Q : ObjectHandle → Machine K → Prop) (E : Stop ε → Machine K → Prop) (m : Machine K)

theorem wp_findObjects (template : List Attribute) (Q : List ObjectHandle → Machine K → Prop) :
    wp (Program.run hsm.exec (findObjects wrap template : TokenProgram K D ε _)) Q E m ↔
      (∀ e, hsm.fault m.calls = some e → E (.err (wrap e)) m.tick) ∧
      (hsm.fault m.calls = none → Q (m.search template) m.tick) := by
  simp only [findObjects, wp_request, Hsm.exec]
  cases hsm.fault m.calls <;> simp [Hsm.refuse, Hsm.serve]

theorem wp_createObject (template : List Attribute) :
    wp (Program.run hsm.exec (createObject wrap template : TokenProgram K D ε _)) Q E m ↔
      (∀ e, hsm.fault m.calls = some e → E (.err (wrap e)) m.tick) ∧
      (hsm.fault m.calls = none → Q m.nextHandle (m.create ⟨template, none⟩).tick) := by
  simp only [createObject, wp_request, Hsm.exec]
  cases hsm.fault m.calls <;> simp [Hsm.refuse, Hsm.serve]

theorem wp_getAttributes (handle : ObjectHandle) (types : List AttributeType)
    (Q : List Attribute → Machine K → Prop) :
    wp (Program.run hsm.exec (getAttributes wrap handle types : TokenProgram K D ε _)) Q E m ↔
      (∀ e, hsm.fault m.calls = some e → E (.err (wrap e)) m.tick) ∧
      (hsm.fault m.calls = none → match m.object? handle with
        | none => E (.err (wrap .objectHandleInvalid)) m.tick
        | some object => Q ((hsm.attributesOf object).filter fun a => a.type ∈ types) m.tick) := by
  simp only [getAttributes, wp_request, Hsm.exec]
  cases hsm.fault m.calls <;> cases hobject : m.object? handle <;>
    simp [Hsm.refuse, Hsm.serve, hobject]

theorem wp_destroyObject (handle : ObjectHandle) (Q : Unit → Machine K → Prop) :
    wp (Program.run hsm.exec (destroyObject wrap handle : TokenProgram K D ε _)) Q E m ↔
      (∀ e, hsm.fault m.calls = some e → E (.err (wrap e)) m.tick) ∧
      (hsm.fault m.calls = none → match m.object? handle with
        | none => E (.err (wrap .objectHandleInvalid)) m.tick
        | some _ => Q () (m.destroy handle).tick) := by
  simp only [destroyObject, wp_request, Hsm.exec]
  cases hsm.fault m.calls <;> cases hobject : m.object? handle <;>
    simp [Hsm.refuse, Hsm.serve, hobject, Unique.forall_iff]

/-- Destroying an object with the outcome ignored leaves the token as it was or without the object. -/
theorem wp_tryDestroyObject (handle : ObjectHandle) (Q : Unit → Machine K → Prop)
    (hkept : Q () m.tick)
    (hdestroyed : ∀ object, m.object? handle = some object → Q () (m.destroy handle).tick) :
    wp (Program.run hsm.exec (tryDestroyObject handle : TokenProgram K D ε _)) Q E m := by
  simp only [tryDestroyObject, Program.wp_run_call, Program.wp_run_done, Hsm.exec]
  cases hsm.fault m.calls <;> cases hobject : m.object? handle <;>
    simp_all [Hsm.serve]

/-- A derivation whose result is kept. -/
theorem wp_tryDeriveKey_iff (mechanism : Mechanism) (base : ObjectHandle) (template : List Attribute)
    (Q : Except CryptokiError ObjectHandle → Machine K → Prop) :
    wp (Program.run hsm.exec (tryDeriveKey mechanism base template : TokenProgram K D ε _)) Q E m ↔
      (∀ e, hsm.fault m.calls = some e → Q (.error e) m.tick) ∧
      (hsm.fault m.calls = none → match m.object? base with
        | none => Q (.error .keyHandleInvalid) m.tick
        | some object => match hsm.derive mechanism object with
          | .error e => Q (.error e) m.tick
          | .ok key => Q (.ok m.nextHandle) (m.create ⟨template, some key⟩).tick) := by
  simp only [tryDeriveKey, Program.wp_run_call, Program.wp_run_done, Hsm.exec]
  cases hsm.fault m.calls with
  | some e => simp [Hsm.refuse]
  | none =>
      cases hobject : m.object? base with
      | none => simp [Hsm.serve, hobject]
      | some object => cases hderive : hsm.derive mechanism object <;> simp [Hsm.serve, hobject, hderive]

/-- Destroying a live object by a call that is served. -/
theorem wp_tryDestroyObject_served {handle : ObjectHandle} {object : Object K} {m : Machine K}
    (hserved : hsm.fault m.calls = none) (hobject : m.object? handle = some object)
    (Q : Unit → Machine K → Prop) (E : Stop ε → Machine K → Prop) :
    wp (Program.run hsm.exec (tryDestroyObject handle : TokenProgram K D ε _)) Q E m ↔
      Q () (m.destroy handle).tick := by
  simp only [tryDestroyObject, Program.wp_run_call, Program.wp_run_done, Hsm.exec, hserved, Hsm.serve, hobject]

theorem wp_deriveKey (mechanism : Mechanism) (base : ObjectHandle) (template : List Attribute) :
    wp (Program.run hsm.exec (deriveKey wrap mechanism base template : TokenProgram K D ε _)) Q E m ↔
      (∀ e, hsm.fault m.calls = some e → E (.err (wrap e)) m.tick) ∧
      (hsm.fault m.calls = none → match m.object? base with
        | none => E (.err (wrap .keyHandleInvalid)) m.tick
        | some object => match hsm.derive mechanism object with
          | .error e => E (.err (wrap e)) m.tick
          | .ok key => Q m.nextHandle (m.create ⟨template, some key⟩).tick) := by
  simp only [deriveKey, wp_request, Hsm.exec]
  cases hsm.fault m.calls with
  | some e => simp [Hsm.refuse]
  | none =>
      cases hobject : m.object? base with
      | none => simp [Hsm.serve, hobject]
      | some object =>
          cases hderive : hsm.derive mechanism object <;> simp [Hsm.serve, hobject, hderive]

theorem wp_sign (handle : ObjectHandle) (digest : D) (Q : RawSignature K → Machine K → Prop) :
    wp (Program.run hsm.exec (sign wrap handle digest : TokenProgram K D ε _)) Q E m ↔
      (∀ e, hsm.fault m.calls = some e → E (.err (wrap e)) m.tick) ∧
      (hsm.fault m.calls = none → match m.object? handle with
        | none => E (.err (wrap .keyHandleInvalid)) m.tick
        | some object => match object.key with
          | none => E (.err (wrap .keyHandleInvalid)) m.tick
          | some key => Q ⟨hsm.ecdsa key digest, key⟩ m.tick) := by
  simp only [sign, wp_request, Hsm.exec]
  cases hsm.fault m.calls with
  | some e => simp [Hsm.refuse]
  | none =>
      cases hobject : m.object? handle with
      | none => simp [Hsm.serve, hobject]
      | some object => cases hkey : object.key <;> simp [Hsm.serve, hobject, hkey]

/-- The clock cannot fail. -/
theorem wp_now (Q : Nat → Machine K → Prop) :
    wp (Program.run hsm.exec (now : TokenProgram K D ε _)) Q E m ↔ Q (hsm.clock m.calls) m.tick := by
  simp only [now, Program.wp_run_call, Program.wp_run_done, Hsm.exec]
  cases hsm.fault m.calls <;> simp [Hsm.refuse, Hsm.serve]

end Session

end EmvaultPkcs11
