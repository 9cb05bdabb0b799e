import EmvaultPkcs11.FleetKeys
import EmvaultPkcs11.FleetValidation
import EmvaultPkcs11.LibraryFootprint

/-! Building the signers of a fleet whose members are on different tokens. What opening a session and a key
ceremony read and write is on the member's own token: whether the user is logged in there, and the objects. So a
member is built as it would be alone, and the order of the members does not matter. -/

open Effect

namespace EmvaultPkcs11

variable {K D : Type}

/-- What the world holds about a token. -/
def World.part (token : TokenId) (w : World K) : Machine K × Bool := (w.machines token, w.loggedIn token)

theorem World.ext_part {w w' : World K} (h : ∀ token, World.part token w = World.part token w') : w = w' := by
  obtain ⟨machines, loggedIn⟩ := w
  obtain ⟨machines', loggedIn'⟩ := w'
  have hmachines : machines = machines' := by
    funext token
    exact congrArg Prod.fst (h token)
  have hlogin : loggedIn = loggedIn' := by
    funext token
    exact congrArg Prod.snd (h token)
  rw [hmachines, hlogin]

/-- The token a configuration leads to, if it leads to one. -/
def tokenOf (libraries : Libraries) (cfg : Pkcs11Config) (ident : SlotIdentifier) : Set TokenId :=
  {token | ∃ slot, locate libraries cfg ident = .ok slot ∧ slot.token = token}

/-! ### Closing sessions -/

theorem Machine.filter_eq_self {m : Machine K} {keep : ObjectHandle × Object K → Bool}
    (h : ∀ entry ∈ m.objects, keep entry = true) : m.filter keep = m :=
  Machine.ext (List.filter_eq_self.mpr h) rfl rfl

/-- Closing the sessions opened since then leaves a token alone on which nothing has happened since then. -/
theorem World.part_closeSince_of_same {w w' : World K} {token : TokenId}
    (hsame : World.part token w' = World.part token w) : World.part token (w.closeSince w') = World.part token w := by
  have hmachine : w'.machines token = w.machines token := congrArg Prod.fst hsame
  refine Prod.ext (Eq.trans (Machine.filter_eq_self fun entry hentry => ?_) hmachine) rfl
  rw [hmachine] at hentry
  simp [(w.machines token).handles_lt entry hentry]

/-- What closing leaves of a token follows from what there was of it before and after. -/
theorem World.part_closeSince_congr {w₀ w₀' w w' : World K} {token : TokenId}
    (hbefore : World.part token w₀ = World.part token w₀') (hafter : World.part token w = World.part token w') :
    World.part token (w₀.closeSince w) = World.part token (w₀'.closeSince w') := by
  have hmachine₀ : w₀.machines token = w₀'.machines token := congrArg Prod.fst hbefore
  have hmachine : w.machines token = w'.machines token := congrArg Prod.fst hafter
  have hlogin : w₀.loggedIn token = w₀'.loggedIn token := congrArg Prod.snd hbefore
  simp only [World.part, World.closeSince, hmachine₀, hmachine, hlogin]

section

variable {ε α : Type} {x : EStateM ε (World K) α} {w : World K}

theorem outcome_closingOnError : outcome (closingOnError x) w = outcome x w := by
  unfold outcome closingOnError
  simp only [EStateM.run]
  cases x w <;> rfl

theorem after_closingOnError_of_ok {a : α} (h : outcome x w = .ok a) :
    after (closingOnError x) w = after x w := by
  have hrun : closingOnError x w = .ok a (after x w) := by
    rw [closingOnError, run_of_outcome_ok h]
  rw [after, EStateM.run, hrun]

theorem after_closingOnError_of_error {e : ε} (h : outcome x w = .error e) :
    after (closingOnError x) w = w.closeSince (after x w) := by
  have hrun : closingOnError x w = .error e (w.closeSince (after x w)) := by
    rw [closingOnError, run_of_outcome_error h]
  rw [after, EStateM.run, hrun]

theorem within_closingOnError {F : Set TokenId} (hx : Within World.part F x) :
    Within World.part F (closingOnError x) where
  writes w token htoken := by
    cases houtcome : outcome x w with
    | ok a => rw [after_closingOnError_of_ok houtcome, hx.writes w token htoken]
    | error e =>
        rw [after_closingOnError_of_error houtcome]
        exact World.part_closeSince_of_same (hx.writes w token htoken)
  reads w w' hsame := by
    obtain ⟨houtcomes, hafters⟩ := hx.reads w w' hsame
    refine ⟨by rw [outcome_closingOnError, outcome_closingOnError, houtcomes], fun token htoken => ?_⟩
    cases houtcome : outcome x w with
    | ok a =>
        rw [after_closingOnError_of_ok houtcome, after_closingOnError_of_ok (houtcomes ▸ houtcome),
          hafters token htoken]
    | error e =>
        rw [after_closingOnError_of_error houtcome, after_closingOnError_of_error (houtcomes ▸ houtcome)]
        exact World.part_closeSince_congr (hsame token htoken) (hafters token htoken)

end

/-! ### Opening a session -/

/-- The login of a session that has been opened on a slot. -/
def loginOn (slot : Slot) (userPin : String) : EStateM (Stop Pkcs11Error) (World K) TokenId := do
  if (← get).loggedIn slot.token then pure slot.token
  else
    match slot.login userPin with
    | .ok _ => do
        modify fun w => { w with loggedIn := Function.update w.loggedIn slot.token true }
        pure slot.token
    | .error e =>
        if e = .userAlreadyLoggedIn then pure slot.token else throw (.err (.loginFailed e))

theorem openSession_eq (libraries : Libraries) (cfg : Pkcs11Config) (ident : SlotIdentifier) (userPin : String) :
    (openSession libraries cfg ident userPin : EStateM (Stop Pkcs11Error) (World K) TokenId) = (do
      let slot ← orErr (locate libraries cfg ident)
      orErr (slot.openRwSession.mapError .pkcs11)
      loginOn slot userPin) := rfl

/-- What a login comes to, with the user logged in on the token or not. -/
def loginResult (slot : Slot) (userPin : String) (loggedIn : Bool) : Except (Stop Pkcs11Error) TokenId :=
  if loggedIn then .ok slot.token
  else
    match slot.login userPin with
    | .ok _ => .ok slot.token
    | .error e => if e = .userAlreadyLoggedIn then .ok slot.token else .error (.err (.loginFailed e))

/-- Whether the user is logged in afterwards. -/
def loginLeaves (slot : Slot) (userPin : String) (loggedIn : Bool) : Bool :=
  loggedIn || (slot.login userPin).isOk

/-- The world with the user logged in on a token, or not. -/
def World.setLogin (w : World K) (token : TokenId) (loggedIn : Bool) : World K :=
  { w with loggedIn := Function.update w.loggedIn token loggedIn }

theorem World.setLogin_self (w : World K) (token : TokenId) : w.setLogin token (w.loggedIn token) = w := by
  rw [setLogin, Function.update_eq_self]

theorem World.part_setLogin_self (w : World K) (token : TokenId) (loggedIn : Bool) :
    World.part token (w.setLogin token loggedIn) = (w.machines token, loggedIn) := by
  simp only [part, setLogin, Function.update_self]

theorem World.part_setLogin_of_ne (w : World K) {token other : TokenId} (hne : other ≠ token) (loggedIn : Bool) :
    World.part other (w.setLogin token loggedIn) = World.part other w := by
  simp only [part, setLogin, Function.update_of_ne hne]

/-- The world with another machine for a token. -/
def World.setMachine (w : World K) (token : TokenId) (m : Machine K) : World K :=
  { w with machines := Function.update w.machines token m }

theorem World.part_setMachine_self (w : World K) (token : TokenId) (m : Machine K) :
    World.part token (w.setMachine token m) = (m, w.loggedIn token) := by
  simp only [part, setMachine, Function.update_self]

theorem World.part_setMachine_of_ne (w : World K) {token other : TokenId} (hne : other ≠ token) (m : Machine K) :
    World.part other (w.setMachine token m) = World.part other w := by
  simp only [part, setMachine, Function.update_of_ne hne]

theorem run_loginOn (slot : Slot) (userPin : String) (w : World K) :
    outcome (loginOn slot userPin) w = loginResult slot userPin (w.loggedIn slot.token) ∧
      after (loginOn slot userPin) w =
        w.setLogin slot.token (loginLeaves slot userPin (w.loggedIn slot.token)) := by
  have hsame (h : loginLeaves slot userPin (w.loggedIn slot.token) = w.loggedIn slot.token) :
      w = w.setLogin slot.token (loginLeaves slot userPin (w.loggedIn slot.token)) := by
    rw [h, World.setLogin_self]
  unfold outcome after loginOn loginResult
  simp only [EStateM.run_bind, EStateM.run_get]
  cases hlogin : w.loggedIn slot.token with
  | true =>
      have hkept := hsame (by rw [hlogin]; rfl)
      rw [hlogin] at hkept
      exact ⟨rfl, hkept⟩
  | false =>
      simp only [Bool.false_eq_true, if_false]
      cases hpin : slot.login userPin with
      | ok _ =>
          refine ⟨rfl, ?_⟩
          rw [loginLeaves, hpin]
          rfl
      | error e =>
          have hkept := hsame (by rw [hlogin, loginLeaves, hpin]; rfl)
          rw [hlogin] at hkept
          rw [← hkept]
          by_cases he : e = .userAlreadyLoggedIn
          · simp only [if_pos he]
            exact ⟨rfl, rfl⟩
          · simp only [if_neg he]
            exact ⟨rfl, rfl⟩

theorem within_loginOn (slot : Slot) (userPin : String) :
    Within World.part {slot.token} (loginOn slot userPin : EStateM (Stop Pkcs11Error) (World K) TokenId) where
  writes w token htoken := by
    rw [(run_loginOn slot userPin w).2, World.part_setLogin_of_ne w htoken]
  reads w w' hsame := by
    have hpart := hsame slot.token rfl
    have hlogin : w.loggedIn slot.token = w'.loggedIn slot.token := congrArg Prod.snd hpart
    refine ⟨?_, fun token htoken => ?_⟩
    · rw [(run_loginOn slot userPin w).1, (run_loginOn slot userPin w').1, hlogin]
    · obtain rfl : token = slot.token := htoken
      rw [(run_loginOn slot userPin w).2, (run_loginOn slot userPin w').2, World.part_setLogin_self,
        World.part_setLogin_self, hlogin]
      exact congrArg (fun part => (part.1, loginLeaves slot userPin (w'.loggedIn slot.token))) hpart

theorem within_openSession (libraries : Libraries) (cfg : Pkcs11Config) (ident : SlotIdentifier) (userPin : String) :
    Within World.part (tokenOf libraries cfg ident)
      (openSession libraries cfg ident userPin : EStateM (Stop Pkcs11Error) (World K) TokenId) := by
  rw [openSession_eq]
  cases hlocate : locate libraries cfg ident with
  | error e => exact Within.throw (Stop.err e)
  | ok slot =>
      show Within World.part _ (do
        orErr (slot.openRwSession.mapError .pkcs11)
        loginOn slot userPin)
      refine (Within.orErr _).bind fun _ _ _ => (within_loginOn slot userPin).mono ?_
      intro token htoken
      exact ⟨slot, hlocate, htoken.symm⟩

/-! ### Building a member -/

namespace Fleet

variable {libraries : Libraries} {hsm : TokenId → Hsm K D}

theorem within_onTokenOf {α : Type} (token : TokenId) (p : TokenProgram K D Pkcs11Error α) :
    Within World.part {token} (onTokenOf hsm token p) := by
  have hrun (w : World K) : outcome (onTokenOf hsm token p) w =
        outcome (Program.run (hsm token).exec p) (w.machines token) ∧
      after (onTokenOf hsm token p) w =
        w.setMachine token (after (Program.run (hsm token).exec p) (w.machines token)) := by
    unfold onTokenOf outcome after onPart
    simp only [EStateM.run]
    cases Program.run (hsm token).exec p (w.machines token) <;> exact ⟨rfl, rfl⟩
  constructor
  · intro w other hother
    rw [(hrun w).2, World.part_setMachine_of_ne w hother]
  · intro w w' hsame
    have hmachine : w.machines token = w'.machines token := congrArg Prod.fst (hsame token rfl)
    have hlogin : w.loggedIn token = w'.loggedIn token := congrArg Prod.snd (hsame token rfl)
    refine ⟨?_, fun other hother => ?_⟩
    · rw [(hrun w).1, (hrun w').1, hmachine]
    · obtain rfl : other = token := hother
      rw [(hrun w).2, (hrun w').2, World.part_setMachine_self, World.part_setMachine_self, hmachine, hlogin]

/-- The token a member is on, if its slot can be found. -/
def footprint (libraries : Libraries) (m : FleetMember K D) : Set TokenId :=
  tokenOf libraries ⟨m.libraryPath, m.slot, m.pin, m.derivationPath⟩ m.slot

/-- Building a member stays on its token. -/
theorem within_buildMember (m : FleetMember K D) :
    Within World.part (footprint libraries m) (buildMember libraries hsm m) := by
  unfold buildMember
  apply within_closingOnError
  refine (within_openSession libraries _ m.slot m.pin).bind fun w token hopened => ?_
  have htoken : {token} ⊆ footprint libraries m := by
    obtain ⟨_, slot, hslot, rfl⟩ := wp_of_run_ok (wp_openSession libraries _ m.slot m.pin w)
      (run_of_outcome_ok hopened)
    intro other hother
    exact ⟨slot, hslot, hother.symm⟩
  cases m.keyInit with
  | deriveFromSeed seed =>
      exact ((within_onTokenOf token _).mono htoken).bind fun _ _ _ => Within.pure _
  | load => exact ((within_onTokenOf token _).mono htoken).bind fun _ _ _ => Within.pure _

end Fleet

/-! ### Building a fleet -/

namespace Fleet

section

variable (libraries : Libraries) (hsm : TokenId → Hsm K D)

/-- The members that are built one after the other until one fails: each has its turn if all before it can be
built alone. -/
def Reached (w : World K) (members : List (FleetMember K D)) (m : FleetMember K D) : Prop :=
  HasTurn (buildMember libraries hsm) w members m

/-- The members are on different tokens. -/
def OnDifferentTokens (members : List (FleetMember K D)) : Prop := Apart (footprint libraries) members

theorem outcome_buildSigners (members : List (FleetMember K D)) (w : World K) :
    outcome (buildSigners libraries hsm members) w =
      (validate members).mapError .err >>= fun _ => outcome (members.mapM (buildMember libraries hsm)) w := by
  unfold buildSigners
  rw [outcome_closingOnError]
  cases validate members with
  | ok _ => rfl
  | error e => rfl

theorem buildSigners_of_valid {members : List (FleetMember K D)} (hvalid : validate members = .ok ()) :
    buildSigners libraries hsm members = closingOnError (members.mapM (buildMember libraries hsm)) := by
  unfold buildSigners
  rw [hvalid]
  rfl

theorem validate_ok_iff_nodup (members : List (FleetMember K D)) :
    validate members = .ok () ↔ (members.map memberId).Nodup := by
  have hcollision : validate members = .ok () ↔ collision (members.map memberId) = none := by
    unfold validate
    cases collision (members.map memberId) <;> simp
  rw [hcollision, collision_eq, Search.firstPair_eq_none_iff, List.nodup_iff_getElem?_ne_getElem?]
  simp only [decide_eq_false_iff_not, List.length_map]

end

/-- Members on different tokens are built as each would be alone: the fleet comes to the signers they come to
alone, or to the error of the first that fails alone. If it succeeds the token of each member ends as building
this member alone leaves it. If it fails the token of each member that has had its turn ends as building this
member alone and closing its session leaves it. On every other token nothing changes. -/
theorem members_built_alone (libraries : Libraries) (hsm : TokenId → Hsm K D) (members : List (FleetMember K D))
    (hapart : OnDifferentTokens libraries members) (hvalid : validate members = .ok ()) (w : World K) :
    outcome (buildSigners libraries hsm members) w =
        members.mapM (fun m => outcome (buildMember libraries hsm m) w) ∧
      (∀ signers, outcome (buildSigners libraries hsm members) w = .ok signers →
        ∀ m ∈ members, ∀ token ∈ footprint libraries m,
          World.part token (after (buildSigners libraries hsm members) w) =
            World.part token (after (buildMember libraries hsm m) w)) ∧
      (∀ e, outcome (buildSigners libraries hsm members) w = .error e →
        ∀ m, Reached libraries hsm w members m → ∀ token ∈ footprint libraries m,
          World.part token (after (buildSigners libraries hsm members) w) =
            World.part token (w.closeSince (after (buildMember libraries hsm m) w))) ∧
      ∀ token, (∀ m, Reached libraries hsm w members m → token ∉ footprint libraries m) →
        World.part token (after (buildSigners libraries hsm members) w) = World.part token w := by
  have hwithin (m : FleetMember K D) : Within World.part (footprint libraries m) (buildMember libraries hsm m) :=
    within_buildMember m
  obtain ⟨hreached, hother⟩ := after_mapM hwithin members w hapart
  have hloop := outcome_mapM hwithin members w hapart
  rw [buildSigners_of_valid libraries hsm hvalid, outcome_closingOnError]
  refine ⟨hloop, fun signers hok m hm token htoken => ?_, fun e he m hm token htoken => ?_, fun token hnone => ?_⟩
  · have hall := exists_of_mapM_eq_ok (hloop.symm.trans hok)
    rw [after_closingOnError_of_ok hok]
    exact hreached m (hasTurn_of_mem hall hm) token htoken
  · rw [after_closingOnError_of_error he]
    exact World.part_closeSince_congr rfl (hreached m hm token htoken)
  · cases houtcome : outcome (members.mapM (buildMember libraries hsm)) w with
    | ok signers =>
        rw [after_closingOnError_of_ok houtcome]
        exact hother token hnone
    | error e =>
        rw [after_closingOnError_of_error houtcome]
        exact World.part_closeSince_of_same (hother token hnone)

/-- The order in which members on different tokens are listed does not matter: if the fleet can be built, it can
in any order, with the same signers, and every token ends the same. -/
theorem members_any_order (libraries : Libraries) (hsm : TokenId → Hsm K D) {members members' : List (FleetMember K D)}
    (hperm : members.Perm members') (hapart : OnDifferentTokens libraries members) {w w' : World K}
    {signers : List (TokenId × Pkcs11Signer K D)}
    (hbuilt : (buildSigners libraries hsm members).run w = .ok signers w') :
    ∃ signers', signers.Perm signers' ∧ (buildSigners libraries hsm members').run w = .ok signers' w' := by
  obtain ⟨houtcome, hafter⟩ := outcome_after_of_run_ok hbuilt
  have hvalid : validate members = .ok () := by
    cases hresult : validate members with
    | ok _ => rfl
    | error e =>
        rw [outcome_buildSigners, hresult] at houtcome
        cases houtcome
  have hvalid' : validate members' = .ok () := by
    rw [validate_ok_iff_nodup] at hvalid ⊢
    exact (hperm.map memberId).nodup_iff.mp hvalid
  rw [outcome_buildSigners, hvalid] at houtcome
  obtain ⟨signers', hsame, houtcome', hparts⟩ :=
    mapM_any_order (fun m => within_buildMember m) hperm hapart houtcome
  have hrun : outcome (buildSigners libraries hsm members') w = .ok signers' := by
    rw [outcome_buildSigners, hvalid']
    exact houtcome'
  refine ⟨signers', hsame, ?_⟩
  rw [run_of_outcome_ok hrun, ← hafter, buildSigners_of_valid libraries hsm hvalid,
    buildSigners_of_valid libraries hsm hvalid', after_closingOnError_of_ok houtcome,
    after_closingOnError_of_ok houtcome', World.ext_part hparts]

end Fleet

/-! ### Two members on two tokens -/

namespace IdealVendor

/-- Two libraries with one slot each. -/
def twoTokens : Libraries := fun path =>
  .ok ⟨.ok (), .ok [⟨3, .ok "slot", .ok (), fun _ => .ok (), if path = "first" then 0 else 1⟩]⟩

def twoMembers : List (FleetMember Key Digest) := [memberOf "a" "first", memberOf "b" "second"]

/-- A second member whose key is not on its token. -/
def missingKey : List (FleetMember Key Digest) :=
  [memberOf "a" "first", { memberOf "b" "second" with keyInit := .load }]

theorem onDifferentTokens_keyInit (keyInit : KeyInit) : Fleet.OnDifferentTokens twoTokens
    [memberOf "a" "first", { memberOf "b" "second" with keyInit := keyInit }] := by
  refine List.pairwise_pair.mpr (Set.disjoint_left.mpr fun token hfirst hsecond => ?_)
  obtain ⟨_, ⟨⟩, rfl⟩ := hfirst
  obtain ⟨_, ⟨⟩, htoken⟩ := hsecond
  exact absurd htoken Nat.one_ne_zero

theorem onDifferentTokens_twoMembers : Fleet.OnDifferentTokens twoTokens twoMembers :=
  onDifferentTokens_keyInit (.deriveFromSeed [])

end IdealVendor

open IdealVendor Fleet in
/-- The second member's token ends as if the first were not there; and where the second member is one that cannot
load its key, the first one's token ends as if its session had been closed. -/
theorem second_member_alone :
    World.part 1 (after (buildSigners twoTokens (fun _ => token) twoMembers) newTokens) =
        World.part 1 (after (buildMember twoTokens (fun _ => token) (memberOf "b" "second")) newTokens) ∧
      World.part 0 (after (buildSigners twoTokens (fun _ => token) missingKey) newTokens) =
        World.part 0 (newTokens.closeSince
          (after (buildMember twoTokens (fun _ => token) (memberOf "a" "first")) newTokens)) := by
  constructor
  · have hok : (outcome (buildSigners twoTokens (fun _ => token) twoMembers) newTokens).isOk = true := by
      decide +kernel
    cases hresult : outcome (buildSigners twoTokens (fun _ => token) twoMembers) newTokens with
    | ok signers =>
        exact (members_built_alone twoTokens (fun _ => token) twoMembers onDifferentTokens_twoMembers
          (by decide +kernel) newTokens).2.1 signers hresult _ (by simp [twoMembers]) 1 ⟨_, rfl, rfl⟩
    | error e =>
        rw [hresult] at hok
        cases hok
  · have hfails : (outcome (buildSigners twoTokens (fun _ => token) missingKey) newTokens).isOk = false := by
      decide +kernel
    cases hresult : outcome (buildSigners twoTokens (fun _ => token) missingKey) newTokens with
    | ok signers =>
        rw [hresult] at hfails
        cases hfails
    | error e =>
        exact (members_built_alone twoTokens (fun _ => token) missingKey (onDifferentTokens_keyInit .load)
          (by decide +kernel) newTokens).2.2.1 e hresult _ (hasTurn_head _ _ _) 0 ⟨_, rfl, rfl⟩

open IdealVendor Fleet in
/-- The fleet is built the other way round, too. -/
theorem second_member_first :
    (outcome (buildSigners twoTokens (fun _ => token) [memberOf "b" "second", memberOf "a" "first"])
      newTokens).isOk = true := by
  have hok : (outcome (buildSigners twoTokens (fun _ => token) twoMembers) newTokens).isOk = true := by
    decide +kernel
  cases hresult : outcome (buildSigners twoTokens (fun _ => token) twoMembers) newTokens with
  | ok signers =>
      obtain ⟨signers', -, hbuilt⟩ := members_any_order twoTokens (fun _ => token) (.swap _ _ [])
        onDifferentTokens_twoMembers (run_of_outcome_ok hresult)
      rw [(outcome_after_of_run_ok hbuilt).1]
      rfl
  | error e =>
      rw [hresult] at hok
      cases hok

end EmvaultPkcs11
