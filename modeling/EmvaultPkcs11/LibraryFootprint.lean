import EmvaultPkcs11.LibraryEffect

/-! Computations on a state with many parts, each of which stays within some of them. Computations with disjoint
footprints do not see each other: a loop over them comes out as each of them would alone, up to the first that
fails, and in any order. -/

namespace Effect

variable {ε σ τ ι α β γ : Type}

/-- What a computation returns. -/
def outcome (x : EStateM ε σ α) (s : σ) : Except ε α :=
  match x.run s with
  | .ok a _ => .ok a
  | .error e _ => .error e

theorem run_of_outcome_ok {x : EStateM ε σ α} {s : σ} {a : α} (h : outcome x s = .ok a) :
    x.run s = .ok a (after x s) := by
  unfold outcome at h
  unfold after
  cases hrun : x.run s with
  | ok b s' =>
      rw [hrun] at h
      rw [Except.ok.inj h]
  | error e s' =>
      rw [hrun] at h
      cases h

theorem run_of_outcome_error {x : EStateM ε σ α} {s : σ} {e : ε} (h : outcome x s = .error e) :
    x.run s = .error e (after x s) := by
  unfold outcome at h
  unfold after
  cases hrun : x.run s with
  | ok b s' =>
      rw [hrun] at h
      cases h
  | error e' s' =>
      rw [hrun] at h
      rw [Except.error.inj h]

theorem outcome_after_of_run_ok {x : EStateM ε σ α} {s s' : σ} {a : α} (h : x.run s = .ok a s') :
    outcome x s = .ok a ∧ after x s = s' := by
  unfold outcome after
  rw [h]
  exact ⟨rfl, rfl⟩

section

variable {x : EStateM ε σ α} {f : α → EStateM ε σ β} {s : σ}

theorem outcome_bind_of_ok {a : α} (h : outcome x s = .ok a) : outcome (x >>= f) s = outcome (f a) (after x s) := by
  simp only [outcome, EStateM.run_bind, run_of_outcome_ok h]

theorem after_bind_of_ok {a : α} (h : outcome x s = .ok a) : after (x >>= f) s = after (f a) (after x s) := by
  rw [after, EStateM.run_bind, run_of_outcome_ok h]
  rfl

theorem outcome_bind_of_error {e : ε} (h : outcome x s = .error e) : outcome (x >>= f) s = .error e := by
  simp only [outcome, EStateM.run_bind, run_of_outcome_error h]

theorem after_bind_of_error {e : ε} (h : outcome x s = .error e) : after (x >>= f) s = after x s := by
  rw [after, EStateM.run_bind, run_of_outcome_error h]

end

/-! ### Footprints -/

/-- `x` reads and writes no part of the state outside `F`. -/
structure Within (part : ι → σ → τ) (F : Set ι) (x : EStateM ε σ α) : Prop where
  writes : ∀ s, ∀ i ∉ F, part i (after x s) = part i s
  reads : ∀ s s', (∀ i ∈ F, part i s = part i s') →
    outcome x s = outcome x s' ∧ ∀ i ∈ F, part i (after x s) = part i (after x s')

namespace Within

variable {part : ι → σ → τ} {F F' : Set ι} {x : EStateM ε σ α}

theorem pure (a : α) : Within part F (Pure.pure a : EStateM ε σ α) := ⟨fun _ _ _ => rfl, fun _ _ h => ⟨rfl, h⟩⟩

theorem throw (e : ε) : Within part F (MonadExcept.throw e : EStateM ε σ α) :=
  ⟨fun _ _ _ => rfl, fun _ _ h => ⟨rfl, h⟩⟩

theorem orErr (r : Except ε α) : Within part F (Effect.orErr r : EStateM (Stop ε) σ α) := by
  cases r with
  | ok a => exact pure a
  | error e => exact throw (Stop.err e)

theorem mono (h : Within part F x) (hsub : F ⊆ F') : Within part F' x where
  writes s i hi := h.writes s i fun hF => hi (hsub hF)
  reads s s' hsame := by
    obtain ⟨houtcome, hafter⟩ := h.reads s s' fun i hi => hsame i (hsub hi)
    refine ⟨houtcome, fun i hi => ?_⟩
    by_cases hF : i ∈ F
    · exact hafter i hF
    · rw [h.writes s i hF, h.writes s' i hF, hsame i hi]

/-- What follows needs to stay within the footprint for the values that the first part can return. -/
theorem bind (hx : Within part F x) {f : α → EStateM ε σ β}
    (hf : ∀ s a, outcome x s = .ok a → Within part F (f a)) : Within part F (x >>= f) where
  writes s i hi := by
    cases houtcome : outcome x s with
    | ok a => rw [after_bind_of_ok houtcome, (hf s a houtcome).writes _ i hi, hx.writes s i hi]
    | error e => rw [after_bind_of_error houtcome, hx.writes s i hi]
  reads s s' hsame := by
    obtain ⟨hsameOutcome, hsameAfter⟩ := hx.reads s s' hsame
    cases houtcome : outcome x s with
    | ok a =>
        have houtcome' : outcome x s' = .ok a := hsameOutcome ▸ houtcome
        rw [outcome_bind_of_ok houtcome, outcome_bind_of_ok houtcome', after_bind_of_ok houtcome,
          after_bind_of_ok houtcome']
        exact (hf s a houtcome).reads _ _ hsameAfter
    | error e =>
        have houtcome' : outcome x s' = .error e := hsameOutcome ▸ houtcome
        rw [outcome_bind_of_error houtcome, outcome_bind_of_error houtcome', after_bind_of_error houtcome,
          after_bind_of_error houtcome']
        exact ⟨rfl, hsameAfter⟩

end Within

/-! ### Traversals of pure results -/

theorem mapM_congr_of_mem {f g : α → Except ε β} {l : List α} (h : ∀ a ∈ l, f a = g a) : l.mapM f = l.mapM g := by
  induction l with
  | nil => rfl
  | cons a l ih =>
      rw [List.mapM_cons, List.mapM_cons, h a List.mem_cons_self,
        ih fun b hb => h b (List.mem_cons_of_mem a hb)]

theorem exists_of_mapM_eq_ok {f : α → Except ε β} {l : List α} {bs : List β} (h : l.mapM f = .ok bs) :
    ∀ a ∈ l, ∃ b, f a = .ok b := by
  induction l generalizing bs with
  | nil => simp
  | cons a l ih =>
      rw [List.mapM_cons, bind_eq_ok] at h
      obtain ⟨b, hb, h⟩ := h
      obtain ⟨bs', hbs', _⟩ := bind_eq_ok.mp h
      exact List.forall_mem_cons.mpr ⟨⟨b, hb⟩, ih hbs'⟩

/-- Another order gives the results in another order. -/
theorem mapM_perm {f : α → Except ε β} {l l' : List α} (hperm : l.Perm l') :
    ∀ {bs : List β}, l.mapM f = .ok bs → ∃ bs', bs.Perm bs' ∧ l'.mapM f = .ok bs' := by
  induction hperm with
  | nil => exact fun h => ⟨_, .refl _, h⟩
  | cons a _ ih =>
      intro bs h
      rw [List.mapM_cons, bind_eq_ok] at h
      obtain ⟨b, hb, h⟩ := h
      obtain ⟨rest, hrest, h⟩ := bind_eq_ok.mp h
      obtain ⟨rest', hsame, hrest'⟩ := ih hrest
      obtain rfl := Except.ok.inj h
      refine ⟨b :: rest', hsame.cons b, ?_⟩
      rw [List.mapM_cons, hb, hrest']
      rfl
  | swap a a' l =>
      intro bs h
      simp only [List.mapM_cons, bind_eq_ok] at h
      obtain ⟨b, hb, bs', ⟨b', hb', rest, hrest, hbs'⟩, hbs⟩ := h
      obtain rfl := Except.ok.inj hbs'
      obtain rfl := Except.ok.inj hbs
      refine ⟨b' :: b :: rest, .swap b' b rest, ?_⟩
      simp only [List.mapM_cons, hb, hb', hrest]
      rfl
  | trans _ _ ih ih' =>
      intro bs h
      obtain ⟨bs', hsame, h'⟩ := ih h
      obtain ⟨bs'', hsame', h''⟩ := ih' h'
      exact ⟨bs'', hsame.trans hsame', h''⟩

/-! ### Loops over disjoint footprints -/

section

variable {part : ι → σ → τ} {F : γ → Set ι} {f : γ → EStateM ε σ α}

/-- No two elements of the list have a part in common. -/
def Apart (F : γ → Set ι) (l : List γ) : Prop := l.Pairwise fun c c' => Disjoint (F c) (F c')

/-- Every element before `c` in the list succeeds alone, so `c` has its turn. -/
def HasTurn (f : γ → EStateM ε σ α) (s : σ) (l : List γ) (c : γ) : Prop :=
  ∃ before rest, l = before ++ c :: rest ∧ ∀ b ∈ before, ∃ a, outcome (f b) s = .ok a

theorem hasTurn_head (s : σ) (c : γ) (l : List γ) : HasTurn f s (c :: l) c := ⟨[], l, rfl, by simp⟩

/-- Where all elements succeed alone each of them has its turn. -/
theorem hasTurn_of_mem {s : σ} {l : List γ} (hall : ∀ c ∈ l, ∃ a, outcome (f c) s = .ok a) {c : γ} (hc : c ∈ l) :
    HasTurn f s l c := by
  obtain ⟨before, rest, rfl⟩ := List.append_of_mem hc
  exact ⟨before, rest, rfl, fun b hb => hall b (List.mem_append_left _ hb)⟩

theorem HasTurn.cons {s : σ} {c c' : γ} {l : List γ} (h : HasTurn f s l c') {a : α} (hc : outcome (f c) s = .ok a) :
    HasTurn f s (c :: l) c' := by
  obtain ⟨before, rest, rfl, hbefore⟩ := h
  exact ⟨c :: before, rest, rfl, List.forall_mem_cons.mpr ⟨⟨a, hc⟩, hbefore⟩⟩

theorem HasTurn.of_cons {s : σ} {c c' : γ} {l : List γ} (h : HasTurn f s (c :: l) c') :
    c' = c ∨ (∃ a, outcome (f c) s = .ok a) ∧ HasTurn f s l c' := by
  obtain ⟨before, rest, hl, hbefore⟩ := h
  cases before with
  | nil => exact Or.inl (List.cons.inj hl).1.symm
  | cons b before =>
      obtain ⟨rfl, rfl⟩ := List.cons.inj hl
      exact Or.inr ⟨hbefore c List.mem_cons_self,
        before, rest, rfl, fun b hb => hbefore b (List.mem_cons_of_mem c hb)⟩

/-- Alone, an element does not see that one with another footprint went before. -/
theorem Within.after_other (hf : ∀ c, Within part (F c) (f c)) {c c' : γ} (hdisjoint : Disjoint (F c) (F c'))
    (s : σ) : outcome (f c') (after (f c) s) = outcome (f c') s ∧
      ∀ i ∈ F c', part i (after (f c') (after (f c) s)) = part i (after (f c') s) := by
  apply (hf c').reads
  intro i hi
  exact (hf c).writes s i fun hc => Set.disjoint_left.mp hdisjoint hc hi

variable (hf : ∀ c, Within part (F c) (f c))
include hf

theorem hasTurn_after_iff {c : γ} {l : List γ} (hdisjoint : ∀ c' ∈ l, Disjoint (F c) (F c')) (s : σ) (c' : γ) :
    HasTurn f (after (f c) s) l c' ↔ HasTurn f s l c' := by
  refine exists_congr fun before => exists_congr fun rest => and_congr_right fun hl => ?_
  refine forall₂_congr fun b hb => ?_
  have hmem : b ∈ l := hl ▸ List.mem_append_left _ hb
  rw [(Within.after_other hf (hdisjoint b hmem) s).1]

/-- A loop over disjoint footprints returns what its rounds return alone, or the error of the first that fails
alone. -/
theorem outcome_mapM (l : List γ) : ∀ s, Apart F l → outcome (l.mapM f) s = l.mapM fun c => outcome (f c) s := by
  induction l with
  | nil => exact fun s _ => rfl
  | cons c l ih =>
      intro s hapart
      obtain ⟨hdisjoint, hapart⟩ := List.pairwise_cons.mp hapart
      rw [List.mapM_cons, List.mapM_cons]
      cases houtcome : outcome (f c) s with
      | error e => rw [outcome_bind_of_error houtcome]; rfl
      | ok a =>
          have hrest : l.mapM (fun c' => outcome (f c') (after (f c) s)) = l.mapM fun c' => outcome (f c') s := by
            apply mapM_congr_of_mem
            intro c' hc'
            exact (Within.after_other hf (hdisjoint c' hc') s).1
          rw [outcome_bind_of_ok houtcome]
          have hloop := ih (after (f c) s) hapart
          rw [hrest] at hloop
          cases hl : l.mapM fun c' => outcome (f c') s with
          | error e =>
              rw [hl] at hloop
              rw [outcome_bind_of_error hloop]
              rfl
          | ok as =>
              rw [hl] at hloop
              rw [outcome_bind_of_ok hloop]
              rfl

/-- What a loop leaves of the parts of a round that has its turn is what the round leaves of them alone. The
parts of no such round stay. -/
theorem after_mapM (l : List γ) : ∀ s, Apart F l →
    (∀ c, HasTurn f s l c → ∀ i ∈ F c, part i (after (l.mapM f) s) = part i (after (f c) s)) ∧
    ∀ i, (∀ c, HasTurn f s l c → i ∉ F c) → part i (after (l.mapM f) s) = part i s := by
  induction l with
  | nil =>
      refine fun s _ => ⟨fun c h => ?_, fun i _ => rfl⟩
      obtain ⟨before, rest, hl, _⟩ := h
      simp at hl
  | cons c l ih =>
      intro s hapart
      obtain ⟨hdisjoint, hapart⟩ := List.pairwise_cons.mp hapart
      rw [List.mapM_cons]
      cases houtcome : outcome (f c) s with
      | error e =>
          rw [after_bind_of_error houtcome]
          refine ⟨fun c' hturn i hi => ?_, fun i hnone => (hf c).writes s i (hnone c (hasTurn_head s c l))⟩
          obtain rfl | ⟨⟨a, hok⟩, _⟩ := hturn.of_cons
          · rfl
          · rw [houtcome] at hok
            cases hok
      | ok a =>
          obtain ⟨hown, hother⟩ := ih (after (f c) s) hapart
          have hafter : after (f c >>= fun a => l.mapM f >>= fun as => pure (a :: as)) s =
              after (l.mapM f) (after (f c) s) := by
            rw [after_bind_of_ok houtcome]
            cases hl : outcome (l.mapM f) (after (f c) s) with
            | ok as => rw [after_bind_of_ok hl]; rfl
            | error e => rw [after_bind_of_error hl]
          rw [hafter]
          have hlater (i : ι) (hi : i ∈ F c) (c' : γ) (hturn : HasTurn f (after (f c) s) l c') : i ∉ F c' := by
            obtain ⟨before, rest, rfl, _⟩ := hturn
            exact fun hi' => Set.disjoint_left.mp (hdisjoint c' (by simp)) hi hi'
          refine ⟨fun c' hturn i hi => ?_, fun i hnone => ?_⟩
          · obtain rfl | ⟨_, hturn⟩ := hturn.of_cons
            · exact hother i (hlater i hi)
            · have hmem : c' ∈ l := by
                obtain ⟨before, rest, rfl, _⟩ := hturn
                simp
              rw [hown c' ((hasTurn_after_iff hf hdisjoint s c').mpr hturn) i hi]
              exact (Within.after_other hf (hdisjoint c' hmem) s).2 i hi
          · rw [hother i fun c' hturn => ?_, (hf c).writes s i (hnone c (hasTurn_head s c l))]
            exact hnone c' (((hasTurn_after_iff hf hdisjoint s c').mp hturn).cons houtcome)

/-- A loop over disjoint footprints that succeeds does so in any order, and leaves the same. -/
theorem mapM_any_order {l l' : List γ} (hperm : l.Perm l') {s : σ} (hapart : Apart F l) {as : List α}
    (h : outcome (l.mapM f) s = .ok as) :
    ∃ as', as.Perm as' ∧ outcome (l'.mapM f) s = .ok as' ∧
      ∀ i, part i (after (l'.mapM f) s) = part i (after (l.mapM f) s) := by
  have hapart' : Apart F l' := (hperm.pairwise_iff fun hd => Disjoint.symm hd).mp hapart
  rw [outcome_mapM hf l s hapart] at h
  obtain ⟨as', hsame, h'⟩ := mapM_perm hperm h
  refine ⟨as', hsame, (outcome_mapM hf l' s hapart').trans h', fun i => ?_⟩
  have hall := exists_of_mapM_eq_ok h
  have hall' : ∀ c ∈ l', ∃ a, outcome (f c) s = .ok a := fun c hc => hall c (hperm.mem_iff.mpr hc)
  by_cases hi : ∃ c ∈ l, i ∈ F c
  · obtain ⟨c, hc, hi⟩ := hi
    rw [(after_mapM hf l s hapart).1 c (hasTurn_of_mem hall hc) i hi,
      (after_mapM hf l' s hapart').1 c (hasTurn_of_mem hall' (hperm.mem_iff.mp hc)) i hi]
  · have hnone {l'' : List γ} (hsub : ∀ c ∈ l'', c ∈ l) (c : γ) (hc : HasTurn f s l'' c) : i ∉ F c := by
      obtain ⟨before, rest, rfl, _⟩ := hc
      exact fun hmem => hi ⟨c, hsub c (by simp), hmem⟩
    rw [(after_mapM hf l s hapart).2 i (hnone fun _ hc => hc),
      (after_mapM hf l' s hapart').2 i (hnone fun c hc => hperm.mem_iff.mpr hc)]

end

end Effect
