import EmvaultPkcs11.LibraryEffect

/-! Agendas: the items a loop works through, each either granted or rejected. The loop stops at the
first item it rejects, or at a granted item it is refused, so what it can have done is what comes
before that item. What a loop does before it stops is told in two ways, by its agenda and by the rounds
it has run. -/

open Effect

namespace Agenda

variable {ε τ : Type}

/-- The items before the first rejected one. -/
def granted : List (Except ε τ) → List τ
  | .ok t :: rest => t :: granted rest
  | _ => []

/-- No item is rejected. -/
def Clean (agenda : List (Except ε τ)) : Prop := ∀ e, Except.error e ∉ agenda

@[simp] theorem granted_nil : granted ([] : List (Except ε τ)) = [] := rfl

@[simp] theorem granted_ok_cons (t : τ) (rest : List (Except ε τ)) :
    granted (.ok t :: rest) = t :: granted rest := rfl

@[simp] theorem granted_error_cons (e : ε) (rest : List (Except ε τ)) :
    granted (.error e :: rest : List (Except ε τ)) = [] := rfl

@[simp] theorem clean_nil : Clean ([] : List (Except ε τ)) := fun _ => List.not_mem_nil

@[simp] theorem clean_ok_cons (t : τ) (rest : List (Except ε τ)) :
    Clean (.ok t :: rest) ↔ Clean rest := by
  simp [Clean]

@[simp] theorem not_clean_error_cons (e : ε) (rest : List (Except ε τ)) :
    ¬Clean (.error e :: rest : List (Except ε τ)) := fun h => h e List.mem_cons_self

theorem clean_append (a b : List (Except ε τ)) : Clean (a ++ b) ↔ Clean a ∧ Clean b := by
  simp only [Clean, List.mem_append, not_or, forall_and]

theorem granted_append {a : List (Except ε τ)} (ha : Clean a) (b : List (Except ε τ)) :
    granted (a ++ b) = granted a ++ granted b := by
  induction a with
  | nil => rfl
  | cons x a ih =>
      cases x with
      | error e => exact absurd ha (not_clean_error_cons e a)
      | ok t => simp only [List.cons_append, granted_ok_cons, ih ((clean_ok_cons t a).mp ha)]

theorem clean_flatMap {γ : Type} (l : List γ) (group : γ → List (Except ε τ)) :
    Clean (l.flatMap group) ↔ ∀ x ∈ l, Clean (group x) := by
  induction l with
  | nil => simp
  | cons x l ih => rw [List.flatMap_cons, clean_append, ih, List.forall_mem_cons]

theorem granted_flatMap {γ : Type} {l : List γ} {group : γ → List (Except ε τ)}
    (h : Clean (l.flatMap group)) : granted (l.flatMap group) = l.flatMap fun x => granted (group x) := by
  induction l with
  | nil => rfl
  | cons x l ih =>
      rw [List.flatMap_cons, clean_append] at h
      rw [List.flatMap_cons, granted_append h.1, ih h.2, List.flatMap_cons]

theorem granted_append_of_not_clean {a : List (Except ε τ)} (ha : ¬Clean a) (b : List (Except ε τ)) :
    granted (a ++ b) = granted a := by
  induction a with
  | nil => exact absurd clean_nil ha
  | cons x a ih =>
      cases x with
      | error e => rfl
      | ok t =>
          rw [clean_ok_cons] at ha
          simp only [List.cons_append, granted_ok_cons, ih ha]

theorem granted_prefix_append (a b : List (Except ε τ)) : granted a <+: granted (a ++ b) := by
  induction a with
  | nil => exact List.nil_prefix
  | cons x a ih =>
      cases x with
      | error e => exact List.prefix_rfl
      | ok t => exact (List.prefix_cons_inj t).mpr ih

theorem mem_of_mem_granted {agenda : List (Except ε τ)} {t : τ} (h : t ∈ granted agenda) :
    .ok t ∈ agenda := by
  induction agenda with
  | nil => exact absurd h List.not_mem_nil
  | cons x agenda ih =>
      cases x with
      | error e => exact absurd h List.not_mem_nil
      | ok u =>
          rcases List.mem_cons.mp h with rfl | h
          · exact List.mem_cons_self
          · exact List.mem_cons_of_mem _ (ih h)

/-- A part of an agenda without a rejection is a list of granted items. -/
theorem Clean.eq_map_ok {agenda : List (Except ε τ)} (h : Clean agenda) :
    agenda = (granted agenda).map .ok := by
  induction agenda with
  | nil => rfl
  | cons x agenda ih =>
      cases x with
      | error e => exact absurd h (not_clean_error_cons e agenda)
      | ok t => rw [granted_ok_cons, List.map_cons, ← ih ((clean_ok_cons t agenda).mp h)]

/-- An agenda with a rejection is cut at the first one. -/
theorem exists_rejected {agenda : List (Except ε τ)} (h : ¬Clean agenda) :
    ∃ e rest, agenda = (granted agenda).map .ok ++ .error e :: rest := by
  induction agenda with
  | nil => exact absurd clean_nil h
  | cons x agenda ih =>
      cases x with
      | error e => exact ⟨e, agenda, rfl⟩
      | ok t =>
          rw [clean_ok_cons] at h
          obtain ⟨e, rest, hcut⟩ := ih h
          refine ⟨e, rest, ?_⟩
          rw [granted_ok_cons, List.map_cons, List.cons_append, ← hcut]

/-- The granted items come first. -/
theorem map_ok_granted_isPrefix (agenda : List (Except ε τ)) : (granted agenda).map .ok <+: agenda := by
  by_cases hclean : Clean agenda
  · rw [← hclean.eq_map_ok]
  · obtain ⟨e, rest, hcut⟩ := exists_rejected hclean
    exact ⟨_, hcut.symm⟩

theorem length_granted_le (agenda : List (Except ε τ)) : (granted agenda).length ≤ agenda.length := by
  simpa using (map_ok_granted_isPrefix agenda).length_le

/-! ### Where a loop can stop -/

/-- A loop that has done `done` of an agenda can have stopped there: the next item was refused, or it
was rejected. -/
def StopsAt (refused : τ → Prop) (agenda : List (Except ε τ)) (done : List τ) : Prop :=
  (∃ t, done ++ [t] <+: granted agenda ∧ refused t) ∨ (done = granted agenda ∧ ¬Clean agenda)

theorem StopsAt.prefix_granted {refused : τ → Prop} {agenda : List (Except ε τ)} {done : List τ}
    (h : StopsAt refused agenda done) : done <+: granted agenda := by
  rcases h with ⟨t, hprefix, _⟩ | ⟨rfl, _⟩
  · exact (List.prefix_append done [t]).trans hprefix
  · exact List.prefix_rfl

/-- Where a loop stops there is an item it has not done. -/
theorem StopsAt.exists_item {refused : τ → Prop} {agenda : List (Except ε τ)} {done : List τ}
    (h : StopsAt refused agenda done) : ∃ item rest, agenda = done.map .ok ++ item :: rest := by
  rcases h with ⟨t, hnext, _⟩ | ⟨rfl, hreject⟩
  · obtain ⟨rest, hrest⟩ := (hnext.map Except.ok).trans (map_ok_granted_isPrefix agenda)
    refine ⟨.ok t, rest, ?_⟩
    rw [← hrest, List.map_append, List.append_assoc]
    rfl
  · obtain ⟨e, rest, hcut⟩ := exists_rejected hreject
    exact ⟨_, rest, hcut⟩

/-- Stopping inside a part of an agenda, after all that comes before it. -/
theorem StopsAt.of_part {refused : τ → Prop} {before part : List (Except ε τ)} {done : List τ}
    (hbefore : Clean before) (h : StopsAt refused part done) (after : List (Except ε τ)) :
    StopsAt refused (before ++ (part ++ after)) (granted before ++ done) := by
  rw [StopsAt, granted_append hbefore]
  rcases h with ⟨t, hnext, hrefused⟩ | ⟨rfl, hpart⟩
  · refine Or.inl ⟨t, ?_, hrefused⟩
    rw [List.append_assoc]
    exact (List.prefix_append_right_inj _).mpr (hnext.trans (granted_prefix_append part after))
  · refine Or.inr ⟨by rw [granted_append_of_not_clean hpart], fun hclean => hpart ?_⟩
    exact ((clean_append part after).mp ((clean_append _ _).mp hclean).2).1

variable {ε' σ β γ : Type}

/-- The rule for a loop over an agenda that comes in groups, one for each round. `At` is what holds
between rounds after the items `done`, `Left` what holds where the loop stops after them with an error. -/
theorem wp_foldlM_groups (f : β → γ → EStateM ε' σ β) (group : γ → List (Except ε τ))
    (At : List τ → β → σ → Prop) (Left : List τ → ε' → σ → Prop) (refused : τ → Prop) (todo : List γ) :
    ∀ (done : List τ) (b : β) (s : σ), At done b s →
      (∀ x ∈ todo, ∀ (done : List τ) (b : β) (s : σ), At done b s →
        wp (f b x) (fun b' s' => Clean (group x) ∧ At (done ++ granted (group x)) b' s')
          (fun e s' => ∃ more, StopsAt refused (group x) more ∧ Left (done ++ more) e s') s) →
      wp (todo.foldlM f b)
        (fun b' s' => Clean (todo.flatMap group) ∧ At (done ++ granted (todo.flatMap group)) b' s')
        (fun e s' => ∃ more, StopsAt refused (todo.flatMap group) more ∧ Left (done ++ more) e s') s := by
  induction todo with
  | nil =>
      intro done b s hat _
      simpa using hat
  | cons x todo ih =>
      intro done b s hat hround
      simp only [List.foldlM_cons, wp_bind, List.flatMap_cons]
      refine wp_mono (hround x List.mem_cons_self done b s hat) (fun b' s' h => ?_) (fun _ s' h => ?_)
      · obtain ⟨hclean, hat'⟩ := h
        refine wp_mono (ih _ b' s' hat' fun y hy => hround y (List.mem_cons_of_mem x hy))
          (fun b'' s'' h => ?_) (fun _ s'' h => ?_)
        · rw [clean_append, granted_append hclean, ← List.append_assoc]
          exact ⟨⟨hclean, h.1⟩, h.2⟩
        · obtain ⟨more, hstops, hleft⟩ := h
          refine ⟨granted (group x) ++ more, ?_, by rwa [← List.append_assoc]⟩
          simpa using StopsAt.of_part hclean hstops []
      · obtain ⟨more, hstops, hleft⟩ := h
        refine ⟨more, ?_, hleft⟩
        simpa using StopsAt.of_part clean_nil hstops (todo.flatMap group)

/-! ### The rounds of a loop -/

section

variable {ρ : Type} {round : γ → EStateM ε' σ ρ}

/-- The rounds of `xs` end well, one after the other, and lead from `s` to `s'`. -/
inductive Rounds (round : γ → EStateM ε' σ ρ) : List γ → σ → σ → Prop where
  | nil (s : σ) : Rounds round [] s s
  | cons {x : γ} {xs : List γ} {a : ρ} {s s₁ s' : σ} (hx : (round x).run s = .ok a s₁)
      (hxs : Rounds round xs s₁ s') : Rounds round (x :: xs) s s'

/-- A loop over `todo` stops in the round of `x`, which fails with `e`: the rounds of `before` end well,
in the state `s₁` that the failing round starts from. -/
structure StopsIn (round : γ → EStateM ε' σ ρ) (todo : List γ) (s : σ) (before : List γ) (x : γ) (s₁ : σ)
    (e : ε') (s' : σ) : Prop where
  next : before ++ [x] <+: todo
  earlier : Rounds round before s s₁
  fails : (round x).run s₁ = .error e s'

/-- A loop that fails does so in one of its rounds, and nothing comes after that round. -/
theorem wp_foldlM_stopsIn (round : γ → EStateM ε' σ ρ) (next : β → ρ → β) (todo : List γ) :
    ∀ b s, wp (todo.foldlM (fun b x => do
        let a ← round x
        pure (next b a)) b)
      (fun _ _ => True) (fun e s' => ∃ before x s₁, StopsIn round todo s before x s₁ e s') s := by
  induction todo with
  | nil => exact fun b s => trivial
  | cons x todo ih =>
      intro b s
      simp only [List.foldlM_cons, wp_bind, wp_pure]
      refine wp_mono (wp_run_eq (round x) s) (fun a s₁ hx => ?_) (fun e s' hx => ?_)
      · refine wp_mono (ih (next b a) s₁) (fun _ _ h => h) (fun e s' h => ?_)
        obtain ⟨before, y, s₂, hstops⟩ := h
        refine ⟨x :: before, y, s₂, ?_, .cons hx hstops.earlier, hstops.fails⟩
        exact (List.prefix_cons_inj x).mpr hstops.next
      · exact ⟨[], x, s, ⟨todo, rfl⟩, .nil s, hx⟩

/-- Rounds that end well work through the parts of the agenda that are theirs. -/
theorem Rounds.granted_of {xs : List γ} {s s' : σ} (h : Rounds round xs s s')
    (group : γ → List (Except ε τ)) (At : List τ → σ → Prop) (hround : ∀ x ∈ xs, ∀ done s, At done s →
      wp (round x) (fun _ s' => Clean (group x) ∧ At (done ++ granted (group x)) s') (fun _ _ => True) s) :
    ∀ done, At done s →
      Clean (xs.flatMap group) ∧ At (done ++ granted (xs.flatMap group)) s' := by
  induction h with
  | nil s => exact fun done hat => by simpa using hat
  | cons hx _ ih =>
      intro done hat
      obtain ⟨hclean, hat₁⟩ := wp_of_run_ok (hround _ List.mem_cons_self done _ hat) hx
      obtain ⟨hrest, hat'⟩ := ih (fun y hy => hround y (List.mem_cons_of_mem _ hy)) _ hat₁
      rw [List.flatMap_cons, clean_append, granted_append hclean, ← List.append_assoc]
      exact ⟨⟨hclean, hrest⟩, hat'⟩

end

/-- What comes before an index in a range is the range up to it. -/
theorem eq_range_of_prefix {before : List Nat} {i n : Nat} (h : before ++ [i] <+: List.range n) :
    before = List.range i ∧ i < n := by
  have hlength := h.length_le
  rw [List.length_append, List.length_singleton, List.length_range] at hlength
  have hprefix : before ++ [i] = List.range (before.length + 1) := by
    rw [List.prefix_iff_eq_take.mp h, List.length_append, List.length_singleton, List.take_range,
      Nat.min_eq_left hlength]
  rw [List.range_succ] at hprefix
  obtain ⟨hbefore, hi⟩ := List.append_inj' hprefix rfl
  obtain rfl : i = before.length := List.singleton_inj.mp hi
  exact ⟨hbefore, by omega⟩

end Agenda
