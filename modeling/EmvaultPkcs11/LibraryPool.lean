import EmvaultPkcs11.LibraryProgram

/-! Programs that compete for one device. The threads of a pool all run the same program, each of them
again and again, and a schedule says which thread makes its next call. The rule at the end is for
programs that read first and return only after writing: if every writing call is made while all other
threads are idle, whatever a program run amid others' readings keeps is kept by the pool. -/

open Effect

namespace Program

variable {I : Interface} {ε σ α β ι : Type} (exec : (c : I.Call) → σ → I.Reply c × σ)

/-! ### A program amid the steps of others -/

/-- The weakest precondition of a program when others may move the device along `R` before each of its
calls. -/
def wpAmid (R : σ → σ → Prop) (Q : α → σ → Prop) (E : ε → σ → Prop) : Program I ε α → σ → Prop
  | .done a, s => Q a s
  | .stop e, s => E e s
  | .call c next, s => ∀ s', R s s' → wpAmid R Q E (next (exec c s').1) (exec c s').2

section

variable {exec} {R : σ → σ → Prop} {Q Q' : α → σ → Prop} {E E' : ε → σ → Prop}

@[simp] theorem wpAmid_done (a : α) (s : σ) :
    wpAmid exec R Q E (.done a : Program I ε α) s ↔ Q a s := Iff.rfl

@[simp] theorem wpAmid_stop (e : ε) (s : σ) :
    wpAmid exec R Q E (.stop e : Program I ε α) s ↔ E e s := Iff.rfl

@[simp] theorem wpAmid_call (c : I.Call) (next : I.Reply c → Program I ε α) (s : σ) :
    wpAmid exec R Q E (.call c next) s ↔
      ∀ s', R s s' → wpAmid exec R Q E (next (exec c s').1) (exec c s').2 := Iff.rfl

theorem wpAmid_mono {p : Program I ε α} {s : σ} (h : wpAmid exec R Q E p s)
    (hQ : ∀ a s', Q a s' → Q' a s') (hE : ∀ e s', E e s' → E' e s') : wpAmid exec R Q' E' p s := by
  induction p generalizing s with
  | done a => exact hQ a s h
  | stop e => exact hE e s h
  | call c next ih => exact fun s' hs' => ih _ (h s' hs')

@[simp] theorem wpAmid_bind (p : Program I ε α) (f : α → Program I ε β) (Q : β → σ → Prop) (s : σ) :
    wpAmid exec R Q E (p >>= f) s ↔
      wpAmid exec R (fun a s' => wpAmid exec R Q E (f a) s') E p s := by
  induction p generalizing s with
  | done a => rfl
  | stop e => rfl
  | call c next ih =>
      simp only [call_bind, wpAmid_call]
      exact forall₂_congr fun s' _ => ih _ _

@[simp] theorem wpAmid_ofExcept (x : Except ε α) (s : σ) :
    wpAmid exec R Q E (ofExcept x : Program I ε α) s ↔
      (∀ a, x = .ok a → Q a s) ∧ (∀ e, x = .error e → E e s) := by
  cases x <;> simp [ofExcept]

/-- Without others, a program runs as it does alone. -/
theorem wp_of_wpAmid (hrefl : ∀ s, R s s) {p : Program I ε α} {s : σ} (h : wpAmid exec R Q E p s) :
    wp (run exec p) Q E s := by
  induction p generalizing s with
  | done a => exact h
  | stop e => exact h
  | call c next ih => exact ih _ (h s (hrefl s))

/-- Steps of others before a program goes on change nothing about how it may end. -/
theorem wpAmid_of_rel (htrans : ∀ s t u, R s t → R t u → R s u)
    (hQ : ∀ a s s', R s s' → Q a s → Q a s') (hE : ∀ e s s', R s s' → E e s → E e s')
    {p : Program I ε α} {s s' : σ} (hR : R s s') (h : wpAmid exec R Q E p s) :
    wpAmid exec R Q E p s' := by
  cases p with
  | done a => exact hQ a s s' hR h
  | stop e => exact hE e s s' hR h
  | call c next => exact fun t ht => h t (htrans s s' t hR ht)

end

/-! ### Reading first -/

variable (writes : I.Call → Bool)

def OnlyReads : Program I ε α → Prop
  | .done _ => True
  | .stop _ => True
  | .call c next => writes c = false ∧ ∀ reply, OnlyReads (next reply)

def OnlyWrites : Program I ε α → Prop
  | .done _ => True
  | .stop _ => True
  | .call c next => writes c = true ∧ ∀ reply, OnlyWrites (next reply)

/-- A program that makes its reading calls first and returns only after a writing one. -/
def ReadsThenWrites : Program I ε α → Prop
  | .done _ => False
  | .stop _ => True
  | .call c next =>
      (writes c = true ∧ ∀ reply, OnlyWrites writes (next reply)) ∨
        (writes c = false ∧ ∀ reply, ReadsThenWrites (next reply))

variable {writes}

theorem onlyReads_bind {p : Program I ε α} {f : α → Program I ε β} (hp : OnlyReads writes p)
    (hf : ∀ a, OnlyReads writes (f a)) : OnlyReads writes (p >>= f) := by
  induction p with
  | done a => exact hf a
  | stop e => trivial
  | call c next ih => exact ⟨hp.1, fun reply => ih reply (hp.2 reply)⟩

theorem onlyWrites_bind {p : Program I ε α} {f : α → Program I ε β} (hp : OnlyWrites writes p)
    (hf : ∀ a, OnlyWrites writes (f a)) : OnlyWrites writes (p >>= f) := by
  induction p with
  | done a => exact hf a
  | stop e => trivial
  | call c next ih => exact ⟨hp.1, fun reply => ih reply (hp.2 reply)⟩

theorem readsThenWrites_bind {p : Program I ε α} {f : α → Program I ε β} (hp : OnlyReads writes p)
    (hf : ∀ a, ReadsThenWrites writes (f a)) : ReadsThenWrites writes (p >>= f) := by
  induction p with
  | done a => exact hf a
  | stop e => trivial
  | call c next ih => exact Or.inr ⟨hp.1, fun reply => ih reply (hp.2 reply)⟩

theorem readsThenWrites_bind_of_onlyWrites {p : Program I ε α} {f : α → Program I ε β}
    (hp : OnlyWrites writes p) (hf : ∀ a, OnlyWrites writes (f a) ∧ ReadsThenWrites writes (f a)) :
    ReadsThenWrites writes (p >>= f) := by
  cases p with
  | done a => exact (hf a).2
  | stop e => trivial
  | call c next => exact Or.inl ⟨hp.1, fun reply => onlyWrites_bind (hp.2 reply) fun a => (hf a).1⟩

/-! ### Pools -/

/-- A thread in the middle of its program: what is left of it, and whether it has made a writing call. -/
structure Thread (I : Interface) (ε α : Type) where
  rest : Program I ε α
  wrote : Bool

/-- The device, the threads that are in the middle of the program, and what runs of the program have
returned so far. -/
structure Pool (I : Interface) (ε α σ ι : Type) where
  device : σ
  threads : ι → Option (Thread I ε α)
  results : List (Except ε α)

namespace Pool

/-- A pool of idle threads. -/
def start (s : σ) : Pool I ε α σ ι := ⟨s, fun _ => none, []⟩

/-- The values returned, oldest first. -/
def returned (s : Pool I ε α σ ι) : List α := s.results.filterMap Except.toOption

@[simp] theorem returned_append_ok (d : σ) (threads : ι → Option (Thread I ε α))
    (results : List (Except ε α)) (a : α) :
    returned ⟨d, threads, results ++ [.ok a]⟩ = returned ⟨d, threads, results⟩ ++ [a] := by
  simp [returned, Except.toOption]

@[simp] theorem returned_append_error (d : σ) (threads : ι → Option (Thread I ε α))
    (results : List (Except ε α)) (e : ε) :
    returned ⟨d, threads, results ++ [.error e]⟩ = returned ⟨d, threads, results⟩ := by
  simp [returned, Except.toOption]

variable [DecidableEq ι]

/-- Thread `i` has this left of its program; if that is nothing, it returns and is idle. -/
def settle (s : Pool I ε α σ ι) (i : ι) (wrote : Bool) : Program I ε α → Pool I ε α σ ι
  | .done a => ⟨s.device, Function.update s.threads i none, s.results ++ [.ok a]⟩
  | .stop e => ⟨s.device, Function.update s.threads i none, s.results ++ [.error e]⟩
  | .call c next => ⟨s.device, Function.update s.threads i (some ⟨.call c next, wrote⟩), s.results⟩

variable (program : Program I ε α)

/-- What thread `i` goes on with. An idle thread starts the program. -/
def next (s : Pool I ε α σ ι) (i : ι) : Thread I ε α := (s.threads i).getD ⟨program, false⟩

variable (writes)

/-- Thread `i` makes its next call. -/
def step (s : Pool I ε α σ ι) (i : ι) : Pool I ε α σ ι :=
  match (s.next program i).rest with
  | .call c next =>
      settle ⟨(exec c s.device).2, s.threads, s.results⟩ i ((s.next program i).wrote || writes c)
        (next (exec c s.device).1)
  | rest => s.settle i (s.next program i).wrote rest

def run (s : Pool I ε α σ ι) (schedule : List ι) : Pool I ε α σ ι :=
  schedule.foldl (step exec writes program) s

/-- The next call of thread `i` is a reading one, or all other threads are idle. -/
def MayStep (s : Pool I ε α σ ι) (i : ι) : Prop :=
  match (s.next program i).rest with
  | .call c _ => writes c = true → ∀ j, j ≠ i → s.threads j = none
  | _ => True

instance [Fintype ι] (s : Pool I ε α σ ι) (i : ι) : Decidable (MayStep writes program s i) := by
  unfold MayStep
  split <;> infer_instance

/-- Every writing call of a schedule is made while all other threads are idle. -/
def Exclusive : Pool I ε α σ ι → List ι → Prop
  | _, [] => True
  | s, i :: schedule => MayStep writes program s i ∧ Exclusive (s.step exec writes program i) schedule

instance decidableExclusive [Fintype ι] : ∀ (s : Pool I ε α σ ι) (schedule : List ι),
    Decidable (Exclusive exec writes program s schedule)
  | _, [] => inferInstanceAs (Decidable True)
  | s, i :: schedule =>
      have := decidableExclusive (s.step exec writes program i) schedule
      inferInstanceAs (Decidable (_ ∧ _))

/-- No thread is in the middle of its writing calls. -/
def Quiet (s : Pool I ε α σ ι) : Prop := ∀ i t, s.threads i = some t → t.wrote = false

/-! ### The rule for exclusive writers -/

section Exclusive

variable (R : σ → σ → Prop) (Good : List α → σ → Prop)

/-- Left to itself, amid others' readings, the rest of a program ends well: what is `Good` for the values
in the log still is, with the value it returns added if it returns one. -/
def EndsWell (log : List α) (rest : Program I ε α) (d : σ) : Prop :=
  wpAmid exec R (fun a d' => Good (log ++ [a]) d') (fun _ d' => Good log d') rest d

/-- Between writings: every thread has only read so far. -/
structure Orderly (s : Pool I ε α σ ι) : Prop where
  good : Good s.returned s.device
  threads : ∀ i t, s.threads i = some t → t.wrote = false ∧ ReadsThenWrites writes t.rest ∧
    EndsWell exec R Good s.returned t.rest s.device

/-- Thread `i` is in the middle of its writing calls, and others have done no more than read. -/
structure Writing (s : Pool I ε α σ ι) (i : ι) : Prop where
  writer : ∃ c next, s.threads i = some ⟨.call c next, true⟩ ∧ OnlyWrites writes (.call c next) ∧
    EndsWell exec R Good s.returned (.call c next) s.device
  others : ∀ j ≠ i, ∀ t, s.threads j = some t → t.wrote = false ∧ ReadsThenWrites writes t.rest
  good : ∃ d, Good s.returned d

def Kept (s : Pool I ε α σ ι) : Prop :=
  Orderly exec writes R Good s ∨ ∃ i, Writing exec writes R Good s i

variable {exec writes program R Good}

/-- What holds of all threads but one, and of what replaces that one. -/
theorem threads_update {threads : ι → Option (Thread I ε α)} {i : ι} {new : Option (Thread I ε α)}
    {P : Thread I ε α → Prop} (hothers : ∀ j ≠ i, ∀ t, threads j = some t → P t)
    (hnew : ∀ t, new = some t → P t) : ∀ j t, Function.update threads i new j = some t → P t := by
  intro j t hj
  by_cases heq : j = i
  · subst heq
    exact hnew t (by simpa using hj)
  · exact hothers j heq t (by simpa [heq] using hj)

/-- After a reading call between writings. -/
theorem orderly_settle {s : Pool I ε α σ ι} {i : ι} {rest : Program I ε α}
    (h : Orderly exec writes R Good s) (hreads : ReadsThenWrites writes rest)
    (hends : EndsWell exec R Good s.returned rest s.device) :
    Orderly exec writes R Good (s.settle i false rest) := by
  cases rest with
  | done a => exact hreads.elim
  | stop e =>
      refine ⟨?_, threads_update (fun j _ => ?_) fun t ht => ?_⟩
      · rw [settle, returned_append_error]
        exact h.good
      · rw [settle, returned_append_error]
        exact h.threads j
      · cases ht
  | call c next =>
      refine ⟨h.good, threads_update (fun j _ => h.threads j) fun t ht => ?_⟩
      cases ht
      exact ⟨rfl, hreads, hends⟩

/-- After a reading call beside a writer. -/
theorem writing_settle {s : Pool I ε α σ ι} {w i : ι} {rest : Program I ε α}
    (h : Writing exec writes R Good s w) (hne : w ≠ i) (hreads : ReadsThenWrites writes rest) :
    Writing exec writes R Good (s.settle i false rest) w := by
  obtain ⟨⟨c, next, hw, honly, hends⟩, hothers, hgood⟩ := h
  cases rest with
  | done a => exact hreads.elim
  | stop e =>
      refine ⟨⟨c, next, ?_, honly, ?_⟩, fun j hj t ht => ?_, ?_⟩
      · simp only [settle, Function.update_of_ne hne, hw]
      · rw [settle, returned_append_error]
        exact hends
      · by_cases heq : j = i
        · simp [settle, heq] at ht
        · exact hothers j hj t (by simpa [settle, heq] using ht)
      · rw [settle, returned_append_error]
        exact hgood
  | call c' next' =>
      refine ⟨⟨c, next, ?_, honly, hends⟩, fun j hj t ht => ?_, hgood⟩
      · simp only [settle, Function.update_of_ne hne, hw]
      · by_cases heq : j = i
        · simp only [settle, heq, Function.update_self, Option.some.injEq] at ht
          exact ht ▸ ⟨rfl, hreads⟩
        · exact hothers j hj t (by simpa [settle, heq] using ht)

/-- After a writing call, with all others idle. -/
theorem kept_settle {s : Pool I ε α σ ι} {i : ι} {rest : Program I ε α}
    (hidle : ∀ j ≠ i, s.threads j = none) (hwrites : OnlyWrites writes rest)
    (hends : EndsWell exec R Good s.returned rest s.device) (hgood : ∃ d, Good s.returned d) :
    Kept exec writes R Good (s.settle i true rest) := by
  have hothers (P : Thread I ε α → Prop) : ∀ j ≠ i, ∀ t, s.threads j = some t → P t := by
    intro j hj t ht
    rw [hidle j hj] at ht
    cases ht
  cases rest with
  | done a =>
      refine Or.inl ⟨?_, threads_update (hothers _) fun t ht => by cases ht⟩
      rw [settle, returned_append_ok]
      exact hends
  | stop e =>
      refine Or.inl ⟨?_, threads_update (hothers _) fun t ht => by cases ht⟩
      rw [settle, returned_append_error]
      exact hends
  | call c next =>
      refine Or.inr ⟨i, ⟨c, next, by simp [settle], hwrites, hends⟩, fun j hj t ht => ?_, hgood⟩
      simp [settle, hj, hidle j hj] at ht

variable (hreads : ∀ c s, writes c = false → R s (exec c s).2)
  (hrefl : ∀ s, R s s) (htrans : ∀ s t u, R s t → R t u → R s u)
  (hstable : ∀ log s s', R s s' → Good log s → Good log s')
  (hshape : ReadsThenWrites writes program)
  (hprogram : ∀ log s, Good log s → EndsWell exec R Good log program s)

include htrans hstable in
theorem EndsWell.read {log : List α} {rest : Program I ε α} {d d' : σ} (hR : R d d')
    (h : EndsWell exec R Good log rest d) : EndsWell exec R Good log rest d' :=
  wpAmid_of_rel htrans (fun a => hstable (log ++ [a])) (fun _ => hstable log) hR h

omit [DecidableEq ι] in
include htrans hstable in
theorem Orderly.read {s : Pool I ε α σ ι} {d : σ} (hR : R s.device d)
    (h : Orderly exec writes R Good s) : Orderly exec writes R Good ⟨d, s.threads, s.results⟩ :=
  ⟨hstable _ _ _ hR h.good, fun i t ht =>
    ⟨(h.threads i t ht).1, (h.threads i t ht).2.1, (h.threads i t ht).2.2.read htrans hstable hR⟩⟩

omit [DecidableEq ι] in
include htrans hstable in
theorem Writing.read {s : Pool I ε α σ ι} {w : ι} {d : σ} (hR : R s.device d)
    (h : Writing exec writes R Good s w) : Writing exec writes R Good ⟨d, s.threads, s.results⟩ w := by
  obtain ⟨⟨c, next, hw, honly, hends⟩, hothers, hgood⟩ := h
  exact ⟨⟨c, next, hw, honly, hends.read htrans hstable hR⟩, hothers, hgood⟩

include hreads hrefl htrans hstable hshape hprogram in
/-- Step between writings. -/
theorem Orderly.step {s : Pool I ε α σ ι} {i : ι} (hmay : MayStep writes program s i)
    (h : Orderly exec writes R Good s) : Kept exec writes R Good (s.step exec writes program i) := by
  have hnext : (s.next program i).wrote = false ∧ ReadsThenWrites writes (s.next program i).rest ∧
      EndsWell exec R Good s.returned (s.next program i).rest s.device := by
    unfold Pool.next
    cases hi : s.threads i with
    | none => exact ⟨rfl, hshape, hprogram _ _ h.good⟩
    | some t => exact h.threads i t hi
  obtain ⟨hwrote, hrest, hends⟩ := hnext
  unfold Pool.step
  rw [hwrote]
  cases hcall : (s.next program i).rest with
  | done a => simp [hcall, ReadsThenWrites] at hrest
  | stop e => exact Or.inl (orderly_settle h trivial (hcall ▸ hends))
  | call c next =>
      rw [hcall] at hrest hends
      have hafter := hends s.device (hrefl _)
      rcases hrest with ⟨hwrites, honly⟩ | ⟨hnot, hrest⟩
      · simp only [hwrites, Bool.or_true]
        rw [MayStep, hcall] at hmay
        exact kept_settle (hmay hwrites) (honly _) hafter ⟨_, h.good⟩
      · simp only [hnot, Bool.or_false]
        exact Or.inl (orderly_settle (h.read htrans hstable (hreads c s.device hnot)) (hrest _) hafter)

include hreads hrefl htrans hstable hshape in
/-- Step beside a writer, or by the writer. -/
theorem Writing.step {s : Pool I ε α σ ι} {w i : ι} (hmay : MayStep writes program s i)
    (h : Writing exec writes R Good s w) : Kept exec writes R Good (s.step exec writes program i) := by
  by_cases heq : i = w
  · subst heq
    obtain ⟨⟨c, next, hw, honly, hends⟩, _, hgood⟩ := h
    have hnext : s.next program i = ⟨.call c next, true⟩ := by simp [Pool.next, hw]
    rw [MayStep, hnext] at hmay
    have hidle := hmay honly.1
    simp only [Pool.step, hnext, Bool.true_or]
    exact kept_settle hidle (honly.2 _) (hends s.device (hrefl _)) hgood
  · have hnext : (s.next program i).wrote = false ∧
        ReadsThenWrites writes (s.next program i).rest := by
      unfold Pool.next
      cases hi : s.threads i with
      | none => exact ⟨rfl, hshape⟩
      | some t => exact h.others i heq t hi
    obtain ⟨hwrote, hrest⟩ := hnext
    unfold Pool.step
    rw [hwrote]
    cases hcall : (s.next program i).rest with
    | done a => simp [hcall, ReadsThenWrites] at hrest
    | stop e => exact Or.inr ⟨w, writing_settle h (Ne.symm heq) trivial⟩
    | call c next =>
        rw [hcall] at hrest
        rcases hrest with ⟨hwrites, _⟩ | ⟨hnot, hrest⟩
        · -- a writing call beside a writer is none that may be made
          obtain ⟨_, _, hw, _⟩ := h.writer
          rw [MayStep, hcall] at hmay
          rw [hmay hwrites w (Ne.symm heq)] at hw
          cases hw
        · simp only [hnot, Bool.or_false]
          exact Or.inr ⟨w, writing_settle (h.read htrans hstable (hreads c s.device hnot))
            (Ne.symm heq) (hrest _)⟩

include hreads hrefl htrans hstable hshape hprogram in
/-- Run: a schedule whose writing calls are exclusive. -/
theorem kept_run (schedule : List ι) : ∀ s : Pool I ε α σ ι, Kept exec writes R Good s →
    Exclusive exec writes program s schedule → Kept exec writes R Good (s.run exec writes program schedule) := by
  induction schedule with
  | nil => exact fun s h _ => h
  | cons i schedule ih =>
      intro s h hexclusive
      obtain ⟨hmay, hrest⟩ := hexclusive
      refine ih (s.step exec writes program i) ?_ hrest
      rcases h with h | ⟨w, h⟩
      · exact h.step hreads hrefl htrans hstable hshape hprogram hmay
      · exact h.step hreads hrefl htrans hstable hshape hmay

omit [DecidableEq ι] in
theorem kept_start {d : σ} (hgood : Good [] d) :
    Kept exec writes R Good (start d : Pool I ε α σ ι) :=
  Or.inl ⟨hgood, fun i t ht => by cases ht⟩

omit [DecidableEq ι] in
/-- The values returned are those of a good state at every time. -/
theorem Kept.exists_good {s : Pool I ε α σ ι} (h : Kept exec writes R Good s) :
    ∃ d, Good s.returned d := by
  rcases h with h | ⟨_, h⟩
  · exact ⟨_, h.good⟩
  · exact h.good

omit [DecidableEq ι] in
/-- While nobody writes, the device is good. -/
theorem Kept.good_of_quiet {s : Pool I ε α σ ι} (h : Kept exec writes R Good s) (hquiet : s.Quiet) :
    Good s.returned s.device := by
  rcases h with h | ⟨i, h⟩
  · exact h.good
  · obtain ⟨_, _, hi, _⟩ := h.writer
    cases hquiet i _ hi

end Exclusive

end Pool

end Program
